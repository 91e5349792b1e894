import EntryCode.Text.Number
import EntryCode.Text.Printable

/-!
Text inside messages. A quoted text stands between quotation marks, with a backslash before the
mark and before a backslash, short escapes for the usual controls, and code point numbers for all
other characters that are not printable.
-/

namespace EntryCode.Text

def controlLetter? (c : Char) : Option Char :=
  [(7, 'a'), (8, 'b'), (12, 'f'), (10, 'n'), (13, 'r'), (9, 't'), (11, 'v')].lookup c.toNat

/-- One character inside text that ends at `mark`. -/
def escaped (mark c : Char) : String :=
  if c = mark ∨ c = '\\' then String.ofList ['\\', c]
  else if isPrintable c then c.toString
  else match controlLetter? c with
    | some letter => String.ofList ['\\', letter]
    | none =>
      if c.toNat < 0x80 then "\\x" ++ hexPadded 2 c.toNat
      else if c.toNat < 0x10000 then "\\u" ++ hexPadded 4 c.toNat
      else "\\U" ++ hexPadded 8 c.toNat

def quoted (text : String) : String :=
  "\"" ++ text.foldl (fun out c => out ++ escaped '"' c) "" ++ "\""

def quotedByte (b : Byte) : String :=
  "'" ++ escaped '\'' (Char.ofNat b.toNat) ++ "'"

def isBlank (c : Char) : Bool :=
  let n := c.toNat
  (9 ≤ n && n ≤ 13) || n = 0x20 || n = 0x85 || n = 0xa0 || n = 0x1680 ||
    (0x2000 ≤ n && n ≤ 0x200a) || n = 0x2028 || n = 0x2029 || n = 0x202f || n = 0x205f || n = 0x3000

def trimBlanks (text : String) : String :=
  String.ofList ((text.toList.dropWhile isBlank).reverse.dropWhile isBlank).reverse

/-- ASCII letters in lower case. -/
def lower (text : String) : String :=
  text.map Char.toLower

/-- What a text has in common with all that differ from it in the case of ASCII letters only. The
long s and the Kelvin sign are forms of such letters. -/
def foldCase (text : String) : String :=
  text.map fun c => if c = '\u017f' then 's' else if c = '\u212a' then 'k' else c.toLower

end EntryCode.Text
