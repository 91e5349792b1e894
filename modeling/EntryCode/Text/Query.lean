import EntryCode.Text.Number
import EntryCode.Text.Utf8

/-!
Fields in a line of text, as in `name=value&other=two+words`. A plus stands for a blank, and a
percent sign with two hexadecimal digits for a byte.
-/

namespace EntryCode.Text.Query

/-- A name with its value. A field without an equals sign has an empty value. -/
structure Field where
  name : Bytes
  value : Bytes
  deriving DecidableEq, Repr

def unescape? : List Char → Option Bytes
  | [] => some []
  | '%' :: high :: low :: rest => do
    let h ← hexValue? high
    let l ← hexValue? low
    return BitVec.ofNat 8 (16 * h + l) :: (← unescape? rest)
  | c :: rest => do
    if c = '%' then none
    else return utf8 (if c = '+' then " " else c.toString) ++ (← unescape? rest)

def field? (text : List Char) : Option Field := do
  let (name, rest) := text.span (· ≠ '=')
  return { name := ← unescape? name, value := ← unescape? (rest.drop 1) }

/-- All fields of a text. No semicolon may stand in it. -/
def fields? (text : List Char) : Option (List Field) :=
  if text.contains ';' then none
  else ((text.splitOn '&').filter (· ≠ [])).mapM field?

/-- The values of the fields with a name, in the order of the text. -/
def values (name : String) (fields : List Field) : List Bytes :=
  (fields.filter fun f => f.name = utf8 name).map Field.value

end EntryCode.Text.Query
