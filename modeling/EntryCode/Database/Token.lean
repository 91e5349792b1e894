import EntryCode.Database.Value
import EntryCode.Text.Number

/-!
The words, names, numbers and marks of which statements consist. Characters are single bytes; those
beyond ASCII count as letters. Blanks and comments stand between tokens and say nothing.
-/

namespace EntryCode.Database

inductive Token where
  | word (text : List Char)
  | name (quote : Char) (text : List Char)
  | string (text : List Char)
  | number (text : List Char)
  | grouped (text : List Char)
  | blob (bytes : Bytes)
  | variable (text : List Char)
  | mark (text : String)
  /-- What cannot be read; nothing follows it. -/
  | unknown
  deriving DecidableEq, Repr

/-- A token, with the text from its start on and the text behind it. -/
structure Lexeme where
  token : Token
  start : List Char
  rest : List Char
  deriving DecidableEq, Repr

namespace Token

def lower (text : List Char) : List Char :=
  text.map Char.toLower

section Parts

def isSpace (c : Char) : Bool :=
  " \t\n\x0c\r".contains c

def isWordChar (c : Char) : Bool :=
  c.isAlphanum || c = '_' || c = '$' || 0x80 ≤ c.toNat

def isHexDigit (c : Char) : Bool :=
  (Text.hexValue? c).isSome

/-- The text up to a closing quote, which is written twice inside it. -/
def untilQuote? (quote : Char) : List Char → Option (List Char × List Char)
  | [] => none
  | [c] => if c = quote then some ([], []) else none
  | c :: d :: rest =>
    if c ≠ quote then (untilQuote? quote (d :: rest)).map fun (t, r) => (c :: t, r)
    else if d = quote then (untilQuote? quote rest).map fun (t, r) => (c :: t, r)
    else some ([], d :: rest)

/-- What follows a comment of several lines, which may also run to the end. -/
def afterComment : List Char → List Char
  | '*' :: '/' :: rest => rest
  | _ :: rest => afterComment rest
  | [] => []

def digits (isDigit : Char → Bool) (text : List Char) : List Char × List Char :=
  text.span fun c => isDigit c || c = '_'

def fraction : List Char → List Char × List Char
  | '.' :: rest => let (part, rest) := digits Char.isDigit rest; ('.' :: part, rest)
  | rest => ([], rest)

def exponent : List Char → List Char × List Char
  | e :: c :: rest =>
    let isSigned := c = '+' ∨ c = '-'
    let after := if isSigned then rest else c :: rest
    if (e = 'e' ∨ e = 'E') ∧ after.head?.any Char.isDigit then
      let (part, after) := digits Char.isDigit after
      (e :: (if isSigned then [c] else []) ++ part, after)
    else ([], e :: c :: rest)
  | rest => ([], rest)

def number? (input : List Char) : Option (Token × List Char) :=
  let (text, rest) := match input with
    | '0' :: x :: d :: rest =>
      if (x = 'x' ∨ x = 'X') ∧ isHexDigit d then
        let (part, rest) := digits isHexDigit rest
        ('0' :: x :: d :: part, rest)
      else decimal input
    | _ => decimal input
  if rest.head?.any isWordChar then none
  else some (if text.contains '_' then .grouped text else .number text, rest)
where
  decimal (input : List Char) : List Char × List Char :=
    let (whole, rest) := digits Char.isDigit input
    let (part, rest) := fraction rest
    let (power, rest) := exponent rest
    (whole ++ part ++ power, rest)

def longMarks : List String :=
  ["->>", "->", "==", "<=", "<>", "<<", ">=", ">>", "!=", "||"]

def isMark (c : Char) : Bool :=
  "=().,+-;*/%&~<>|".contains c

def mark? (input : List Char) : Option (Token × List Char) :=
  match longMarks.find? fun m => m.toList.isPrefixOf input with
  | some m => some (.mark m, input.drop m.length)
  | none => match input with
    | c :: rest => if isMark c then some (.mark c.toString, rest) else none
    | [] => none

end Parts

/-- The token at the start of a text that is not blank, and what follows it. -/
def scan? : List Char → Option (Token × List Char)
  | [] => none
  | c :: rest =>
    if c.isDigit ∨ (c = '.' ∧ rest.head?.any Char.isDigit) then number? (c :: rest)
    else if (c = 'x' ∨ c = 'X') ∧ rest.head? = some '\'' then
      let (hex, after) := (rest.drop 1).span isHexDigit
      if after.head? = some '\'' then (Text.bytesOfHex? hex).map fun b => (.blob b, after.drop 1)
      else none
    else if isWordChar c ∧ c ≠ '$' then
      let (text, rest) := (c :: rest).span isWordChar
      some (.word text, rest)
    else if c = '\'' then (untilQuote? c rest).map fun (t, r) => (.string t, r)
    else if c = '"' ∨ c.toNat = 0x60 then (untilQuote? c rest).map fun (t, r) => (.name c t, r)
    else if c = '[' then
      let (text, after) := rest.span (· ≠ ']')
      if after.isEmpty then none else some (.name c text, after.drop 1)
    else if c = '?' then
      let (text, rest) := rest.span Char.isDigit
      some (.variable text, rest)
    else if "$@#:".contains c then
      let (text, rest) := rest.span isWordChar
      if text.isEmpty then none else some (.variable (c :: text), rest)
    else mark? (c :: rest)

/-- The tokens of a text; a token takes at least one unit of `fuel`. -/
def scanAll : Nat → List Char → List Lexeme
  | _, [] => []
  | 0, text => [⟨.unknown, text, []⟩]
  | fuel + 1, '-' :: '-' :: rest => scanAll fuel (rest.dropWhile (· ≠ '\n'))
  | fuel + 1, '/' :: '*' :: c :: rest => scanAll fuel (afterComment (c :: rest))
  | fuel + 1, '\xef' :: '\xbb' :: '\xbf' :: rest => scanAll fuel rest
  | fuel + 1, c :: rest =>
    if isSpace c then scanAll fuel rest
    else match scan? (c :: rest) with
      | some (token, after) => ⟨token, c :: rest, after⟩ :: scanAll fuel after
      | none => [⟨.unknown, c :: rest, []⟩]

def all (text : List Char) : List Lexeme :=
  scanAll text.length text

section Names

def reserved : List String :=
  ["add", "all", "alter", "and", "as", "autoincrement", "between", "case", "check", "collate",
   "commit", "constraint", "create", "default", "deferrable", "delete", "distinct", "drop", "else",
   "escape", "except", "exists", "foreign", "from", "group", "having", "in", "index", "insert",
   "intersect", "into", "is", "isnull", "join", "limit", "not", "nothing", "notnull", "null", "on",
   "or", "order", "primary", "references", "returning", "select", "set", "table", "then", "to",
   "transaction", "union", "unique", "update", "using", "values", "when", "where"]

def isReserved (text : List Char) : Bool :=
  reserved.contains (String.ofList (lower text))

def name? : Token → Option (List Char)
  | .word text => if isReserved text then none else some text
  | .name _ text | .string text => some text
  | _ => none

def isWord (word : String) : Token → Bool
  | .word text => lower text = word.toList
  | _ => false

end Names

end Token

end EntryCode.Database
