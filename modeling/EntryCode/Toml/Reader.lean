import EntryCode.Toml.Literal
import EntryCode.Toml.Term

/-!
Reading a document into statements. A reading gives what was read and the characters after it, or
nothing where the text is no TOML.
-/

namespace EntryCode.Toml

abbrev Input := List Char

section Filler

def isBlank (c : Char) : Bool :=
  c = ' ' || c = '\t'

def isLineEnd (c : Char) : Bool :=
  c = '\n' || c = '\r'

def skipBlanks (input : Input) : Input :=
  input.dropWhile isBlank

def skipFiller (inComment : Bool) : Input → Input
  | [] => []
  | c :: rest =>
    if isLineEnd c then skipFiller false rest
    else if inComment ∨ isBlank c then skipFiller inComment rest
    else if c = '#' then skipFiller true rest
    else c :: rest

def endsLine (input : Input) : Bool :=
  match skipBlanks input with
  | [] => true
  | c :: _ => isLineEnd c || c = '#'

/-- Control characters may not occur, and a carriage return stands before a line feed only. -/
def charactersOk : Input → Bool
  | [] => true
  | '\r' :: rest => rest.head? = some '\n' && charactersOk rest
  | c :: rest =>
    (isBlank c || c = '\n' || (0x20 ≤ c.toNat && c.toNat ≠ 0x7f)) && charactersOk rest

end Filler

section Strings

def character? (n : Nat) : Option Char :=
  if n.isValidChar then some (Char.ofNat n) else none

/-- The character of an escape of `n` hexadecimal digits. -/
def hexEscape? (n : Nat) (input : Input) : Option (Char × Input) := do
  let digits := input.take n
  if digits.length = n ∧ digits.all isHexDigit then
    return (← character? (ofDigits 16 digits), input.drop n)
  else none

/-- The character that an escape stands for; the backslash was read. -/
def escape? : Input → Option (Char × Input)
  | 'b' :: rest => some ('\x08', rest)
  | 't' :: rest => some ('\t', rest)
  | 'n' :: rest => some ('\n', rest)
  | 'f' :: rest => some ('\x0c', rest)
  | 'r' :: rest => some ('\r', rest)
  | 'e' :: rest => some ('\x1b', rest)
  | '"' :: rest => some ('"', rest)
  | '\\' :: rest => some ('\\', rest)
  | 'x' :: rest => hexEscape? 2 rest
  | 'u' :: rest => hexEscape? 4 rest
  | 'U' :: rest => hexEscape? 8 rest
  | _ => none

/-- The text of a string with escapes. In a string of several lines a backslash at the end of a
line removes the line end and all blanks after it. -/
def unescape? (multiline : Bool) : Nat → Input → Option (List Char)
  | _, [] => some []
  | 0, _ => none
  | fuel + 1, '\\' :: rest =>
    let (gap, after) := rest.span fun c => isBlank c || isLineEnd c
    if !gap.isEmpty then
      if multiline && gap.contains '\n' then unescape? multiline fuel after else none
    else do
      let (c, rest) ← escape? rest
      return c :: (← unescape? multiline fuel rest)
  | fuel + 1, c :: rest => do return c :: (← unescape? multiline fuel rest)

def singleLine? (mark : Char) : Input → Option (List Char × Input)
  | [] => none
  | '\\' :: c :: rest =>
    if mark = '"' then do
      let (body, rest) ← singleLine? mark rest
      return ('\\' :: c :: body, rest)
    else do
      let (body, rest) ← singleLine? mark (c :: rest)
      return ('\\' :: body, rest)
  | c :: rest =>
    if c = mark then some ([], rest)
    else if isLineEnd c then none
    else do
      let (body, rest) ← singleLine? mark rest
      return (c :: body, rest)

/-- Whether a text ends in five marks; `seen` is the text backwards. A text with escapes may have
a backslash before them. -/
def fiveMarks (mark : Char) (seen : List Char) : Bool :=
  List.isPrefixOf (List.replicate 5 mark) seen && !(mark = '"' && seen[5]? = some '\\')

/-- The characters of a string up to its three closing marks. The last of more than three marks
close it, and there are at most five of them. -/
def multiLine? (mark : Char) (seen : List Char) : Input → Option (List Char × Input)
  | [] => none
  | '\\' :: c :: rest =>
    if mark = '"' then multiLine? mark (c :: '\\' :: seen) rest
    else multiLine? mark ('\\' :: seen) (c :: rest)
  | c :: rest =>
    if c = mark ∧ List.isPrefixOf [mark, mark] rest then
      if rest[2]? = some mark then
        if fiveMarks mark (mark :: mark :: mark :: seen) then none
        else multiLine? mark (c :: seen) rest
      else some (seen.reverse, rest.drop 2)
    else multiLine? mark (c :: seen) rest

/-- A line end right after the opening marks is no part of the text. -/
def dropFirstLineEnd : List Char → List Char
  | '\n' :: rest | '\r' :: '\n' :: rest => rest
  | text => text

/-- A string of one line; its opening mark is the first character. -/
def lineString? : Input → Option (String × Input)
  | '"' :: rest => do
    let (body, rest) ← singleLine? '"' rest
    return (String.ofList (← unescape? false body.length body), rest)
  | '\'' :: rest => do
    let (body, rest) ← singleLine? '\'' rest
    return (String.ofList body, rest)
  | _ => none

def string? : Input → Option (String × Input)
  | '"' :: '"' :: '"' :: rest => do
    let (body, rest) ← multiLine? '"' [] rest
    let body := dropFirstLineEnd body
    return (String.ofList (← unescape? true body.length body), rest)
  | '\'' :: '\'' :: '\'' :: rest => do
    let (body, rest) ← multiLine? '\'' [] rest
    return (String.ofList (dropFirstLineEnd body), rest)
  | input => lineString? input

end Strings

section Keys

def keyPart? (input : Input) : Option (String × Input) :=
  match input with
  | '"' :: _ | '\'' :: _ => lineString? input
  | _ =>
    let (part, rest) := input.span isBare
    if part.isEmpty then none else some (String.ofList part, rest)

def key? : Nat → Input → Option (Key × Input)
  | 0, _ => none
  | fuel + 1, input => do
    let (part, rest) ← keyPart? (skipBlanks input)
    match skipBlanks rest with
    | '.' :: rest =>
      let (parts, rest) ← key? fuel rest
      return (part :: parts, rest)
    | rest => return ([part], rest)

end Keys

section Scalars

def digitTerm? (input : Input) : Option (Term × Input) :=
  let based (base : Nat) (isDigit : Char → Bool) (rest : Input) : Option (Term × Input) := do
    let (digits, rest) := rest.span fun c => isDigit c || c = '_'
    return (.integer (← integerOfBase? base digits), rest)
  match input with
  | '0' :: 'x' :: rest => based 16 isHexDigit rest
  | '0' :: 'o' :: rest => based 8 (fun c => '0' ≤ c && c ≤ '7') rest
  | '0' :: 'b' :: rest => based 2 (fun c => c = '0' || c = '1') rest
  | _ =>
    match input.dropWhile Char.isDigit with
    | '-' :: _ | ':' :: _ =>
      let (text, rest) := input.span fun c => c.isDigit || "-:Tt .Zz+".toList.contains c
      let text := (text.reverse.dropWhile (· = ' ')).reverse
      if isDatetime text then some (.datetime, rest) else none
    | _ => none

def decimalTerm? (sign : List Char) (input : Input) : Option (Term × Input) :=
  let (digits, rest) := input.span fun c => c.isDigit || c = '_'
  match rest with
  | '.' :: _ | 'e' :: _ | 'E' :: _ =>
    let (text, rest) := input.span fun c => c.isDigit || "_.-+eE".toList.contains c
    if isFloat (sign ++ text) then some (.float, rest) else none
  | _ => do return (.integer (← integer? (sign ++ digits)), rest)

def signedTerm? (sign : Char) (input : Input) : Option (Term × Input) :=
  match input with
  | 'i' :: 'n' :: 'f' :: rest | 'n' :: 'a' :: 'n' :: rest => some (.float, rest)
  | '0' :: 'x' :: _ | '0' :: 'o' :: _ | '0' :: 'b' :: _ => none
  | c :: _ => if c.isDigit then decimalTerm? [sign] input else none
  | [] => none

def scalar? (input : Input) : Option (Term × Input) :=
  match input with
  | '"' :: _ | '\'' :: _ => do
    let (s, rest) ← string? input
    return (.string s, rest)
  | '+' :: rest => signedTerm? '+' rest
  | '-' :: rest => signedTerm? '-' rest
  | 't' :: 'r' :: 'u' :: 'e' :: rest => some (.boolean true, rest)
  | 'f' :: 'a' :: 'l' :: 's' :: 'e' :: rest => some (.boolean false, rest)
  | 'i' :: 'n' :: 'f' :: rest | 'n' :: 'a' :: 'n' :: rest => some (.float, rest)
  | c :: _ =>
    if c.isDigit then
      match digitTerm? input with
      | some found => some found
      | none => decimalTerm? [] input
    else none
  | [] => none

end Scalars

section Values

mutual

def term? : Nat → Input → Option (Term × Input)
  | 0, _ => none
  | fuel + 1, input =>
    match skipBlanks input with
    | '[' :: rest => do
      let (items, rest) ← items? fuel rest
      return (.array items, rest)
    | '\x7b' :: rest => do
      let (entries, rest) ← entries? fuel rest
      return (.inlineTable entries, rest)
    | input => scalar? input

/-- The items of an array from an opening bracket or a comma on. -/
def items? : Nat → Input → Option (List Term × Input)
  | 0, _ => none
  | fuel + 1, input =>
    match skipFiller false input with
    | ']' :: rest => some ([], rest)
    | input => do
      let (item, rest) ← term? fuel input
      match skipFiller false rest with
      | ',' :: rest =>
        let (items, rest) ← items? fuel rest
        return (item :: items, rest)
      | ']' :: rest => return ([item], rest)
      | _ => none

/-- The entries of an inline table from an opening brace or a comma on. -/
def entries? : Nat → Input → Option (List (Key × Term) × Input)
  | 0, _ => none
  | fuel + 1, input =>
    match skipFiller false input with
    | '\x7d' :: rest => some ([], rest)
    | input => do
      let (k, rest) ← key? fuel input
      let rest ← expect? '=' rest
      let (v, rest) ← term? fuel rest
      match skipFiller false rest with
      | ',' :: rest =>
        let (entries, rest) ← entries? fuel rest
        return ((k, v) :: entries, rest)
      | '\x7d' :: rest => return ([(k, v)], rest)
      | _ => none

end

end Values

section Documents

def statement? (fuel : Nat) (input : Input) : Option (Statement × Input) :=
  match input with
  | '[' :: '[' :: rest => do
    let (k, rest) ← key? fuel rest
    return (.arrayTable k, ← expect? ']' (← expect? ']' rest))
  | '[' :: rest => do
    let (k, rest) ← key? fuel rest
    return (.table k, ← expect? ']' rest)
  | _ => do
    let (k, rest) ← key? fuel input
    let (v, rest) ← term? fuel (← expect? '=' rest)
    return (.entry k v, rest)

def statements? : Nat → Input → Option (List Statement)
  | 0, _ => none
  | fuel + 1, input =>
    match skipFiller false input with
    | [] => some []
    | input => do
      let (s, rest) ← statement? fuel input
      if endsLine rest then return s :: (← statements? fuel rest) else none

/-- The statements of a document. A byte order mark at the start is skipped. -/
def ofText? (text : String) : Option (List Statement) :=
  let input := match text.toList with
    | '\ufeff' :: rest => rest
    | input => input
  if charactersOk input then statements? (2 * input.length + 2) input else none

end Documents

end EntryCode.Toml
