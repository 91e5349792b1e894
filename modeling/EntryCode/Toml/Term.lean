/-!
TOML as it is written: keys, values and the statements of a document.
-/

namespace EntryCode.Toml

abbrev Key := List String

/-- The characters of a part that needs no quotation marks. -/
def isBare (c : Char) : Bool :=
  c.isAlphanum || c = '_' || c = '-'

namespace Key

def hexDigit (n : Nat) : Char :=
  "0123456789abcdef".toList.getD n '0'

def escaped (c : Char) : List Char :=
  if c = '"' ∨ c = '\\' then ['\\', c]
  else match [(8, 'b'), (9, 't'), (10, 'n'), (12, 'f'), (13, 'r')].lookup c.toNat with
    | some letter => ['\\', letter]
    | none =>
      if c.toNat < 0x20 ∨ c.toNat = 0x7f then
        ['\\', 'u', '0', '0', hexDigit (c.toNat / 16), hexDigit (c.toNat % 16)]
      else [c]

def partText (part : String) : String :=
  if part ≠ "" ∧ part.toList.all isBare then part
  else String.ofList ('"' :: part.toList.flatMap escaped ++ ['"'])

def text (k : Key) : String :=
  ".".intercalate (k.map partText)

end Key

/-- A value as it is written. Of floating-point numbers and of dates and times only the kind is
kept. -/
inductive Term where
  | string (s : String)
  | integer (i : Int)
  | boolean (b : Bool)
  | float
  | datetime
  | array (items : List Term)
  | inlineTable (entries : List (Key × Term))
  deriving Repr

inductive Statement where
  | table (k : Key)
  | arrayTable (k : Key)
  | entry (k : Key) (v : Term)
  deriving Repr

end EntryCode.Toml
