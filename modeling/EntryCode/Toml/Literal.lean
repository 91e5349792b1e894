/-!
Numbers, dates and times of TOML. Each function takes the characters of a value and says what
they stand for, or that they are no such value.
-/

namespace EntryCode.Toml

section Digits

def digitValue (c : Char) : Nat :=
  if c.isDigit then c.toNat - '0'.toNat
  else if 'a' ≤ c then c.toNat - 'a'.toNat + 10
  else c.toNat - 'A'.toNat + 10

def isHexDigit (c : Char) : Bool :=
  c.isDigit || ('a' ≤ c && c ≤ 'f') || ('A' ≤ c && c ≤ 'F')

def ofDigits (base : Nat) (digits : List Char) : Nat :=
  digits.foldl (fun n c => base * n + digitValue c) 0

def underscoresOk (text : List Char) : Bool :=
  check false text
where
  check (afterDigit : Bool) : List Char → Bool
    | [] => afterDigit
    | c :: rest => (c ≠ '_' || afterDigit) && check (isHexDigit c) rest

def unsigned : List Char → List Char
  | '+' :: rest | '-' :: rest => rest
  | text => text

/-- A zero before other digits. -/
def leadingZero (text : List Char) : Bool :=
  match unsigned text with
  | '0' :: _ :: _ => true
  | _ => false

def isNegative (text : List Char) : Bool :=
  text.head? = some '-'

end Digits

section Integers

def withinRange? (i : Int) : Option Int :=
  if -0x8000000000000000 ≤ i ∧ i < 0x8000000000000000 then some i else none

/-- Decimal digits, perhaps with a sign and underscores. -/
def integer? (text : List Char) : Option Int :=
  if !underscoresOk text || leadingZero text then none
  else
    let n : Int := ofDigits 10 ((unsigned text).filter (· ≠ '_'))
    withinRange? (if isNegative text then -n else n)

/-- Digits of another base; there is no underscore before the first. -/
def integerOfBase? (base : Nat) (digits : List Char) : Option Int :=
  if underscoresOk digits then withinRange? (ofDigits base (digits.filter (· ≠ '_'))) else none

end Integers

section Floats

/-- The parts of a float: digits before the point, digits after it, and the exponent. -/
structure FloatParts where
  whole : List Char
  fraction : List Char
  exponent : Option (List Char)

/-- Cuts a float without sign; the fraction, where there is a point, has digits. -/
def floatParts? (text : List Char) : Option FloatParts :=
  let (whole, rest) := text.span Char.isDigit
  let (fraction, rest) := match rest with
    | '.' :: rest => rest.span Char.isDigit
    | rest => ([], rest)
  let pointOk := text.contains '.' = !fraction.isEmpty
  if whole.isEmpty || !pointOk then none
  else match rest with
    | [] => some ⟨whole, fraction, none⟩
    | e :: rest =>
      let digits := unsigned rest
      if (e = 'e' ∨ e = 'E') ∧ digits ≠ [] ∧ digits.all Char.isDigit then
        some ⟨whole, fraction, some rest⟩
      else none

def floatBound : Nat := (1 <<< 1024) - (1 <<< 970)

/-- The size of an exponent. Beyond ten thousand no further digit is counted. -/
def exponentSize (digits : List Char) : Nat :=
  digits.foldl (fun n c => if n < 10000 then 10 * n + digitValue c else n) 0

/-- The power of ten by which the digits of the number, without the point, are multiplied. -/
def FloatParts.scale (p : FloatParts) : Int :=
  let exponent : Int := (p.exponent.map fun e =>
    let n : Int := exponentSize (unsigned e)
    if isNegative e then -n else n).getD 0
  exponent - p.fraction.length

def FloatParts.isFinite (p : FloatParts) : Bool :=
  let mantissa := ofDigits 10 (p.whole ++ p.fraction)
  if mantissa = 0 then true
  else if p.scale ≤ 0 then mantissa < floatBound * Nat.pow 10 p.scale.natAbs
  else mantissa * Nat.pow 10 p.scale.toNat < floatBound

def floatPieces (text : List Char) : List (List Char) :=
  (text.splitBy fun a b => mark a = mark b).filter fun piece => !piece.any mark
where
  mark (c : Char) : Bool := c = '.' || c = 'e' || c = 'E'

/-- Decimal digits with a fraction or an exponent, perhaps with signs and underscores. -/
def isFloat (text : List Char) : Bool :=
  let pieces := floatPieces text
  pieces.all underscoresOk && !leadingZero (pieces.headD []) &&
    (floatParts? (unsigned (text.filter (· ≠ '_')))).any FloatParts.isFinite

end Floats

section Times

/-- A number of exactly `n` digits. -/
def digits? (n : Nat) (text : List Char) : Option (Nat × List Char) :=
  let digits := text.take n
  if digits.length = n ∧ digits.all Char.isDigit then some (ofDigits 10 digits, text.drop n)
  else none

def expect? (c : Char) : List Char → Option (List Char)
  | d :: rest => if d = c then some rest else none
  | [] => none

def isLeap (year : Nat) : Bool :=
  year % 4 = 0 && (year % 100 ≠ 0 || year % 400 = 0)

def daysIn (year month : Nat) : Nat :=
  if month = 2 then if isLeap year then 29 else 28
  else if month = 4 ∨ month = 6 ∨ month = 9 ∨ month = 11 then 30
  else 31

def date? (text : List Char) : Option (List Char) := do
  let (year, text) ← digits? 4 text
  let (month, text) ← digits? 2 (← expect? '-' text)
  let (day, text) ← digits? 2 (← expect? '-' text)
  if 1 ≤ month ∧ month ≤ 12 ∧ 1 ≤ day ∧ day ≤ daysIn year month then some text else none

def skipFraction : List Char → List Char
  | '.' :: d :: rest => if d.isDigit then rest.dropWhile Char.isDigit else '.' :: d :: rest
  | text => text

/-- A time of day; the seconds may be left out. -/
def time? (text : List Char) : Option (List Char) := do
  let (hour, text) ← digits? 2 text
  let (minute, text) ← digits? 2 (← expect? ':' text)
  if 24 ≤ hour ∨ 60 ≤ minute then none
  else match text with
    | ':' :: rest => do
      let (second, rest) ← digits? 2 rest
      if 60 ≤ second then none else some (skipFraction rest)
    | rest => some rest

def zone? : List Char → Option (List Char)
  | 'Z' :: rest => some rest
  | sign :: rest => do
    if sign ≠ '+' ∧ sign ≠ '-' then none
    let (hours, rest) ← digits? 2 rest
    let (minutes, rest) ← digits? 2 (← expect? ':' rest)
    if 24 < hours ∨ 60 < minutes then none else some rest
  | [] => none

/-- A date, a time, or both with or without a distance from universal time. -/
def isDatetime (text : List Char) : Bool :=
  let text := text.map fun c => if c = 't' ∨ c = ' ' then 'T' else if c = 'z' then 'Z' else c
  let full := do
    let rest ← date? text
    if rest.isEmpty then some rest
    else
      let rest ← time? (← expect? 'T' rest)
      if rest.isEmpty then some rest else zone? rest
  full = some [] || time? text = some []

end Times

end EntryCode.Toml
