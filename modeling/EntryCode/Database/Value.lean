import EntryCode.Double
import EntryCode.Text.Encoding

/-!
The values in a database: nothing, whole numbers of sixty-four bits, doubles, texts and bytes. A
column may prefer one kind, and values are brought to it where nothing is lost. Texts are held in
UTF-8, whatever the encoding of the database; their order is that of the encoding.
-/

namespace EntryCode.Database

inductive Value where
  | null
  | integer (i : Int)
  | real (b : Dword)
  | text (t : Bytes)
  | blob (b : Bytes)
  deriving DecidableEq, Repr, Inhabited

inductive Affinity where
  | none
  | text
  | numeric
  | integer
  | real
  deriving DecidableEq, Repr

namespace Affinity

def isNumeric : Affinity → Bool
  | .numeric | .integer | .real => true
  | .none | .text => false

def hasPart (part : List Char) : List Char → Bool
  | [] => part.isEmpty
  | c :: rest => part.isPrefixOf (c :: rest) || hasPart part rest

def ofType (type : List Char) : Affinity :=
  let lower := type.map Char.toLower
  let has (part : String) : Bool := hasPart part.toList lower
  if has "int" then .integer
  else if has "char" || has "clob" || has "text" then .text
  else if has "blob" || type.isEmpty then .none
  else if has "real" || has "floa" || has "doub" then .real
  else .numeric

end Affinity

inductive Collation where
  | binary
  /-- Without regard to the case of ASCII letters. -/
  | nocase
  | rtrim
  deriving DecidableEq, Repr

def Collation.ofName? (name : List Char) : Option Collation :=
  [("binary", .binary), ("nocase", .nocase), ("rtrim", .rtrim)].lookup
    (String.ofList (name.map Char.toLower))

def charsOf (bytes : Bytes) : List Char :=
  bytes.map fun b => Char.ofNat b.toNat

def bytesOf (chars : List Char) : Bytes :=
  chars.map fun c => BitVec.ofNat 8 c.toNat

section Numerals

def isBlank (c : Char) : Bool :=
  c = ' ' || (9 ≤ c.toNat && c.toNat ≤ 13)

structure Numeral where
  isNegative : Bool
  digits : Nat
  scale : Int
  isInteger : Bool
  /-- Whether nothing but blanks is around it. -/
  isWhole : Bool
  deriving DecidableEq, Repr

def decimal (digits : List Char) : Nat :=
  digits.foldl (fun n c => 10 * n + (c.toNat - '0'.toNat)) 0

namespace Numeral

def exponent? : List Char → Option (Int × List Char)
  | e :: rest =>
    if e ≠ 'e' ∧ e ≠ 'E' then none
    else
      let isNegative := rest.head? = some '-'
      let rest := if isNegative ∨ rest.head? = some '+' then rest.drop 1 else rest
      let (digits, rest) := rest.span Char.isDigit
      if digits.isEmpty then none
      else
        let size : Int := min (decimal (digits.take 6)) 100000
        some (if isNegative then -size else size, rest)
  | [] => none

def scan? (text : List Char) : Option Numeral :=
  let text := text.dropWhile isBlank
  let isNegative := text.head? = some '-'
  let text := if isNegative ∨ text.head? = some '+' then text.drop 1 else text
  let (whole, rest) := text.span Char.isDigit
  let hasPoint := rest.head? = some '.'
  let (fraction, rest) := if hasPoint then (rest.drop 1).span Char.isDigit else ([], rest)
  if whole.isEmpty && fraction.isEmpty then none
  else
    let (power, rest, hasPower) := match exponent? rest with
      | some (power, rest) => (power, rest, true)
      | none => (0, rest, false)
    some {
      isNegative
      digits := decimal (whole ++ fraction)
      scale := power - fraction.length
      isInteger := !hasPoint && !hasPower
      isWhole := rest.all isBlank }

variable (n : Numeral)

def toInt : Int :=
  if n.isNegative then -(n.digits : Int) else n.digits

def toDouble : Dword :=
  let most : Int := 400
  if n.digits = 0 then Double.ofDecimal n.isNegative 0 0
  else if most < n.scale then Double.ofDecimal n.isNegative 1 most
  else if n.scale < -most - (Nat.toDigits 10 n.digits).length then Double.ofDecimal n.isNegative 0 0
  else Double.ofDecimal n.isNegative n.digits n.scale

end Numeral

def isInt64 (i : Int) : Bool :=
  -0x8000000000000000 ≤ i && i < 0x8000000000000000

def clamp (i : Int) : Int :=
  max (-0x8000000000000000) (min i 0x7fffffffffffffff)

/-- A number as a value: whole where it is written so and fits. -/
def Numeral.toValue (n : Numeral) : Value :=
  if n.isInteger && isInt64 n.toInt then .integer n.toInt else .real n.toDouble

end Numerals

namespace Value

section Conversions

/-- A double without a fraction as a whole number, unless it is out of range. -/
def ofReal (b : Dword) : Value :=
  if !Double.isFinite b then .real b
  else
    let i := Double.truncate b
    if Double.compareInt i b = .eq ∧ -0x8000000000000000 < i ∧ i < 0x7fffffffffffffff then .integer i
    else .real b

/-- The text of a value, in UTF-8. -/
def bytes : Value → Bytes
  | .null => []
  | .integer i => Text.utf8 (toString i)
  | .real b => bytesOf (Double.text b)
  | .text t => t
  | .blob b => b

def number : Value → Value
  | .null => .null
  | .integer i => .integer i
  | .real b => .real b
  | .text t | .blob t => ((Numeral.scan? (charsOf t)).map Numeral.toValue).getD (.integer 0)

/-- The whole number that a value is taken for; zero where it is none. -/
def toInt (v : Value) : Int :=
  match v with
  | .null => 0
  | .integer i => i
  | .real b => if Double.isFinite b then clamp (Double.truncate b)
    else if Double.isNegative b then -0x8000000000000000 else 0x7fffffffffffffff
  | .text t | .blob t =>
    let text := (charsOf t).dropWhile isBlank
    let isNegative := text.head? = some '-'
    let digits := (if isNegative ∨ text.head? = some '+' then text.drop 1 else text).takeWhile
      Char.isDigit
    clamp (if isNegative then -(decimal digits : Int) else decimal digits)

def toDouble (v : Value) : Dword :=
  match v with
  | .null => 0
  | .integer i => Double.ofInt i
  | .real b => b
  | .text t | .blob t => ((Numeral.scan? (charsOf t)).map Numeral.toDouble).getD 0

def truth? : Value → Option Bool
  | .null => none
  | .integer i => some (i ≠ 0)
  | v => some (v.toDouble &&& 0x7fffffffffffffff ≠ 0)

def ofBool (b : Bool) : Value :=
  .integer (if b then 1 else 0)

def ofTruth : Option Bool → Value
  | none => .null
  | some b => ofBool b

def isNull : Value → Bool
  | .null => true
  | _ => false

def numericText (t : Bytes) : Value :=
  match Numeral.scan? (charsOf t) with
  | some n => if n.isWhole then
      match n.toValue with
      | .real b => ofReal b
      | v => v
    else .text t
  | none => .text t

def prefer (a : Affinity) (v : Value) : Value :=
  match a, v with
  | .text, .integer _ | .text, .real _ => .text v.bytes
  | .numeric, .text t | .integer, .text t | .real, .text t => numericText t
  | .numeric, .real b | .integer, .real b | .real, .real b => ofReal b
  | _, _ => v

/-- Turns a value into one of some kind, whatever is lost. -/
def cast (a : Affinity) (v : Value) : Value :=
  match a, v with
  | _, .null => .null
  | .text, v => .text v.bytes
  | .none, v => .blob v.bytes
  | .integer, v => .integer v.toInt
  | .real, v => .real v.toDouble
  | .numeric, v =>
    match v.number with
    | .real b => match v with
      | .real _ => v
      | _ => ofReal b
    | w => w

end Conversions

section Comparison

def compareBytes : Bytes → Bytes → Ordering
  | [], [] => .eq
  | [], _ :: _ => .lt
  | _ :: _, [] => .gt
  | a :: as, b :: bs => (compare a.toNat b.toNat).then (compareBytes as bs)

def collated (e : Text.Encoding) (c : Collation) (t : Bytes) : Bytes :=
  match c with
  | .binary => match e with
    | .utf8 => t
    | e => e.bytes (e.kept (String.ofList (Text.charsOfUtf8 t)))
  | .nocase => bytesOf ((charsOf t).map Char.toLower)
  | .rtrim => bytesOf ((charsOf t).reverse.dropWhile (· = ' ')).reverse

def rank : Value → Nat
  | .null => 0
  | .integer _ | .real _ => 1
  | .text _ => 2
  | .blob _ => 3

/-- The order of values: nothing, numbers, texts, bytes. -/
def compareWith (e : Text.Encoding) (c : Collation) (a b : Value) : Ordering :=
  match a, b with
  | .integer i, .integer j => compare i j
  | .integer i, .real y => Double.compareInt i y
  | .real x, .integer j => (Double.compareInt j x).swap
  | .real x, .real y =>
    let (f, g) := (Double.toFloat x, Double.toFloat y)
    if f < g then .lt else if g < f then .gt else .eq
  | .text s, .text t => compareBytes (collated e c s) (collated e c t)
  | .blob s, .blob t => compareBytes s t
  | a, b => compare a.rank b.rank

end Comparison

end Value

end EntryCode.Database
