import EntryCode.Database.Syntax

/-!
What operators make of values. Where there is no value on one side, there is none as a result,
unless the other side decides.
-/

namespace EntryCode.Database.Value

/-- A double as a value; what is no number is nothing. -/
def ofDouble (x : Float) : Value :=
  if x.isNaN then .null else .real (Double.ofFloat x)

section Arithmetic

/-- An operation on whole numbers, or on doubles where the result is out of range or one of the two
is a double. -/
def arithmetic (onInts : Int → Int → Int) (onDoubles : Float → Float → Float) (a b : Value) :
    Value :=
  match a.number, b.number with
  | .null, _ | _, .null => .null
  | .integer i, .integer j =>
    let k := onInts i j
    if isInt64 k then .integer k
    else ofDouble (onDoubles (Double.toFloat (Double.ofInt i)) (Double.toFloat (Double.ofInt j)))
  | x, y => ofDouble (onDoubles (Double.toFloat x.toDouble) (Double.toFloat y.toDouble))

def divide (a b : Value) : Value :=
  match a.number, b.number with
  | .null, _ | _, .null => .null
  | .integer _, .integer j => if j = 0 then .null else arithmetic Int.tdiv (· / ·) a b
  | _, y => if Double.toFloat y.toDouble == 0 then .null else arithmetic Int.tdiv (· / ·) a b

def remainder (a b : Value) : Value :=
  match a.number, b.number with
  | .null, _ | _, .null => .null
  | x, y =>
    if y.toInt = 0 then .null
    else
      let r := Int.tmod x.toInt y.toInt
      match x, y with
      | .integer _, .integer _ => .integer r
      | _, _ => .real (Double.ofInt r)

/-- A whole number of sixty-four bits, whatever is lost. -/
def wrapped (i : Int) : Int :=
  (BitVec.ofInt 64 i).toInt

/-- Shifts to the left, or to the right by a negative number of places. -/
def shift (i places : Int) : Int :=
  if 0 ≤ places then
    if 64 ≤ places then 0 else wrapped (i <<< places.toNat)
  else i >>> min places.natAbs 64

def onInts (f : Int → Int → Int) (a b : Value) : Value :=
  if a.isNull || b.isNull then .null else .integer (f a.toInt b.toInt)

def bits (f : Dword → Dword → Dword) (i j : Int) : Int :=
  (f (BitVec.ofInt 64 i) (BitVec.ofInt 64 j)).toInt

end Arithmetic

section Logic

def and (a b : Option Bool) : Option Bool :=
  match a, b with
  | some false, _ | _, some false => some false
  | some true, some true => some true
  | _, _ => none

def or (a b : Option Bool) : Option Bool :=
  match a, b with
  | some true, _ | _, some true => some true
  | some false, some false => some false
  | _, _ => none

end Logic

def negate (v : Value) : Value :=
  match v.number with
  | .real b => .real (b ^^^ 0x8000000000000000)
  | n => arithmetic (fun _ i => -i) (fun _ x => -x) (if n.isNull then .null else .integer 0) n

def unary : Unary → Value → Value
  | .negate, v => negate v
  | .plus, v => v
  | .not, v => ofTruth (v.truth?.map (!·))
  | .complement, v => if v.isNull then .null else .integer (-v.toInt - 1)

def holds : Binary → Ordering → Bool
  | .eq, o | .is, o => o = .eq
  | .ne, o | .isNot, o => o ≠ .eq
  | .lt, o => o = .lt
  | .le, o => o ≠ .gt
  | .gt, o => o = .gt
  | .ge, o => o ≠ .lt
  | _, _ => false

def isComparison : Binary → Bool
  | .eq | .ne | .lt | .le | .gt | .ge | .is | .isNot => true
  | _ => false

/-- The result of an operator that compares nothing. -/
def binary : Binary → Value → Value → Value
  | .or, a, b => ofTruth (or a.truth? b.truth?)
  | .and, a, b => ofTruth (and a.truth? b.truth?)
  | .add, a, b => arithmetic (· + ·) (· + ·) a b
  | .subtract, a, b => arithmetic (· - ·) (· - ·) a b
  | .multiply, a, b => arithmetic (· * ·) (· * ·) a b
  | .divide, a, b => divide a b
  | .remainder, a, b => remainder a b
  | .concat, a, b => if a.isNull || b.isNull then .null else .text (a.bytes ++ b.bytes)
  | .bitAnd, a, b => onInts (bits (· &&& ·)) a b
  | .bitOr, a, b => onInts (bits (· ||| ·)) a b
  | .shiftLeft, a, b => onInts shift a b
  | .shiftRight, a, b => onInts (fun i n => shift i (-n)) a b
  | _, _, _ => .null

/-- The result of a comparison of values, which were brought to a common kind before. -/
def compared (e : Text.Encoding) (c : Collation) (op : Binary) (a b : Value) : Value :=
  match op with
  | .is | .isNot => ofBool (holds op (compareWith e c a b))
  | op => if a.isNull || b.isNull then .null else ofBool (holds op (compareWith e c a b))

/-- Brings two values to the kind in which they are compared. A text is left alone by the
preference for texts where there is none on the other side. -/
def aligned (x y : Option Affinity) (a b : Value) : Value × Value :=
  let both (k : Affinity) := (a.prefer k, b.prefer k)
  match x, y with
  | some p, some q => if p.isNumeric || q.isNumeric then both .numeric else (a, b)
  | some p, none | none, some p =>
    match p with
    | .none => (a, b)
    | .text => if a.rank = 2 ∨ b.rank = 2 then both .text else (a, b)
    | _ => both .numeric
  | none, none => (a, b)

end EntryCode.Database.Value
