import EntryCode.Cbor.Reader

/-!
Items read as values of expected types. A reading gives nothing where the item is of another
type; a null stands for a value that is left as it was. Tags are looked through, except that a
tagged byte string can be a large integer.
-/

namespace EntryCode.Cbor

section Tags

/-- Marks the data as CBOR and says nothing about its value. -/
def selfDescribed : Nat := 55799

def isText : Cbor → Bool
  | .text _ | .brokenText _ => true
  | _ => false

def isNumber : Cbor → Bool
  | .unsigned _ | .negative _ | .float _ => true
  | _ => false

def isBytes : Cbor → Bool
  | .bytes _ => true
  | _ => false

/-- The item inside its tags; a large integer keeps its tag. Dates and large integers are only
taken from the types they are made of. -/
def untagged? : Cbor → Option Cbor
  | .tagged tag content =>
    if tag = selfDescribed then untagged? content
    else if tag = 0 then if isText content then some content else none
    else if tag = 1 then if isNumber content then some content else none
    else if tag = 2 ∨ tag = 3 then if isBytes content then some (.tagged tag content) else none
    else untagged? content
  | item => some item

end Tags

/-- A reading of an item; a null reads as `none`. -/
abbrev Reading (α : Type) := Cbor → Option (Option α)

section Scalars

/-- Null and undefined. -/
def isNull (n : Nat) : Bool :=
  n = 22 || n = 23

/-- Null and nothing else. -/
def asNull {α : Type} : Reading α
  | .simple n => if isNull n then some none else none
  | _ => none

/-- The integer that an item stands for. Simple values without a meaning count as numbers. -/
def asInteger : Reading Int := fun item => do
  match ← untagged? item with
  | .unsigned n => some (some n)
  | .negative n => some (some (-1 - n))
  | .tagged tag (.bytes b) =>
    let n : Int := ofBigEndian b
    some (some (if tag = 2 then n else -1 - n))
  | .simple n =>
    if isNull n then some none else if n = 20 ∨ n = 21 then none else some (some n)
  | _ => none

/-- An integer between two bounds, the upper one not included. -/
def asIntegerWithin (low high : Int) : Reading Int := fun item => do
  match ← asInteger item with
  | some i => if low ≤ i ∧ i < high then some (some i) else none
  | none => some none

/-- A doubleword read as signed. -/
def asSigned : Reading Dword := fun item => do
  return (← asIntegerWithin (-0x8000000000000000) 0x8000000000000000 item).map (BitVec.ofInt 64)

def asUnsigned : Reading Dword := fun item => do
  return (← asIntegerWithin 0 0x10000000000000000 item).map (BitVec.ofInt 64)

def asByte : Reading Byte := fun item => do
  return (← asIntegerWithin 0 0x100 item).map (BitVec.ofInt 8)

def asText : Reading String := fun item => do
  match ← untagged? item with
  | .text s => some (some s)
  | other => asNull other

end Scalars

section Containers

variable {α κ ν : Type}

/-- A list; a null item reads as `default`. -/
def asList (default : α) (read : Reading α) : Reading (List α) := fun item => do
  match ← untagged? item with
  | .array items => return some (← items.mapM fun i => do return (← read i).getD default)
  | other => asNull other

/-- Bytes, also as a list of numbers. -/
def asBytes : Reading Bytes := fun item => do
  match ← untagged? item with
  | .bytes b | .tagged _ (.bytes b) => return some b
  | other => asList 0 asByte other

/-- The entries of a map, in order. A key or value that is null repeats the one before it. -/
def readEntries (key : Reading κ) (value : Reading ν) :
    κ × ν → List (Cbor × Cbor) → Option (List (κ × ν))
  | _, [] => some []
  | (k, v), (ki, vi) :: rest => do
    let k := (← key ki).getD k
    let v := (← value vi).getD v
    return (k, v) :: (← readEntries key value (k, v) rest)

/-- A map with the entries in order; before the first entry stands `start`. -/
def asMap (start : κ × ν) (key : Reading κ) (value : Reading ν) : Reading (List (κ × ν)) :=
  fun item => do
    match ← untagged? item with
    | .map entries => return some (← readEntries key value start entries)
    | other => asNull other

end Containers

section Records

/-- The name that an entry of a record is looked up by. A number is no name, though it may stand
there; anything else may not. -/
def fieldName? : Cbor → Option (Option String)
  | .text s => some (some s)
  | .unsigned _ => some none
  | .negative n => if n < 0x8000000000000000 then some none else none
  | _ => none

/-- The fields of a record by name, letter case aside. Of several entries for one field the first
counts, and entries for no field are left out. -/
def readFields (names : List String) : List (Cbor × Cbor) → Option (List (String × Cbor))
  | [] => some []
  | (key, item) :: rest => do
    let name := (← fieldName? key).bind fun s => names.find? fun n => n.toLower = s.toLower
    match name with
    | some n => return (n, item) :: (← readFields (names.erase n) rest)
    | none => readFields names rest

/-- A record with the named fields; a null has none of them. -/
def asRecord (names : List String) (item : Cbor) : Option (List (String × Cbor)) := do
  match ← untagged? item with
  | .map entries => readFields names entries
  | .simple n => if isNull n then some [] else none
  | _ => none

/-- A field of a record, `default` where it is missing or null. -/
def field {α : Type} (fields : List (String × Cbor)) (name : String) (default : α)
    (read : Reading α) : Option α :=
  match fields.lookup name with
  | some item => do return (← read item).getD default
  | none => some default

/-- A field of a record that may be missing or null. -/
def field? {α : Type} (fields : List (String × Cbor)) (name : String) (read : Reading α) :
    Option (Option α) :=
  match fields.lookup name with
  | some item => read item
  | none => some none

end Records

end EntryCode.Cbor
