import EntryCode.Text.Number

/-!
Signed values in bit fields. `lowBits` writes a value into a field of a given width and refuses
one that does not fit; `signExtend` reads it back.
-/

namespace EntryCode.Field

inductive Error where
  | width (w : Nat)
  | range (v : Dword) (w : Nat)
  deriving DecidableEq, Repr

def Error.message : Error → String
  | .width w => s!"field width {w} not in 1..32"
  | .range v w => s!"value out of range for field: {Text.signed v} does not fit {w} bits"

/-- Whether `v` is a `w`-bit two's-complement number. Nothing fits no bits. -/
def fitsSigned (v : Dword) (w : Nat) : Bool :=
  if w = 0 then false
  else if 64 ≤ w then true
  else (-(1#64 <<< (w - 1))).sle v && v.sle ((1#64 <<< (w - 1)) - 1)

/-- Whether `v`, read as signed, is a `w`-bit unsigned number. -/
def fitsUnsigned (v : Dword) (w : Nat) : Bool :=
  if v.slt 0 || w = 0 then false
  else if 63 ≤ w then true
  else v.slt (1#64 <<< w)

/-- The low `w` bits of `v`, which must fit `w` bits signed. -/
def lowBits (v : Dword) (w : Nat) : Except Error (BitVec w) :=
  if w = 0 ∨ 32 < w then .error (.width w)
  else if fitsSigned v w then .ok (v.setWidth w)
  else .error (.range v w)

/-- The value of a `w`-bit field: bit `w - 1` is copied into every higher bit. A field wider than
a doubleword has no bits left. -/
def signExtend (field : Dword) (w : Nat) : Dword :=
  if w ≤ 64 then (field <<< (64 - w)).sshiftRight (64 - w) else 0

end EntryCode.Field
