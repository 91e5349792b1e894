import EntryCode.Text.Number

/-!
Identifiers of sixteen bytes, written as hexadecimal digits in five groups.
-/

namespace EntryCode

structure Uuid where
  bits : BitVec 128
  deriving DecidableEq, Repr

namespace Uuid

def zero : Uuid := ⟨0⟩

def bytes (u : Uuid) : Bytes :=
  (Bytes.ofBits 16 u.bits).reverse

def ofBytes? (b : Bytes) : Option Uuid :=
  if b.length = 16 then some ⟨BitVec.ofNat 128 (Bytes.toNat b.reverse)⟩ else none

def groups {α : Type} : List Nat → List α → List (List α)
  | [], _ => []
  | n :: rest, xs => xs.take n :: groups rest (xs.drop n)

def text (u : Uuid) : String :=
  "-".intercalate ((groups [8, 4, 4, 4, 12] (Text.hexPadded 32 u.bits.toNat).toList).map
    String.ofList)

/-- A random identifier of version four: the given bits, with version and variant set. -/
def random (bits : BitVec 128) : Uuid :=
  let version : BitVec 128 := 0x4 <<< 76
  let variant : BitVec 128 := 0x8 <<< 60
  let kept : BitVec 128 := ~~~((0xf <<< 76) ||| (0xc <<< 60))
  ⟨(bits &&& kept) ||| version ||| variant⟩

end Uuid

end EntryCode
