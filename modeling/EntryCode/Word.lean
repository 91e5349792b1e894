/-!
Fixed-width words of the target machine. Register contents, addresses and signed constants are
all doublewords whose arithmetic wraps; code is a list of bytes, read as little-endian words.
-/

namespace EntryCode

abbrev Byte := BitVec 8

abbrev Word := BitVec 32

/-- Register contents, an address, or a constant read as signed. -/
abbrev Dword := BitVec 64

abbrev Bytes := List Byte

def instructionSize : Nat := 4

namespace Bytes

/-- The low `8 * n` bits of `x`, least significant byte first. -/
def ofBits {w : Nat} : Nat → BitVec w → Bytes
  | 0, _ => []
  | n + 1, x => x.setWidth 8 :: ofBits n (x >>> 8)

/-- The number whose base-256 digits, least significant first, are `bytes`. -/
def toNat : Bytes → Nat
  | [] => 0
  | b :: rest => b.toNat + 256 * toNat rest

def ofWords (words : List Word) : Bytes :=
  words.flatMap (ofBits 4)

/-- The whole words at the start of `bytes`; up to three bytes at the end are left out. -/
def toWords : Bytes → List Word
  | b0 :: b1 :: b2 :: b3 :: rest => BitVec.ofNat 32 (toNat [b0, b1, b2, b3]) :: toWords rest
  | _ => []

/-- Replaces the bytes of `bytes` from `offset` on by those of `patch`. -/
def overwrite (bytes : Bytes) (offset : Nat) (patch : Bytes) : Bytes :=
  bytes.take offset ++ patch ++ bytes.drop (offset + patch.length)

end Bytes

theorem Bytes.length_ofBits {w : Nat} (n : Nat) (x : BitVec w) : (ofBits n x).length = n := by
  induction n generalizing x with
  | zero => rfl
  | succ n ih => simp [ofBits, ih]

end EntryCode
