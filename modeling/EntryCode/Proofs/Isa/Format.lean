import EntryCode.Isa.Format
import EntryCode.Proofs.Isa.Field

/-!
Every field of a laid-out word is read back as it was put in. Displacements are read back when
they are even, which is checked before a word is put together.
-/

namespace EntryCode.Format

-- A field is read by dropping the parts of the word below it and cutting off those above it; what is
-- left is the part that was put in there.

section ThreeRegister
variable (op : BitVec 7) (f3 : BitVec 3) (f7 : BitVec 7) (d s1 s2 : BitVec 5)

@[simp] theorem opcode_three_register : opcode (threeRegister op f3 f7 d s1 s2) = op := by
  simp (disch := omega) only [opcode, threeRegister, BitVec.extractLsb'_append_eq_of_add_le,
    BitVec.extractLsb'_eq_self]

@[simp] theorem rd_three_register : rd (threeRegister op f3 f7 d s1 s2) = d := by
  simp (disch := omega) only [rd, threeRegister, BitVec.extractLsb'_append_eq_of_le,
    BitVec.extractLsb'_append_eq_of_add_le, BitVec.extractLsb'_eq_self, Nat.reduceSub]

@[simp] theorem funct3_three_register : funct3 (threeRegister op f3 f7 d s1 s2) = f3 := by
  simp (disch := omega) only [funct3, threeRegister, BitVec.extractLsb'_append_eq_of_le,
    BitVec.extractLsb'_append_eq_of_add_le, BitVec.extractLsb'_eq_self, Nat.reduceSub]

@[simp] theorem rs1_three_register : rs1 (threeRegister op f3 f7 d s1 s2) = s1 := by
  simp (disch := omega) only [rs1, threeRegister, BitVec.extractLsb'_append_eq_of_le,
    BitVec.extractLsb'_append_eq_of_add_le, BitVec.extractLsb'_eq_self, Nat.reduceSub]

@[simp] theorem rs2_three_register : rs2 (threeRegister op f3 f7 d s1 s2) = s2 := by
  simp (disch := omega) only [rs2, threeRegister, BitVec.extractLsb'_append_eq_of_le,
    BitVec.extractLsb'_append_eq_of_add_le, BitVec.extractLsb'_eq_self, Nat.reduceSub]

@[simp] theorem funct7_three_register : funct7 (threeRegister op f3 f7 d s1 s2) = f7 := by
  simp (disch := omega) only [funct7, threeRegister, BitVec.extractLsb'_append_eq_of_le,
    BitVec.extractLsb'_eq_self, Nat.reduceSub]

end ThreeRegister

section ShortImmediate
variable (op : BitVec 7) (f3 : BitVec 3) (d s1 : BitVec 5) (imm : BitVec 12)

@[simp] theorem opcode_short_immediate : opcode (shortImmediate op f3 d s1 imm) = op := by
  simp (disch := omega) only [opcode, shortImmediate, BitVec.extractLsb'_append_eq_of_add_le,
    BitVec.extractLsb'_eq_self]

@[simp] theorem rd_short_immediate : rd (shortImmediate op f3 d s1 imm) = d := by
  simp (disch := omega) only [rd, shortImmediate, BitVec.extractLsb'_append_eq_of_le,
    BitVec.extractLsb'_append_eq_of_add_le, BitVec.extractLsb'_eq_self, Nat.reduceSub]

@[simp] theorem funct3_short_immediate : funct3 (shortImmediate op f3 d s1 imm) = f3 := by
  simp (disch := omega) only [funct3, shortImmediate, BitVec.extractLsb'_append_eq_of_le,
    BitVec.extractLsb'_append_eq_of_add_le, BitVec.extractLsb'_eq_self, Nat.reduceSub]

@[simp] theorem rs1_short_immediate : rs1 (shortImmediate op f3 d s1 imm) = s1 := by
  simp (disch := omega) only [rs1, shortImmediate, BitVec.extractLsb'_append_eq_of_le,
    BitVec.extractLsb'_append_eq_of_add_le, BitVec.extractLsb'_eq_self, Nat.reduceSub]

@[simp] theorem bits_short_immediate : immediateBits (shortImmediate op f3 d s1 imm) = imm := by
  simp (disch := omega) only [immediateBits, shortImmediate, BitVec.extractLsb'_append_eq_of_le,
    BitVec.extractLsb'_eq_self, Nat.reduceSub]

theorem amount_short_immediate (high low : BitVec 6) :
    (shortImmediate op f3 d s1 (high ++ low)).extractLsb' 20 6 = low := by
  simp (disch := omega) only [shortImmediate, BitVec.extractLsb'_append_eq_of_le,
    BitVec.extractLsb'_append_eq_of_add_le, BitVec.extractLsb'_eq_self, Nat.reduceSub]

theorem high_short_immediate (high low : BitVec 6) :
    (shortImmediate op f3 d s1 (high ++ low)).extractLsb' 26 6 = high := by
  simp (disch := omega) only [shortImmediate, BitVec.extractLsb'_append_eq_of_le,
    BitVec.extractLsb'_eq_self, Nat.reduceSub]

theorem fence_pred (high pred succ : BitVec 4) :
    (shortImmediate op f3 d s1 (high ++ pred ++ succ)).extractLsb' 24 4 = pred := by
  simp (disch := omega) only [shortImmediate, BitVec.extractLsb'_append_eq_of_le,
    BitVec.extractLsb'_append_eq_of_add_le, BitVec.extractLsb'_eq_self, Nat.reduceSub]

theorem fence_succ (high pred succ : BitVec 4) :
    (shortImmediate op f3 d s1 (high ++ pred ++ succ)).extractLsb' 20 4 = succ := by
  simp (disch := omega) only [shortImmediate, BitVec.extractLsb'_append_eq_of_le,
    BitVec.extractLsb'_append_eq_of_add_le, BitVec.extractLsb'_eq_self, Nat.reduceSub]

end ShortImmediate

theorem nibble (w : Word) (i : Nat) : w >>> i &&& 15#32 = (w.extractLsb' i 4).setWidth 32 := by
  have low : w.toNat >>> i &&& 15 = w.toNat >>> i % 16 := Nat.and_two_pow_sub_one_eq_mod _ 4
  apply BitVec.eq_of_toNat_eq
  rw [BitVec.toNat_and, BitVec.toNat_ushiftRight, BitVec.toNat_setWidth, BitVec.extractLsb'_toNat]
  change w.toNat >>> i &&& 15 = _
  omega

section Store
variable (op : BitVec 7) (f3 : BitVec 3) (s1 s2 : BitVec 5) (imm : BitVec 12)

@[simp] theorem opcode_store_format : opcode (storeFormat op f3 s1 s2 imm) = op := by
  simp (disch := omega) only [opcode, storeFormat, BitVec.extractLsb'_append_eq_of_add_le,
    BitVec.extractLsb'_eq_self]

@[simp] theorem funct3_store_format : funct3 (storeFormat op f3 s1 s2 imm) = f3 := by
  simp (disch := omega) only [funct3, storeFormat, BitVec.extractLsb'_append_eq_of_le,
    BitVec.extractLsb'_append_eq_of_add_le, BitVec.extractLsb'_eq_self, Nat.reduceSub]

@[simp] theorem rs1_store_format : rs1 (storeFormat op f3 s1 s2 imm) = s1 := by
  simp (disch := omega) only [rs1, storeFormat, BitVec.extractLsb'_append_eq_of_le,
    BitVec.extractLsb'_append_eq_of_add_le, BitVec.extractLsb'_eq_self, Nat.reduceSub]

@[simp] theorem rs2_store_format : rs2 (storeFormat op f3 s1 s2 imm) = s2 := by
  simp (disch := omega) only [rs2, storeFormat, BitVec.extractLsb'_append_eq_of_le,
    BitVec.extractLsb'_append_eq_of_add_le, BitVec.extractLsb'_eq_self, Nat.reduceSub]

@[simp] theorem bits_store_format : storeBits (storeFormat op f3 s1 s2 imm) = imm := by
  simp (disch := omega) only [storeBits, funct7, rd, storeFormat,
    BitVec.extractLsb'_append_eq_of_le, BitVec.extractLsb'_append_eq_of_add_le,
    BitVec.extractLsb'_eq_self, Nat.reduceSub,
    BitVec.extractLsb'_append_extractLsb'_eq_extractLsb']

end Store

section Upper
variable (op : BitVec 7) (d : BitVec 5) (imm : BitVec 20)

@[simp] theorem opcode_upper_immediate : opcode (upperImmediate op d imm) = op := by
  simp (disch := omega) only [opcode, upperImmediate, BitVec.extractLsb'_append_eq_of_add_le,
    BitVec.extractLsb'_eq_self]

@[simp] theorem rd_upper_immediate : rd (upperImmediate op d imm) = d := by
  simp (disch := omega) only [rd, upperImmediate, BitVec.extractLsb'_append_eq_of_le,
    BitVec.extractLsb'_append_eq_of_add_le, BitVec.extractLsb'_eq_self, Nat.reduceSub]

@[simp] theorem bits_upper_immediate : upperBits (upperImmediate op d imm) = imm := by
  simp (disch := omega) only [upperBits, upperImmediate, BitVec.extractLsb'_append_eq_of_le,
    BitVec.extractLsb'_eq_self, Nat.reduceSub]

end Upper

/-- The last bit of an even number need not be kept. -/
theorem append_zero_of_even {n : Nat} (v : BitVec (n + 1)) (even : v.getLsbD 0 = false) :
    v.extractLsb' 1 n ++ 0#1 = v := by
  have last : v.extractLsb' 0 1 = 0#1 := by
    apply BitVec.eq_of_getLsbD_eq
    intro i inside
    obtain rfl : i = 0 := by omega
    simpa using even
  rw [← last, BitVec.extractLsb'_append_extractLsb'_eq_extractLsb' (Nat.zero_add 1).symm,
    BitVec.extractLsb'_eq_self]

section Branch
variable (op : BitVec 7) (f3 : BitVec 3) (s1 s2 : BitVec 5) (disp : BitVec 13)

@[simp] theorem opcode_branch_format : opcode (branchFormat op f3 s1 s2 disp) = op := by
  simp (disch := omega) only [opcode, branchFormat, BitVec.extractLsb'_append_eq_of_add_le,
    BitVec.extractLsb'_eq_self]

@[simp] theorem funct3_branch_format : funct3 (branchFormat op f3 s1 s2 disp) = f3 := by
  simp (disch := omega) only [funct3, branchFormat, BitVec.extractLsb'_append_eq_of_le,
    BitVec.extractLsb'_append_eq_of_add_le, BitVec.extractLsb'_eq_self, Nat.reduceSub]

@[simp] theorem rs1_branch_format : rs1 (branchFormat op f3 s1 s2 disp) = s1 := by
  simp (disch := omega) only [rs1, branchFormat, BitVec.extractLsb'_append_eq_of_le,
    BitVec.extractLsb'_append_eq_of_add_le, BitVec.extractLsb'_eq_self, Nat.reduceSub]

@[simp] theorem rs2_branch_format : rs2 (branchFormat op f3 s1 s2 disp) = s2 := by
  simp (disch := omega) only [rs2, branchFormat, BitVec.extractLsb'_append_eq_of_le,
    BitVec.extractLsb'_append_eq_of_add_le, BitVec.extractLsb'_eq_self, Nat.reduceSub]

theorem bits_branch_format (even : disp.getLsbD 0 = false) :
    branchBits (branchFormat op f3 s1 s2 disp) = disp := by
  simp (disch := omega) only [branchBits, branchFormat, BitVec.extractLsb'_append_eq_of_le,
    BitVec.extractLsb'_append_eq_of_add_le, BitVec.extractLsb'_eq_self, Nat.reduceSub,
    BitVec.extractLsb'_append_extractLsb'_eq_extractLsb']
  exact append_zero_of_even disp even

end Branch

section Jump
variable (op : BitVec 7) (d : BitVec 5) (disp : BitVec 21)

@[simp] theorem opcode_jump_format : opcode (jumpFormat op d disp) = op := by
  simp (disch := omega) only [opcode, jumpFormat, BitVec.extractLsb'_append_eq_of_add_le,
    BitVec.extractLsb'_eq_self]

@[simp] theorem rd_jump_format : rd (jumpFormat op d disp) = d := by
  simp (disch := omega) only [rd, jumpFormat, BitVec.extractLsb'_append_eq_of_le,
    BitVec.extractLsb'_append_eq_of_add_le, BitVec.extractLsb'_eq_self, Nat.reduceSub]

theorem bits_jump_format (even : disp.getLsbD 0 = false) :
    jumpBits (jumpFormat op d disp) = disp := by
  simp (disch := omega) only [jumpBits, jumpFormat, BitVec.extractLsb'_append_eq_of_le,
    BitVec.extractLsb'_append_eq_of_add_le, BitVec.extractLsb'_eq_self, Nat.reduceSub,
    BitVec.extractLsb'_append_extractLsb'_eq_extractLsb']
  exact append_zero_of_even disp even

end Jump

end EntryCode.Format
