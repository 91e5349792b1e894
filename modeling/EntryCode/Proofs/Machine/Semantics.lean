import EntryCode.Machine.Basic
import EntryCode.Proofs.Isa.Encoding

/-!
What each instruction does to a machine. `exec` is read off the instruction itself; fetching,
decoding and executing its word comes to the same, so later proofs never look at words.
-/

namespace EntryCode

section Values

/-- The value of an instruction with a short immediate. A register jump leaves its return address
instead. -/
def ImmediateOp.value (a imm : Dword) : ImmediateOp → Dword
  | .addi | .jalr => a + imm
  | .addiw => Machine.sext 32 (a + imm)
  | .andi => a &&& imm
  | .ori => a ||| imm
  | .xori => a ^^^ imm
  | .sltiu => Machine.flag (a.ult imm)

def ShiftOp.value (a : Dword) (amount : Nat) : ShiftOp → Dword
  | .slli => a <<< amount
  | .srli => a >>> amount
  | .srai => a.sshiftRight amount

def UpperOp.value (pc imm : Dword) : UpperOp → Dword
  | .lui => Machine.sext 32 (imm <<< 12)
  | .auipc => pc + Machine.sext 32 (imm <<< 12)

def RegisterOp.value (a b : Dword) : RegisterOp → Dword
  | .add => a + b
  | .sub => a - b
  | .sltu => Machine.flag (a.ult b)
  | .xor => a ^^^ b
  | .or => a ||| b
  | .and => a &&& b
  | .sh3add => b + a <<< 3

def ExtendOp.value (a : Dword) : ExtendOp → Dword
  | .sextB => Machine.sext 8 a
  | .sextH => Machine.sext 16 a
  | .zextH => a &&& 0xffff

def LoadOp.value (m : Memory) (addr : Dword) : LoadOp → Dword
  | .lb => Machine.sext 8 (m.load addr 1)
  | .lh => Machine.sext 16 (m.load addr 2)
  | .lw => Machine.sext 32 (m.load addr 4)
  | .ld => m.load addr 8
  | .lbu => m.load addr 1
  | .lhu => m.load addr 2
  | .lwu => m.load addr 4

def StoreOp.size : StoreOp → Nat
  | .sb => 1
  | .sh => 2
  | .sw => 4
  | .sd => 8

def FloatWidth.value (m : Memory) (addr : Dword) : FloatWidth → Dword
  | .single => 0xffffffff00000000 ||| m.load addr 4
  | .double => m.load addr 8

def FloatWidth.stored (addr v : Dword) : FloatWidth → Effect
  | .single => .store addr 4 (v &&& 0xffffffff)
  | .double => .store addr 8 v

def Condition.holds (c : Condition) (a b : Dword) : Bool :=
  if c = .eq then a = b
  else if c = .ne then a ≠ b
  else if c = .lt then a.slt b
  else if c = .ge then !a.slt b
  else if c = .ltu then a.ult b
  else !a.ult b

@[simp] theorem Condition.holds_eq (a b : Dword) : Condition.eq.holds a b = decide (a = b) := rfl
@[simp] theorem Condition.holds_ne (a b : Dword) : Condition.ne.holds a b = decide (a ≠ b) := rfl
@[simp] theorem Condition.holds_ltu (a b : Dword) : Condition.ltu.holds a b = a.ult b := rfl
@[simp] theorem Condition.holds_geu (a b : Dword) : Condition.geu.holds a b = !a.ult b := rfl

end Values

def Machine.reg (m : Machine) (r : Register) : Dword := m.x.get r.code

def Machine.freg (m : Machine) (r : FloatRegister) : Dword := m.f.get r.code

theorem FenceSet.low_bits (s : FenceSet) : (s.low.bits.setWidth 4).setWidth 32 = s.low.bits := by
  have kept : s.low.bits = (s.bits.extractLsb' 0 4).setWidth 32 := Format.nibble s.bits 0
  rw [kept, BitVec.setWidth_setWidth (w := 4) (by decide), BitVec.setWidth_eq]

@[simp] theorem FenceSet.low_w : FenceSet.w.low = .w := rfl
@[simp] theorem FenceSet.low_rw : FenceSet.rw.low = .rw := rfl

namespace Instruction

def effect (m : Machine) : Instruction → Effect
  | .immediate .jalr rd _ _ => .setRegister rd.code (m.pc + 4)
  | .immediate op rd rs1 imm => .setRegister rd.code (op.value (m.reg rs1) imm)
  | .shift op rd rs1 amount => .setRegister rd.code (op.value (m.reg rs1) amount.toNat)
  | .upper op rd imm => .setRegister rd.code (op.value m.pc imm)
  | .arithmetic op rd rs1 rs2 => .setRegister rd.code (op.value (m.reg rs1) (m.reg rs2))
  | .extend op rd rs => .setRegister rd.code (op.value (m.reg rs))
  | .load op rd base off => .setRegister rd.code (op.value m.memory (m.reg base + off))
  | .store op src base off => .store (m.reg base + off) op.size (m.reg src)
  | .loadFloat width fd base off => .setFloat fd.code (width.value m.memory (m.reg base + off))
  | .storeFloat width fs base off => width.stored (m.reg base + off) (m.freg fs)
  | .fence pred succ => .fence pred.low succ.low
  | .sqrt fd fs => .setFloat fd.code (SquareRoot.ofBits (m.freg fs))
  | .signXor fd fs1 fs2 => .setFloat fd.code (m.freg fs1 ^^^ (m.freg fs2 &&& Machine.signBit))
  | .moveBits rd fs => .setRegister rd.code (m.freg fs)
  | .jump rd _ => .setRegister rd.code (m.pc + 4)
  | .branch .. | .ebreak => .none

def next (m : Machine) : Instruction → Dword
  | .immediate .jalr _ rs1 imm => (m.reg rs1 + imm) &&& ~~~1
  | .branch c rs1 rs2 disp => m.pc + if c.holds (m.reg rs1) (m.reg rs2) then disp else 4
  | .jump _ disp => m.pc + disp
  | _ => m.pc + 4

end Instruction

namespace Format

theorem immediate_short (op : BitVec 7) (f3 : BitVec 3) (d s1 : BitVec 5) (imm : Dword)
    (fits : Field.fitsSigned imm 12 = true) :
    immediate (shortImmediate op f3 d s1 (imm.setWidth 12)) = imm := by
  rw [immediate, bits_short_immediate]
  exact Field.sign_extend_low imm 12 (by omega) (by omega) fits

theorem offset_store (op : BitVec 7) (f3 : BitVec 3) (s1 s2 : BitVec 5) (imm : Dword)
    (fits : Field.fitsSigned imm 12 = true) :
    storeOffset (storeFormat op f3 s1 s2 (imm.setWidth 12)) = imm := by
  rw [storeOffset, bits_store_format]
  exact Field.sign_extend_low imm 12 (by omega) (by omega) fits

end Format

namespace Machine

variable (m : Machine)

theorem immediate_value_shift (op : ShiftOp) (code : BitVec 7) (d s1 : BitVec 5)
    (a amount : Dword)
    (small : amount.toNat < 64) :
    immediateValue (Format.shortImmediate code op.funct3 d s1
      (op.high ++ amount.setWidth 6)) a = .ok (op.value a amount.toNat) := by
  have whole : (amount.setWidth 6).toNat = amount.toNat := by
    rw [BitVec.toNat_setWidth]
    omega
  -- Two extensions share the place of a shift and are told apart by the high bits.
  have other : ∀ v : BitVec 12, v.extractLsb' 6 6 ≠ 0 → 0#6 ++ amount.setWidth 6 ≠ v := by
    rintro _ high rfl
    exact high (by grind)
  cases op with
  | slli =>
      simp [immediateValue, ShiftOp.funct3, ShiftOp.high, ShiftOp.value,
        Format.amount_short_immediate, Format.high_short_immediate, whole, other 1540#12 (by decide),
        other 1541#12 (by decide)]
  | _ =>
      simp [immediateValue, ShiftOp.funct3, ShiftOp.high, ShiftOp.value,
        Format.amount_short_immediate, Format.high_short_immediate, whole]

theorem upper_value (imm : Dword) :
    sext 32 ((imm.setWidth 20 ++ 0#12).setWidth 64) = sext 32 (imm <<< 12) := by
  have same : ((imm.setWidth 20 ++ 0#12).setWidth 64).setWidth 32 =
      (imm <<< 12).setWidth 32 := by
    apply BitVec.eq_of_getLsbD_eq
    intro i inside
    grind
  rw [sext, same, sext]

theorem branch_taken_word (c : Condition) (code : BitVec 7) (s1 s2 : BitVec 5)
    (disp : BitVec 13) (a b : Dword) (valid : c.isValid = true) :
    branchTaken (Format.branchFormat code (c.code.setWidth 3) s1 s2 disp) a b =
      .ok (c.holds a b) := by
  rcases c.valid_cases valid with rfl | rfl | rfl | rfl | rfl | rfl <;>
    simp [branchTaken, Condition.holds, Condition.eq, Condition.ne, Condition.lt, Condition.ge,
      Condition.ltu, Condition.geu]

-- The machine and the assembler each put displacements together in their own way.

theorem branch_offset (w : Word) : branchOffset w = Format.branchDisplacement w := by
  rw [branchOffset, sext, Format.branchDisplacement]
  congr 1
  apply BitVec.eq_of_getLsbD_eq
  intro i inside
  simp only [Format.branchBits, BitVec.getLsbD_append, BitVec.getLsbD_extractLsb',
    BitVec.getLsbD_and, BitVec.getLsbD_or, BitVec.getLsbD_setWidth, BitVec.getLsbD_shiftLeft,
    BitVec.getLsbD_ushiftRight]
  interval_cases i <;> simp

theorem jump_offset (w : Word) : jumpOffset w = Format.jumpDisplacement w := by
  rw [jumpOffset, sext, Format.jumpDisplacement]
  congr 1
  apply BitVec.eq_of_getLsbD_eq
  intro i inside
  simp only [Format.jumpBits, BitVec.getLsbD_append, BitVec.getLsbD_extractLsb',
    BitVec.getLsbD_and, BitVec.getLsbD_or, BitVec.getLsbD_setWidth, BitVec.getLsbD_shiftLeft,
    BitVec.getLsbD_ushiftRight]
  interval_cases i <;> simp

theorem transition_word (i : Instruction) (encodable : i.Encodable) (running : i ≠ .ebreak) :
    m.transition i.word = .ok ⟨i.effect m, i.next m⟩ := by
  cases i with
  | immediate op rd rs1 imm =>
      obtain ⟨-, -, fits⟩ := encodable
      cases op <;>
        simp [transition, Instruction.word, Instruction.effect, Instruction.next,
          ImmediateOp.opcode, ImmediateOp.funct3, ImmediateOp.value, Format.opImmediate,
          Format.opImmediate32, Format.opJumpRegister, immediateValue, Format.immediate_short,
          fits, reg]
  | shift op rd rs1 amount =>
      obtain ⟨-, -, small⟩ := encodable
      simp [transition, Instruction.word, Instruction.effect, Instruction.next,
        Format.opImmediate, immediate_value_shift, small, reg]
  | upper op rd imm =>
      cases op <;>
        simp [transition, Instruction.word, Instruction.effect, Instruction.next,
          UpperOp.opcode, Format.opLui, Format.opAuipc, UpperOp.value, upper_value]
  | arithmetic op rd rs1 rs2 =>
      cases op <;>
        simp [transition, Instruction.word, Instruction.effect, Instruction.next,
          Format.opRegister, registerValue, RegisterOp.funct3, RegisterOp.funct7,
          RegisterOp.value, reg]
  | extend op rd rs =>
      cases op <;>
        simp [transition, Instruction.word, Instruction.effect, Instruction.next,
          ExtendOp.format, ExtendOp.value, Format.opImmediate, Format.opRegister32,
          immediateValue, reg]
  | load op rd base off =>
      obtain ⟨-, -, fits⟩ := encodable
      cases op <;>
        simp [transition, Instruction.word, Instruction.effect, Instruction.next, Format.opLoad,
          LoadOp.funct3, LoadOp.value, loadValue, Format.immediate_short, fits, reg]
  | store op src base off =>
      obtain ⟨-, -, fits⟩ := encodable
      cases op <;>
        simp [transition, Instruction.word, Instruction.effect, Instruction.next,
          Format.opStore, StoreOp.funct3, StoreOp.size, Format.offset_store, fits, reg]
  | loadFloat width fd base off =>
      obtain ⟨-, -, fits⟩ := encodable
      cases width <;>
        simp [transition, Instruction.word, Instruction.effect, Instruction.next,
          Format.opLoadFloat, FloatWidth.funct3, FloatWidth.value, loadFloatValue,
          Format.immediate_short, fits, reg]
  | storeFloat width fs base off =>
      obtain ⟨-, -, fits⟩ := encodable
      cases width <;>
        simp [transition, Instruction.word, Instruction.effect, Instruction.next,
          Format.opStoreFloat, FloatWidth.funct3, FloatWidth.stored, Format.offset_store, fits,
          reg, freg]
  | fence pred succ =>
      simp [transition, Instruction.word, Instruction.effect, Instruction.next, Format.opFence,
        Format.nibble, Format.fence_pred, Format.fence_succ, FenceSet.low_bits]
  | sqrt fd fs | signXor fd fs1 fs2 | moveBits rd fs =>
      simp [transition, Instruction.word, Instruction.effect, Instruction.next, Format.opFloat,
        floatEffect, freg]
  | branch c rs1 rs2 disp =>
      obtain ⟨valid, -, -, reach⟩ := encodable
      cases taken : c.holds (m.reg rs1) (m.reg rs2) <;>
        rw [reg, reg] at taken <;>
        simp [transition, Instruction.word, Instruction.effect, Instruction.next, Format.opBranch,
          branch_taken_word, valid, reg, taken, branch_offset,
          Format.branch_bits_of_reaches _ _ _ _ _ reach]
  | jump rd disp =>
      simp [transition, Instruction.word, Instruction.effect, Instruction.next, Format.opJump,
        jump_offset, Format.jump_bits_of_reaches _ _ _ encodable.2]
  | ebreak => exact absurd rfl running

end Machine

end EntryCode
