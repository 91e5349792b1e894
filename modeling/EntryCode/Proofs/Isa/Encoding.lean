import EntryCode.Isa.Instruction
import EntryCode.Proofs.Isa.Format

/-!
What encoding an instruction comes to: the conditions on its operands under which it succeeds, and
the word that it gives then. Sending a branch elsewhere is encoding it with another displacement.
-/

namespace EntryCode

theorem bind_ok {ε α β : Type} {x : Except ε α} {f : α → Except ε β} {b : β} :
    (x >>= f) = .ok b ↔ ∃ a, x = .ok a ∧ f a = .ok b := by
  cases x <;> simp [bind, Except.bind]

/-- The five bits that name a register in a word. -/
def Register.code (r : Register) : BitVec 5 := r.number.setWidth 5

/-- The five bits that name a register in a word. -/
def FloatRegister.code (f : FloatRegister) : BitVec 5 := f.number.setWidth 5

theorem Register.encode_ok {r : Register} {f : BitVec 5} :
    r.encode = .ok f ↔ r.isValid = true ∧ f = r.code := by
  by_cases valid : r.isValid = true
  · simp [Register.encode, Register.field?, Register.code, valid, @eq_comm _ f]
  · simp [Register.encode, Register.field?, valid]

theorem FloatRegister.encode_ok {r : FloatRegister} {f : BitVec 5} :
    r.encode = .ok f ↔ r.isValid = true ∧ f = r.code := by
  by_cases valid : r.isValid = true
  · simp [FloatRegister.encode, FloatRegister.field?, FloatRegister.code, valid, @eq_comm _ f]
  · simp [FloatRegister.encode, FloatRegister.field?, valid]

theorem Register.of_field_code (r : Register) (valid : r.isValid = true) : ofField r.code = r := by
  have small : r.number.toNat < 32 := by simpa [isValid, BitVec.lt_def] using valid
  have same : (r.number.setWidth 5).setWidth 8 = r.number := by
    apply BitVec.eq_of_toNat_eq
    simp only [BitVec.toNat_setWidth]
    omega
  rw [ofField, code, same]

theorem Condition.valid_cases (c : Condition) (valid : c.isValid = true) :
    c = eq ∨ c = ne ∨ c = lt ∨ c = ge ∨ c = ltu ∨ c = geu := by
  by_contra missing
  simp only [not_or] at missing
  obtain ⟨h1, h2, h3, h4, h5, h6⟩ := missing
  simp [isValid, known, List.lookup, beq_eq_false_iff_ne.mpr, h1, h2, h3, h4, h5, h6] at valid

theorem Condition.code_low (c : Condition) (valid : c.isValid = true) :
    (c.code.setWidth 3).setWidth 32 = c.code := by
  rcases c.valid_cases valid with rfl | rfl | rfl | rfl | rfl | rfl <;> rfl

namespace Format

theorem field_ok {what : String} {w : Nat} {v : Dword} {f : BitVec w} (positive : 0 < w)
    (short : w ≤ 32) :
    field what w v = .ok f ↔ Field.fitsSigned v w = true ∧ f = v.setWidth w := by
  have written : field what w v = .ok f ↔ Field.lowBits v w = .ok f := by
    rw [field]
    cases Field.lowBits v w <;> simp [Except.mapError]
  rw [written, Field.low_bits_ok_iff]
  exact and_iff_right ⟨positive, short⟩

theorem upper_field_ok {what : String} {v : Dword} {f : BitVec 20} :
    upperField what v = .ok f ↔
      (Field.fitsSigned v 20 = true ∨ Field.fitsUnsigned v 20 = true) ∧ f = v.setWidth 20 := by
  by_cases fits : Field.fitsSigned v 20 = true ∨ Field.fitsUnsigned v 20 = true
  · simp [upperField, fits, @eq_comm _ f]
  · simp [upperField, fits]

/-- Whether a displacement can be put in `w` bits. -/
def Reaches (w : Nat) (disp : Dword) : Prop :=
  disp.getLsbD 0 = false ∧ Field.fitsSigned disp w = true

theorem displacement_field_ok {what : String} {w : Nat} {disp : Dword} {f : BitVec w}
    (positive : 0 < w) (short : w ≤ 32) :
    displacementField what w disp = .ok f ↔ Reaches w disp ∧ f = disp.setWidth w := by
  cases odd : disp.getLsbD 0 with
  | true => simp [displacementField, Reaches, odd]
  | false =>
    simp only [displacementField, Reaches, odd, Bool.false_eq_true, if_false, true_and]
    exact field_ok positive short

theorem short_field_ok {what : String} {v : Dword} {f : BitVec 12} :
    field what 12 v = .ok f ↔ Field.fitsSigned v 12 = true ∧ f = v.setWidth 12 :=
  field_ok (by omega) (by omega)

theorem branch_field_ok {disp : Dword} {f : BitVec 13} :
    branchField disp = .ok f ↔ Reaches 13 disp ∧ f = disp.setWidth 13 :=
  displacement_field_ok (by omega) (by omega)

theorem jump_field_ok {disp : Dword} {f : BitVec 21} :
    jumpField disp = .ok f ↔ Reaches 21 disp ∧ f = disp.setWidth 21 :=
  displacement_field_ok (by omega) (by omega)

theorem branch_bits_of_reaches (op : BitVec 7) (f3 : BitVec 3) (s1 s2 : BitVec 5) (disp : Dword)
    (reach : Reaches 13 disp) :
    branchDisplacement (branchFormat op f3 s1 s2 (disp.setWidth 13)) = disp := by
  have even : (disp.setWidth 13).getLsbD 0 = false := by
    rw [BitVec.getLsbD_setWidth, reach.1]
    rfl
  rw [branchDisplacement, bits_branch_format _ _ _ _ _ even]
  exact Field.sign_extend_low disp 13 (by omega) (by omega) reach.2

theorem jump_bits_of_reaches (op : BitVec 7) (d : BitVec 5) (disp : Dword)
    (reach : Reaches 21 disp) :
    jumpDisplacement (jumpFormat op d (disp.setWidth 21)) = disp := by
  have even : (disp.setWidth 21).getLsbD 0 = false := by
    rw [BitVec.getLsbD_setWidth, reach.1]
    rfl
  rw [jumpDisplacement, bits_jump_format _ _ _ even]
  exact Field.sign_extend_low disp 21 (by omega) (by omega) reach.2

end Format

namespace Instruction

theorem shift_field_ok {op : ShiftOp} {amount : Dword} {f : BitVec 6} :
    shiftField op amount = .ok f ↔ amount.toNat < 64 ∧ f = amount.setWidth 6 := by
  have range : (amount.slt 0 || (63 : Dword).slt amount) = decide (64 ≤ amount.toNat) := by
    rw [Bool.eq_iff_iff, Bool.or_eq_true_iff, BitVec.slt_iff_toInt_lt, BitVec.slt_iff_toInt_lt,
      BitVec.toInt_eq_toNat_cond amount, decide_eq_true_iff]
    simp only [show (0 : Dword).toInt = 0 from rfl, show (63 : Dword).toInt = 63 from rfl]
    omega
  by_cases small : amount.toNat < 64
  · have inside : ¬64 ≤ amount.toNat := by omega
    simp only [shiftField, range, inside]
    simp [small, @eq_comm _ f]
  · have outside : 64 ≤ amount.toNat := by omega
    simp only [shiftField, range, outside]
    simp [small]

def Encodable : Instruction → Prop
  | .immediate _ rd rs1 imm =>
    rd.isValid = true ∧ rs1.isValid = true ∧ Field.fitsSigned imm 12 = true
  | .shift _ rd rs1 amount => rd.isValid = true ∧ rs1.isValid = true ∧ amount.toNat < 64
  | .upper _ rd imm =>
    rd.isValid = true ∧ (Field.fitsSigned imm 20 = true ∨ Field.fitsUnsigned imm 20 = true)
  | .arithmetic _ rd rs1 rs2 => rd.isValid = true ∧ rs1.isValid = true ∧ rs2.isValid = true
  | .extend _ rd rs => rd.isValid = true ∧ rs.isValid = true
  | .load _ rd base off =>
    rd.isValid = true ∧ base.isValid = true ∧ Field.fitsSigned off 12 = true
  | .store _ src base off =>
    base.isValid = true ∧ src.isValid = true ∧ Field.fitsSigned off 12 = true
  | .loadFloat _ fd base off =>
    fd.isValid = true ∧ base.isValid = true ∧ Field.fitsSigned off 12 = true
  | .storeFloat _ fs base off =>
    base.isValid = true ∧ fs.isValid = true ∧ Field.fitsSigned off 12 = true
  | .fence .. | .ebreak => True
  | .sqrt fd fs => fd.isValid = true ∧ fs.isValid = true
  | .signXor fd fs1 fs2 => fd.isValid = true ∧ fs1.isValid = true ∧ fs2.isValid = true
  | .moveBits rd fs => rd.isValid = true ∧ fs.isValid = true
  | .branch c rs1 rs2 disp =>
    c.isValid = true ∧ rs1.isValid = true ∧ rs2.isValid = true ∧ Format.Reaches 13 disp
  | .jump rd disp => rd.isValid = true ∧ Format.Reaches 21 disp

/-- The word of an instruction whose operands meet their conditions. -/
def word : Instruction → Word
  | .immediate op rd rs1 imm =>
    Format.shortImmediate op.opcode op.funct3 rd.code rs1.code (imm.setWidth 12)
  | .shift op rd rs1 amount =>
    Format.shortImmediate Format.opImmediate op.funct3 rd.code rs1.code
      (op.high ++ amount.setWidth 6)
  | .upper op rd imm => Format.upperImmediate op.opcode rd.code (imm.setWidth 20)
  | .arithmetic op rd rs1 rs2 =>
    Format.threeRegister Format.opRegister op.funct3 op.funct7 rd.code rs1.code rs2.code
  | .extend op rd rs => op.format rd.code rs.code
  | .load op rd base off =>
    Format.shortImmediate Format.opLoad op.funct3 rd.code base.code (off.setWidth 12)
  | .store op src base off =>
    Format.storeFormat Format.opStore op.funct3 base.code src.code (off.setWidth 12)
  | .loadFloat width fd base off =>
    Format.shortImmediate Format.opLoadFloat width.funct3 fd.code base.code (off.setWidth 12)
  | .storeFloat width fs base off =>
    Format.storeFormat Format.opStoreFloat width.funct3 base.code fs.code (off.setWidth 12)
  | .fence pred succ =>
    Format.shortImmediate Format.opFence 0 0 0 
      (0#4 ++ pred.low.bits.setWidth 4 ++ succ.low.bits.setWidth 4)
  | .sqrt fd fs => Format.threeRegister Format.opFloat 7 0x2d fd.code fs.code 0
  | .signXor fd fs1 fs2 => Format.threeRegister Format.opFloat 2 0x11 fd.code fs1.code fs2.code
  | .moveBits rd fs => Format.threeRegister Format.opFloat 0 0x71 rd.code fs.code 0
  | .branch c rs1 rs2 disp =>
    Format.branchFormat Format.opBranch (c.code.setWidth 3) rs1.code rs2.code (disp.setWidth 13)
  | .jump rd disp => Format.jumpFormat Format.opJump rd.code (disp.setWidth 21)
  | .ebreak => 0x00100073

theorem encode_branch (c : Condition) (rs1 rs2 : Register) (disp : Dword)
    (condition : c.isValid = true) (first : rs1.isValid = true) (second : rs2.isValid = true) :
    (Instruction.branch c rs1 rs2 disp).encode = (Format.branchField disp).map
      (Format.branchFormat Format.opBranch (c.code.setWidth 3) rs1.code rs2.code) := by
  simp only [encode, condition, Register.encode_ok.mpr ⟨first, rfl⟩,
    Register.encode_ok.mpr ⟨second, rfl⟩]
  cases Format.branchField disp <;> rfl

theorem encode_jump (rd : Register) (disp : Dword) (valid : rd.isValid = true) :
    (Instruction.jump rd disp).encode =
      (Format.jumpField disp).map (Format.jumpFormat Format.opJump rd.code) := by
  simp only [encode, Register.encode_ok.mpr ⟨valid, rfl⟩]
  cases Format.jumpField disp <;> rfl

theorem encode_ok {i : Instruction} {w : Word} : i.encode = .ok w ↔ i.Encodable ∧ w = i.word := by
  cases i with
  | branch c rs1 rs2 disp =>
    cases valid : c.isValid with
    | false =>
      simp [encode, Encodable, valid, throw, throwThe, MonadExceptOf.throw, bind, Except.bind]
    | true =>
      have opened : encode (.branch c rs1 rs2 disp) = (do
          let s1 ← rs1.encode
          let s2 ← rs2.encode
          let f ← Format.branchField disp
          return Format.branchFormat Format.opBranch (c.code.setWidth 3) s1 s2 f) := by
        simp [encode, valid]
      simp only [opened, Encodable, word, valid, bind_ok, Register.encode_ok,
        Format.branch_field_ok, exists_and_left, exists_eq_left, pure, Except.pure,
        Except.ok.injEq, true_and, and_assoc, @eq_comm _ w]
  | _ =>
    simp only [encode, Encodable, word, bind_ok, Register.encode_ok, FloatRegister.encode_ok,
      Format.short_field_ok, Format.upper_field_ok, shift_field_ok, Format.jump_field_ok,
      exists_and_left, exists_eq_left, pure, Except.pure, Except.ok.injEq, true_and, and_assoc,
      @eq_comm _ w]

section Retargeting
variable (c : Condition) (rs1 rs2 rd : Register) (disp dest pos : Dword)

/-- A branch that is sent elsewhere is the same branch with another displacement, and it is
refused for the same reasons. -/
theorem retarget_branch (encodable : (Instruction.branch c rs1 rs2 disp).Encodable) :
    Format.retarget dest (Instruction.branch c rs1 rs2 disp).word pos =
      (Instruction.branch c rs1 rs2 (dest - pos)).encode := by
  obtain ⟨condition, first, second, -⟩ := encodable
  rw [encode_branch c rs1 rs2 (dest - pos) condition first second]
  simp [Format.retarget, word]

theorem retarget_jump (encodable : (Instruction.jump rd disp).Encodable) :
    Format.retarget dest (Instruction.jump rd disp).word pos =
      (Instruction.jump rd (dest - pos)).encode := by
  rw [encode_jump rd (dest - pos) encodable.1]
  simp [Format.retarget, word, Format.opJump, Format.opBranch]

theorem destination_branch (encodable : (Instruction.branch c rs1 rs2 disp).Encodable) :
    Format.destination (Instruction.branch c rs1 rs2 disp).word pos = .ok (pos + disp) := by
  obtain ⟨-, -, -, reach⟩ := encodable
  simp [Format.destination, word, Format.branch_bits_of_reaches _ _ _ _ _ reach]

theorem destination_jump (encodable : (Instruction.jump rd disp).Encodable) :
    Format.destination (Instruction.jump rd disp).word pos = .ok (pos + disp) := by
  simp [Format.destination, word, Format.jump_bits_of_reaches _ _ _ encodable.2, Format.opJump,
    Format.opBranch]

end Retargeting

end Instruction

end EntryCode
