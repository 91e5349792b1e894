import EntryCode.Interpreter.Exit
import EntryCode.Proofs.Interpreter.Fragment

/-!
Result handlers executed. What a native function has left in a register is brought into the form
of its type: cut to its width and extended again, or loaded from the handle that it is.
-/

namespace EntryCode.Exit

open EntryCode.Frame Pinned Fragment Linked Machine

/-- A result of type `t`, from what a native function has left in `a0`. -/
def converted (mem : Memory) (v : Dword) : BasicType → Dword
  | .boolean => if v.setWidth 8 = 0 then 0 else 1
  | .byte => (v.setWidth 8).signExtend 64
  | .char => (v.setWidth 16).setWidth 64
  | .short => (v.setWidth 16).signExtend 64
  | .int => (v.setWidth 32).signExtend 64
  | .object => if v = 0 then 0 else mem.load v wordSize
  | .long | .float | .double | .void => v

theorem shift_low (v : Dword) (w : Nat) (short : w ≤ 64) :
    (v <<< (64 - w)) >>> (64 - w) = (v.setWidth w).setWidth 64 := by
  apply BitVec.eq_of_getLsbD_eq
  intro i inside
  rw [BitVec.getLsbD_ushiftRight, BitVec.getLsbD_setWidth, BitVec.getLsbD_setWidth,
    BitVec.getLsbD_shiftLeft]
  by_cases low : i < w
  · simp [low, inside, show 64 - w + i < 64 by omega]
  · simp [low, show ¬ 64 - w + i < 64 by omega]

theorem mask_low (v : Dword) (w : Nat) (short : w ≤ 64) :
    v &&& BitVec.ofNat 64 (2 ^ w - 1) = (v.setWidth w).setWidth 64 := by
  apply BitVec.eq_of_toNat_eq
  have small : 2 ^ w ≤ 2 ^ 64 := Nat.pow_le_pow_right (by omega) short
  have some : 0 < 2 ^ w := Nat.two_pow_pos w
  have bound := Nat.mod_lt v.toNat some
  rw [BitVec.toNat_and, BitVec.toNat_setWidth, BitVec.toNat_setWidth, BitVec.toNat_ofNat,
    Nat.mod_eq_of_lt (by omega), Nat.and_two_pow_sub_one_eq_mod]
  exact (Nat.mod_eq_of_lt (by omega)).symm

section Converting
variable {c : Linked} {m : Machine} {rest : Program} (e : Extensions)

/-- What a straight piece on `a0` makes of it. -/
theorem narrow_runs (p : Program) {v : Dword} (stands : c.Stands m (p ++ rest))
    (falls : p.all Op.falls = true) (silent : p.all Op.silent = true)
    (writes : p.all (Op.writes [.a0]) = true) (value : (m.performs p).reg .a0 = v) :
    ∃ k, c.Comes m k rest ∧ Keeps [.a0] m k ∧ k.memory = m.memory ∧ k.reg .a0 = v := by
  obtain ⟨comes, keeps, memory⟩ := stands.computes p [.a0] falls silent writes
  exact ⟨_, comes, keeps, memory, value⟩

theorem boolean_runs (stands : c.Stands m (.andi .a0 .a0 0xff :: .snez .a0 .a0 :: rest)) :
    ∃ k, c.Comes m k rest ∧ Keeps [.a0] m k ∧ k.memory = m.memory ∧
      k.reg .a0 = converted m.memory (m.reg .a0) .boolean := by
  refine narrow_runs [.andi .a0 .a0 0xff, .snez .a0 .a0] stands rfl rfl rfl ?_
  simp (disch := decide) only [Op.andi, Op.snez, Pseudo.snez, performs_instruction, performs_nil,
    exec_immediate, exec_arithmetic, reg_goto, reg_put_self, reg_put_ne, ImmediateOp.value,
    RegisterOp.value, reg_zero stands.cleared]
  rw [show m.reg .a0 &&& 0xff = _ from mask_low _ 8 (by omega), converted, flag]
  generalize (m.reg .a0).setWidth 8 = v
  split
  · next some =>
      rw [if_neg]
      rintro rfl
      cases some
  · next none =>
      rw [if_pos]
      apply BitVec.eq_of_toNat_eq
      rw [BitVec.ult, decide_eq_true_eq, BitVec.toNat_setWidth] at none
      have bound := v.isLt
      have zero : (0 : Dword).toNat = 0 := rfl
      have zero' : (0 : Byte).toNat = 0 := rfl
      omega

theorem object_runs {l : Label} (stands : c.Stands m (.beqz .a0 l :: .ld .a0 .a0 0 :: .bind l :: rest)) :
    ∃ k, c.Comes m k rest ∧ Keeps [.a0] m k ∧ k.memory = m.memory ∧
      k.reg .a0 = converted m.memory (m.reg .a0) .object := by
  rw [converted]
  split
  · next null =>
      obtain ⟨pc, leads, stands⟩ := stands.branch_over [_] (by
        rw [reg_zero stands.cleared, null]
        rfl)
      exact ⟨_, ⟨leads, stands⟩, (Keeps.refl _ m).goto pc, rfl, null⟩
  · next some =>
      obtain ⟨first, stands⟩ := stands.branch_past (by
        rw [reg_zero stands.cleared]
        exact decide_eq_false some)
      obtain ⟨second, stands⟩ := stands.load
      refine ⟨_, ⟨first.trans second, stands.bind.2⟩,
        (((Keeps.refl _ m).goto _).put (by decide) _).goto _, rfl, ?_⟩
      rw [reg_goto, reg_put_self _ _ _ (by decide), LoadOp.value, reg_goto, memory_goto,
        show m.reg .a0 + 0 = m.reg .a0 from BitVec.add_zero _]
      rfl

theorem convert_result_runs (t : BasicType) (stands : c.Stands m (convertResult e t ++ rest)) :
    ∃ k, c.Comes m k rest ∧ Keeps [.a0] m k ∧ k.memory = m.memory ∧
      k.reg .a0 = converted m.memory (m.reg .a0) t := by
  cases t with
  | boolean => exact boolean_runs stands
  | object => exact object_runs stands
  | long | float | double | void => exact narrow_runs [] stands rfl rfl rfl rfl
  | int =>
      refine narrow_runs [.sextW .a0 .a0] stands rfl rfl rfl ?_
      simp (disch := decide) only [Op.sextW, Pseudo.sextW, performs_instruction, performs_nil,
        exec_immediate, reg_goto, reg_put_self, ImmediateOp.value]
      rw [show m.reg .a0 + 0 = m.reg .a0 from BitVec.add_zero _]
      rfl
  | byte =>
      rw [convertResult, signExtendByte] at stands
      split at stands
      · refine narrow_runs _ stands rfl rfl rfl ?_
        exact reg_put_self _ _ _ (by decide)
      · refine narrow_runs _ stands rfl rfl rfl ?_
        simp (disch := decide) only [Op.slli, Op.srai, performs_instruction, performs_nil,
          exec_shift, reg_goto, reg_put_self, ShiftOp.value]
        exact Field.shift_sign _ 8 (by omega)
  | short =>
      rw [convertResult, signExtendHalf] at stands
      split at stands
      · refine narrow_runs _ stands rfl rfl rfl ?_
        exact reg_put_self _ _ _ (by decide)
      · refine narrow_runs _ stands rfl rfl rfl ?_
        simp (disch := decide) only [Op.slli, Op.srai, performs_instruction, performs_nil,
          exec_shift, reg_goto, reg_put_self, ShiftOp.value]
        exact Field.shift_sign _ 16 (by omega)
  | char =>
      rw [convertResult, zeroExtendHalf] at stands
      split at stands
      · refine narrow_runs _ stands rfl rfl rfl ?_
        exact (reg_put_self _ _ _ (by decide)).trans (mask_low _ 16 (by omega))
      · refine narrow_runs _ stands rfl rfl rfl ?_
        simp (disch := decide) only [Op.slli, Op.srli, performs_instruction, performs_nil,
          exec_shift, reg_goto, reg_put_self, ShiftOp.value]
        exact shift_low _ 16 (by omega)

theorem result_handler_runs (t : BasicType) (stands : c.Stands m (resultHandler e t ++ rest))
    (even : m.reg .ra &&& 1 = 0) :
    ∃ k, c.Leads m k ∧ k.pc = m.reg .ra ∧ Keeps [.a0] m k ∧ k.memory = m.memory ∧
      k.reg .a0 = converted m.memory (m.reg .a0) t := by
  simp only [resultHandler, List.flatten_cons, List.flatten_nil, List.append_nil,
    List.append_assoc, List.cons_append, List.nil_append] at stands
  obtain ⟨k, ⟨first, stands⟩, keeps, memory, value⟩ := convert_result_runs e t stands.bind.2
  have link := keeps.registers .ra (by decide)
  have second := stands.ret (by rw [link]; exact even)
  exact ⟨_, first.trans second, link, keeps.goto _, memory, value⟩

end Converting

end EntryCode.Exit
