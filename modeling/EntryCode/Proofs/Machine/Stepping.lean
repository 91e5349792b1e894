import EntryCode.Assembler.Shorthand
import EntryCode.Proofs.Machine.Linked

/-!
Machines at programs, one operation at a time. Each lemma says where the machine stands after the
operation at the head of the program and what it has changed.
-/

namespace EntryCode

/-- A machine stands at a program: the code is in memory and control is at its start. -/
structure Linked.Stands (c : Linked) (m : Machine) (p : Program) : Prop where
  cleared : m.Zeroed
  here : c.InMemory m.memory
  placed : c.Has m.pc p

/-- A machine comes to stand at `rest`. -/
def Linked.Comes (c : Linked) (m last : Machine) (rest : Program) : Prop :=
  c.Leads m last ∧ c.Stands last rest

namespace Linked

variable {c : Linked} {m last : Machine} {rest : Program}

theorem Comes.trans {p : Program} {k : Machine} (first : c.Comes m k p)
    (second : c.Stands k p → c.Comes k last rest) : c.Comes m last rest := by
  obtain ⟨leads, stands⟩ := second first.2
  exact ⟨first.1.trans leads, stands⟩

theorem Stands.value {i : Instruction} {rd : Register} {v : Dword}
    (stands : c.Stands m (.instruction i :: rest))
    (effect : m.exec i = (m.put rd v).goto (m.pc + 4)) (hidden : i.hidden = true) :
    c.Comes m ((m.put rd v).goto (m.pc + 4)) rest := by
  obtain ⟨lies, next⟩ := has_instruction.mp stands.placed
  have runs := runs_one stands.cleared stands.here lies hidden
  rw [effect] at runs
  exact ⟨⟨1, runs⟩, Machine.zeroed_put stands.cleared rd v, stands.here, next⟩

theorem Stands.immediate {op : ImmediateOp} {rd rs : Register} {imm : Dword}
    (stands : c.Stands m (.instruction (.immediate op rd rs imm) :: rest)) (value : op ≠ .jalr) :
    c.Comes m ((m.put rd (op.value (m.reg rs) imm)).goto (m.pc + 4)) rest :=
  stands.value (m.exec_immediate op rd rs imm value) (by simp)

theorem Stands.shift {op : ShiftOp} {rd rs : Register} {amount : Dword}
    (stands : c.Stands m (.instruction (.shift op rd rs amount) :: rest)) :
    c.Comes m ((m.put rd (op.value (m.reg rs) amount.toNat)).goto (m.pc + 4)) rest :=
  stands.value rfl (by simp)

theorem Stands.upper {op : UpperOp} {rd : Register} {imm : Dword}
    (stands : c.Stands m (.instruction (.upper op rd imm) :: rest)) :
    c.Comes m ((m.put rd (op.value m.pc imm)).goto (m.pc + 4)) rest :=
  stands.value rfl (by simp)

theorem Stands.arithmetic {op : RegisterOp} {rd rs1 rs2 : Register}
    (stands : c.Stands m (.instruction (.arithmetic op rd rs1 rs2) :: rest)) :
    c.Comes m ((m.put rd (op.value (m.reg rs1) (m.reg rs2))).goto (m.pc + 4)) rest :=
  stands.value rfl (by simp)

theorem Stands.load {op : LoadOp} {rd base : Register} {off : Dword}
    (stands : c.Stands m (.instruction (.load op rd base off) :: rest)) :
    c.Comes m ((m.put rd (op.value m.memory (m.reg base + off))).goto (m.pc + 4)) rest :=
  stands.value rfl (by simp)

theorem Stands.load_float {width : FloatWidth} {fd : FloatRegister} {base : Register}
    {off : Dword} (stands : c.Stands m (.instruction (.loadFloat width fd base off) :: rest)) :
    c.Comes m ((m.putFloat fd (width.value m.memory (m.reg base + off))).goto (m.pc + 4))
      rest := by
  obtain ⟨lies, next⟩ := has_instruction.mp stands.placed
  have runs := runs_one stands.cleared stands.here lies (by simp)
  exact ⟨⟨1, runs⟩, stands.cleared, stands.here, next⟩

/-- A branch that is not taken leads to what follows it. -/
theorem Stands.branch_past {cond : Condition} {rs1 rs2 : Register} {l : Label}
    (stands : c.Stands m (.branch cond rs1 rs2 l :: rest))
    (past : cond.holds (m.reg rs1) (m.reg rs2) = false) : c.Comes m (m.goto (m.pc + 4)) rest := by
  obtain ⟨lies, next⟩ := has_branch.mp stands.placed
  have runs := runs_one stands.cleared stands.here lies (by simp)
  rw [m.exec_branch, past] at runs
  exact ⟨⟨1, runs⟩, stands.cleared, stands.here, next⟩

theorem Stands.branch_taken {cond : Condition} {rs1 rs2 : Register} {l : Label} {p : Program}
    (stands : c.Stands m (.branch cond rs1 rs2 l :: rest))
    (taken : cond.holds (m.reg rs1) (m.reg rs2) = true) (there : c.Has (c.target l) p) :
    c.Comes m (m.goto (c.target l)) p := by
  obtain ⟨lies, -⟩ := has_branch.mp stands.placed
  have runs := runs_one stands.cleared stands.here lies (by simp)
  have target : m.pc + (c.target l - m.pc) = c.target l := by
    rw [BitVec.add_comm, BitVec.sub_add_cancel]
  rw [m.exec_branch, taken, if_pos rfl, target] at runs
  exact ⟨⟨1, runs⟩, stands.cleared, stands.here, there⟩

theorem Stands.branch_over {cond : Condition} {rs1 rs2 : Register} {l : Label} (p : Program)
    (stands : c.Stands m (.branch cond rs1 rs2 l :: (p ++ .bind l :: rest)))
    (taken : cond.holds (m.reg rs1) (m.reg rs2) = true) : ∃ pc, c.Comes m (m.goto pc) rest := by
  obtain ⟨-, after⟩ := has_branch.mp stands.placed
  obtain ⟨-, next, bound⟩ := has_append after
  obtain ⟨target, there⟩ := has_bind.mp bound
  exact ⟨_, stands.branch_taken taken (target ▸ there)⟩

theorem Stands.jump {l : Label} {p : Program} (stands : c.Stands m (.jump .zero l :: rest))
    (there : c.Has (c.target l) p) : c.Comes m (m.goto (c.target l)) p := by
  obtain ⟨lies, -⟩ := has_jump.mp stands.placed
  have runs := runs_one stands.cleared stands.here lies (by simp)
  have target : m.pc + (c.target l - m.pc) = c.target l := by
    rw [BitVec.add_comm, BitVec.sub_add_cancel]
  rw [m.exec_jump, Machine.put_zero, target] at runs
  exact ⟨⟨1, runs⟩, stands.cleared, stands.here, there⟩

theorem Stands.bind {l : Label} (stands : c.Stands m (.bind l :: rest)) :
    c.target l = m.pc ∧ c.Stands m rest := by
  obtain ⟨target, placed⟩ := has_bind.mp stands.placed
  exact ⟨target, stands.cleared, stands.here, placed⟩

theorem Stands.comment {text : String} (stands : c.Stands m (.comment text :: rest)) :
    c.Stands m rest :=
  ⟨stands.cleared, stands.here, has_comment.mp stands.placed⟩

/-- Jumping to the address in a register, whose lowest bit does not count. -/
theorem Stands.jump_register {rd rs : Register}
    (stands : c.Stands m (.instruction (.immediate .jalr rd rs 0) :: rest)) :
    c.Leads m ((m.put rd (m.pc + 4)).goto (m.reg rs &&& ~~~1)) ∧ c.Has (m.pc + 4) rest := by
  obtain ⟨lies, next⟩ := has_instruction.mp stands.placed
  have runs := runs_one stands.cleared stands.here lies (by simp)
  rw [m.exec_jump_register, show m.reg rs + 0 = m.reg rs from BitVec.add_zero _] at runs
  exact ⟨⟨1, runs⟩, next⟩

/-- Calling the routine at an even address in a register. -/
theorem Stands.call_register {rs : Register} (stands : c.Stands m (.callRegister rs :: rest))
    (even : m.reg rs &&& 1 = 0) :
    c.Leads m ((m.put .ra (m.pc + 4)).goto (m.reg rs)) ∧ c.Has (m.pc + 4) rest := by
  obtain ⟨leads, next⟩ := Stands.jump_register stands
  rw [Machine.even_address even] at leads
  exact ⟨leads, next⟩

theorem Stands.jr {rs : Register} (stands : c.Stands m (.jr rs :: rest)) :
    c.Leads m (m.goto (m.reg rs &&& ~~~1)) := by
  have leads := (Stands.jump_register stands).1
  rwa [Machine.put_zero] at leads

/-- Returning to an even address. -/
theorem Stands.ret (stands : c.Stands m (.ret :: rest)) (even : m.reg .ra &&& 1 = 0) :
    c.Leads m (m.goto (m.reg .ra)) := by
  have leads := Stands.jr stands
  rwa [Machine.even_address even] at leads

theorem Stands.stores {i : Instruction} {addr v : Dword} {size : Nat}
    (stands : c.Stands m (.instruction i :: rest)) (effect : i.effect m = .store addr size v)
    (exec : m.exec i = (m.poke addr size v).goto (m.pc + 4)) (short : size ≤ 2 ^ 64)
    (outside : ∀ b, Memory.Covers addr size b → ¬c.Covers b) :
    c.Comes m ((m.poke addr size v).goto (m.pc + 4)) rest := by
  obtain ⟨lies, next⟩ := has_instruction.mp stands.placed
  have running : i ≠ .ebreak := by
    rintro rfl
    cases effect
  have runs := runs_unseen stands.cleared stands.here lies running
    (by rw [effect]; exact store_unseen short outside)
  rw [exec] at runs
  refine ⟨⟨1, runs⟩, stands.cleared, ?_, next⟩
  refine stands.here.congr fun b covered => ?_
  rw [Machine.memory_goto, Machine.memory_poke, Memory.byte_store _ _ _ _ _ short]
  exact if_neg fun inside => outside b inside (.inl covered)

theorem Stands.store {op : StoreOp} {src base : Register} {off : Dword}
    (stands : c.Stands m (.instruction (.store op src base off) :: rest))
    (outside : ∀ b, Memory.Covers (m.reg base + off) op.size b → ¬c.Covers b) :
    c.Comes m ((m.poke (m.reg base + off) op.size (m.reg src)).goto (m.pc + 4)) rest :=
  stands.stores rfl rfl (by cases op <;> decide) outside

end Linked

end EntryCode
