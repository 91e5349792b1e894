import EntryCode.Proofs.Assembler.Pseudo
import EntryCode.Proofs.Machine.Constant
import EntryCode.Proofs.Machine.Stepping

/-!
Instructions that stand for others, executed. Where an offset or a constant is no immediate it is
built in a scratch register first, so the effect is that of one instruction but for that register.
-/

namespace EntryCode

namespace Linked

variable {c : Linked} {m last : Machine} {rest : Program}

theorem Stands.planned {op : Op} {is : List Instruction} (stands : c.Stands m (op :: rest))
    (emits : ∀ pos, op.emissions pos = EntryCode.planned (.ok is)) (other : ∀ l, op ≠ .bind l) :
    c.Stands m (is.map .instruction ++ rest) :=
  ⟨stands.cleared, stands.here, (has_planned emits other).mp stands.placed⟩

/-- The machine comes to stand at `rest` with `v` in `rd`; of the other registers only `tmp` may
have changed. -/
def Gets (c : Linked) (m : Machine) (rest : Program) (rd tmp : Register) (v : Dword) : Prop :=
  ∃ k, c.Comes m k rest ∧ Machine.Keeps [tmp, rd] m k ∧ k.memory = m.memory ∧ k.reg rd = v

theorem Comes.gets {rd tmp : Register} {v : Dword} (w pc : Dword) (writable : rd.code ≠ 0)
    (comes : c.Comes m (((m.put tmp w).put rd v).goto pc) rest) : c.Gets m rest rd tmp v := by
  refine ⟨_, comes, ?_, rfl, Machine.reg_put_self _ rd v writable⟩
  exact ((((Machine.Keeps.refl _ m).put (r := tmp) (by simp) w).put (r := rd) (by simp) v).goto pc)

theorem Stands.instructions {rd : Register} {v : Dword} (writable : rd.code ≠ 0)
    (stands : c.Stands m ((Constant.instructions rd v).map .instruction ++ rest)) :
    ∃ pc, c.Comes m ((m.put rd v).goto pc) rest := by
  obtain ⟨placed, next⟩ := has_list.mp stands.placed
  rw [Constant.length_instructions] at next
  have runs := runs_constant writable v stands.cleared stands.here placed
  exact ⟨_, ⟨_, runs⟩, Machine.zeroed_put stands.cleared rd v, stands.here, next⟩

theorem Stands.constant {rd : Register} {v : Dword} (writable : rd.code ≠ 0)
    (stands : c.Stands m (.constant rd v :: rest)) :
    ∃ pc, c.Comes m ((m.put rd v).goto pc) rest := by
  apply Stands.instructions writable
  exact stands.planned (fun _ => by
    rw [Op.emissions, Constant.load_ok rd v (Register.ne_zero writable)]) (by simp)

/-- Calling an even address, which uses up the scratch register. -/
theorem Stands.call_address {tmp : Register} {addr : Dword}
    (stands : c.Stands m (.callAddress addr tmp :: rest)) (writable : tmp.code ≠ 0)
    (even : addr &&& 1 = 0) :
    ∃ back, c.Leads m (((m.put tmp addr).put .ra back).goto addr) ∧ c.Has back rest := by
  have several := stands.planned (fun _ => by
    rw [Op.emissions, Pseudo.call_address_plan tmp addr (Register.ne_zero writable)]) (by simp)
  rw [List.map_append, List.append_assoc] at several
  obtain ⟨pc, leads, there⟩ := several.instructions writable
  have value : ((m.put tmp addr).goto pc).reg tmp = addr := by
    rw [Machine.reg_goto, Machine.reg_put_self _ _ _ writable]
  obtain ⟨last, back⟩ := there.jump_register
  rw [value, Machine.even_address even] at last
  exact ⟨_, leads.trans last, back⟩

/-- Jumping to an even address, which uses up the scratch register. -/
theorem Stands.jump_address {tmp : Register} {addr : Dword}
    (stands : c.Stands m (.jumpAddress addr tmp :: rest)) (writable : tmp.code ≠ 0)
    (even : addr &&& 1 = 0) : c.Leads m ((m.put tmp addr).goto addr) := by
  have several := stands.planned (fun _ => by
    rw [Op.emissions, Pseudo.jump_address_plan tmp addr (Register.ne_zero writable)]) (by simp)
  rw [List.map_append, List.append_assoc] at several
  obtain ⟨pc, leads, there⟩ := several.instructions writable
  have value : ((m.put tmp addr).goto pc).reg tmp = addr := by
    rw [Machine.reg_goto, Machine.reg_put_self _ _ _ writable]
  have last := there.jump_register.1
  rw [value, Machine.even_address even, Machine.put_zero, Machine.goto_goto] at last
  exact leads.trans last

section Scratch
variable {rd rs base tmp : Register} {v off : Dword}

theorem Stands.add_constant (stands : c.Stands m (.addConstant rd rs v tmp :: rest))
    (present : tmp ≠ .absent) (writable : tmp.code ≠ 0) (free : tmp.code ≠ rs.code)
    (target : rd.code ≠ 0) : c.Gets m rest rd tmp (m.reg rs + v) := by
  have apart : tmp ≠ rs := by
    rintro rfl
    exact free rfl
  by_cases fits : Field.fitsSigned v 12 = true
  · have single := stands.planned
      (fun _ => by rw [Op.emissions, Pseudo.add_constant_short rd rs tmp v fits]) (by simp)
    refine Comes.gets (m.reg tmp) (m.pc + 4) target ?_
    rw [Machine.put_reg]
    exact single.immediate (by simp)
  · have several := stands.planned (fun _ => by
      rw [Op.emissions, Pseudo.add_constant_wide rd rs tmp v fits present apart
        (Register.ne_zero writable)]) (by simp)
    rw [List.map_append, List.append_assoc] at several
    obtain ⟨pc, first⟩ := several.instructions writable
    refine Comes.gets v (pc + 4) target (first.trans fun stands => ?_)
    have last := stands.arithmetic
    simp only [RegisterOp.value, Machine.reg_goto, Machine.reg_put_self _ _ _ writable,
      Machine.reg_put_ne _ _ _ _ free.symm, Machine.put_goto, Machine.goto_goto,
      Machine.pc_goto] at last
    exact last

/-- The address of an access with a wide offset, in the scratch register. -/
theorem Stands.address (stands : c.Stands m ((Constant.instructions tmp off ++
      [Instruction.arithmetic .add tmp tmp base]).map .instruction ++ rest))
    (writable : tmp.code ≠ 0) (free : base.code ≠ tmp.code) :
    ∃ pc, c.Comes m ((m.put tmp (m.reg base + off)).goto pc) rest := by
  rw [List.map_append, List.append_assoc] at stands
  obtain ⟨pc, first⟩ := stands.instructions writable
  refine ⟨pc + 4, first.trans fun stands => ?_⟩
  have last := stands.arithmetic
  simp only [RegisterOp.value, Machine.reg_goto, Machine.reg_put_self _ _ _ writable,
    Machine.reg_put_ne _ _ _ _ free, Machine.put_goto, Machine.goto_goto, Machine.pc_goto,
    Machine.put_put, BitVec.add_comm off] at last
  exact last

theorem Stands.load_far {op : LoadOp}
    (stands : c.Stands m (.load op rd base (.constant off) tmp :: rest)) (present : tmp ≠ .absent)
    (writable : tmp.code ≠ 0) (free : Register.distinct [rd, base, tmp] = true)
    (apart : base.code ≠ tmp.code) (target : rd.code ≠ 0) :
    c.Gets m rest rd tmp (op.value m.memory (m.reg base + off)) := by
  by_cases fits : Field.fitsSigned off 12 = true
  · have single := stands.planned
      (fun _ => by rw [Op.emissions, Pseudo.load_short rd base tmp off op fits]) (by simp)
    refine Comes.gets (m.reg tmp) (m.pc + 4) target ?_
    rw [Machine.put_reg]
    exact single.load
  · have several := stands.planned (fun _ => by
      rw [Op.emissions, Pseudo.load_wide rd base tmp off op fits present free
        (Register.ne_zero writable)]) (by simp)
    rw [List.append_cons, List.map_append, List.append_assoc] at several
    obtain ⟨pc, first⟩ := several.address writable apart
    refine Comes.gets (m.reg base + off) (pc + 4) target (first.trans fun stands => ?_)
    have last := stands.load
    simp only [Machine.reg_goto, Machine.reg_put_self _ _ _ writable, Machine.memory_goto,
      Machine.memory_put, Machine.put_goto, Machine.goto_goto, Machine.pc_goto] at last
    rwa [show m.reg base + off + 0 = m.reg base + off from BitVec.add_zero _] at last

/-- Storing at any offset outside the code, which may use up the scratch register. -/
theorem Stands.store_far {op : StoreOp}
    (stands : c.Stands m (.store op rs base (.constant off) tmp :: rest)) (present : tmp ≠ .absent)
    (writable : tmp.code ≠ 0) (free : Register.distinct [rs, base, tmp] = true)
    (apart : base.code ≠ tmp.code) (kept : rs.code ≠ tmp.code)
    (outside : ∀ b, Memory.Covers (m.reg base + off) op.size b → ¬c.Covers b) :
    ∃ k, c.Comes m k rest ∧ Machine.Keeps [tmp] m k ∧
      k.memory = m.memory.store (m.reg base + off) op.size (m.reg rs) := by
  suffices named : ∃ w pc, c.Comes m
      (((m.put tmp w).poke (m.reg base + off) op.size (m.reg rs)).goto pc) rest by
    obtain ⟨w, pc, comes⟩ := named
    exact ⟨_, comes, (((Machine.Keeps.refl _ m).put (r := tmp) (by simp) w).poke _ _ _).goto pc,
      rfl⟩
  by_cases fits : Field.fitsSigned off 12 = true
  · have single := stands.planned
      (fun _ => by rw [Op.emissions, Pseudo.store_short rs base tmp off op fits]) (by simp)
    refine ⟨m.reg tmp, m.pc + 4, ?_⟩
    rw [Machine.put_reg]
    exact single.store outside
  · have several := stands.planned (fun _ => by
      rw [Op.emissions, Pseudo.store_wide rs base tmp off op fits present free
        (Register.ne_zero writable)]) (by simp)
    rw [List.append_cons, List.map_append, List.append_assoc] at several
    obtain ⟨pc, first⟩ := several.address writable apart
    refine ⟨m.reg base + off, pc + 4, first.trans fun stands => ?_⟩
    have addr : m.reg base + off + 0 = m.reg base + off := BitVec.add_zero _
    have last := stands.store (by
      simp only [Machine.reg_goto, Machine.reg_put_self _ _ _ writable, addr]
      exact outside)
    simp only [Machine.reg_goto, Machine.reg_put_self _ _ _ writable,
      Machine.reg_put_ne _ _ _ _ kept, Machine.poke_goto, Machine.goto_goto, Machine.pc_goto,
      addr] at last
    exact last

end Scratch

end Linked

end EntryCode
