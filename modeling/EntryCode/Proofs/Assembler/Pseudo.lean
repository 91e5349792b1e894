import EntryCode.Proofs.Assembler.Admissible
import EntryCode.Proofs.Assembler.Constant

/-!
The instructions that pseudo-instructions come to, with and without a scratch register, and that
they can be emitted whenever their registers are named and apart.
-/

namespace EntryCode.Pseudo

section Plans
variable (rd rs base tmp : Register) (v off : Dword)

theorem add_constant_short (fits : Field.fitsSigned v 12 = true) :
    addConstant rd rs v tmp = .ok [.immediate .addi rd rs v] := by
  simp [addConstant, fits, pure, Except.pure]

theorem add_constant_wide (wide : ¬Field.fitsSigned v 12 = true) (present : tmp ≠ .absent)
    (free : tmp ≠ rs) (writable : tmp ≠ .zero) :
    addConstant rd rs v tmp =
      .ok (Constant.instructions tmp v ++ [Instruction.arithmetic .add rd rs tmp]) := by
  simp [addConstant, wide, present, free, Constant.load_ok tmp v writable, bind, Except.bind,
    pure, Except.pure]

theorem load_short (op : LoadOp) (fits : Field.fitsSigned off 12 = true) :
    load op rd base (.constant off) tmp = .ok [.load op rd base off] := by
  simp [load, address, fits, bind, Except.bind, pure, Except.pure]

theorem load_wide (op : LoadOp) (wide : ¬Field.fitsSigned off 12 = true) (present : tmp ≠ .absent)
    (free : Register.distinct [rd, base, tmp] = true) (writable : tmp ≠ .zero) :
    load op rd base (.constant off) tmp = .ok (Constant.instructions tmp off ++
      [Instruction.arithmetic .add tmp tmp base, .load op rd tmp 0]) := by
  simp [load, address, resolve, scratch, wide, present, free, Constant.load_ok tmp off writable,
    bind, Except.bind, pure, Except.pure]

theorem store_short (op : StoreOp) (fits : Field.fitsSigned off 12 = true) :
    store op rs base (.constant off) tmp = .ok [.store op rs base off] := by
  simp [store, address, fits, bind, Except.bind, pure, Except.pure]

theorem store_wide (op : StoreOp) (wide : ¬Field.fitsSigned off 12 = true)
    (present : tmp ≠ .absent) (free : Register.distinct [rs, base, tmp] = true)
    (writable : tmp ≠ .zero) :
    store op rs base (.constant off) tmp = .ok (Constant.instructions tmp off ++
      [Instruction.arithmetic .add tmp tmp base, .store op rs tmp 0]) := by
  simp [store, address, resolve, scratch, wide, present, free, Constant.load_ok tmp off writable,
    bind, Except.bind, pure, Except.pure]

theorem call_address_plan (writable : tmp ≠ .zero) :
    callAddress v tmp =
      .ok (Constant.instructions tmp v ++ [Instruction.immediate .jalr .ra tmp 0]) := by
  simp [callAddress, Constant.load_ok tmp v writable, bind, Except.bind, pure, Except.pure]

theorem jump_address_plan (writable : tmp ≠ .zero) :
    jumpAddress v tmp =
      .ok (Constant.instructions tmp v ++ [Instruction.immediate .jalr .zero tmp 0]) := by
  simp [jumpAddress, Constant.load_ok tmp v writable, bind, Except.bind, pure, Except.pure]

end Plans

section Plans
variable {rd rs base tmp b : Register} {v off : Dword} {before is : List Instruction}

theorem scratch_ok {x : Access} {tmp r : Register} {isStore : Bool} :
    scratch x tmp isStore = .ok r ↔
      (tmp ≠ .absent ∧ Register.distinct [x.moved, x.base, tmp] = true ∧ r = tmp) ∨
        (tmp = .absent ∧ isStore = false ∧ x.moved ≠ x.base ∧ x.moved ≠ .zero ∧ r = x.moved) := by
  rw [scratch]
  by_cases present : tmp = .absent
  · cases isStore
    · by_cases clobbered : x.moved = x.base ∨ x.moved = .zero
      · simp [present, clobbered]
        tauto
      · simp [present, clobbered, @eq_comm _ r]
        tauto
    · simp [present]
  · by_cases free : Register.distinct [x.moved, x.base, tmp] = true
    · simp [present, free, @eq_comm _ r]
    · simp [present, free]

/-- The address of an access at a constant offset, where it can be built. -/
theorem address_ok {name : String} {moved : Register} {isStore : Bool} :
    address ⟨name, moved, base, .constant v⟩ tmp isStore = .ok (before, b, off) ↔
      (Field.fitsSigned v 12 = true ∧ before = [] ∧ b = base ∧ off = v) ∨
        (¬Field.fitsSigned v 12 = true ∧ b ≠ .zero ∧
          scratch ⟨name, moved, base, .constant v⟩ tmp isStore = .ok b ∧
          before = Constant.instructions b v ++ [Instruction.arithmetic .add b b base] ∧
          off = 0) := by
  rw [address]
  by_cases fits : Field.fitsSigned v 12 = true
  · simp only [fits, if_true, Except.ok.injEq, Prod.mk.injEq, not_true, false_and, or_false,
      true_and]
    constructor <;>
      · rintro ⟨rfl, rfl, rfl⟩
        exact ⟨rfl, rfl, rfl⟩
  · cases built : scratch ⟨name, moved, base, .constant v⟩ tmp isStore with
    | error x => simp [fits, resolve, built, bind, Except.bind]
    | ok r =>
        by_cases zero : r = .zero
        · simp [fits, resolve, built, bind, Except.bind, Constant.load, zero]
          rintro nonzero rfl
          exact absurd rfl nonzero
        · simp [fits, resolve, built, Constant.load_ok r v zero, bind, Except.bind, pure,
            Except.pure]
          grind

theorem load_ok_iff {op : LoadOp} {offset : Offset} : load op rd base offset tmp = .ok is ↔
    ∃ before b off, address ⟨op.name, rd, base, offset⟩ tmp false = .ok (before, b, off) ∧
      is = before ++ [Instruction.load op rd b off] := by
  simp only [load, bind_ok, pure, Except.pure, Except.ok.injEq, Prod.exists, @eq_comm _ is]

theorem store_ok_iff {op : StoreOp} {offset : Offset} : store op rs base offset tmp = .ok is ↔
    ∃ before b off, address ⟨op.name, rs, base, offset⟩ tmp true = .ok (before, b, off) ∧
      is = before ++ [Instruction.store op rs b off] := by
  simp only [store, bind_ok, pure, Except.pure, Except.ok.injEq, Prod.exists, @eq_comm _ is]

end Plans

section Emittable
variable {e : Extensions} {rd rs base tmp : Register} {v off : Dword}

theorem constant_emittable (valid : rd.isValid = true) (writable : rd ≠ .zero) :
    Emittable e (Constant.load rd v) :=
  ⟨_, Constant.load_ok rd v writable, Constant.instructions_fine rd v valid e⟩

theorem after_constant {is : List Instruction} (valid : tmp.isValid = true)
    (others : ∀ i ∈ is, i.Encodable ∧ i.Available e) :
    ∀ i ∈ Constant.instructions tmp v ++ is, i.Encodable ∧ i.Available e := by
  intro i member
  rcases List.mem_append.mp member with constant | other
  · exact Constant.instructions_fine tmp v valid e i constant
  · exact others i other

theorem add_constant_emittable (target : rd.isValid = true) (source : rs.isValid = true)
    (valid : tmp.isValid = true) (free : tmp ≠ rs) (writable : tmp ≠ .zero) :
    Emittable e (addConstant rd rs v tmp) := by
  by_cases fits : Field.fitsSigned v 12 = true
  · refine ⟨_, add_constant_short rd rs tmp v fits, ?_⟩
    simp [Instruction.Encodable, Instruction.Available, Instruction.requirement?, target, source,
      fits]
  · have present : tmp ≠ .absent := by
      rintro rfl
      cases valid
    refine ⟨_, add_constant_wide rd rs tmp v fits present free writable, after_constant valid ?_⟩
    simp [Instruction.Encodable, Instruction.Available, Instruction.requirement?, target, source,
      valid]

theorem load_emittable (op : LoadOp) (target : rd.isValid = true) (source : base.isValid = true)
    (valid : tmp.isValid = true) (free : Register.distinct [rd, base, tmp] = true)
    (writable : tmp ≠ .zero) : Emittable e (load op rd base (.constant off) tmp) := by
  by_cases fits : Field.fitsSigned off 12 = true
  · refine ⟨_, load_short rd base tmp off op fits, ?_⟩
    simp [Instruction.Encodable, Instruction.Available, Instruction.requirement?, target, source,
      fits]
  · have present : tmp ≠ .absent := by
      rintro rfl
      cases valid
    refine ⟨_, load_wide rd base tmp off op fits present free writable, after_constant valid ?_⟩
    simp [Instruction.Encodable, Instruction.Available, Instruction.requirement?, target, source,
      valid]
    decide

theorem store_emittable (op : StoreOp) (source : rs.isValid = true) (target : base.isValid = true)
    (valid : tmp.isValid = true) (free : Register.distinct [rs, base, tmp] = true)
    (writable : tmp ≠ .zero) : Emittable e (store op rs base (.constant off) tmp) := by
  by_cases fits : Field.fitsSigned off 12 = true
  · refine ⟨_, store_short rs base tmp off op fits, ?_⟩
    simp [Instruction.Encodable, Instruction.Available, Instruction.requirement?, target, source,
      fits]
  · have present : tmp ≠ .absent := by
      rintro rfl
      cases valid
    refine ⟨_, store_wide rs base tmp off op fits present free writable, after_constant valid ?_⟩
    simp [Instruction.Encodable, Instruction.Available, Instruction.requirement?, target, source,
      valid]
    decide

end Emittable

end EntryCode.Pseudo
