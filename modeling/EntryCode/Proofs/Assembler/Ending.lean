import EntryCode.Assembler.Shorthand
import EntryCode.Proofs.Assembler.Extent
import EntryCode.Proofs.Assembler.Pseudo
import EntryCode.Proofs.Assembler.Sequence

/-!
Code that stays inside. A program that branches and jumps by labels alone goes to words of its own
or to labels of others; one whose last word leaves it never goes on to what follows.
-/

namespace EntryCode

namespace Format

/-- A word that never goes on to the next: a jump that keeps no return address. -/
def Leaves (w : Word) : Prop :=
  rd w = 0 ∧ (opcode w = opJump ∨ opcode w = opJumpRegister ∧ funct3 w = 0)

end Format

section Relative

/-- Whether the word of an instruction carries a displacement from its own position. -/
def Instruction.isRelative : Instruction → Bool
  | .branch .. | .jump .. => true
  | _ => false

theorem Instruction.is_branch_word (i : Instruction) : Format.isBranch i.word = i.isRelative := by
  cases i with
  | immediate op | upper op =>
      cases op <;> simp only [word, Format.isBranch, Format.opcode_short_immediate,
        Format.opcode_upper_immediate] <;> rfl
  | extend op =>
      cases op <;> simp only [word, ExtendOp.format, Format.isBranch,
        Format.opcode_short_immediate, Format.opcode_three_register] <;> rfl
  | ebreak => decide
  | _ =>
      simp only [word, Format.isBranch, Format.opcode_short_immediate,
        Format.opcode_three_register, Format.opcode_store_format, Format.opcode_branch_format,
        Format.opcode_jump_format]
      rfl

theorem Instruction.not_relative_of_basic {i : Instruction} (basic : i.isBasic = true) :
    i.isRelative = false := by
  cases i with
  | branch | jump => cases basic
  | _ => rfl

def Op.byLabel : Op → Bool
  | .instruction i => !i.isRelative
  | .branchTo .. | .jumpTo .. => false
  | _ => true

theorem Op.emissions_sequence {op : Op} {is : Except Violation (List Instruction)} (pos : Nat)
    (sequence : op.sequence? = some is) : op.emissions pos = planned is := by
  cases op with
  | constant | callAddress | jumpAddress | addConstant | load | store =>
      cases sequence
      rfl
  | _ => cases sequence

theorem Op.not_relative {op : Op} {pos : Nat} {i : Instruction} (own : op.byLabel = true)
    (member : .plain i ∈ op.emissions pos) : i.isRelative = false := by
  -- Pseudo-instructions come to sequences of basic instructions, of which none is relative.
  have sequences : ∀ is, op.sequence? = some is → i.isRelative = false := by
    intro is sequence
    rw [emissions_sequence pos sequence] at member
    cases is with
    | error v => cases member
    | ok is =>
        obtain ⟨j, inside, same⟩ := List.mem_map.mp member
        cases same
        exact Instruction.not_relative_of_basic (sequence_basic sequence i inside)
  cases op with
  | instruction j =>
      cases List.mem_singleton.mp member
      simpa [byLabel] using own
  | branch | jump => cases List.mem_singleton.mp member
  | branchTo | jumpTo => cases own
  | newLabel | bind | comment | flush => cases member
  | _ => exact sequences _ rfl

theorem Program.not_relative {p : Program} {pos : Nat} {i : Instruction}
    (own : ∀ op ∈ p, op.byLabel = true) (member : .plain i ∈ p.emissions pos) :
    i.isRelative = false := by
  induction p generalizing pos with
  | nil => cases member
  | cons op rest ih =>
      rw [List.forall_mem_cons] at own
      rw [emissions, List.mem_append] at member
      rcases member with here | later
      · exact Op.not_relative own.1 here
      · exact ih own.2 later

end Relative

section Leaving
variable {op : Op} {p q : Program} {pos target : Nat} {l : Label}

/-- Whether the last word of emissions leaves, wherever its label is. -/
def Emission.Leave (es : List Emission) : Prop :=
  ∃ (before : List Emission) (last : Emission),
    es = before ++ [last] ∧ ∀ disp, Format.Leaves (last.instruction disp).word

def Op.Leaves (op : Op) : Prop :=
  ∀ pos, Emission.Leave (op.emissions pos)

def Program.Leaves (p : Program) : Prop :=
  ∃ op, p.getLast? = some op ∧ op.Leaves

theorem Format.jump_register_leaves (rs : Register) :
    Leaves (Instruction.immediate .jalr .zero rs 0).word := by
  refine ⟨?_, .inr ⟨?_, ?_⟩⟩
  · rw [Instruction.word, rd_short_immediate]
    rfl
  · rw [Instruction.word, opcode_short_immediate]
    rfl
  · rw [Instruction.word, funct3_short_immediate]
    rfl

theorem Op.j_leaves (l : Label) : (Op.j l).Leaves := by
  intro pos
  refine ⟨[], .jump .zero l, rfl, ?_⟩
  intro disp
  refine ⟨?_, .inl ?_⟩
  · rw [Emission.instruction, Instruction.word, Format.rd_jump_format]
    rfl
  · rw [Emission.instruction, Instruction.word, Format.opcode_jump_format]

theorem Op.jr_leaves (rs : Register) : (Op.jr rs).Leaves := by
  intro pos
  exact ⟨[], _, rfl, fun _ => Format.jump_register_leaves rs⟩

theorem Op.ret_leaves : Op.ret.Leaves :=
  jr_leaves .ra

theorem Op.jump_address_leaves {tmp : Register} (addr : Dword) (writable : tmp ≠ .zero) :
    (Op.jumpAddress addr tmp).Leaves := by
  intro pos
  rw [emissions, Pseudo.jump_address_plan tmp addr writable, planned, List.map_append]
  exact ⟨_, _, rfl, fun _ => Format.jump_register_leaves tmp⟩

namespace Program

theorem Leaves.append (p : Program) (last : q.Leaves) : Leaves (p ++ q) := by
  obtain ⟨op, final, leaves⟩ := last
  exact ⟨op, by rw [List.getLast?_append, final, Option.some_or], leaves⟩

theorem Leaves.split (leaves : p.Leaves) :
    ∃ (before : Program) (op : Op), p = before ++ [op] ∧ op.Leaves := by
  obtain ⟨op, final, leaves⟩ := leaves
  obtain ⟨before, rfl⟩ := List.getLast?_eq_some_iff.mp final
  exact ⟨before, op, rfl, leaves⟩

theorem Leaves.emissions (leaves : p.Leaves) (pos : Nat) : Emission.Leave (p.emissions pos) := by
  obtain ⟨before, op, rfl, final⟩ := leaves.split
  obtain ⟨earlier, last, whole, left⟩ := final (pos + size pos before)
  refine ⟨Program.emissions pos before ++ earlier, last, ?_, left⟩
  rw [emissions_append, Program.emissions, Program.emissions, whole, List.append_nil,
    List.append_assoc]

theorem Leaves.place_inside (leaves : p.Leaves) (found : p.place l pos = some target) :
    ∃ k < (p.emissions pos).length, target = pos + instructionSize * k := by
  obtain ⟨before, op, rfl, final⟩ := leaves.split
  obtain ⟨earlier, last, whole, -⟩ := final (pos + size pos before)
  -- The last operation emits a word, so it binds nothing, and what is bound lies before that word.
  have other : op ≠ .bind l := by
    rintro rfl
    exact absurd whole (by simp [Op.emissions])
  rw [place_append, place, if_neg other, place, Option.or_none] at found
  obtain ⟨k, inside, rfl⟩ := Program.place_inside found
  refine ⟨k, ?_, rfl⟩
  rw [emissions_append, Program.emissions, Program.emissions, whole]
  simp only [List.length_append, List.length_singleton]
  omega

end Program

end Leaving

end EntryCode
