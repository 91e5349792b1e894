import EntryCode.Proofs.Machine.Memory
import EntryCode.Proofs.Machine.Semantics

/-!
Branches and jumps that are sent elsewhere. The bits of a displacement lie scattered over the word.
Writing a displacement there and reading it back are inverse to each other at every word with one
of the two opcodes, whatever its other bits are, and a machine goes where reading leads.
-/

namespace EntryCode

namespace Format

section Displacement
variable (w : Word)

/-- The bits of a branch or a jump that hold its displacement. -/
def displacementMask : Word :=
  if opcode w = opBranch then 0xfe000f80 else 0xfffff000

def displacementWidth : Nat :=
  if opcode w = opBranch then 13 else 21

def displacement : Dword :=
  if opcode w = opBranch then branchDisplacement w else jumpDisplacement w

def displaced (disp : Dword) : Word :=
  if opcode w = opBranch then
    branchFormat (opcode w) (funct3 w) (rs1 w) (rs2 w) (disp.setWidth 13)
  else jumpFormat (opcode w) (rd w) (disp.setWidth 21)

end Displacement

section Bits
variable (w : Word)

theorem branch_format_bits :
    branchFormat (opcode w) (funct3 w) (rs1 w) (rs2 w) (branchBits w) = w := by
  simp (disch := omega) only [branchFormat, branchBits, opcode, funct3, rs1, rs2,
    BitVec.extractLsb'_append_eq_of_le, BitVec.extractLsb'_append_eq_of_add_le,
    BitVec.extractLsb'_eq_self, Nat.reduceSub,
    BitVec.extractLsb'_append_extractLsb'_eq_extractLsb']

theorem jump_format_bits : jumpFormat (opcode w) (rd w) (jumpBits w) = w := by
  simp (disch := omega) only [jumpFormat, jumpBits, opcode, rd,
    BitVec.extractLsb'_append_eq_of_le, BitVec.extractLsb'_append_eq_of_add_le,
    BitVec.extractLsb'_eq_self, Nat.reduceSub,
    BitVec.extractLsb'_append_extractLsb'_eq_extractLsb']

theorem branch_format_masked (op : BitVec 7) (f3 : BitVec 3) (s1 s2 : BitVec 5)
    (disp other : BitVec 13) :
    branchFormat op f3 s1 s2 disp &&& ~~~0xfe000f80 =
      branchFormat op f3 s1 s2 other &&& ~~~0xfe000f80 := by
  apply BitVec.eq_of_getLsbD_eq
  intro i inside
  simp only [branchFormat, BitVec.getLsbD_append, BitVec.getLsbD_extractLsb', BitVec.getLsbD_and,
    BitVec.getLsbD_not]
  interval_cases i <;> simp

theorem jump_format_masked (op : BitVec 7) (d : BitVec 5) (disp other : BitVec 21) :
    jumpFormat op d disp &&& ~~~0xfffff000 = jumpFormat op d other &&& ~~~0xfffff000 := by
  apply BitVec.eq_of_getLsbD_eq
  intro i inside
  simp only [jumpFormat, BitVec.getLsbD_append, BitVec.getLsbD_extractLsb', BitVec.getLsbD_and,
    BitVec.getLsbD_not]
  interval_cases i <;> simp

theorem branch_displacement_low : (branchDisplacement w).setWidth 13 = branchBits w := by
  rw [branchDisplacement]
  exact Field.low_sign_extend _ (by omega)

theorem jump_displacement_low : (jumpDisplacement w).setWidth 21 = jumpBits w := by
  rw [jumpDisplacement]
  exact Field.low_sign_extend _ (by omega)

end Bits

theorem reaches_iff {disp : Dword} {n : Nat} (positive : 0 < n) (short : n ≤ 64) :
    Reaches n disp ↔
      disp.toInt % 2 = 0 ∧ -(2 : Int) ^ (n - 1) ≤ disp.toInt ∧ disp.toInt < 2 ^ (n - 1) := by
  have parity : disp.getLsbD 0 = false ↔ disp.toInt % 2 = 0 := by
    rw [BitVec.getLsbD, Nat.testBit_zero, decide_eq_false_iff_not, BitVec.toInt_eq_toNat_cond]
    split <;> omega
  rw [Reaches, parity, Field.fits_signed_iff disp n positive short]

section Relative
variable {w sent : Word} {dest pos disp : Dword}

theorem relative_cases (relative : isBranch w = true) :
    opcode w = opBranch ∨ opcode w = opJump := by
  simpa [isBranch] using relative

/-- A displacement that stands in a word is one that can be put there. -/
theorem reaches_displacement (w : Word) : Reaches (displacementWidth w) (displacement w) := by
  rw [displacementWidth, displacement]
  split
  · exact ⟨by grind [branchDisplacement, branchBits], Field.fits_sign_extend _ (by omega) (by omega)⟩
  · exact ⟨by grind [jumpDisplacement, jumpBits], Field.fits_sign_extend _ (by omega) (by omega)⟩

theorem opcode_displaced (w : Word) (disp : Dword) : opcode (displaced w disp) = opcode w := by
  rw [displaced]
  split
  · exact opcode_branch_format ..
  · exact opcode_jump_format ..

theorem displaced_displacement (w : Word) : displaced w (displacement w) = w := by
  rw [displaced, displacement]
  split
  · rw [branch_displacement_low, branch_format_bits]
  · rw [jump_displacement_low, jump_format_bits]

theorem displacement_displaced (reach : Reaches (displacementWidth w) disp) :
    displacement (displaced w disp) = disp := by
  rw [displacement, opcode_displaced]
  rw [displacementWidth] at reach
  split
  · next branch =>
      rw [if_pos branch] at reach
      rw [displaced, if_pos branch]
      exact branch_bits_of_reaches _ _ _ _ _ reach
  · next jump =>
      rw [if_neg jump] at reach
      rw [displaced, if_neg jump]
      exact jump_bits_of_reaches _ _ _ reach

/-- Nothing but the displacement changes. -/
theorem displaced_masked (w : Word) (disp : Dword) :
    displaced w disp &&& ~~~displacementMask w = w &&& ~~~displacementMask w := by
  have same : displaced w disp &&& ~~~displacementMask w =
      displaced w (displacement w) &&& ~~~displacementMask w := by
    rw [displaced, displaced, displacementMask]
    split
    · exact branch_format_masked ..
    · exact jump_format_masked ..
  rw [same, displaced_displacement]

theorem destination_eq (relative : isBranch w = true) :
    destination w pos = .ok (pos + displacement w) := by
  rw [destination, displacement]
  rcases relative_cases relative with branch | jump
  · rw [if_pos branch, if_pos branch]
  · have other : opcode w ≠ opBranch := by
      rw [jump]
      decide
    rw [if_neg other, if_pos jump, if_neg other]

theorem retarget_ok (relative : isBranch w = true) :
    retarget dest w pos = .ok sent ↔
      Reaches (displacementWidth w) (dest - pos) ∧ sent = displaced w (dest - pos) := by
  have mapped : ∀ {α : Type} {x : Except Violation α} {f : α → Word},
      x.map f = .ok sent ↔ ∃ y, x = .ok y ∧ sent = f y := by
    rintro α (v | y) f
    · simp [Except.map]
    · simp [Except.map, eq_comm]
  rw [retarget, displacementWidth, displaced]
  rcases relative_cases relative with branch | jump
  · rw [if_pos branch, if_pos branch, if_pos branch]
    simp [mapped, branch_field_ok, and_assoc]
  · have other : opcode w ≠ opBranch := by
      rw [jump]
      decide
    rw [if_neg other, if_pos jump, if_neg other, if_neg other]
    simp [mapped, jump_field_ok, and_assoc]

/-- What was sent elsewhere can be sent to the same places as before, with the same words. -/
theorem retarget_displaced (w : Word) (disp : Dword) :
    retarget dest (displaced w disp) pos = retarget dest w pos := by
  rw [retarget, retarget, opcode_displaced, displaced]
  by_cases branch : opcode w = opBranch
  · simp [branch]
  · simp [branch]

end Relative

end Format

namespace Machine

/-- Whether a machine goes where a branch or a jump leads. -/
def Takes (m : Machine) (w : Word) : Prop :=
  Format.opcode w = Format.opJump ∨ Format.opcode w = Format.opBranch ∧
    branchTaken w (m.x.get (Format.rs1 w)) (m.x.get (Format.rs2 w)) = .ok true

section Takes
variable {m : Machine} {w : Word}

theorem relative_running (relative : Format.isBranch w = true) : w ≠ 0x00100073 := by
  rintro rfl
  cases relative

theorem transition_taken (takes : m.Takes w) :
    ∃ e, m.transition w = .ok ⟨e, m.pc + Format.displacement w⟩ := by
  rcases takes with jump | ⟨branch, taken⟩
  · have other : Format.opcode w ≠ Format.opBranch := by
      rw [jump]
      decide
    refine ⟨.setRegister (Format.rd w) (m.pc + 4), ?_⟩
    rw [Format.displacement, if_neg other]
    simp [transition, jump, Format.opJump, jump_offset]
  · refine ⟨.none, ?_⟩
    rw [Format.displacement, if_pos branch]
    simp [transition, branch, Format.opBranch, taken, branch_offset, bind, Except.bind, pure,
      Except.pure]

theorem transition_passed {t : Transition} (relative : Format.isBranch w = true)
    (passes : ¬m.Takes w) (done : m.transition w = .ok t) : t.next = m.pc + 4 := by
  rcases Format.relative_cases relative with branch | jump
  · simp only [transition, branch, Format.opBranch, BitVec.reduceToNat] at done
    obtain ⟨taken, decided, made⟩ := bind_ok.mp done
    cases made
    cases taken with
    | true => exact absurd (.inr ⟨branch, decided⟩) passes
    | false => rfl
  · exact absurd (.inl jump) passes

theorem advance_ok {k : Machine} {e : Effect} (relative : Format.isBranch w = true)
    (fetched : m.fetch = w) (advanced : m.advance = .ok (k, e)) :
    ∃ t, m.transition w = .ok t ∧ k.pc = t.next := by
  rw [advance, fetched, step, if_neg (relative_running relative)] at advanced
  cases done : m.transition w with
  | error reason =>
      rw [done] at advanced
      cases advanced
  | ok t =>
      rw [done] at advanced
      cases advanced
      exact ⟨t, rfl, rfl⟩

end Takes

end Machine

/-- Branches and jumps are sent to every place that their displacement reaches and to no other. They
go there then and are otherwise the same words, so that only the last place counts; where such a
word leads is also where a machine goes that takes it. -/
theorem branches_are_retargeted (w : Word) (relative : Format.isBranch w = true) (pos : Dword) :
    (∀ dest, (∃ sent, Format.retarget dest w pos = .ok sent) ↔
      (dest - pos).toInt % 2 = 0 ∧
        -(2 : Int) ^ (Format.displacementWidth w - 1) ≤ (dest - pos).toInt ∧
        (dest - pos).toInt < 2 ^ (Format.displacementWidth w - 1)) ∧
    (∀ dest sent, Format.retarget dest w pos = .ok sent →
      Format.destination sent pos = .ok dest ∧
        sent &&& ~~~Format.displacementMask w = w &&& ~~~Format.displacementMask w ∧
        ∀ dest' pos', Format.retarget dest' sent pos' = Format.retarget dest' w pos') ∧
    (∃ dest, Format.destination w pos = .ok dest ∧ Format.retarget dest w pos = .ok w) ∧
    ∀ m : Machine, m.pc = pos → m.fetch = w →
      (m.Takes w → ∃ k e, m.advance = .ok (k, e) ∧ Format.destination w pos = .ok k.pc) ∧
      (¬m.Takes w → ∀ k e, m.advance = .ok (k, e) → k.pc = pos + 4) := by
  have width : 0 < Format.displacementWidth w ∧ Format.displacementWidth w ≤ 64 := by
    rw [Format.displacementWidth]
    split <;> omega
  have measured : ∀ disp : Dword, pos + disp - pos = disp := by
    intro disp
    rw [BitVec.add_comm, BitVec.add_sub_cancel]
  refine ⟨?_, ?_, ?_, ?_⟩
  · intro dest
    rw [← Format.reaches_iff width.1 width.2]
    constructor
    · rintro ⟨sent, retargeted⟩
      exact ((Format.retarget_ok relative).mp retargeted).1
    · intro reach
      exact ⟨_, (Format.retarget_ok relative).mpr ⟨reach, rfl⟩⟩
  · intro dest sent retargeted
    obtain ⟨reach, rfl⟩ := (Format.retarget_ok relative).mp retargeted
    -- A word that was sent elsewhere is still a branch or a jump of its kind.
    have still : Format.isBranch (Format.displaced w (dest - pos)) = true := by
      rwa [Format.isBranch, Format.opcode_displaced]
    refine ⟨?_, Format.displaced_masked w _, fun dest' pos' => Format.retarget_displaced w _⟩
    rw [Format.destination_eq still, Format.displacement_displaced reach, BitVec.add_comm,
      BitVec.sub_add_cancel]
  · refine ⟨_, Format.destination_eq relative, (Format.retarget_ok relative).mpr ?_⟩
    rw [measured]
    exact ⟨Format.reaches_displacement w, (Format.displaced_displacement w).symm⟩
  · rintro m rfl fetched
    constructor
    · intro takes
      obtain ⟨e, done⟩ := Machine.transition_taken takes
      rw [Format.destination_eq relative, Machine.advance, fetched, Machine.step,
        if_neg (Machine.relative_running relative), done]
      exact ⟨_, _, rfl, rfl⟩
    · intro passes k e advanced
      obtain ⟨t, done, next⟩ := Machine.advance_ok relative fetched advanced
      rw [next, Machine.transition_passed relative passes done]

/-- The longest way back, from near the start of the address space. -/
theorem branch_below_zero :
    Format.isBranch 0x8062e063 = true ∧
    Format.retarget 0xfffffffffffff004 0x0062e463 4 = .ok 0x8062e063 ∧
    (∃ dest, Format.destination 0x8062e063 4 = .ok dest ∧
      Format.retarget dest 0x8062e063 4 = .ok 0x8062e063) ∧
    ∃ (m k : Machine) (e : Effect), m.pc = 4 ∧ m.x.get 5 = 0 ∧ m.x.get 6 = 1 ∧
      m.advance = .ok (k, e) ∧ k.pc = 0xfffffffffffff004 := by
  have relative : Format.isBranch 0x8062e063 = true := by decide
  obtain ⟨-, -, kept, runs⟩ := branches_are_retargeted 0x8062e063 relative 4
  refine ⟨relative, by decide, kept, ?_⟩
  let m : Machine := ⟨RegisterFile.zeros.set 6 1, .zeros, 4, Memory.empty.writeWords 4 [0x8062e063]⟩
  have fetched : m.fetch = 0x8062e063 :=
    Memory.load_word 4 [0x8062e063] (Memory.read_write_words _ _ (by decide)) 0 _ rfl
  have less : m.Takes 0x8062e063 := by
    right
    constructor
    · decide
    · decide
  obtain ⟨k, e, advanced, goes⟩ := (runs m rfl fetched).1 less
  refine ⟨m, k, e, rfl, by decide, by decide, advanced, ?_⟩
  have there : Format.destination 0x8062e063 4 = .ok 0xfffffffffffff004 := by decide
  rw [there] at goes
  exact (Except.ok.inj goes).symm

end EntryCode
