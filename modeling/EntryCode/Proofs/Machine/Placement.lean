import EntryCode.Proofs.Assembler.Labels
import EntryCode.Proofs.Machine.Linked

/-!
Finished code in memory. What the assembler emitted for a program lies there as the program says:
instructions one after the other, and branches with the displacements to their labels.
-/

namespace EntryCode

theorem Op.emissions_mod (op : Op) (pos : Nat) :
    op.emissions (pos % 2 ^ 64) = op.emissions pos := by
  have same : BitVec.ofNat 64 (pos % 2 ^ 64) = BitVec.ofNat 64 pos := by
    apply BitVec.eq_of_toNat_eq
    simp only [BitVec.toNat_ofNat]
    omega
  cases op with
  | branchTo | jumpTo => rw [emissions, emissions, same]
  | _ => rfl

theorem Emitted.code_length {es : List Emission} {b : Assembler} (inv : Emitted es b) :
    b.code.length = instructionSize * es.length := by
  rw [Assembler.code, Bytes.length_of_words, Array.length_toList, inv.size]

/-- The code of an assembler at an address; nothing is watched. -/
def Linked.of (base : Dword) (es : List Emission) (b : Assembler) : Linked where
  origin := base
  target l := base + BitVec.ofNat 64 ((b.bound? l).getD 0)
  lies addr i := ∃ k e, es[k]? = some e ∧
    addr = base + BitVec.ofNat 64 (instructionSize * k) ∧ i = e.resolve b (instructionSize * k)
  watched _ := false

namespace Linked

variable {es : List Emission} {b : Assembler} (base : Dword)

theorem of_in_memory (inv : Emitted es b) {mem : Memory}
    (code : mem.read base b.code.length = b.code) : (Linked.of base es b).InMemory mem := by
  rintro _ _ ⟨k, e, found, rfl, rfl⟩
  obtain ⟨encodable, word⟩ := inv.words k e found
  refine ⟨encodable, ?_⟩
  apply Memory.load_word base b.words.toList _ k _ (by rwa [Array.getElem?_toList])
  rwa [Assembler.code, Bytes.length_of_words] at code

theorem of_covers (inv : Emitted es b) {c : Dword} (covered : (Linked.of base es b).Covers c) :
    Memory.Covers base b.code.length c := by
  obtain ⟨_, _, ⟨k, e, found, rfl, -⟩, j, small, rfl⟩ | seen := covered
  swap
  · cases seen
  obtain ⟨inside, -⟩ := List.getElem?_eq_some_iff.mp found
  rw [Memory.Covers, inv.code_length, BitVec.add_assoc, ← BitVec.ofNat_add, BitVec.add_comm,
    BitVec.add_sub_cancel, BitVec.toNat_ofNat]
  simp only [instructionSize]
  omega

/-- The instruction at its place is the one with the displacement to its label. -/
theorem of_instruction (inv : Emitted es b) (clear : Emit.unresolved? b = none) (k : Nat)
    (e : Emission) (found : es[k]? = some e) :
    (Linked.of base es b).instruction
      (base + BitVec.ofNat 64 (instructionSize * k)) e = e.resolve b (instructionSize * k) := by
  cases directed : e.label? with
  | none => simp [instruction, Emission.resolve, Emission.displacement, directed]
  | some l =>
      cases bound : b.bound? l with
      | none =>
          have waits := inv.waits k e l found directed bound
          rw [unresolved_none.mp clear l bound] at waits
          cases waits
      | some t =>
          have apart : base + BitVec.ofNat 64 t -
              (base + BitVec.ofNat 64 (instructionSize * k)) =
                BitVec.ofNat 64 t - BitVec.ofNat 64 (instructionSize * k) := by
            generalize BitVec.ofNat 64 (instructionSize * k) = d
            bv_omega
          simp [instruction, Emission.resolve, Emission.displacement, directed, Linked.of,
            Assembler.displacement, bound, apart]

theorem of_lines (inv : Emitted es b) (clear : Emit.unresolved? b = none)
    (before here after : List Emission) (whole : es = before ++ here ++ after) :
    (Linked.of base es b).Lines
      (base + BitVec.ofNat 64 (instructionSize * before.length)) here := by
  induction here generalizing before with
  | nil => trivial
  | cons e rest ih =>
      have found : es[before.length]? = some e := by simp [whole]
      refine ⟨⟨before.length, e, found, rfl, of_instruction base inv clear _ e found⟩, ?_⟩
      have later := ih (before ++ [e]) (by simp [whole])
      rw [List.length_append, List.length_singleton, Nat.mul_add, BitVec.ofNat_add,
        ← BitVec.add_assoc] at later
      exact later

/-- A program lies where it was emitted. `a` is the assembler before it, `b` the finished one. -/
theorem of_has (inv : Emitted es b) (clear : Emit.unresolved? b = none) (p : Program)
    (earlier later : List Emission) {a c : Assembler} (start : Emitted earlier a)
    (ran : (Program.run p).run a = .ok () c)
    (whole : es = earlier ++ p.emissions a.pos ++ later)
    (kept : ∀ l t, c.bound? l = some t → b.bound? l = some t) :
    (Linked.of base es b).Has (base + BitVec.ofNat 64 a.pos) p := by
  induction p generalizing earlier a with
  | nil => trivial
  | cons op rest ih =>
      obtain ⟨mid, first, others⟩ := (Program.run_cons op rest).mp ran
      have step := start.advance op first
      have here : (base + BitVec.ofNat 64 a.pos - base).toNat = a.pos % 2 ^ 64 := by
        rw [BitVec.add_comm, BitVec.add_sub_cancel, BitVec.toNat_ofNat]
      have lines := of_lines base inv clear earlier (op.emissions a.pos)
        (Program.emissions mid.pos rest ++ later) (by simp [whole, Program.emissions, step.pos start])
      rw [← start.pos] at lines
      have next := ih (earlier ++ op.emissions a.pos) step.emitted others
        (by simp [whole, Program.emissions, step.pos start])
      rw [step.pos start, BitVec.ofNat_add, ← BitVec.add_assoc] at next
      have origin : (Linked.of base es b).origin = base := rfl
      rw [Has, origin, here, op.emissions_mod]
      refine ⟨lines, ?_, next⟩
      rintro l rfl
      have bound : mid.bound? l = some a.pos := by rw [step.bound, if_pos rfl]
      have final := (Program.emitted step.emitted rest others).2 l
      rw [bound, Option.some_or] at final
      simp only [Linked.of, kept l _ final, Option.getD_some]

end Linked

end EntryCode
