import EntryCode.Proofs.Assembler.Gating
import EntryCode.Proofs.Interpreter.Tiling
import EntryCode.Proofs.Machine.Memory

/-!
Generated code asks for no extension that it was not generated for.
-/

namespace EntryCode

namespace Interpreter

variable {e : Extensions}

theorem place_gates (ps : List (Routine × Program)) : Emit.Gates e e (place ps) := by
  induction ps with
  | nil => exact Emit.gates_pure _
  | cons q ps ih =>
      apply Emit.gates_bind (Emit.gates_comment _)
      intro _
      apply Emit.gates_bind Emit.gates_get
      intro start
      apply Emit.gates_bind q.2.gates
      intro _
      apply Emit.gates_bind Emit.gates_get
      intro stop
      exact Emit.gates_bind ih fun more => Emit.gates_pure _

theorem emit_all_gates (cfg : Config) : Emit.Gates e e (emitAll cfg e) := by
  apply Emit.gates_bind (Program.gates _)
  intro _
  apply Emit.gates_bind (place_gates _)
  intro routines
  exact Emit.gates_bind Emit.gates_flush fun code => Emit.gates_pure _

theorem blob_gated {cfg : Config} {b : Blob} (made : blob cfg e = .ok b) :
    ∀ w ∈ Bytes.toWords b.code, Format.Gated e w := by
  obtain ⟨a, ran⟩ := blob_ran made
  have grown := emit_all_gates (e := e) cfg (.new e) rfl
  rw [ran] at grown
  obtain ⟨start, c, -, -, -, -, -, -, code, finished⟩ := emit_all_ok ran
  rw [code, Assembler.code, Bytes.to_words_of_words]
  intro w member
  have there : w ∈ a.words := by
    rw [finished]
    exact Array.mem_toList_iff.mp member
  rcases grown.words w there with earlier | added
  · simp [Assembler.new] at earlier
  · exact added

end Interpreter

open Interpreter in
/-- Words of an extension are there only with the extension: after any operations, some of which
may have broken a rule half-way; after any operation that asks for none, even in an assembler that
has them all; in branches that were sent elsewhere; and in all generated code. -/
theorem extension_words_are_gated (e : Extensions) :
    (∀ p : Program, ∀ w ∈ (p.attempt (.new e)).words, Format.Gated e w) ∧
      (∀ (op : Op) (a : Assembler), op.requirement? = none →
        ∀ w ∈ (Emit.left (op.run.run a)).words, w ∈ a.words ∨ Format.Gated .none w) ∧
      (∀ dest w pos sent, Format.retarget dest w pos = .ok sent → Format.Gated .none sent) ∧
      ∀ {R : Type}
        {emit : (Dword → Except Violation Bytes) → Region.Work Violation R Dword}
        {cfg : Config} {i : Interpreter} {before after : R},
        (generateInto emit cfg e).run before = .ok i after →
          i.extensions = e ∧ ∀ w ∈ Bytes.toWords i.code, Format.Gated e w := by
  refine ⟨?_, ?_, ?_, ?_⟩
  · intro p w member
    rcases (p.attempt_grown (.new e)).words w member with earlier | added
    · simp [Assembler.new] at earlier
    · exact added
  · intro op a ungated
    have fits : ∀ i, op = .instruction i → i.Available a.extensions → i.Available .none := by
      rintro i rfl -
      exact Instruction.available_of_ungated ungated
    exact (op.gates fits a rfl).words
  · intro dest w pos sent retargeted
    exact Format.retargeted_gated retargeted
  · intro R emit cfg i before after made
    obtain ⟨-, b, blobbed, installed⟩ := generate_into_ok made
    rw [installed]
    exact ⟨rfl, blob_gated blobbed⟩

end EntryCode
