import EntryCode.Proofs.Interpreter.Stage

/-!
Interpreted methods begin with their frame: as long as no routine throws, control comes to the
template of the first bytecode, and everything that the templates rely on is in its place.
-/

namespace EntryCode

open EntryCode.Frame Pinned Fragment Machine

namespace Invocation

variable {a : Invocation}

theorem fp_aligned : a.fp.toNat % stackAlignment = 0 := align_down_aligned _

theorem sp_aligned : a.sp.toNat % stackAlignment = 0 := align_down_aligned _

theorem fp_le : a.fp.toNat ≤ a.lastLocal.toNat := by
  have bound := a.lastLocal.isLt
  rw [fp, align_down_eq]
  have value : (BitVec.ofNat 64 (a.lastLocal.toNat % stackAlignment)).toNat =
      a.lastLocal.toNat % stackAlignment := by
    rw [BitVec.toNat_ofNat, stackAlignment]
    omega
  have small : a.lastLocal.toNat % stackAlignment ≤ a.lastLocal.toNat := Nat.mod_le _ _
  rw [BitVec.toNat_sub, value]
  omega

end Invocation

/-- The entries of interpreted methods can be generated, and build the frame of the method: where no
routine throws, control comes to the template of the first bytecode. -/
theorem interpreted_methods_begin {cfg : Config} (sound : cfg.Sound) (e : Extensions) :
    ∃ made, Interpreter.blob cfg e = .ok made ∧
      ∀ (a : Invocation) (base : Dword) (code : Dword → Prop) {σ : Type} (env : Environment σ)
        (p : Progress σ), a.cfg = cfg → a.native = false → p.machine = a.start →
        a.Entrance (made.installed e base) code env → a.Runtime code env p →
        a.overflows = false → a.Calm env p →
        ∃ q x, a.Begun code x env p q ∧ a.fp.toNat % stackAlignment = 0 ∧
          a.fp.toNat ≤ a.lastLocal.toNat ∧ a.sp.toNat % stackAlignment = 0 := by
  obtain ⟨made, generated, placed⟩ := Interpreter.blob_image sound.accepted e
  refine ⟨made, generated, ?_⟩
  rintro a base code σ env p rfl interpreted here entrance runtime fits calm
  obtain ⟨c, image⟩ := placed base
  have image := image.watching a.watches
  have shared : a.Shared (c.watching a.watches) := .of_image image
  obtain ⟨q, x, -, begun | interrupted⟩ := (entrance.around image sound rfl).interprets runtime here
    interpreted fits (entrance.stands_interpreted image interpreted) shared.overflow
  · exact ⟨q, x, begun, Invocation.fp_aligned, Invocation.fp_le, Invocation.sp_aligned⟩
  · exact (calm.not_interrupted interrupted).elim

/-- A synchronized method of the reference runtime, whose class is locked. -/
theorem synchronized_sample_begins : ∃ blob, Interpreter.blob .reference .all = .ok blob ∧
    let s := Stage.sample blob ⟨0x28⟩ .normalSynchronized 0
    s.Attended Stage.sampleSignature ∧ s.invocation.overflows = false ∧
      ∃ q x, s.invocation.Begun Stage.code x (s.environment Stage.sampleSignature 0 false)
        s.progress q := by
  obtain ⟨blob, made, begins⟩ := interpreted_methods_begin Stage.reference_sound .all
  have attended : (Stage.sample blob ⟨0x28⟩ .normalSynchronized 0).Attended
      Stage.sampleSignature := Stage.sample_attended made (by decide) (by decide) (by decide)
  have fits := attended.fits rfl
  obtain ⟨q, x, begun, -⟩ := begins _ Stage.codeBase _ _ (Stage.progress _) rfl rfl rfl attended.entrance
    attended.runtime fits (Surroundings.calm rfl rfl)
  exact ⟨blob, made, attended, fits, q, x, begun⟩

end EntryCode
