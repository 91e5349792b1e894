import EntryCode.Proofs.Interpreter.Stage

/-!
Native methods from end to end. As long as nothing is thrown, the function of the method is called
once, with every argument in its place, and its result comes back to the caller in the form that
its type asks for.
-/

namespace EntryCode

open EntryCode.Frame Pinned Fragment Machine

namespace Invocation

section Contracts
variable (a : Invocation) (code : Dword → Prop) (b : Binding) {σ : Type} (env : Environment σ)
  (p : Progress σ) (x : Activity) (exit : Option Call) (call : Call)

/-- A native method has returned to its caller. -/
structure Completed (r : Progress σ) : Prop where
  goes : Goes env a.watches p (a.trace x ++ made exit) r
  regular : a.Regular code x
  called : x.native = some call
  entering : a.Entering code b (a.servedContents x b) call.before
  handled : ∃ s t w, Goes env a.watches p
      (made x.overflow ++ made x.profile ++ made x.enter ++ made x.prepare) s ∧
    a.Marshals b env w s t ∧ Memory.Agree a.Whole s.machine.memory t.machine.memory ∧
    Goes env a.watches t (a.protocol call x.special ++ made exit) r
  stopping : ∀ stop ∈ x.special, a.Stopping code (a.servedContents x b) call stop.before
  exit : a.Unlocked code (a.lockedBy x.enter) exit
  back : r.machine.pc = a.start.reg .ra
  restored : a.Restored r.machine
  result : ∃ mem, Memory.Agree (fun y => ¬a.Stash y ∧ ¬a.InThread y ∧
      ¬a.HandleTop (x.special.getD call).after.memory y) (x.special.getD call).after.memory mem ∧
    r.machine.reg .a0 = Exit.converted mem (call.after.reg .a0) b.signature.result
  float : r.machine.freg .fa0 = call.after.freg .fa0

end Contracts

variable {a : Invocation} {code : Dword → Prop} {c : Linked} {x : Activity} {b : Binding}
  {σ : Type} {env : Environment σ} {p q : Progress σ}

theorem Served.completes {call : Call} (native : a.native = true)
    (around : a.Around code c env Exit.removeActivationException) (shared : a.Shared c)
    (even : ∀ callee, a.cfg.callees.address callee &&& 1 = 0) (link : a.start.reg .ra &&& 1 = 0)
    (releases : a.Releases code env p []) (calm : a.Calm env p)
    (served : a.Served code x env p c b Exit.removeActivationException call q) :
    ∃ r exit, a.Completed code b env p x exit call r := by
  have entered := around.housed.entered
  obtain ⟨f, d, laid⟩ := a.placed entered.counted entered.aligned
  have quiet := calm.unraised served.regular served.goes fun _ => id
  have stands := served.stands
  rw [if_pos quiet] at stands
  obtain ⟨r, exit, goes, there, left, unlocked⟩ := served.leaving.returns around (.done q) shared
    releases.suits (releases.exits.since served.goes) (even _) (by decide)
    (laid.below_outgoing native) stands link
  rw [List.nil_append] at goes
  obtain ⟨s, t, w, first, marshals, last⟩ := served.handled
  refine ⟨r, exit, served.goes.trans goes, served.regular, served.native, served.entering,
    ⟨s, t, w, first, marshals, ?_, last.trans goes⟩, served.stopping, unlocked, there,
    left.toRestored, ⟨q.machine.memory, served.memory, ?_⟩, left.float.trans served.float⟩
  · exact marshals.memory.mono fun y whole inside => laid.arguments_whole native y inside whole
  · rw [left.result, served.result quiet]

end Invocation

/-- Native methods are correct from end to end: where nothing is thrown, the function is called
once, with its arguments in their places, and its result is returned to the caller. -/
theorem native_methods_complete {cfg : Config} (sound : cfg.Sound) (e : Extensions) :
    ∃ made, Interpreter.blob cfg e = .ok made ∧
      ∀ (a : Invocation) (b : Invocation.Binding) (base : Dword) (code : Dword → Prop) {σ : Type}
        (env : Environment σ) (p : Progress σ), a.cfg = cfg → a.native = true →
        p.machine = a.start → a.start.reg .ra &&& 1 = 0 →
        a.Entrance (made.installed e base) code env → a.Runtime code env p →
        a.Supplied (made.installed e base) code env b →
        a.Services code env p b (made.installed e base).Covers →
        a.Releases code env p [] → a.Calm env p →
        ∃ r x exit call, a.Completed code b env p x exit call r := by
  obtain ⟨made, generated, placed⟩ := Interpreter.blob_image sound.accepted e
  refine ⟨made, generated, ?_⟩
  rintro a b base code σ env p rfl native here link entrance runtime supplied services releases calm
  obtain ⟨c, image⟩ := placed base
  have image := image.watching a.watches
  have shared : a.Shared (c.watching a.watches) := .of_image image
  have around := entrance.around image sound rfl
  obtain ⟨h, bridged⟩ := supplied.bridged entrance.toLodged image native
  obtain ⟨q, x, ⟨call, served⟩ | ⟨-, interrupted⟩⟩ := around.calls_native runtime bridged services
    shared here (entrance.stands_native image native)
  · obtain ⟨r, exit, completed⟩ :=
      served.completes native around shared runtime.even link releases calm
    exact ⟨r, x, exit, call, completed⟩
  · exact (calm.not_interrupted interrupted).elim

/-- A native method of the reference runtime, with a receiver and three arguments. -/
theorem native_sample_completes : ∃ blob, Interpreter.blob .reference .all = .ok blob ∧
    let s := Stage.sample blob ⟨0x100⟩ .native 0
    s.Attended Stage.sampleSignature ∧ ∃ r x exit call, s.invocation.Completed Stage.code
      (s.binding Stage.sampleSignature) (s.environment Stage.sampleSignature 0 false) s.progress
        x exit call r := by
  obtain ⟨blob, made, completes⟩ := native_methods_complete Stage.reference_sound .all
  have attended : (Stage.sample blob ⟨0x100⟩ .native 0).Attended Stage.sampleSignature :=
    Stage.sample_attended made (by decide) (by decide) (by decide)
  obtain ⟨r, x, exit, call, completed⟩ := completes (Stage.sample blob ⟨0x100⟩ .native 0).invocation
    (Stage.binding _ Stage.sampleSignature) Stage.codeBase _ _ (Stage.progress _) rfl rfl rfl
    Stage.linked attended.entrance attended.runtime attended.supplied attended.services
    (attended.releases (by decide) (by decide) (.inr (by decide))) (Surroundings.calm rfl rfl)
  exact ⟨blob, made, attended, r, x, exit, call, completed⟩

end EntryCode
