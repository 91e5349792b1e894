import EntryCode.Proofs.Interpreter.Stage

/-!
The state of a thread says where it is. A native function runs in a state of its own: the way in
and the way out are ordered by fences, the thread stops on the way out where it was asked to, and
whatever is thrown, no step of this is left out or done twice.
-/

namespace EntryCode

open EntryCode.Frame Pinned Fragment Machine

namespace Event

def effect? : Event → Option Effect
  | .call _ => none
  | .effect e => some e

def effects (events : List Event) : List Effect :=
  events.filterMap effect?

@[simp]
theorem effects_nil : effects [] = [] := rfl

@[simp]
theorem effects_append (events more : List Event) :
    effects (events ++ more) = effects events ++ effects more :=
  List.filterMap_append

end Event

namespace Invocation

section Contracts
variable (a : Invocation) (code : Dword → Prop) (b : Binding) {σ : Type} (env : Environment σ)
  (p : Progress σ)

def stored (state : ThreadState) : Effect :=
  .store (a.current + a.cfg.thread.offset .state) 4 (state.code.setWidth 64)

/-- The frame is published while a native function runs. -/
def Anchored (mem : Memory) : Prop :=
  ∃ pc, code pc ∧ mem.Holds a.current (anchorWords a.cfg a.outgoing a.fp pc)

variable (x : Activity) (exit : Option Call)

/-- The changes of the state, and the fences that order them. -/
def transitions : List Effect :=
  x.native.elim [] fun _ => [.fence .rw .w, a.stored .inNative, a.stored .inNativeTrans,
    .fence .rw .rw, .fence .rw .w, a.stored .inJava]

/-- An invocation has followed the protocol: its native function was entered in its own state, or
an exception came before it. -/
structure Conforms (r : Progress σ) : Prop where
  goes : Goes env a.watches p (a.trace x ++ made exit) r
  effects : Event.effects (a.trace x ++ made exit) = a.transitions x
  regular : a.Regular code x
  unreached : x.native = none → a.raised x ≠ 0
  entering : ∀ call ∈ x.native, a.Entering code b (a.servedContents x b) call.before
  stopped : ∀ call ∈ x.native, ∃ s, Goes env a.watches p (a.opening x call) s ∧
    a.Polls env call x.special s (made x.special ++ a.published .inJava true ++ made exit) r
  stopping : ∀ call ∈ x.native, ∀ stop ∈ x.special,
    a.Stopping code (a.servedContents x b) call stop.before ∧ a.Anchored code stop.before.memory
  exit : a.Unlocked code (a.lockedBy x.enter) exit
  state : x.native.isSome = true → a.InState .inJava r.machine.memory
  idle : a.Idle r.machine.memory
  ends : a.Gone r.machine ∨ r.machine.advance = .error .breakpoint

end Contracts

variable {a : Invocation} {i : Interpreter} {code : Dword → Prop} {c : Linked} {x : Activity}
  {b : Binding} {σ : Type} {env : Environment σ} {p q : Progress σ}

theorem effects_made (called : Option Call) : Event.effects (made called) = [] := by
  cases called <;> rfl

/-- Of everything that is noticed, only the protocol has effects. -/
theorem effects_trace (exit : Option Call) :
    Event.effects (a.trace x ++ made exit) = a.transitions x := by
  cases served : x.native with
  | none => simp [trace, transitions, served, effects_made]
  | some call =>
      have protocol : Event.effects (a.protocol call x.special) = a.transitions x := by
        cases stopped : x.special <;> simp only [transitions, served] <;> rfl
      simp [trace, served, effects_made, protocol]

theorem mem_words {f : ThreadField} {fields : List ThreadField} (member : f ∈ fields) {y : Dword}
    (word : a.ThreadWord f y) : a.Words fields y :=
  ⟨f, member, word⟩

theorem Anchored.kept {mem other : Memory} (anchored : a.Anchored code mem)
    (same : Memory.Agree (anchor a.cfg a.current) mem other) : a.Anchored code other := by
  obtain ⟨pc, inside, held⟩ := anchored
  exact ⟨pc, inside, same.holds held fun v member y covered => anchor_words_inside v member y covered⟩

section Ends
variable (around : a.Around code c env Exit.removeActivationException) (shared : a.Shared c)
  (even : ∀ callee, a.cfg.callees.address callee &&& 1 = 0)
  (releases : a.Releases code env p stateFields)
include around shared even releases

theorem Interrupted.conforms (unserved : x.native = none)
    (interrupted : a.Interrupted code x env p c Exit.removeActivationException q) :
    ∃ r exit, a.Conforms code b env p x exit r := by
  obtain ⟨r, exit, goes, unlocked, forwarded⟩ := interrupted.departs around shared releases.suits
    even releases.exits (by decide)
  refine ⟨r, exit, goes, effects_trace exit, interrupted.regular, fun _ => interrupted.raised,
    by simp [unserved], by simp [unserved], by simp [unserved], unlocked, by simp [unserved], ?_,
    forwarded.ends.imp_left .inr⟩
  exact idle_of_words around.housed.entered interrupted.idle (by decide) forwarded.words

/-- The thread is back in its own state after the native function. -/
theorem Served.conforms {call : Call} (native : a.native = true)
    (link : a.start.reg .ra &&& 1 = 0) (discreet : a.Discreet code env p b)
    (served : a.Served code x env p c b Exit.removeActivationException call q) :
    ∃ r exit, a.Conforms code b env p x exit r := by
  have entered := around.housed.entered
  have only : ∀ {other}, other ∈ x.native → other = call := fun member =>
    Option.some.inj ((Option.mem_def.mp member).symm.trans served.native)
  obtain ⟨r, exit, left, unlocked, ended⟩ := served.exits around shared releases.suits even
    releases.exits (by decide) native link
  -- Either exit leaves the state and the anchor as they were.
  have kept : Memory.Agree (fun y => a.Words stateFields y ∧ ¬a.ThreadWord .pendingException y)
      q.machine.memory r.machine.memory := by
    rcases ended with ⟨-, -, left⟩ | ⟨-, forwarded⟩
    · exact left.words.mono fun y word => word.1
    · exact forwarded.words
  refine ⟨r, exit, served.goes.trans left, effects_trace exit, served.regular, ?_, ?_, ?_, ?_,
    unlocked, ?_, ?_, ?_⟩
  · simp [served.native]
  · intro other member
    exact only member ▸ served.entering
  · intro other member
    obtain rfl := only member
    obtain ⟨s, goes, polls⟩ := served.stopped
    exact ⟨s, goes, polls.onward left⟩
  · intro other member stop stopped
    obtain rfl := only member
    have stopping := served.stopping stop stopped
    refine ⟨stopping, ?_⟩
    -- The function leaves the anchor alone, and so does the way to the routine.
    have noticed : .call other ∈ a.trace x := by simp [trace, protocol, served.native]
    have first := served.goes.related discreet noticed served.entering.routine
      served.entering.inside
    have anchored : ∀ y, anchor a.cfg a.current y →
        a.Words stateFields y ∧ ¬a.Stash y ∧ ¬a.ThreadWord .state y := by
      intro y anchored
      have listed : ∀ f ∈ [ThreadField.lastSp, .lastFp, .lastPc],
          f ∈ stateFields ∧ f.width = 8 := by decide
      obtain ⟨f, d, laid⟩ := a.placed entered.counted entered.aligned
      refine ⟨?_, fun stash => entered.stack_anchor y (laid.result_owned native y stash) anchored,
        fun state => entered.anchor_apart (by decide) (by decide) y state anchored⟩
      obtain ⟨g, member, covered⟩ := anchored
      refine mem_words (listed g member).1 ?_
      rwa [ThreadWord, (listed g member).2]
    exact (Anchored.kept served.entering.anchored (first.mono fun y word => (anchored y word).1)).kept
      (stopping.memory.mono fun y word => (anchored y word).2)
  · intro _
    rw [InState, kept.load (by decide), served.state]
    exact fun y state => ⟨mem_words (by decide) state,
      words_apart entered.words (by decide) (by decide) (by decide) y state⟩
  · exact idle_of_words entered served.idle (by decide) kept
  · rcases ended with ⟨-, there, left⟩ | ⟨-, forwarded⟩
    · exact .inl (.inl ⟨there, left.toRestored⟩)
    · exact forwarded.ends.imp_left .inr

end Ends

/-- Where nothing is thrown, and the native function asks its thread to stop, the thread stops. -/
theorem Conforms.stops {exit : Option Call} (conforms : a.Conforms code b env p x exit q)
    (calm : a.Calm env p) (requests : env.Answers a.watches p b.function (fun _ => True)
      fun _ k => polled a.cfg a.current k.memory)
    (entered : a.Entered code) (kind : a.native = true) :
    ∃ native stop, x.native = some native ∧ x.special = some stop := by
  have noticed : ∀ e ∈ a.trace x, e ∈ a.trace x ++ made exit := fun _ => List.mem_append_left _
  cases served : x.native with
  | none =>
      have none := calm.unraised conforms.regular conforms.goes noticed
      exact (conforms.unreached served none).elim
  | some native =>
      obtain ⟨s, -, polls⟩ := conforms.stopped native served
      have throwing : native ∈ x.throwing := by simp [Activity.throwing, served]
      have asked := conforms.goes.related requests (noticed _ (a.throwing_noticed throwing))
        (conforms.entering native served).routine trivial
      obtain ⟨stop, stopped⟩ := Option.isSome_iff_exists.mp
        ((polls.asked_at_return entered kind).mpr asked)
      exact ⟨native, stop, rfl, stopped⟩

end Invocation

/-- Native methods follow the protocol of the thread state on every run: the state does not change
where an exception comes first, and otherwise it changes in order, with the fences in between, and
the thread stops exactly where it is asked to. -/
theorem native_calls_follow_protocol {cfg : Config} (accepted : cfg.problem? = none)
    (separate : cfg.thread.Separate ThreadField.inRecord) (e : Extensions) :
    ∃ made, Interpreter.blob cfg e = .ok made ∧
      ∀ (a : Invocation) (b : Invocation.Binding) (base : Dword) (code : Dword → Prop) {σ : Type}
        (env : Environment σ) (p : Progress σ), a.cfg = cfg → a.native = true →
        p.machine = a.start → a.start.reg .ra &&& 1 = 0 →
        a.Admitted (made.installed e base) code env → a.Runtime code env p →
        a.Supplied (made.installed e base) code env b →
        a.Services code env p b (made.installed e base).Covers →
        a.Releases code env p Invocation.stateFields → a.Discreet code env p b →
        ∃ r x exit, a.Conforms code b env p x exit r := by
  obtain ⟨made, generated, placed⟩ := Interpreter.blob_image accepted e
  refine ⟨made, generated, ?_⟩
  rintro a b base code σ env p rfl native here link admitted runtime supplied services releases
    discreet
  obtain ⟨c, image⟩ := placed base
  have image := image.watching a.watches
  have shared : a.Shared (c.watching a.watches) := .of_image image
  have around := admitted.around image (Config.words_parted accepted separate) rfl
  obtain ⟨h, bridged⟩ := supplied.bridged admitted.toLodged image native
  obtain ⟨q, x, ⟨call, served⟩ | ⟨unserved, interrupted⟩⟩ := around.calls_native runtime bridged
    services shared here (admitted.stands_native image native)
  · obtain ⟨r, exit, conforms⟩ :=
      served.conforms around shared runtime.even releases native link discreet
    exact ⟨r, x, exit, conforms⟩
  · obtain ⟨r, exit, conforms⟩ :=
      interrupted.conforms around shared runtime.even releases unserved
    exact ⟨r, x, exit, conforms⟩

/-- A synchronized native method of the reference runtime, whose function asks the thread to stop. -/
theorem native_sample_follows_protocol : ∃ blob, Interpreter.blob .reference .all = .ok blob ∧
    let s := Stage.sample blob ⟨0x128⟩ .nativeSynchronized 0
    s.Attended Stage.sampleSignature ∧ ∃ r x exit native stop, x.native = some native ∧
      x.special = some stop ∧ s.invocation.Conforms Stage.code (s.binding Stage.sampleSignature)
        (s.environment Stage.sampleSignature 0 false) s.progress x exit r := by
  obtain ⟨blob, made, follows⟩ := native_calls_follow_protocol Stage.reference_sound.accepted
    Stage.reference_sound.words .all
  have attended : (Stage.sample blob ⟨0x128⟩ .nativeSynchronized 0).Attended
      Stage.sampleSignature := Stage.sample_attended made (by decide) (by decide) (by decide)
  obtain ⟨r, x, exit, conforms⟩ := follows
    (Stage.sample blob ⟨0x128⟩ .nativeSynchronized 0).invocation
    (Stage.binding _ Stage.sampleSignature) Stage.codeBase _
    (Stage.environment _ Stage.sampleSignature 0 false) (Stage.progress _) rfl rfl rfl
    Stage.linked (attended.entrance.admitted Stage.reference_sound) attended.runtime
    attended.supplied attended.services (attended.releases (by decide) (by decide)
      (.inr (by decide))) attended.discreet
  obtain ⟨native, stop, served, stopped⟩ :=
    conforms.stops (Surroundings.calm rfl rfl) attended.requests attended.entered rfl
  exact ⟨blob, made, attended, r, x, exit, native, stop, served, stopped, conforms⟩

end EntryCode
