import EntryCode.Proofs.Interpreter.Stage

/-!
Exceptions leave no trace of the frame. Whichever routine throws, from whichever entry, control comes
to the dispatch of exceptions with the registers of the caller, and nothing else is called on the
way but the routine that releases the lock.
-/

namespace EntryCode

open EntryCode.Frame Pinned Fragment Machine

namespace Invocation

section Contracts
variable (a : Invocation) (i : Interpreter) (code : Dword → Prop) {σ : Type} (env : Environment σ)
  (p : Progress σ)

/-- A method that throws before it has a frame. -/
structure Cornered (callee : Callee) : Prop extends a.Installed i code env, a.Spared code where
  callable : ∀ callee, a.cfg.callees.address callee &&& 1 = 0
  throws : env.Answers a.watches p (a.cfg.callees.address callee) (a.Thrower code callee)
    (a.Throws code)

/-- The routine that throws is called, and its exception goes to the dispatch of the caller. -/
structure Ejected (callee : Callee) (call : Call) (r : Progress σ) : Prop where
  goes : Goes env a.watches p [.call call] r
  thrower : a.Thrower code callee call.before
  unwound : a.thrown (some call) ≠ 0 → a.Unwound (a.thrown (some call)) r.machine

variable (b : Binding) (x : Activity) (exit : Option Call)

/-- The calls of an invocation whose frame was left, the last of which may release the lock. -/
structure Ended (r : Progress σ) : Prop where
  goes : Goes env a.watches p (a.trace x ++ made exit) r
  regular : a.Regular code x
  native : ∀ call ∈ x.native, call.before.pc = b.function
  special : ∀ call ∈ x.special,
    call.before.pc = a.cfg.callees.address .checkSpecialCondition
  exit : a.Unlocked code (a.lockedBy x.enter) exit

/-- The exception of the last call that may throw went to the dispatch of the caller. -/
structure Escaped (r : Progress σ) : Prop extends a.Ended code env p b x exit r where
  raised : ∃ call, x.throwing.getLast? = some call ∧ a.thrown (some call) ≠ 0 ∧
    a.Unwound (a.thrown (some call)) r.machine
  idle : a.Idle r.machine.memory

/-- A native method has returned, and no call has left an exception. -/
structure Answered (r : Progress σ) : Prop extends a.Ended code env p b x exit r where
  calm : ∀ call ∈ x.throwing, a.thrown (some call) = 0
  served : x.native.isSome = true
  back : r.machine.pc = a.start.reg .ra
  restored : a.Restored r.machine

end Contracts

variable {a : Invocation} {i : Interpreter} {code : Dword → Prop} {c : Linked} {x : Activity}

section Ends
variable {σ : Type} {env : Environment σ} {p q : Progress σ} {b : Binding}
  (around : a.Around code c env Exit.removeActivationException) (shared : a.Shared c)
  (even : ∀ callee, a.cfg.callees.address callee &&& 1 = 0)
  (releases : a.Releases code env p leafFields)
include around shared even releases

theorem Interrupted.escapes (unserved : x.native = none)
    (interrupted : a.Interrupted code x env p c Exit.removeActivationException q) :
    ∃ r exit, a.Escaped code env p b x exit r := by
  have regular := interrupted.regular
  have raised := interrupted.raised
  have unstopped := regular.stopped unserved
  obtain ⟨r, exit, goes, unlocked, forwarded⟩ := interrupted.departs around shared releases.suits
    even releases.exits (by decide)
  obtain ⟨call, last⟩ := thrown_some raised
  rw [← interrupted.pending] at raised
  have unwound := forwarded.known (by decide) raised
  rw [interrupted.pending] at raised unwound
  rw [Invocation.raised, last] at raised unwound
  refine ⟨r, exit, ⟨goes, regular, by simp [unserved], by simp [unstopped], unlocked⟩,
    ⟨call, (x.last_throwing unstopped).trans last, raised, unwound⟩, ?_⟩
  exact idle_of_words around.housed.entered interrupted.idle (by decide) forwarded.words

theorem Served.escapes {call : Call} (native : a.native = true)
    (link : a.start.reg .ra &&& 1 = 0) (calms : a.Calms code env p)
    (served : a.Served code x env p c b Exit.removeActivationException call q) :
    ∃ r exit, a.Escaped code env p b x exit r ∨ a.Answered code env p b x exit r := by
  have entered := around.housed.entered
  have regular := served.regular
  obtain ⟨r, exit, goes, unlocked, ended⟩ := served.departs around shared releases.suits even
    releases.exits (by decide) native link
  -- A stop of the thread leaves the exception of the function where it is.
  have same : a.raised x = a.thrown (some call) := by
    cases stopped : x.special with
    | none => rw [raised, Activity.last, stopped, served.native, Option.none_or, Option.some_or]
    | some stop =>
        have stopping := served.stopping stop stopped
        have kept := served.goes.related calms (c := stop)
          (by simp [trace, protocol, made, served.native, stopped]) stopping.routine stopping.inside
        rw [raised, Activity.last, stopped, Option.some_or]
        refine kept.trans (stopping.memory.load (by decide) fun y word => ?_)
        have apart := entered.word_kept native (g := .pendingException) (by decide) (by decide) y word
        exact ⟨apart.1, fun state => apart.2 (.inl state)⟩
  have last : x.throwing.getLast? = some call := by
    rw [Activity.throwing, served.native]
    simp
  have ended' : a.Ended code env p b x exit r := by
    refine ⟨goes, regular, fun other member => ?_, fun stop member => ?_, unlocked⟩
    · obtain rfl := Option.some.inj (served.native.symm.trans member)
      exact served.entering.routine
    · exact (served.stopping stop member).routine
  refine ⟨r, exit, ?_⟩
  rcases ended with ⟨calm, there, left⟩ | ⟨raised, forwarded⟩
  · refine .inr ⟨ended', ?_, by rw [served.native]; rfl, there, left.toRestored⟩
    have orderly := regular.orderly
    rw [Activity.throwing, List.pairwise_append] at orderly
    intro other member
    rw [Activity.throwing] at member
    rcases List.mem_append.mp member with earlier | here
    · exact orderly.2.2 other earlier call (by simp [served.native])
    · simp only [served.native, Option.toList_some, List.mem_singleton] at here
      rw [here, ← same, calm]
  · rw [← served.pending] at raised
    have unwound := forwarded.known (by decide) raised
    rw [served.pending, same] at raised unwound
    refine .inl ⟨ended', ⟨call, last, raised, unwound⟩, ?_⟩
    exact idle_of_words entered served.idle (by decide) forwarded.words

end Ends

end Invocation

theorem Stage.Ready.cornered {s : Stage} (ready : s.Ready) (addressed : Addressed s.cfg)
    {sig : Signature} {exception : Dword} {leaf : Bool} {p : Progress Unit} {callee : Callee}
    (thrower : callee = .throwStackOverflow ∨ callee = .throwAbstractMethod) :
    s.invocation.Cornered s.interpreter code (s.environment sig exception leaf) p callee :=
  ⟨ready.installed addressed.housing.quiet, ready.spared, addressed.even,
    (addressed.housing.throws ready.spared ready.entered.thread_code thrower).mono
      fun _ _ throws => throws.1⟩

section Thrown
variable {s : Stage} {sig : Signature} {exception : Dword} {leaf : Bool} {x : Invocation.Activity}
  {r : Progress Unit} (attended : s.Attended sig) (raised : exception ≠ 0)
include attended raised

/-- A synchronized method does not come to its bytecodes where every routine throws. -/
theorem Stage.Attended.unbegun (locks : s.invocation.synchronized = true) :
    ¬s.invocation.Begun code x (s.environment sig exception leaf) s.progress r := by
  intro begun
  obtain ⟨call, entering⟩ := Option.isSome_iff_exists.mp (begun.locked.trans locks)
  have member : call ∈ x.throwing := by simp [Invocation.Activity.throwing, entering]
  obtain ⟨_, _, made⟩ := (begun.regular.enter call entering).invoked
  exact raised ((attended.addressed.housing.thrown_eq (q := some .monitorEnter) (by decide) rfl
    begun.goes (s.invocation.throwing_noticed member) made.routine).symm.trans
      (begun.calm call member))

/-- A native method does not return where every routine throws. -/
theorem Stage.Attended.unanswered {exit : Option Call} :
    ¬s.invocation.Answered code (s.environment sig exception leaf) s.progress (s.binding sig) x exit
      r := by
  intro answered
  obtain ⟨call, served⟩ := Option.isSome_iff_exists.mp answered.served
  have member : call ∈ x.throwing := by simp [Invocation.Activity.throwing, served]
  exact raised ((attended.thrown_eq answered.regular answered.native answered.goes
    (fun _ => List.mem_append_left _) call member).symm.trans (answered.calm call member))

end Thrown

/-- Exceptions unwind completely. From every entry, an exception that a routine or a native function
has left comes to the dispatch of exceptions with the registers of the caller. -/
theorem exceptions_unwind {cfg : Config} (sound : cfg.Sound) (e : Extensions) :
    ∃ made, Interpreter.blob cfg e = .ok made ∧
      ∀ (a : Invocation) (b : Invocation.Binding) (base : Dword) (code : Dword → Prop) {σ : Type}
        (env : Environment σ) (p : Progress σ), a.cfg = cfg → p.machine = a.start →
        (a.Cornered (made.installed e base) code env p .throwAbstractMethod →
          Interpreter.entry? (made.installed e base) .abstract = some a.start.pc →
          ∃ r call, a.Ejected code env p .throwAbstractMethod call r) ∧
        (a.Cornered (made.installed e base) code env p .throwStackOverflow → a.Described →
          Interpreter.entry? (made.installed e base) a.kind = some a.start.pc → a.native = false →
          a.overflows = true → ∃ r call, a.Ejected code env p .throwStackOverflow call r) ∧
        (a.Entrance (made.installed e base) code env → a.Runtime code env p →
          a.Releases code env p Invocation.leafFields → a.native = false → a.overflows = false →
          ∃ r x, a.Begun code x env p r ∨ ∃ exit, a.Escaped code env p b x exit r) ∧
        (a.Entrance (made.installed e base) code env → a.Runtime code env p →
          a.Releases code env p Invocation.leafFields → a.native = true →
          a.start.reg .ra &&& 1 = 0 → a.Supplied (made.installed e base) code env b →
          a.Services code env p b (made.installed e base).Covers → a.Calms code env p →
          ∃ r x exit, a.Escaped code env p b x exit r ∨ a.Answered code env p b x exit r) := by
  obtain ⟨made, generated, placed⟩ := Interpreter.blob_image sound.accepted e
  refine ⟨made, generated, ?_⟩
  rintro a b base code σ env p rfl here
  obtain ⟨c, image⟩ := placed base
  have image := image.watching a.watches
  have shared : a.Shared (c.watching a.watches) := .of_image image
  refine ⟨?_, ?_, ?_, ?_⟩
  -- The abstract entry throws without a frame.
  · intro cornered entry
    have bare := cornered.toInstalled.bare image sound rfl cornered.toSpared
    obtain ⟨r, call, goes, thrower, unwound⟩ := bare.abstains (cornered.quiet_code image) shared here
      cornered.callable (cornered.stands image entry rfl) cornered.throws
    exact ⟨r, call, goes, thrower, unwound⟩
  -- So does an entry that finds no room on the stack.
  · intro cornered described entry interpreted full
    have bare := cornered.toInstalled.bare image sound rfl cornered.toSpared
    have stands := cornered.stands image (p := Entry.interpreted a.cfg e a.synchronized) entry (by
      rw [Invocation.kind, interpreted]
      cases a.synchronized <;> rfl)
    obtain ⟨r, call, goes, thrower, unwound⟩ := bare.overflows (cornered.quiet_code image) shared
      here cornered.callable (described.recorded sound) interpreted full stands cornered.throws
    exact ⟨r, call, goes, thrower, unwound⟩
  -- An interpreted method comes to its first bytecode, or an exception leaves its frame.
  · intro entrance runtime releases interpreted fits
    have around := entrance.around image sound rfl
    obtain ⟨q, x, unserved, begun | interrupted⟩ := around.interprets runtime here interpreted fits
      (entrance.stands_interpreted image interpreted) shared.overflow
    · exact ⟨q, x, .inl begun⟩
    · obtain ⟨r, exit, escaped⟩ :=
        interrupted.escapes around shared runtime.even releases unserved
      exact ⟨r, x, .inr ⟨exit, escaped⟩⟩
  -- A native method always leaves its frame.
  · intro entrance runtime releases native link supplied services calms
    have around := entrance.around image sound rfl
    obtain ⟨h, bridged⟩ := supplied.bridged entrance.toLodged image native
    obtain ⟨q, x, ⟨call, served⟩ | ⟨unserved, interrupted⟩⟩ := around.calls_native runtime bridged
      services shared here (entrance.stands_native image native)
    · obtain ⟨r, exit, ended⟩ :=
        served.escapes around shared runtime.even releases native link calms
      exact ⟨r, x, exit, ended⟩
    · obtain ⟨r, exit, escaped⟩ :=
        interrupted.escapes around shared runtime.even releases unserved
      exact ⟨r, x, exit, .inl escaped⟩

/-- Methods of the reference runtime, with a runtime that throws: an abstract one, one without room
on its stack, a synchronized one and a native one. -/
theorem sample_exceptions_unwind : ∃ blob, Interpreter.blob .reference .all = .ok blob ∧
    let around s := Stage.environment s Stage.sampleSignature 0xabc0 true
    let bound s := Stage.binding s Stage.sampleSignature
    (let s := Stage.sample blob ⟨0x400⟩ .abstract 0
      ∃ r call, s.invocation.Ejected Stage.code (around s) s.progress .throwAbstractMethod call r) ∧
    (let s := Stage.sample blob ⟨0⟩ .normal (.allOnes 64)
      ∃ r call, s.invocation.Ejected Stage.code (around s) s.progress .throwStackOverflow call r) ∧
    (let s := Stage.sample blob ⟨0x28⟩ .normalSynchronized 0
      ∃ r x exit, s.invocation.Escaped Stage.code (around s) s.progress (bound s) x exit r) ∧
    (let s := Stage.sample blob ⟨0x100⟩ .native 0
      ∃ r x exit, s.invocation.Escaped Stage.code (around s) s.progress (bound s) x exit r) := by
  obtain ⟨blob, made, unwind⟩ := exceptions_unwind Stage.reference_sound .all
  have unwind := fun s : Stage => unwind s.invocation (s.binding Stage.sampleSignature)
    Stage.codeBase Stage.code (s.environment Stage.sampleSignature 0xabc0 true) s.progress
  refine ⟨blob, made, ?abstract, ?full, ?interpreted, ?native⟩
  case abstract =>
    have ready : (Stage.sample blob ⟨0x400⟩ .abstract 0).Ready :=
      ⟨Stage.reference_sound, made, show (Stage.sampleMethod ⟨0x400⟩).problem? = none by decide⟩
    exact (unwind _ rfl rfl).1 (ready.cornered Stage.reference_addressed (.inr rfl))
      (ready.placed rfl)
  case full =>
    have attended : (Stage.sample blob ⟨0⟩ .normal (.allOnes 64)).Attended Stage.sampleSignature :=
      Stage.sample_attended made (by decide) (by decide) (by decide)
    exact (unwind _ rfl rfl).2.1 (attended.cornered attended.addressed (.inl rfl))
      attended.described attended.entry rfl (attended.full rfl)
  case interpreted =>
    have attended : (Stage.sample blob ⟨0x28⟩ .normalSynchronized 0).Attended
        Stage.sampleSignature := Stage.sample_attended made (by decide) (by decide) (by decide)
    obtain ⟨r, x, begun | ⟨exit, escaped⟩⟩ := (unwind _ rfl rfl).2.2.1 attended.entrance
      attended.runtime (attended.releases (by decide) (by decide) (.inl rfl)) rfl
      (attended.fits rfl)
    · exact (attended.unbegun (by decide) rfl begun).elim
    · exact ⟨r, x, exit, escaped⟩
  case native =>
    have attended : (Stage.sample blob ⟨0x100⟩ .native 0).Attended Stage.sampleSignature :=
      Stage.sample_attended made (by decide) (by decide) (by decide)
    obtain ⟨r, x, exit, escaped | answered⟩ := (unwind _ rfl rfl).2.2.2 attended.entrance
      attended.runtime (attended.releases (by decide) (by decide) (.inl rfl)) rfl Stage.linked
      attended.supplied attended.services attended.calms
    · exact ⟨r, x, exit, escaped⟩
    · exact (attended.unanswered (by decide) answered).elim

end EntryCode
