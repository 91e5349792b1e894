import EntryCode.Proofs.Interpreter.Stage

/-!
Synchronized methods lock once and unlock once. Whichever routine throws, the lock is released on
the way out if it was taken, and not otherwise, and the method itself runs only with the lock.
-/

namespace EntryCode

open EntryCode.Frame Pinned Fragment Machine

namespace Invocation

/-- The calls of an invocation from its entry to its end, each if it was made. -/
structure Lifetime extends Activity where
  thrower : Option Call := none
  body : Option Call := none
  exit : Option Call := none

section Contracts
variable (a : Invocation) (i : Interpreter) (code : Dword → Prop)

/-- The bytecodes of a method have run and control is at an exit. The frame is as it was. -/
structure Executed (m k : Machine) : Prop where
  cleared : m.Zeroed → k.Zeroed
  fp : k.reg .fp = m.reg .fp
  thread : k.reg thread = m.reg thread
  below : a.Below (k.reg .sp)
  memory : Memory.Agree (fun x => code x ∨ frameArea a.fp x ∨ a.Field .accessFlags x) m.memory
    k.memory
  exit : (i.placed? .removeActivation).map i.address = some k.pc ∨
    (i.placed? .removeActivationException).map i.address = some k.pc ∧
      pending a.cfg a.current k.memory ≠ 0

/-- There is an object that the method locks. -/
structure Lockable : Prop where
  flagged : a.method.flags.isSynchronized = true
  synchronized : a.synchronized = true
  receiver : a.method.flags.isStatic = false → 0 < a.parameters
  object : a.lockTarget a.start ≠ 0

variable {σ : Type} (env : Environment σ) (p : Progress σ)

/-- What an interpreted method relies on after its entry: its bytecodes come to an exit, and the
error of a stack that is too small can be thrown. -/
structure Executes : Prop where
  body : ∀ x q, a.Begun code x env p q → ∃ r, q.Calls env r ∧ a.Executed i code q.machine r.machine
  spared : a.Spared code
  throws : env.Answers a.watches p (a.cfg.callees.address .throwStackOverflow)
    (a.Thrower code .throwStackOverflow)
    fun m k => a.Throws code m k ∧ pending a.cfg a.current k.memory ≠ 0

variable (b : Binding)

/-- What the method itself relies on, interpreted or native. -/
structure Populated : Prop where
  executes : a.native = false → a.Executes i code env p
  supplied : a.native = true → a.Supplied i code env b
  services : a.native = true → a.Services code env p b i.Covers

variable (y : Lifetime)

def life : List Event :=
  made y.thrower ++ a.trace y.toActivity ++ made y.body ++ made y.exit

def Taken : Prop :=
  ∃ call ∈ y.enter, a.thrown (some call) = 0

/-- Every call is known, and those that lock and unlock belong together. -/
structure Balanced : Prop where
  regular : a.Regular code y.toActivity
  thrower : ∀ call ∈ y.thrower, a.Thrower code .throwStackOverflow call.before
  body : ∀ call ∈ y.body, ∃ w, a.Dispatched w call.before
  native : ∀ call ∈ y.native, call.before.pc = b.function
  special : ∀ call ∈ y.special,
    call.before.pc = a.cfg.callees.address .checkSpecialCondition
  object : ∀ call ∈ y.enter, call.before.memory.load a.objectAddress 8 = a.lockTarget a.start
  guarded : y.body.isSome = true ∨ y.native.isSome = true → a.Taken y
  exit : y.exit.isSome = true ↔ a.Taken y
  released : ∀ call ∈ y.exit, a.Released code (a.lockTarget a.start) call
  unreached : y.body = none → y.native = none →
    ∃ call ∈ y.thrower.toList ++ y.throwing, a.thrown (some call) ≠ 0

/-- An invocation is over, with its lock released. -/
structure Settled (r : Progress σ) : Prop where
  goes : Goes env a.watches p (a.life y) r
  balanced : a.Balanced code b y
  gone : a.Gone r.machine
  free : y.thrower = none → r.machine.memory.load a.objectAddress 8 = 0

end Contracts

variable {a : Invocation} {i : Interpreter} {code : Dword → Prop} {c : Linked} {sp : Dword}
  {w : Contents} {m k : Machine} {x : Activity} {exit : Option Call}

/-- What is locked does not change while the frame stands. -/
theorem Framed.lock_target (entered : a.Entered code) (framed : a.Framed sp w k)
    (receiver : a.method.flags.isStatic = false → 0 < a.parameters) :
    a.lockTarget k = a.lockTarget a.start := by
  obtain ⟨f, s, laid⟩ := a.placed entered.counted entered.aligned
  simp only [lockTarget]
  split
  · rfl
  next instance_method =>
    refine framed.parameters.load (by decide) fun y covered => ?_
    have some := receiver (Bool.eq_false_iff.mpr instance_method)
    have zero : a.localZero = a.localZero - BitVec.ofNat 64 (wordSize * 0) :=
      (BitVec.sub_zero _).symm
    rw [zero, laid.covers_local (by omega)] at covered
    rw [laid.covers_parameters]
    omega

section Locks
variable (entered : a.Entered code) (lockable : a.Lockable)
include entered lockable

theorem Locking.target {call : Call} (locking : a.Locking code call) :
    a.lockTarget call.before = a.lockTarget a.start := by
  obtain ⟨sp, w, made⟩ := locking.invoked
  exact made.framed.lock_target entered lockable.receiver

/-- The monitor holds the object if, and only if, the lock was taken. -/
theorem Regular.locked_by (regular : a.Regular code x) :
    (a.lockedBy x.enter ≠ 0 ↔ ∃ call ∈ x.enter, a.thrown (some call) = 0) ∧
      (a.lockedBy x.enter ≠ 0 → a.lockedBy x.enter = a.lockTarget a.start) := by
  rw [lockedBy]
  cases entering : x.enter with
  | none => simp
  | some call =>
      have target := (regular.enter call entering).target entered lockable
      rw [Option.elim_some, target]
      by_cases calm : a.thrown (some call) = 0
      · rw [if_pos calm]
        exact ⟨⟨fun _ => ⟨call, rfl, calm⟩, fun _ => lockable.object⟩, fun _ => rfl⟩
      · rw [if_neg calm]
        refine ⟨⟨fun absurd => (absurd rfl).elim, ?_⟩, fun absurd => (absurd rfl).elim⟩
        rintro ⟨_, ⟨⟩, calm'⟩
        exact (calm calm').elim

theorem Unlocked.balanced (regular : a.Regular code x)
    (unlocked : a.Unlocked code (a.lockedBy x.enter) exit) :
    (exit.isSome = true ↔ ∃ call ∈ x.enter, a.thrown (some call) = 0) ∧
      ∀ call ∈ exit, a.Released code (a.lockTarget a.start) call := by
  obtain ⟨taken, target⟩ := regular.locked_by entered lockable
  have calls : exit.isSome = true ↔ a.lockedBy x.enter ≠ 0 := by
    rw [unlocked.calls, lockable.synchronized, Bool.true_and, decide_eq_true_eq]
  refine ⟨calls.trans taken, fun call member => ?_⟩
  have held := target (calls.mp (Option.isSome_iff_exists.mpr ⟨call, member⟩))
  rw [← held]
  exact unlocked.released call member

end Locks

/-- What comes before the call of a native function has left no exception. -/
theorem Regular.before_native (regular : a.Regular code x) (served : x.native.isSome = true)
    {call : Call} (entering : x.enter = some call) : a.thrown (some call) = 0 := by
  obtain ⟨native, some⟩ := Option.isSome_iff_exists.mp served
  have orderly := regular.orderly
  rw [Activity.throwing, List.pairwise_append] at orderly
  exact orderly.2.2 call (by simp [entering]) native (by simp [some])

section Ends
variable {σ : Type} {env : Environment σ} {p q : Progress σ} {b : Binding}
  (around : a.Around code c env Exit.removeActivationException) (shared : a.Shared c)
  (lockable : a.Lockable) (even : ∀ callee, a.cfg.callees.address callee &&& 1 = 0)
  (contract : env.Answers a.watches p (a.cfg.callees.address .monitorExit) (a.Inside code)
    (a.Exits code [.pendingException]))
  (link : a.start.reg .ra &&& 1 = 0)
include around shared lockable even contract

theorem Interrupted.balances (unserved : x.native = none)
    (interrupted : a.Interrupted code x env p c Exit.removeActivationException q) :
    ∃ r y, a.Settled code env p b y r := by
  have entered := around.housed.entered
  have regular := interrupted.regular
  obtain ⟨r, exit, goes, unlocked, forwarded⟩ := interrupted.departs around shared
    (lockable.flagged.trans lockable.synchronized.symm) even contract (by decide)
  obtain ⟨exits, released⟩ := unlocked.balanced entered lockable regular
  have raised := interrupted.pending
  have unstopped := regular.stopped unserved
  obtain ⟨last, found⟩ := thrown_some interrupted.raised
  refine ⟨r, { x with exit }, by simpa [life, made] using goes, ⟨regular, unmade, unmade, ?_, ?_,
    fun call member => ?_, ?_, exits, released, fun _ _ => ⟨last, ?_, ?_⟩⟩,
    .inr ⟨_, ?_, forwarded.known (by decide) ?_⟩, fun _ => forwarded.free lockable.synchronized⟩
  · simp [unserved]
  · simp [unstopped]
  · have locking := regular.enter call member
    exact locking.object.trans (locking.target entered lockable)
  · simp [unserved]
  · exact List.mem_of_getLast? ((x.last_throwing unstopped).trans found)
  · have left := interrupted.raised
    rwa [Invocation.raised, found] at left
  all_goals exact raised ▸ interrupted.raised

include link

theorem Served.balances {call : Call} (native : a.native = true)
    (served : a.Served code x env p c b Exit.removeActivationException call q) :
    ∃ r y, a.Settled code env p b y r := by
  have entered := around.housed.entered
  have regular := served.regular
  obtain ⟨r, exit, goes, unlocked, ended⟩ := served.departs around shared
    (lockable.flagged.trans lockable.synchronized.symm) even contract (by decide) native link
  obtain ⟨exits, released⟩ := unlocked.balanced entered lockable regular
  refine ⟨r, { x with exit }, by simpa [life, made] using goes, ⟨regular, unmade, unmade, ?_, ?_,
    fun call member => ?_, fun run => ?_, exits, released, fun _ unserved => ?_⟩, ?_, fun _ => ?_⟩
  · intro call' member
    obtain rfl := Option.some.inj (served.native.symm.trans member)
    exact served.entering.routine
  · exact fun stop member => (served.stopping stop member).routine
  · have locking := regular.enter call member
    exact locking.object.trans (locking.target entered lockable)
  · have locked := served.locked.trans lockable.synchronized
    obtain ⟨call, entering⟩ := Option.isSome_iff_exists.mp locked
    exact ⟨call, entering, regular.before_native (by rw [served.native]; rfl) entering⟩
  · cases served.native.symm.trans unserved
  · rcases ended with ⟨-, there, left⟩ | ⟨raised, forwarded⟩
    · exact .inl ⟨there, left.toRestored⟩
    · rw [← served.pending] at raised
      exact .inr ⟨_, raised, forwarded.known (by decide) raised⟩
  · rcases ended with ⟨-, -, left⟩ | ⟨-, forwarded⟩
    · exact left.free lockable.synchronized
    · exact forwarded.free lockable.synchronized

omit around shared lockable even contract link in
/-- After its bytecodes a method can be left as if none of them had run. -/
theorem Executed.leaving (dispatched : a.Dispatched w m) (executed : a.Executed i code m k) :
    a.Leaving (k.reg .sp) w.object k := by
  have framed := dispatched.framed
  have inside : ∀ v ∈ a.savedSlots,
      (slot v.1 - firstMonitor).toNat + wordSize ≤ fixedSize + monitorSize := by
    simp only [savedSlots, List.forall_mem_cons]
    decide
  refine ⟨executed.fp.trans framed.at_fp, executed.thread.trans framed.at_thread, rfl, ?_, ?_, ?_⟩
  · intro v member
    rw [executed.memory.load (by decide), framed.leaving.frame v member]
    exact fun x covered => .inr (.inl (frame_area_word (inside v member) x covered))
  · intro locked
    rw [executed.memory.load (by decide), framed.object locked]
    exact fun x covered => .inr (.inl (frame_area_word (by decide) x covered))
  · exact framed.flags.trans (executed.memory.mono fun x field => .inr (.inr field))

theorem Begun.balances {r : Progress σ} (image : Interpreter.Image a.cfg i c)
    (loaded : c.InMemory a.start.memory) (unserved : x.native = none)
    (begun : a.Begun code x env p q) (calls : q.Calls env r)
    (executed : a.Executed i code q.machine r.machine) :
    ∃ r y, a.Settled code env p b y r := by
  have entered := around.housed.entered
  have regular := begun.regular
  have suits := lockable.flagged.trans lockable.synchronized.symm
  have leaving := executed.leaving begun.dispatched
  have goes := begun.goes.trans (.call calls (.done r))
  -- The exits are in memory as they were at the entry.
  have stands : ∀ {s : Routine} {prog : Program},
      Interpreter.program? a.cfg i.extensions s = some prog →
      (i.placed? s).map i.address = some r.machine.pc → c.Stands r.machine prog := by
    intro s prog generated there
    refine ⟨executed.cleared begun.dispatched.cleared, ?_, image.placed generated there⟩
    have here : c.InMemory q.machine.memory :=
      loaded.congr fun x inside => begun.steady x (.inl (around.housed.inside x inside))
    exact here.congr fun x inside => executed.memory x (.inl (around.housed.inside x inside))
  -- Either exit releases the lock, and ends with the caller.
  obtain ⟨last, exit, goes, unlocked, gone, free⟩ : ∃ last exit,
      Goes env a.watches p (a.trace x ++ [Event.call ⟨q.machine, r.machine⟩] ++ made exit) last ∧
        a.Unlocked code (a.lockedBy x.enter) exit ∧ a.Gone last.machine ∧
        last.machine.memory.load a.objectAddress 8 = 0 := by
    rcases executed.exit with there | ⟨there, raised⟩
    · obtain ⟨last, exit, goes, back, left, unlocked⟩ := leaving.returns around goes shared suits
        contract (even _) (by decide) executed.below (stands rfl there) link
      exact ⟨last, exit, goes, unlocked, .inl ⟨back, left.toRestored⟩,
        left.free lockable.synchronized⟩
    · obtain ⟨last, exit, goes, unlocked, forwarded⟩ := leaving.forwards around shared suits even
        contract (by decide) executed.below goes (stands rfl there)
      exact ⟨last, exit, goes, unlocked, .inr ⟨_, raised, forwarded.known (by decide) raised⟩,
        forwarded.free lockable.synchronized⟩
  obtain ⟨exits, released⟩ := unlocked.balanced entered lockable regular
  refine ⟨last, { x with body := some ⟨q.machine, r.machine⟩, exit },
    by simpa [life, made] using goes, ⟨regular, unmade, ?_, ?_, ?_, fun call member => ?_,
      fun _ => ?_, exits, released, nofun⟩, gone, fun _ => free⟩
  · rintro _ ⟨⟩
    exact ⟨_, begun.dispatched⟩
  · simp [unserved]
  · simp [regular.stopped unserved]
  · have locking := regular.enter call member
    exact locking.object.trans (locking.target entered lockable)
  · obtain ⟨call, entering⟩ :=
      Option.isSome_iff_exists.mp (begun.locked.trans lockable.synchronized)
    exact ⟨call, entering, begun.calm call (by simp [Activity.throwing, entering])⟩

end Ends

/-- Where the stack is too small, nothing is locked. -/
theorem Bare.balances {σ : Type} {env : Environment σ} {p r : Progress σ} {b : Binding} {call : Call}
    (goes : Goes env a.watches p [.call call] r)
    (thrower : a.Thrower code .throwStackOverflow call.before)
    (raised : a.thrown (some call) ≠ 0) :
    Goes env a.watches p (a.life { thrower := some call }) r ∧
      a.Balanced code b { thrower := some call } := by
  refine ⟨by simpa [life, trace, made] using goes, regular_none, ?_, unmade, unmade, unmade, unmade, ?_,
    ?_, by simp, fun _ _ => ⟨call, by simp, raised⟩⟩
  · rintro _ ⟨⟩
    exact thrower
  · simp
  · simp [Taken]

end Invocation

/-- Where nothing is thrown the lock is taken. -/
theorem Stage.Attended.takes {s : Stage} {sig : Signature} {leaf : Bool} {y : Invocation.Lifetime}
    {r : Progress Unit} (attended : s.Attended sig) (settled : s.invocation.Settled code
      (s.environment sig 0 leaf) s.progress (s.binding sig) y r) : s.invocation.Taken y := by
  have balanced := settled.balanced
  by_contra untaken
  have quiet : y.body = none ∧ y.native = none := by
    refine ⟨Option.not_isSome_iff_eq_none.mp fun some => ?_,
      Option.not_isSome_iff_eq_none.mp fun some => ?_⟩
    · exact untaken (balanced.guarded (.inl some))
    · exact untaken (balanced.guarded (.inr some))
  obtain ⟨call, member, raised⟩ := balanced.unreached quiet.1 quiet.2
  rcases List.mem_append.mp member with thrower | throwing
  · have thrower := Option.mem_toList.mp thrower
    exact raised (attended.addressed.housing.thrown_eq (q := some .throwStackOverflow) (by decide)
      rfl settled.goes (by simp [Invocation.life, Invocation.made, Option.mem_def.mp thrower])
      (balanced.thrower call thrower).routine)
  · exact raised (attended.thrown_eq balanced.regular balanced.native settled.goes
      (fun e noticed => by simp [Invocation.life, noticed]) call throwing)

/-- Synchronized methods take their lock once and release it once: whichever routine throws, the
lock is released on the way out if, and only if, it was taken. -/
theorem synchronized_methods_balance_monitors {cfg : Config} (sound : cfg.Sound) (e : Extensions) :
    ∃ made, Interpreter.blob cfg e = .ok made ∧
      ∀ (a : Invocation) (b : Invocation.Binding) (base : Dword) (code : Dword → Prop) {σ : Type}
        (env : Environment σ) (p : Progress σ), a.cfg = cfg → a.Lockable → p.machine = a.start →
        a.start.reg .ra &&& 1 = 0 → a.Entrance (made.installed e base) code env →
        a.Runtime code env p → a.Populated (made.installed e base) code env p b →
        env.Answers a.watches p (cfg.callees.address .monitorExit) (a.Inside code)
          (a.Exits code [.pendingException]) →
        ∃ r y, a.Settled code env p b y r := by
  obtain ⟨made, generated, placed⟩ := Interpreter.blob_image sound.accepted e
  refine ⟨made, generated, ?_⟩
  rintro a b base code σ env p rfl lockable here link entrance runtime populated contract
  obtain ⟨c, image⟩ := placed base
  have image := image.watching a.watches
  have shared : a.Shared (c.watching a.watches) := .of_image image
  have around := entrance.around image sound rfl
  cases kind : a.native with
  | true =>
      obtain ⟨h, bridged⟩ := (populated.supplied kind).bridged entrance.toLodged image kind
      obtain ⟨q, x, ⟨call, served⟩ | ⟨unserved, interrupted⟩⟩ := around.calls_native runtime bridged
        (populated.services kind) shared here (entrance.stands_native image kind)
      · exact served.balances around shared lockable runtime.even contract link kind
      · exact interrupted.balances around shared lockable runtime.even contract unserved
  | false =>
      have executes := populated.executes kind
      have stands := entrance.stands_interpreted image kind
      cases full : a.overflows with
      | true =>
          have bare := entrance.toInstalled.bare image sound rfl executes.spared
          obtain ⟨r, call, goes, thrower, unwound⟩ := bare.overflows (entrance.quiet_code image)
            shared here runtime.even (entrance.toDescribed.recorded sound) kind full stands
            (executes.throws.mono fun _ _ throws => throws.1)
          have raised := (goes.related executes.throws (by simp) thrower.routine thrower).2
          obtain ⟨goes, balanced⟩ := Invocation.Bare.balances (b := b) goes thrower raised
          exact ⟨r, _, goes, balanced, .inr ⟨_, raised, unwound raised⟩, by simp⟩
      | false =>
          obtain ⟨q, x, unserved, begun | interrupted⟩ :=
            around.interprets runtime here kind full stands shared.overflow
          · obtain ⟨r, calls, executed⟩ := executes.body x q begun
            exact begun.balances around shared lockable runtime.even contract link image
              (image.loaded _ entrance.loaded) unserved calls executed
          · exact interrupted.balances around shared lockable runtime.even contract unserved

/-- A native method of the reference runtime that locks its class, where nothing is thrown: the lock
is taken and released. -/
theorem native_sample_balances_monitors : ∃ blob, Interpreter.blob .reference .all = .ok blob ∧
    let s := Stage.sample blob ⟨0x128⟩ .nativeSynchronized 0
    s.Attended Stage.sampleSignature ∧ s.invocation.Lockable ∧ ∃ r y, s.invocation.Taken y ∧
      y.exit.isSome = true ∧ s.invocation.Settled Stage.code
        (s.environment Stage.sampleSignature 0 true) s.progress (s.binding Stage.sampleSignature) y
          r := by
  obtain ⟨blob, made, balances⟩ := synchronized_methods_balance_monitors Stage.reference_sound .all
  have attended : (Stage.sample blob ⟨0x128⟩ .nativeSynchronized 0).Attended
      Stage.sampleSignature := Stage.sample_attended made (by decide) (by decide) (by decide)
  have lockable : (Stage.sample blob ⟨0x128⟩ .nativeSynchronized 0).invocation.Lockable := by
    have static : (⟨0x128⟩ : AccessFlags).isStatic = true := by decide
    have target : ∀ m, (Stage.sample blob ⟨0x128⟩ .nativeSynchronized 0).invocation.lockTarget m =
        0x9000 := fun _ => if_pos static
    refine ⟨attended.suits, rfl, fun receiver => ?_, ?_⟩
    · exact absurd (static.symm.trans receiver) (by decide)
    · rw [target]
      decide
  have native : (Stage.sample blob ⟨0x128⟩ .nativeSynchronized 0).invocation.native = true := rfl
  obtain ⟨r, y, settled⟩ := balances _ (Stage.binding _ Stage.sampleSignature) Stage.codeBase _
    (Stage.environment _ Stage.sampleSignature 0 true) (Stage.progress _) rfl lockable rfl
    Stage.linked attended.entrance attended.runtime
    ⟨fun other => absurd (native.symm.trans other) (by decide), fun _ => attended.supplied,
      fun _ => attended.services⟩
    (attended.releases (by decide) (by decide) (.inl rfl)).exits
  have taken := attended.takes settled
  exact ⟨blob, made, attended, lockable, r, y, taken, settled.balanced.exit.mpr taken, settled⟩

end EntryCode
