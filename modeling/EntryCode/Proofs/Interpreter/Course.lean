import EntryCode.Proofs.Interpreter.Crossing

/-!
The course of an invocation: which routines it calls, in which order, and where it comes to. A call
that leaves an exception is the last one, but for the check after a native function, and the frame
is left from there.
-/

namespace EntryCode

open EntryCode.Frame Pinned Fragment Machine

namespace Invocation

/-- The routines that a method has called up to its exit or its first bytecode, each if it was
called. -/
structure Activity where
  overflow : Option Call := none
  profile : Option Call := none
  enter : Option Call := none
  prepare : Option Call := none
  native : Option Call := none
  special : Option Call := none

namespace Activity
variable (x : Activity)

def throwing : List Call :=
  x.overflow.toList ++ x.profile.toList ++ x.enter.toList ++ x.prepare.toList ++ x.native.toList

def last : Option Call :=
  x.special.or (x.native.or (x.prepare.or (x.enter.or (x.profile.or x.overflow))))

end Activity

section Contracts
variable (a : Invocation) (code : Dword → Prop) (x : Activity)

/-- What is noticed while the calls are made. -/
def trace : List Event :=
  made x.overflow ++ made x.profile ++ made x.enter ++ made x.prepare ++
    x.native.elim [] fun call => a.protocol call x.special

/-- What is noticed up to the fence after a native function has returned. -/
def opening (call : Call) : List Event :=
  made x.overflow ++ made x.profile ++ made x.enter ++ made x.prepare ++ a.fenced call

def raised : Dword := a.thrown x.last

/-- A routine of the runtime was called from the frame, with the thread as first argument. -/
def Invoked (callee : Callee) (call : Call) : Prop :=
  ∃ sp w, a.Made code callee sp w call

/-- The lock was asked for: the object is in the monitor. -/
structure Locking (call : Call) : Prop where
  invoked : a.Invoked code .monitorEnter call
  monitor : call.before.reg .a1 = a.fp + firstMonitor
  object : call.before.memory.load a.objectAddress 8 = a.lockTarget call.before

/-- The calls are those that the code makes. -/
structure Regular : Prop where
  overflow : ∀ call ∈ x.overflow, a.Invoked code .counterOverflow call
  profile : ∀ call ∈ x.profile, a.Invoked code .profileMethod call
  enter : ∀ call ∈ x.enter, a.Locking code call
  prepare : ∀ call ∈ x.prepare, a.Invoked code .prepareNativeCall call
  profiled : x.profile.isSome = true → a.cfg.profile = true
  locked : x.enter.isSome = true → a.synchronized = true
  stopped : x.native = none → x.special = none
  orderly : x.throwing.Pairwise fun call _ => a.thrown (some call) = 0

/-- The first bytecode is about to be executed. -/
structure Dispatched (w : Contents) (k : Machine) : Prop where
  template : k.pc = k.memory.load (a.cfg.dispatch.entry (k.memory.byte a.bytecode)) 8 &&& ~~~1
  framed : a.Framed a.sp w k
  method : k.reg Pinned.method = a.record
  table : k.reg dispatch = a.cfg.dispatch.base
  cleared : k.Zeroed

/-- The routines of the runtime follow the calling convention, and can be called. -/
structure Runtime {σ : Type} (env : Environment σ) (p : Progress σ) : Prop where
  even : ∀ callee, a.cfg.callees.address callee &&& 1 = 0
  overflow : env.Answers a.watches p (a.cfg.callees.address .counterOverflow) (a.Inside code)
    (a.Follows code nothing a.fixedFields)
  profile : env.Answers a.watches p (a.cfg.callees.address .profileMethod) (a.Inside code)
    (a.Follows code nothing a.fixedFields)
  enter : env.Answers a.watches p (a.cfg.callees.address .monitorEnter) (a.Inside code)
    (a.Enters code)

variable {σ : Type} (env : Environment σ) (p : Progress σ)

/-- An interpreted method has come to its first bytecode. -/
structure Begun (q : Progress σ) : Prop where
  goes : Goes env a.watches p (a.trace x) q
  regular : a.Regular code x
  calm : ∀ call ∈ x.throwing, a.thrown (some call) = 0
  locked : x.enter.isSome = a.synchronized
  dispatched : a.Dispatched ⟨a.cellAfter a.firstCell x.profile, 0, 0, a.lockedBy x.enter⟩ q.machine
  steady : Memory.Agree (a.Steady code) a.start.memory q.machine.memory

variable (c : Linked)

/-- The method goes on: no call has left an exception. -/
structure Underway (sp : Dword) (w : Contents) (rest : Program) (q : Progress σ) : Prop where
  goes : Goes env a.watches p (a.trace x) q
  regular : a.Regular code x
  calm : ∀ call ∈ x.throwing, a.thrown (some call) = 0
  ready : a.At c sp w rest q.machine

/-- The last call has left an exception, and the frame is about to be left with it. -/
structure Interrupted (away : Program) (q : Progress σ) : Prop where
  goes : Goes env a.watches p (a.trace x) q
  regular : a.Regular code x
  raised : a.raised x ≠ 0
  pending : pending a.cfg a.current q.machine.memory = a.raised x
  idle : a.Idle q.machine.memory
  leaving : ∃ sp, a.Below sp ∧ a.Leaving sp (a.lockedBy x.enter) q.machine
  stands : c.Stands q.machine away

variable (b : Binding) (kept : Dword → Prop)

/-- What a native method relies on: its handler is that of the library, known from the start or
found later, and what converts the result is a routine of the code. -/
structure Bridged (h : Linked) (e : Extensions) : Prop where
  native : a.native = true
  part : ∀ x, kept x → code x
  inside : ∀ x, c.InCode x → kept x
  handler : ∀ x, b.Covers x → code x
  known : a.method.signatureHandler ≠ 0 → a.method.nativeFunction ≠ 0 → a.Bound b a.start.memory
  declared : a.Declared b h
  handled : h.Quiet env
  even : c.Even
  converts : c.Has b.result (Exit.resultHandler e b.signature.result)
  aligned : b.result &&& 1 = 0

/-- The routines that only native methods call. -/
structure Services : Prop where
  even : b.function &&& 1 = 0
  prepare : env.Answers a.watches p (a.cfg.callees.address .prepareNativeCall) (a.Inside kept)
    (a.Prepares b kept)
  native : env.Answers a.watches p b.function (a.Inside code) (a.Serves code a.Arguments)
  special : env.Answers a.watches p (a.cfg.callees.address .checkSpecialCondition) (a.Inside code)
    (a.Serves code nothing)

/-- What the frame of a native method holds while the function runs. -/
def servedContents : Contents :=
  a.mirrorTemp ⟨a.firstCell, b.result, 0, a.lockedBy x.enter⟩

/-- A native function was called, and the frame is about to be left. -/
structure Served (away : Program) (call : Call) (q : Progress σ) : Prop where
  goes : Goes env a.watches p (a.trace x) q
  regular : a.Regular code x
  native : x.native = some call
  locked : x.enter.isSome = a.synchronized
  handled : ∃ s t w, Goes env a.watches p
      (made x.overflow ++ made x.profile ++ made x.enter ++ made x.prepare) s ∧
    a.Marshals b env w s t ∧ Goes env a.watches t (a.protocol call x.special) q
  entering : a.Entering code b (a.servedContents x b) call.before
  stopped : ∃ s, Goes env a.watches p (a.opening x call) s ∧
    a.Polls env call x.special s (made x.special ++ a.published .inJava true) q
  stopping : ∀ stop ∈ x.special, a.Stopping code (a.servedContents x b) call stop.before
  leaving : a.Leaving a.outgoing (a.lockedBy x.enter) q.machine
  stands : c.Stands q.machine (if a.raised x = 0 then Exit.removeActivation a.cfg else away)
  pending : pending a.cfg a.current q.machine.memory = a.raised x
  idle : a.Idle q.machine.memory
  state : a.InState .inJava q.machine.memory
  float : q.machine.freg .fa0 = call.after.freg .fa0
  result : a.raised x = 0 → q.machine.reg .a0 =
    Exit.converted q.machine.memory (call.after.reg .a0) b.signature.result
  memory : Memory.Agree (fun y => ¬a.Stash y ∧ ¬a.InThread y ∧
    ¬a.HandleTop (x.special.getD call).after.memory y) (x.special.getD call).after.memory
      q.machine.memory

end Contracts

variable {a : Invocation} {code : Dword → Prop} {c : Linked} {w : Contents} {m k : Machine}
  {x : Activity}

theorem orderly_snoc {calls : List Call} (last : Option Call)
    (calm : ∀ call ∈ calls, a.thrown (some call) = 0) :
    (calls ++ last.toList).Pairwise fun call _ => a.thrown (some call) = 0 := by
  rw [List.pairwise_append]
  refine ⟨?_, ?_, fun call member _ _ => calm call member⟩
  · exact List.Pairwise.imp_of_mem (fun member _ _ => calm _ member)
      (List.pairwise_of_forall (R := fun _ _ => True) fun _ _ => trivial)
  · cases last with
    | none => exact .nil
    | some call => exact List.pairwise_singleton _ _

theorem calm_of_thrown {called : Option Call} (calm : a.thrown called = 0) :
    ∀ call ∈ called.toList, a.thrown (some call) = 0 := by
  cases called with
  | none => exact List.forall_mem_nil _
  | some call => simpa using calm

theorem Made.mono {kept : Dword → Prop} {callee : Callee} {sp : Dword} {call : Call}
    (made : a.Made kept callee sp w call) (part : ∀ x, kept x → code x) :
    a.Made code callee sp w call :=
  ⟨made.routine, made.thread, made.framed, part _ made.inside.back, made.inside.fp,
    made.inside.thread, made.inside.under⟩

theorem regular_none : a.Regular code {} :=
  ⟨nofun, nofun, nofun, nofun, nofun, nofun, fun _ => rfl, .nil⟩

theorem thrown_some {called : Option Call} (thrown : a.thrown called ≠ 0) :
    ∃ call, called = some call := by
  cases called with
  | none => exact (thrown rfl).elim
  | some call => exact ⟨call, rfl⟩

end Invocation

theorem Fragment.interpreted_eq (a : Invocation) (e : Extensions) :
    let spot := (Routine.entry (if a.synchronized then .normalSynchronized else .normal)).label
    Entry.interpreted a.cfg e a.synchronized = a.clearLocals e spot ++
      (fixedFrame a.cfg false a.synchronized (spot .noProfile) ++
        ((if a.cfg.counts then countInvocation a.cfg (spot .overflow) (spot .counted) else []) ++
          .bind (spot .proceed) ::
            (((if a.cfg.profile then
                profileMethod a.cfg (spot .profiled) (spot .profileDone) (spot .null) else []) ++
              ((if a.synchronized then lockMethod a.cfg (spot .lockObject) (spot .locked) else []) ++
                dispatchFirst a.cfg e)) ++
              if a.cfg.useCompiler then
                counterOverflow a.cfg (spot .overflow) (spot .proceed) (spot .overflowDone)
              else []))) := by
  simp only [Entry.interpreted, Invocation.clearLocals, zeroWords, List.flatten_cons,
    List.flatten_nil, List.append_assoc, List.cons_append, List.nil_append, List.append_nil]

namespace Invocation

variable {a : Invocation} {code : Dword → Prop} {c : Linked} {w : Contents} {sp : Dword}
  {x : Activity} {rest away : Program} {σ : Type} {env : Environment σ} {p q r : Progress σ}

theorem At.interrupted (below : a.Below sp) (ready : a.At c sp w away r.machine)
    (goes : Goes env a.watches p (a.trace x) r) (regular : a.Regular code x)
    (raised : a.raised x ≠ 0) (idle : a.Idle r.machine.memory)
    (held : a.raised x = pending a.cfg a.current r.machine.memory)
    (object : w.object = a.lockedBy x.enter) : a.Interrupted code x env p c away r :=
  ⟨goes, regular, raised, held.symm, idle, ⟨sp, below, object ▸ ready.framed.leaving⟩,
    ready.stands⟩

section Stages
variable {overflow profile enter prepare : Option Call} (around : a.Around code c env away)
  (runtime : a.Runtime code env p) (below : a.Below sp)
include around runtime below

theorem Underway.counts {counter proceed done counted : Label} {body : Program}
    (empty : w.object = 0)
    (underway : a.Underway code {} env p c sp w
      ((if a.cfg.counts then countInvocation a.cfg counter counted else []) ++ .bind proceed ::
        (body ++ if a.cfg.useCompiler then counterOverflow a.cfg counter proceed done else []))
        q) :
    ∃ r overflow, Memory.Agree (a.Steady code) q.machine.memory r.machine.memory ∧
      (a.Underway code { overflow } env p c sp w
        (body ++ if a.cfg.useCompiler then counterOverflow a.cfg counter proceed done else []) r ∨
        a.Interrupted code { overflow } env p c away r) := by
  obtain ⟨r, overflow, goes, ready, counted, steady⟩ :=
    underway.ready.counts around underway.goes below.2 runtime.overflow (runtime.even _)
  have goes : Goes env a.watches p (a.trace { overflow }) r := by
    simpa [trace, Invocation.made] using goes
  have regular : a.Regular code { overflow } := by
    refine ⟨fun call member => ⟨_, _, (counted call member).1⟩, unmade, unmade, unmade, by simp, by simp,
      fun _ => rfl, ?_⟩
    cases overflow <;> simp [Activity.throwing]
  refine ⟨r, overflow, steady, ?_⟩
  by_cases calm : a.thrown overflow = 0
  · rw [if_pos calm] at ready
    refine .inl ⟨goes, regular, ?_, ready⟩
    simpa [Activity.throwing] using calm_of_thrown calm
  · obtain ⟨call, rfl⟩ := thrown_some calm
    obtain ⟨-, -, idle, held⟩ := counted call rfl
    rw [if_neg calm] at ready
    exact .inr (ready.interrupted below goes regular calm idle held empty)

theorem Underway.profiles {profiled done null : Label} (empty : w.object = 0)
    (underway : a.Underway code { overflow } env p c sp w
      ((if a.cfg.profile then profileMethod a.cfg profiled done null else []) ++ rest) q) :
    ∃ r profile, Memory.Agree (a.Steady code) q.machine.memory r.machine.memory ∧
      (a.Underway code { overflow, profile } env p c sp
        { w with cell := a.cellAfter w.cell profile } rest r ∨
        a.Interrupted code { overflow, profile } env p c away r) := by
  obtain ⟨r, profile, goes, ready, profiled, asked, steady⟩ :=
    underway.ready.profiles around underway.goes below.2 runtime.profile (runtime.even _)
  have earlier : ∀ call ∈ overflow.toList, a.thrown (some call) = 0 := by
    simpa [Activity.throwing] using underway.calm
  have goes : Goes env a.watches p (a.trace { overflow, profile }) r := by
    simpa [trace, Invocation.made] using goes
  have regular : a.Regular code { overflow, profile } := by
    refine ⟨underway.regular.overflow, fun call member => ⟨_, _, (asked call member).1⟩, unmade,
      unmade, profiled, by simp, fun _ => rfl, ?_⟩
    simpa [Activity.throwing] using orderly_snoc _ earlier
  refine ⟨r, profile, steady, ?_⟩
  by_cases calm : a.thrown profile = 0
  · rw [if_pos calm] at ready
    refine .inl ⟨goes, regular, ?_, ready⟩
    simpa [Activity.throwing] using
      List.forall_mem_append.mpr ⟨earlier, calm_of_thrown calm⟩
  · obtain ⟨call, rfl⟩ := thrown_some calm
    obtain ⟨-, idle, held⟩ := asked call rfl
    rw [if_neg calm] at ready
    exact .inr (ready.interrupted below goes regular calm idle held empty)

theorem Underway.locks {lockObject locked : Label} (empty : w.object = 0)
    (underway : a.Underway code { overflow, profile } env p c sp w
      ((if a.synchronized then lockMethod a.cfg lockObject locked else []) ++ rest) q) :
    ∃ r enter, enter.isSome = a.synchronized ∧
      Memory.Agree (a.Steady code) q.machine.memory r.machine.memory ∧
      (a.Underway code { overflow, profile, enter } env p c sp
          { w with object := a.lockedBy enter } rest r ∨
        a.Interrupted code { overflow, profile, enter } env p c away r) := by
  obtain ⟨r, enter, goes, ready, locked, asked, steady⟩ :=
    underway.ready.locks around underway.goes below.2 runtime.enter (runtime.even _) empty
  have earlier : ∀ call ∈ overflow.toList ++ profile.toList, a.thrown (some call) = 0 := by
    simpa [Activity.throwing] using underway.calm
  have goes : Goes env a.watches p (a.trace { overflow, profile, enter }) r := by
    simpa [trace, Invocation.made] using goes
  have regular : a.Regular code { overflow, profile, enter } := by
    refine ⟨underway.regular.overflow, underway.regular.profile, fun call member => ?_, unmade,
      underway.regular.profiled, fun some => locked ▸ some, fun _ => rfl, ?_⟩
    · obtain ⟨made, argument, -⟩ := asked call member
      refine ⟨⟨_, _, made⟩, argument, made.framed.object ?_⟩
      rw [← locked, Option.isSome_iff_exists]
      exact ⟨call, member⟩
    · simpa [Activity.throwing] using orderly_snoc _ earlier
  refine ⟨r, enter, locked, steady, ?_⟩
  by_cases calm : a.thrown enter = 0
  · rw [if_pos calm] at ready
    refine .inl ⟨goes, regular, ?_, ready⟩
    simpa [Activity.throwing] using
      List.forall_mem_append.mpr ⟨earlier, calm_of_thrown calm⟩
  · obtain ⟨call, rfl⟩ := thrown_some calm
    obtain ⟨-, -, idle, held⟩ := asked call rfl
    rw [if_neg calm] at ready
    have same : a.raised { overflow, profile, enter := some call } = a.thrown (some call) := rfl
    rw [← same] at held calm
    refine .inr (ready.interrupted below goes regular calm idle held ?_)
    dsimp only

end Stages

section Interpreted
variable {e : Extensions} {guard : Program}

theorem Around.opens (around : a.Around code c env away) (here : p.machine = a.start)
    (interpreted : a.native = false) (fits : a.overflows = false) {spot : Spot → Label} {l : Label}
    (stands : c.Stands a.start (a.clearLocals e spot ++
      (fixedFrame a.cfg false a.synchronized l ++ rest)))
    (there : c.Has (c.target (Routine.throwStackOverflow.label .start)) guard) :
    ∃ q, a.Underway code {} env p c a.sp (firstContents a.firstCell) rest q ∧
      Memory.Agree (a.Steady code) a.start.memory q.machine.memory := by
  obtain ⟨k, ⟨first, stands⟩, -, cleared⟩ :=
    around.housed.sited.clears_locals e interpreted stands there
  rw [fits, if_neg (by decide), ← interpreted] at stands
  obtain ⟨k', ⟨second, stands⟩, opened⟩ := around.housed.builds_frame (cleared fits) stands
  obtain ⟨q, goes, rfl⟩ := around.leads (.done p) (here ▸ first.trans second)
  refine ⟨q, ⟨goes, regular_none, List.forall_mem_nil _, stands, opened.framed, opened.method⟩, ?_⟩
  exact opened.outside.mono fun x steady owned =>
    around.housed.entered.stack_steady x owned steady

theorem At.dispatches (around : a.Around code c env away) {events : List Event}
    (goes : Goes env a.watches p events q)
    (ready : a.At c a.sp w (dispatchFirst a.cfg e ++ rest) q.machine) :
    ∃ r, Goes env a.watches p events r ∧ a.Dispatched w r.machine ∧
      r.machine.memory = q.machine.memory := by
  obtain ⟨f, s, laid⟩ := a.placed around.housed.entered.counted around.housed.entered.aligned
  obtain ⟨k, leads, there, keeps, memory, table⟩ := dispatch_first_runs a.cfg e ready.stands
  rw [template, ready.framed.at_bytecode, ← memory] at there
  obtain ⟨r, goes, rfl⟩ := around.leads goes leads
  refine ⟨r, goes, ⟨there, ?_, (keeps.registers _ (by decide)).trans ready.method, table,
    (keeps.registers .zero (by decide)).trans ready.stands.cleared⟩, memory⟩
  exact ready.framed.kept laid keeps (by decide) (by rw [memory]; exact .refl _ _)
    (by rw [memory]; exact .refl _ _)

/-- An interpreted method comes to its first bytecode, unless a routine throws on the way. -/
theorem Around.interprets (around : a.Around code c env away) (runtime : a.Runtime code env p)
    (here : p.machine = a.start) (interpreted : a.native = false) (fits : a.overflows = false)
    (stands : c.Stands a.start (Entry.interpreted a.cfg e a.synchronized))
    (there : c.Has (c.target (Routine.throwStackOverflow.label .start)) guard) :
    ∃ r x, x.native = none ∧
      (a.Begun code x env p r ∨ a.Interrupted code x env p c away r) := by
  obtain ⟨f, s, laid⟩ := a.placed around.housed.entered.counted around.housed.entered.aligned
  have below := laid.below_sp
  rw [interpreted_eq] at stands
  obtain ⟨q, underway, steady⟩ := around.opens here interpreted fits stands there
  obtain ⟨q₁, overflow, steady₁, underway | interrupted⟩ :=
    underway.counts around runtime below rfl
  swap
  · exact ⟨q₁, _, rfl, .inr interrupted⟩
  rw [List.append_assoc] at underway
  obtain ⟨q₂, profile, steady₂, underway | interrupted⟩ :=
    underway.profiles around runtime below rfl
  swap
  · exact ⟨q₂, _, rfl, .inr interrupted⟩
  rw [List.append_assoc] at underway
  obtain ⟨q₃, enter, locked, steady₃, underway | interrupted⟩ :=
    underway.locks around runtime below rfl
  swap
  · exact ⟨q₃, _, rfl, .inr interrupted⟩
  obtain ⟨r, goes, dispatched, memory⟩ := underway.ready.dispatches around underway.goes
  have steady := ((steady.trans steady₁).trans steady₂).trans steady₃
  rw [← memory] at steady
  exact ⟨r, _, rfl, .inl ⟨goes, underway.regular, underway.calm, locked, dispatched, steady⟩⟩

end Interpreted

section Native
variable {b : Binding} {kept : Dword → Prop} {h : Linked} {e : Extensions}
  {overflow enter prepare : Option Call} (around : a.Around code c env away)
  (runtime : a.Runtime code env p) (bridged : a.Bridged code env c b kept h e)
  (services : a.Services code env p b kept)
include around runtime bridged services

omit runtime services in
theorem Around.opens_native (here : p.machine = a.start) {l : Label}
    (stands : c.Stands a.start (findLocals a.cfg e ++
      (.andi .sp stack (-BitVec.ofNat 64 stackAlignment) ::
        (fixedFrame a.cfg true a.synchronized l ++ rest)))) :
    ∃ q, a.Underway code {} env p c a.sp (firstContents a.firstCell) rest q ∧
      Memory.Agree (a.Steady code) a.start.memory q.machine.memory := by
  obtain ⟨k, ⟨first, stands⟩, cleared⟩ :=
    around.housed.entered.sized.native_cleared e bridged.native stands
  rw [← bridged.native] at stands
  obtain ⟨k', ⟨second, stands⟩, opened⟩ := around.housed.builds_frame cleared stands
  obtain ⟨q, goes, rfl⟩ := around.leads (.done p) (here ▸ first.trans second)
  refine ⟨q, ⟨goes, regular_none, List.forall_mem_nil _, stands, opened.framed, opened.method⟩, ?_⟩
  exact opened.outside.mono fun x steady owned =>
    around.housed.entered.stack_steady x owned steady

theorem Underway.resolves {spot : Spot → Label} (object : w.object = a.lockedBy enter)
    (steady : Memory.Agree (a.Steady code) a.start.memory q.machine.memory)
    (underway : a.Underway code { overflow, enter } env p c a.sp w
      (outgoingArea a.cfg ++ (resolve a.cfg spot ++ rest)) q) :
    ∃ r prepare, (a.Underway code { overflow, enter, prepare } env p c a.outgoing w rest r ∧
        a.Bound b r.machine.memory) ∨
      a.Interrupted code { overflow, enter, prepare } env p c away r := by
  obtain ⟨f, s, laid⟩ := a.placed around.housed.entered.counted around.housed.entered.aligned
  obtain ⟨q₁, goes, ready, memory⟩ :=
    underway.ready.makes_room around underway.goes bridged.native steady
  rw [← memory] at steady
  obtain ⟨r, prepare, goes, ready, -, asked, bound⟩ := ready.resolves around goes bridged.native
    services.prepare (runtime.even _) bridged.part bridged.inside bridged.handler bridged.known
    steady
  have earlier : ∀ call ∈ overflow.toList ++ enter.toList, a.thrown (some call) = 0 := by
    simpa [Activity.throwing] using underway.calm
  have goes : Goes env a.watches p (a.trace { overflow, enter, prepare }) r := by
    simpa [trace, Invocation.made] using goes
  have regular : a.Regular code { overflow, enter, prepare } := by
    refine ⟨underway.regular.overflow, unmade, underway.regular.enter, fun call member => ?_, by simp,
      underway.regular.locked, fun _ => rfl, ?_⟩
    · exact ⟨_, _, (asked call member).1.mono bridged.part⟩
    · simpa [Activity.throwing] using orderly_snoc _ earlier
  refine ⟨r, prepare, ?_⟩
  by_cases calm : a.thrown prepare = 0
  · rw [if_pos calm] at ready
    refine .inl ⟨⟨goes, regular, ?_, ready⟩, bound calm⟩
    simpa [Activity.throwing] using
      List.forall_mem_append.mpr ⟨earlier, calm_of_thrown calm⟩
  · obtain ⟨call, rfl⟩ := thrown_some calm
    obtain ⟨-, -, idle, held⟩ := asked call rfl
    rw [if_neg calm] at ready
    exact .inr (ready.interrupted (laid.below_outgoing bridged.native) goes regular calm idle held
      object)

theorem Underway.serves {spot : Spot → Label} {l : Label} (shared : a.Shared c)
    (contents : w = ⟨a.firstCell, 0, 0, a.lockedBy enter⟩)
    (locked : enter.isSome = a.synchronized) (bound : a.Bound b q.machine.memory)
    (underway : a.Underway code { overflow, enter, prepare } env p c a.outgoing w
      (callHandler a.cfg ++ (keepHandler ++ (passMirror a.cfg spot ++ (approach a.cfg ++
        (publishState a.cfg .inNative true ++ (.callRegister .t1 :: (comeBack a.cfg spot ++
          (checkPending a.cfg l ++ (finish ++ rest))))))))) q) :
    ∃ r call special, a.Served code { overflow, enter, prepare, native := some call, special }
      env p c b away call r := by
  have native := bridged.native
  have entered := around.housed.entered
  obtain ⟨f, d, laid⟩ := a.placed entered.counted entered.aligned
  obtain ⟨s, t, q₁, first, marshals, second, ready, arrived, agree⟩ := underway.ready.marshals around
    underway.goes native bridged.declared bridged.handler bridged.handled bridged.even bound
  -- What the handler may store to is not watched.
  have aside : ∀ x, a.watches x = true → a.strays x = true := by
    intro x seen
    rw [watches, decide_eq_true_eq] at seen
    refine decide_eq_true fun inside => ?_
    exact entered.stack_thread x (laid.arguments_owned native x inside) ⟨.state, by decide, seen⟩
  have reached := first.trans (marshals.goes.unseen aside rfl)
  have known : q₁.machine.memory.load (a.record + a.cfg.method.offset .nativeFunction) 8 =
      b.function := by
    rw [← bound.function]
    exact agree.load (by decide) fun x covered owned =>
      entered.stack_record x owned ⟨.nativeFunction, by decide, covered⟩
  obtain ⟨q₂, q₃, call, special, third, polls, stands, entering, crossed, stopping⟩ :=
    ready.crosses around second native bridged.declared arrived known
      (services.native.since reached) services.even (services.special.since reached)
      (runtime.even _)
  have contents : a.mirrorTemp { w with result := b.result } = a.servedContents
      { overflow, enter, prepare, native := some call, special } b := by
    rw [contents, servedContents]
  rw [contents] at entering crossed stopping
  have handler : (a.servedContents { overflow, enter, prepare, native := some call, special }
      b).result = b.result := by
    rw [servedContents, mirrorTemp]
    split <;> rfl
  have object : (a.servedContents { overflow, enter, prepare, native := some call, special }
      b).object = a.lockedBy enter := by
    rw [servedContents, mirrorTemp]
    split <;> rfl
  obtain ⟨r, last, leaving, stands, memory, float, result⟩ := crossed.framed.finishes around
    (.done q₃) shared bridged.even bridged.converts bridged.aligned handler stands
  have raised : a.raised { overflow, enter, prepare, native := some call, special } =
      a.thrown (some (special.getD call)) := by
    cases special <;> rfl
  rw [crossed.pending, ← raised] at stands result
  rw [object] at leaving
  have earlier : ∀ call ∈ overflow.toList ++ enter.toList ++ prepare.toList,
      a.thrown (some call) = 0 := by
    simpa [Activity.throwing] using underway.calm
  have regular := underway.regular
  have polls := polls.onward last
  rw [List.append_nil] at polls
  rw [List.nil_append] at third
  have whole := third.trans polls.goes
  rw [← protocol_eq] at whole
  refine ⟨r, call, special, ?_, ?_, rfl, locked, ?_, entering, ⟨q₂, ?_, polls⟩, stopping, leaving,
    stands, ?_, ?_, ?_, float.trans crossed.float, ?_, ?_⟩
  · simpa [trace] using reached.trans whole
  · refine ⟨regular.overflow, unmade, regular.enter, regular.prepare, by simp, regular.locked, by simp,
      ?_⟩
    simpa [Activity.throwing] using orderly_snoc (some call) earlier
  · exact ⟨s, t, _, by simpa [trace, Invocation.made] using first, marshals, whole⟩
  · simpa [opening, trace] using reached.trans third
  · rw [memory, crossed.pending, raised]
  · rw [memory]
    exact crossed.idle
  · rw [memory]
    exact crossed.state
  · intro calm
    rw [result calm, memory, crossed.result]
  · rw [memory]
    exact crossed.memory

/-- A native method comes to its exit, with the function called unless a routine throws before. -/
theorem Around.calls_native (shared : a.Shared c) (here : p.machine = a.start)
    (stands : c.Stands a.start (Entry.native a.cfg e a.synchronized)) :
    ∃ r x, (∃ call, a.Served code x env p c b away call r) ∨
      x.native = none ∧ a.Interrupted code x env p c away r := by
  obtain ⟨f, s, laid⟩ := a.placed around.housed.entered.counted around.housed.entered.aligned
  have below := laid.below_sp
  rw [native_eq] at stands
  obtain ⟨q, underway, steady⟩ := around.opens_native bridged here stands
  obtain ⟨q₁, overflow, later, underway | interrupted⟩ := underway.counts around runtime below rfl
  swap
  · exact ⟨q₁, _, .inr ⟨rfl, interrupted⟩⟩
  have steady := steady.trans later
  rw [List.append_assoc] at underway
  obtain ⟨q₂, enter, locked, later, underway | interrupted⟩ :=
    underway.locks around runtime below rfl
  swap
  · exact ⟨q₂, _, .inr ⟨rfl, interrupted⟩⟩
  simp only [crossing, List.append_assoc, List.cons_append] at underway
  obtain ⟨q₃, prepare, ⟨underway, bound⟩ | interrupted⟩ :=
    underway.resolves around runtime bridged services (by dsimp only) (steady.trans later)
  swap
  · exact ⟨q₃, _, .inr ⟨rfl, interrupted⟩⟩
  obtain ⟨r, call, special, served⟩ :=
    underway.serves around runtime bridged services shared rfl locked bound
  exact ⟨r, _, .inl ⟨call, served⟩⟩

end Native

end Invocation

end EntryCode
