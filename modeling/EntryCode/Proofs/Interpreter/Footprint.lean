import EntryCode.Proofs.Interpreter.Course

/-!
What an entry stores to, whatever it calls. The routines that are called from a frame may change
everything but the code and the registers that the calling convention saves. Even so, an entry that
has passed the check of the stack only stores to the stack that was granted, to the anchor of its
thread and to the counter of its method.
-/

namespace EntryCode

open EntryCode.Frame Pinned Fragment Machine

instance (cfg : Config) (thread : Dword) : DecidablePred (anchor cfg thread) :=
  fun x => inferInstanceAs (Decidable (∃ f ∈ [ThreadField.lastSp, .lastFp, .lastPc],
    Memory.Covers (thread + cfg.thread.offset f) 8 x))

namespace Invocation

/-- The routines that an interpreted entry calls from its frame. -/
def callouts : List Callee :=
  [.counterOverflow, .profileMethod, .monitorEnter]

section Contracts
variable (a : Invocation) (code : Dword → Prop)

instance (f : MethodField) : DecidablePred (a.Field f) :=
  fun x => inferInstanceAs (Decidable (Memory.Covers (a.record + a.cfg.method.offset f) f.width x))

instance : DecidablePred a.Granted :=
  fun x => inferInstanceAs
    (Decidable (Memory.Covers (a.lastParameter - BitVec.ofNat 64 a.asked) a.asked x))

def Stored (x : Dword) : Prop :=
  a.Granted x ∨ anchor a.cfg a.current x ∨ a.Field .invocationCounter x

instance : DecidablePred a.Stored :=
  fun x => inferInstanceAs
    (Decidable (a.Granted x ∨ anchor a.cfg a.current x ∨ a.Field .invocationCounter x))

def elsewhere (x : Dword) : Bool := ¬a.Stored x

/-- The registers are those of the new frame. -/
structure Based (m : Machine) : Prop where
  fp : m.reg .fp = a.fp
  sp : m.reg .sp = a.sp
  thread : m.reg thread = a.current

/-- A routine is called from the new frame. -/
structure Outward (callee : Callee) (m : Machine) : Prop extends a.Based m where
  routine : m.pc = a.cfg.callees.address callee
  back : code (m.reg .ra)

variable {σ : Type} (env : Environment σ) (p : Progress σ)

/-- The routines follow the calling convention and leave the code alone; nothing else is known of
them. -/
structure Conventional : Prop where
  even : ∀ callee, a.cfg.callees.address callee &&& 1 = 0
  returns : ∀ callee ∈ callouts, env.Answers a.elsewhere p (a.cfg.callees.address callee)
    (a.Outward code callee) (Returned code)

variable (c : Linked)

/-- Code that notices its stores elsewhere, and an environment that leaves it to the machine. -/
structure Footing : Prop where
  sited : a.Sited c
  inside : ∀ x, c.InCode x → code x
  quiet : c.Quiet env
  watched : c.watched = a.elsewhere
  anchor_free : ∀ x, anchor a.cfg a.current x → ¬c.Covers x
  counter_free : ∀ x, a.Field .invocationCounter x → ¬c.Covers x
  away : c.Has (c.target (Routine.removeActivationException.label .start))
    Exit.removeActivationException

/-- A run in the new frame, with the calls that it has made and the program that comes next. -/
structure Along (rest : Program) (calls : List Call) (q : Progress σ) : Prop where
  goes : Goes env a.elsewhere p (calls.map .call) q
  outward : ∀ call ∈ calls, ∃ callee ∈ callouts, a.Outward code callee call.before
  based : a.Based q.machine
  stands : c.Stands q.machine rest

/-- A routine has left an exception, and the frame is about to be removed. -/
structure Broken (calls : List Call) (q : Progress σ) : Prop extends
    a.Along code env p c Exit.removeActivationException calls q where
  raised : pending a.cfg a.current q.machine.memory ≠ 0

/-- Control has come to the template of a bytecode, with the new frame in the registers. -/
structure Started (q : Progress σ) : Prop extends a.Based q.machine where
  there : q.machine.pc = template a.cfg q.machine &&& ~~~1

/-- A run comes to a program, unless a routine leaves an exception on the way. -/
def Continues (rest : Program) : Prop :=
  ∃ q calls, a.Along code env p c rest calls q ∨ a.Broken code env p c calls q

end Contracts

variable {a : Invocation} {code : Dword → Prop} {c : Linked} {m k : Machine} {rest : Program}
  {σ : Type} {env : Environment σ} {p q : Progress σ} {past : List Call}

theorem Based.kept {rs : List Register} (based : a.Based m) (keeps : Keeps rs m k)
    (apart : ∀ r ∈ [Register.fp, .sp, Pinned.thread], ∀ t ∈ rs, r.code ≠ t.code) : a.Based k where
  fp := (keeps.registers _ (apart _ (by decide))).trans based.fp
  sp := (keeps.registers _ (apart _ (by decide))).trans based.sp
  thread := (keeps.registers _ (apart _ (by decide))).trans based.thread

theorem Based.returned {kept : Dword → Prop} (based : a.Based m) (returned : Returned kept m k) :
    a.Based k where
  fp := (returned.saved _ (by decide)).trans based.fp
  sp := (returned.saved _ (by decide)).trans based.sp
  thread := (returned.saved _ (by decide)).trans based.thread

theorem Along.continues (along : a.Along code env p c rest past q) :
    a.Continues code env p c rest :=
  ⟨q, past, .inl along⟩

theorem Continues.andThen {more : Program} (continues : a.Continues code env p c rest)
    (next : ∀ q calls, a.Along code env p c rest calls q → a.Continues code env p c more) :
    a.Continues code env p c more := by
  obtain ⟨q, calls, along | broken⟩ := continues
  · exact next q calls along
  · exact ⟨q, calls, .inr broken⟩

section Footing
variable (footing : a.Footing code env c)
include footing

theorem Footing.leads {events : List Event} (goes : Goes env a.elsewhere p events q)
    (leads : c.Leads q.machine k) : ∃ r, Goes env a.elsewhere p events r ∧ r.machine = k :=
  goes.leads footing.quiet (fun _ seen => footing.watched ▸ seen) leads

theorem Footing.word_free {off : Dword}
    (inside : (off - firstMonitor).toNat + wordSize ≤ fixedSize + monitorSize) (x : Dword)
    (covered : Memory.Covers (a.fp + off) 8 x) : ¬c.Covers x := by
  obtain ⟨f, s, laid⟩ := a.placed footing.sited.counted footing.sited.aligned
  exact footing.sited.free x (laid.frame_granted x (frame_area_word inside x covered))

/-- A piece of code that leaves the registers of the frame alone. -/
theorem Along.moves {prog : Program} {rs : List Register}
    (along : a.Along code env p c prog past q) (comes : c.Comes q.machine k rest)
    (keeps : Keeps rs q.machine k)
    (apart : ∀ r ∈ [Register.fp, .sp, Pinned.thread], ∀ t ∈ rs, r.code ≠ t.code) :
    ∃ r, r.machine = k ∧ a.Along code env p c rest past r := by
  obtain ⟨leads, stands⟩ := comes
  obtain ⟨r, goes, rfl⟩ := footing.leads along.goes leads
  exact ⟨r, rfl, goes, along.outward, along.based.kept keeps apart, stands⟩

/-- A routine is called, and the run goes on unless it leaves an exception. -/
theorem Along.calls {callee : Callee} {what : String} {l : Label}
    (conventional : a.Conventional code env p) (listed : callee ∈ callouts)
    (along : a.Along code env p c (callRuntime a.cfg callee what l ++ rest) past q) :
    a.Continues code env p c rest := by
  have anchor_free : ∀ m, a.Based m → ∀ x, anchor a.cfg (m.reg Pinned.thread) x → ¬c.Covers x := by
    intro m based
    rw [based.thread]
    exact footing.anchor_free
  obtain ⟨before, leads, back, routine, keeps, -, here, -⟩ := call_runtime_leads a.cfg callee
    along.stands (conventional.even _)
    (by
      rw [along.based.fp]
      exact footing.word_free (by decide))
    (anchor_free _ along.based)
  obtain ⟨r₁, goes, rfl⟩ := footing.leads along.goes leads
  have outward : a.Outward code callee r₁.machine :=
    ⟨along.based.kept keeps (by decide), routine, footing.inside _ (Linked.has_in_code back)⟩
  have zeroed := (keeps.registers .zero (by decide)).trans along.stands.cleared
  obtain ⟨r₂, goes, returned⟩ := goes.answered (conventional.returns callee listed) routine outward
  have based := outward.toBased.returned returned
  -- Of memory only the code is known to be as it was; it is enough to go on.
  have stands : c.Stands r₂.machine (afterCall a.cfg ++ (checkPending a.cfg l ++ rest)) := by
    refine ⟨returned.cleared zeroed, ?_, ?_⟩
    · exact here.congr fun x covered => returned.memory x (footing.inside x covered)
    · rw [returned.back]
      exact back
  obtain ⟨k, ⟨first, stands⟩, keeps, -⟩ :=
    after_call_reaches a.cfg stands (anchor_free _ based)
  have based := based.kept keeps (by decide)
  obtain ⟨k', ⟨second, stands⟩, keeps', memory⟩ := check_pending_runs a.cfg stands footing.away
  obtain ⟨r, goes, rfl⟩ := footing.leads goes (first.trans second)
  have based' := based.kept keeps' (by decide)
  rw [based.thread, ← memory] at stands
  rw [← List.map_singleton, ← List.map_append] at goes
  have made : ∀ call ∈ past ++ [⟨r₁.machine, r₂.machine⟩],
      ∃ callee ∈ callouts, a.Outward code callee call.before := by
    intro call member
    rcases List.mem_append.mp member with earlier | last
    · exact along.outward call earlier
    · obtain rfl := List.mem_singleton.mp last
      exact ⟨callee, listed, outward⟩
  refine ⟨r, past ++ [⟨r₁.machine, r₂.machine⟩], ?_⟩
  -- Whether the routine has left an exception is read from the thread and decides the branch.
  by_cases calm : pending a.cfg a.current r.machine.memory = 0
  · rw [if_pos calm] at stands
    exact .inl ⟨goes, made, based', stands⟩
  · rw [if_neg calm] at stands
    exact .inr ⟨⟨goes, made, based', stands⟩, calm⟩

theorem Along.counts {overflow proceed done counted : Label} {body : Program}
    (conventional : a.Conventional code env p)
    (along : a.Along code env p c
      ((if a.cfg.counts then countInvocation a.cfg overflow counted else []) ++ .bind proceed ::
        (body ++ if a.cfg.useCompiler then counterOverflow a.cfg overflow proceed done else []))
      past q)
    (method : q.machine.reg Pinned.method = a.record) :
    a.Continues code env p c
      (body ++ if a.cfg.useCompiler then counterOverflow a.cfg overflow proceed done else []) := by
  obtain ⟨-, next, placed⟩ := Linked.has_append along.stands.placed
  obtain ⟨target, after⟩ := Linked.has_bind.mp placed
  cases counts : a.cfg.counts with
  | false =>
      rw [counts] at along
      obtain ⟨r, -, along⟩ := along.moves footing
        ⟨.refl _, (Linked.Stands.bind along.stands).2⟩ (.refl [] _) (by decide)
      exact along.continues
  | true =>
      rw [counts] at along
      obtain ⟨k, comes, keeps, -⟩ := count_invocation_runs a.cfg _
        along.stands (counter_overflow_placed a.cfg after)
        (by
          rw [method]
          exact footing.counter_free)
      obtain ⟨r, rfl, along⟩ := along.moves footing comes keeps (by decide)
      split at along
      · obtain ⟨r₁, -, along⟩ := along.moves footing (along.stands.immediate (by simp))
          (((Keeps.refl [.a1] _).put (r := .a1) (by decide) _).goto _) (by decide)
        refine (along.calls footing conventional (by decide)).andThen fun q' calls' along => ?_
        -- The call lies after the body, and jumps back to it.
        obtain ⟨r₂, -, along⟩ := along.moves footing (along.stands.jump (target ▸ after))
          ((Keeps.refl [] _).goto _) (by decide)
        exact along.continues
      · obtain ⟨r₁, -, along⟩ := along.moves footing
          ⟨.refl _, (Linked.Stands.bind along.stands).2⟩ (.refl [] _) (by decide)
        exact along.continues

theorem Along.profiles {profiled done null : Label} (conventional : a.Conventional code env p)
    (along : a.Along code env p c
      ((if a.cfg.profile then profileMethod a.cfg profiled done null else []) ++ rest) past q) :
    a.Continues code env p c rest := by
  cases on : a.cfg.profile with
  | false =>
      rw [on] at along
      exact along.continues
  | true =>
      rw [on] at along
      obtain ⟨k, comes, keeps, -⟩ := profile_method_runs a.cfg along.stands
      obtain ⟨r, -, along⟩ := along.moves footing comes keeps (by decide)
      split at along
      · rw [askForData, List.append_assoc] at along
        refine (along.calls footing conventional (by decide)).andThen fun q' calls' along => ?_
        obtain ⟨k, ⟨leads, stands⟩, keeps, -⟩ := set_profile_cell_runs a.cfg along.stands (by
          rw [along.based.fp]
          exact footing.word_free (by decide))
        obtain ⟨r, -, along⟩ := along.moves footing ⟨leads, stands.bind.2⟩ keeps (by decide)
        exact along.continues
      · exact along.continues

theorem Along.locks {lockObject locked : Label} (conventional : a.Conventional code env p)
    (along : a.Along code env p c
      ((if a.synchronized then lockMethod a.cfg lockObject locked else []) ++ rest) past q) :
    a.Continues code env p c rest := by
  cases on : a.synchronized with
  | false =>
      rw [on] at along
      exact along.continues
  | true =>
      rw [on] at along
      obtain ⟨k, comes, keeps, -, -⟩ := lock_method_runs a.cfg along.stands (by
        rw [along.based.fp]
        exact footing.word_free (by decide))
      obtain ⟨r, -, along⟩ := along.moves footing comes keeps (by decide)
      exact along.calls footing conventional (by decide)

theorem Along.starts {e : Extensions}
    (along : a.Along code env p c (dispatchFirst a.cfg e ++ rest) past q) :
    ∃ r, Goes env a.elsewhere p (past.map .call) r ∧ a.Started r := by
  obtain ⟨k, leads, there, keeps, memory, -⟩ := dispatch_first_runs a.cfg e along.stands
  have same : template a.cfg k = template a.cfg q.machine := by
    rw [template, template, memory, keeps.registers _ (by decide)]
  obtain ⟨r, goes, rfl⟩ := footing.leads along.goes leads
  exact ⟨r, goes, along.based.kept keeps (by decide), by rw [same, there]⟩

/-- The frame of an interpreted method is pushed where there is room for it. -/
theorem Footing.opens {e : Extensions} {spot : Spot → Label} {l : Label} {guard : Program}
    (here : p.machine = a.start) (interpreted : a.native = false) (fits : a.overflows = false)
    (stands : c.Stands a.start (a.clearLocals e spot ++
      (fixedFrame a.cfg false a.synchronized l ++ rest)))
    (there : c.Has (c.target (Routine.throwStackOverflow.label .start)) guard) :
    ∃ q, a.Along code env p c rest [] q ∧ q.machine.reg Pinned.method = a.record := by
  obtain ⟨k, ⟨first, stands⟩, -, cleared⟩ :=
    footing.sited.clears_locals e interpreted stands there
  have cleared := cleared fits
  rw [fits, if_neg (by decide), ← interpreted] at stands
  obtain ⟨k', fill, fp, -, -, sp⟩ := footing.sited.pushes_frame cleared stands
  obtain ⟨second, stands⟩ := fill.comes
  obtain ⟨q, goes, rfl⟩ := footing.leads (.done p) (here ▸ first.trans second)
  have kept : ∀ r ∈ [Pinned.thread, Pinned.method], q.machine.reg r = a.start.reg r := by
    intro r member
    rw [fill.keeps.registers r (by revert r; decide),
      cleared.keeps.registers r (by revert r; decide)]
  exact ⟨q, ⟨goes, List.forall_mem_nil _, ⟨fp, sp, kept _ (by decide)⟩, stands⟩, kept _ (by decide)⟩

/-- With room for its frame an interpreted method comes to its first bytecode, unless a routine
leaves an exception on the way. -/
theorem Footing.starts {e : Extensions} {guard : Program} (conventional : a.Conventional code env p)
    (here : p.machine = a.start) (interpreted : a.native = false) (fits : a.overflows = false)
    (stands : c.Stands a.start (Entry.interpreted a.cfg e a.synchronized))
    (there : c.Has (c.target (Routine.throwStackOverflow.label .start)) guard) :
    ∃ r calls, Goes env a.elsewhere p (calls.map .call) r ∧
      (∀ call ∈ calls, ∃ callee ∈ callouts, a.Outward code callee call.before) ∧
      (a.Started r ∨ a.Broken code env p c calls r) := by
  rw [interpreted_eq] at stands
  obtain ⟨q, along, method⟩ := footing.opens here interpreted fits stands there
  have continues := along.counts footing conventional method
  rw [List.append_assoc] at continues
  obtain ⟨q, calls, along | broken⟩ := (continues.andThen fun _ _ along =>
    along.profiles footing conventional).andThen fun _ _ along => by
      rw [List.append_assoc] at along
      exact along.locks footing conventional
  · obtain ⟨r, goes, started⟩ := along.starts footing
    exact ⟨r, calls, goes, along.outward, .inl started⟩
  · exact ⟨q, calls, broken.goes, broken.outward, .inr broken⟩

end Footing

end Invocation

end EntryCode
