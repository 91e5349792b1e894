import EntryCode.Proofs.Interpreter.Course

/-!
How methods end. Whatever was called before, a frame is left by one of its two exits: the lock is
released if it was taken, and control goes back to the caller or, with the exception that was left,
to the dispatch of exceptions.
-/

namespace EntryCode

open EntryCode.Frame Pinned Fragment Machine

namespace Invocation

section Contracts
variable (a : Invocation)

/-- The fields of a thread that a routine leaves alone which neither walks the stack nor throws. -/
def leafFields : List ThreadField :=
  [.pendingException, .lastSp, .lastFp, .lastPc]

/-- Control is back with the caller, or at the dispatch of its exceptions. -/
def Gone (k : Machine) : Prop :=
  k.pc = a.start.reg .ra ∧ a.Restored k ∨ ∃ e, e ≠ 0 ∧ a.Unwound e k

/-- The frame of `m` has been left with an exception, if there still was one. -/
structure Forwarded (fields : List ThreadField) (m k : Machine) : Prop where
  ends : (∃ e, e ≠ 0 ∧ a.Unwound e k) ∨ k.advance = .error .breakpoint
  known : .pendingException ∈ fields → pending a.cfg a.current m.memory ≠ 0 →
    a.Unwound (pending a.cfg a.current m.memory) k
  words : Memory.Agree (fun x => a.Words fields x ∧ ¬a.ThreadWord .pendingException x) m.memory
    k.memory
  free : a.synchronized = true → k.memory.load a.objectAddress 8 = 0

variable (code : Dword → Prop) {σ : Type} (env : Environment σ) (p : Progress σ)

/-- The routine that releases the lock can be called from the frame of the method. -/
structure Releases (fields : List ThreadField) : Prop where
  suits : a.method.flags.isSynchronized = a.synchronized
  exits : env.Answers a.watches p (a.cfg.callees.address .monitorExit) (a.Inside code)
    (a.Exits code fields)

def Calm : Prop :=
  ∀ events q call, Goes env a.watches p events q → .call call ∈ events → a.thrown (some call) = 0

/-- The routine that stops a thread does not touch an exception. -/
def Calms : Prop :=
  env.Answers a.watches p (a.cfg.callees.address .checkSpecialCondition) (a.Inside code)
    fun m k => pending a.cfg a.current k.memory = pending a.cfg a.current m.memory

/-- The fields of a thread that say where it is. -/
def stateFields : List ThreadField :=
  [.state, .lastSp, .lastFp, .lastPc]

/-- The native function leaves the state of its thread and the published frame alone. -/
def Discreet (b : Binding) : Prop :=
  env.Answers a.watches p b.function (a.Inside code) fun m k =>
    Memory.Agree (a.Words stateFields) m.memory k.memory

end Contracts

variable {a : Invocation} {code : Dword → Prop} {c : Linked} {x : Activity} {object : Dword}
  {m : Machine} {σ : Type} {env : Environment σ} {p q : Progress σ} {events : List Event}
  {fields : List ThreadField}

/-- The last call that may throw is the last one, unless a thread was stopped. -/
theorem Activity.last_throwing (x : Activity) (unstopped : x.special = none) :
    x.throwing.getLast? = x.last := by
  have single : ∀ o : Option Call, o.toList.getLast? = o := by
    intro o
    cases o <;> rfl
  simp only [throwing, last, List.getLast?_append, single, unstopped, Option.none_or]

theorem last_noticed (regular : a.Regular code x) {call : Call} (last : x.last = some call) :
    .call call ∈ a.trace x := by
  have native : x.special = some call → x.native ≠ none := fun stopped none => by
    rw [regular.stopped none] at stopped
    cases stopped
  simp only [Activity.last, Option.or_eq_some_iff] at last
  rcases last with found | ⟨-, found | ⟨-, found | ⟨-, found | ⟨-, found | ⟨-, found⟩⟩⟩⟩⟩
  · obtain ⟨served, some⟩ := Option.ne_none_iff_exists'.mp (native found)
    simp [trace, protocol, made, found, some]
  all_goals simp [trace, protocol, made, found]

theorem throwing_noticed (a : Invocation) {call : Call} (member : call ∈ x.throwing) :
    .call call ∈ a.trace x := by
  simp only [Activity.throwing, List.mem_append, Option.mem_toList] at member
  rcases member with (((found | found) | found) | found) | found
  all_goals simp [trace, protocol, made, found]

/-- Where no call leaves an exception, none is left at the end. -/
theorem Calm.unraised (calm : a.Calm env p) (regular : a.Regular code x)
    (goes : Goes env a.watches p events q) (noticed : ∀ e ∈ a.trace x, e ∈ events) :
    a.raised x = 0 := by
  by_contra raised
  obtain ⟨call, last⟩ := thrown_some raised
  rw [Invocation.raised, last] at raised
  exact raised (calm _ _ call goes (noticed _ (last_noticed regular last)))

/-- The frame is not left early then. -/
theorem Calm.not_interrupted {away : Program} (calm : a.Calm env p) :
    ¬a.Interrupted code x env p c away q :=
  fun interrupted => interrupted.raised
    (calm.unraised interrupted.regular interrupted.goes fun _ => id)

theorem idle_of_words (entered : a.Entered code) {mem other : Memory} (idle : a.Idle mem)
    (listed : ∀ f ∈ [ThreadField.lastSp, .lastFp, .lastPc], f ∈ fields)
    (same : Memory.Agree (fun x => a.Words fields x ∧ ¬a.ThreadWord .pendingException x) mem
      other) : a.Idle other := by
  refine same.holds idle fun v member y covered => ?_
  have anchored := anchor_words_inside v member y covered
  refine ⟨?_, fun word => entered.anchor_apart (by decide) (by decide) y word anchored⟩
  obtain ⟨f, anchored, covered⟩ := anchored
  have wide : ∀ f ∈ [ThreadField.lastSp, .lastFp, .lastPc], f.width = 8 := by decide
  refine ⟨f, listed f anchored, ?_⟩
  rw [ThreadWord, wide f anchored]
  exact covered

/-- The exception that is pending is handed to the dispatch of the caller. -/
theorem Left.forwards (around : a.Around code c env Exit.removeActivationException)
    (even : a.cfg.callees.address .exceptionDispatch &&& 1 = 0)
    (left : a.Left fields m q.machine) (goes : Goes env a.watches p events q)
    (stands : c.Stands q.machine (Exit.forwardException a.cfg)) :
    ∃ r, Goes env a.watches p events r ∧ a.Forwarded fields m r.machine := by
  have entered := around.housed.entered
  obtain ⟨f, s, laid⟩ := a.placed entered.counted entered.aligned
  have same : .pendingException ∈ fields →
      pending a.cfg a.current q.machine.memory = pending a.cfg a.current m.memory := fun kept =>
    left.words.load (by decide) fun y word => ⟨.pendingException, kept, word⟩
  by_cases present : pending a.cfg a.current q.machine.memory = 0
  · rw [← List.append_nil (Exit.forwardException a.cfg)] at stands
    obtain ⟨k, leads, breaks, memory⟩ :=
      Exit.forward_exception_breaks a.cfg stands (by rwa [left.thread])
    obtain ⟨r, goes, rfl⟩ := around.leads goes leads
    refine ⟨r, goes, .inr breaks, fun kept some => (some ((same kept).symm.trans present)).elim,
      ?_, ?_⟩
    all_goals rw [memory]
    · exact left.words.mono fun y word => word.1
    · exact left.free
  · obtain ⟨k, leads, unwound, memory⟩ := left.toRestored.forwards stands present even
      (around.housed.word_free (by decide) (by decide))
    have agree := a.dropped_agree q.machine.memory
    rw [← memory] at agree
    obtain ⟨r, goes, rfl⟩ := around.leads goes leads
    refine ⟨r, goes, .inl ⟨_, present, unwound⟩, fun kept _ => same kept ▸ unwound, ?_,
      fun locked => ?_⟩
    · exact (left.words.mono fun y word => word.1).trans (agree.mono fun y word => word.2)
    · rw [agree.load (by decide), left.free locked]
      intro y covered word
      have owned := laid.frame_owned y (frame_area_word (by decide) y covered)
      exact entered.stack_thread y owned ⟨.pendingException, by decide, word⟩

section Exits
variable (around : a.Around code c env Exit.removeActivationException) (shared : a.Shared c)
  (suits : a.method.flags.isSynchronized = a.synchronized)
  (even : ∀ callee, a.cfg.callees.address callee &&& 1 = 0)
  (contract : env.Answers a.watches p (a.cfg.callees.address .monitorExit) (a.Inside code)
    (a.Exits code fields))
  (listed : ∀ f ∈ fields, f ∈ ThreadField.inRecord)
include around shared suits even contract listed

theorem Leaving.forwards {sp : Dword} (leaving : a.Leaving sp object q.machine) (below : a.Below sp)
    (goes : Goes env a.watches p events q)
    (stands : c.Stands q.machine Exit.removeActivationException) :
    ∃ r exit, Goes env a.watches p (events ++ made exit) r ∧ a.Unlocked code object exit ∧
      a.Forwarded fields q.machine r.machine := by
  obtain ⟨q₁, exit, goes, stands, left, unlocked⟩ := leaving.withdraws around goes shared
    suits contract (even _) listed below stands
  obtain ⟨r, goes, forwarded⟩ := left.forwards around (even _) goes stands
  exact ⟨r, exit, goes, unlocked, forwarded⟩

theorem Interrupted.departs
    (interrupted : a.Interrupted code x env p c Exit.removeActivationException q) :
    ∃ r exit, Goes env a.watches p (a.trace x ++ made exit) r ∧
      a.Unlocked code (a.lockedBy x.enter) exit ∧ a.Forwarded fields q.machine r.machine := by
  obtain ⟨sp, below, leaving⟩ := interrupted.leaving
  exact leaving.forwards around shared suits even contract listed below interrupted.goes
    interrupted.stands

theorem Served.exits {b : Binding} {call : Call} (native : a.native = true)
    (link : a.start.reg .ra &&& 1 = 0)
    (served : a.Served code x env p c b Exit.removeActivationException call q) :
    ∃ r exit, Goes env a.watches q (made exit) r ∧
      a.Unlocked code (a.lockedBy x.enter) exit ∧
      (a.raised x = 0 ∧ r.machine.pc = a.start.reg .ra ∧ a.Left fields q.machine r.machine ∨
        a.raised x ≠ 0 ∧ a.Forwarded fields q.machine r.machine) := by
  have entered := around.housed.entered
  obtain ⟨f, s, laid⟩ := a.placed entered.counted entered.aligned
  have below := laid.below_outgoing native
  have stands := served.stands
  have contract := contract.since served.goes
  by_cases calm : a.raised x = 0
  · rw [if_pos calm] at stands
    obtain ⟨r, exit, goes, there, left, unlocked⟩ := served.leaving.returns around (.done q)
      shared suits contract (even _) listed below stands link
    exact ⟨r, exit, goes, unlocked, .inl ⟨calm, there, left⟩⟩
  · rw [if_neg calm] at stands
    obtain ⟨r, exit, goes, unlocked, forwarded⟩ := served.leaving.forwards around shared suits even
      contract listed below (.done q) stands
    exact ⟨r, exit, goes, unlocked, .inr ⟨calm, forwarded⟩⟩

theorem Served.departs {b : Binding} {call : Call} (native : a.native = true)
    (link : a.start.reg .ra &&& 1 = 0)
    (served : a.Served code x env p c b Exit.removeActivationException call q) :
    ∃ r exit, Goes env a.watches p (a.trace x ++ made exit) r ∧
      a.Unlocked code (a.lockedBy x.enter) exit ∧
      (a.raised x = 0 ∧ r.machine.pc = a.start.reg .ra ∧ a.Left fields q.machine r.machine ∨
        a.raised x ≠ 0 ∧ a.Forwarded fields q.machine r.machine) := by
  obtain ⟨r, exit, goes, unlocked, ended⟩ :=
    served.exits around shared suits even contract listed native link
  exact ⟨r, exit, served.goes.trans goes, unlocked, ended⟩

end Exits

/-- Where the stack is too small, an entry goes to the routine that throws. -/
theorem Sized.overflows {e : Extensions} (sized : a.Sized) (interpreted : a.native = false)
    (full : a.overflows = true) (shared : a.Shared c)
    (stands : c.Stands a.start (Entry.interpreted a.cfg e a.synchronized)) :
    ∃ k, c.Comes a.start k (Exit.throwStackOverflow a.cfg) ∧
      Keeps [.t0, .t1, .t2, locals] a.start k ∧ k.memory = a.start.memory := by
  rw [interpreted_eq] at stands
  obtain ⟨k, ⟨leads, stands⟩, keeps, memory, -, -⟩ :=
    sized.checks_stack e interpreted stands shared.overflow
  rw [full, if_pos rfl] at stands
  exact ⟨k, ⟨leads, stands⟩, keeps, memory⟩

section Frameless
variable {callee : Callee} {e : Extensions} (bare : a.Bare code c) (quiet : c.Quiet env)
  (shared : a.Shared c) (here : p.machine = a.start)
  (even : ∀ callee, a.cfg.callees.address callee &&& 1 = 0)
include bare quiet shared here even

theorem Bare.overflows (recorded : a.Recorded) (interpreted : a.native = false)
    (full : a.overflows = true)
    (stands : c.Stands a.start (Entry.interpreted a.cfg e a.synchronized))
    (contract : env.Answers a.watches p (a.cfg.callees.address .throwStackOverflow)
      (a.Thrower code .throwStackOverflow) (a.Throws code)) :
    ∃ r call, Goes env a.watches p [.call call] r ∧
      a.Thrower code .throwStackOverflow call.before ∧
      (pending a.cfg a.current call.after.memory ≠ 0 →
        a.Unwound (pending a.cfg a.current call.after.memory) r.machine) := by
  obtain ⟨k, ⟨leads, stands⟩, keeps, -⟩ := recorded.sized.overflows interpreted full shared stands
  rw [Exit.throw_stack_overflow_eq] at stands
  obtain ⟨q, goes, rfl⟩ := bare.leads quiet (.done p) (here ▸ leads)
  exact bare.throws quiet shared goes stands.bind.2 rfl rfl rfl
    (fun r member => keeps.registers r (by revert r; decide)) contract (even _) (even _)

theorem Bare.abstains (stands : c.Stands a.start (Entry.abstract a.cfg))
    (contract : env.Answers a.watches p (a.cfg.callees.address .throwAbstractMethod)
      (a.Thrower code .throwAbstractMethod) (a.Throws code)) :
    ∃ r call, Goes env a.watches p [.call call] r ∧
      a.Thrower code .throwAbstractMethod call.before ∧
      (pending a.cfg a.current call.after.memory ≠ 0 →
        a.Unwound (pending a.cfg a.current call.after.memory) r.machine) := by
  have same : Entry.abstract a.cfg = Exit.throwBare a.cfg .throwAbstractMethod
      "throw_AbstractMethodError" [.mv .a1 Pinned.method] := rfl
  rw [same, ← here] at stands
  exact bare.throws quiet shared (.done p) stands rfl rfl rfl (fun r _ => by rw [here]) contract
    (even _) (even _)

end Frameless

end Invocation

end EntryCode
