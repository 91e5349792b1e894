import EntryCode.Proofs.Interpreter.Activation
import EntryCode.Proofs.Interpreter.Exit

/-!
How a frame is left. The lock is released if it is held, the registers of the caller come back from
the frame, and control returns to the caller or, with an exception, goes to its dispatch.
-/

namespace EntryCode

open EntryCode.Frame Pinned Fragment Machine

namespace Invocation

section Contracts
variable (a : Invocation) (code : Dword → Prop)

def savedSlots : List (Slot × Dword) :=
  [(.returnAddress, a.start.reg .ra), (.savedFp, a.start.reg .fp),
   (.senderSp, a.start.reg senderSp), (.method, a.record)]

/-- What an exit relies on. -/
structure Leaving (sp object : Dword) (m : Machine) : Prop where
  fp : m.reg .fp = a.fp
  thread : m.reg thread = a.current
  sp : m.reg .sp = sp
  frame : ∀ v ∈ a.savedSlots, m.memory.load (a.fp + slot v.1) 8 = v.2
  object : a.synchronized = true → m.memory.load a.objectAddress 8 = object
  flags : Memory.Agree (a.Field .accessFlags) a.start.memory m.memory

def Words (fields : List ThreadField) (x : Dword) : Prop :=
  ∃ f ∈ fields, a.ThreadWord f x

/-- The routine that releases the lock may use the monitor. It neither walks the stack nor throws,
so it leaves some fields of the thread as they are. -/
def Exits (fields : List ThreadField) (m k : Machine) : Prop :=
  Returned (fun x => a.Kept code a.Monitor [] m x ∨ a.Words fields x) m k

/-- A call that releases the lock. -/
structure Released (object : Dword) (call : Call) : Prop where
  routine : call.before.pc = a.cfg.callees.address .monitorExit
  monitor : call.before.reg .a0 = a.fp + firstMonitor
  thread : call.before.reg .a1 = a.current
  inside : a.Inside code call.before
  held : call.before.memory.load a.objectAddress 8 = object

/-- The lock is released if, and only if, it is held. -/
structure Unlocked (object : Dword) (exit : Option Call) : Prop where
  calls : exit.isSome = (a.synchronized && decide (object ≠ 0))
  released : ∀ call ∈ exit, a.Released code object call

/-- Where the routines lie that others go to. -/
structure Shared (c : Linked) : Prop where
  forward : c.Has (c.target (Routine.forwardException.label .start)) (Exit.forwardException a.cfg)
  exceptional : c.Has (c.target (Routine.removeActivationException.label .start))
    Exit.removeActivationException
  removal : c.Has (c.target (Routine.removeActivation.label .start)) (Exit.removeActivation a.cfg)
  overflow : c.Has (c.target (Routine.throwStackOverflow.label .start))
    (Exit.throwStackOverflow a.cfg)

/-- The registers of the caller are back. -/
structure Restored (k : Machine) : Prop where
  sp : k.reg .sp = a.start.reg senderSp
  fp : k.reg .fp = a.start.reg .fp
  ra : k.reg .ra = a.start.reg .ra
  thread : k.reg thread = a.current

/-- The frame of `m` has been popped. -/
structure Left (fields : List ThreadField) (m k : Machine) : Prop extends a.Restored k where
  result : k.reg .a0 = m.reg .a0
  float : k.freg .fa0 = m.freg .fa0
  words : Memory.Agree (a.Words fields) m.memory k.memory
  free : a.synchronized = true → k.memory.load a.objectAddress 8 = 0

/-- The exception has been handed to the dispatch of the caller. -/
structure Unwound (e : Dword) (m : Machine) : Prop where
  dispatched : m.pc = a.cfg.callees.address .exceptionDispatch
  exception : m.reg .a0 = e
  raised : m.reg .a1 = a.start.reg .ra
  sp : m.reg .sp = a.start.reg senderSp
  fp : m.reg .fp = a.start.reg .fp
  clear : pending a.cfg a.current m.memory = 0

end Contracts

variable {a : Invocation} {code : Dword → Prop} {c : Linked} {f s : Nat} {sp object : Dword}
  {w : Contents} {m k : Machine} {fields : List ThreadField}

theorem Framed.leaving (framed : a.Framed sp w m) : a.Leaving sp w.object m := by
  refine ⟨framed.at_fp, framed.at_thread, framed.at_sp, fun v member => ?_, framed.object,
    framed.flags⟩
  refine framed.reads v.1 v.2 ?_
  revert v
  simp only [savedSlots, slots, List.forall_mem_cons]
  simp

theorem Leaving.kept {rs : List Register} (leaving : a.Leaving sp object m) (keeps : Keeps rs m k)
    (apart : ∀ r ∈ [Register.fp, Pinned.thread, .sp], ∀ t ∈ rs, r.code ≠ t.code)
    (memory : k.memory = m.memory) : a.Leaving sp object k := by
  have same : ∀ r ∈ [Register.fp, Pinned.thread, .sp], k.reg r = m.reg r :=
    fun r member => keeps.registers r (apart r member)
  refine ⟨(same _ (by decide)).trans leaving.fp, (same _ (by decide)).trans leaving.thread,
    (same _ (by decide)).trans leaving.sp, ?_, ?_, ?_⟩
  all_goals rw [memory]
  · exact leaving.frame
  · exact leaving.object
  · exact leaving.flags

theorem saved_in_slots (w : Contents) : ∀ v ∈ a.savedSlots, v ∈ a.slots w := by
  simp only [savedSlots, slots, List.forall_mem_cons]
  simp

section Stack
variable (laid : a.Placed f s)
include laid

theorem Placed.room_below (below : a.Below sp) (x : Dword)
    (covered : Memory.Covers (sp - BitVec.ofNat 64 Exit.roomSize) Exit.roomSize x) :
    (x - a.floor).toNat < f - a.fixed := by
  obtain ⟨room, under⟩ := below
  rw [Under, laid.top_distance] at under
  have size : (BitVec.ofNat 64 Exit.roomSize).toNat = 32 := rfl
  have length : Exit.roomSize = 32 := rfl
  have least : 32 ≤ (sp - a.floor).toNat := room
  rw [Memory.Covers, length] at covered
  generalize BitVec.ofNat 64 Exit.roomSize = d at *
  generalize a.floor = e at *
  bv_omega

theorem Placed.room_owned (below : a.Below sp) (x : Dword)
    (covered : Memory.Covers (sp - BitVec.ofNat 64 Exit.roomSize) Exit.roomSize x) :
    a.Owns x := by
  have inside := laid.room_below below x covered
  have bound := laid.below
  have size := a.need_eq
  rw [Owns, Memory.Covers, wordSize]
  omega

omit laid in
theorem room_under (below : a.Below sp) : a.Under (sp - BitVec.ofNat 64 Exit.roomSize) := by
  obtain ⟨room, under⟩ := below
  rw [Under] at under ⊢
  have size : (BitVec.ofNat 64 Exit.roomSize).toNat = 32 := rfl
  have least : 32 ≤ (sp - a.floor).toNat := room
  generalize BitVec.ofNat 64 Exit.roomSize = d at *
  generalize a.floor = e at *
  bv_omega

end Stack

/-- What an exit has saved is on the stack, and what it still needs is in the frame. -/
structure Stowed (a : Invocation) (fields : List ThreadField) (before : Dword) (m k : Machine) :
    Prop where
  fp : k.reg .fp = a.fp
  thread : k.reg thread = a.current
  sp : k.reg .sp = before - BitVec.ofNat 64 Exit.roomSize
  frame : ∀ v ∈ a.savedSlots, k.memory.load (a.fp + slot v.1) 8 = v.2
  saved : k.memory.Holds (before - BitVec.ofNat 64 Exit.roomSize) (Exit.savedWords m)
  words : Memory.Agree (a.Words fields) m.memory k.memory

theorem Stowed.kept {rs : List Register} {k' : Machine} (stowed : a.Stowed fields sp m k)
    (keeps : Keeps rs k k') (apart : ∀ r ∈ [Register.fp, Pinned.thread, .sp], ∀ t ∈ rs, r.code ≠ t.code)
    (memory : k'.memory = k.memory) : a.Stowed fields sp m k' := by
  have same : ∀ r ∈ [Register.fp, Pinned.thread, .sp], k'.reg r = k.reg r :=
    fun r member => keeps.registers r (apart r member)
  refine ⟨(same _ (by decide)).trans stowed.fp, (same _ (by decide)).trans stowed.thread,
    (same _ (by decide)).trans stowed.sp, ?_, ?_, ?_⟩
  all_goals rw [memory]
  · exact stowed.frame
  · exact stowed.saved
  · exact stowed.words

/-- What was saved stays as long as the stack does, but for the monitor. -/
theorem Stowed.congr (laid : a.Placed f s) {k' : Machine} (stowed : a.Stowed fields sp m k)
    (below : a.Below sp) (locked : a.synchronized = true)
    (registers : ∀ r ∈ [Register.fp, Pinned.thread, .sp], k'.reg r = k.reg r)
    (stack : Memory.Agree (fun x => Memory.Covers (sp - BitVec.ofNat 64 Exit.roomSize)
      (a.stackEnd - (sp - BitVec.ofNat 64 Exit.roomSize)).toNat x ∧ ¬a.Monitor x)
        k.memory k'.memory)
    (words : Memory.Agree (a.Words fields) k.memory k'.memory) : a.Stowed fields sp m k' := by
  have under := room_under below
  have high := under
  have fixed : a.fixed = 128 := by rw [fixed, if_pos locked]; rfl
  have close := laid.close
  have bound := laid.below
  have size := a.need_eq
  rw [Under, laid.top_distance] at high
  refine ⟨(registers _ (by decide)).trans stowed.fp, (registers _ (by decide)).trans stowed.thread,
    (registers _ (by decide)).trans stowed.sp, fun v member => ?_, ?_, stowed.words.trans words⟩
  · rw [stack.load (by decide), stowed.frame v member]
    intro x covered
    have live := laid.slots_live v (saved_in_slots ⟨0, 0, 0, 0⟩ v member) x covered
    exact ⟨laid.stack_live under x live, live.2⟩
  · refine stack.holds stowed.saved fun v member x covered => ?_
    have room : Memory.Covers (sp - BitVec.ofNat 64 Exit.roomSize) Exit.roomSize x := by
      have offsets : ∀ v ∈ Exit.savedWords m, ∃ n, n + 8 ≤ Exit.roomSize ∧
          v.1 = BitVec.ofNat 64 n := by
        simp only [Exit.savedWords, List.forall_mem_cons]
        exact ⟨⟨16, by decide, rfl⟩, ⟨8, by decide, rfl⟩, ⟨0, by decide, rfl⟩, List.forall_mem_nil _⟩
      obtain ⟨n, short, place⟩ := offsets v member
      rw [place] at covered
      exact covered.within short (by decide)
    have low := laid.room_below below x room
    rw [laid.covers_stack under, laid.monitor]
    refine ⟨⟨?_, by omega⟩, by omega⟩
    have least : 32 ≤ (sp - a.floor).toNat := below.1
    have value : (BitVec.ofNat 64 Exit.roomSize).toNat = 32 := rfl
    have length : Exit.roomSize = 32 := rfl
    rw [Memory.Covers, length] at room
    generalize BitVec.ofNat 64 Exit.roomSize = d at *
    generalize a.floor = e at *
    bv_omega

theorem Left.since {k' : Machine} (left : a.Left fields k k') (keeps : Keeps [.t2] m k)
    (memory : k.memory = m.memory) : a.Left fields m k' := by
  refine ⟨left.toRestored, left.result.trans (keeps.registers _ (by decide)), ?_, ?_, left.free⟩
  · rw [left.float, freg, keeps.floats]
    rfl
  · rw [← memory]
    exact left.words

theorem Left.goto (left : a.Left fields m k) (pc : Dword) : a.Left fields m (k.goto pc) :=
  ⟨⟨left.sp, left.fp, left.ra, left.thread⟩, left.result, left.float, left.words, left.free⟩

section Runs
variable {σ : Type} {env : Environment σ} {p q : Progress σ} {events : List Event}
  {rest away : Program} (around : a.Around code c env away)
  (goes : Goes env a.watches p events q)
include around goes

theorem Leaving.saves (leaving : a.Leaving sp object q.machine) (below : a.Below sp)
    (stands : c.Stands q.machine (Exit.saveState ++ (Exit.testFlags a.cfg ++ rest)))
    (suits : a.method.flags.isSynchronized = a.synchronized)
    (listed : ∀ f ∈ fields, f ∈ ThreadField.inRecord) :
    ∃ r, Goes env a.watches p events r ∧ c.Stands r.machine rest ∧
      a.Stowed fields sp q.machine r.machine ∧
      (r.machine.reg .t0 = 0 ↔ a.synchronized = false) ∧
      (a.synchronized = true → r.machine.memory.load a.objectAddress 8 = object) := by
  have entered := around.housed.entered
  obtain ⟨f, s, laid⟩ := a.placed entered.counted entered.aligned
  obtain ⟨k, ⟨first, stands⟩, keeps, place, saved, agree⟩ := Exit.save_state_runs stands (by
    rw [leaving.sp]
    exact fun x covered => around.housed.stack_free x (laid.room_owned below x covered))
  rw [leaving.sp] at place saved agree
  obtain ⟨k', ⟨second, stands⟩, keeps', memory, bit⟩ := Exit.test_flags_runs a.cfg stands
  obtain ⟨r, goes, rfl⟩ := around.leads goes (first.trans second)
  have fp : k.reg .fp = a.fp := (keeps.registers _ (by decide)).trans leaving.fp
  -- The result goes below the frame: frame, record and thread hold what they held.
  have frame : ∀ v ∈ a.savedSlots, k.memory.load (a.fp + slot v.1) 8 = v.2 := by
    intro v member
    rw [agree.load (by decide), leaving.frame v member]
    intro x covered room
    have low := laid.room_below below x room
    have live := laid.slots_live v (saved_in_slots ⟨0, 0, 0, 0⟩ v member) x covered
    rw [laid.live] at live
    omega
  have flags : k.memory.load (a.record + a.cfg.method.offset .accessFlags) 4 =
      a.method.flags.bits.setWidth 64 := by
    have same : Memory.Agree (a.Field .accessFlags) a.start.memory k.memory :=
      leaving.flags.trans (agree.mono fun x field room =>
        entered.stack_record x (laid.room_owned below x room) ⟨_, by decide, field⟩)
    rw [show k.memory.load (a.record + a.cfg.method.offset .accessFlags) 4 = _ from
      same.load (by decide) fun x covered => covered]
    exact entered.record (.accessFlags, a.method.flags.bits.setWidth 64)
      (by simp [MethodField.contents])
  have words : Memory.Agree (a.Words fields) q.machine.memory k.memory := by
    refine agree.mono ?_
    rintro x ⟨f, member, word⟩ room
    exact entered.stack_thread x (laid.room_owned below x room) ⟨f, listed f member, word⟩
  have stowed : a.Stowed fields sp q.machine k :=
    ⟨fp, (keeps.registers _ (by decide)).trans leaving.thread, place, frame, saved, words⟩
  refine ⟨r, goes, stands, stowed.kept keeps' (by decide) memory, ?_, fun locked => ?_⟩
  · rw [bit, fp, frame (.method, a.record) (by simp [savedSlots]), flags, ← suits]
    exact a.method.flags.wide_none .synchronized
  · rw [memory, agree.load (by decide), leaving.object locked]
    intro x covered room
    have low := laid.room_below below x room
    have fixed : a.fixed = 128 := by rw [fixed, if_pos locked]; rfl
    rw [laid.object_covers] at covered
    have close := laid.close
    omega

theorem Stowed.releases {l : Label} (stowed : a.Stowed fields sp m q.machine)
    (below : a.Below sp) (stands : c.Stands q.machine (Exit.unlock a.cfg ++ .bind l :: rest))
    (locked : a.synchronized = true) (monitor : q.machine.reg .a0 = a.fp + firstMonitor)
    (contract : env.Answers a.watches p (a.cfg.callees.address .monitorExit) (a.Inside code)
      (a.Exits code fields))
    (even : a.cfg.callees.address .monitorExit &&& 1 = 0)
    (listed : ∀ f ∈ fields, f ∈ ThreadField.inRecord) :
    ∃ r call, Goes env a.watches p (events ++ [Event.call call]) r ∧ c.Stands r.machine rest ∧
      a.Stowed fields sp m r.machine ∧
      a.Released code (q.machine.memory.load a.objectAddress 8) call ∧
      r.machine.memory.load a.objectAddress 8 = 0 := by
  have entered := around.housed.entered
  obtain ⟨f, s, laid⟩ := a.placed entered.counted entered.aligned
  have owned : ∀ x, Memory.Covers a.objectAddress 8 x → a.Owns x :=
    fun x covered => laid.frame_owned x (frame_area_word (by decide) x covered)
  obtain ⟨before, leads, routine, keeps, thread, memory, back⟩ :=
    Exit.unlock_reaches a.cfg stands even
  have current := stowed.thread
  have stowed := stowed.kept keeps (by decide) memory
  obtain ⟨r₁, goes, rfl⟩ := around.leads goes leads
  have inside : a.Inside code r₁.machine := by
    refine ⟨around.housed.inside _ (Linked.has_in_code back), stowed.fp, stowed.thread, ?_⟩
    rw [stowed.sp]
    exact room_under below
  obtain ⟨r₂, goes, exits⟩ := goes.answered contract routine inside
  have listed_saved : ∀ r ∈ [Register.fp, Pinned.thread, .sp], r ∈ Register.saved := by decide
  have stack : Memory.Agree (fun x => Memory.Covers (sp - BitVec.ofNat 64 Exit.roomSize)
      (a.stackEnd - (sp - BitVec.ofNat 64 Exit.roomSize)).toNat x ∧ ¬a.Monitor x)
        r₁.machine.memory r₂.machine.memory := by
    have kept := exits.memory
    simp only [Kept, stowed.sp] at kept
    exact kept.mono fun x inside => .inl (.inr (.inl inside))
  have stowed := stowed.congr laid below locked
    (fun r member => exits.saved r (listed_saved r member)) stack
    (exits.memory.mono fun x word => .inr word)
  -- Back from the routine, the monitor is marked as free.
  have stood : c.Stands r₂.machine (.sd .zero .fp (firstMonitor + monitorObject) ::
      .bind l :: rest) := by
    refine ⟨exits.cleared ((keeps.registers .zero (by decide)).trans stands.cleared), ?_, ?_⟩
    · have here : c.InMemory r₁.machine.memory := by rw [memory]; exact stands.here
      exact here.congr fun x covered => exits.memory x (.inl (.inl (around.housed.inside x covered)))
    · rw [exits.back]
      exact back
  obtain ⟨leads, stands⟩ := stood.store (by
    rw [stowed.fp]
    exact fun x covered => around.housed.stack_free x (owned x covered))
  have zero : r₂.machine.reg .zero = 0 := reg_zero stood.cleared
  rw [stowed.fp, zero] at leads stands
  obtain ⟨r₃, goes, last⟩ := around.leads goes leads
  have stored : r₃.machine.memory = r₂.machine.memory.store a.objectAddress 8 0 := by
    rw [last]
    rfl
  have agree : Memory.Agree (fun x => ¬Memory.Covers a.objectAddress 8 x) r₂.machine.memory
      r₃.machine.memory := by
    rw [stored]
    exact Memory.agree_store _ _ _ (by decide)
  refine ⟨r₃, ⟨r₁.machine, r₂.machine⟩, goes, by rw [last]; exact stands.bind.2, ?_,
    ⟨routine, ?_, ?_, inside, ?_⟩, ?_⟩
  · refine stowed.congr laid below locked (fun r _ => by rw [last, reg_goto, reg_poke]) ?_ ?_
    · exact agree.mono fun x inside covered => inside.2 (laid.object_monitor x covered)
    · exact agree.mono fun x ⟨f, member, word⟩ covered =>
        entered.stack_thread x (owned x covered) ⟨f, listed f member, word⟩
  · exact (keeps.registers .a0 (by decide)).trans monitor
  · exact thread.trans current
  · rw [memory]
  · rw [stored]
    exact Memory.load_store_word _ _

theorem Stowed.unlocks {l : Label} (stowed : a.Stowed fields sp m q.machine)
    (below : a.Below sp) (stands : c.Stands q.machine (Exit.release a.cfg l ++ rest))
    (flagged : q.machine.reg .t0 = 0 ↔ a.synchronized = false)
    (held : a.synchronized = true → q.machine.memory.load a.objectAddress 8 = object)
    (contract : env.Answers a.watches p (a.cfg.callees.address .monitorExit) (a.Inside code)
      (a.Exits code fields))
    (even : a.cfg.callees.address .monitorExit &&& 1 = 0)
    (listed : ∀ f ∈ fields, f ∈ ThreadField.inRecord) :
    ∃ r, ∃ called : Option Call, Goes env a.watches p (events ++ made called) r ∧
      c.Stands r.machine rest ∧ a.Stowed fields sp m r.machine ∧ a.Unlocked code object called ∧
      (a.synchronized = true → r.machine.memory.load a.objectAddress 8 = 0) := by
  have object_held : Exit.heldObject q.machine = q.machine.memory.load a.objectAddress 8 := by
    rw [Exit.heldObject, stowed.fp]
    rfl
  obtain ⟨k, ⟨leads, stands⟩, keeps, memory, monitor⟩ := Exit.test_lock_runs a.cfg stands
  rw [stowed.fp] at monitor
  have stowed := stowed.kept keeps (by decide) memory
  obtain ⟨r, goes, rfl⟩ := around.leads goes leads
  by_cases locked : a.synchronized = true ∧ object ≠ 0
  · obtain ⟨on, some⟩ := locked
    have holds : ¬(q.machine.reg .t0 = 0 ∨ Exit.heldObject q.machine = 0) := by
      rw [object_held, held on, flagged, on]
      simpa using some
    rw [if_neg holds] at stands
    obtain ⟨r', call, goes, stands, stowed, released, free⟩ :=
      stowed.releases around goes below stands on (monitor holds) contract even listed
    rw [memory, held on] at released
    refine ⟨r', Option.some call, goes, stands, stowed, ⟨?_, ?_⟩, fun _ => free⟩
    · rw [on, decide_eq_true some]
      rfl
    · rintro _ ⟨⟩
      exact released
  · have none : a.synchronized = true → object = 0 := fun on =>
      not_not.mp fun some => locked ⟨on, some⟩
    have skips : q.machine.reg .t0 = 0 ∨ Exit.heldObject q.machine = 0 := by
      cases on : a.synchronized with
      | false => exact .inl (flagged.mpr on)
      | true => exact .inr (by rw [object_held, held on, none on])
    rw [if_pos skips] at stands
    refine ⟨r, .none, by simpa [made] using goes, stands, stowed, ⟨?_, unmade⟩, fun on => ?_⟩
    · cases on : a.synchronized with
      | false => rfl
      | true => simp [none on]
    · rw [memory, held on, none on]

theorem Stowed.pops {l : Label} {forward : Program} (stowed : a.Stowed fields sp m q.machine)
    (stands : c.Stands q.machine
      (Exit.restoreState ++ (Exit.popFrame ++ (Exit.depart l ++ rest))))
    (there : c.Has (c.target (Routine.forwardException.label .start)) forward)
    (free : a.synchronized = true → q.machine.memory.load a.objectAddress 8 = 0) :
    ∃ r, Goes env a.watches p events r ∧
      c.Stands r.machine (if m.reg .t2 = 0 then .ret :: rest else forward) ∧
      a.Left fields m r.machine := by
  have slots := stowed.frame
  simp only [savedSlots, List.forall_mem_cons] at slots
  obtain ⟨ra, fp, sender, -, -⟩ := slots
  have saved := stowed.saved
  simp only [Exit.savedWords, Memory.Holds, List.forall_mem_cons] at saved
  obtain ⟨flag, float, result, -⟩ := saved
  obtain ⟨k₁, ⟨first, stands⟩, memory₁, keeps₁, a0, fa0, t2⟩ := Exit.restore_state_runs stands
  obtain ⟨k₂, ⟨second, stands⟩, memory₂, keeps₂, back, stack, frame⟩ := Exit.pop_frame_runs stands
  obtain ⟨k₃, ⟨third, stands⟩, keeps₃, memory₃⟩ := Exit.depart_runs stands there
  rw [stowed.sp] at a0 fa0 t2
  rw [memory₁, keeps₁ .fp (by decide), stowed.fp] at back stack frame
  have memory : k₃.memory = q.machine.memory := memory₃.trans (memory₂.trans memory₁)
  have kept : ∀ r : Register, k₃.reg r = k₂.reg r := fun r => keeps₃.registers r (List.forall_mem_nil _)
  rw [keeps₂.registers .t2 (by decide), t2, flag] at stands
  obtain ⟨r, goes, rfl⟩ := around.leads goes ((first.trans second).trans third)
  refine ⟨r, goes, stands, ⟨?_, ?_, ?_, ?_⟩, ?_, ?_, ?_, ?_⟩
  · rw [kept, stack, sender]
  · rw [kept, frame, fp]
  · rw [kept, back, ra]
  · rw [kept, keeps₂.registers Pinned.thread (by decide), keeps₁ Pinned.thread (by decide),
      stowed.thread]
  · rw [kept, keeps₂.registers .a0 (by decide), a0, result]
  · rw [freg, keeps₃.floats, keeps₂.floats]
    exact fa0.trans float
  · rw [memory]
    exact stowed.words
  · rw [memory]
    exact free

theorem Leaving.leaves {forward : Program} (leaving : a.Leaving sp object q.machine)
    (below : a.Below sp) (stands : c.Stands q.machine (Exit.leave a.cfg))
    (there : c.Has (c.target (Routine.forwardException.label .start)) forward)
    (suits : a.method.flags.isSynchronized = a.synchronized)
    (contract : env.Answers a.watches p (a.cfg.callees.address .monitorExit) (a.Inside code)
      (a.Exits code fields))
    (even : a.cfg.callees.address .monitorExit &&& 1 = 0)
    (listed : ∀ f ∈ fields, f ∈ ThreadField.inRecord) :
    ∃ r, ∃ called : Option Call, Goes env a.watches p (events ++ made called) r ∧
      c.Stands r.machine (if q.machine.reg .t2 = 0 then [.ret] else forward) ∧
      a.Left fields q.machine r.machine ∧ a.Unlocked code object called := by
  obtain ⟨q₁, goes, stands, stowed, flagged, held⟩ :=
    leaving.saves around goes below stands suits listed
  obtain ⟨q₂, called, goes, stands, stowed, unlocked, free⟩ :=
    stowed.unlocks around goes below stands flagged held contract even listed
  rw [← List.append_nil (Exit.depart _)] at stands
  obtain ⟨r, goes, stands, left⟩ := stowed.pops around goes stands there free
  exact ⟨r, called, goes, stands, left, unlocked⟩

section Ways
variable (shared : a.Shared c) (suits : a.method.flags.isSynchronized = a.synchronized)
  (contract : env.Answers a.watches p (a.cfg.callees.address .monitorExit) (a.Inside code)
    (a.Exits code fields))
  (even : a.cfg.callees.address .monitorExit &&& 1 = 0)
  (listed : ∀ f ∈ fields, f ∈ ThreadField.inRecord)
include shared suits contract even listed

omit around goes suits contract even listed in
theorem Shared.common : c.Has (c.target (Routine.removeActivation.label .common))
    (Exit.leave a.cfg) := by
  have placed := shared.removal
  rw [Exit.remove_activation_eq] at placed
  obtain ⟨-, next, bound⟩ := Linked.has_append
    (p := [.bind (Routine.removeActivation.label .start), .constant .t2 0]) placed
  obtain ⟨target, there⟩ := Linked.has_bind.mp bound
  exact target ▸ there

theorem Leaving.returns (leaving : a.Leaving sp object q.machine) (below : a.Below sp)
    (stands : c.Stands q.machine (Exit.removeActivation a.cfg))
    (link : a.start.reg .ra &&& 1 = 0) :
    ∃ r, ∃ called : Option Call, Goes env a.watches p (events ++ made called) r ∧
      r.machine.pc = a.start.reg .ra ∧ a.Left fields q.machine r.machine ∧
      a.Unlocked code object called := by
  rw [Exit.remove_activation_eq] at stands
  obtain ⟨pc, leads, stands⟩ := Linked.Stands.constant (by decide) (Linked.Stands.bind stands).2
  have stands := stands.bind.2
  obtain ⟨q₁, goes, same⟩ := around.leads goes leads
  rw [← same] at stands
  have kept : Keeps [.t2] q.machine q₁.machine := by
    rw [same]
    exact ((Keeps.refl _ _).put (by decide) _).goto _
  have memory : q₁.machine.memory = q.machine.memory := by rw [same]; rfl
  have leaving := leaving.kept kept (by decide) memory
  obtain ⟨r, called, goes, stands, left, unlocked⟩ :=
    leaving.leaves around goes below stands shared.forward suits contract even listed
  have none : q₁.machine.reg .t2 = 0 := by
    rw [same, reg_goto, reg_put_self _ _ _ (by decide)]
  rw [if_pos none] at stands
  have leads := stands.ret (by rw [left.ra]; exact link)
  obtain ⟨r', goes, last⟩ := around.leads goes leads
  refine ⟨r', called, goes, by rw [last, pc_goto, left.ra], ?_, unlocked⟩
  rw [last]
  exact (left.since kept memory).goto _

theorem Leaving.withdraws (leaving : a.Leaving sp object q.machine) (below : a.Below sp)
    (stands : c.Stands q.machine Exit.removeActivationException) :
    ∃ r, ∃ called : Option Call, Goes env a.watches p (events ++ made called) r ∧
      c.Stands r.machine (Exit.forwardException a.cfg) ∧ a.Left fields q.machine r.machine ∧
      a.Unlocked code object called := by
  obtain ⟨pc, first, stands⟩ := Linked.Stands.constant (by decide) (Linked.Stands.bind stands).2
  obtain ⟨second, stands⟩ := stands.jump shared.common
  obtain ⟨q₁, goes, same⟩ := around.leads goes (first.trans second)
  rw [← same] at stands
  have kept : Keeps [.t2] q.machine q₁.machine := by
    rw [same]
    exact (((Keeps.refl _ _).put (by decide) _).goto _).goto _
  have memory : q₁.machine.memory = q.machine.memory := by rw [same]; rfl
  have leaving := leaving.kept kept (by decide) memory
  obtain ⟨r, called, goes, stands, left, unlocked⟩ :=
    leaving.leaves around goes below stands shared.forward suits contract even listed
  have some : q₁.machine.reg .t2 ≠ 0 := by
    rw [same, reg_goto, reg_goto, reg_put_self _ _ _ (by decide)]
    decide
  rw [if_neg some] at stands
  exact ⟨r, called, goes, stands, left.since kept memory, unlocked⟩

end Ways

end Runs

/-- The memory once the pending exception was taken from the thread. -/
def dropped (a : Invocation) (mem : Memory) : Memory :=
  mem.store (a.current + a.cfg.thread.offset .pendingException) 8 0

theorem dropped_agree (a : Invocation) (mem : Memory) :
    Memory.Agree (fun x => ¬a.ThreadWord .pendingException x) mem (a.dropped mem) :=
  Memory.agree_store _ _ _ (by decide)

theorem Restored.forwards (restored : a.Restored m)
    (stands : c.Stands m (Exit.forwardException a.cfg))
    (present : pending a.cfg a.current m.memory ≠ 0)
    (even : a.cfg.callees.address .exceptionDispatch &&& 1 = 0)
    (clear : ∀ x, a.ThreadWord .pendingException x → ¬c.Covers x) :
    ∃ k, c.Leads m k ∧ a.Unwound (pending a.cfg a.current m.memory) k ∧
      k.memory = a.dropped m.memory := by
  rw [← List.append_nil (Exit.forwardException a.cfg)] at stands
  obtain ⟨k, leads, there, keeps, exception, raised, memory⟩ :=
    Exit.forward_exception_runs a.cfg stands (by rw [restored.thread]; exact present) even (by
      rw [restored.thread]
      exact clear)
  rw [restored.thread] at exception memory
  refine ⟨k, leads, ⟨there, exception, raised.trans restored.ra,
    (keeps.registers _ (by decide)).trans restored.sp,
    (keeps.registers _ (by decide)).trans restored.fp, ?_⟩, memory⟩
  rw [pending, memory]
  exact Memory.load_store_word _ _

section Frameless

/-- The stack below the caller lies apart. -/
structure Spared (a : Invocation) (code : Dword → Prop) : Prop where
  spare_code : ∀ x, Exit.spare a.start x → ¬code x
  spare_thread : ∀ x, Exit.spare a.start x → ¬a.InThread x

/-- What a method without a frame relies on. -/
structure Bare (a : Invocation) (code : Dword → Prop) (c : Linked) : Prop extends
    a.Spared code where
  inside : ∀ x, c.InCode x → code x
  watched : c.watched = a.watches
  words : a.cfg.thread.Parted ThreadField.inRecord
  thread_code : ∀ x, a.InThread x → ¬code x

/-- A routine that throws keeps the return address that was saved on the stack. -/
def Throws (a : Invocation) (code : Dword → Prop) (m k : Machine) : Prop :=
  Returned (fun x => code x ∨ Exit.spare a.start x) m k

/-- A routine that throws, called without a frame. -/
structure Thrower (a : Invocation) (code : Dword → Prop) (callee : Callee) (m : Machine) :
    Prop where
  routine : m.pc = a.cfg.callees.address callee
  argument : m.reg .a0 = a.current
  back : code (m.reg .ra)
  sp : m.reg .sp = a.start.reg senderSp - BitVec.ofNat 64 stackAlignment

variable {σ : Type} {env : Environment σ} {p q : Progress σ} {events : List Event}
  {callee : Callee} {what : String} {arguments : Program}

/-- Code that may save the return address below the caller and drop the exception unnoticed. -/
structure Unframed (a : Invocation) (code : Dword → Prop) (c : Linked) : Prop where
  inside : ∀ x, c.InCode x → code x
  link_free : ∀ x, Exit.linkWord a.start x → ¬c.Covers x
  pending_free : ∀ x, a.ThreadWord .pendingException x → ¬c.Covers x

theorem Unframed.throws {watched : Dword → Bool} (unframed : a.Unframed code c)
    (quiet : c.Quiet env) (part : ∀ x, watched x = true → c.watched x = true) (shared : a.Shared c)
    (goes : Goes env watched p events q)
    (stands : c.Stands q.machine (Exit.throwBare a.cfg callee what arguments))
    (falls : arguments.all Op.falls = true) (silent : arguments.all Op.silent = true)
    (writes : arguments.all (Op.writes [.a1]) = true)
    (same : ∀ r ∈ [Register.fp, .ra, Pinned.thread, senderSp],
      q.machine.reg r = a.start.reg r)
    (contract : env.Answers watched p (a.cfg.callees.address callee) (a.Thrower code callee)
      (a.Throws code))
    (even : a.cfg.callees.address callee &&& 1 = 0)
    (even' : a.cfg.callees.address .exceptionDispatch &&& 1 = 0) :
    ∃ r call, Goes env watched p (events ++ [Event.call call]) r ∧
      a.Thrower code callee call.before ∧ call.before.memory = Exit.linked q.machine ∧
      (pending a.cfg a.current call.after.memory ≠ 0 →
        a.Unwound (pending a.cfg a.current call.after.memory) r.machine ∧
          r.machine.memory = a.dropped call.after.memory) := by
  have link : ∀ x, Exit.linkWord q.machine x ↔ Exit.linkWord a.start x := by
    intro x
    rw [Exit.linkWord, Exit.linkWord, Exit.linkAddress, Exit.linkAddress, same _ (by decide)]
  rw [← List.append_nil (Exit.throwBare a.cfg callee what arguments)] at stands
  obtain ⟨k, first, routine, keeps, argument, place, saved, back⟩ :=
    Exit.throw_bare_reaches a.cfg callee stands falls silent writes even fun x inside =>
      unframed.link_free x ((link x).mp inside)
  rw [same _ (by decide)] at argument place
  obtain ⟨r₁, goes, rfl⟩ := goes.leads quiet part first
  have thrower : a.Thrower code callee r₁.machine :=
    ⟨routine, argument, unframed.inside _ (Linked.has_in_code back), place⟩
  obtain ⟨r₂, goes, throws⟩ := goes.answered contract routine thrower
  -- The routine comes back to where the return address is fetched again.
  have stood : c.Stands r₂.machine (restoreReturn ++
      [Op.j (Routine.forwardException.label .start)]) := by
    refine ⟨throws.cleared ((keeps.registers .zero (by decide)).trans stands.cleared), ?_, ?_⟩
    · have here : c.InMemory r₁.machine.memory := stands.here.congr fun x covered => by
        rw [saved]
        exact Exit.linked_agree _ x fun inside =>
          unframed.link_free x ((link x).mp inside) (.inl covered)
      exact here.congr fun x covered => throws.memory x (.inl (unframed.inside x covered))
    · rw [throws.back]
      exact back
  obtain ⟨k, ⟨second, stands⟩, keeps', memory, address, stack⟩ :=
    Exit.restore_return_runs stood shared.forward
  obtain ⟨r₃, goes, rfl⟩ := goes.leads quiet part second
  -- That address was kept below the caller, and the routine spares it.
  have restored : a.Restored r₃.machine := by
    refine ⟨?_, ?_, ?_, ?_⟩
    · rw [stack, throws.saved _ (by decide), place, BitVec.sub_add_cancel]
    · rw [keeps'.registers _ (by decide), throws.saved _ (by decide), keeps.registers _ (by decide),
        same _ (by decide)]
    · have kept : r₂.machine.memory.load (Exit.linkAddress q.machine) 8 =
          r₁.machine.memory.load (Exit.linkAddress q.machine) 8 :=
        throws.memory.load (by decide) fun x covered =>
          .inr (Exit.link_spare x ((link x).mp covered))
      rw [address, throws.saved _ (by decide), place, ← same senderSp (by decide), Exit.link_address,
        kept, saved, Exit.linked, same .ra (by decide)]
      exact Memory.load_store_word _ _
    · rw [keeps'.registers _ (by decide), throws.saved _ (by decide), keeps.registers _ (by decide)]
      exact same _ (by decide)
  by_cases present : pending a.cfg a.current r₂.machine.memory = 0
  · exact ⟨r₃, _, goes, thrower, saved, fun some => (some present).elim⟩
  obtain ⟨k, third, unwound, dropped⟩ := restored.forwards stands (by rw [memory]; exact present)
    even' unframed.pending_free
  obtain ⟨r, goes, rfl⟩ := goes.leads quiet part third
  rw [memory] at unwound dropped
  exact ⟨r, _, goes, thrower, saved, fun _ => ⟨unwound, dropped⟩⟩

theorem Bare.free (bare : a.Bare code c) (x : Dword) (apart : ¬code x)
    (other : ¬a.ThreadWord .state x) : ¬c.Covers x := by
  rintro (inside | seen)
  · exact apart (bare.inside x inside)
  · rw [bare.watched, watches, decide_eq_true_eq] at seen
    exact other seen

theorem Bare.unframed (bare : a.Bare code c) : a.Unframed code c where
  inside := bare.inside
  link_free x link := by
    have spare := Exit.link_spare x link
    exact bare.free x (bare.spare_code x spare) fun state =>
      bare.spare_thread x spare ⟨.state, by decide, state⟩
  pending_free x word := by
    refine bare.free x (bare.thread_code x ⟨.pendingException, by decide, word⟩) ?_
    exact words_apart bare.words (by decide) (by decide) (by decide) x word

theorem Bare.leads (bare : a.Bare code c) (quiet : c.Quiet env)
    (goes : Goes env a.watches p events q) {k : Machine} (leads : c.Leads q.machine k) :
    ∃ r, Goes env a.watches p events r ∧ r.machine = k :=
  goes.leads quiet (fun _ seen => bare.watched ▸ seen) leads

theorem Bare.throws (bare : a.Bare code c) (quiet : c.Quiet env) (shared : a.Shared c)
    (goes : Goes env a.watches p events q)
    (stands : c.Stands q.machine (Exit.throwBare a.cfg callee what arguments))
    (falls : arguments.all Op.falls = true) (silent : arguments.all Op.silent = true)
    (writes : arguments.all (Op.writes [.a1]) = true)
    (same : ∀ r ∈ [Register.fp, .ra, Pinned.thread, senderSp],
      q.machine.reg r = a.start.reg r)
    (contract : env.Answers a.watches p (a.cfg.callees.address callee) (a.Thrower code callee)
      (a.Throws code))
    (even : a.cfg.callees.address callee &&& 1 = 0)
    (even' : a.cfg.callees.address .exceptionDispatch &&& 1 = 0) :
    ∃ r call, Goes env a.watches p (events ++ [Event.call call]) r ∧
      a.Thrower code callee call.before ∧
      (pending a.cfg a.current call.after.memory ≠ 0 →
        a.Unwound (pending a.cfg a.current call.after.memory) r.machine) := by
  obtain ⟨r, call, goes, thrower, -, unwound⟩ := bare.unframed.throws quiet
    (fun _ seen => bare.watched ▸ seen) shared goes stands falls silent writes same contract even
    even'
  exact ⟨r, call, goes, thrower, fun present => (unwound present).1⟩

end Frameless

end Invocation

end EntryCode
