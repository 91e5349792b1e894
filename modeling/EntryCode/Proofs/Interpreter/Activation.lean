import EntryCode.Proofs.Interpreter.Prologue
import EntryCode.Proofs.Interpreter.Segment

/-!
What happens once the frame of a method stands. Routines of the runtime may be called; as long as
they follow the calling convention, the frame stands after each of them as it stood before, and
where one leaves an exception the run goes on at the exit of the frame.
-/

namespace EntryCode

open EntryCode.Frame Pinned Fragment Machine

namespace Invocation

section Contracts
variable (a : Invocation) (code : Dword → Prop)

/-- What a routine must leave alone: the code, the stack of its caller but for what was lent to it,
and some fields of the method record. -/
def Kept (lent : Dword → Prop) (fields : List MethodField) (m : Machine) (x : Dword) : Prop :=
  code x ∨ (Memory.Covers (m.reg .sp) (a.stackEnd - m.reg .sp).toNat x ∧ ¬lent x) ∨
    ∃ f ∈ fields, a.Field f x

/-- A call that the code makes from the frame of the method. -/
structure Inside (m : Machine) : Prop where
  back : code (m.reg .ra)
  fp : m.reg .fp = a.fp
  thread : m.reg thread = a.current
  under : a.Under (m.reg .sp)

/-- Nothing of its caller's stack is lent to a routine. -/
def nothing (_ : Dword) : Prop := False

/-- The code and the fields that do not change. -/
def Steady (x : Dword) : Prop :=
  code x ∨ ∃ f ∈ a.fixedFields, a.Field f x

def Follows (lent : Dword → Prop) (fields : List MethodField) (m k : Machine) : Prop :=
  Returned (a.Kept code lent fields m) m k

/-- The routine that takes the lock may use the monitor. Where it throws it takes the object out
again. -/
structure Enters (m k : Machine) : Prop where
  follows : a.Follows code a.Monitor a.fixedFields m k
  object : k.memory.load a.objectAddress 8 =
    if pending a.cfg a.current k.memory = 0 then m.memory.load a.objectAddress 8 else 0

/-- The exception that a call has left, if there was one. -/
def thrown (called : Option Call) : Dword :=
  called.elim 0 fun call => pending a.cfg a.current call.after.memory

end Contracts

/-- A call that was not made has every property. -/
theorem unmade {P : Call → Prop} : ∀ call ∈ (none : Option Call), P call :=
  nofun

variable {a : Invocation} {code : Dword → Prop} {c : Linked} {f s : Nat} {sp : Dword} {w : Contents}
  {m k : Machine}

def registerNames : List Register :=
  [.fp, .sp, thread, locals, stack, senderSp, Pinned.bytecode]

theorem registers_named (v : Register × Dword) (member : v ∈ a.registers sp) :
    v.1 ∈ registerNames :=
  List.mem_map_of_mem (f := Prod.fst) member

theorem registers_kept {rs : List Register} (keeps : Keeps rs m k)
    (apart : ∀ r ∈ registerNames, ∀ t ∈ rs, r.code ≠ t.code) (v : Register × Dword)
    (member : v ∈ a.registers sp) : k.reg v.1 = m.reg v.1 :=
  keeps.registers v.1 (apart v.1 (registers_named v member))

section Stack
variable (laid : a.Placed f s)
include laid

theorem Placed.covers_stack (under : a.Under sp) {x : Dword} :
    Memory.Covers sp (a.stackEnd - sp).toNat x ↔ (sp - a.floor).toNat ≤ (x - a.floor).toNat ∧
      (x - a.floor).toNat < a.need + 8 * a.parameters := by
  have high := under
  have close := laid.below
  have size := a.need_eq
  rw [Under, laid.top_distance] at high
  have place : sp = a.floor + BitVec.ofNat 64 (sp - a.floor).toNat := by
    rw [BitVec.ofNat_toNat, BitVec.setWidth_eq, BitVec.add_comm, BitVec.sub_add_cancel]
  have covers := laid.covers_above (n := (sp - a.floor).toNat) (x := x) (by omega)
  rwa [← place] at covers

theorem Placed.stack_live (under : a.Under sp) (x : Dword) (live : a.Live x) :
    Memory.Covers sp (a.stackEnd - sp).toNat x := by
  have high := under
  rw [Under, laid.top_distance] at high
  rw [laid.live] at live
  rw [laid.covers_stack under]
  omega

theorem Placed.stack_monitor (under : a.Under sp) (locked : a.synchronized = true) (x : Dword)
    (monitor : a.Monitor x) : Memory.Covers sp (a.stackEnd - sp).toNat x := by
  have high := under
  have close := laid.below
  have size := a.need_eq
  have fixed : a.fixed = 128 := by rw [fixed, if_pos locked]; rfl
  rw [Under, laid.top_distance] at high
  rw [laid.monitor] at monitor
  rw [laid.covers_stack under]
  omega

/-- The frame stands after a routine has returned, but for what the monitor holds. -/
theorem Framed.returned {lent : Dword → Prop} {fields : List MethodField} {o : Dword}
    (framed : a.Framed sp w m) (under : a.Under sp)
    (returned : a.Follows code lent fields m k) (spared : ∀ x, lent x → ¬a.Live x)
    (flags : .accessFlags ∈ fields)
    (object : a.synchronized = true → k.memory.load a.objectAddress 8 = o) :
    a.Framed sp { w with object := o } k := by
  have saved : ∀ r ∈ registerNames, r ∈ Register.saved := by decide
  refine framed.congr laid ?_ ?_ ?_ object
  · intro v member
    rw [returned.saved v.1 (saved _ (registers_named v member))]
    exact framed.registers v member
  · refine returned.memory.mono fun x live => .inr (.inl ⟨?_, fun taken => spared x taken live⟩)
    rw [framed.at_sp]
    exact laid.stack_live under x live
  · exact returned.memory.mono fun x there => .inr (.inr ⟨_, flags, there⟩)

/-- What the monitor holds, where it was not lent. -/
theorem Framed.object_kept {lent : Dword → Prop} {fields : List MethodField}
    (framed : a.Framed sp w m) (under : a.Under sp)
    (returned : a.Follows code lent fields m k) (spared : ∀ x, lent x → ¬a.Monitor x)
    (locked : a.synchronized = true) : k.memory.load a.objectAddress 8 = w.object := by
  rw [returned.memory.load (by decide), framed.object locked]
  intro x covered
  have monitor := laid.object_monitor x covered
  refine .inr (.inl ⟨?_, fun taken => spared x taken monitor⟩)
  rw [framed.at_sp]
  exact laid.stack_monitor under locked x monitor

/-- The frame stands as long as its saved registers stay and nothing of the stack or the flags
changes. -/
theorem Framed.kept {rs : List Register} (framed : a.Framed sp w k) (keeps : Keeps rs k m)
    (apart : ∀ r ∈ registerNames, ∀ t ∈ rs, r.code ≠ t.code)
    (stack : Memory.Agree a.Owns k.memory m.memory)
    (flags : Memory.Agree (a.Field .accessFlags) k.memory m.memory) : a.Framed sp w m := by
  refine framed.congr laid (fun v member => ?_) (stack.mono laid.live_owned) flags fun locked => ?_
  · rw [registers_kept keeps apart v member]
    exact framed.registers v member
  · rw [stack.load (by decide), framed.object locked]
    intro x covered
    have close := laid.close
    have under := laid.below
    have size := a.need_eq
    rw [laid.object_covers] at covered
    rw [Owns, Memory.Covers, wordSize]
    omega

/-- A piece of code has set one of the words of the frame that may change. -/
theorem Framed.sets {rs : List Register} {t : Slot} {v : Dword} (entered : a.Entered code)
    (framed : a.Framed sp w m) (changes : t ∈ changingSlots) (keeps : Keeps rs m k)
    (apart : ∀ r ∈ registerNames, ∀ t ∈ rs, r.code ≠ t.code)
    (memory : k.memory = m.memory.store (a.fp + slot t) 8 v) : a.Framed sp (w.set t v) k :=
  framed.set_word laid changes (registers_kept keeps apart)
    (fun x there flags => entered.stack_record x (laid.frame_owned x there) ⟨_, by decide, flags⟩)
    memory

end Stack

/-- A routine that the frame called with the thread as first argument. -/
structure Made (a : Invocation) (code : Dword → Prop) (callee : Callee) (sp : Dword) (w : Contents)
    (call : Call) : Prop where
  routine : call.before.pc = a.cfg.callees.address callee
  thread : call.before.reg .a0 = a.current
  framed : a.Framed sp w call.before
  inside : a.Inside code call.before

def Idle (a : Invocation) (mem : Memory) : Prop :=
  mem.Holds a.current (anchorWords a.cfg 0 0 0)

theorem anchor_words_inside {sp fp pc : Dword} (v : Dword × Dword)
    (member : v ∈ anchorWords a.cfg sp fp pc) (x : Dword)
    (covered : Memory.Covers (a.current + v.1) 8 x) : anchor a.cfg a.current x := by
  simp only [anchorWords, List.mem_cons, List.not_mem_nil, or_false] at member
  rcases member with rfl | rfl | rfl
  · exact ⟨.lastPc, by decide, covered⟩
  · exact ⟨.lastFp, by decide, covered⟩
  · exact ⟨.lastSp, by decide, covered⟩

theorem Idle.kept {mem other : Memory} (idle : a.Idle mem)
    (same : Memory.Agree a.InThread mem other) : a.Idle other :=
  same.holds idle fun v member x covered => .of_anchor (anchor_words_inside v member x covered)

/-- A call, and the machines around it: `m` before it was prepared, `k` when its return was dealt
with. -/
structure Called (a : Invocation) (call : Call) (m k : Machine) : Prop where
  argument : call.before.reg .a1 = m.reg .a1
  before : Memory.Agree (fun x => ¬anchor a.cfg a.current x) m.memory call.before.memory
  after : Memory.Agree (fun x => ¬anchor a.cfg a.current x) call.after.memory k.memory
  idle : a.Idle k.memory

theorem Entered.stack_anchor (entered : a.Entered code) (x : Dword) (owned : a.Owns x) :
    ¬anchor a.cfg a.current x :=
  fun anchored => entered.stack_thread x owned (.of_anchor anchored)

theorem Entered.record_anchor (entered : a.Entered code) (x : Dword) (inside : a.InRecord x) :
    ¬anchor a.cfg a.current x :=
  fun anchored => entered.record_thread x inside (.of_anchor anchored)

theorem fixed_in_record : ∀ f ∈ a.fixedFields, f ∈ MethodField.inRecord := by
  rw [fixedFields]
  split <;> decide

theorem flags_fixed : MethodField.accessFlags ∈ a.fixedFields := by
  rw [fixedFields]
  split <;> decide

theorem Entered.steady_anchor (entered : a.Entered code) (x : Dword) (steady : a.Steady code x) :
    ¬anchor a.cfg a.current x := by
  rcases steady with within | ⟨f, member, field⟩
  · exact fun anchored => entered.thread_code x (.of_anchor anchored) within
  · exact entered.record_anchor x ⟨f, fixed_in_record f member, field⟩

theorem Entered.stack_steady (entered : a.Entered code) (x : Dword) (owned : a.Owns x) :
    ¬a.Steady code x := by
  rintro (within | ⟨f, member, field⟩)
  · exact entered.stack_code x owned within
  · exact entered.stack_record x owned ⟨f, fixed_in_record f member, field⟩

/-- What does not change is the same after a routine that keeps it. -/
theorem Called.steady {call : Call} {lent : Dword → Prop} (entered : a.Entered code)
    (called : a.Called call m k) (follows : a.Follows code lent a.fixedFields call.before call.after) :
    Memory.Agree (a.Steady code) m.memory k.memory := by
  refine (called.before.mono entered.steady_anchor).trans (Memory.Agree.trans ?_
    (called.after.mono entered.steady_anchor))
  refine follows.memory.mono fun x steady => ?_
  rcases steady with within | field
  · exact .inl within
  · exact .inr (.inr field)

/-- The exception that a call has left is pending when its return was dealt with. -/
theorem Called.pending {call : Call} (entered : a.Entered code) (called : a.Called call m k) :
    Fragment.pending a.cfg a.current k.memory = a.thrown (some call) :=
  called.after.load (by decide) (entered.anchor_apart (g := .pendingException) (by decide) (by decide))

section Reaching
variable {callee : Callee} {what : String} {l : Label} {rest : Program}

theorem Framed.reaches (housed : a.Housed code c) (even : a.cfg.callees.address callee &&& 1 = 0)
    (framed : a.Framed sp w m) (under : a.Under sp)
    (stands : c.Stands m (callRuntime a.cfg callee what l ++ rest)) :
    ∃ before, c.Leads m before ∧ before.pc = a.cfg.callees.address callee ∧
      before.reg .a0 = a.current ∧ before.reg .a1 = m.reg .a1 ∧ a.Framed sp w before ∧
      a.Inside code before ∧
      Memory.Agree (fun x => ¬anchor a.cfg a.current x) m.memory before.memory ∧
      before.Zeroed ∧ c.InMemory before.memory ∧
      c.Has (before.reg .ra) (afterCall a.cfg ++ (checkPending a.cfg l ++ rest)) := by
  have entered := housed.entered
  obtain ⟨f, s, laid⟩ := a.placed entered.counted entered.aligned
  have fp := framed.at_fp
  have current := framed.at_thread
  have saved := framed.reads .bytecode a.bytecode (by simp [slots])
  have spared : ∀ x, anchor a.cfg (m.reg thread) x → ¬c.Covers x := by
    rw [current]
    exact housed.anchor_free
  obtain ⟨before, leads, back, there, keeps, argument, agree⟩ :=
    call_runtime_reaches a.cfg callee stands even
      (by rw [fp, saved, framed.at_bytecode])
      (by
        rw [fp]
        exact fun x covered => housed.stack_free x (laid.live_owned x
          (laid.slots_live (w := w) (.bytecode, a.bytecode) (by simp [slots]) x covered)))
      spared
  rw [current] at agree argument
  have framed' : a.Framed sp w before := by
    exact framed.kept laid keeps (by decide) (agree.mono entered.stack_anchor)
      (agree.mono fun x field => entered.record_anchor x ⟨_, by decide, field⟩)
  refine ⟨before, leads, there, argument, keeps.registers .a1 (by decide), framed',
    ⟨housed.inside _ (Linked.has_in_code back), framed'.at_fp, framed'.at_thread, ?_⟩, agree,
    (keeps.registers .zero (by decide)).trans stands.cleared, ?_, back⟩
  · rw [framed'.at_sp]
    exact under
  · exact stands.here.congr fun x covered => agree x fun anchored =>
      housed.anchor_free x anchored (.inl covered)

/-- Once a routine has returned, the frame stands as before, and the run goes on where it left no
exception. -/
theorem Framed.resumes {before after : Machine} {away : Program} {lent : Dword → Prop}
    {fields : List MethodField} (housed : a.Housed code c)
    (framed : a.Framed sp w before) (under : a.Under sp) (cleared : before.Zeroed)
    (here : c.InMemory before.memory)
    (back : c.Has (before.reg .ra) (afterCall a.cfg ++ (checkPending a.cfg l ++ rest)))
    (there : c.Has (c.target (Routine.removeActivationException.label .start)) away)
    (returned : a.Follows code lent fields before after)
    (spared : ∀ x, lent x → ¬a.Live x) (flags : .accessFlags ∈ fields) :
    ∃ k, c.Comes after k
        (if pending a.cfg a.current after.memory = 0 then rest else away) ∧
      k.reg Pinned.method = a.record ∧ k.memory.Holds a.current (anchorWords a.cfg 0 0 0) ∧
      Memory.Agree (fun x => ¬anchor a.cfg a.current x) after.memory k.memory ∧
      ∀ o, (a.synchronized = true → after.memory.load a.objectAddress 8 = o) →
        a.Framed sp { w with object := o } k := by
  have entered := housed.entered
  obtain ⟨f, s, laid⟩ := a.placed entered.counted entered.aligned
  have stands : c.Stands after (afterCall a.cfg ++ (checkPending a.cfg l ++ rest)) := by
    refine ⟨returned.cleared cleared, here.congr fun x covered => ?_, ?_⟩
    · exact returned.memory x (.inl (housed.inside x covered))
    · rw [returned.back]
      exact back
  have stood := fun o object =>
    framed.returned (o := o) laid under returned spared flags object
  have framed := stood _ fun _ => rfl
  have current := framed.at_thread
  have slots_apart : ∀ t ∈ [Slot.method, .bytecode], ∀ x, Memory.Covers (a.fp + slot t) 8 x →
      ¬anchor a.cfg a.current x := by
    simp only [List.forall_mem_cons]
    refine ⟨fun x covered => ?_, fun x covered => ?_, List.forall_mem_nil _⟩
    · exact entered.stack_anchor x (laid.live_owned x
        (laid.slots_live (w := w) (.method, a.record) (by simp [slots]) x covered))
    · exact entered.stack_anchor x (laid.live_owned x
        (laid.slots_live (w := w) (.bytecode, a.bytecode) (by simp [slots]) x covered))
  obtain ⟨k, ⟨first, stands⟩, keeps, method, bytes, idle, agree⟩ :=
    after_call_runs a.cfg entered.words stands (by rw [current]; exact housed.anchor_free)
      (by rw [framed.at_fp, current]; exact slots_apart)
  rw [framed.at_fp, framed.reads .method a.record (by simp [slots])] at method
  rw [framed.at_fp, framed.reads .bytecode a.bytecode (by simp [slots])] at bytes
  rw [current] at agree idle
  have held : pending a.cfg (k.reg thread) k.memory = pending a.cfg a.current after.memory := by
    rw [keeps.registers thread (by decide), current]
    exact agree.load (by decide)
      (entered.anchor_apart (g := .pendingException) (by decide) (by decide))
  obtain ⟨k', ⟨second, stands⟩, keeps', memory⟩ := check_pending_runs a.cfg stands there
  rw [held] at stands
  -- The bytecode pointer is written too, but with the value that it had.
  have same : ∀ v ∈ a.registers sp, k'.reg v.1 = v.2 := by
    have others : ∀ r : Register, (∀ t ∈ [Pinned.method, Pinned.bytecode, Register.t0],
        r.code ≠ t.code) → k'.reg r = after.reg r := by
      intro r apart
      simp only [List.forall_mem_cons] at apart
      rw [keeps'.registers r (by simpa using apart.2.2.1),
        keeps.registers r (by simpa using ⟨apart.1, apart.2.1⟩)]
    have was := framed.registers
    simp only [Invocation.registers, List.forall_mem_cons] at was ⊢
    obtain ⟨one, two, three, four, five, six, -, -⟩ := was
    exact ⟨(others _ (by decide)).trans one, (others _ (by decide)).trans two,
      (others _ (by decide)).trans three, (others _ (by decide)).trans four,
      (others _ (by decide)).trans five, (others _ (by decide)).trans six,
      (keeps'.registers _ (by decide)).trans bytes, List.forall_mem_nil _⟩
  rw [← memory] at idle agree
  refine ⟨k', ⟨first.trans second, stands⟩, (keeps'.registers _ (by decide)).trans method, idle,
    agree, fun o object => ?_⟩
  refine (stood o object).congr laid same ?_ ?_ fun locked => ?_
  · exact agree.mono fun x live => entered.stack_anchor x (laid.live_owned x live)
  · exact agree.mono fun x field => entered.record_anchor x ⟨_, by decide, field⟩
  · rw [agree.load (by decide), object locked]
    intro x covered
    exact entered.stack_anchor x (laid.frame_owned x (frame_area_word (by decide) x covered))

end Reaching

section Runs
variable {σ : Type} {env : Environment σ} {p q : Progress σ} {events : List Event}
  {callee : Callee} {what : String} {l : Label} {rest away : Program}

/-- Where a run is: an entered method, its code, and an environment that leaves the code to the
machine. At `away` a frame is left with an exception. -/
structure Around (a : Invocation) (code : Dword → Prop) (c : Linked) (env : Environment σ)
    (away : Program) : Prop where
  housed : a.Housed code c
  quiet : c.Quiet env
  there : c.Has (c.target (Routine.removeActivationException.label .start)) away

theorem Around.leads (around : a.Around code c env away) (goes : Goes env a.watches p events q)
    {k : Machine} (leads : c.Leads q.machine k) :
    ∃ r, Goes env a.watches p events r ∧ r.machine = k :=
  goes.leads around.quiet (fun _ seen => around.housed.watched ▸ seen) leads

/-- The frame stands at a program, with the method in its register. -/
structure At (a : Invocation) (c : Linked) (sp : Dword) (w : Contents) (rest : Program)
    (m : Machine) : Prop where
  stands : c.Stands m rest
  framed : a.Framed sp w m
  method : m.reg Pinned.method = a.record

def frameRegisters : List Register :=
  [.fp, .sp, thread, locals, stack, senderSp, Pinned.bytecode, Pinned.method]

/-- The frame stands after a piece of code that leaves its registers, the stack and the flags
alone. -/
theorem At.moves {prog : Program} {rs : List Register} (around : a.Around code c env away)
    (goes : Goes env a.watches p events q) (ready : a.At c sp w prog q.machine)
    (comes : c.Comes q.machine k rest) (keeps : Keeps rs q.machine k)
    (apart : ∀ r ∈ frameRegisters, ∀ t ∈ rs, r.code ≠ t.code)
    (stack : Memory.Agree a.Owns q.machine.memory k.memory)
    (flags : Memory.Agree (a.Field .accessFlags) q.machine.memory k.memory) :
    ∃ r, Goes env a.watches p events r ∧ r.machine = k ∧ a.At c sp w rest r.machine := by
  obtain ⟨f, s, laid⟩ := a.placed around.housed.entered.counted around.housed.entered.aligned
  obtain ⟨leads, stands⟩ := comes
  obtain ⟨r, goes, rfl⟩ := around.leads goes leads
  have listed : ∀ r ∈ registerNames, r ∈ frameRegisters := by decide
  refine ⟨r, goes, rfl, stands, ?_, ?_⟩
  · exact ready.framed.kept laid keeps (fun r member => apart r (listed r member)) stack flags
  · rw [keeps.registers _ (apart _ (by decide))]
    exact ready.method

theorem Framed.calls {lent : Dword → Prop} {fields : List MethodField}
    {rel : Machine → Machine → Prop} (around : a.Around code c env away)
    (contract : env.Answers a.watches p (a.cfg.callees.address callee) (a.Inside code) rel)
    (follows : ∀ m k, rel m k → a.Follows code lent fields m k)
    (even : a.cfg.callees.address callee &&& 1 = 0) (goes : Goes env a.watches p events q)
    (framed : a.Framed sp w q.machine) (under : a.Under sp)
    (stands : c.Stands q.machine (callRuntime a.cfg callee what l ++ rest))
    (spared : ∀ x, lent x → ¬a.Live x) (flags : .accessFlags ∈ fields) :
    ∃ r call, Goes env a.watches p (events ++ [Event.call call]) r ∧ a.Made code callee sp w call ∧
      a.Called call q.machine r.machine ∧ rel call.before call.after ∧
      ∀ o, (a.synchronized = true → call.after.memory.load a.objectAddress 8 = o) →
        a.At c sp { w with object := o } (if a.thrown (some call) = 0 then rest else away)
          r.machine := by
  obtain ⟨before, leads, routine, thread, argument, framed, inside, agree, cleared, here, back⟩ :=
    framed.reaches around.housed even under stands
  obtain ⟨r₁, goes, rfl⟩ := around.leads goes leads
  obtain ⟨r₂, goes, related⟩ := goes.answered contract routine inside
  obtain ⟨k, ⟨leads, stands⟩, method, idle, after, stood⟩ := framed.resumes around.housed under
    cleared here back around.there (follows _ _ related) spared flags
  obtain ⟨r, goes, rfl⟩ := around.leads goes leads
  exact ⟨r, _, goes, ⟨routine, thread, framed, inside⟩, ⟨argument, agree, after, idle⟩, related,
    fun o object => ⟨stands, stood o object, method⟩⟩

/-- A routine to which nothing is lent leaves the frame as it was. -/
theorem Framed.calls_plain {fields : List MethodField} (around : a.Around code c env away)
    (contract : env.Answers a.watches p (a.cfg.callees.address callee) (a.Inside code)
      (a.Follows code nothing fields))
    (even : a.cfg.callees.address callee &&& 1 = 0) (goes : Goes env a.watches p events q)
    (framed : a.Framed sp w q.machine) (under : a.Under sp)
    (stands : c.Stands q.machine (callRuntime a.cfg callee what l ++ rest))
    (flags : .accessFlags ∈ fields) :
    ∃ r call, Goes env a.watches p (events ++ [Event.call call]) r ∧ a.Made code callee sp w call ∧
      a.Called call q.machine r.machine ∧ a.Follows code nothing fields call.before call.after ∧
      a.At c sp w (if a.thrown (some call) = 0 then rest else away) r.machine := by
  obtain ⟨f, s, laid⟩ := a.placed around.housed.entered.counted around.housed.entered.aligned
  obtain ⟨r, call, goes, made, called, follows, stood⟩ := framed.calls around contract
    (fun _ _ => id) even goes under stands (fun _ none => none.elim) flags
  refine ⟨r, call, goes, made, called, follows, ?_⟩
  exact stood w.object fun locked =>
    made.framed.object_kept laid under follows (fun _ none => none.elim) locked

section Stages
variable (around : a.Around code c env away) (goes : Goes env a.watches p events q)
  (under : a.Under sp)
include around goes under

/-- The events of a call that may have been made. -/
def made (called : Option Call) : List Event :=
  called.toList.map .call

omit around goes under in
/-- Counting an invocation changes nothing but the counter. -/
theorem counted_agree (same : m.reg Pinned.method = a.record) :
    Memory.Agree (fun x => ¬a.Field .invocationCounter x) m.memory (countedMemory a.cfg m) := by
  rw [countedMemory, same]
  split
  · exact Memory.agree_store _ _ _ (by decide)
  · exact .refl _ _

theorem At.overflows {proceed done : Label} {body : Program}
    (contract : env.Answers a.watches p (a.cfg.callees.address .counterOverflow) (a.Inside code)
      (a.Follows code nothing a.fixedFields))
    (even : a.cfg.callees.address .counterOverflow &&& 1 = 0)
    (ready : a.At c sp w (.mv .a1 .zero ::
      (callRuntime a.cfg .counterOverflow "frequency_counter_overflow" done ++ [Op.j proceed]))
        q.machine)
    (there : c.Has (c.target proceed) body) :
    ∃ r call, Goes env a.watches p (events ++ [Event.call call]) r ∧
      a.At c sp w (if a.thrown (some call) = 0 then body else away) r.machine ∧
      a.Made code .counterOverflow sp w call ∧ call.before.reg .a1 = 0 ∧ a.Idle r.machine.memory ∧
      a.thrown (some call) = pending a.cfg a.current r.machine.memory ∧
      Memory.Agree (a.Steady code) q.machine.memory r.machine.memory := by
  have entered := around.housed.entered
  have zero : ((q.machine.put .a1 (ImmediateOp.addi.value (q.machine.reg .zero) 0)).goto
      (q.machine.pc + 4)).reg .a1 = 0 := by
    rw [reg_goto, reg_put_self _ _ _ (by decide), reg_zero ready.stands.cleared]
    rfl
  obtain ⟨q', goes, same, ready⟩ := ready.moves around goes (ready.stands.immediate (by simp))
    (((Keeps.refl [.a1] _).put (r := .a1) (by decide) _).goto _) (by decide) (.refl _ _) (.refl _ _)
  rw [← same] at zero
  obtain ⟨r, call, goes, made, called, follows, ready⟩ :=
    ready.framed.calls_plain around contract even goes under ready.stands flags_fixed
  have steady : Memory.Agree (a.Steady code) q.machine.memory r.machine.memory := by
    have later := called.steady entered follows
    rw [same] at later
    exact later
  have argument := called.argument.trans zero
  have held := called.pending entered
  by_cases calm : a.thrown (some call) = 0
  · rw [if_pos calm] at ready
    obtain ⟨r', goes, last, ready⟩ := ready.moves around goes (ready.stands.jump there)
      ((Keeps.refl [] _).goto _) (by decide) (.refl _ _) (.refl _ _)
    have same : r'.machine.memory = r.machine.memory := by rw [last]; rfl
    refine ⟨r', call, goes, by rwa [if_pos calm], made, argument, ?_, ?_, ?_⟩
    all_goals rw [same]
    · exact called.idle
    · exact held.symm
    · exact steady
  · rw [if_neg calm] at ready
    exact ⟨r, call, goes, by rwa [if_neg calm], made, argument, called.idle, held.symm, steady⟩

theorem At.counts {overflow proceed done counted : Label} {body : Program}
    (contract : env.Answers a.watches p (a.cfg.callees.address .counterOverflow) (a.Inside code)
      (a.Follows code nothing a.fixedFields))
    (even : a.cfg.callees.address .counterOverflow &&& 1 = 0)
    (ready : a.At c sp w
      ((if a.cfg.counts then countInvocation a.cfg overflow counted else []) ++ .bind proceed ::
        (body ++ if a.cfg.useCompiler then counterOverflow a.cfg overflow proceed done else []))
        q.machine) :
    ∃ r, ∃ called : Option Call, Goes env a.watches p (events ++ made called) r ∧
      a.At c sp w (if a.thrown called = 0 then
        body ++ (if a.cfg.useCompiler then counterOverflow a.cfg overflow proceed done else [])
        else away) r.machine ∧
      (∀ call ∈ called, a.Made code .counterOverflow sp w call ∧ call.before.reg .a1 = 0 ∧
        a.Idle r.machine.memory ∧
        a.thrown (some call) = pending a.cfg a.current r.machine.memory) ∧
      Memory.Agree (a.Steady code) q.machine.memory r.machine.memory := by
  have entered := around.housed.entered
  obtain ⟨-, next, placed⟩ := Linked.has_append ready.stands.placed
  obtain ⟨target, after⟩ := Linked.has_bind.mp placed
  cases counts : a.cfg.counts with
  | false =>
      rw [counts] at ready
      obtain ⟨r, goes, same, ready⟩ := ready.moves around goes
        ⟨.refl _, (Linked.Stands.bind ready.stands).2⟩ (.refl [] _) (by decide) (.refl _ _)
        (.refl _ _)
      refine ⟨r, none, by simpa [made] using goes, ready, unmade, ?_⟩
      rw [same]
      exact .refl _ _
  | true =>
      rw [counts] at ready
      have counter : ∀ x, a.Field .invocationCounter x → a.InRecord x :=
        fun x field => ⟨_, by decide, field⟩
      obtain ⟨k, comes, keeps, memory⟩ := count_invocation_runs a.cfg _
        ready.stands (counter_overflow_placed a.cfg after)
        (by
          rw [ready.method]
          exact fun x covered => around.housed.record_free x (counter x covered))
      have agree : Memory.Agree (fun x => ¬a.Field .invocationCounter x) q.machine.memory
          k.memory := by
        rw [memory]
        exact counted_agree ready.method
      have kept := entered.counting counts
      have steady : Memory.Agree (a.Steady code) q.machine.memory k.memory := by
        refine agree.mono fun x steady field => ?_
        rcases steady with within | ⟨g, member, there⟩
        · exact entered.record_code x (counter x field) within
        · exact kept g member x field there
      obtain ⟨r, goes, rfl, ready⟩ := ready.moves around goes comes keeps (by decide)
        (agree.mono fun x owned field => entered.stack_record x owned (counter x field))
        (agree.mono fun x flags field => kept _ flags_fixed x field flags)
      split at ready
      -- The compiler is called out of line and jumps back to where the entry goes on.
      · obtain ⟨r', call, goes, ready, made, argument, idle, held, later⟩ :=
          ready.overflows around goes under contract even (target ▸ after)
        refine ⟨r', some call, goes, ready, ?_, steady.trans later⟩
        rintro _ ⟨⟩
        exact ⟨made, argument, idle, held⟩
      · obtain ⟨r', goes, same, ready⟩ := ready.moves around goes
          ⟨.refl _, (Linked.Stands.bind ready.stands).2⟩ (.refl [] _) (by decide) (.refl _ _)
          (.refl _ _)
        refine ⟨r', none, by simpa [made] using goes, ready, unmade, ?_⟩
        rw [same]
        exact steady

/-- The profile cell once method data was asked for, with what was found then. -/
def cellAfter (a : Invocation) (cell : Dword) (called : Option Call) : Dword :=
  called.elim cell fun call =>
    let data := call.after.memory.load (a.record + a.cfg.method.offset .methodData) 8
    if a.thrown (some call) ≠ 0 ∨ data = 0 then cell else profileCell a.cfg data

omit under in
/-- The profile cell is set from the method data, where there is any. -/
theorem At.sets_cell {null : Label}
    (ready : a.At c sp w (setProfileCell a.cfg null ++ rest) q.machine) :
    ∃ r, Goes env a.watches p events r ∧
      a.At c sp { w with cell := (if field a.cfg q.machine .methodData = 0 then w.cell
        else profileCell a.cfg (field a.cfg q.machine .methodData)) } rest r.machine ∧
      Memory.Agree (fun x => ¬a.Owns x) q.machine.memory r.machine.memory := by
  have entered := around.housed.entered
  obtain ⟨f, s, laid⟩ := a.placed entered.counted entered.aligned
  have cell : ∀ x, Memory.Covers (a.fp + slot .profileCell) 8 x → a.Owns x :=
    fun x covered => laid.frame_owned x (frame_area_word (by decide) x covered)
  obtain ⟨k, ⟨leads, stands⟩, keeps, memory⟩ := set_profile_cell_runs a.cfg ready.stands (by
    rw [ready.framed.at_fp]
    exact fun x covered => around.housed.stack_free x (cell x covered))
  obtain ⟨r, goes, rfl⟩ := around.leads goes leads
  rw [ready.framed.at_fp] at memory
  refine ⟨r, goes, ⟨stands, ?_, (keeps.registers _ (by decide)).trans ready.method⟩, ?_⟩
  · split at memory
    · next none =>
        rw [if_pos none]
        exact ready.framed.kept laid keeps (by decide) (by rw [memory]; exact .refl _ _)
          (by rw [memory]; exact .refl _ _)
    · next some =>
        have stood := ready.framed.sets laid entered (by decide) keeps (by decide) memory
        rw [if_neg some]
        rwa [Contents.set_cell] at stood
  · rw [memory]
    split
    · exact .refl _ _
    · exact (Memory.agree_store _ _ _ (by decide)).mono fun x free covered =>
        free (cell x covered)

theorem At.profiles {profiled done null : Label}
    (contract : env.Answers a.watches p (a.cfg.callees.address .profileMethod) (a.Inside code)
      (a.Follows code nothing a.fixedFields))
    (even : a.cfg.callees.address .profileMethod &&& 1 = 0)
    (ready : a.At c sp w
      ((if a.cfg.profile then profileMethod a.cfg profiled done null else []) ++ rest) q.machine) :
    ∃ r, ∃ called : Option Call, Goes env a.watches p (events ++ made called) r ∧
      a.At c sp { w with cell := a.cellAfter w.cell called }
        (if a.thrown called = 0 then rest else away) r.machine ∧
      (called.isSome → a.cfg.profile = true) ∧
      (∀ call ∈ called, a.Made code .profileMethod sp w call ∧ a.Idle r.machine.memory ∧
        a.thrown (some call) = pending a.cfg a.current r.machine.memory) ∧
      Memory.Agree (a.Steady code) q.machine.memory r.machine.memory := by
  have entered := around.housed.entered
  cases on : a.cfg.profile with
  | false =>
      rw [on] at ready
      exact ⟨q, none, by simpa [made] using goes, ready, by simp, unmade, .refl _ _⟩
  | true =>
      rw [on] at ready
      obtain ⟨k, comes, keeps, memory⟩ := profile_method_runs a.cfg ready.stands
      obtain ⟨r, goes, rfl, ready⟩ := ready.moves around goes comes keeps (by decide)
        (by rw [memory]; exact .refl _ _) (by rw [memory]; exact .refl _ _)
      split at ready
      · rw [askForData, List.append_assoc] at ready
        obtain ⟨r, call, goes, made, called, follows, ready⟩ :=
          ready.framed.calls_plain around contract even goes under ready.stands flags_fixed
        have held := called.pending entered
        have steady := called.steady entered follows
        rw [memory] at steady
        by_cases calm : a.thrown (some call) = 0
        · rw [if_pos calm] at ready
          obtain ⟨r', goes, stood, stored⟩ := ready.sets_cell around goes
          -- What the call has left is what the entry looks at.
          have data : field a.cfg r.machine .methodData =
              call.after.memory.load (a.record + a.cfg.method.offset .methodData) 8 := by
            rw [field, ready.method]
            exact called.after.load (by decide) fun x covered =>
              entered.record_anchor x ⟨.methodData, by decide, covered⟩
          have cell : a.cellAfter w.cell (some call) =
              if field a.cfg r.machine .methodData = 0 then w.cell
              else profileCell a.cfg (field a.cfg r.machine .methodData) := by
            simp only [cellAfter, Option.elim_some, data, calm, ne_eq, not_true_eq_false, false_or]
          have thread := stored.mono fun x word owned => entered.stack_thread x owned word
          refine ⟨r', some call, goes, ?_, fun _ => rfl, ?_, steady.trans (stored.mono
            fun x steady owned => entered.stack_steady x owned steady)⟩
          · rw [if_pos calm, cell]
            exact ⟨stood.stands.bind.2, stood.framed, stood.method⟩
          · rintro _ ⟨⟩
            refine ⟨made, called.idle.kept thread, ?_⟩
            rw [← held]
            exact (thread.load (by decide) fun x word => ⟨.pendingException, by decide, word⟩).symm
        · -- The cell is left as it was.
          have same : a.cellAfter w.cell (some call) = w.cell := by
            rw [cellAfter, Option.elim_some, if_pos (.inl calm)]
          rw [if_neg calm] at ready
          refine ⟨r, some call, goes, by rwa [same, if_neg calm], fun _ => rfl, ?_, steady⟩
          rintro _ ⟨⟩
          exact ⟨made, called.idle, held.symm⟩
      · refine ⟨r, none, by simpa [made] using goes, ready, fun _ => rfl, unmade, ?_⟩
        rw [memory]
        exact .refl _ _

/-- What a synchronized method locks: the mirror where it is static, else local zero. -/
def lockTarget (a : Invocation) (m : Machine) : Dword :=
  if a.method.flags.isStatic then a.method.mirror else m.memory.load a.localZero 8

omit around goes under in
theorem Entered.reads_flags (entered : a.Entered code) (framed : a.Framed sp w m) :
    m.memory.load (a.record + a.cfg.method.offset .accessFlags) 4 =
      a.method.flags.bits.setWidth 64 := by
  have same : m.memory.load (a.record + a.cfg.method.offset .accessFlags) 4 =
      a.start.memory.load (a.record + a.cfg.method.offset .accessFlags) 4 :=
    framed.flags.load (by decide) fun _ covered => covered
  rw [same]
  exact entered.record (.accessFlags, a.method.flags.bits.setWidth 64)
    (by simp [MethodField.contents])

omit around goes under in
theorem At.locked_object {prog : Program} (entered : a.Entered code) (ready : a.At c sp w prog m) :
    lockedObject a.cfg m = a.lockTarget m := by
  have flags : field a.cfg m .accessFlags = a.method.flags.bits.setWidth 64 := by
    rw [field, ready.method]
    exact entered.reads_flags ready.framed
  rw [lockedObject, lockTarget, flags, ready.framed.at_locals, ready.framed.at_fp,
    ready.framed.reads .mirror a.method.mirror (by simp [slots])]
  have test := a.method.flags.wide_none .static
  cases static : a.method.flags.isStatic with
  | true =>
      rw [if_neg fun clear => by simpa [AccessFlags.isStatic] using static.symm.trans (test.mp clear)]
      rfl
  | false =>
      rw [if_pos (test.mpr static)]
      rfl

/-- The object in the monitor once the lock was asked for, or was not. -/
def lockedBy (a : Invocation) (called : Option Call) : Dword :=
  called.elim 0 fun call => if a.thrown (some call) = 0 then a.lockTarget call.before else 0

theorem At.locks {lockObject locked : Label}
    (contract : env.Answers a.watches p (a.cfg.callees.address .monitorEnter) (a.Inside code)
      (a.Enters code))
    (even : a.cfg.callees.address .monitorEnter &&& 1 = 0) (empty : w.object = 0)
    (ready : a.At c sp w
      ((if a.synchronized then lockMethod a.cfg lockObject locked else []) ++ rest) q.machine) :
    ∃ r, ∃ called : Option Call, Goes env a.watches p (events ++ made called) r ∧
      a.At c sp { w with object := a.lockedBy called }
        (if a.thrown called = 0 then rest else away) r.machine ∧
      called.isSome = a.synchronized ∧
      (∀ call ∈ called,
        a.Made code .monitorEnter sp { w with object := a.lockTarget call.before } call ∧
        call.before.reg .a1 = a.fp + firstMonitor ∧ a.Idle r.machine.memory ∧
        a.thrown (some call) = pending a.cfg a.current r.machine.memory) ∧
      Memory.Agree (a.Steady code) q.machine.memory r.machine.memory := by
  have entered := around.housed.entered
  obtain ⟨f, s, laid⟩ := a.placed entered.counted entered.aligned
  cases on : a.synchronized with
  | false =>
      rw [on] at ready
      refine ⟨q, none, by simpa [made] using goes, ?_, rfl, unmade, .refl _ _⟩
      rwa [show { w with object := a.lockedBy none } = w by rw [lockedBy, Option.elim_none, ← empty]]
  | true =>
      rw [on] at ready
      have owned : ∀ x, Memory.Covers a.objectAddress 8 x → a.Owns x :=
        fun x covered => laid.frame_owned x (frame_area_word (by decide) x covered)
      obtain ⟨k, ⟨leads, stands⟩, keeps, argument, memory⟩ := lock_method_runs a.cfg ready.stands (by
        rw [ready.framed.at_fp]
        exact fun x covered => around.housed.stack_free x (owned x covered))
      rw [ready.framed.at_fp] at argument memory
      rw [ready.locked_object entered] at memory
      have agree : Memory.Agree (fun x => ¬Memory.Covers a.objectAddress 8 x) q.machine.memory
          k.memory := by
        rw [memory]
        exact Memory.agree_store _ _ _ (by decide)
      have live : Memory.Agree a.Live q.machine.memory k.memory :=
        agree.mono fun x live covered => live.2 (laid.object_monitor x covered)
      have framed : a.Framed sp { w with object := a.lockTarget q.machine } k := by
        refine ready.framed.congr laid (fun v member => ?_) live
          (agree.mono fun x field covered =>
            entered.stack_record x (owned x covered) ⟨_, by decide, field⟩) fun _ => ?_
        · rw [registers_kept keeps (by decide) v member]
          exact ready.framed.registers v member
        · rw [memory]
          exact Memory.load_store_word _ _
      have steady : Memory.Agree (a.Steady code) q.machine.memory k.memory :=
        agree.mono fun x steady covered => entered.stack_steady x (owned x covered) steady
      obtain ⟨q', goes, rfl⟩ := around.leads goes leads
      obtain ⟨r, call, goes, made, called, enters, stood⟩ := framed.calls around contract
        (fun _ _ enters => enters.follows) even goes under stands
        (fun x monitor live => live.2 monitor) flags_fixed
      -- Local zero does not change between the choice of the object and the call.
      have same : a.lockTarget call.before = a.lockTarget q.machine := by
        have receiver : Memory.Agree (Memory.Covers a.localZero 8) q.machine.memory
            call.before.memory :=
          (live.mono laid.local_zero_live).trans (called.before.mono fun x covered =>
            entered.stack_anchor x (laid.live_owned x (laid.local_zero_live x covered)))
        rw [lockTarget, lockTarget, receiver.load (by decide) fun x covered => covered]
      refine ⟨r, some call, goes, ?_, rfl, ?_, steady.trans (called.steady entered enters.follows)⟩
      · refine stood (a.lockedBy (some call)) fun locked => ?_
        rw [enters.object, lockedBy, Option.elim_some, same]
        have held := made.framed.object locked
        rw [thrown, Option.elim_some]
        split
        · exact held
        · rfl
      · rintro _ ⟨⟩
        rw [same]
        exact ⟨made, called.argument.trans argument, called.idle, (called.pending entered).symm⟩

end Stages

end Runs

end Invocation

end EntryCode
