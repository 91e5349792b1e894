import EntryCode.Proofs.Interpreter.Guard

/-!
What one invocation does to the counter of its method. The layouts may put any field anywhere, so
nothing is read off the record that the invocation may have written since. What carries the count
through the calls is that the routines leave alone the counter, the code, and the word of the frame
that names the method.
-/

namespace EntryCode

open EntryCode.Frame Pinned Fragment Machine

/-- The fields of a method record that a routine is there to fill in. -/
def Callee.fills : Callee → List MethodField
  | .profileMethod => [.methodData]
  | .prepareNativeCall => [.nativeFunction, .signatureHandler]
  | _ => []

def Config.countUp (cfg : Config) (v : Dword) : Dword :=
  if cfg.counts then v + (if v.ult (limit cfg) then 1 else 0) else v

/-- Who is called for a counter that an invocation leaves at `v`. -/
def Config.overflowing (cfg : Config) (v : Dword) : List Callee :=
  if cfg.useCompiler && !v.ult (limit cfg) then [.counterOverflow] else []

/-- Who is called for method data at `data`, with the counter at `v`. -/
def Config.asking (cfg : Config) (data v : Dword) : List Callee :=
  if cfg.profile && (data = 0 && !v.ult (cfg.profileLimit.setWidth 64)) then [.profileMethod] else []

section Counter
variable {cfg : Config} {m : Machine}

theorem Config.counted_eq (counts : cfg.counts = true) :
    counted cfg m = cfg.countUp (field cfg m .invocationCounter) := by
  rw [Config.countUp, if_pos counts]
  rfl

/-- What is counted up is below the limit, so it stays a word. -/
theorem Fragment.counted_short (below : counting cfg m = true) : (counted cfg m).toNat < 2 ^ 32 := by
  have bound := cfg.counterLimit.isLt
  have less := below
  rw [counting, limit, BitVec.ult, decide_eq_true_eq, BitVec.toNat_setWidth] at less
  rw [counted, if_pos below, BitVec.toNat_add, show (1 : Dword).toNat = 1 from rfl]
  omega

end Counter

section Zeros

/-- A word that is zero stays so where zeros are stored, whatever the addresses. -/
theorem Memory.load_store_zero {m : Memory} {addr other : Dword} (none : m.load other 8 = 0) :
    (m.store addr 8 0).load other 8 = 0 := by
  refine Memory.load_zero _ _ fun k inside => ?_
  rw [Memory.byte_store _ _ _ _ _ (by decide)]
  split
  · simp
  · rw [← Memory.byte_store_held none, Memory.byte_store _ _ _ _ _ (by decide),
      if_pos ((Memory.covers_iff (by decide)).mpr ⟨k, inside, rfl⟩)]
    simp

theorem Fragment.pending_cleared {cfg : Config} {m : Machine} {addr : Dword} (zeroed : m.Zeroed)
    (calm : pending cfg addr m.memory = 0) :
    pending cfg addr (m.performs (clearAnchor cfg)).memory = 0 := by
  simp only [clearAnchor, Op.sd, performs_instruction, performs_nil, exec_store, reg_goto, reg_poke,
    memory_goto, memory_poke, reg_zero zeroed]
  exact Memory.load_store_zero (Memory.load_store_zero (Memory.load_store_zero calm))

end Zeros

namespace Invocation

section Contracts
variable (a : Invocation) (code other : Dword → Prop)

def MethodWord (x : Dword) : Prop :=
  Memory.Covers (a.fp + slot .method) 8 x

def Loose (x : Dword) : Prop :=
  (a.Granted x ∧ ¬a.MethodWord x) ∨ a.InThread x

/-- What an entry may store to up to the first bytecode or the native function. -/
def Written (x : Dword) : Prop :=
  a.Granted x ∨ anchor a.cfg a.current x ∨
    (a.cfg.counts = true ∧ a.Field .invocationCounter x) ∨
      (a.native = true ∧ (a.Arguments x ∨ a.ThreadWord .state x))

instance : DecidablePred a.Arguments :=
  fun x => inferInstanceAs (Decidable (Memory.Covers a.outgoing (a.top - a.outgoing).toNat x))

instance : DecidablePred a.Written :=
  fun x => inferInstanceAs (Decidable (a.Granted x ∨ anchor a.cfg a.current x ∨
    (a.cfg.counts = true ∧ a.Field .invocationCounter x) ∨
      (a.native = true ∧ (a.Arguments x ∨ a.ThreadWord .state x))))

def unwritten (x : Dword) : Bool := ¬a.Written x

/-- What is called must leave the code alone, the counter, the word that names the method, and
what else is asked for, but for the fields that it is there to fill in. -/
def Intact (fields : List MethodField) (x : Dword) : Prop :=
  code x ∨ a.Field .invocationCounter x ∨ a.MethodWord x ∨ other x ∧ ∀ f ∈ fields, ¬a.Field f x

/-- What stays as it is, while some fields are filled in. -/
def Lasting (fields : List MethodField) (x : Dword) : Prop :=
  other x ∧ ¬a.Granted x ∧ ¬a.InThread x ∧ ¬a.Field .invocationCounter x ∧ ∀ f ∈ fields, ¬a.Field f x

def count (mem : Memory) : Dword :=
  mem.load (a.record + a.cfg.method.offset .invocationCounter) 4

/-- The method data, or zero. -/
def data (mem : Memory) : Dword :=
  mem.load (a.record + a.cfg.method.offset .methodData) 8

/-- The registers that point to the frame, to the locals and to the thread. -/
def pins : List (Register × Dword) :=
  [(.fp, a.fp), (thread, a.current), (locals, a.localZero), (stack, a.top)]

/-- A routine is called from the frame, with the thread as its first argument; the one that is
called for an overflow gets no branch. -/
structure Calling (callee : Callee) (m : Machine) : Prop where
  routine : m.pc = a.cfg.callees.address callee
  pinned : ∀ v ∈ a.pins, m.reg v.1 = v.2
  thread : m.reg .a0 = a.current
  back : code (m.reg .ra)
  first : callee = .counterOverflow → m.reg .a1 = 0

/-- A routine returns without an exception, and leaves alone what it must. -/
structure Benign (callee : Callee) (m k : Machine) : Prop extends
    Returned (a.Intact code other callee.fills) m k where
  calm : pending a.cfg a.current k.memory = 0

def routines : List Callee :=
  [.counterOverflow, .profileMethod, .monitorEnter, .prepareNativeCall]

variable {σ : Type} (env : Environment σ) (p : Progress σ)

/-- No routine throws or writes the counter. -/
structure Obliging : Prop where
  even : ∀ callee, a.cfg.callees.address callee &&& 1 = 0
  returns : ∀ callee ∈ routines, env.Answers a.unwritten p (a.cfg.callees.address callee)
    (a.Calling code callee) (a.Benign code other callee)

/-- Calls as they are noticed, each made of the routine that stands beside it. -/
def events (calls : List (Callee × Call)) : List Event :=
  calls.map fun call => .call call.2

def filled (calls : List (Callee × Call)) : List MethodField :=
  calls.flatMap fun call => call.1.fills

/-- What memory holds of an invocation. -/
structure Remembers (v : Dword) (fields : List MethodField) (mem : Memory) : Prop where
  held : mem.load (a.fp + slot .method) 8 = a.record
  count : a.count mem = v
  lasting : Memory.Agree (a.Lasting other fields) a.start.memory mem

variable (c : Linked)

/-- Code that notices every store that an entry must not make. -/
structure Afoot : Prop where
  sited : a.Sited c
  inside : ∀ x, c.InCode x → code x
  quiet : c.Quiet env
  even : c.Even
  watched : c.watched = a.unwritten
  anchor_free : ∀ x, anchor a.cfg a.current x → ¬c.Covers x
  counter_free : a.cfg.counts = true → ∀ x, a.Field .invocationCounter x → ¬c.Covers x
  state_free : a.native = true → ∀ x, a.ThreadWord .state x → ¬c.Covers x
  away : c.Has (c.target (Routine.removeActivationException.label .start))
    Exit.removeActivationException
  stack_thread : ∀ x, a.Granted x → ¬a.InThread x
  record_thread : ∀ x, a.InRecord x → ¬a.InThread x

/-- The frame stands, the counter is at `v`, and `rest` comes next. -/
structure Seated (rest : Program) (v : Dword) (fields : List MethodField) (m : Machine) : Prop where
  pinned : ∀ w ∈ a.pins, m.reg w.1 = w.2
  method : m.reg Pinned.method = a.record
  memory : a.Remembers other v fields m.memory
  stands : c.Stands m rest

/-- A run in the frame, with the calls that it has made. -/
structure Tallied (rest : Program) (v : Dword) (calls : List (Callee × Call)) (q : Progress σ) :
    Prop extends a.Seated other c rest v (filled calls) q.machine where
  goes : Goes env a.unwritten p (events calls) q
  asked : ∀ call ∈ calls, a.Calling code call.1 call.2.before

/-- Control has come to the template of the first bytecode. -/
structure Poised (m : Machine) : Prop where
  pinned : ∀ w ∈ a.pins, m.reg w.1 = w.2
  method : m.reg Pinned.method = a.record
  there : m.pc = template a.cfg m &&& ~~~1

end Contracts

variable {a : Invocation} {code other : Dword → Prop} {c : Linked} {m k : Machine} {rest : Program}
  {σ : Type} {env : Environment σ} {p q : Progress σ} {v : Dword} {past : List (Callee × Call)}
  {fields : List MethodField} {mem now : Memory}

theorem events_append (calls more : List (Callee × Call)) :
    events (calls ++ more) = events calls ++ events more :=
  List.map_append

theorem filled_append (calls more : List (Callee × Call)) :
    filled (calls ++ more) = filled calls ++ filled more :=
  List.flatMap_append

theorem filled_listed (calls : List (Callee × Call)) : ∀ g ∈ filled calls,
    g ∈ [MethodField.methodData, .nativeFunction, .signatureHandler] := by
  intro g filled
  obtain ⟨⟨callee, call⟩, -, fills⟩ := List.mem_flatMap.mp filled
  cases callee <;> simp_all [Callee.fills]

theorem filled_none {calls : List (Callee × Call)} {cfg : Config} {v : Dword}
    (called : calls.map Prod.fst = cfg.overflowing v) : filled calls = [] := by
  have made : filled calls = (calls.map Prod.fst).flatMap Callee.fills :=
    (List.flatMap_map Prod.fst Callee.fills calls).symm
  rw [made, called, Config.overflowing]
  split <;> rfl

theorem pins_saved : ∀ w ∈ a.pins, w.1 ∈ Register.saved := by
  simp only [pins, List.forall_mem_cons]
  decide

theorem pins_kept {rs : List Register} (pinned : ∀ w ∈ a.pins, m.reg w.1 = w.2)
    (keeps : Keeps rs m k)
    (apart : ∀ r ∈ [Register.fp, thread, locals, stack], ∀ t ∈ rs, r.code ≠ t.code) :
    ∀ w ∈ a.pins, k.reg w.1 = w.2 := by
  have listed : ∀ w ∈ a.pins, w.1 ∈ [Register.fp, thread, locals, stack] := by
    simp only [pins, List.forall_mem_cons]
    decide
  intro w member
  rw [keeps.registers _ (apart _ (listed w member)), pinned w member]

theorem pins_returned {kept : Dword → Prop} (pinned : ∀ w ∈ a.pins, m.reg w.1 = w.2)
    (returned : Returned kept m k) : ∀ w ∈ a.pins, k.reg w.1 = w.2 := by
  intro w member
  rw [returned.saved _ (pins_saved w member), pinned w member]

theorem Seated.fp (seated : a.Seated other c rest v fields m) : m.reg .fp = a.fp :=
  seated.pinned (.fp, a.fp) (by simp [pins])

theorem Seated.thread (seated : a.Seated other c rest v fields m) :
    m.reg Pinned.thread = a.current :=
  seated.pinned (Pinned.thread, a.current) (by simp [pins])

theorem Seated.counter (seated : a.Seated other c rest v fields m) :
    field a.cfg m .invocationCounter = v := by
  rw [field, seated.method]
  exact seated.memory.count

section Afoot
variable (afoot : a.Afoot code env c)
include afoot

theorem Afoot.frame_granted (x : Dword) (inside : frameArea a.fp x) : a.Granted x := by
  obtain ⟨f, s, laid⟩ := a.placed afoot.sited.counted afoot.sited.aligned
  exact laid.frame_granted x inside

theorem Afoot.method_word_granted (x : Dword) (word : a.MethodWord x) : a.Granted x :=
  afoot.frame_granted x (frame_area_word (by decide) x word)

theorem Afoot.word_loose {off : Dword}
    (inside : (off - firstMonitor).toNat + wordSize ≤ fixedSize + monitorSize)
    (apart : Memory.Apart (slot .method) 8 off 8) (x : Dword)
    (covered : Memory.Covers (a.fp + off) 8 x) : a.Loose x := by
  refine .inl ⟨afoot.frame_granted x (frame_area_word inside x covered), fun named => ?_⟩
  obtain ⟨k, small, rfl⟩ := (Memory.covers_iff (by decide)).mp covered
  exact (apart.add a.fp).not_covers k small named

theorem Afoot.word_free {off : Dword}
    (inside : (off - firstMonitor).toNat + wordSize ≤ fixedSize + monitorSize) (x : Dword)
    (covered : Memory.Covers (a.fp + off) 8 x) : ¬c.Covers x :=
  afoot.sited.free x (afoot.frame_granted x (frame_area_word inside x covered))

theorem Afoot.store_agrees {off w : Dword}
    (inside : (off - firstMonitor).toNat + wordSize ≤ fixedSize + monitorSize)
    (apart : Memory.Apart (slot .method) 8 off 8) :
    Memory.Agree (fun x => ¬a.Loose x) mem (mem.store (a.fp + off) 8 w) :=
  (Memory.Agree.refl _ _).store _ (by decide) fun x covered =>
    not_not.mpr (afoot.word_loose inside apart x covered)

theorem Remembers.loosened (remembers : a.Remembers other v fields mem)
    (agree : Memory.Agree (fun x => ¬a.Loose x) mem now) : a.Remembers other v fields now := by
  refine ⟨?_, ?_, ?_⟩
  · refine (agree.load (by decide) fun x word => ?_).trans remembers.held
    rintro (⟨-, others⟩ | thread)
    · exact others word
    · exact afoot.stack_thread x (afoot.method_word_granted x word) thread
  · refine (agree.load (by decide) fun x counter => ?_).trans remembers.count
    have record : a.InRecord x := ⟨.invocationCounter, by decide, counter⟩
    rintro (⟨granted, -⟩ | thread)
    · exact afoot.sited.apart x granted record
    · exact afoot.record_thread x record thread
  · exact remembers.lasting.trans (agree.mono fun x lasting => by
      rintro (⟨granted, -⟩ | thread)
      · exact lasting.2.1 granted
      · exact lasting.2.2.1 thread)

omit afoot in
theorem Remembers.returned {more : List MethodField} (remembers : a.Remembers other v fields mem)
    (agree : Memory.Agree (a.Intact code other more) mem now) :
    a.Remembers other v (fields ++ more) now := by
  refine ⟨?_, ?_, ?_⟩
  · exact (agree.load (by decide) fun x word => .inr (.inr (.inl word))).trans remembers.held
  · exact (agree.load (by decide) fun x counter => .inr (.inl counter)).trans remembers.count
  · intro x lasting
    obtain ⟨kept, stack, thread, counter, free⟩ := lasting
    rw [List.forall_mem_append] at free
    rw [agree x (.inr (.inr (.inr ⟨kept, free.2⟩)))]
    exact remembers.lasting x ⟨kept, stack, thread, counter, free.1⟩

theorem Remembers.counted {w : Dword} (remembers : a.Remembers other v fields mem)
    (short : w.toNat < 2 ^ 32) : a.Remembers other w fields
      (mem.store (a.record + a.cfg.method.offset .invocationCounter) 4 w) := by
  have agree : Memory.Agree (fun x => ¬a.Field .invocationCounter x) mem
      (mem.store (a.record + a.cfg.method.offset .invocationCounter) 4 w) :=
    Memory.agree_store _ _ _ (by decide)
  refine ⟨?_, ?_, remembers.lasting.trans (agree.mono fun x lasting => lasting.2.2.2.1)⟩
  · refine (agree.load (by decide) fun x word counter => ?_).trans remembers.held
    exact afoot.sited.apart x (afoot.method_word_granted x word) ⟨_, by decide, counter⟩
  · rw [Invocation.count, Memory.load_store_same _ _ _ (by decide),
      Nat.mod_eq_of_lt (show w.toNat < 256 ^ 4 from short), BitVec.ofNat_toNat, BitVec.setWidth_eq]

theorem Afoot.leads {events : List Event} (goes : Goes env a.unwritten p events q)
    (leads : c.Leads q.machine k) : ∃ r, Goes env a.unwritten p events r ∧ r.machine = k :=
  goes.leads afoot.quiet (fun _ seen => afoot.watched ▸ seen) leads

theorem Seated.moves {prog : Program} {rs : List Register} (seated : a.Seated other c prog v fields m)
    (stands : c.Stands k rest) (keeps : Keeps rs m k)
    (apart : ∀ r ∈ [Register.fp, Pinned.thread, locals, stack], ∀ t ∈ rs, r.code ≠ t.code)
    (method : k.reg Pinned.method = a.record)
    (agree : Memory.Agree (fun x => ¬a.Loose x) m.memory k.memory) :
    a.Seated other c rest v fields k :=
  ⟨pins_kept seated.pinned keeps apart, method, seated.memory.loosened afoot agree, stands⟩

theorem Tallied.moves {prog : Program} {rs : List Register}
    (tallied : a.Tallied code other env p c prog v past q) (comes : c.Comes q.machine k rest)
    (keeps : Keeps rs q.machine k)
    (apart : ∀ r ∈ [Register.fp, Pinned.thread, locals, stack], ∀ t ∈ rs, r.code ≠ t.code)
    (method : k.reg Pinned.method = a.record)
    (agree : Memory.Agree (fun x => ¬a.Loose x) q.machine.memory k.memory) :
    ∃ r, r.machine = k ∧ a.Tallied code other env p c rest v past r := by
  have seated := tallied.toSeated.moves afoot comes.2 keeps apart method agree
  obtain ⟨r, goes, rfl⟩ := afoot.leads tallied.goes comes.1
  exact ⟨r, rfl, seated, goes, tallied.asked⟩

theorem Tallied.computes {prog : Program} {rs : List Register}
    (tallied : a.Tallied code other env p c prog v past q) (comes : c.Comes q.machine k rest)
    (keeps : Keeps rs q.machine k)
    (apart : ∀ r ∈ [Pinned.method, Register.fp, Pinned.thread, locals, stack], ∀ t ∈ rs,
      r.code ≠ t.code) (memory : k.memory = q.machine.memory) :
    ∃ r, r.machine = k ∧ a.Tallied code other env p c rest v past r :=
  tallied.moves afoot comes keeps (fun r member => apart r (List.mem_cons_of_mem _ member))
    ((keeps.registers _ (apart _ (by decide))).trans tallied.method)
    (memory ▸ Memory.Agree.refl _ _)

/-- What was called comes back to the code that stands behind the call. -/
theorem Afoot.stands_returned {prog : Program} (cleared : m.Zeroed) (here : c.InMemory m.memory)
    (back : c.Has (m.reg .ra) prog) (returned : Returned (a.Intact code other fields) m k) :
    c.Stands k prog := by
  refine ⟨returned.cleared cleared, ?_, by rw [returned.back]; exact back⟩
  exact here.congr fun x covered => returned.memory x (.inl (afoot.inside x covered))

/-- Up to the routine: the frame is published, and the method is noted in it. -/
theorem Tallied.enters {callee : Callee} {what : String} {l : Label}
    (obliging : a.Obliging code other env p)
    (first : callee = .counterOverflow → q.machine.reg .a1 = 0)
    (tallied : a.Tallied code other env p c (callRuntime a.cfg callee what l ++ rest) v past q) :
    ∃ r, Goes env a.unwritten p (events past) r ∧ a.Calling code callee r.machine ∧
      a.Remembers other v (filled past) r.machine.memory ∧ r.machine.Zeroed ∧
      c.InMemory r.machine.memory ∧
      c.Has (r.machine.reg .ra) (afterCall a.cfg ++ (checkPending a.cfg l ++ rest)) ∧
      r.machine.reg .sp = q.machine.reg .sp := by
  obtain ⟨k, leads, back, routine, keeps, argument, here, agree⟩ := call_runtime_leads a.cfg callee
    tallied.stands (obliging.even _)
    (by
      rw [tallied.fp]
      exact afoot.word_free (by decide))
    (by
      rw [tallied.thread]
      exact afoot.anchor_free)
  obtain ⟨r, goes, rfl⟩ := afoot.leads tallied.goes leads
  have calling : a.Calling code callee r.machine :=
    ⟨routine, pins_kept tallied.pinned keeps (by decide), argument.trans tallied.thread,
      afoot.inside _ (Linked.has_in_code back),
      fun overflow => (keeps.registers .a1 (by decide)).trans (first overflow)⟩
  have memory : a.Remembers other v (filled past) r.machine.memory := by
    refine tallied.memory.loosened afoot (Memory.Agree.trans ?_ (agree.mono ?_))
    · rw [tallied.fp]
      exact afoot.store_agrees (by decide) (by decide)
    · rw [tallied.thread]
      exact fun x fixed anchored => fixed (.inr (.of_anchor anchored))
  exact ⟨r, goes, calling, memory, (keeps.registers .zero (by decide)).trans tallied.stands.cleared,
    here, back, keeps.registers _ (by decide)⟩

theorem Tallied.calls {callee : Callee} {what : String} {l : Label}
    (obliging : a.Obliging code other env p) (listed : callee ∈ routines)
    (first : callee = .counterOverflow → q.machine.reg .a1 = 0)
    (tallied : a.Tallied code other env p c (callRuntime a.cfg callee what l ++ rest) v past q) :
    ∃ (r : Progress σ) (call : Call),
      a.Tallied code other env p c rest v (past ++ [(callee, call)]) r ∧
      Memory.Agree (fun x => ¬a.Loose x) call.after.memory r.machine.memory ∧
      r.machine.reg .sp = q.machine.reg .sp := by
  obtain ⟨r₁, goes, calling, memory, zeroed, here, back, sp⟩ := tallied.enters afoot obliging first
  obtain ⟨r₂, goes, benign⟩ := goes.answered (obliging.returns callee listed) calling.routine calling
  have stands := afoot.stands_returned zeroed here back benign.toReturned
  have pinned := pins_returned calling.pinned benign.toReturned
  have memory := memory.returned benign.memory
  have holder : r₂.machine.reg Pinned.thread = a.current :=
    pinned (Pinned.thread, a.current) (by simp [pins])
  have frame : r₂.machine.reg .fp = a.fp := pinned (.fp, a.fp) (by simp [pins])
  obtain ⟨k, ⟨leads, stands⟩, keeps, named, -, cleared, agree⟩ := after_call_reaches a.cfg stands (by
    rw [holder]
    exact afoot.anchor_free)
  rw [holder] at agree
  have agree : Memory.Agree (fun x => ¬a.Loose x) r₂.machine.memory k.memory :=
    agree.mono fun x fixed anchored => fixed (.inr (.of_anchor anchored))
  have memory := memory.loosened afoot agree
  have pinned := pins_kept pinned keeps (by decide)
  obtain ⟨k', ⟨leads', stands⟩, keeps', same⟩ := check_pending_runs a.cfg stands afoot.away
  -- Clearing the anchor cannot bring an exception about, even where the layout puts it in the same word.
  rw [pinned (Pinned.thread, a.current) (by simp [pins]), cleared,
    if_pos (pending_cleared (benign.cleared zeroed) benign.calm)] at stands
  obtain ⟨r, goes, rfl⟩ := afoot.leads goes (leads.trans leads')
  rw [same.symm] at memory agree
  refine ⟨r, ⟨r₁.machine, r₂.machine⟩,
    ⟨⟨pins_kept pinned keeps' (by decide), ?_, ?_, stands⟩, ?_, ?_⟩, agree, ?_⟩
  · rw [keeps'.registers _ (by decide), named, frame, ← same]
    exact memory.held
  · rw [filled_append]
    simpa [filled] using memory
  · rw [events_append]
    exact goes
  · exact List.forall_mem_append.mpr ⟨tallied.asked, by simpa using calling⟩
  · rw [keeps'.registers .sp (by decide), keeps.registers .sp (by decide),
      benign.saved .sp (by decide), sp]

theorem Seated.counted {prog : Program} (counts : a.cfg.counts = true)
    (seated : a.Seated other c prog v fields m) :
    a.Remembers other (a.cfg.countUp v) fields (countedMemory a.cfg m) := by
  have sum := Config.counted_eq (m := m) counts
  rw [seated.counter] at sum
  rw [countedMemory, seated.method]
  split
  · next below =>
      have short := counted_short below
      rw [sum] at short ⊢
      exact seated.memory.counted afoot short
  · next full =>
      -- At the limit nothing is stored, and nothing would have been added.
      have same : a.cfg.countUp v = v := by
        rw [← sum, Fragment.counted, if_neg full, seated.counter]
        exact BitVec.add_zero v
      rw [same]
      exact seated.memory

/-- An overflow is reported out of line, with a jump back to where the invocation goes on. -/
theorem Tallied.reports {proceed done : Label} {prog : Program}
    (obliging : a.Obliging code other env p) (lies : c.Has (c.target proceed) prog)
    (tallied : a.Tallied code other env p c (.mv .a1 .zero ::
      (callRuntime a.cfg .counterOverflow "frequency_counter_overflow" done ++ [Op.j proceed]))
      v past q) :
    ∃ r call, a.Tallied code other env p c prog v (past ++ [(Callee.counterOverflow, call)]) r := by
  have cleared := tallied.stands.cleared
  obtain ⟨r₁, same, tallied⟩ := tallied.computes afoot (tallied.stands.immediate (by simp))
    (((Keeps.refl [.a1] _).put (r := .a1) (by decide) _).goto _) (by decide) rfl
  have zero : r₁.machine.reg .a1 = 0 := by
    rw [same, reg_goto, reg_put_self _ _ _ (by decide), reg_zero cleared]
    rfl
  obtain ⟨r₂, call, tallied, -, -⟩ := tallied.calls afoot obliging (by decide) fun _ => zero
  obtain ⟨r, -, tallied⟩ := tallied.computes afoot (tallied.stands.jump lies)
    ((Keeps.refl [] _).goto _) (by decide) rfl
  exact ⟨r, call, tallied⟩

/-- The invocation is counted; it goes on here whether or not an overflow is reported. -/
theorem Tallied.counts {overflow proceed done counted : Label} {body : Program}
    (obliging : a.Obliging code other env p)
    (tallied : a.Tallied code other env p c
      ((if a.cfg.counts then countInvocation a.cfg overflow counted else []) ++ .bind proceed ::
        (body ++ if a.cfg.useCompiler then counterOverflow a.cfg overflow proceed done else []))
      v [] q) :
    ∃ r made, a.Tallied code other env p c
        (body ++ if a.cfg.useCompiler then counterOverflow a.cfg overflow proceed done else [])
        (a.cfg.countUp v) made r ∧
      made.map Prod.fst = a.cfg.overflowing (a.cfg.countUp v) := by
  obtain ⟨-, next, placed⟩ := Linked.has_append tallied.stands.placed
  obtain ⟨target, after⟩ := Linked.has_bind.mp placed
  cases counts : a.cfg.counts with
  | false =>
      -- Nothing is emitted, and without a compiler nothing is called either.
      rw [counts] at tallied
      obtain ⟨r, -, tallied⟩ := tallied.computes afoot
        ⟨.refl _, (Linked.Stands.bind tallied.stands).2⟩ (.refl [] _) (by decide) rfl
      have silent : a.cfg.useCompiler = false := (Bool.or_eq_false_iff.mp counts).1
      have same : a.cfg.countUp v = v := by rw [Config.countUp, counts]; rfl
      refine ⟨r, [], same.symm ▸ tallied, ?_⟩
      rw [Config.overflowing, silent]
      rfl
  | true =>
      rw [counts] at tallied
      obtain ⟨k, ⟨leads, stands⟩, keeps, memory⟩ := count_invocation_runs a.cfg _
        tallied.stands (counter_overflow_placed a.cfg after)
        (by
          rw [tallied.method]
          exact afoot.counter_free counts)
      obtain ⟨r, goes, rfl⟩ := afoot.leads tallied.goes leads
      -- Whether there is an overflow is decided by the counter as it is afterwards.
      have counted : a.Tallied code other env p c _ (a.cfg.countUp v) [] r :=
        ⟨⟨pins_kept tallied.pinned keeps (by decide),
          (keeps.registers _ (by decide)).trans tallied.method,
          memory ▸ tallied.toSeated.counted afoot counts, stands⟩, goes, tallied.asked⟩
      have sum := Config.counted_eq (m := q.machine) counts
      rw [tallied.counter] at sum
      rw [Fragment.overflows, sum] at counted
      rw [Config.overflowing]
      split at counted
      · next full =>
          obtain ⟨r₁, call, counted⟩ := counted.reports afoot obliging (target ▸ after)
          exact ⟨r₁, _, counted, by rw [if_pos full]; rfl⟩
      · next under =>
          obtain ⟨r₁, -, counted⟩ := counted.computes afoot
            ⟨.refl _, (Linked.Stands.bind counted.stands).2⟩ (.refl [] _) (by decide) rfl
          exact ⟨r₁, [], counted, by rw [if_neg under]; rfl⟩

/-- Method data is asked for where there is none and the counter has come to its limit. -/
theorem Tallied.profiles {profiled done null : Label} (obliging : a.Obliging code other env p)
    (tallied : a.Tallied code other env p c
      ((if a.cfg.profile then profileMethod a.cfg profiled done null else []) ++ rest) v past q) :
    ∃ r made, a.Tallied code other env p c rest v (past ++ made) r ∧
      made.map Prod.fst = a.cfg.asking (a.data q.machine.memory) v := by
  have asks : a.cfg.asking (a.data q.machine.memory) v =
      if a.cfg.profile && asksForData a.cfg q.machine then [.profileMethod] else [] := by
    rw [asksForData, tallied.counter, field, tallied.method]
    rfl
  rw [asks]
  cases on : a.cfg.profile with
  | false =>
      rw [on] at tallied
      exact ⟨q, [], by simpa using tallied, rfl⟩
  | true =>
      rw [on] at tallied
      rw [Bool.true_and]
      obtain ⟨k, comes, keeps, memory⟩ := profile_method_runs a.cfg tallied.stands
      obtain ⟨r, -, tallied⟩ := tallied.computes afoot comes keeps (by decide) memory
      split at tallied
      · next asks =>
          rw [askForData, List.append_assoc] at tallied
          obtain ⟨r₁, call, tallied, -, -⟩ := tallied.calls afoot obliging (by decide) (by simp)
          obtain ⟨k, ⟨leads, stands⟩, keeps, memory⟩ := set_profile_cell_runs a.cfg tallied.stands (by
            rw [tallied.fp]
            exact afoot.word_free (by decide))
          obtain ⟨r₂, -, tallied⟩ := tallied.moves afoot ⟨leads, stands.bind.2⟩ keeps (by decide)
            ((keeps.registers _ (by decide)).trans tallied.method) (by
              rw [memory, tallied.fp]
              split
              · exact .refl _ _
              · exact afoot.store_agrees (by decide) (by decide))
          exact ⟨r₂, _, tallied, by rw [if_pos asks]; rfl⟩
      · next asks => exact ⟨r, [], by simpa using tallied, by rw [if_neg asks]; rfl⟩

theorem Tallied.locks {lockObject locked : Label} (obliging : a.Obliging code other env p)
    (tallied : a.Tallied code other env p c
      ((if a.synchronized then lockMethod a.cfg lockObject locked else []) ++ rest) v past q) :
    ∃ r made, a.Tallied code other env p c rest v (past ++ made) r ∧
      made.map Prod.fst = if a.synchronized then [.monitorEnter] else [] := by
  cases on : a.synchronized with
  | false =>
      rw [on] at tallied
      exact ⟨q, [], by simpa using tallied, rfl⟩
  | true =>
      rw [on] at tallied
      obtain ⟨k, comes, keeps, -, memory⟩ := lock_method_runs a.cfg tallied.stands (by
        rw [tallied.fp]
        exact afoot.word_free (by decide))
      obtain ⟨r, -, tallied⟩ := tallied.moves afoot comes keeps (by decide)
        ((keeps.registers _ (by decide)).trans tallied.method) (by
          rw [memory, tallied.fp]
          exact afoot.store_agrees (by decide) (by decide))
      obtain ⟨r₁, call, tallied, -, -⟩ := tallied.calls afoot obliging (by decide) (by simp)
      exact ⟨r₁, _, tallied, rfl⟩

/-- The frame is pushed, which touches nothing but the stack that was granted. -/
theorem Afoot.frames {l : Label} (here : p.machine = a.start) (cleared : a.Cleared k)
    (comes : c.Comes a.start k (fixedFrame a.cfg a.native a.synchronized l ++ rest)) :
    ∃ q, a.Tallied code other env p c rest (a.count a.start.memory) [] q := by
  obtain ⟨f, s, laid⟩ := a.placed afoot.sited.counted afoot.sited.aligned
  obtain ⟨first, stands⟩ := comes
  obtain ⟨k', fill, fp, -, top, -⟩ := afoot.sited.pushes_frame cleared stands
  obtain ⟨second, stands⟩ := fill.comes
  obtain ⟨q, goes, rfl⟩ := afoot.leads (.done p) (here ▸ first.trans second)
  have named : k.reg Pinned.method = a.record := cleared.keeps.registers _ (by decide)
  have outside := fill.outside
  have holds := fill.holds
  rw [cleared.sp] at outside holds
  -- Up to here only locals and the frame were stored to, which are on the stack that was granted.
  have agree : Memory.Agree (fun x => ¬a.Granted x) a.start.memory q.machine.memory :=
    (cleared.outside laid).trans (outside.mono fun x apart framed =>
      apart (laid.frame_granted x framed))
  refine ⟨q, ⟨?_, ?_, ⟨?_, ?_, ?_⟩, stands⟩, goes, List.forall_mem_nil _⟩
  · simp only [pins, List.forall_mem_cons]
    refine ⟨fp, ?_, ?_, top, List.forall_mem_nil _⟩
    · exact (fill.keeps.registers _ (by decide)).trans (cleared.keeps.registers _ (by decide))
    · exact (fill.keeps.registers _ (by decide)).trans cleared.locals
  · exact (fill.keeps.registers _ (by decide)).trans named
  · rw [← named]
    exact holds (slot .method, k.reg Pinned.method) (by simp [frameWords, headWords])
  · exact agree.load (by decide) fun x counter granted =>
      afoot.sited.apart x granted ⟨.invocationCounter, by decide, counter⟩
  · exact agree.mono fun x lasting => lasting.2.1

variable (other) in
theorem Afoot.opens {e : Extensions} {spot : Spot → Label} {l : Label} {guard : Program}
    (here : p.machine = a.start) (interpreted : a.native = false) (fits : a.overflows = false)
    (stands : c.Stands a.start (a.clearLocals e spot ++
      (fixedFrame a.cfg false a.synchronized l ++ rest)))
    (there : c.Has (c.target (Routine.throwStackOverflow.label .start)) guard) :
    ∃ q, a.Tallied code other env p c rest (a.count a.start.memory) [] q := by
  obtain ⟨k, comes, -, cleared⟩ := afoot.sited.clears_locals e interpreted stands there
  rw [fits, if_neg (by decide), ← interpreted] at comes
  exact afoot.frames here (cleared fits) comes

variable (other) in
theorem Afoot.opens_native {e : Extensions} {l : Label} (here : p.machine = a.start)
    (native : a.native = true)
    (stands : c.Stands a.start (findLocals a.cfg e ++
      (.andi .sp stack (-BitVec.ofNat 64 stackAlignment) ::
        (fixedFrame a.cfg true a.synchronized l ++ rest)))) :
    ∃ q, a.Tallied code other env p c rest (a.count a.start.memory) [] q := by
  obtain ⟨k, comes, cleared⟩ := afoot.sited.native_cleared e native stands
  rw [← native] at comes
  exact afoot.frames here cleared comes

theorem Tallied.dispatches {e : Extensions}
    (tallied : a.Tallied code other env p c (dispatchFirst a.cfg e ++ rest) v past q) :
    ∃ r, Goes env a.unwritten p (events past) r ∧ a.Poised r.machine ∧
      r.machine.memory = q.machine.memory := by
  obtain ⟨k, leads, there, keeps, memory, -⟩ := dispatch_first_runs a.cfg e tallied.stands
  obtain ⟨r, goes, rfl⟩ := afoot.leads tallied.goes leads
  have same : template a.cfg r.machine = template a.cfg q.machine := by
    rw [template, template, memory, keeps.registers _ (by decide)]
  refine ⟨r, goes, ⟨pins_kept tallied.pinned keeps (by decide), ?_, ?_⟩, memory⟩
  · exact (keeps.registers _ (by decide)).trans tallied.method
  · rw [same, there]

end Afoot

end Invocation

end EntryCode
