import EntryCode.Proofs.Interpreter.Departure
import EntryCode.Proofs.Interpreter.Entrance

/-!
A runtime that keeps its contracts. Around every method that is entered as it should be there is
one: its routines leave an exception or none, a native function is found when it is asked for, and
nothing else changes.
-/

namespace EntryCode

open EntryCode.Frame Pinned Fragment Machine

/-- A routine returns, with memory changed to `mem`. -/
def Machine.returning (m : Machine) (mem : Memory) : Machine :=
  { m with memory := mem, pc := m.reg .ra }

theorem Machine.returning_returned {kept : Dword → Prop} {m : Machine} {mem : Memory}
    (same : Memory.Agree kept m.memory mem) : Returned kept m (m.returning mem) :=
  ⟨fun cleared => cleared, rfl, fun _ _ => rfl, same⟩

/-- Routines that only work on memory, each at its address. -/
def Environment.serving (routines : List (Dword × (Machine → Memory))) : Environment Unit where
  trap x := (routines.lookup x).map fun work m _ memo =>
    ({ m with memory := work m }, memo, .resume)
  observe _ memo := memo

section Serving
variable {routines : List (Dword × (Machine → Memory))} {addr : Dword} {work : Machine → Memory}

theorem Environment.serving_answers (found : routines.lookup addr = some work)
    {watched : Dword → Bool} {p : Progress Unit} {ready : Machine → Prop}
    {rel : Machine → Machine → Prop} (keeps : ∀ m, ready m → rel m (m.returning (work m))) :
    (serving routines).Answers watched p addr ready rel := by
  intro events q goes here able
  refine ⟨⟨q.machine.returning (work q.machine), q.steps, ()⟩, ?_, keeps _ able⟩
  have trap : (serving routines).trap q.machine.pc = some fun m _ memo =>
      ({ m with memory := work m }, memo, .resume) := by
    rw [here]
    exact congrArg (Option.map _) found
  exact ⟨_, _, (), .resume, trap, rfl, rfl, rfl, rfl⟩

theorem Environment.serving_calls {p q : Progress Unit} (calls : p.Calls (serving routines) q) :
    ∃ r ∈ routines, q.machine = p.machine.returning (r.2 p.machine) := by
  obtain ⟨act, m, memo, action, trap, acts, next, -, -⟩ := calls
  obtain ⟨work, found, rfl⟩ := Option.map_eq_some_iff.mp trap
  cases acts
  obtain ⟨first, last, rfl, -⟩ := List.lookup_eq_some_iff.mp found
  exact ⟨(p.machine.pc, work), by simp, (Option.some.inj next).symm⟩

theorem lookup_map {α : Type} {place : α → Dword} (val : α → Machine → Memory) {xs : List α}
    (distinct : (xs.map place).Nodup) {x : α} (member : x ∈ xs) :
    (xs.map fun y => (place y, val y)).lookup (place x) = some (val x) := by
  induction xs with
  | nil => cases member
  | cons y xs ih =>
      rw [List.map_cons, List.nodup_cons] at distinct
      rw [List.map_cons, List.lookup_cons]
      rcases List.mem_cons.mp member with rfl | later
      · simp
      · have other : place x ≠ place y := fun same =>
          distinct.1 (same ▸ List.mem_map_of_mem later)
        rw [beq_false_of_ne other]
        exact ih distinct.2 later

end Serving

/-- The runtime around an invocation: the exception that its routines leave, whether those leave it
alone that only release a lock or stop the thread, and the handles of the thread. -/
structure Surroundings where
  exception : Dword
  leaf : Bool
  handles : Dword

namespace Surroundings

/-- Who can be called: the native function, and the routines that no runtime is without. -/
def parties : List (Option Callee) :=
  none :: (Callee.all.filter Callee.required).map some

section Routines
variable (o : Surroundings) (a : Invocation) (b : Invocation.Binding)

def place : Option Callee → Dword
  | none => b.function
  | some callee => a.cfg.callees.address callee

def handed : List ThreadField :=
  [.activeHandles, .pollingWord]

/-- The thread is asked to stop, and gets its handles. -/
def handled (mem : Memory) : Memory :=
  (mem.store (a.current + a.cfg.thread.offset .pollingWord) 8 1).store
    (a.current + a.cfg.thread.offset .activeHandles) 8 o.handles

def leaves (mem : Memory) : Memory :=
  (o.handled a mem).store (a.current + a.cfg.thread.offset .pendingException) 8 o.exception

/-- The handler is installed, and entered in the record with the function. -/
def binds (mem : Memory) : Memory :=
  ((mem.write b.handler b.code).store (a.record + a.cfg.method.offset .nativeFunction) 8
    b.function).store (a.record + a.cfg.method.offset .signatureHandler) 8 b.handler

def task : Option Callee → Memory → Memory
  | some .monitorEnter, mem => if o.exception = 0 then mem else mem.store a.objectAddress 8 0
  | some .prepareNativeCall, mem => binds a b mem
  | _, mem => mem

def isLeaf : Option Callee → Bool
  | some .monitorExit | some .checkSpecialCondition => true
  | _ => false

def work (q : Option Callee) (m : Machine) : Memory :=
  if isLeaf q && o.leaf then o.handled a (o.task a b q m.memory)
  else o.leaves a (o.task a b q m.memory)

theorem work_native (m : Machine) : o.work a b none m = o.leaves a m.memory := rfl

theorem work_leaf {callee : Callee} (leaf : isLeaf (some callee) = true) (m : Machine) :
    o.work a b (some callee) m =
      if o.leaf then o.handled a m.memory else o.leaves a m.memory := by
  cases callee with
  | monitorExit | checkSpecialCondition => rfl
  | _ => cases leaf

def environment : Environment Unit :=
  .serving (parties.map fun q => (place a b q, o.work a b q))

/-- The routines have addresses of their own, outside of the code. -/
structure Housing (code : Dword → Prop) : Prop where
  distinct : (parties.map (place a b)).Nodup
  outside : ∀ q ∈ parties, ¬code (place a b q)

/-- Everything that the routines work on lies apart. -/
structure Hosting (code kept : Dword → Prop) : Prop where
  entered : a.Entered code
  fields : a.cfg.method.Parted MethodField.inRecord
  part : ∀ x, kept x → code x
  handler : ∀ x, b.Covers x → code x ∧ ¬kept x
  short : b.code.length ≤ 2 ^ 64
  blocked : ∀ x, Memory.Covers (o.handles + a.cfg.thread.offset .handleTop) 4 x →
    ¬code x ∧ ¬a.Owns x ∧ ¬a.InRecord x ∧ ¬a.InThread x

end Routines

variable {o : Surroundings} {a : Invocation} {b : Invocation.Binding} {code kept : Dword → Prop}
  {lent : Dword → Prop} {fields : List MethodField} {mem : Memory} {m : Machine}
  {p : Progress Unit}

theorem Housing.quiet (housing : Housing a b code) (x : Dword) (inside : code x) :
    (o.environment a b).trap x = none := by
  have missing : (parties.map fun q => (place a b q, o.work a b q)).lookup x = none := by
    refine List.lookup_eq_none_iff.mpr fun r member => ?_
    obtain ⟨q, listed, rfl⟩ := List.mem_map.mp member
    rw [bne_iff_ne]
    rintro rfl
    exact housing.outside q listed inside
  exact congrArg (Option.map _) missing

/-- A contract holds of a routine where it holds of its work. -/
theorem Housing.answers (housing : Housing a b code) {q : Option Callee} (member : q ∈ parties)
    {watched : Dword → Bool} {ready : Machine → Prop} {rel : Machine → Machine → Prop}
    (keeps : ∀ m, ready m → rel m (m.returning (o.work a b q m))) :
    (o.environment a b).Answers watched p (place a b q) ready rel :=
  Environment.serving_answers (lookup_map (o.work a b) housing.distinct member) keeps

section Thread

theorem handled_agree : Memory.Agree (fun x => ¬a.Words handed x) mem (o.handled a mem) :=
  ((Memory.Agree.refl _ _).store _ (by decide) fun _ covered free =>
    free ⟨.pollingWord, by decide, covered⟩).store _ (by decide) fun _ covered free =>
      free ⟨.activeHandles, by decide, covered⟩

theorem leaves_agree :
    Memory.Agree (fun x => ¬a.Words (.pendingException :: handed) x) mem (o.leaves a mem) := by
  have handed : Memory.Agree (fun x => ¬a.Words (.pendingException :: handed) x) mem
      (o.handled a mem) := by
    refine handled_agree.mono fun x free word => free ?_
    obtain ⟨f, member, word⟩ := word
    exact ⟨f, List.mem_cons_of_mem _ member, word⟩
  exact handed.store _ (by decide) fun _ covered free =>
    free ⟨.pendingException, List.mem_cons_self, covered⟩

theorem handed_in_thread {x : Dword} (word : a.Words (.pendingException :: handed) x) :
    a.InThread x := by
  obtain ⟨f, member, word⟩ := word
  have listed : ∀ f ∈ ThreadField.pendingException :: handed, f ∈ ThreadField.inRecord := by decide
  exact ⟨f, listed f member, word⟩

theorem leaves_outside : Memory.Agree (fun x => ¬a.InThread x) mem (o.leaves a mem) :=
  leaves_agree.mono fun _ free word => free (handed_in_thread word)

theorem handled_outside : Memory.Agree (fun x => ¬a.InThread x) mem (o.handled a mem) :=
  handled_agree.mono fun _ free ⟨f, member, word⟩ =>
    free (handed_in_thread ⟨f, List.mem_cons_of_mem _ member, word⟩)

theorem pending_leaves : pending a.cfg a.current (o.leaves a mem) = o.exception :=
  Memory.load_store_word _ _

theorem load_leaves (words : a.cfg.thread.Parted ThreadField.inRecord) {f : ThreadField}
    (listed : f ∈ ThreadField.inRecord) (other : f ≠ .pendingException) (wide : f.width = 8) :
    (o.leaves a mem).load (a.current + a.cfg.thread.offset f) 8 =
      (o.handled a mem).load (a.current + a.cfg.thread.offset f) 8 := by
  have agree : Memory.Agree (a.ThreadWord f) (o.handled a mem) (o.leaves a mem) :=
    (Memory.Agree.refl _ _).store _ (by decide) fun x covered word =>
      Invocation.words_apart words listed (by decide) other x word covered
  refine agree.load (by decide) fun x covered => ?_
  rwa [Invocation.ThreadWord, wide]

theorem handles_leaves (words : a.cfg.thread.Parted ThreadField.inRecord) :
    (o.leaves a mem).load (a.current + a.cfg.thread.offset .activeHandles) 8 = o.handles :=
  (load_leaves words (by decide) (by decide) rfl).trans (Memory.load_store_word _ _)

theorem request_leaves (words : a.cfg.thread.Parted ThreadField.inRecord) :
    (o.leaves a mem).load (a.current + a.cfg.thread.offset .pollingWord) 8 = 1 := by
  have apart : Memory.Apart (a.cfg.thread.offset .activeHandles) 8
      (a.cfg.thread.offset .pollingWord) 8 :=
    words.apart (f := .activeHandles) (g := .pollingWord) (by decide) (by decide) (by decide)
  exact (load_leaves words (by decide) (by decide) rfl).trans
    ((Memory.load_store_apart _ _ _ (by decide) _ _ (apart.add a.current)).trans
      (Memory.load_store_word _ _))

/-- Whether the exception is left or not, only the thread changes, and it has its handles. -/
theorem leaf_outside : Memory.Agree (fun x => ¬a.InThread x) mem
    (if o.leaf then o.handled a mem else o.leaves a mem) := by
  split
  · exact handled_outside
  · exact leaves_outside

theorem handles_leaf (words : a.cfg.thread.Parted ThreadField.inRecord) :
    (if o.leaf then o.handled a mem else o.leaves a mem).load
      (a.current + a.cfg.thread.offset .activeHandles) 8 = o.handles := by
  split
  · exact Memory.load_store_word _ _
  · exact handles_leaves words

end Thread

section Contracts
variable (hosting : o.Hosting a b code kept)
include hosting

theorem Hosting.stack_owned (inside : a.Inside code m) (x : Dword)
    (covered : Memory.Covers (m.reg .sp) (a.stackEnd - m.reg .sp).toNat x) : a.Owns x := by
  obtain ⟨f, s, laid⟩ := a.placed hosting.entered.counted hosting.entered.aligned
  have below := (laid.covers_stack inside.under).mp covered
  rw [Invocation.Owns, Memory.Covers, wordSize]
  exact below.2

/-- What a routine must keep is no part of the thread. -/
theorem Hosting.kept_thread (inside : a.Inside code m)
    (listed : ∀ f ∈ fields, f ∈ MethodField.inRecord) (x : Dword)
    (must : a.Kept code lent fields m x) : ¬a.InThread x := by
  have entered := hosting.entered
  rcases must with within | ⟨covered, -⟩ | ⟨f, member, field⟩
  · exact fun thread => entered.thread_code x thread within
  · exact entered.stack_thread x (hosting.stack_owned inside x covered)
  · exact entered.record_thread x ⟨f, listed f member, field⟩

/-- A routine that only leaves its exception follows the calling convention. -/
theorem Hosting.follows (inside : a.Inside code m)
    (listed : ∀ f ∈ fields, f ∈ MethodField.inRecord) :
    a.Follows code lent fields m (m.returning (o.leaves a m.memory)) :=
  returning_returned (leaves_outside.mono (hosting.kept_thread inside listed))

theorem Hosting.enters (inside : a.Inside code m) :
    a.Enters code m (m.returning (o.leaves a
      (if o.exception = 0 then m.memory else m.memory.store a.objectAddress 8 0))) := by
  have entered := hosting.entered
  obtain ⟨f, s, laid⟩ := a.placed entered.counted entered.aligned
  have owned : ∀ x, Memory.Covers a.objectAddress 8 x → a.Owns x := fun x covered =>
    laid.frame_owned x (frame_area_word (by decide) x covered)
  have apart : ∀ x, Memory.Covers a.objectAddress 8 x → ¬a.InThread x := fun x covered =>
    entered.stack_thread x (owned x covered)
  -- The object is taken out of the monitor, which was lent.
  have first : Memory.Agree (a.Kept code a.Monitor a.fixedFields m) m.memory
      (if o.exception = 0 then m.memory else m.memory.store a.objectAddress 8 0) := by
    split
    · exact .refl _ _
    · refine (Memory.Agree.refl _ _).store _ (by decide) fun x covered must => ?_
      rcases must with within | ⟨-, free⟩ | ⟨g, member, field⟩
      · exact entered.stack_code x (owned x covered) within
      · exact free (laid.object_monitor x covered)
      · exact entered.stack_record x (owned x covered) ⟨g, Invocation.fixed_in_record g member, field⟩
  refine ⟨returning_returned (first.trans (leaves_outside.mono
    (hosting.kept_thread inside Invocation.fixed_in_record))), ?_⟩
  rw [returning, pending_leaves, leaves_outside.load (by decide) apart]
  split
  · rfl
  · exact Memory.load_store_word _ _

/-- The routine that finds a native function writes the handler and two fields of the record. -/
theorem Hosting.binds_agree : Memory.Agree (fun x => ¬b.Covers x ∧ ¬a.Field .nativeFunction x ∧
    ¬a.Field .signatureHandler x) mem (binds a b mem) := by
  have written := (Memory.Agree.refl (fun x => ¬b.Covers x ∧ ¬a.Field .nativeFunction x ∧
    ¬a.Field .signatureHandler x) mem).write hosting.short fun x covered free => free.1 covered
  exact (written.store _ (by decide) fun x covered free => free.2.1 covered).store _ (by decide)
    fun x covered free => free.2.2 covered

/-- What it has bound stays bound when an exception is left, or none. -/
theorem Hosting.bound : a.Bound b (o.leaves a (binds a b mem)) := by
  have entered := hosting.entered
  refine ⟨?_, ?_, ?_⟩
  · refine (leaves_outside.load (by decide) fun x covered =>
      entered.record_thread x ⟨.nativeFunction, by decide, covered⟩).trans ?_
    have apart := hosting.fields.apart (f := .signatureHandler) (g := .nativeFunction) (by decide)
      (by decide) (by decide)
    exact (Memory.load_store_apart _ _ _ (by decide) _ _ (apart.add a.record)).trans
      (Memory.load_store_word _ _)
  · exact (leaves_outside.load (by decide) fun x covered =>
      entered.record_thread x ⟨.signatureHandler, by decide, covered⟩).trans
        (Memory.load_store_word _ _)
  · -- What is written after the handler lies in the record and in the thread.
    have record : Memory.Agree b.Covers (mem.write b.handler b.code) (binds a b mem) :=
      ((Memory.Agree.refl _ _).store _ (by decide) fun x covered there => entered.record_code x
        ⟨.nativeFunction, by decide, covered⟩ (hosting.handler x there).1).store _ (by decide)
          fun x covered there => entered.record_code x ⟨.signatureHandler, by decide, covered⟩
            (hosting.handler x there).1
    have agree : Memory.Agree b.Covers (mem.write b.handler b.code) (o.leaves a (binds a b mem)) :=
      record.trans (leaves_outside.mono fun x there thread =>
        entered.thread_code x thread (hosting.handler x there).1)
    refine (Memory.read_congr _ _ fun k few => agree _ ?_).trans
      (Memory.read_write_same b.handler b.code hosting.short)
    exact (Memory.covers_iff hosting.short).mpr ⟨k, few, rfl⟩

theorem Hosting.field_apart {f g : MethodField} (one : f ∈ MethodField.inRecord)
    (two : g ∈ MethodField.inRecord) (other : f ≠ g) (x : Dword) (here : a.Field f x) :
    ¬a.Field g x :=
  hosting.fields.disjoint two one other.symm (by cases f <;> decide) a.record x here

theorem Hosting.prepares (inside : a.Inside kept m) :
    a.Prepares b kept m (m.returning (o.leaves a (binds a b m.memory))) := by
  have entered := hosting.entered
  have inside : a.Inside code m :=
    ⟨hosting.part _ inside.back, inside.fp, inside.thread, inside.under⟩
  refine ⟨returning_returned ?_, fun _ => hosting.bound⟩
  refine Memory.Agree.trans (n := binds a b m.memory) (hosting.binds_agree.mono fun x must => ?_)
    (leaves_outside.mono fun x must => ?_)
  · rcases must with within | ⟨covered, -⟩ | ⟨g, member, flags⟩
    · have coded := hosting.part x within
      exact ⟨fun there => (hosting.handler x there).2 within,
        fun there => entered.record_code x ⟨_, by decide, there⟩ coded,
        fun there => entered.record_code x ⟨_, by decide, there⟩ coded⟩
    · have owned := hosting.stack_owned inside x covered
      exact ⟨fun there => entered.stack_code x owned (hosting.handler x there).1,
        fun there => entered.stack_record x owned ⟨_, by decide, there⟩,
        fun there => entered.stack_record x owned ⟨_, by decide, there⟩⟩
    · obtain rfl := List.mem_singleton.mp member
      exact ⟨fun there => entered.record_code x ⟨_, by decide, flags⟩ (hosting.handler x there).1,
        hosting.field_apart (by decide) (by decide) (by decide) x flags,
        hosting.field_apart (by decide) (by decide) (by decide) x flags⟩
  · have must : a.Kept code Invocation.nothing [.accessFlags] m x :=
      must.imp_left (hosting.part x)
    exact hosting.kept_thread inside (by decide) x must

/-- A routine that leaves nothing but the handles, and an exception perhaps. -/
theorem Hosting.serves (inside : a.Inside code m)
    (outside : Memory.Agree (fun x => ¬a.InThread x) m.memory mem)
    (handles : mem.load (a.current + a.cfg.thread.offset .activeHandles) 8 = o.handles) :
    a.Serves code lent m (m.returning mem) := by
  refine ⟨returning_returned (outside.mono (hosting.kept_thread inside (by decide))), ?_⟩
  intro x top
  rw [Invocation.HandleTop] at top
  exact hosting.blocked x (handles ▸ top)

theorem Hosting.words_free {words more : List ThreadField}
    (listed : ∀ f ∈ words, f ∈ ThreadField.inRecord) (inside : ∀ f ∈ more, f ∈ ThreadField.inRecord)
    (apart : ∀ f ∈ more, f ∉ words) (x : Dword) (word : a.Words words x) : ¬a.Words more x := by
  rintro ⟨f, member, covered⟩
  obtain ⟨g, there, word⟩ := word
  refine Invocation.words_apart hosting.entered.words (listed g there) (inside f member) ?_ x word
    covered
  rintro rfl
  exact apart g member there

/-- The routine that releases a lock leaves the fields alone that it must not touch. -/
theorem Hosting.exits {words : List ThreadField} (inside : a.Inside code m)
    (listed : ∀ f ∈ words, f ∈ ThreadField.inRecord) (free : ∀ f ∈ handed, f ∉ words)
    (exception : o.leaf = true ∨ .pendingException ∉ words) :
    a.Exits code words m
      (m.returning (if o.leaf then o.handled a m.memory else o.leaves a m.memory)) := by
  have kept : Memory.Agree (a.Words words) m.memory
      (if o.leaf then o.handled a m.memory else o.leaves a m.memory) := by
    split
    · exact handled_agree.mono (hosting.words_free listed (by decide) free)
    · next other =>
        exact leaves_agree.mono (hosting.words_free listed (by decide)
          (List.forall_mem_cons.mpr ⟨exception.resolve_left other, free⟩))
  refine returning_returned ?_
  rintro x (must | word)
  · exact leaf_outside x (hosting.kept_thread inside (by simp) x must)
  · exact kept x word

variable (housing : Housing a b code)
include housing

theorem Hosting.runtime (even : ∀ callee, a.cfg.callees.address callee &&& 1 = 0) :
    a.Runtime code (o.environment a b) p where
  even := even
  overflow := housing.answers (q := some .counterOverflow) (by decide) fun _ inside =>
    hosting.follows inside Invocation.fixed_in_record
  profile := housing.answers (q := some .profileMethod) (by decide) fun _ inside =>
    hosting.follows inside Invocation.fixed_in_record
  enter := housing.answers (q := some .monitorEnter) (by decide) fun _ inside =>
    hosting.enters inside

theorem Hosting.services (even : b.function &&& 1 = 0) :
    a.Services code (o.environment a b) p b kept where
  even := even
  prepare := housing.answers (q := some .prepareNativeCall) (by decide) fun _ inside =>
    hosting.prepares inside
  native := housing.answers (q := none) (by decide) fun m inside => by
    rw [work_native]
    exact hosting.serves inside leaves_outside (handles_leaves hosting.entered.words)
  special := housing.answers (q := some .checkSpecialCondition) (by decide) fun m inside => by
    rw [work_leaf o a b rfl]
    exact hosting.serves inside leaf_outside (handles_leaf hosting.entered.words)

theorem Hosting.releases {words : List ThreadField}
    (suits : a.method.flags.isSynchronized = a.synchronized)
    (listed : ∀ f ∈ words, f ∈ ThreadField.inRecord) (free : ∀ f ∈ handed, f ∉ words)
    (exception : o.leaf = true ∨ .pendingException ∉ words) :
    a.Releases code (o.environment a b) p words where
  suits := suits
  exits := housing.answers (q := some .monitorExit) (by decide) fun m inside => by
    rw [work_leaf o a b rfl]
    exact hosting.exits inside listed free exception

theorem Hosting.calms (leaf : o.leaf = true) : a.Calms code (o.environment a b) p := by
  have kept : ∀ mem, pending a.cfg a.current (o.handled a mem) = pending a.cfg a.current mem :=
    fun mem => handled_agree.load (by decide) fun x word => by
      have kept : a.Words [.pendingException] x := ⟨_, List.mem_singleton_self _, word⟩
      exact hosting.words_free (by decide) (by decide) (by decide) x kept
  refine housing.answers (q := some .checkSpecialCondition) (by decide) fun m _ => ?_
  rw [work_leaf o a b rfl, if_pos leaf]
  exact kept m.memory

theorem Hosting.discreet : a.Discreet code (o.environment a b) p b :=
  housing.answers (q := none) (by decide) fun _ _ =>
    leaves_agree.mono (hosting.words_free (by decide) (by decide) (by decide))

theorem Hosting.requests {watched : Dword → Bool} : (o.environment a b).Answers watched p b.function
    (fun _ => True) fun _ k => polled a.cfg a.current k.memory :=
  housing.answers (q := none) (by decide) fun _ _ => by
    rw [polled, work_native, returning, request_leaves hosting.entered.words]
    exact fun none => absurd (BitVec.or_eq_zero_iff.mp none).1 (by decide)

end Contracts

/-- Where the exception is none, every call leaves none. -/
theorem calm (none : o.exception = 0) (all : o.leaf = false) : a.Calm (o.environment a b) p := by
  intro events q call goes member
  obtain ⟨earlier, s, t, -, calls, rfl⟩ := goes.call_made member
  obtain ⟨r, listed, same⟩ := Environment.serving_calls calls
  obtain ⟨party, -, rfl⟩ := List.mem_map.mp listed
  have left : o.work a b party s.machine = o.leaves a (o.task a b party s.machine.memory) :=
    if_neg (by rw [all, Bool.and_false]; decide)
  rw [Invocation.thrown, Option.elim_some, same]
  dsimp only
  rw [left, returning, pending_leaves, none]

theorem Housing.thrown_eq (housing : Housing a b code) {q : Option Callee} (member : q ∈ parties)
    (plain : isLeaf q = false) {watched : Dword → Bool} {events : List Event} {r : Progress Unit}
    (goes : Goes (o.environment a b) watched p events r) {call : Call}
    (called : .call call ∈ events) (there : call.before.pc = place a b q) :
    a.thrown (some call) = o.exception := by
  have contract : (o.environment a b).Answers watched p (place a b q) (fun _ => True)
      fun _ k => pending a.cfg a.current k.memory = o.exception :=
    housing.answers member fun m _ => by
      rw [work, plain, Bool.false_and, if_neg (by decide)]
      exact pending_leaves
  exact goes.related contract called there trivial

theorem Housing.throws (housing : Housing a b code) (spared : a.Spared code)
    (apart : ∀ x, a.InThread x → ¬code x) {callee : Callee}
    (thrower : callee = .throwStackOverflow ∨ callee = .throwAbstractMethod)
    {watched : Dword → Bool} {ready : Machine → Prop} :
    (o.environment a b).Answers watched p (a.cfg.callees.address callee) ready
      fun m k => a.Throws code m k ∧ pending a.cfg a.current k.memory = o.exception := by
  have throws : ∀ m : Machine, a.Throws code m (m.returning (o.leaves a m.memory)) := by
    refine fun m => returning_returned (leaves_outside.mono ?_)
    rintro x (within | spare) thread
    · exact apart x thread within
    · exact spared.spare_thread x spare thread
  rcases thrower with rfl | rfl
  · exact housing.answers (q := some .throwStackOverflow) (by decide) fun m _ =>
      ⟨throws m, pending_leaves⟩
  · exact housing.answers (q := some .throwAbstractMethod) (by decide) fun m _ =>
      ⟨throws m, pending_leaves⟩

end Surroundings

end EntryCode
