import EntryCode.Interpreter.Entry
import EntryCode.Proofs.Interpreter.Invocation

/-!
From an entry to its frame: the locals are found and zeroed, and the frame is pushed below them.
Nothing outside the stack changes.
-/

namespace EntryCode

open EntryCode.Frame Pinned Fragment Machine

namespace Invocation

variable (a : Invocation)

def InRecord (x : Dword) : Prop :=
  ∃ f ∈ MethodField.inRecord, a.Field f x

def ThreadWord (f : ThreadField) (x : Dword) : Prop :=
  Memory.Covers (a.current + a.cfg.thread.offset f) f.width x

def InThread (x : Dword) : Prop :=
  ∃ f ∈ ThreadField.inRecord, a.ThreadWord f x

/-- The fields that do not change before a native function has been resolved. -/
def fixedFields : List MethodField :=
  if a.native then [.accessFlags, .parameterSlots, .nativeFunction, .signatureHandler]
  else [.accessFlags]

/-- The record of an accepted method is in memory, and the stack consists of words. -/
structure Recorded : Prop where
  counted : a.method.Counted
  record : ∀ w ∈ MethodField.contents a.method,
    a.start.memory.load (a.record + a.cfg.method.offset w.1) w.1.width = w.2
  aligned : a.lastParameter.toNat % wordSize = 0

/-- What the record says about the size of a frame. -/
def sizes : List (MethodField × Dword) :=
  [(.parameterSlots, a.method.parameterSlots), (.maxLocals, a.method.maxLocals),
   (.maxStack, a.method.maxStack)]

/-- The size of the frame is in memory, and the stack consists of words. -/
structure Sized : Prop where
  counted : a.method.Counted
  held : ∀ w ∈ a.sizes,
    a.start.memory.load (a.record + a.cfg.method.offset w.1) w.1.width = w.2
  aligned : a.lastParameter.toNat % wordSize = 0

/-- Where invocations are counted, the count is apart from what is read after it was written. -/
def Counting : Prop :=
  a.cfg.counts = true → ∀ f ∈ a.fixedFields, ∀ x, a.Field .invocationCounter x → ¬a.Field f x

/-- What an entry relies on: the method record, and that code, records and stack lie apart. -/
structure Entered (code : Dword → Prop) : Prop extends a.Recorded where
  counting : a.Counting
  words : a.cfg.thread.Parted ThreadField.inRecord
  stack_code : ∀ x, a.Owns x → ¬code x
  record_code : ∀ x, a.InRecord x → ¬code x
  thread_code : ∀ x, a.InThread x → ¬code x
  stack_record : ∀ x, a.Owns x → ¬a.InRecord x
  stack_thread : ∀ x, a.Owns x → ¬a.InThread x
  record_thread : ∀ x, a.InRecord x → ¬a.InThread x

def watches (x : Dword) : Bool :=
  Memory.Covers (a.current + a.cfg.thread.offset .state) 4 x

/-- An entered method, and code that watches the state of its thread. -/
structure Housed (code : Dword → Prop) (c : Linked) : Prop where
  entered : a.Entered code
  inside : ∀ x, c.InCode x → code x
  watched : c.watched = a.watches

/-- A method whose frame can be sized, and code that may store to the stack granted to it
unnoticed. -/
structure Sited (c : Linked) : Prop extends a.Sized where
  free : ∀ x, a.Granted x → ¬c.Covers x
  apart : ∀ x, a.Granted x → ¬a.InRecord x

variable {a} {code : Dword → Prop} {c : Linked} {k : Machine}

theorem InThread.of_anchor {x : Dword} (anchored : anchor a.cfg a.current x) : a.InThread x := by
  obtain ⟨f, member, covered⟩ := anchored
  have listed : ∀ f ∈ [ThreadField.lastSp, .lastFp, .lastPc],
      f ∈ ThreadField.inRecord ∧ f.width = 8 := by decide
  refine ⟨f, (listed f member).1, ?_⟩
  rw [ThreadWord, (listed f member).2]
  exact covered

theorem words_apart (words : a.cfg.thread.Parted ThreadField.inRecord) {f g : ThreadField}
    (one : f ∈ ThreadField.inRecord) (two : g ∈ ThreadField.inRecord) (other : f ≠ g) (x : Dword)
    (word : a.ThreadWord f x) : ¬a.ThreadWord g x := by
  refine words.disjoint two one other.symm ?_ a.current x word
  cases f <;> decide

theorem Entered.anchor_apart (entered : a.Entered code) {g : ThreadField}
    (two : g ∈ ThreadField.inRecord) (other : ∀ f ∈ [ThreadField.lastSp, .lastFp, .lastPc], f ≠ g)
    (x : Dword) (word : a.ThreadWord g x) : ¬anchor a.cfg a.current x := by
  rintro ⟨f, member, covered⟩
  have listed : ∀ f ∈ [ThreadField.lastSp, .lastFp, .lastPc],
      f ∈ ThreadField.inRecord ∧ f.width = 8 := by decide
  refine words_apart entered.words two (listed f member).1 (other f member).symm x word ?_
  rw [ThreadWord, (listed f member).2]
  exact covered

section Housed
variable (housed : a.Housed code c)
include housed

/-- What is neither code nor the state of the thread may be stored to unnoticed. -/
theorem Housed.free (x : Dword) (apart : ¬code x) (other : ¬a.ThreadWord .state x) :
    ¬c.Covers x := by
  rintro (inside | seen)
  · exact apart (housed.inside x inside)
  · rw [housed.watched, watches, decide_eq_true_eq] at seen
    exact other seen

theorem Housed.stack_free (x : Dword) (owned : a.Owns x) : ¬c.Covers x :=
  housed.free x (housed.entered.stack_code x owned) fun state =>
    housed.entered.stack_thread x owned ⟨.state, by decide, state⟩

theorem Housed.record_free (x : Dword) (inside : a.InRecord x) : ¬c.Covers x :=
  housed.free x (housed.entered.record_code x inside) fun state =>
    housed.entered.record_thread x inside ⟨.state, by decide, state⟩

theorem Housed.word_free {f : ThreadField} (member : f ∈ ThreadField.inRecord)
    (other : f ≠ .state) (x : Dword) (word : a.ThreadWord f x) : ¬c.Covers x :=
  housed.free x (housed.entered.thread_code x ⟨f, member, word⟩)
    (words_apart housed.entered.words member (by decide) other x word)

theorem Housed.anchor_free (x : Dword) (anchored : anchor a.cfg a.current x) : ¬c.Covers x :=
  housed.free x (housed.entered.thread_code x (.of_anchor anchored)) fun state =>
    housed.entered.anchor_apart (by decide) (by decide) x state anchored

end Housed

theorem sizes_in_contents : ∀ w ∈ a.sizes, w ∈ MethodField.contents a.method := by
  simp [sizes, MethodField.contents]

theorem Recorded.sized (recorded : a.Recorded) : a.Sized :=
  ⟨recorded.counted, fun w member => recorded.record w (sizes_in_contents w member),
    recorded.aligned⟩

theorem Housed.sited (housed : a.Housed code c) : a.Sited c := by
  have entered := housed.entered
  obtain ⟨f, s, laid⟩ := a.placed entered.counted entered.aligned
  exact ⟨entered.sized, fun x granted => housed.stack_free x (laid.granted_owned x granted),
    fun x granted => entered.stack_record x (laid.granted_owned x granted)⟩

theorem contents_in_record {m : Method} {w : MethodField × Dword}
    (member : w ∈ MethodField.contents m) : w.1 ∈ MethodField.inRecord := by
  have same : (MethodField.contents m).map Prod.fst = MethodField.inRecord := rfl
  rw [← same]
  exact List.mem_map_of_mem member

theorem sizes_in_record {w : MethodField × Dword} (member : w ∈ a.sizes) :
    w.1 ∈ MethodField.inRecord :=
  contents_in_record (sizes_in_contents w member)

/-- A field of the record that is as it was at the entry. -/
theorem field_kept {f : MethodField} {v : Dword} (same : k.reg Pinned.method = a.record)
    (agree : Memory.Agree (a.Field f) a.start.memory k.memory)
    (held : a.start.memory.load (a.record + a.cfg.method.offset f) f.width = v) :
    field a.cfg k f = v := by
  have short : f.width ≤ 2 ^ 64 := by cases f <;> decide
  rw [Fragment.field, same, agree.load short fun _ covered => covered, held]

theorem Recorded.reads (recorded : a.Recorded) (same : k.reg Pinned.method = a.record)
    (w : MethodField × Dword) (agree : Memory.Agree (a.Field w.1) a.start.memory k.memory)
    (member : w ∈ MethodField.contents a.method) : field a.cfg k w.1 = w.2 :=
  field_kept same agree (recorded.record w member)

theorem Sized.reads (sized : a.Sized) (same : k.reg Pinned.method = a.record)
    (w : MethodField × Dword) (agree : Memory.Agree (a.Field w.1) a.start.memory k.memory)
    (member : w ∈ a.sizes) : field a.cfg k w.1 = w.2 :=
  field_kept same agree (sized.held w member)

theorem shift_words (v : Dword) : v <<< 3 = BitVec.ofNat 64 (wordSize * v.toNat) := by
  apply BitVec.eq_of_toNat_eq
  rw [BitVec.toNat_shiftLeft, BitVec.toNat_ofNat, Nat.shiftLeft_eq, Nat.mul_comm]
  rfl

/-- The lowest address that the stack of the thread may reach. -/
def limit (a : Invocation) : Dword :=
  a.start.memory.load (a.current + a.cfg.thread.offset .stackLimit) 8

def overflows (a : Invocation) : Bool :=
  (a.lastParameter - BitVec.ofNat 64 a.asked).ult
    (a.start.memory.load (a.current + a.cfg.thread.offset .stackLimit) 8)

theorem Sized.reach_eq (sized : a.Sized) (interpreted : a.native = false)
    (last : k.reg stack = a.lastParameter) :
    reach k a.method.maxStack a.method.extraLocals =
      a.lastParameter - BitVec.ofNat 64 a.asked := by
  obtain ⟨-, many, deep⟩ := a.short_counts sized.counted
  have words : a.room = a.method.maxStack.toNat := by rw [room, interpreted]; rfl
  have more : a.extra = a.method.extraLocals.toNat := by rw [extra, interpreted]; rfl
  have total : (a.method.maxStack + a.method.extraLocals + BitVec.ofNat 64
      (fixedWords + monitorWords + stackAlignment / wordSize)).toNat =
        a.room + a.extra + (fixedWords + monitorWords + stackAlignment / wordSize) := by
    rw [BitVec.toNat_add, BitVec.toNat_add, ← words, ← more,
      show (BitVec.ofNat 64 (fixedWords + monitorWords + stackAlignment / wordSize)).toNat = 18
        from rfl, show fixedWords + monitorWords + stackAlignment / wordSize = 18 from rfl]
    omega
  rw [Fragment.reach, last, shift_words, total]
  rfl

def firstCell (a : Invocation) : Dword :=
  if a.cfg.profile && !a.native then profileCell a.cfg a.method.methodData else 0

/-- The machine below whose locals the frame is pushed. -/
structure Cleared (a : Invocation) (k : Machine) : Prop where
  keeps : Keeps [.t0, .t1, .t2, locals, stack, .sp] a.start k
  sp : k.reg .sp = a.fp
  locals : k.reg locals = a.localZero
  memory : ∀ x, k.memory.byte x =
    if Memory.Covers a.lastLocal (wordSize * a.extra) x then 0 else a.start.memory.byte x

/-- The new frame stands. -/
structure Opened (a : Invocation) (k : Machine) : Prop where
  framed : a.Framed a.sp (firstContents a.firstCell) k
  method : k.reg Pinned.method = a.record
  outside : Memory.Agree (fun x => ¬a.Owns x) a.start.memory k.memory

section Locals
variable {rest : Program} (e : Extensions) {spot : Spot → Label}

theorem count_extra_runs (cfg : Config) {m : Machine}
    (stands : c.Stands m (.lhu .t0 Pinned.method (cfg.method.offset .maxLocals) ::
      .sub .t0 .t0 .t2 :: rest)) :
    ∃ k, c.Comes m k rest ∧ Keeps [.t0] m k ∧ k.memory = m.memory ∧
      k.reg .t0 = field cfg m .maxLocals - m.reg .t2 := by
  obtain ⟨first, stands⟩ := stands.load
  obtain ⟨second, stands⟩ := stands.arithmetic
  refine ⟨_, ⟨first.trans second, stands⟩,
    ((((Keeps.refl _ m).put (by decide) _).goto _).put (by decide) _).goto _, rfl, ?_⟩
  simp (disch := decide) only [reg_goto, reg_put_self, reg_put_ne, RegisterOp.value]
  rfl

/-- Local zero lies above the last parameter. -/
theorem Sized.finds_locals (sized : a.Sized)
    (stands : c.Stands a.start (findLocals a.cfg e ++ rest)) :
    ∃ k, c.Comes a.start k rest ∧ Keeps [.t1, .t2, locals] a.start k ∧
      k.memory = a.start.memory ∧ k.reg .t2 = a.method.parameterSlots ∧
      k.reg locals = a.localZero := by
  obtain ⟨k, comes, keeps, memory, count, place⟩ := find_locals_runs a.cfg e stands
  have parameters : a.start.memory.load (a.start.reg Pinned.method +
      a.cfg.method.offset .parameterSlots) 2 = a.method.parameterSlots :=
    sized.held (.parameterSlots, _) (by simp [sizes])
  rw [parameters] at count place
  refine ⟨k, comes, keeps, memory, count, ?_⟩
  rw [place, shift_words, localZero, BitVec.sub_eq_add_neg]
  rfl

/-- What an interpreted entry does before its frame is pushed. -/
def clearLocals (a : Invocation) (e : Extensions) (spot : Spot → Label) : Program :=
  List.flatten [
    findLocals a.cfg e,
    [.lhu .t0 Pinned.method (a.cfg.method.offset .maxLocals),
     .sub .t0 .t0 .t2],
    checkStack a.cfg .t0 (spot .stackOk),
    [.comment "zero extra locals",
     .beqz .t0 (spot .zeroed),
     .bind (spot .loop)],
    zeroWords (spot .zeroed) (spot .loop),
    [.andi .sp stack (-BitVec.ofNat 64 stackAlignment)]]

/-- The part of it that follows the check of the stack. -/
def zeroExtra (spot : Spot → Label) : Program :=
  .comment "zero extra locals" :: .beqz .t0 (spot .zeroed) :: .bind (spot .loop) ::
    (zeroWords (spot .zeroed) (spot .loop) ++ [Op.andi .sp stack (-BitVec.ofNat 64 stackAlignment)])

theorem clear_locals_eq : a.clearLocals e spot ++ rest = findLocals a.cfg e ++
    (.lhu .t0 Pinned.method (a.cfg.method.offset .maxLocals) :: .sub .t0 .t0 .t2 ::
      (checkStack a.cfg .t0 (spot .stackOk) ++ (zeroExtra spot ++ rest))) := by
  simp only [clearLocals, zeroExtra, List.flatten_cons, List.flatten_nil, List.append_nil,
    List.append_assoc, List.cons_append, List.nil_append]

theorem Sized.checks_stack (sized : a.Sized) (interpreted : a.native = false)
    {away : Program} (stands : c.Stands a.start (a.clearLocals e spot ++ rest))
    (there : c.Has (c.target (Routine.throwStackOverflow.label .start)) away) :
    ∃ k, c.Comes a.start k (if a.overflows then away else zeroExtra spot ++ rest) ∧
      Keeps [.t0, .t1, .t2, locals] a.start k ∧ k.memory = a.start.memory ∧
      k.reg .t0 = a.method.extraLocals ∧ k.reg locals = a.localZero := by
  rw [clear_locals_eq] at stands
  obtain ⟨k, ⟨first, stands⟩, keeps, memory, count, place⟩ := sized.finds_locals e stands
  obtain ⟨k₁, ⟨second, stands⟩, keeps₁, memory₁, extra⟩ := count_extra_runs a.cfg stands
  have most : field a.cfg k .maxLocals = a.method.maxLocals :=
    sized.reads (keeps.registers _ (by decide)) (.maxLocals, _)
      (by rw [memory]; exact .refl _ _) (by simp [sizes])
  have extra : k₁.reg .t0 = a.method.extraLocals := by
    rw [extra, most, count]
    rfl
  have kept : Keeps [.t0, .t1, .t2, locals] a.start k₁ :=
    (keeps.mono (by decide)).trans (keeps₁.mono (by decide))
  have same : k₁.memory = a.start.memory := memory₁.trans memory
  have deepest : k₁.memory.load (k₁.reg Pinned.method + a.cfg.method.offset .maxStack) 2 =
      a.method.maxStack :=
    sized.reads (kept.registers _ (by decide)) (.maxStack, _)
      (by rw [same]; exact .refl _ _) (by simp [sizes])
  obtain ⟨k₂, ⟨third, stands⟩, keeps₂, memory₂⟩ :=
    check_stack_runs a.cfg stands (by decide) there
  rw [deepest, extra, sized.reach_eq interpreted (kept.registers stack (by decide)),
    kept.registers thread (by decide), same] at stands
  refine ⟨k₂, ⟨(first.trans second).trans third, stands⟩, kept.trans (keeps₂.mono (by decide)),
    memory₂.trans same, (keeps₂.registers .t0 (by decide)).trans extra, ?_⟩
  rw [keeps₂.registers locals (by decide), keeps₁.registers locals (by decide), place]

/-- The extra locals are zeroed, where the stack has room for the frame. -/
theorem Sited.clears_locals (sited : a.Sited c) (interpreted : a.native = false)
    {away : Program} (stands : c.Stands a.start (a.clearLocals e spot ++ rest))
    (there : c.Has (c.target (Routine.throwStackOverflow.label .start)) away) :
    ∃ k, c.Comes a.start k (if a.overflows then away else rest) ∧
      (a.overflows = true →
        Keeps [.t0, .t1, .t2, locals] a.start k ∧ k.memory = a.start.memory) ∧
      (a.overflows = false → a.Cleared k) := by
  obtain ⟨f, s, laid⟩ := a.placed sited.counted sited.aligned
  have small := laid.small
  have size := a.need_eq
  obtain ⟨k, ⟨first, stands⟩, keeps, memory, count, zero⟩ :=
    sited.checks_stack e interpreted stands there
  cases full : a.overflows with
  | true =>
      rw [full] at stands
      exact ⟨k, ⟨first, stands⟩, fun _ => ⟨keeps, memory⟩, by simp⟩
  | false =>
      rw [full, if_neg (by decide)] at stands
      simp only [zeroExtra, List.cons_append, List.append_assoc, List.nil_append] at stands
      have last : k.reg stack = a.lastParameter := keeps.registers stack (by decide)
      have many : a.extra = a.method.extraLocals.toNat := by rw [extra, interpreted]; rfl
      obtain ⟨k₁, ⟨second, stands⟩, keeps₁, moved, bytes⟩ :=
        zero_locals_runs a.extra (by omega) (Linked.Stands.comment stands)
          (by rw [count, many, BitVec.ofNat_toNat, BitVec.setWidth_eq]) (by
            intro x covered
            rw [last] at covered
            exact sited.free x (laid.extra_granted x covered))
      rw [last] at moved bytes
      obtain ⟨third, stands⟩ := stands.immediate (by simp)
      have kept : Keeps [.t0, .t1, .t2, locals, stack, .sp] a.start k₁ :=
        (keeps.mono (by decide)).trans (keeps₁.mono (by decide))
      refine ⟨_, ⟨(first.trans second).trans third, stands⟩, by simp, fun _ =>
        ⟨(kept.put (by decide) _).goto _, ?_, ?_, fun x => ?_⟩⟩
      · rw [reg_goto, reg_put_self _ _ _ (by decide), moved]
        rfl
      · rw [reg_goto, reg_put_ne _ _ _ _ (by decide), keeps₁.registers locals (by decide), zero]
      · rw [memory_goto, memory_put, bytes, memory]
        rfl

theorem Sized.native_cleared (sized : a.Sized) (native : a.native = true)
    (stands : c.Stands a.start (findLocals a.cfg e ++
      (.andi .sp stack (-BitVec.ofNat 64 stackAlignment) :: rest))) :
    ∃ k, c.Comes a.start k rest ∧ a.Cleared k := by
  obtain ⟨k, ⟨first, stands⟩, keeps, memory, -, place⟩ := sized.finds_locals e stands
  obtain ⟨second, stands⟩ := stands.immediate (by simp)
  have none : a.extra = 0 := by rw [extra, native]; rfl
  refine ⟨_, ⟨first.trans second, stands⟩, ((keeps.mono (by decide)).put (by decide) _).goto _,
    ?_, ?_, fun x => ?_⟩
  · rw [reg_goto, reg_put_self _ _ _ (by decide), keeps.registers stack (by decide), fp, lastLocal,
      none]
    exact congrArg alignDown (BitVec.sub_zero _).symm
  · rw [reg_goto, reg_put_ne _ _ _ _ (by decide), place]
  · have empty : ¬Memory.Covers a.lastLocal (wordSize * 0) x := Nat.not_lt_zero _
    rw [memory_goto, memory_put, memory, none, if_neg empty]

end Locals

section Frames
variable {rest : Program} {l : Label} {m : Machine}

theorem Cleared.outside {f s : Nat} (laid : a.Placed f s) (cleared : a.Cleared m) :
    Memory.Agree (fun x => ¬a.Granted x) a.start.memory m.memory := by
  intro x outside
  rw [cleared.memory, if_neg]
  exact fun covered => outside (laid.extra_granted x covered)

theorem Cleared.unowned {f s : Nat} (laid : a.Placed f s) (cleared : a.Cleared m) :
    Memory.Agree (fun x => ¬a.Owns x) a.start.memory m.memory :=
  (cleared.outside laid).mono fun x apart granted => apart (laid.granted_owned x granted)

theorem Entered.record_kept (entered : a.Entered code) {mem : Memory}
    (outside : Memory.Agree (fun x => ¬a.Owns x) a.start.memory mem) (f : MethodField)
    (member : f ∈ MethodField.inRecord) : Memory.Agree (a.Field f) a.start.memory mem :=
  outside.mono fun x there owned => entered.stack_record x owned ⟨f, member, there⟩

theorem top_aligned : alignDown a.top = a.top := by
  have whole : a.fp.toNat % stackAlignment = 0 := align_down_aligned a.lastLocal
  have none : a.top.toNat % stackAlignment = 0 := by
    rw [a.top_eq, fixed]
    simp only [stackAlignment] at whole ⊢
    split
    · rw [show BitVec.ofNat 64 (fixedSize + monitorSize) = 128#64 from rfl, BitVec.toNat_sub]
      simp only [BitVec.toNat_ofNat]
      omega
    · rw [show BitVec.ofNat 64 fixedSize = 112#64 from rfl, BitVec.toNat_sub]
      simp only [BitVec.toNat_ofNat]
      omega
  rw [align_down_eq, none, BitVec.sub_zero]

/-- The stack pointer of the new frame leaves the room that the method asks for. -/
theorem Sited.deepest_eq (sited : a.Sited c) (cleared : a.Cleared m) :
    deepest a.cfg a.native a.top m = a.sp := by
  obtain ⟨f, s, laid⟩ := a.placed sited.counted sited.aligned
  have member : (MethodField.maxStack, a.method.maxStack) ∈ a.sizes := by simp [sizes]
  have words : field a.cfg m .maxStack = a.method.maxStack :=
    sited.reads (cleared.keeps.registers Pinned.method (by decide)) (.maxStack, _)
      ((cleared.outside laid).mono fun x there granted =>
        sited.apart x granted ⟨_, sizes_in_record member, there⟩) member
  rw [deepest, words, shift_words, sp, room]
  split
  · rw [Nat.mul_zero, BitVec.sub_zero, top_aligned]
  · rfl

theorem Sited.pushes_frame (sited : a.Sited c) (cleared : a.Cleared m)
    (stands : c.Stands m (fixedFrame a.cfg a.native a.synchronized l ++ rest)) :
    ∃ k, Filling c m rest (frameWords a.cfg a.native a.synchronized m) k ∧ k.reg .fp = a.fp ∧
      k.reg Pinned.bytecode = firstBytecode a.cfg a.native m ∧ k.reg stack = a.top ∧
      k.reg .sp = a.sp := by
  obtain ⟨f, s, laid⟩ := a.placed sited.counted sited.aligned
  have same : m.reg Pinned.method = a.record := cleared.keeps.registers Pinned.method (by decide)
  obtain ⟨k, fill, fp, first, top, sp⟩ := fixed_frame_runs a.cfg a.native a.synchronized stands
    (by
      rw [cleared.sp]
      exact fun x there => sited.free x (laid.frame_granted x there))
    (by
      rw [cleared.sp, same]
      exact fun f member x covered there =>
        sited.apart x (laid.frame_granted x there) ⟨f, member, covered⟩)
  have empty : emptyStack a.synchronized a.fp = a.top := rfl
  rw [cleared.sp] at fp top sp
  rw [empty] at top sp
  exact ⟨k, fill, fp, first, top, sp.trans (sited.deepest_eq cleared)⟩

/-- The words of the new frame are those that the method asks for. -/
theorem Entered.frame_words (entered : a.Entered code) {f s : Nat} (laid : a.Placed f s)
    (cleared : a.Cleared m) :
    (∀ w ∈ a.words (firstContents a.firstCell), w ∈ frameWords a.cfg a.native a.synchronized m) ∧
      firstBytecode a.cfg a.native m = a.bytecode := by
  have keeps := cleared.keeps
  have same : m.reg Pinned.method = a.record := keeps.registers Pinned.method (by decide)
  have held : ∀ w ∈ MethodField.contents a.method, field a.cfg m w.1 = w.2 := fun w member =>
    entered.reads same w (entered.record_kept (cleared.unowned laid) _ (contents_in_record member))
      member
  have mirror : field a.cfg m .mirror = a.method.mirror :=
    held (.mirror, _) (by simp [MethodField.contents])
  have data : field a.cfg m .methodData = a.method.methodData :=
    held (.methodData, _) (by simp [MethodField.contents])
  have cache : field a.cfg m .cpCache = a.method.cpCache :=
    held (.cpCache, _) (by simp [MethodField.contents])
  have holder : field a.cfg m .constMethod = a.method.constMethod :=
    held (.constMethod, _) (by simp [MethodField.contents])
  have first : firstBytecode a.cfg a.native m = a.bytecode := by
    rw [firstBytecode, holder, bytecode]
  have cell : Fragment.firstCell a.cfg a.native m = a.firstCell := by
    rw [Fragment.firstCell, data, firstCell]
  have top : emptyStack a.synchronized (m.reg .sp) = a.top := by rw [cleared.sp, top]
  refine ⟨?_, first⟩
  rw [frameWords, headWords, tailWords, cell, first, top, mirror, cache, same, cleared.locals,
    keeps.registers .ra (by decide), keeps.registers .fp (by decide),
    keeps.registers senderSp (by decide)]
  intro w member
  simp only [Invocation.words, slots, firstContents, List.map_cons, List.map_nil, List.mem_cons,
    List.not_mem_nil, or_false] at member
  rcases member with rfl | rfl | rfl | rfl | rfl | rfl | rfl | rfl | rfl | rfl | rfl | rfl | rfl |
    rfl <;> simp

theorem Housed.builds_frame (housed : a.Housed code c) (cleared : a.Cleared m)
    (stands : c.Stands m (fixedFrame a.cfg a.native a.synchronized l ++ rest)) :
    ∃ k, c.Comes m k rest ∧ a.Opened k := by
  have entered := housed.entered
  obtain ⟨f, s, laid⟩ := a.placed entered.counted entered.aligned
  have below := laid.below
  have size := a.need_eq
  have keeps := cleared.keeps
  have same : m.reg Pinned.method = a.record := keeps.registers Pinned.method (by decide)
  obtain ⟨k, fill, fp, first, top, sp⟩ := housed.sited.pushes_frame cleared stands
  obtain ⟨asked, code'⟩ := entered.frame_words laid cleared
  have outside := fill.outside
  have holds := fill.holds
  rw [cleared.sp] at outside holds
  have above : ∀ x, f ≤ (x - a.floor).toNat → k.memory.byte x = m.memory.byte x := by
    refine fun x high => outside x fun there => ?_
    rw [laid.frame_area] at there
    omega
  have unowned : Memory.Agree (fun x => ¬a.Owns x) a.start.memory k.memory := by
    refine (cleared.unowned laid).trans (outside.mono fun x apart there => ?_)
    exact apart (laid.frame_owned x there)
  refine ⟨k, fill.comes, ⟨?_, ?_, ?_, ?_, ?_, ?_⟩, ?_, unowned⟩
  · have kept : ∀ r : Register, (∀ t ∈ writtenRegisters, r.code ≠ t.code) → k.reg r = m.reg r :=
      fill.keeps.registers
    simp only [registers, List.forall_mem_cons]
    exact ⟨fp, sp, (kept _ (by decide)).trans (keeps.registers _ (by decide)),
      (kept _ (by decide)).trans cleared.locals, top,
      (kept _ (by decide)).trans (keeps.registers _ (by decide)), first.trans code',
      List.forall_mem_nil _⟩
  · exact fun w member => holds w (asked w member)
  · intro locked
    exact holds (firstMonitor + monitorObject, 0) (by simp [frameWords, emptyMonitor, locked])
  · intro i first last
    refine Memory.load_zero _ _ fun n inside => ?_
    have covered := (laid.covers_local last).mp ((Memory.covers_iff (by decide)).mpr
      ⟨n, inside, rfl⟩)
    rw [above _ (by omega), cleared.memory, if_pos (laid.covers_extra.mpr (by omega))]
  · intro x covered
    rw [laid.covers_parameters] at covered
    rw [above x (by omega), cleared.memory,
      if_neg fun extra => by rw [laid.covers_extra] at extra; omega]
  · exact entered.record_kept unowned _ (by decide)
  · exact (fill.keeps.registers _ (by decide)).trans same

end Frames

end Invocation

end EntryCode
