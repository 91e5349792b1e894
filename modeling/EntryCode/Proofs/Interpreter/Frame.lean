import EntryCode.Proofs.Interpreter.Fragment

/-!
The fixed part of a frame, pushed word by word. A frame under construction is described by the
words that are already in place; everything outside of it stays as it was, so that the method record
can be read at any time.
-/

namespace EntryCode.Fragment

open EntryCode.Frame Pinned Linked Machine

def field (cfg : Config) (m : Machine) (f : MethodField) : Dword :=
  m.memory.load (m.reg method + cfg.method.offset f) f.width

theorem field_congr (cfg : Config) {m k : Machine} (f : MethodField)
    (record : k.reg method = m.reg method) (memory : k.memory = m.memory) :
    field cfg k f = field cfg m f := by
  rw [field, field, record, memory]

def profileCell (cfg : Config) (data : Dword) : Dword :=
  if data = 0 then 0 else data + cfg.method.offset .profileCells

section Filling
variable {c : Linked} {m k : Machine} {rest : Program} {words : List (Dword × Dword)}

/-- The fixed part of a frame and one monitor below it. -/
def frameArea (fp x : Dword) : Prop :=
  Memory.Covers (fp + firstMonitor) (fixedSize + monitorSize) x

theorem frame_area_word {fp off : Dword}
    (inside : (off - firstMonitor).toNat + wordSize ≤ fixedSize + monitorSize) (x : Dword)
    (covered : Memory.Covers (fp + off) wordSize x) : frameArea fp x := by
  rw [frameArea]
  rw [Memory.Covers] at covered ⊢
  generalize firstMonitor = low at inside ⊢
  simp only [fixedSize, fixedWords, monitorSize, monitorWords, wordSize] at inside covered ⊢
  bv_omega

def writtenRegisters : List Register := [.sp, .fp, .t0, bytecode, stack]

/-- A frame below the stack pointer of `m`, some words of which are in place. -/
structure Filling (c : Linked) (m : Machine) (rest : Program) (words : List (Dword × Dword))
    (k : Machine) : Prop where
  comes : c.Comes m k rest
  keeps : Keeps writtenRegisters m k
  holds : k.memory.Holds (m.reg .sp) words
  outside : Memory.Agree (fun x => ¬frameArea (m.reg .sp) x) m.memory k.memory

theorem Filling.store {src base : Register} {off s v : Dword}
    (fill : Filling c m (.sd src base off :: rest) words k)
    (clear : ∀ x, frameArea (m.reg .sp) x → ¬c.Covers x)
    (address : k.reg base + off = m.reg .sp + s) (value : k.reg src = v)
    (inside : (s - firstMonitor).toNat + wordSize ≤ fixedSize + monitorSize)
    (apart : Memory.Free s words) :
    ∃ k', Filling c m rest ((s, v) :: words) k' ∧ ∀ r, k'.reg r = k.reg r := by
  have comes := fill.comes.trans fun stands => stands.store fun x covered => by
    rw [address] at covered
    exact clear x (frame_area_word inside x covered)
  rw [address, value] at comes
  refine ⟨_, ⟨comes, (fill.keeps.poke _ _ _).goto _, ?_, ?_⟩, fun r => ?_⟩
  · rw [memory_goto, memory_poke]
    exact fill.holds.store apart
  · rw [memory_goto, memory_poke]
    exact fill.outside.store v (by decide) fun x covered =>
      not_not.mpr (frame_area_word inside x covered)
  · rw [reg_goto, reg_poke]

theorem Filling.word {src : Register} {s : Slot} {v : Dword}
    (fill : Filling c m (.sd src .fp (slot s) :: rest) words k)
    (clear : ∀ x, frameArea (m.reg .sp) x → ¬c.Covers x) (fp : k.reg .fp = m.reg .sp)
    (value : k.reg src = v)
    (inside : (slot s - firstMonitor).toNat + wordSize ≤ fixedSize + monitorSize)
    (apart : Memory.Free (slot s) words) :
    ∃ k', Filling c m rest ((slot s, v) :: words) k' ∧ k'.reg .fp = m.reg .sp ∧
      ∀ r, k'.reg r = k.reg r := by
  obtain ⟨k', fill, kept⟩ := fill.store clear (by rw [fp]) value inside apart
  exact ⟨k', fill, (kept .fp).trans fp, kept⟩

theorem Filling.value {i : Instruction} {rd : Register} {v : Dword}
    (fill : Filling c m (.instruction i :: rest) words k)
    (effect : k.exec i = (k.put rd v).goto (k.pc + 4)) (hidden : i.hidden = true)
    (writable : rd.code ≠ 0) (member : rd ∈ writtenRegisters) :
    ∃ k', Filling c m rest words k' ∧ k'.reg rd = v ∧
      ∀ r, r.code ≠ rd.code → k'.reg r = k.reg r := by
  have comes := fill.comes.trans fun stands => stands.value effect hidden
  refine ⟨_, ⟨comes, (fill.keeps.put member v).goto _, fill.holds, fill.outside⟩,
    reg_put_self _ _ _ writable, fun r apart => reg_put_ne _ _ _ _ apart⟩

/-- A field of the record is read as it was when the frame was begun. -/
theorem Filling.reads (cfg : Config) (f : MethodField) {op : LoadOp}
    (fill : Filling c m
      (.instruction (.load op .t0 method (cfg.method.offset f)) :: rest) words k)
    (width : ∀ mem addr, op.value mem addr = mem.load addr f.width)
    (record : ∀ x, Memory.Covers (m.reg method + cfg.method.offset f) f.width x →
      ¬frameArea (m.reg .sp) x) :
    ∃ k', Filling c m rest words k' ∧ k'.reg .t0 = field cfg m f ∧
      ∀ r, r.code ≠ Register.t0.code → k'.reg r = k.reg r := by
  obtain ⟨k', filled, value, others⟩ :=
    fill.value (k.exec_load _ _ _ _) (by simp) (by decide) (by decide)
  refine ⟨k', filled, ?_, others⟩
  have short : f.width ≤ 2 ^ 64 := by cases f <;> decide
  rw [value, width, fill.keeps.registers method (by decide), fill.outside.load short record]
  rfl

end Filling

section Profile
variable {c : Linked} {m : Machine} {rest : Program} (cfg : Config) {l : Label}

theorem set_profile_cell_runs (stands : c.Stands m (setProfileCell cfg l ++ rest))
    (outside : ∀ x, Memory.Covers (m.reg .fp + slot .profileCell) 8 x → ¬c.Covers x) :
    ∃ k, c.Comes m k rest ∧ Keeps [.t0] m k ∧
      k.memory = if field cfg m .methodData = 0 then m.memory
        else m.memory.store (m.reg .fp + slot .profileCell) 8
          (profileCell cfg (field cfg m .methodData)) := by
  obtain ⟨leads, there⟩ := Stands.load stands
  have data : ((m.put .t0 (field cfg m .methodData)).goto (m.pc + 4)).reg .t0 =
      field cfg m .methodData := reg_put_self _ _ _ (by decide)
  have keeps : Keeps [.t0] m ((m.put .t0 (field cfg m .methodData)).goto (m.pc + 4)) :=
    ((Keeps.refl _ m).put (by simp) _).goto _
  by_cases none : field cfg m .methodData = 0
  · obtain ⟨pc, leads', there'⟩ := there.branch_over [_, _] (by
      rw [reg_zero there.cleared]
      exact decide_eq_true (data.trans none))
    exact ⟨_, ⟨leads.trans leads', there'⟩, keeps.goto pc, by rw [if_pos none]; rfl⟩
  · obtain ⟨leads', there'⟩ := there.branch_past (by
      rw [reg_zero there.cleared]
      exact decide_eq_false fun same => none (data.symm.trans same))
    obtain ⟨leads'', there''⟩ := there'.immediate (by simp)
    obtain ⟨last, final⟩ := there''.store (by
      simp (disch := decide) only [reg_goto, reg_put_ne]
      exact outside)
    refine ⟨_, ⟨((leads.trans leads').trans leads'').trans last, final.bind.2⟩,
      ((((keeps.goto _).put (by simp) _).goto _).poke _ _ _).goto _, ?_⟩
    rw [if_neg none, profileCell, if_neg none, ← data]
    simp (disch := decide) only [memory_goto, memory_poke, memory_put, reg_goto, reg_put_ne,
      reg_put_self, ImmediateOp.value]
    rfl

end Profile

section Frames
variable {c : Linked} {m : Machine} {rest : Program} (cfg : Config)

/-- The first words of a frame, up to the profile cell. -/
def frameHead : Program :=
  [.comment "fixed frame",
   .addi .sp .sp (-words fixedWords),
   .sd .ra .sp (words fixedWords + slot .returnAddress),
   .sd .fp .sp (words fixedWords + slot .savedFp),
   .addi .fp .sp (words fixedWords),
   .sd senderSp .fp (slot .senderSp),
   .sd .zero .fp (slot .lastSp),
   .sd method .fp (slot .method),
   .ld .t0 method (cfg.method.offset .mirror),
   .sd .t0 .fp (slot .mirror),
   .sd .zero .fp (slot .profileCell)]

def headWords (m : Machine) : List (Dword × Dword) :=
  [(slot .mirror, field cfg m .mirror), (slot .method, m.reg method), (slot .lastSp, 0),
   (slot .senderSp, m.reg senderSp), (slot .savedFp, m.reg .fp),
   (slot .returnAddress, m.reg .ra)]

theorem frame_head_runs (stands : c.Stands m (frameHead cfg ++ rest))
    (clear : ∀ x, frameArea (m.reg .sp) x → ¬c.Covers x)
    (record : ∀ x, Memory.Covers (m.reg method + cfg.method.offset .mirror) 8 x →
      ¬frameArea (m.reg .sp) x) :
    ∃ k, Filling c m rest ((slot .profileCell, 0) :: headWords cfg m) k ∧
      k.reg .fp = m.reg .sp := by
  have start : Filling c m _ [] m :=
    ⟨⟨.refl m, stands.comment⟩, .refl _ m, .nil _, .refl _ _⟩
  obtain ⟨k, fill, sp, same⟩ := start.value (m.exec_immediate .addi _ _ _ (by simp)) (by simp)
    (by decide) (by decide)
  have back : ∀ off, k.reg .sp + (words fixedWords + off) = m.reg .sp + off := by
    intro off
    rw [sp, ImmediateOp.value]
    generalize words fixedWords = size
    bv_omega
  obtain ⟨k₁, fill, kept⟩ := fill.store clear (back _) (same .ra (by decide)) (by decide)
    (by simp)
  obtain ⟨k₂, fill, kept'⟩ := fill.store clear (by rw [kept, back])
    ((kept .fp).trans (same .fp (by decide))) (by decide)
    (by simp only [Memory.free_cons, Memory.free_nil, and_true]; decide)
  obtain ⟨k, fill, fp, -⟩ := fill.value (k₂.exec_immediate .addi _ _ _ (by simp)) (by simp)
    (by decide) (by decide)
  have fp : k.reg .fp = m.reg .sp := by
    rw [fp, kept', kept, sp, ImmediateOp.value, ImmediateOp.value, BitVec.add_assoc]
    exact BitVec.add_zero _
  -- From here on the words are stored through the new frame pointer.
  obtain ⟨k, fill, fp, -⟩ := fill.word clear fp (fill.keeps.registers senderSp (by decide))
    (by decide) (by simp only [Memory.free_cons, Memory.free_nil, and_true]; decide)
  obtain ⟨k, fill, fp, -⟩ := fill.word clear fp (reg_zero fill.comes.2.cleared)
    (by decide) (by simp only [Memory.free_cons, Memory.free_nil, and_true]; decide)
  obtain ⟨k, fill, fp, -⟩ := fill.word clear fp (fill.keeps.registers method (by decide))
    (by decide) (by simp only [Memory.free_cons, Memory.free_nil, and_true]; decide)
  obtain ⟨k, fill, mirror, same⟩ := fill.reads cfg .mirror (fun _ _ => rfl) record
  obtain ⟨k, fill, fp, -⟩ := fill.word clear ((same .fp (by decide)).trans fp) mirror
    (by decide) (by simp only [Memory.free_cons, Memory.free_nil, and_true]; decide)
  obtain ⟨k, fill, fp, -⟩ := fill.word clear fp (reg_zero fill.comes.2.cleared)
    (by decide) (by simp only [Memory.free_cons, Memory.free_nil, and_true]; decide)
  exact ⟨k, fill, fp⟩

/-- The profile cell takes the place of the zero that was there. -/
theorem Filling.profile_cell {l : Label} {k : Machine} {others : List (Dword × Dword)}
    (fill : Filling c m (setProfileCell cfg l ++ rest) ((slot .profileCell, 0) :: others) k)
    (clear : ∀ x, frameArea (m.reg .sp) x → ¬c.Covers x) (fp : k.reg .fp = m.reg .sp)
    (apart : Memory.Free (slot .profileCell) others)
    (record : ∀ x, Memory.Covers (m.reg method + cfg.method.offset .methodData) 8 x →
      ¬frameArea (m.reg .sp) x) :
    ∃ k', Filling c m rest
        ((slot .profileCell, profileCell cfg (field cfg m .methodData)) :: others) k' ∧
      k'.reg .fp = m.reg .sp := by
  have inside : ∀ x, Memory.Covers (m.reg .sp + slot .profileCell) 8 x →
      frameArea (m.reg .sp) x := frame_area_word (by decide)
  have data : field cfg k .methodData = field cfg m .methodData := by
    rw [field, fill.keeps.registers method (by decide)]
    exact fill.outside.load (by decide) record
  obtain ⟨leads, there⟩ := fill.comes
  obtain ⟨k', ⟨leads', there'⟩, keeps, memory⟩ := set_profile_cell_runs cfg there (by
    rw [fp]
    exact fun x covered => clear x (inside x covered))
  rw [data, fp] at memory
  refine ⟨k', ⟨⟨leads.trans leads', there'⟩, fill.keeps.trans (keeps.mono (by decide)), ?_, ?_⟩,
    (keeps.registers .fp (by decide)).trans fp⟩
  · rw [memory]
    split
    · next none =>
        rw [profileCell, if_pos none]
        exact fill.holds
    · exact Memory.Holds.store (fun w member => fill.holds w (.tail _ member)) apart
  · rw [memory]
    split
    · exact fill.outside
    · exact fill.outside.store _ (by decide) fun x covered => not_not.mpr (inside x covered)

def setBytecode (native : Bool) : Program :=
  if native then [.mv bytecode .zero]
  else
    [.ld .t0 method (cfg.method.offset .constMethod),
     .addi bytecode .t0 (cfg.method.offset .codes)]

def setStackPointer (native : Bool) : Program :=
  if native then [.mv .sp stack]
  else
    [.lhu .t0 method (cfg.method.offset .maxStack),
     .slli .t0 .t0 3,
     .sub .t0 stack .t0,
     .andi .sp .t0 (-BitVec.ofNat 64 stackAlignment)]

def frameTail (native synchronized : Bool) : Program :=
  List.flatten [
    [.ld .t0 method (cfg.method.offset .cpCache),
     .sd .t0 .fp (slot .cpCache),
     .sd locals .fp (slot .locals)],
    setBytecode cfg native,
    [.sd bytecode .fp (slot .bytecode),
     .sd .zero .fp (slot .resultHandler),
     .sd .zero .fp (slot .oopTemp),
     .sd .zero .fp (slot .padding),
     .addi stack .fp (-words fixedWords)],
    if synchronized then [.addi stack stack (-words monitorWords)] else [],
    [.sd stack .fp (slot .monitorTop)],
    setStackPointer cfg native,
    if synchronized then [.sd .zero stack monitorLock, .sd .zero stack monitorObject] else []]

theorem fixed_frame_eq (native synchronized : Bool) (l : Label) :
    fixedFrame cfg native synchronized l =
      frameHead cfg ++ ((if cfg.profile && !native then setProfileCell cfg l else []) ++
        frameTail cfg native synchronized) := by
  simp [fixedFrame, frameHead, frameTail, setBytecode, setStackPointer]

def emptyStack (synchronized : Bool) (fp : Dword) : Dword :=
  fp + if synchronized then firstMonitor else -BitVec.ofNat 64 fixedSize

/-- Where the bytecode starts; native methods have none. -/
def firstBytecode (native : Bool) (m : Machine) : Dword :=
  if native then 0 else field cfg m .constMethod + cfg.method.offset .codes

/-- Where the stack pointer comes to be, above room for the expression stack. -/
def deepest (native : Bool) (top : Dword) (m : Machine) : Dword :=
  if native then top else alignDown (top - field cfg m .maxStack <<< 3)

def tailWords (native synchronized : Bool) (m : Machine) : List (Dword × Dword) :=
  [(slot .monitorTop, emptyStack synchronized (m.reg .sp)), (slot .padding, 0),
   (slot .oopTemp, 0), (slot .resultHandler, 0), (slot .bytecode, firstBytecode cfg native m),
   (slot .locals, m.reg locals), (slot .cpCache, field cfg m .cpCache)]

def emptyMonitor : List (Dword × Dword) :=
  [(firstMonitor + monitorObject, 0), (firstMonitor + monitorLock, 0)]

theorem Filling.first_bytecode {placed : List (Dword × Dword)} {k : Machine} (native : Bool)
    (fill : Filling c m (setBytecode cfg native ++ rest) placed k) (fp : k.reg .fp = m.reg .sp)
    (record : ∀ x, Memory.Covers (m.reg method + cfg.method.offset .constMethod) 8 x →
      ¬frameArea (m.reg .sp) x) :
    ∃ k', Filling c m rest placed k' ∧ k'.reg .fp = m.reg .sp ∧
      k'.reg bytecode = firstBytecode cfg native m := by
  cases native with
  | true =>
      obtain ⟨k', fill', first, same⟩ := fill.value (k.exec_immediate .addi _ _ _ (by simp))
        rfl (by decide) (by decide)
      refine ⟨k', fill', (same .fp (by decide)).trans fp, ?_⟩
      rw [first, reg_zero fill.comes.2.cleared]
      rfl
  | false =>
      obtain ⟨k₁, fill, holder, same⟩ := fill.reads cfg .constMethod (fun _ _ => rfl) record
      obtain ⟨k₂, fill, first, same'⟩ := fill.value (k₁.exec_immediate .addi _ _ _ (by simp))
        (by simp) (by decide) (by decide)
      refine ⟨k₂, fill, (same' .fp (by decide)).trans ((same .fp (by decide)).trans fp), ?_⟩
      rw [first, ImmediateOp.value, holder]
      rfl

theorem Filling.empty_stack {placed : List (Dword × Dword)} {k : Machine} {first : Dword}
    (synchronized : Bool)
    (fill : Filling c m (.addi stack .fp (-words fixedWords) ::
      ((if synchronized then [Op.addi stack stack (-words monitorWords)] else []) ++ rest)) placed k)
    (fp : k.reg .fp = m.reg .sp) (bytes : k.reg bytecode = first) :
    ∃ k', Filling c m rest placed k' ∧ k'.reg .fp = m.reg .sp ∧ k'.reg bytecode = first ∧
      k'.reg stack = emptyStack synchronized (m.reg .sp) := by
  obtain ⟨k, fill, top, same⟩ := fill.value (k.exec_immediate .addi _ _ _ (by simp)) (by simp)
    (by decide) (by decide)
  rw [ImmediateOp.value, fp] at top
  have fp := (same .fp (by decide)).trans fp
  have bytes := (same bytecode (by decide)).trans bytes
  cases synchronized with
  | false => exact ⟨k, fill, fp, bytes, top⟩
  | true =>
      obtain ⟨k', fill, top', same⟩ := fill.value (k.exec_immediate .addi _ _ _ (by simp))
        (by simp) (by decide) (by decide)
      refine ⟨k', fill, (same .fp (by decide)).trans fp, (same bytecode (by decide)).trans bytes, ?_⟩
      rw [top', ImmediateOp.value, top, BitVec.add_assoc]
      rfl

theorem Filling.stack_room {placed : List (Dword × Dword)} {k : Machine} {first top : Dword}
    (native : Bool) (fill : Filling c m (setStackPointer cfg native ++ rest) placed k)
    (fp : k.reg .fp = m.reg .sp) (bytes : k.reg bytecode = first) (start : k.reg stack = top)
    (record : ∀ x, Memory.Covers (m.reg method + cfg.method.offset .maxStack) 2 x →
      ¬frameArea (m.reg .sp) x) :
    ∃ k', Filling c m rest placed k' ∧ k'.reg .fp = m.reg .sp ∧ k'.reg bytecode = first ∧
      k'.reg stack = top ∧ k'.reg .sp = deepest cfg native top m := by
  cases native with
  | true =>
      obtain ⟨k', fill, sp, same⟩ := fill.value (k.exec_immediate .addi _ _ _ (by simp)) rfl
        (by decide) (by decide)
      refine ⟨k', fill, (same _ (by decide)).trans fp, (same _ (by decide)).trans bytes,
        (same _ (by decide)).trans start, ?_⟩
      rw [sp, start]
      exact BitVec.add_zero _
  | false =>
      obtain ⟨k₁, fill, room, same₁⟩ := fill.reads cfg .maxStack (fun _ _ => rfl) record
      obtain ⟨k₂, fill, scaled, same₂⟩ := fill.value (k₁.exec_shift .slli _ _ _) (by simp)
        (by decide) (by decide)
      obtain ⟨k₃, fill, low, same₃⟩ := fill.value (k₂.exec_arithmetic .sub _ _ _) (by simp)
        (by decide) (by decide)
      obtain ⟨k₄, fill, sp, same₄⟩ := fill.value (k₃.exec_immediate .andi _ _ _ (by simp))
        (by simp) (by decide) (by decide)
      have kept : ∀ r : Register, r.code ≠ Register.t0.code → r.code ≠ Register.sp.code →
          k₄.reg r = k.reg r := by
        intro r scratch pointer
        rw [same₄ r pointer, same₃ r scratch, same₂ r scratch, same₁ r scratch]
      refine ⟨k₄, fill, (kept _ (by decide) (by decide)).trans fp,
        (kept _ (by decide) (by decide)).trans bytes,
        (kept _ (by decide) (by decide)).trans start, ?_⟩
      rw [sp, low, scaled, room, same₂ stack (by decide), same₁ stack (by decide), start]
      rfl

theorem frame_tail_runs (native synchronized : Bool) {k : Machine} {v : Dword}
    (fill : Filling c m (frameTail cfg native synchronized ++ rest)
      ((slot .profileCell, v) :: headWords cfg m) k)
    (clear : ∀ x, frameArea (m.reg .sp) x → ¬c.Covers x) (fp : k.reg .fp = m.reg .sp)
    (record : ∀ f ∈ [MethodField.cpCache, .constMethod, .maxStack], ∀ x,
      Memory.Covers (m.reg method + cfg.method.offset f) f.width x → ¬frameArea (m.reg .sp) x) :
    ∃ k', Filling c m rest ((if synchronized then emptyMonitor else []) ++
        tailWords cfg native synchronized m ++ (slot .profileCell, v) :: headWords cfg m) k' ∧
      k'.reg .fp = m.reg .sp ∧ k'.reg bytecode = firstBytecode cfg native m ∧
      k'.reg stack = emptyStack synchronized (m.reg .sp) ∧
      k'.reg .sp = deepest cfg native (emptyStack synchronized (m.reg .sp)) m := by
  rw [headWords] at fill ⊢
  simp only [frameTail, List.flatten_cons, List.flatten_nil, List.append_nil, List.append_assoc,
    List.cons_append, List.nil_append] at fill
  obtain ⟨k, fill, cache, same⟩ := fill.reads cfg .cpCache (fun _ _ => rfl)
    (record _ (by simp))
  obtain ⟨k, fill, fp, -⟩ := fill.word clear ((same .fp (by decide)).trans fp) cache
    (by decide) (by simp only [Memory.free_cons, Memory.free_nil, and_true]; decide)
  obtain ⟨k, fill, fp, -⟩ := fill.word clear fp (fill.keeps.registers locals (by decide))
    (by decide) (by simp only [Memory.free_cons, Memory.free_nil, and_true]; decide)
  obtain ⟨k, fill, fp, first⟩ := fill.first_bytecode cfg native fp (record _ (by simp))
  obtain ⟨k, fill, fp, kept⟩ := fill.word clear fp first
    (by decide) (by simp only [Memory.free_cons, Memory.free_nil, and_true]; decide)
  have first := (kept bytecode).trans first
  -- Three words of a new frame are zero until a native call uses them.
  obtain ⟨k, fill, fp, kept⟩ := fill.word clear fp (reg_zero fill.comes.2.cleared)
    (by decide) (by simp only [Memory.free_cons, Memory.free_nil, and_true]; decide)
  have first := (kept bytecode).trans first
  obtain ⟨k, fill, fp, kept⟩ := fill.word clear fp (reg_zero fill.comes.2.cleared)
    (by decide) (by simp only [Memory.free_cons, Memory.free_nil, and_true]; decide)
  have first := (kept bytecode).trans first
  obtain ⟨k, fill, fp, kept⟩ := fill.word clear fp (reg_zero fill.comes.2.cleared)
    (by decide) (by simp only [Memory.free_cons, Memory.free_nil, and_true]; decide)
  have first := (kept bytecode).trans first
  obtain ⟨k, fill, fp, first, top⟩ := fill.empty_stack synchronized fp first
  obtain ⟨k, fill, fp, kept⟩ := fill.word clear fp top
    (by decide) (by simp only [Memory.free_cons, Memory.free_nil, and_true]; decide)
  have first := (kept bytecode).trans first
  have top := (kept stack).trans top
  obtain ⟨k, fill, fp, first, top, sp⟩ :=
    fill.stack_room cfg native fp first top (record _ (by simp))
  cases synchronized with
  | false => exact ⟨k, fill, fp, first, top, sp⟩
  | true =>
      obtain ⟨k₁, fill, kept₁⟩ := fill.store clear
        (by rw [top, emptyStack, if_pos rfl, BitVec.add_assoc]) (reg_zero fill.comes.2.cleared)
        (by decide) (by simp only [Memory.free_cons, Memory.free_nil, and_true]; decide)
      obtain ⟨k₂, fill, kept₂⟩ := fill.store clear
        (by rw [kept₁, top, emptyStack, if_pos rfl, BitVec.add_assoc])
        (reg_zero fill.comes.2.cleared) (by decide)
        (by simp only [Memory.free_cons, Memory.free_nil, and_true]; decide)
      simp only [← kept₁, ← kept₂] at fp first top sp
      exact ⟨k₂, fill, fp, first, top, sp⟩

def firstCell (native : Bool) (m : Machine) : Dword :=
  if cfg.profile && !native then profileCell cfg (field cfg m .methodData) else 0

def frameWords (native synchronized : Bool) (m : Machine) : List (Dword × Dword) :=
  (if synchronized then emptyMonitor else []) ++ tailWords cfg native synchronized m ++
    (slot .profileCell, firstCell cfg native m) :: headWords cfg m

theorem fixed_frame_runs (native synchronized : Bool) {l : Label}
    (stands : c.Stands m (fixedFrame cfg native synchronized l ++ rest))
    (clear : ∀ x, frameArea (m.reg .sp) x → ¬c.Covers x)
    (record : ∀ f ∈ MethodField.inRecord, ∀ x,
      Memory.Covers (m.reg method + cfg.method.offset f) f.width x → ¬frameArea (m.reg .sp) x) :
    ∃ k, Filling c m rest (frameWords cfg native synchronized m) k ∧
      k.reg .fp = m.reg .sp ∧ k.reg bytecode = firstBytecode cfg native m ∧
      k.reg stack = emptyStack synchronized (m.reg .sp) ∧
      k.reg .sp = deepest cfg native (emptyStack synchronized (m.reg .sp)) m := by
  rw [fixed_frame_eq, List.append_assoc, List.append_assoc] at stands
  obtain ⟨k, fill, fp⟩ := frame_head_runs cfg stands clear (record .mirror (by decide))
  have others : ∀ f ∈ [MethodField.cpCache, .constMethod, .maxStack], ∀ x,
      Memory.Covers (m.reg method + cfg.method.offset f) f.width x →
        ¬frameArea (m.reg .sp) x := fun f member => record f (by revert f; decide)
  rw [frameWords, firstCell]
  split at fill
  · next on =>
      obtain ⟨k, fill, fp⟩ := fill.profile_cell cfg clear fp
        (by simp only [headWords, Memory.free_cons, Memory.free_nil, and_true]; decide)
        (record .methodData (by decide))
      rw [if_pos on]
      exact frame_tail_runs cfg native synchronized fill clear fp others
  · next off =>
      rw [if_neg off]
      exact frame_tail_runs cfg native synchronized fill clear fp others

end Frames

end EntryCode.Fragment
