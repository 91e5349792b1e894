import EntryCode.Proofs.Interpreter.Fragment
import EntryCode.Proofs.Machine.Calls
import EntryCode.Proofs.Method.Record

/-!
Calls of the runtime from inside a frame. Before the call the frame is published in the thread, and
nothing else changes; after it the method and the bytecode are read back from the frame, and the
run goes on where no exception is pending and leaves the frame where one is.
-/

namespace EntryCode

def ThreadField.inRecord : List ThreadField :=
  all.filter (· ≠ handleTop)

end EntryCode

namespace EntryCode.Fragment

open EntryCode.Frame Pinned Linked Machine

def anchor (cfg : Config) (thread x : Dword) : Prop :=
  ∃ f ∈ [ThreadField.lastSp, .lastFp, .lastPc],
    Memory.Covers (thread + cfg.thread.offset f) 8 x

def anchorWords (cfg : Config) (sp fp pc : Dword) : List (Dword × Dword) :=
  [(cfg.thread.offset .lastPc, pc), (cfg.thread.offset .lastFp, fp),
   (cfg.thread.offset .lastSp, sp)]

def pending (cfg : Config) (thread : Dword) (mem : Memory) : Dword :=
  mem.load (thread + cfg.thread.offset .pendingException) 8

section Anchor
variable {c : Linked} {m : Machine} {rest : Program} (cfg : Config)
  (parted : cfg.thread.Parted ThreadField.inRecord)

include parted in
theorem anchor_stored (mem : Memory) (thread sp fp pc : Dword) :
    (((mem.store (thread + cfg.thread.offset .lastSp) 8 sp).store
      (thread + cfg.thread.offset .lastFp) 8 fp).store
        (thread + cfg.thread.offset .lastPc) 8 pc).Holds thread (anchorWords cfg sp fp pc) := by
  have apart : ∀ f ∈ ThreadField.inRecord, ∀ g ∈ ThreadField.inRecord, f ≠ g → f.width = 8 →
      g.width = 8 → Memory.Apart (cfg.thread.offset f) 8 (cfg.thread.offset g) 8 := by
    intro f one g two other wide wide'
    have apart := parted.apart one two other
    rwa [show RecordField.width f = 8 from wide, show RecordField.width g = 8 from wide'] at apart
  refine Memory.Holds.store (Memory.Holds.store (Memory.Holds.store (.nil thread) ?_) ?_) ?_
  · exact Memory.free_nil _
  · simp only [Memory.free_cons]
    exact ⟨apart _ (by decide) _ (by decide) (by decide) rfl rfl, Memory.free_nil _⟩
  · simp only [Memory.free_cons]
    exact ⟨apart _ (by decide) _ (by decide) (by decide) rfl rfl,
      apart _ (by decide) _ (by decide) (by decide) rfl rfl, Memory.free_nil _⟩

theorem publish_anchor_touches (m : Machine) :
    m.Touches (anchor cfg (m.reg thread)) (publishAnchor cfg) := by
  simp (disch := first | rfl | decide) only [publishAnchor, Op.sd, Op.here, touches_silent,
    touches_store, touches_nil, exec_store, exec_upper, reg_goto, reg_poke, reg_put_ne]
  exact ⟨fun x covered => ⟨.lastSp, by decide, covered⟩,
    fun x covered => ⟨.lastFp, by decide, covered⟩,
    fun x covered => ⟨.lastPc, by decide, covered⟩, trivial⟩

theorem clear_anchor_touches (m : Machine) :
    m.Touches (anchor cfg (m.reg thread)) (clearAnchor cfg) := by
  simp (disch := first | rfl | decide) only [clearAnchor, Op.sd, touches_store, touches_nil,
    exec_store, reg_goto, reg_poke]
  exact ⟨fun x covered => ⟨.lastSp, by decide, covered⟩,
    fun x covered => ⟨.lastFp, by decide, covered⟩,
    fun x covered => ⟨.lastPc, by decide, covered⟩, trivial⟩

/-- Publishing a frame changes nothing but the anchor. -/
theorem publish_anchor_reaches (stands : c.Stands m (publishAnchor cfg ++ rest))
    (clear : ∀ x, anchor cfg (m.reg thread) x → ¬c.Covers x) :
    c.Comes m (m.performs (publishAnchor cfg)) rest ∧
      Keeps [.t0] m (m.performs (publishAnchor cfg)) ∧
      Memory.Agree (fun x => ¬anchor cfg (m.reg thread) x) m.memory
        (m.performs (publishAnchor cfg)).memory :=
  ⟨stands.performs _ rfl (publish_anchor_touches cfg m) clear, keeps_performs _ _ rfl,
    fun x outside => byte_performs _ (publish_anchor_touches cfg m) x outside⟩

/-- Clearing the anchor changes nothing else. -/
theorem clear_anchor_reaches (stands : c.Stands m (clearAnchor cfg ++ rest))
    (clear : ∀ x, anchor cfg (m.reg thread) x → ¬c.Covers x) :
    c.Comes m (m.performs (clearAnchor cfg)) rest ∧
      Keeps [] m (m.performs (clearAnchor cfg)) ∧
      Memory.Agree (fun x => ¬anchor cfg (m.reg thread) x) m.memory
        (m.performs (clearAnchor cfg)).memory :=
  ⟨stands.performs _ rfl (clear_anchor_touches cfg m) clear, keeps_performs _ _ rfl,
    fun x outside => byte_performs _ (clear_anchor_touches cfg m) x outside⟩

include parted in
theorem publish_anchor_runs (stands : c.Stands m (publishAnchor cfg ++ rest))
    (clear : ∀ x, anchor cfg (m.reg thread) x → ¬c.Covers x) :
    ∃ k pc, c.Comes m k rest ∧ Keeps [.t0] m k ∧ c.InCode pc ∧
      k.memory.Holds (m.reg thread) (anchorWords cfg (m.reg .sp) (m.reg .fp) pc) ∧
      Memory.Agree (fun x => ¬anchor cfg (m.reg thread) x) m.memory k.memory := by
  obtain ⟨comes, keeps, agree⟩ := publish_anchor_reaches cfg stands clear
  have there : c.InCode (m.pc + 4 + 4) :=
    has_in_code (has_instruction.mp (has_instruction.mp stands.placed).2).2
  refine ⟨_, m.pc + 4 + 4, comes, keeps, there, ?_, agree⟩
  simp (disch := decide) only [publishAnchor, Op.sd, Op.here, performs_instruction, performs_nil,
    exec_store, exec_upper, reg_goto, reg_poke, reg_put_ne, reg_put_self, memory_goto, memory_poke,
    memory_put, pc_goto, UpperOp.value]
  rw [show ∀ v : Dword, v + sext 32 ((0 : Dword) <<< 12) = v from BitVec.add_zero]
  exact anchor_stored cfg parted _ _ _ _ _

include parted in
theorem cleared_anchor_holds (zeroed : m.Zeroed) :
    (m.performs (clearAnchor cfg)).memory.Holds (m.reg thread) (anchorWords cfg 0 0 0) := by
  simp only [clearAnchor, Op.sd, performs_instruction, performs_nil, exec_store, reg_goto,
    reg_poke, memory_goto, memory_poke, reg_zero zeroed]
  exact anchor_stored cfg parted _ _ _ _ _

include parted in
theorem clear_anchor_runs (stands : c.Stands m (clearAnchor cfg ++ rest))
    (clear : ∀ x, anchor cfg (m.reg thread) x → ¬c.Covers x) :
    ∃ k, c.Comes m k rest ∧ Keeps [] m k ∧
      k.memory.Holds (m.reg thread) (anchorWords cfg 0 0 0) ∧
      Memory.Agree (fun x => ¬anchor cfg (m.reg thread) x) m.memory k.memory := by
  obtain ⟨comes, keeps, agree⟩ := clear_anchor_reaches cfg stands clear
  exact ⟨_, comes, keeps, cleared_anchor_holds cfg parted stands.cleared, agree⟩

end Anchor

section Calls
variable {c : Linked} {m : Machine} {rest : Program} (cfg : Config) (callee : Callee)
  {what : String} {l : Label} (parted : cfg.thread.Parted ThreadField.inRecord)

/-- What is done once a routine has returned, up to the check for an exception. -/
def afterCall : Program :=
  clearAnchor cfg ++ [Op.ld method .fp (slot .method), .ld bytecode .fp (slot .bytecode)]

/-- A call reaches the routine with the bytecode pointer in the frame and the frame published. -/
theorem call_runtime_leads (stands : c.Stands m (callRuntime cfg callee what l ++ rest))
    (even : cfg.callees.address callee &&& 1 = 0)
    (outside : ∀ x, Memory.Covers (m.reg .fp + slot .bytecode) 8 x → ¬c.Covers x)
    (clear : ∀ x, anchor cfg (m.reg thread) x → ¬c.Covers x) :
    ∃ k, c.Leads m k ∧ c.Has (k.reg .ra) (afterCall cfg ++ (checkPending cfg l ++ rest)) ∧
      k.pc = cfg.callees.address callee ∧ Keeps [.ra, .t0, .a0] m k ∧
      k.reg .a0 = m.reg thread ∧ c.InMemory k.memory ∧
      Memory.Agree (fun x => ¬anchor cfg (m.reg thread) x)
        (m.memory.store (m.reg .fp + slot .bytecode) 8 (m.reg bytecode)) k.memory := by
  simp only [callRuntime, List.flatten_cons, List.flatten_nil, List.append_nil, List.append_assoc,
    List.cons_append, List.nil_append] at stands
  obtain ⟨first, there⟩ := stands.comment.immediate (by simp)
  obtain ⟨second, there⟩ := there.store (by
    simp (disch := decide) only [reg_goto, reg_put_ne]
    exact outside)
  obtain ⟨⟨third, there⟩, keeps, agree⟩ := publish_anchor_reaches cfg there (by
    simp (disch := decide) only [reg_goto, reg_poke, reg_put_ne]
    exact clear)
  obtain ⟨back, fourth, resumes⟩ := there.call_address (by decide) even
  have here := there.here
  generalize performs _ (publishAnchor cfg) = k at *
  simp (disch := decide) only [reg_goto, reg_poke, reg_put_ne, memory_goto, memory_poke,
    memory_put] at agree
  have kept : Keeps [.ra, .t0, .a0] m k := by
    refine Keeps.trans ?_ (keeps.mono (by decide))
    exact (((((Keeps.refl _ m).put (by decide) _).goto _).poke _ _ _).goto _)
  refine ⟨_, ((first.trans second).trans third).trans fourth, ?_, rfl,
    ((kept.put (by decide) _).put (by decide) _).goto _, ?_, here, agree⟩
  · rw [reg_goto, reg_put_self _ _ _ (by decide), afterCall, List.append_assoc]
    exact resumes
  · simp (disch := decide) only [reg_goto, reg_put_ne]
    rw [keeps.registers .a0 (by decide)]
    simp (disch := decide) only [reg_goto, reg_poke, reg_put_self, ImmediateOp.value]
    exact BitVec.add_zero _

/-- A call reaches the routine with the frame published and nothing else changed. -/
theorem call_runtime_reaches (stands : c.Stands m (callRuntime cfg callee what l ++ rest))
    (even : cfg.callees.address callee &&& 1 = 0)
    (held : m.memory.load (m.reg .fp + slot .bytecode) 8 = m.reg bytecode)
    (outside : ∀ x, Memory.Covers (m.reg .fp + slot .bytecode) 8 x → ¬c.Covers x)
    (clear : ∀ x, anchor cfg (m.reg thread) x → ¬c.Covers x) :
    ∃ k, c.Leads m k ∧ c.Has (k.reg .ra) (afterCall cfg ++ (checkPending cfg l ++ rest)) ∧
      k.pc = cfg.callees.address callee ∧ Keeps [.ra, .t0, .a0] m k ∧
      k.reg .a0 = m.reg thread ∧
      Memory.Agree (fun x => ¬anchor cfg (m.reg thread) x) m.memory k.memory := by
  obtain ⟨k, leads, back, there, keeps, argument, -, agree⟩ :=
    call_runtime_leads cfg callee stands even outside clear
  refine ⟨k, leads, back, there, keeps, argument, fun x free => ?_⟩
  -- The bytecode pointer is stored where it already is.
  rw [agree x free]
  exact Memory.byte_store_held held x

/-- Once a routine has returned, the method and the bytecode are read from the frame. -/
theorem after_call_reaches (stands : c.Stands m (afterCall cfg ++ rest))
    (clear : ∀ x, anchor cfg (m.reg thread) x → ¬c.Covers x) :
    ∃ k, c.Comes m k rest ∧ Keeps [method, bytecode] m k ∧
      k.reg method = k.memory.load (m.reg .fp + slot .method) 8 ∧
      k.reg bytecode = k.memory.load (m.reg .fp + slot .bytecode) 8 ∧
      k.memory = (m.performs (clearAnchor cfg)).memory ∧
      Memory.Agree (fun x => ¬anchor cfg (m.reg thread) x) m.memory k.memory := by
  rw [afterCall, List.append_assoc] at stands
  obtain ⟨⟨first, there⟩, keeps, agree⟩ := clear_anchor_reaches cfg stands clear
  obtain ⟨second, there⟩ := there.load
  obtain ⟨third, there⟩ := there.load
  have fp := keeps.registers .fp (by decide)
  refine ⟨_, ⟨(first.trans second).trans third, there⟩,
    (((((keeps.mono (by decide)).put (by decide) _).goto _).put (by decide) _).goto _), ?_, ?_,
    rfl, agree⟩
  · simp (disch := decide) only [reg_goto, reg_put_ne, reg_put_self, fp]
    rfl
  · simp (disch := decide) only [reg_goto, reg_put_ne, reg_put_self, fp, memory_goto, memory_put]
    rfl

include parted in
/-- Once a routine has returned, the method and the bytecode are those of the frame. -/
theorem after_call_runs (stands : c.Stands m (afterCall cfg ++ rest))
    (clear : ∀ x, anchor cfg (m.reg thread) x → ¬c.Covers x)
    (framed : ∀ s ∈ [Slot.method, .bytecode], ∀ x, Memory.Covers (m.reg .fp + slot s) 8 x →
      ¬anchor cfg (m.reg thread) x) :
    ∃ k, c.Comes m k rest ∧ Keeps [method, bytecode] m k ∧
      k.reg method = m.memory.load (m.reg .fp + slot .method) 8 ∧
      k.reg bytecode = m.memory.load (m.reg .fp + slot .bytecode) 8 ∧
      k.memory.Holds (m.reg thread) (anchorWords cfg 0 0 0) ∧
      Memory.Agree (fun x => ¬anchor cfg (m.reg thread) x) m.memory k.memory := by
  obtain ⟨k, comes, keeps, holder, bytes, memory, agree⟩ := after_call_reaches cfg stands clear
  refine ⟨k, comes, keeps, ?_, ?_, ?_, agree⟩
  · rw [holder]
    exact agree.load (by decide) (framed _ (by decide))
  · rw [bytes]
    exact agree.load (by decide) (framed _ (by decide))
  · rw [memory]
    exact cleared_anchor_holds cfg parted stands.cleared

/-- Without an exception the run goes on, with one it leaves the frame. -/
theorem check_pending_runs {away : Program} (stands : c.Stands m (checkPending cfg l ++ rest))
    (there : c.Has (c.target (Routine.removeActivationException.label .start)) away) :
    ∃ k, c.Comes m k (if pending cfg (m.reg thread) m.memory = 0 then rest else away) ∧
      Keeps [.t0] m k ∧ k.memory = m.memory := by
  obtain ⟨first, stands⟩ := Stands.load stands
  have loaded : ((m.put .t0 (pending cfg (m.reg thread) m.memory)).goto (m.pc + 4)).reg .t0 =
      pending cfg (m.reg thread) m.memory := reg_put_self _ _ _ (by decide)
  have keeps : Keeps [.t0] m ((m.put .t0 (pending cfg (m.reg thread) m.memory)).goto (m.pc + 4)) :=
    ((Keeps.refl _ m).put (by decide) _).goto _
  split
  · next none =>
      obtain ⟨pc, second, stands⟩ := stands.branch_over [_] (by
        rw [reg_zero stands.cleared]
        exact decide_eq_true (loaded.trans none))
      exact ⟨_, ⟨first.trans second, stands⟩, keeps.goto pc, rfl⟩
  · next some =>
      obtain ⟨second, stands⟩ := stands.branch_past (by
        rw [reg_zero stands.cleared]
        exact decide_eq_false fun same => some (loaded.symm.trans same))
      obtain ⟨third, stands⟩ := stands.jump there
      exact ⟨_, ⟨(first.trans second).trans third, stands⟩, (keeps.goto _).goto _, rfl⟩

end Calls

end EntryCode.Fragment
