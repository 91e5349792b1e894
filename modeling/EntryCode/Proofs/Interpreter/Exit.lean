import EntryCode.Interpreter.Exit
import EntryCode.Proofs.Interpreter.Callout

/-!
The pieces of the exits, executed. What an exit saves below the stack pointer it finds there again,
and popping a frame takes the registers of the caller from it.
-/

namespace EntryCode.Exit

open EntryCode.Frame Pinned Fragment Linked Machine

variable {c : Linked} {m : Machine} {rest : Program} (cfg : Config)

/-- The pending exception is taken from the thread to the exception dispatch. -/
theorem forward_exception_runs (stands : c.Stands m (forwardException cfg ++ rest))
    (present : pending cfg (m.reg thread) m.memory ≠ 0)
    (even : cfg.callees.address .exceptionDispatch &&& 1 = 0)
    (clear : ∀ x, Memory.Covers (m.reg thread + cfg.thread.offset .pendingException) 8 x →
      ¬c.Covers x) :
    ∃ k, c.Leads m k ∧ k.pc = cfg.callees.address .exceptionDispatch ∧
      Keeps [.a0, .a1, .t0] m k ∧ k.reg .a0 = pending cfg (m.reg thread) m.memory ∧
      k.reg .a1 = m.reg .ra ∧
      k.memory = m.memory.store (m.reg thread + cfg.thread.offset .pendingException) 8 0 := by
  obtain ⟨-, stands⟩ := Stands.bind stands
  obtain ⟨first, stands⟩ := Stands.load stands
  have loaded : ((m.put .a0 (pending cfg (m.reg thread) m.memory)).goto (m.pc + 4)).reg .a0 =
      pending cfg (m.reg thread) m.memory := reg_put_self _ _ _ (by decide)
  obtain ⟨pc, second, stands⟩ := stands.branch_over [_] (by
    rw [reg_zero stands.cleared]
    exact decide_eq_true fun same => present (loaded.symm.trans same))
  have zero := reg_zero stands.cleared
  obtain ⟨third, stands⟩ := stands.store (by
    simp (disch := decide) only [reg_goto, reg_put_ne]
    exact clear)
  obtain ⟨fourth, stands⟩ := stands.immediate (by simp)
  have last := stands.jump_address (by decide) even
  refine ⟨_, (((first.trans second).trans third).trans fourth).trans last, rfl,
    (((((((((Keeps.refl _ m).put (by decide) _).goto _).goto _).poke _ _ _).goto _).put
      (by decide) _).goto _).put (by decide) _).goto _, ?_, ?_, ?_⟩
  · simp (disch := decide) only [reg_goto, reg_put_ne, reg_put_self, reg_poke]
    rfl
  · simp (disch := decide) only [reg_goto, reg_put_ne, reg_put_self, reg_poke, ImmediateOp.value]
    exact BitVec.add_zero _
  · simp (disch := decide) only [reg_goto, reg_put_ne, memory_goto, memory_put, memory_poke] at zero ⊢
    rw [zero]
    rfl

/-- Where there is no exception, none is forwarded. -/
theorem forward_exception_breaks (stands : c.Stands m (forwardException cfg ++ rest))
    (none : pending cfg (m.reg thread) m.memory = 0) :
    ∃ k, c.Leads m k ∧ k.advance = .error .breakpoint ∧ k.memory = m.memory := by
  obtain ⟨-, stands⟩ := Stands.bind stands
  obtain ⟨first, stands⟩ := Stands.load stands
  have loaded : ((m.put .a0 (pending cfg (m.reg thread) m.memory)).goto (m.pc + 4)).reg .a0 =
      pending cfg (m.reg thread) m.memory := reg_put_self _ _ _ (by decide)
  obtain ⟨second, stands⟩ := stands.branch_past (by
    rw [reg_zero stands.cleared]
    exact decide_eq_false (not_not.mpr (loaded.trans none)))
  exact ⟨_, first.trans second, breaks stands.here (has_instruction.mp stands.placed).1, rfl⟩

/-- The room that an exit needs below the stack pointer. -/
def roomSize : Nat := 2 * stackAlignment

def saveState : Program :=
  [.addi .sp .sp (-BitVec.ofNat 64 roomSize),
   .sd .a0 .sp 0,
   .fsd .fa0 .sp (words 1),
   .sd .t2 .sp (words 2)]

/-- Finds out whether the method of the frame is synchronized. -/
def testFlags : Program :=
  [.comment "unlock if synchronized and still held",
   .ld .t0 .fp (slot .method),
   .lwu .t0 .t0 (cfg.method.offset .accessFlags),
   .andi .t0 .t0 (AccessFlags.synchronized.bits.setWidth 64)]

def restoreState : Program :=
  [.ld .a0 .sp 0,
   .fld .fa0 .sp (words 1),
   .ld .t2 .sp (words 2),
   .addi .sp .sp (BitVec.ofNat 64 roomSize)]

def popFrame : Program :=
  [.comment "pop frame",
   .ld .ra .fp (slot .returnAddress),
   .ld .t1 .fp (slot .senderSp),
   .ld .fp .fp (slot .savedFp),
   .mv .sp .t1]

def release (unlocked : Label) : Program :=
  [Op.beqz .t0 unlocked,
   .addi .a0 .fp firstMonitor,
   .ld .t0 .a0 monitorObject,
   .beqz .t0 unlocked,
   .mv .a1 thread] ++ callLeaf cfg .monitorExit "monitorexit" ++
  [Op.sd .zero .fp (firstMonitor + monitorObject),
   .bind unlocked]

/-- Goes on to the caller, or to its exception dispatch. -/
def depart (returning : Label) : Program :=
  [.beqz .t2 returning,
   .j (Routine.forwardException.label .start),
   .bind returning,
   .ret]

/-- The exit, once it is known whether there is an exception. -/
def leave : Program :=
  saveState ++ (testFlags cfg ++ (release cfg (Routine.removeActivation.label .unlocked) ++
    (restoreState ++ (popFrame ++ depart (Routine.removeActivation.label .returning)))))

theorem remove_activation_eq : removeActivation cfg =
    [Op.bind (Routine.removeActivation.label .start), .constant .t2 0,
     .bind (Routine.removeActivation.label .common)] ++ leave cfg := rfl

def savedWords (m : Machine) : List (Dword × Dword) :=
  [(words 2, m.reg .t2), (words 1, m.freg .fa0), (0, m.reg .a0)]

theorem save_state_runs (stands : c.Stands m (saveState ++ rest))
    (clear : ∀ x, Memory.Covers (m.reg .sp - BitVec.ofNat 64 roomSize) roomSize x →
      ¬c.Covers x) :
    ∃ k, c.Comes m k rest ∧ Keeps [.sp] m k ∧
      k.reg .sp = m.reg .sp - BitVec.ofNat 64 roomSize ∧
      k.memory.Holds (m.reg .sp - BitVec.ofNat 64 roomSize) (savedWords m) ∧
      Memory.Agree (fun x => ¬Memory.Covers (m.reg .sp - BitVec.ofNat 64 roomSize) roomSize x)
        m.memory k.memory := by
  have low : m.reg .sp + -BitVec.ofNat 64 roomSize = m.reg .sp - BitVec.ofNat 64 roomSize :=
    (BitVec.sub_eq_add_neg _ _).symm
  have part : ∀ n, n + 8 ≤ roomSize → ∀ x,
      Memory.Covers (m.reg .sp - BitVec.ofNat 64 roomSize + BitVec.ofNat 64 n) 8 x →
        Memory.Covers (m.reg .sp - BitVec.ofNat 64 roomSize) roomSize x :=
    fun n short x covered => covered.within short (by decide)
  have touches : m.Touches
      (Memory.Covers (m.reg .sp - BitVec.ofNat 64 roomSize) roomSize) saveState := by
    simp (disch := first | rfl | decide) only [saveState, Op.addi, Op.sd, Op.fsd, touches_silent,
      touches_store, touches_store_double, touches_nil, exec_store, exec_store_double,
      exec_immediate, reg_goto, reg_poke, reg_put_self, ImmediateOp.value, low]
    exact ⟨part 0 (by decide), part 8 (by decide), part 16 (by decide), trivial⟩
  refine ⟨_, stands.performs _ rfl touches clear, keeps_performs _ _ rfl, ?_, ?_,
    fun x outside => byte_performs _ touches x outside⟩
  all_goals
    simp (disch := decide) only [saveState, Op.addi, Op.sd, Op.fsd, performs_instruction,
      performs_nil, exec_store, exec_store_double, exec_immediate, reg_goto, reg_poke,
      reg_put_self, reg_put_ne, freg_goto, freg_poke, freg_put, memory_goto, memory_poke,
      ImmediateOp.value, low]
  refine Memory.Holds.store (Memory.Holds.store (Memory.Holds.store (.nil _) (Memory.free_nil _)) ?_) ?_
  · simp only [Memory.free_cons]
    exact ⟨by decide, Memory.free_nil _⟩
  · simp only [Memory.free_cons]
    exact ⟨by decide, by decide, Memory.free_nil _⟩

theorem test_flags_runs (stands : c.Stands m (testFlags cfg ++ rest)) :
    ∃ k, c.Comes m k rest ∧ Keeps [.t0] m k ∧ k.memory = m.memory ∧
      k.reg .t0 = m.memory.load (m.memory.load (m.reg .fp + slot .method) 8 +
        cfg.method.offset .accessFlags) 4 &&& AccessFlags.synchronized.bits.setWidth 64 := by
  obtain ⟨comes, keeps, memory⟩ := stands.computes _ [.t0] rfl rfl rfl
  refine ⟨_, comes, keeps, memory, ?_⟩
  simp (disch := decide) only [testFlags, Op.ld, Op.lwu, Op.andi, performs_comment,
    performs_instruction, performs_nil, exec_load, exec_immediate, reg_goto, reg_put_self,
    memory_goto, memory_put, ImmediateOp.value, LoadOp.value]

def unlock : Program :=
  .mv .a1 thread :: (callLeaf cfg .monitorExit "monitorexit" ++
    [Op.sd .zero .fp (firstMonitor + monitorObject)])

def heldObject (m : Machine) : Dword :=
  m.memory.load (m.reg .fp + (firstMonitor + monitorObject)) 8

theorem load_object_runs
    (stands : c.Stands m (.addi .a0 .fp firstMonitor :: .ld .t0 .a0 monitorObject :: rest)) :
    ∃ k, c.Comes m k rest ∧ Keeps [.a0, .t0] m k ∧ k.memory = m.memory ∧
      k.reg .a0 = m.reg .fp + firstMonitor ∧ k.reg .t0 = heldObject m := by
  obtain ⟨first, stands⟩ := stands.immediate (by simp)
  obtain ⟨second, stands⟩ := stands.load
  refine ⟨_, ⟨first.trans second, stands⟩,
    ((((Keeps.refl _ m).put (by decide) _).goto _).put (by decide) _).goto _, rfl, ?_, ?_⟩
  · simp (disch := decide) only [reg_goto, reg_put_ne, reg_put_self, ImmediateOp.value]
  · simp (disch := decide) only [reg_goto, reg_put_self, memory_goto, memory_put,
      ImmediateOp.value, LoadOp.value]
    rw [BitVec.add_assoc]
    rfl

theorem test_lock_runs {l : Label} (stands : c.Stands m (release cfg l ++ rest)) :
    ∃ k, c.Comes m k (if m.reg .t0 = 0 ∨ heldObject m = 0 then rest
        else unlock cfg ++ .bind l :: rest) ∧ Keeps [.a0, .t0] m k ∧ k.memory = m.memory ∧
      (¬(m.reg .t0 = 0 ∨ heldObject m = 0) → k.reg .a0 = m.reg .fp + firstMonitor) := by
  have whole : release cfg l ++ rest = .beqz .t0 l :: ([Op.addi .a0 .fp firstMonitor,
      .ld .t0 .a0 monitorObject, .beqz .t0 l] ++ unlock cfg ++ .bind l :: rest) := by
    simp [release, unlock]
  rw [whole] at stands
  by_cases free : m.reg .t0 = 0
  · obtain ⟨pc, leads, stands⟩ := Stands.branch_over ([Op.addi .a0 .fp firstMonitor,
      .ld .t0 .a0 monitorObject, .beqz .t0 l] ++ unlock cfg) stands (by
        rw [reg_zero stands.cleared, free]
        rfl)
    rw [if_pos (.inl free)]
    exact ⟨_, ⟨leads, stands⟩, (Keeps.refl _ m).goto pc, rfl, fun held => (held (.inl free)).elim⟩
  · obtain ⟨first, stands⟩ := Stands.branch_past stands (by
      rw [reg_zero stands.cleared]
      exact decide_eq_false free)
    obtain ⟨k, ⟨second, stands⟩, keeps, memory, place, object⟩ := load_object_runs stands
    have leads := first.trans second
    have keeps : Keeps [.a0, .t0] m k := ((Keeps.refl _ m).goto _).trans keeps
    have object : k.reg .t0 = heldObject m := object
    by_cases none : heldObject m = 0
    · obtain ⟨pc, last, stands⟩ := Stands.branch_over (unlock cfg) stands (by
        rw [reg_zero stands.cleared, object, none]
        rfl)
      rw [if_pos (.inr none)]
      exact ⟨_, ⟨leads.trans last, stands⟩, keeps.goto pc, memory,
        fun held => (held (.inr none)).elim⟩
    · obtain ⟨last, stands⟩ := Stands.branch_past stands (by
        rw [reg_zero stands.cleared, object, Condition.holds_eq, decide_eq_false_iff_not]
        exact none)
      rw [if_neg (not_or.mpr ⟨free, none⟩)]
      exact ⟨_, ⟨leads.trans last, stands⟩, keeps.goto _, memory, fun _ => place⟩

/-- The routine that releases the lock is called with the monitor and the thread. -/
theorem unlock_reaches (stands : c.Stands m (unlock cfg ++ rest))
    (even : cfg.callees.address .monitorExit &&& 1 = 0) :
    ∃ k, c.Leads m k ∧ k.pc = cfg.callees.address .monitorExit ∧ Keeps [.ra, .t0, .a1] m k ∧
      k.reg .a1 = m.reg thread ∧ k.memory = m.memory ∧
      c.Has (k.reg .ra) (.sd .zero .fp (firstMonitor + monitorObject) :: rest) := by
  obtain ⟨first, stands⟩ := Stands.immediate stands (by simp)
  obtain ⟨back, second, resumes⟩ := stands.comment.call_address (by decide) even
  refine ⟨_, first.trans second, rfl,
    (((((Keeps.refl _ m).put (by decide) _).goto _).put (by decide) _).put (by decide) _).goto _,
    ?_, rfl, ?_⟩
  · simp (disch := decide) only [reg_goto, reg_put_ne, reg_put_self, ImmediateOp.value]
    exact BitVec.add_zero _
  · rw [reg_goto, reg_put_self _ _ _ (by decide)]
    exact resumes

theorem restore_state_runs (stands : c.Stands m (restoreState ++ rest)) :
    ∃ k, c.Comes m k rest ∧ k.memory = m.memory ∧
      (∀ r : Register, (∀ s ∈ [Register.a0, .t2, .sp], r.code ≠ s.code) → k.reg r = m.reg r) ∧
      k.reg .a0 = m.memory.load (m.reg .sp + 0) 8 ∧
      k.freg .fa0 = m.memory.load (m.reg .sp + words 1) 8 ∧
      k.reg .t2 = m.memory.load (m.reg .sp + words 2) 8 := by
  have comes := stands.performs _ rfl (touches_of_silent _ rfl) (fun _ => False.elim)
  refine ⟨_, comes, memory_performs _ rfl, ?_, ?_, ?_, ?_⟩
  · intro r apart
    simp only [List.forall_mem_cons] at apart
    obtain ⟨one, two, three, -⟩ := apart
    simp (disch := first | assumption | decide) only [restoreState, Op.addi, Op.ld, Op.fld,
      performs_instruction, performs_nil, exec_load, exec_load_float, exec_immediate, reg_goto,
      reg_put_float, reg_put_ne]
  all_goals
    simp (disch := decide) only [restoreState, Op.addi, Op.ld, Op.fld, performs_instruction,
      performs_nil, exec_load, exec_load_float, exec_immediate, reg_goto, reg_put_float,
      reg_put_ne, reg_put_self, freg_goto, freg_put, freg_put_float, memory_goto, memory_put,
      memory_put_float, LoadOp.value, FloatWidth.value, if_true]

theorem pop_frame_runs (stands : c.Stands m (popFrame ++ rest)) :
    ∃ k, c.Comes m k rest ∧ k.memory = m.memory ∧ Keeps [.ra, .t1, .fp, .sp] m k ∧
      k.reg .ra = m.memory.load (m.reg .fp + slot .returnAddress) 8 ∧
      k.reg .sp = m.memory.load (m.reg .fp + slot .senderSp) 8 ∧
      k.reg .fp = m.memory.load (m.reg .fp + slot .savedFp) 8 := by
  obtain ⟨comes, keeps, memory⟩ := stands.computes _ [.ra, .t1, .fp, .sp] rfl rfl rfl
  have zero : ∀ v : Dword, v + 0 = v := BitVec.add_zero
  refine ⟨_, comes, memory, keeps, ?_, ?_, ?_⟩
  all_goals
    simp (disch := decide) only [popFrame, Op.ld, Op.mv, performs_comment, performs_instruction,
      performs_nil, exec_load, exec_immediate, reg_goto, reg_put_ne, reg_put_self, memory_goto,
      memory_put, ImmediateOp.value, LoadOp.value, Pseudo.mv, zero]

/-- Without an exception control returns to the caller, with one it is forwarded. -/
theorem depart_runs {l : Label} {away : Program} (stands : c.Stands m (depart l ++ rest))
    (there : c.Has (c.target (Routine.forwardException.label .start)) away) :
    ∃ k, c.Comes m k (if m.reg .t2 = 0 then .ret :: rest else away) ∧ Keeps [] m k ∧
      k.memory = m.memory := by
  split
  · next calm =>
      obtain ⟨pc, leads, stands⟩ := Stands.branch_over [_] stands (by
        rw [reg_zero stands.cleared, calm]
        rfl)
      exact ⟨_, ⟨leads, stands⟩, (Keeps.refl _ m).goto pc, rfl⟩
  · next thrown =>
      obtain ⟨first, stands⟩ := Stands.branch_past stands (by
        rw [reg_zero stands.cleared]
        exact decide_eq_false thrown)
      obtain ⟨second, stands⟩ := stands.jump there
      exact ⟨_, ⟨first.trans second, stands⟩, ((Keeps.refl _ m).goto _).goto _, rfl⟩

section Frameless
variable (callee : Callee) {what : String}

/-- Goes back to the stack of the caller and saves the return address there. -/
def pushReturn : Program :=
  .mv .sp senderSp :: (saveReturn ++ [Op.mv .a0 thread])

/-- Calls a routine that throws, from the stack of the caller. -/
def throwBare (what : String) (arguments : Program) : Program :=
  pushReturn ++ (arguments ++ (callLeaf cfg callee what ++
    (restoreReturn ++ [Op.j (Routine.forwardException.label .start)])))

theorem throw_stack_overflow_eq : throwStackOverflow cfg =
    .bind (Routine.throwStackOverflow.label .start) ::
      throwBare cfg .throwStackOverflow "throw_StackOverflowError" [] := rfl

/-- Where the return address is saved while there is no frame. -/
def spare (m : Machine) (x : Dword) : Prop :=
  Memory.Covers (m.reg senderSp - BitVec.ofNat 64 stackAlignment) stackAlignment x

/-- The address there that the return address is put to. -/
def linkAddress (m : Machine) : Dword := m.reg senderSp - BitVec.ofNat 64 wordSize

def linkWord (m : Machine) (x : Dword) : Prop :=
  Memory.Covers (linkAddress m) 8 x

theorem link_address (m : Machine) :
    m.reg senderSp - BitVec.ofNat 64 stackAlignment + words 1 = linkAddress m := by
  simp only [linkAddress, words, stackAlignment, wordSize]
  bv_omega

theorem link_spare (x : Dword) (link : linkWord m x) : spare m x := by
  rw [linkWord, ← link_address] at link
  exact link.within (by decide) (by decide)

def linked (m : Machine) : Memory :=
  m.memory.store (linkAddress m) 8 (m.reg .ra)

theorem linked_agree (m : Machine) : Memory.Agree (fun x => ¬linkWord m x) m.memory (linked m) :=
  Memory.agree_store _ _ _ (by decide)

theorem push_return_runs (stands : c.Stands m (pushReturn ++ rest))
    (clear : ∀ x, linkWord m x → ¬c.Covers x) :
    ∃ k, c.Comes m k rest ∧ Keeps [.sp, .a0] m k ∧ k.reg .a0 = m.reg thread ∧
      k.reg .sp = m.reg senderSp - BitVec.ofNat 64 stackAlignment ∧ k.memory = linked m := by
  have zero : ∀ v : Dword, v + 0 = v := BitVec.add_zero
  have low : m.reg senderSp + -BitVec.ofNat 64 stackAlignment =
      m.reg senderSp - BitVec.ofNat 64 stackAlignment := (BitVec.sub_eq_add_neg _ _).symm
  have touches : m.Touches (linkWord m) pushReturn := by
    simp (disch := first | rfl | decide) only [pushReturn, saveReturn, List.cons_append, List.nil_append,
      Op.mv, Op.addi, Op.sd, Pseudo.mv, touches_silent, touches_store, touches_nil, exec_immediate,
      reg_goto, reg_put_self, ImmediateOp.value, zero, low, link_address]
    exact ⟨fun _ covered => covered, trivial⟩
  refine ⟨_, stands.performs _ rfl touches clear, keeps_performs _ _ rfl, ?_, ?_, ?_⟩
  all_goals
    simp (disch := decide) only [pushReturn, saveReturn, List.cons_append, List.nil_append, Op.mv,
      Op.addi, Op.sd, Pseudo.mv, performs_instruction, performs_nil, exec_store, exec_immediate,
      reg_goto, reg_poke, reg_put_self, reg_put_ne, memory_goto, memory_put, memory_poke,
      ImmediateOp.value, zero, low, link_address]
  rfl

/-- The routine is called with the return address of the caller saved on the stack. -/
theorem throw_bare_reaches {arguments : Program}
    (stands : c.Stands m (throwBare cfg callee what arguments ++ rest))
    (falls : arguments.all Op.falls = true) (silent : arguments.all Op.silent = true)
    (writes : arguments.all (Op.writes [.a1]) = true)
    (even : cfg.callees.address callee &&& 1 = 0) (clear : ∀ x, linkWord m x → ¬c.Covers x) :
    ∃ k, c.Leads m k ∧ k.pc = cfg.callees.address callee ∧
      Keeps [.sp, .a0, .a1, .ra, .t0] m k ∧ k.reg .a0 = m.reg thread ∧
      k.reg .sp = m.reg senderSp - BitVec.ofNat 64 stackAlignment ∧ k.memory = linked m ∧
      c.Has (k.reg .ra)
        (restoreReturn ++ (.j (Routine.forwardException.label .start) :: rest)) := by
  simp only [throwBare, callLeaf, List.append_assoc, List.cons_append, List.nil_append] at stands
  obtain ⟨k, ⟨first, stands⟩, keeps, current, place, saved⟩ := push_return_runs stands clear
  obtain ⟨⟨second, stands⟩, keeps₁, memory⟩ := stands.computes _ [.a1] falls silent writes
  generalize k.performs arguments = k₁ at *
  obtain ⟨back, third, resumes⟩ := stands.comment.call_address (by decide) even
  have kept : Keeps [.sp, .a0, .a1, .ra, .t0] m k₁ :=
    (keeps.mono (by decide)).trans (keeps₁.mono (by decide))
  have sp := keeps₁.registers .sp (by decide)
  refine ⟨_, (first.trans second).trans third, rfl,
    ((kept.put (by decide) _).put (by decide) _).goto _, ?_, ?_, ?_, ?_⟩
  all_goals
    simp (disch := decide) only [reg_goto, reg_put_ne, reg_put_self, memory_goto, memory_put]
  · exact (keeps₁.registers .a0 (by decide)).trans current
  · exact sp.trans place
  · exact memory.trans saved
  · exact resumes

/-- Once the routine has returned, the exception is forwarded from the caller. -/
theorem restore_return_runs {away : Program}
    (stands : c.Stands m (restoreReturn ++ (.j (Routine.forwardException.label .start) :: rest)))
    (there : c.Has (c.target (Routine.forwardException.label .start)) away) :
    ∃ k, c.Comes m k away ∧ Keeps [.ra, .sp] m k ∧ k.memory = m.memory ∧
      k.reg .ra = m.memory.load (m.reg .sp + words 1) 8 ∧
      k.reg .sp = m.reg .sp + BitVec.ofNat 64 stackAlignment := by
  obtain ⟨first, stands⟩ := Stands.load stands
  obtain ⟨second, stands⟩ := stands.immediate (by simp)
  obtain ⟨third, stands⟩ := stands.jump there
  refine ⟨_, ⟨(first.trans second).trans third, stands⟩,
    (((((Keeps.refl _ m).put (by decide) _).goto _).put (by decide) _).goto _).goto _, rfl, ?_, ?_⟩
  · simp (disch := decide) only [reg_goto, reg_put_ne, reg_put_self]
    rfl
  · simp (disch := decide) only [reg_goto, reg_put_ne, reg_put_self, ImmediateOp.value]

end Frameless

end EntryCode.Exit
