import EntryCode.Interpreter.Entry
import EntryCode.Proofs.Interpreter.Callout
import EntryCode.Proofs.Interpreter.Counter

/-!
The pieces of a native entry, executed: room for the arguments, the resolution of the function, the
mirror of a static method, what is tested on the way back, and the result kept meanwhile.
-/

namespace EntryCode.Fragment

open EntryCode.Frame Pinned Linked Machine

section Pieces
variable (cfg : Config) (spot : Spot → Label)

def outgoingArea : Program :=
  [.comment "outgoing argument area",
   .lhu .t1 method (cfg.method.offset .parameterSlots),
   .addi .t1 .t1 2,
   .slli .t1 .t1 3,
   .sub .t1 stack .t1,
   .andi .sp .t1 (-BitVec.ofNat 64 stackAlignment)]

def prepare : Program :=
  .mv .a1 method :: callRuntime cfg .prepareNativeCall "prepare_native_call" (spot .prepareDone)

/-- Has the function found unless it is known. -/
def resolve : Program :=
  .ld .t0 method (cfg.method.offset .signatureHandler) :: .beqz .t0 (spot .prepare) ::
    ([Op.ld .t0 method (cfg.method.offset .nativeFunction), .bnez .t0 (spot .prepared),
      .bind (spot .prepare)] ++ prepare cfg spot ++ [Op.bind (spot .prepared)])

def callHandler : Program :=
  [.comment "marshal arguments",
   .ld .t0 method (cfg.method.offset .signatureHandler),
   .callRegister .t0]

def keepHandler : Program :=
  [.sd .a0 .fp (slot .resultHandler),
   .ld method .fp (slot .method)]

def passMirror : Program :=
  loadFlags cfg .t0 method .static ++
    [Op.beqz .t0 (spot .notStatic),
     .ld .t0 .fp (slot .mirror),
     .sd .t0 .fp (slot .oopTemp),
     .addi .a1 .fp (slot .oopTemp),
     .bind (spot .notStatic)]

def approach : Program :=
  .addi .a0 thread (cfg.thread.offset .environment) ::
    (publishAnchor cfg ++ [Op.ld .t1 method (cfg.method.offset .nativeFunction),
      .comment "thread state in_native"])

def poll : Program :=
  [.ld .t0 thread (cfg.thread.offset .pollingWord),
   .andi .t0 .t0 1,
   .lwu .t1 thread (cfg.thread.offset .suspendFlags),
   .or .t0 .t0 .t1]

def checkSpecial : Program :=
  .beqz .t0 (spot .noSpecial) :: ((.mv .a0 thread ::
    callLeaf cfg .checkSpecialCondition "check_special_condition") ++ [Op.bind (spot .noSpecial)])

def dropHandles : Program :=
  [.ld .t0 thread (cfg.thread.offset .activeHandles),
   .sw .zero .t0 (cfg.thread.offset .handleTop)]

def comeBack : Program :=
  saveResult ++ (.comment "thread state in_native_trans" ::
    (publishState cfg .inNativeTrans false ++ (.fence .rw .rw :: (poll cfg ++
      (checkSpecial cfg spot ++ (.comment "thread state in_java" ::
        (publishState cfg .inJava true ++ (clearAnchor cfg ++ (dropHandles cfg ++ restoreResult)))))))))

def finish : Program :=
  [.ld .t0 .fp (slot .resultHandler),
   .callRegister .t0,
   .j (Routine.removeActivation.label .start)]

/-- What a native entry does once the lock is taken. -/
def crossing : Program :=
  outgoingArea cfg ++ (resolve cfg spot ++ (callHandler cfg ++ (keepHandler ++
    (passMirror cfg spot ++ (approach cfg ++ (publishState cfg .inNative true ++ (.callRegister .t1 ::
      (comeBack cfg spot ++ (checkPending cfg (spot .noPending) ++ finish)))))))))

end Pieces

theorem native_eq (cfg : Config) (e : Extensions) (synchronized : Bool) :
    let spot := (Routine.entry (if synchronized then .nativeSynchronized else .native)).label
    Entry.native cfg e synchronized = findLocals cfg e ++
      (.andi .sp stack (-BitVec.ofNat 64 stackAlignment) ::
        (fixedFrame cfg true synchronized (spot .noProfile) ++
          ((if cfg.counts then countInvocation cfg (spot .overflow) (spot .counted) else []) ++
            .bind (spot .proceed) ::
              (((if synchronized then lockMethod cfg (spot .lockObject) (spot .locked) else []) ++
                crossing cfg spot) ++
                  if cfg.useCompiler then
                    counterOverflow cfg (spot .overflow) (spot .proceed) (spot .overflowDone)
                  else [])))) := by
  simp only [Entry.native, crossing, outgoingArea, resolve, prepare, callHandler, keepHandler,
    passMirror, approach, comeBack, poll, checkSpecial, dropHandles, finish, List.flatten_cons,
    List.flatten_nil, List.append_assoc, List.cons_append, List.nil_append, List.append_nil]

section Execution
variable {c : Linked} {m : Machine} {rest : Program} (cfg : Config) {spot : Spot → Label}

def argumentsBelow (v : Dword) (slots : Dword) : Dword :=
  alignDown (v - (slots + 2) <<< 3)

theorem outgoing_area_runs (stands : c.Stands m (outgoingArea cfg ++ rest)) :
    ∃ k, c.Comes m k rest ∧ Keeps [.t1, .sp] m k ∧ k.memory = m.memory ∧
      k.reg .sp = argumentsBelow (m.reg stack) (field cfg m .parameterSlots) := by
  obtain ⟨comes, keeps, memory⟩ := stands.computes _ [.t1, .sp] rfl rfl rfl
  refine ⟨_, comes, keeps, memory, ?_⟩
  simp (disch := decide) only [outgoingArea, Op.lhu, Op.addi, Op.slli, Op.sub, Op.andi,
    performs_comment, performs_instruction, performs_nil, exec_load, exec_arithmetic,
    exec_immediate, exec_shift, reg_goto, reg_put_self, reg_put_ne, LoadOp.value, RegisterOp.value,
    ImmediateOp.value, ShiftOp.value]
  rfl

def resolved (m : Machine) : Prop :=
  field cfg m .signatureHandler ≠ 0 ∧ field cfg m .nativeFunction ≠ 0

instance : Decidable (resolved cfg m) := inferInstanceAs (Decidable (_ ∧ _))

theorem resolve_runs (stands : c.Stands m (resolve cfg spot ++ rest)) :
    ∃ k, c.Comes m k (if resolved cfg m then rest
        else prepare cfg spot ++ .bind (spot .prepared) :: rest) ∧
      Keeps [.t0] m k ∧ k.memory = m.memory := by
  have whole : resolve cfg spot ++ rest =
      .ld .t0 method (cfg.method.offset .signatureHandler) :: .beqz .t0 (spot .prepare) ::
        ([Op.ld .t0 method (cfg.method.offset .nativeFunction), .bnez .t0 (spot .prepared)] ++
          .bind (spot .prepare) :: (prepare cfg spot ++ .bind (spot .prepared) :: rest)) := by
    simp [resolve]
  rw [whole] at stands
  obtain ⟨first, stands⟩ := stands.load
  have handler : ((m.put .t0 (field cfg m .signatureHandler)).goto (m.pc + 4)).reg .t0 =
      field cfg m .signatureHandler := reg_put_self _ _ _ (by decide)
  have keeps : Keeps [.t0] m ((m.put .t0 (field cfg m .signatureHandler)).goto (m.pc + 4)) :=
    ((Keeps.refl _ m).put (by decide) _).goto _
  by_cases none : field cfg m .signatureHandler = 0
  · obtain ⟨pc, second, stands⟩ := stands.branch_over _ (by
      rw [reg_zero stands.cleared, Condition.holds_eq, decide_eq_true_eq]
      exact handler.trans none)
    rw [if_neg fun known => known.1 none]
    exact ⟨_, ⟨first.trans second, stands⟩, keeps.goto pc, rfl⟩
  · obtain ⟨second, stands⟩ := stands.branch_past (by
      rw [reg_zero stands.cleared, Condition.holds_eq, decide_eq_false_iff_not]
      exact fun same => none (handler.symm.trans same))
    obtain ⟨k, ⟨third, stands⟩, keeps', memory, function⟩ :
        ∃ k, c.Comes _ k (.bnez .t0 (spot .prepared) :: ([Op.bind (spot .prepare)] ++
          prepare cfg spot ++ .bind (spot .prepared) :: rest)) ∧ Keeps [.t0] m k ∧
          k.memory = m.memory ∧ k.reg .t0 = field cfg m .nativeFunction := by
      refine ⟨_, Stands.load stands, ((keeps.goto _).put (by decide) _).goto _, rfl, ?_⟩
      simp (disch := decide) only [reg_goto, reg_put_self, reg_put_ne, memory_goto, memory_put]
      rfl
    have leads := (first.trans second).trans third
    by_cases unbound : field cfg m .nativeFunction = 0
    · obtain ⟨last, stands⟩ := stands.branch_past (by
        rw [reg_zero stands.cleared, function, unbound]
        rfl)
      rw [if_neg fun known => known.2 unbound]
      exact ⟨_, ⟨leads.trans last, stands.bind.2⟩, keeps'.goto _, memory⟩
    · obtain ⟨pc, last, stands⟩ := stands.branch_over _ (by
        rw [reg_zero stands.cleared, function, Condition.holds_ne, decide_eq_true_eq]
        exact unbound)
      rw [if_pos ⟨none, unbound⟩]
      exact ⟨_, ⟨leads.trans last, stands⟩, keeps'.goto pc, memory⟩

theorem call_handler_runs (stands : c.Stands m (callHandler cfg ++ rest))
    (even : field cfg m .signatureHandler &&& 1 = 0) :
    ∃ k, c.Leads m k ∧ k.pc = field cfg m .signatureHandler ∧ Keeps [.ra, .t0] m k ∧
      k.memory = m.memory ∧ c.Has (k.reg .ra) rest := by
  obtain ⟨k, ⟨first, stands⟩, keeps, memory, handler⟩ :
      ∃ k, c.Comes m k (.callRegister .t0 :: rest) ∧ Keeps [.ra, .t0] m k ∧
        k.memory = m.memory ∧ k.reg .t0 = field cfg m .signatureHandler :=
    ⟨_, Stands.load (Stands.comment stands), ((Keeps.refl _ m).put (by decide) _).goto _, rfl,
      reg_put_self _ _ _ (by decide)⟩
  obtain ⟨second, back⟩ := stands.call_register (by rw [handler]; exact even)
  refine ⟨_, first.trans second, handler, (keeps.put (by decide) _).goto _, memory, ?_⟩
  rw [reg_goto, reg_put_self _ _ _ (by decide)]
  exact back

theorem keep_handler_runs (stands : c.Stands m (keepHandler ++ rest))
    (outside : ∀ x, Memory.Covers (m.reg .fp + slot .resultHandler) 8 x → ¬c.Covers x) :
    ∃ k, c.Comes m k rest ∧ Keeps [method] m k ∧
      k.memory = m.memory.store (m.reg .fp + slot .resultHandler) 8 (m.reg .a0) ∧
      k.reg method = m.memory.load (m.reg .fp + slot .method) 8 := by
  obtain ⟨k, ⟨first, stands⟩, keeps, memory⟩ :
      ∃ k, c.Comes m k (.ld method .fp (slot .method) :: rest) ∧ Keeps [method] m k ∧
        k.memory = m.memory.store (m.reg .fp + slot .resultHandler) 8 (m.reg .a0) :=
    ⟨_, Stands.store stands outside, ((Keeps.refl _ m).poke _ _ _).goto _, rfl⟩
  obtain ⟨second, stands⟩ := stands.load
  have apart : Memory.Apart (slot .resultHandler) 8 (slot .method) 8 := by decide
  refine ⟨_, ⟨first.trans second, stands⟩, (keeps.put (by decide) _).goto _, memory, ?_⟩
  rw [reg_goto, reg_put_self _ _ _ (by decide), LoadOp.value, memory,
    keeps.registers .fp (by decide)]
  exact Memory.load_store_apart _ _ _ (by decide) _ _ (apart.add _)

def isStatic (m : Machine) : Prop :=
  field cfg m .accessFlags &&& AccessFlags.static.bits.setWidth 64 ≠ 0

instance : Decidable (isStatic cfg m) := inferInstanceAs (Decidable (_ ≠ _))

theorem load_flags_runs {rd r : Register} {mask : AccessFlags} (writable : rd.code ≠ 0)
    (stands : c.Stands m (loadFlags cfg rd r mask ++ rest)) :
    ∃ k, c.Comes m k rest ∧ Keeps [rd] m k ∧ k.memory = m.memory ∧
      k.reg rd = m.memory.load (m.reg r + cfg.method.offset .accessFlags) 4 &&&
        mask.bits.setWidth 64 := by
  obtain ⟨first, stands⟩ := Stands.load stands
  obtain ⟨second, stands⟩ := stands.immediate (by simp)
  refine ⟨_, ⟨first.trans second, stands⟩,
    ((((Keeps.refl _ m).put (by simp) _).goto _).put (by simp) _).goto _, rfl, ?_⟩
  simp (disch := assumption) only [reg_goto, reg_put_self, ImmediateOp.value, LoadOp.value]

theorem pass_mirror_runs (stands : c.Stands m (passMirror cfg spot ++ rest))
    (outside : ∀ x, Memory.Covers (m.reg .fp + slot .oopTemp) 8 x → ¬c.Covers x) :
    ∃ k, c.Comes m k rest ∧ Keeps [.t0, .a1] m k ∧
      (isStatic cfg m → k.reg .a1 = m.reg .fp + slot .oopTemp ∧ k.memory = m.memory.store
        (m.reg .fp + slot .oopTemp) 8 (m.memory.load (m.reg .fp + slot .mirror) 8)) ∧
      (¬isStatic cfg m → Keeps [.t0] m k ∧ k.memory = m.memory) := by
  rw [passMirror, List.append_assoc] at stands
  obtain ⟨k, ⟨first, stands⟩, keeps, memory, bit⟩ := load_flags_runs cfg (by decide) stands
  have bit : k.reg .t0 = field cfg m .accessFlags &&& AccessFlags.static.bits.setWidth 64 := bit
  by_cases static : isStatic cfg m
  · obtain ⟨second, stands⟩ := Stands.branch_past stands (by
      rw [reg_zero stands.cleared, bit]
      exact decide_eq_false static)
    obtain ⟨third, stands⟩ := stands.load
    obtain ⟨fourth, stands⟩ := stands.store (by
      simp (disch := decide) only [reg_goto, reg_put_ne, keeps.registers .fp (by decide)]
      exact outside)
    obtain ⟨fifth, stands⟩ := stands.immediate (by simp)
    refine ⟨_, ⟨(((first.trans second).trans third).trans fourth).trans fifth, stands.bind.2⟩,
      (((((((keeps.mono (by decide)).goto _).put (by decide) _).goto _).poke _ _ _).goto _).put
        (by decide) _).goto _, fun _ => ⟨?_, ?_⟩, fun other => (other static).elim⟩
    · simp (disch := decide) only [reg_goto, reg_put_self, reg_poke, reg_put_ne, ImmediateOp.value,
        keeps.registers .fp (by decide)]
    · simp (disch := decide) only [memory_goto, memory_put, memory_poke, reg_goto, reg_put_self,
        reg_put_ne, LoadOp.value, keeps.registers .fp (by decide), memory]
      rfl
  · obtain ⟨pc, second, stands⟩ := Stands.branch_over [_, _, _] stands (by
      rw [reg_zero stands.cleared, bit]
      exact decide_eq_true (not_not.mp static))
    exact ⟨_, ⟨first.trans second, stands⟩, (keeps.mono (by decide)).goto pc,
      fun other => (static other).elim, fun _ => ⟨keeps.goto pc, memory⟩⟩

/-- The function is at hand, the environment is passed and the frame is published. -/
theorem approach_runs (stands : c.Stands m (approach cfg ++ rest))
    (parted : cfg.thread.Parted ThreadField.inRecord)
    (clear : ∀ x, anchor cfg (m.reg thread) x → ¬c.Covers x)
    (apart : ∀ x, Memory.Covers (m.reg method + cfg.method.offset .nativeFunction) 8 x →
      ¬anchor cfg (m.reg thread) x) :
    ∃ k pc, c.Comes m k rest ∧ Keeps [.a0, .t0, .t1] m k ∧ c.InCode pc ∧
      k.reg .a0 = m.reg thread + cfg.thread.offset .environment ∧
      k.reg .t1 = field cfg m .nativeFunction ∧
      k.memory.Holds (m.reg thread) (anchorWords cfg (m.reg .sp) (m.reg .fp) pc) ∧
      Memory.Agree (fun x => ¬anchor cfg (m.reg thread) x) m.memory k.memory := by
  simp only [approach, List.append_assoc, List.cons_append, List.nil_append] at stands
  obtain ⟨first, stands⟩ := stands.immediate (by simp)
  obtain ⟨k, pc, ⟨second, stands⟩, keeps, inside, held, agree⟩ :=
    publish_anchor_runs cfg parted stands (by
      simp (disch := decide) only [reg_goto, reg_put_ne]
      exact clear)
  simp (disch := decide) only [reg_goto, reg_put_ne, memory_goto, memory_put] at held agree
  obtain ⟨third, stands⟩ := stands.load
  have kept : Keeps [.a0, .t0, .t1] m k :=
    (((Keeps.refl _ m).put (by decide) _).goto _).trans (keeps.mono (by decide))
  refine ⟨_, pc, ⟨(first.trans second).trans third, stands.comment⟩,
    (kept.put (by decide) _).goto _, inside, ?_, ?_, held, agree⟩
  · rw [reg_goto, reg_put_ne _ _ _ _ (by decide), keeps.registers .a0 (by decide), reg_goto,
      reg_put_self _ _ _ (by decide)]
    rfl
  · rw [reg_goto, reg_put_self _ _ _ (by decide), kept.registers method (by decide), LoadOp.value]
    exact agree.load (by decide) apart

def polled (cfg : Config) (thread : Dword) (mem : Memory) : Prop :=
  mem.load (thread + cfg.thread.offset .pollingWord) 8 &&& 1 |||
    mem.load (thread + cfg.thread.offset .suspendFlags) 4 ≠ 0

instance (thread : Dword) (mem : Memory) : Decidable (polled cfg thread mem) :=
  inferInstanceAs (Decidable (_ ≠ _))

def requests (cfg : Config) (thread : Dword) : List DataAccess :=
  [⟨false, thread + cfg.thread.offset .pollingWord, 8⟩,
   ⟨false, thread + cfg.thread.offset .suspendFlags, 4⟩]

theorem poll_runs (stands : c.Stands m (poll cfg ++ rest)) :
    ∃ k, c.Comes m k rest ∧ Keeps [.t0, .t1] m k ∧ k.memory = m.memory ∧
      (k.reg .t0 ≠ 0 ↔ polled cfg (m.reg thread) m.memory) ∧
      ∃ n, m.after n = .ok k ∧ m.accesses n = requests cfg (m.reg thread) := by
  obtain ⟨comes, keeps, memory⟩ := stands.computes _ [.t0, .t1] rfl rfl rfl
  obtain ⟨n, reached, accesses⟩ := stands.accesses _ rfl rfl
  refine ⟨_, comes, keeps, memory, ?_, n, reached, accesses.trans ?_⟩
  · have reason : (m.performs (poll cfg)).reg .t0 =
        m.memory.load (m.reg thread + cfg.thread.offset .pollingWord) 8 &&& 1 |||
          m.memory.load (m.reg thread + cfg.thread.offset .suspendFlags) 4 := by
      simp (disch := decide) only [poll, Op.ld, Op.andi, Op.lwu, Op.or, performs_instruction,
        performs_nil, exec_load, exec_immediate, exec_arithmetic, reg_goto, reg_put_self,
        reg_put_ne, memory_goto, memory_put, LoadOp.value, ImmediateOp.value, RegisterOp.value]
    rw [reason]
    rfl
  · simp (disch := decide) only [poll, Op.ld, Op.andi, Op.lwu, Op.or, accessed,
      Instruction.access?, exec_load, exec_immediate, reg_goto, reg_put_ne]
    rfl

theorem check_special_runs (stands : c.Stands m (checkSpecial cfg spot ++ rest)) :
    ∃ k, c.Comes m k (if m.reg .t0 ≠ 0 then
        .mv .a0 thread :: (callLeaf cfg .checkSpecialCondition "check_special_condition" ++
          .bind (spot .noSpecial) :: rest) else rest) ∧
      Keeps [] m k ∧ k.memory = m.memory := by
  have whole : checkSpecial cfg spot ++ rest = .beqz .t0 (spot .noSpecial) ::
      ((.mv .a0 thread :: callLeaf cfg .checkSpecialCondition "check_special_condition") ++
        .bind (spot .noSpecial) :: rest) := by
    simp [checkSpecial]
  rw [whole] at stands
  by_cases stop : m.reg .t0 ≠ 0
  · obtain ⟨leads, stands⟩ := stands.branch_past (by
      rw [reg_zero stands.cleared, Condition.holds_eq, decide_eq_false_iff_not]
      exact stop)
    rw [if_pos stop]
    exact ⟨_, ⟨leads, stands⟩, (Keeps.refl _ _).goto _, rfl⟩
  · obtain ⟨pc, leads, stands⟩ := stands.branch_over _ (by
      rw [reg_zero stands.cleared, Condition.holds_eq, decide_eq_true_eq]
      exact not_not.mp stop)
    rw [if_neg stop]
    exact ⟨_, ⟨leads, stands⟩, (Keeps.refl _ _).goto pc, rfl⟩

theorem drop_handles_runs (stands : c.Stands m (dropHandles cfg ++ rest))
    (outside : ∀ x, Memory.Covers (m.memory.load (m.reg thread + cfg.thread.offset .activeHandles) 8 +
      cfg.thread.offset .handleTop) 4 x → ¬c.Covers x) :
    ∃ k, c.Comes m k rest ∧ Keeps [.t0] m k ∧ k.memory = m.memory.store
      (m.memory.load (m.reg thread + cfg.thread.offset .activeHandles) 8 +
        cfg.thread.offset .handleTop) 4 0 := by
  obtain ⟨first, stands⟩ := Stands.load stands
  have loaded : ∀ v pc, ((m.put .t0 v).goto pc).reg .t0 = v :=
    fun v pc => reg_put_self _ _ _ (by decide)
  have zero := reg_zero stands.cleared
  obtain ⟨second, stands⟩ := stands.store (by
    rw [loaded]
    exact outside)
  refine ⟨_, ⟨first.trans second, stands⟩,
    ((((Keeps.refl _ m).put (by decide) _).goto _).poke _ _ _).goto _, ?_⟩
  rw [memory_goto, memory_poke, loaded, zero]
  rfl

/-- What is kept of a result while the thread comes back. -/
def resultWords (v w : Dword) : List (Dword × Dword) :=
  [(words 1, w), (0, v)]

theorem save_result_runs (stands : c.Stands m (saveResult ++ rest))
    (clear : ∀ x, Memory.Covers (m.reg .sp - BitVec.ofNat 64 stackAlignment) stackAlignment x →
      ¬c.Covers x) :
    ∃ k, c.Comes m k rest ∧ Keeps [.sp] m k ∧
      k.reg .sp = m.reg .sp - BitVec.ofNat 64 stackAlignment ∧
      k.memory.Holds (m.reg .sp - BitVec.ofNat 64 stackAlignment)
        (resultWords (m.reg .a0) (m.freg .fa0)) ∧
      Memory.Agree (fun x => ¬Memory.Covers (m.reg .sp - BitVec.ofNat 64 stackAlignment)
        stackAlignment x) m.memory k.memory := by
  have low : m.reg .sp + -BitVec.ofNat 64 stackAlignment =
      m.reg .sp - BitVec.ofNat 64 stackAlignment := (BitVec.sub_eq_add_neg _ _).symm
  have part : ∀ n, n + 8 ≤ stackAlignment → ∀ x,
      Memory.Covers (m.reg .sp - BitVec.ofNat 64 stackAlignment + BitVec.ofNat 64 n) 8 x →
        Memory.Covers (m.reg .sp - BitVec.ofNat 64 stackAlignment) stackAlignment x :=
    fun n short x covered => covered.within short (by decide)
  have touches : m.Touches
      (Memory.Covers (m.reg .sp - BitVec.ofNat 64 stackAlignment) stackAlignment) saveResult := by
    simp (disch := first | rfl | decide) only [saveResult, Op.addi, Op.sd, Op.fsd, touches_silent,
      touches_store, touches_store_double, touches_nil, exec_store, exec_immediate, reg_goto,
      reg_poke, reg_put_self, ImmediateOp.value, low]
    exact ⟨part 0 (by decide), part 8 (by decide), trivial⟩
  refine ⟨_, stands.performs _ rfl touches clear, keeps_performs _ _ rfl, ?_, ?_,
    fun x outside => byte_performs _ touches x outside⟩
  all_goals
    simp (disch := decide) only [saveResult, Op.addi, Op.sd, Op.fsd, performs_instruction,
      performs_nil, exec_store, exec_store_double, exec_immediate, reg_goto, reg_poke,
      reg_put_self, reg_put_ne, freg_goto, freg_poke, freg_put, memory_goto, memory_poke,
      ImmediateOp.value, low]
  refine Memory.Holds.store (Memory.Holds.store (.nil _) (Memory.free_nil _)) ?_
  simp only [Memory.free_cons]
  exact ⟨by decide, Memory.free_nil _⟩

theorem restore_result_runs (stands : c.Stands m (restoreResult ++ rest)) :
    ∃ k, c.Comes m k rest ∧ k.memory = m.memory ∧
      (∀ r : Register, (∀ s ∈ [Register.a0, .sp], r.code ≠ s.code) → k.reg r = m.reg r) ∧
      k.reg .sp = m.reg .sp + BitVec.ofNat 64 stackAlignment ∧
      k.reg .a0 = m.memory.load (m.reg .sp + 0) 8 ∧
      k.freg .fa0 = m.memory.load (m.reg .sp + words 1) 8 := by
  have comes := stands.performs _ rfl (touches_of_silent _ rfl) (fun _ => False.elim)
  refine ⟨_, comes, memory_performs _ rfl, ?_, ?_, ?_, ?_⟩
  · intro r apart
    simp only [List.forall_mem_cons] at apart
    obtain ⟨one, two, -⟩ := apart
    simp (disch := first | assumption | decide) only [restoreResult, Op.addi, Op.ld, Op.fld,
      performs_instruction, performs_nil, exec_load, exec_load_float, exec_immediate, reg_goto,
      reg_put_float, reg_put_ne]
  all_goals
    simp (disch := decide) only [restoreResult, Op.addi, Op.ld, Op.fld, performs_instruction,
      performs_nil, exec_load, exec_load_float, exec_immediate, reg_goto, reg_put_float,
      reg_put_ne, reg_put_self, freg_goto, freg_put, freg_put_float, memory_goto, memory_put,
      LoadOp.value, FloatWidth.value, ImmediateOp.value, if_true]

end Execution

end EntryCode.Fragment
