import EntryCode.Proofs.Interpreter.Counter

/-!
What an entry does once its frame stands: it asks for method data, takes the lock and goes to the
first bytecode. Each piece is executed up to the call it makes, if it makes one.
-/

namespace EntryCode.Fragment

open EntryCode.Frame Pinned Linked Machine

variable {c : Linked} {m : Machine} {rest : Program} (cfg : Config)

section Profiling
variable {profiled done null : Label}

def asksForData (m : Machine) : Bool :=
  field cfg m .methodData = 0 &&
    !(field cfg m .invocationCounter).ult (cfg.profileLimit.setWidth 64)

def askForData (done null : Label) : Program :=
  callRuntime cfg .profileMethod "profile_method" done ++ setProfileCell cfg null

theorem profile_method_runs (stands : c.Stands m (profileMethod cfg profiled done null ++ rest)) :
    ∃ k, c.Comes m k (if asksForData cfg m then askForData cfg done null ++ (.bind profiled :: rest)
        else rest) ∧ Keeps [.t0, .t1] m k ∧ k.memory = m.memory := by
  have whole : profileMethod cfg profiled done null ++ rest = .comment "profile method" ::
      .ld .t0 method (cfg.method.offset .methodData) :: .bnez .t0 profiled ::
      ([Op.lwu .t0 method (cfg.method.offset .invocationCounter),
        .constant .t1 (cfg.profileLimit.setWidth 64), .bltu .t0 .t1 profiled] ++
        askForData cfg done null ++ (.bind profiled :: rest)) := by
    simp [profileMethod, askForData]
  rw [whole] at stands
  obtain ⟨first, stands⟩ := stands.comment.load
  have data : ((m.put .t0 (field cfg m .methodData)).goto (m.pc + 4)).reg .t0 =
      field cfg m .methodData := reg_put_self _ _ _ (by decide)
  have keeps : Keeps [.t0, .t1] m ((m.put .t0 (field cfg m .methodData)).goto (m.pc + 4)) :=
    ((Keeps.refl _ m).put (by decide) _).goto _
  by_cases none : field cfg m .methodData = 0
  · obtain ⟨second, stands⟩ := stands.branch_past (by
      rw [reg_zero stands.cleared]
      exact decide_eq_false (not_not.mpr (data.trans none)))
    obtain ⟨k, ⟨third, stands⟩, keeps', memory, count, bound⟩ := load_counter_runs cfg stands
    have keeps := (keeps.goto (m.pc + 4 + 4)).trans keeps'
    have count : k.reg .t0 = field cfg m .invocationCounter :=
      count.trans (field_congr cfg _ (reg_put_ne _ _ _ _ (by decide)) rfl)
    have leads := (first.trans second).trans third
    rw [asksForData, decide_eq_true none, Bool.true_and]
    cases early : (field cfg m .invocationCounter).ult (cfg.profileLimit.setWidth 64) with
    | true =>
        obtain ⟨pc, last, stands⟩ := stands.branch_over _ (by
          rw [Condition.holds_ltu, count, bound, early])
        exact ⟨_, ⟨leads.trans last, stands⟩, keeps.goto pc, memory⟩
    | false =>
        obtain ⟨last, stands⟩ := stands.branch_past (by
          rw [Condition.holds_ltu, count, bound, early])
        exact ⟨_, ⟨leads.trans last, stands⟩, keeps.goto _, memory⟩
  · obtain ⟨pc, second, stands⟩ := stands.branch_over _ (by
      rw [reg_zero stands.cleared]
      exact decide_eq_true fun same => none (data.symm.trans same))
    rw [asksForData, decide_eq_false none]
    exact ⟨_, ⟨first.trans second, stands⟩, keeps.goto pc, rfl⟩

end Profiling

section Locking
variable {lockObject locked : Label}

def lockedObject (m : Machine) : Dword :=
  if field cfg m .accessFlags &&& AccessFlags.static.bits.setWidth 64 = 0 then
    m.memory.load (m.reg locals) 8
  else m.memory.load (m.reg .fp + slot .mirror) 8

theorem choose_object_runs (stands : c.Stands m (.lwu .t1 method (cfg.method.offset .accessFlags) ::
      .andi .t1 .t1 (AccessFlags.static.bits.setWidth 64) :: .ld .t0 locals 0 ::
      .beqz .t1 lockObject :: .ld .t0 .fp (slot .mirror) :: .bind lockObject :: rest)) :
    ∃ k, c.Comes m k rest ∧ Keeps [.t0, .t1] m k ∧ k.memory = m.memory ∧
      k.reg .t0 = lockedObject cfg m := by
  obtain ⟨⟨leads, stands⟩, keeps, memory⟩ := Stands.computes
    [.lwu .t1 method (cfg.method.offset .accessFlags),
      .andi .t1 .t1 (AccessFlags.static.bits.setWidth 64), .ld .t0 locals 0] [.t0, .t1] stands
    rfl rfl rfl
  have bit : (m.performs [.lwu .t1 method (cfg.method.offset .accessFlags),
      .andi .t1 .t1 (AccessFlags.static.bits.setWidth 64), .ld .t0 locals 0]).reg .t1 =
        field cfg m .accessFlags &&& AccessFlags.static.bits.setWidth 64 := by
    simp (disch := decide) only [Op.lwu, Op.andi, Op.ld, performs_instruction, performs_nil,
      exec_load, exec_immediate, reg_goto, reg_put_self, reg_put_ne, ImmediateOp.value]
    rfl
  have receiver : (m.performs [.lwu .t1 method (cfg.method.offset .accessFlags),
      .andi .t1 .t1 (AccessFlags.static.bits.setWidth 64), .ld .t0 locals 0]).reg .t0 =
        m.memory.load (m.reg locals) 8 := by
    simp (disch := decide) only [Op.lwu, Op.andi, Op.ld, performs_instruction, performs_nil,
      exec_load, exec_immediate, reg_goto, reg_put_self, reg_put_ne, memory_goto, memory_put,
      LoadOp.value]
    rw [show m.reg locals + 0 = m.reg locals from BitVec.add_zero _]
  generalize m.performs _ = k at leads stands keeps memory bit receiver
  rw [lockedObject, ← bit]
  split
  · next clear =>
      obtain ⟨pc, last, stands⟩ := Stands.branch_over [_] stands (by
        rw [reg_zero stands.cleared, clear]
        rfl)
      exact ⟨_, ⟨leads.trans last, stands⟩, keeps.goto pc, memory, receiver⟩
  · next static =>
      obtain ⟨past, stands⟩ := Stands.branch_past stands (by
        rw [reg_zero stands.cleared]
        exact decide_eq_false static)
      obtain ⟨last, stands⟩ := stands.load
      refine ⟨_, ⟨(leads.trans past).trans last, stands.bind.2⟩,
        ((keeps.goto _).put (by decide) _).goto _, memory, ?_⟩
      rw [reg_goto, reg_put_self _ _ _ (by decide), LoadOp.value, reg_goto, memory_goto, memory,
        keeps.registers .fp (by decide)]

/-- The object is put into the monitor before the lock is taken. -/
theorem lock_method_runs (stands : c.Stands m (lockMethod cfg lockObject locked ++ rest))
    (outside : ∀ x, Memory.Covers (m.reg .fp + (firstMonitor + monitorObject)) 8 x →
      ¬c.Covers x) :
    ∃ k, c.Comes m k (callRuntime cfg .monitorEnter "monitorenter" locked ++ rest) ∧
      Keeps [.t0, .t1, .a1] m k ∧ k.reg .a1 = m.reg .fp + firstMonitor ∧
      k.memory = m.memory.store (m.reg .fp + (firstMonitor + monitorObject)) 8
        (lockedObject cfg m) := by
  simp only [lockMethod, loadFlags, List.flatten_cons, List.flatten_nil, List.append_nil,
    List.cons_append, List.nil_append] at stands
  obtain ⟨k, ⟨first, stands⟩, keeps, memory, object⟩ := choose_object_runs cfg stands.comment
  have fp := keeps.registers .fp (by decide)
  obtain ⟨second, stands⟩ := stands.immediate (by simp)
  have place : ∀ v pc, ((k.put .a1 (k.reg .fp + v)).goto pc).reg .a1 = m.reg .fp + v := by
    intro v pc
    rw [reg_goto, reg_put_self _ _ _ (by decide), fp]
  obtain ⟨third, stands⟩ := stands.store (by
    rw [ImmediateOp.value, place, BitVec.add_assoc]
    exact outside)
  refine ⟨_, ⟨(first.trans second).trans third, stands⟩,
    ((((keeps.mono (by decide)).put (by decide) _).goto _).poke _ _ _).goto _, ?_, ?_⟩
  · rw [reg_goto, reg_poke, ImmediateOp.value, place]
  · rw [memory_goto, memory_poke, ImmediateOp.value, place, BitVec.add_assoc, reg_goto,
      reg_put_ne _ _ _ _ (by decide), object, memory_goto, memory_put, memory]
    rfl

end Locking

section Dispatch
variable (e : Extensions)

def template (m : Machine) : Dword :=
  m.memory.load (cfg.dispatch.entry (m.memory.byte (m.reg bytecode))) 8

theorem entry_scaled (addr : Dword) :
    cfg.dispatch.base + m.memory.load addr 1 <<< 3 = cfg.dispatch.entry (m.memory.byte addr) := by
  have bound := (m.memory.byte addr).isLt
  have value : (m.memory.load addr 1).toNat = (m.memory.byte addr).toNat := by
    rw [Memory.load, Memory.read, Memory.read, Bytes.toNat, Bytes.toNat, BitVec.toNat_ofNat]
    omega
  rw [DispatchTable.entry]
  congr 1
  apply BitVec.eq_of_toNat_eq
  rw [BitVec.toNat_shiftLeft, value, BitVec.toNat_ofNat, Nat.shiftLeft_eq, Nat.mul_comm]
  rfl

theorem dispatch_first_runs (stands : c.Stands m (dispatchFirst cfg e ++ rest)) :
    ∃ k, c.Leads m k ∧ k.pc = template cfg m &&& ~~~1 ∧ Keeps [.t0, .t1, dispatch] m k ∧
      k.memory = m.memory ∧ k.reg dispatch = cfg.dispatch.base := by
  simp only [dispatchFirst, List.flatten_cons, List.flatten_nil, List.append_nil,
    List.append_assoc, List.cons_append, List.nil_append] at stands
  obtain ⟨first, stands⟩ := stands.comment.load
  obtain ⟨pc, second, stands⟩ := stands.constant (by decide)
  obtain ⟨k, ⟨third, stands⟩, keeps, memory, place⟩ :=
    scaled_add_runs e stands (by decide) (by decide) (by decide)
  simp (disch := decide) only [reg_goto, reg_put_self, reg_put_ne, LoadOp.value] at place
  rw [show m.reg bytecode + 0 = m.reg bytecode from BitVec.add_zero _, entry_scaled] at place
  have same : k.memory = m.memory := memory
  have kept : Keeps [.t0, .t1, dispatch] m k := by
    refine Keeps.trans ?_ (keeps.mono (by decide))
    exact ((((Keeps.refl _ m).put (by decide) _).goto _).put (by decide) _).goto _
  have table : k.reg dispatch = cfg.dispatch.base := by
    rw [keeps.registers dispatch (by decide), reg_goto, reg_put_self _ _ _ (by decide)]
  obtain ⟨fourth, stands⟩ := stands.load
  have found : ((k.put .t0 (LoadOp.ld.value k.memory (k.reg .t0 + 0))).goto (k.pc + 4)).reg .t0 =
      template cfg m := by
    rw [reg_goto, reg_put_self _ _ _ (by decide), LoadOp.value, place, same,
      show ∀ v : Dword, v + 0 = v from BitVec.add_zero]
    rfl
  have last := stands.jr
  rw [found] at last
  refine ⟨_, ((first.trans second).trans third).trans (fourth.trans last), rfl,
    ((kept.put (by decide) _).goto _).goto _, same, ?_⟩
  rw [reg_goto, reg_goto, reg_put_ne _ _ _ _ (by decide), table]

end Dispatch

end EntryCode.Fragment
