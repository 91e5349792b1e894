import EntryCode.Interpreter.Fragment
import EntryCode.Proofs.Machine.Pseudo
import EntryCode.Proofs.Machine.Straight

/-!
The shared pieces of code, executed: what each leaves in registers and memory, and what it leaves
alone.
-/

namespace EntryCode.Fragment

open EntryCode.Frame Pinned Linked Machine

section Narrow
variable {c : Linked} {m : Machine} {rest : Program} {rd index base tmp : Register}

theorem scaled_add_runs (e : Extensions)
    (stands : c.Stands m (scaledAdd e rd index base tmp ++ rest)) (target : rd.code ≠ 0)
    (scratch : tmp.code ≠ 0) (apart : base.code ≠ tmp.code) :
    c.Gets m rest rd tmp (m.reg base + m.reg index <<< 3) := by
  rw [scaledAdd] at stands
  split at stands
  · refine Comes.gets (m.reg tmp) (m.pc + 4) target ?_
    rw [put_reg]
    exact stands.arithmetic
  · obtain ⟨leads, there⟩ := stands.shift
    refine Comes.gets (m.reg index <<< 3) (m.pc + 4 + 4) target ?_
    have last := there.arithmetic
    simp only [RegisterOp.value, ShiftOp.value, reg_goto, reg_put_self _ _ _ scratch,
      reg_put_ne _ _ _ _ apart] at last
    exact ⟨leads.trans last.1, last.2⟩

end Narrow

section Frames
variable {c : Linked} {m : Machine} {rest : Program} (cfg : Config) (e : Extensions)

theorem find_locals_runs (stands : c.Stands m (findLocals cfg e ++ rest)) :
    ∃ k, c.Comes m k rest ∧ Keeps [.t1, .t2, locals] m k ∧ k.memory = m.memory ∧
      k.reg .t2 = m.memory.load (m.reg method + cfg.method.offset .parameterSlots) 2 ∧
      k.reg locals = m.reg stack +
        m.memory.load (m.reg method + cfg.method.offset .parameterSlots) 2 <<< 3 + -words 1 := by
  simp only [findLocals, List.flatten_cons, List.flatten_nil, List.append_nil, List.append_assoc,
    List.cons_append, List.nil_append] at stands
  obtain ⟨leads, there⟩ := stands.load
  obtain ⟨k, ⟨leads', there'⟩, keeps, memory, address⟩ :=
    scaled_add_runs e there (by decide) (by decide) (by decide)
  obtain ⟨leads'', there''⟩ := there'.immediate (by simp)
  have first : Keeps [.t1, .t2, locals] m k :=
    (((Keeps.refl _ m).put (r := .t2) (by simp) _).goto _).trans (keeps.mono (by simp))
  have count := keeps.registers .t2 (by decide)
  rw [reg_goto, reg_put_self _ _ _ (by decide)] at count
  refine ⟨_, ⟨(leads.trans leads').trans leads'', there''⟩,
    (first.put (r := locals) (by simp) _).goto _, memory, ?_, ?_⟩
  · rw [reg_goto, reg_put_ne _ _ _ _ (by decide), count]
    rfl
  · rw [reg_goto, reg_put_self _ _ _ (by decide), address, reg_goto, reg_goto,
      reg_put_ne _ _ _ _ (by decide), reg_put_self _ _ _ (by decide)]
    rfl

def reach (m : Machine) (words extra : Dword) : Dword :=
  m.reg stack - (words + extra +
    BitVec.ofNat 64 (fixedWords + monitorWords + stackAlignment / wordSize)) <<< 3

/-- The check goes on where the frame stays above the stack limit, and throws elsewhere. -/
theorem check_stack_runs {extra : Register} {l : Label} {away : Program}
    (stands : c.Stands m (checkStack cfg extra l ++ rest)) (kept : extra.code ≠ Register.t1.code)
    (there : c.Has (c.target (Routine.throwStackOverflow.label .start)) away) :
    ∃ k, c.Comes m k (if (reach m (m.memory.load (m.reg method + cfg.method.offset .maxStack) 2)
        (m.reg extra)).ult (m.memory.load (m.reg thread + cfg.thread.offset .stackLimit) 8)
          then away else rest) ∧ Keeps [.t1, .t2] m k ∧ k.memory = m.memory := by
  obtain ⟨⟨leads, stands⟩, keeps, memory⟩ :=
    (stands.cut 7).computes _ [.t1, .t2] rfl rfl rfl
  have low : (m.performs ((checkStack cfg extra l).take 7)).reg .t1 =
      reach m (m.memory.load (m.reg method + cfg.method.offset .maxStack) 2) (m.reg extra) := by
    simp (disch := first | assumption | decide) only [checkStack, List.take_succ_cons, List.take_zero,
      Op.lhu, Op.add, Op.addi, Op.slli, Op.sub, Op.ld, performs_comment, performs_instruction,
      performs_nil, exec_load, exec_arithmetic, exec_immediate, exec_shift, reg_goto, reg_put_self,
      reg_put_ne, LoadOp.value, RegisterOp.value, ImmediateOp.value, ShiftOp.value]
    rfl
  have limit : (m.performs ((checkStack cfg extra l).take 7)).reg .t2 =
      m.memory.load (m.reg thread + cfg.thread.offset .stackLimit) 8 := by
    simp (disch := decide) only [checkStack, List.take_succ_cons, List.take_zero,
      Op.lhu, Op.add, Op.addi, Op.slli, Op.sub, Op.ld, performs_comment, performs_instruction,
      performs_nil, exec_load, exec_arithmetic, exec_immediate, exec_shift, reg_goto, reg_put_self,
      reg_put_ne, memory_goto, memory_put, LoadOp.value]
  rw [← low, ← limit]
  clear low limit
  generalize m.performs ((checkStack cfg extra l).take 7) = q at leads stands keeps memory ⊢
  split
  · next short =>
      obtain ⟨past, stands⟩ := Stands.branch_past stands (by
        rw [Condition.holds_geu, short]
        rfl)
      obtain ⟨last, stands⟩ := stands.jump there
      exact ⟨_, ⟨(leads.trans past).trans last, stands⟩, (keeps.goto _).goto _, memory⟩
  · next enough =>
      obtain ⟨pc, last, stands⟩ := Stands.branch_over [_] stands (by
        rw [Condition.holds_geu, Bool.eq_false_iff.mpr enough]
        rfl)
      exact ⟨_, ⟨leads.trans last, stands⟩, keeps.goto pc, memory⟩

end Frames

section Zeroing
variable {c : Linked} {m : Machine} {rest : Program} {zeroed loop : Label}

/-- Zeroes one word below the stack, as often as `t0` says. -/
def zeroWords (zeroed loop : Label) : Program :=
  [.addi stack stack (-words 1), .sd .zero stack 0, .addi .t0 .t0 (-1), .bnez .t0 loop,
    .bind zeroed]

theorem zero_word_runs (stands : c.Stands m (zeroWords zeroed loop ++ rest))
    (outside : ∀ x, Memory.Covers (m.reg stack - 8) 8 x → ¬c.Covers x) :
    ∃ k, c.Comes m k (.bnez .t0 loop :: .bind zeroed :: rest) ∧ Keeps [.t0, stack] m k ∧
      k.memory = m.memory.store (m.reg stack - 8) 8 0 ∧ k.reg stack = m.reg stack - 8 ∧
      k.reg .t0 = m.reg .t0 - 1 := by
  have below : m.reg stack + -words 1 = m.reg stack - 8 := by
    rw [BitVec.sub_eq_add_neg]
    rfl
  have here : m.reg stack - 8 + 0 = m.reg stack - 8 := BitVec.add_zero _
  have touches : m.Touches (Memory.Covers (m.reg stack - 8) 8) ((zeroWords zeroed loop).take 3) := by
    simp (disch := first | rfl | decide) only [zeroWords, List.take_succ_cons, List.take_zero, Op.addi,
      Op.sd, touches_silent, touches_store, touches_nil, exec_immediate, exec_store, reg_goto,
      reg_put_self, ImmediateOp.value, below, here]
    exact ⟨fun x covered => covered, trivial⟩
  refine ⟨_, (stands.cut 3).performs _ rfl touches outside, keeps_performs _ _ rfl, ?_, ?_, ?_⟩
  all_goals
    simp (disch := first | rfl | decide) only [zeroWords, List.take_succ_cons, List.take_zero, Op.addi,
      Op.sd, performs_instruction, performs_nil, exec_immediate, exec_store, reg_goto, reg_poke,
      reg_put_self, reg_put_ne, memory_goto, memory_put, memory_poke, ImmediateOp.value, below,
      here, reg_zero stands.cleared]
  · rfl
  · rw [BitVec.sub_eq_add_neg]

theorem byte_store_zero (mem : Memory) (addr x : Dword) :
    (mem.store addr 8 0).byte x = if Memory.Covers addr 8 x then 0 else mem.byte x := by
  rw [Memory.byte_store _ _ _ _ _ (by decide)]
  split
  · exact congrArg (BitVec.setWidth 8) BitVec.zero_ushiftRight
  · rfl

/-- The words below the stack are zeroed, from the first on down. -/
theorem zero_words_run (n : Nat) (few : 8 * (n + 1) < 2 ^ 64)
    (again : c.Has (c.target loop) (zeroWords zeroed loop ++ rest))
    (stands : c.Stands m (zeroWords zeroed loop ++ rest))
    (count : m.reg .t0 = BitVec.ofNat 64 (n + 1))
    (outside : ∀ x, Memory.Covers (m.reg stack - BitVec.ofNat 64 (8 * (n + 1))) (8 * (n + 1)) x →
      ¬c.Covers x) :
    ∃ k, c.Comes m k rest ∧ Keeps [.t0, stack] m k ∧
      k.reg stack = m.reg stack - BitVec.ofNat 64 (8 * (n + 1)) ∧
      ∀ x, k.memory.byte x =
        if Memory.Covers (m.reg stack - BitVec.ofNat 64 (8 * (n + 1))) (8 * (n + 1)) x then 0
        else m.memory.byte x := by
  induction n generalizing m with
  | zero =>
      obtain ⟨k, ⟨leads, there⟩, keeps, memory, moved, counted⟩ := zero_word_runs stands outside
      have done : Condition.ne.holds (k.reg .t0) (k.reg .zero) = false := by
        rw [counted, count, reg_zero there.cleared]
        rfl
      obtain ⟨leads', there'⟩ := there.branch_past done
      refine ⟨_, ⟨leads.trans leads', there'.bind.2⟩, keeps.goto _, moved, fun x => ?_⟩
      rw [memory_goto, memory]
      exact byte_store_zero m.memory _ x
  | succ n ih =>
      -- The area is the topmost word, which this turn clears, and the rest below it.
      have wide : 8 * (n + 1 + 1) = 8 * (n + 1) + 8 := by ring
      have next : m.reg stack - 8 - BitVec.ofNat 64 (8 * (n + 1)) =
          m.reg stack - BitVec.ofNat 64 (8 * (n + 1 + 1)) := by
        rw [wide, BitVec.ofNat_add]
        generalize BitVec.ofNat 64 (8 * (n + 1)) = d
        bv_omega
      have top : m.reg stack - BitVec.ofNat 64 (8 * (n + 1 + 1)) +
          BitVec.ofNat 64 (8 * (n + 1)) = m.reg stack - 8 := by
        rw [← next, BitVec.sub_add_cancel]
      have split : ∀ x, Memory.Covers (m.reg stack - BitVec.ofNat 64 (8 * (n + 1 + 1)))
          (8 * (n + 1 + 1)) x ↔ Memory.Covers (m.reg stack - 8 - BitVec.ofNat 64 (8 * (n + 1)))
            (8 * (n + 1)) x ∨ Memory.Covers (m.reg stack - 8) 8 x := by
        intro x
        rw [next, wide, Memory.covers_add (by omega), ← wide, top]
      obtain ⟨k, ⟨leads, there⟩, keeps, memory, moved, counted⟩ :=
        zero_word_runs stands fun x covered => outside x ((split x).mpr (.inr covered))
      have left : k.reg .t0 = BitVec.ofNat 64 (n + 1) := by
        rw [counted, count, BitVec.ofNat_add (n := 64) (n + 1) 1]
        exact BitVec.add_sub_cancel _ _
      -- The count is not zero yet, so the branch back is taken.
      have more : Condition.ne.holds (k.reg .t0) (k.reg .zero) = true := by
        rw [left, reg_zero there.cleared, Condition.holds_ne, decide_eq_true_eq]
        intro same
        have zero := congrArg BitVec.toNat same
        rw [BitVec.toNat_ofNat, Nat.mod_eq_of_lt (by omega)] at zero
        exact absurd zero (by simp)
      obtain ⟨leads', there'⟩ := there.branch_taken more again
      obtain ⟨last, ⟨leads'', there''⟩, keeps', moved', bytes⟩ := ih (by omega) there' left (by
        intro x covered
        rw [reg_goto, moved] at covered
        exact outside x ((split x).mpr (.inl covered)))
      rw [reg_goto, moved] at moved' bytes
      refine ⟨last, ⟨(leads.trans leads').trans leads'', there''⟩, (keeps.goto _).trans keeps',
        moved'.trans next, fun x => ?_⟩
      rw [bytes, memory_goto, memory, byte_store_zero]
      by_cases lower : Memory.Covers (m.reg stack - 8 - BitVec.ofNat 64 (8 * (n + 1)))
          (8 * (n + 1)) x
      · rw [if_pos lower, if_pos ((split x).mpr (.inl lower))]
      · by_cases upper : Memory.Covers (m.reg stack - 8) 8 x
        · rw [if_neg lower, if_pos upper, if_pos ((split x).mpr (.inr upper))]
        · rw [if_neg lower, if_neg upper, if_neg fun covered => ((split x).mp covered).elim lower upper]

/-- As many words as `t0` says are zeroed, also where there are none. -/
theorem zero_locals_runs (n : Nat) (few : 8 * n < 2 ^ 64)
    (stands : c.Stands m (.beqz .t0 zeroed :: .bind loop :: (zeroWords zeroed loop ++ rest)))
    (count : m.reg .t0 = BitVec.ofNat 64 n)
    (outside : ∀ x, Memory.Covers (m.reg stack - BitVec.ofNat 64 (8 * n)) (8 * n) x →
      ¬c.Covers x) :
    ∃ k, c.Comes m k rest ∧ Keeps [.t0, stack] m k ∧
      k.reg stack = m.reg stack - BitVec.ofNat 64 (8 * n) ∧
      ∀ x, k.memory.byte x =
        if Memory.Covers (m.reg stack - BitVec.ofNat 64 (8 * n)) (8 * n) x then 0
        else m.memory.byte x := by
  cases n with
  | zero =>
      obtain ⟨pc, leads, there⟩ := Stands.branch_over (.bind loop :: (zeroWords zeroed loop).take 4)
        stands (by
          rw [count, reg_zero stands.cleared]
          rfl)
      exact ⟨_, ⟨leads, there⟩, (Keeps.refl _ m).goto pc, (BitVec.sub_zero _).symm, fun x => rfl⟩
  | succ n =>
      have more : Condition.eq.holds (m.reg .t0) (m.reg .zero) = false := by
        rw [count, reg_zero stands.cleared, Condition.holds_eq, decide_eq_false_iff_not]
        intro same
        have zero := congrArg BitVec.toNat same
        rw [BitVec.toNat_ofNat, Nat.mod_eq_of_lt (by omega)] at zero
        exact absurd zero (by simp)
      obtain ⟨leads, there⟩ := stands.branch_past more
      obtain ⟨target, there⟩ := there.bind
      obtain ⟨k, ⟨leads', there'⟩, keeps, moved, bytes⟩ :=
        zero_words_run n few (target ▸ there.placed) there count outside
      exact ⟨k, ⟨leads.trans leads', there'⟩, ((Keeps.refl _ m).goto _).trans keeps, moved, bytes⟩

end Zeroing

end EntryCode.Fragment
