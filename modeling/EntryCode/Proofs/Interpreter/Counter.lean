import EntryCode.Proofs.Interpreter.Frame

/-!
The invocation counter. It is counted up to the limit and stops there; with a compiler, an
invocation that finds or leaves it at the limit goes another way.
-/

namespace EntryCode.Fragment

open EntryCode.Frame Pinned Linked Machine

variable {c : Linked} {m : Machine} {rest : Program} (cfg : Config)

def limit : Dword := cfg.counterLimit.setWidth 64

/-- Whether the counter is still counted. -/
def counting (m : Machine) : Bool :=
  (field cfg m .invocationCounter).ult (limit cfg)

def counted (m : Machine) : Dword :=
  field cfg m .invocationCounter + if counting cfg m then 1 else 0

def overflows (m : Machine) : Bool :=
  cfg.useCompiler && !(counted cfg m).ult (limit cfg)

def countedMemory (m : Machine) : Memory :=
  if counting cfg m then
    m.memory.store (m.reg method + cfg.method.offset .invocationCounter) 4 (counted cfg m)
  else m.memory

theorem load_counter_runs {v : Dword}
    (stands : c.Stands m
      (.lwu .t0 method (cfg.method.offset .invocationCounter) :: .constant .t1 v :: rest)) :
    ∃ k, c.Comes m k rest ∧ Keeps [.t0, .t1] m k ∧ k.memory = m.memory ∧
      k.reg .t0 = field cfg m .invocationCounter ∧ k.reg .t1 = v := by
  obtain ⟨first, stands⟩ := stands.load
  obtain ⟨pc, second, stands⟩ := stands.constant (by decide)
  refine ⟨_, ⟨first.trans second, stands⟩,
    ((((Keeps.refl _ m).put (by decide) _).goto _).put (by decide) _).goto _, rfl, ?_, ?_⟩
  · simp (disch := decide) only [reg_goto, reg_put_ne, reg_put_self]
    rfl
  · simp (disch := decide) only [reg_goto, reg_put_self]

theorem count_up_runs {k : Machine} (stands : c.Stands k (.addi .t0 .t0 1 ::
      .sw .t0 method (cfg.method.offset .invocationCounter) :: rest))
    (keeps : Keeps [.t0, .t1] m k) (memory : k.memory = m.memory)
    (count : k.reg .t0 = field cfg m .invocationCounter) (below : counting cfg m = true)
    (clear : ∀ x, Memory.Covers (m.reg method + cfg.method.offset .invocationCounter) 4 x →
      ¬c.Covers x) :
    ∃ k', c.Comes k k' rest ∧ Keeps [.t0, .t1] m k' ∧ k'.memory = countedMemory cfg m ∧
      k'.reg .t0 = counted cfg m ∧ k'.reg .t1 = k.reg .t1 := by
  have record := keeps.registers method (by decide)
  obtain ⟨first, stands⟩ := stands.immediate (by simp)
  obtain ⟨second, stands⟩ := stands.store (by
    simp (disch := decide) only [reg_goto, reg_put_ne, record]
    exact clear)
  have value : k.reg .t0 + 1 = counted cfg m := by
    rw [counted, count, if_pos below]
  refine ⟨_, ⟨first.trans second, stands⟩,
    (((keeps.put (by decide) _).goto _).poke _ _ _).goto _, ?_, ?_, ?_⟩
  · simp (disch := decide) only [memory_goto, memory_poke, memory_put, reg_goto, reg_put_ne,
      reg_put_self, record, memory, countedMemory, below, ImmediateOp.value, value, if_true]
    rfl
  · simp (disch := decide) only [reg_goto, reg_poke, reg_put_self, ImmediateOp.value, value]
  · simp (disch := decide) only [reg_goto, reg_poke, reg_put_ne]

/-- An invocation is counted; `away` is what lies where the compiler is called. -/
theorem count_invocation_runs {overflow done : Label} (away : Program)
    (stands : c.Stands m (countInvocation cfg overflow done ++ rest))
    (there : cfg.useCompiler = true → c.Has (c.target overflow) away)
    (clear : ∀ x, Memory.Covers (m.reg method + cfg.method.offset .invocationCounter) 4 x →
      ¬c.Covers x) :
    ∃ k, c.Comes m k (if overflows cfg m then away else rest) ∧ Keeps [.t0, .t1] m k ∧
      k.memory = countedMemory cfg m := by
  simp only [countInvocation, List.flatten_cons, List.flatten_nil, List.append_nil,
    List.append_assoc, List.cons_append, List.nil_append] at stands
  obtain ⟨k, ⟨first, stands⟩, keeps, memory, count, bound⟩ :=
    load_counter_runs cfg stands.comment
  have held : (!(k.reg .t0).ult (k.reg .t1)) = !counting cfg m := by
    rw [count, bound]
    rfl
  cases below : counting cfg m with
  | false =>
      have same : countedMemory cfg m = m.memory := by rw [countedMemory, below]; rfl
      have taken : Condition.geu.holds (k.reg .t0) (k.reg .t1) = true := by
        rw [Condition.holds_geu, held, below]
        rfl
      have stop : (!(counted cfg m).ult (limit cfg)) = true := by
        rw [counted, below, if_neg (by simp),
          show field cfg m .invocationCounter + 0 = _ from BitVec.add_zero _]
        exact congrArg not below
      rw [overflows, stop, same, ← memory]
      cases compiler : cfg.useCompiler with
      | true =>
          rw [compiler] at stands
          obtain ⟨second, stands⟩ := stands.branch_taken taken (there compiler)
          exact ⟨_, ⟨first.trans second, stands⟩, keeps.goto _, rfl⟩
      | false =>
          rw [compiler] at stands
          obtain ⟨pc, second, stands⟩ := stands.branch_over [_, _] taken
          exact ⟨_, ⟨first.trans second, stands⟩, keeps.goto _, rfl⟩
  | true =>
      have past : Condition.geu.holds (k.reg .t0) (k.reg .t1) = false := by
        rw [Condition.holds_geu, held, below]
        rfl
      obtain ⟨second, stands⟩ := stands.branch_past past
      obtain ⟨k', ⟨third, stands⟩, keeps, memory, count, bound'⟩ :=
        count_up_runs cfg stands (keeps.goto _) memory count below clear
      have leads := (first.trans second).trans third
      have bound : k'.reg .t1 = limit cfg := bound'.trans bound
      rw [overflows]
      cases compiler : cfg.useCompiler with
      | false =>
          rw [compiler] at stands
          exact ⟨k', ⟨leads, stands.bind.2⟩, keeps, memory⟩
      | true =>
          rw [compiler] at stands
          cases reached : (counted cfg m).ult (limit cfg) with
          | false =>
              obtain ⟨last, stands⟩ := Stands.branch_taken stands (by
                rw [Condition.holds_geu, count, bound, reached]
                rfl) (there compiler)
              exact ⟨_, ⟨leads.trans last, stands⟩, keeps.goto _, memory⟩
          | true =>
              obtain ⟨last, stands⟩ := Stands.branch_past stands (by
                rw [Condition.holds_geu, count, bound, reached]
                rfl)
              exact ⟨_, ⟨leads.trans last, stands.bind.2⟩, keeps.goto _, memory⟩

/-- With the compiler on, its call lies behind the code that an entry goes on with. -/
theorem counter_overflow_placed {overflow proceed done : Label} {body : Program} {addr : Dword}
    (after : c.Has addr
      (body ++ if cfg.useCompiler then counterOverflow cfg overflow proceed done else []))
    (compiler : cfg.useCompiler = true) :
    c.Has (c.target overflow) (.mv .a1 .zero ::
      (callRuntime cfg .counterOverflow "frequency_counter_overflow" done ++ [Op.j proceed])) := by
  obtain ⟨-, last, placed⟩ := Linked.has_append after
  rw [compiler] at placed
  obtain ⟨target, there⟩ := Linked.has_bind.mp placed
  exact target ▸ there

end EntryCode.Fragment
