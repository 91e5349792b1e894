import EntryCode.Proofs.Machine.Placement
import EntryCode.Proofs.Machine.Pseudo
import EntryCode.Proofs.Native.Handler

/-!
Handlers executed. Moving one argument writes its place and scratch registers only; since places
have nothing in common, every argument is still in its place when the handler returns.
-/

namespace EntryCode.Handler

open Pinned

/-- The value of an argument, from the word `w` of its local at `addr`. -/
def carried (w addr : Dword) : BasicType → Dword
  | .boolean => (w.setWidth 8).setWidth 64
  | .byte => (w.setWidth 8).signExtend 64
  | .char => (w.setWidth 16).setWidth 64
  | .short => (w.setWidth 16).signExtend 64
  | .int => (w.setWidth 32).signExtend 64
  | .float => (w.setWidth 32).setWidth 64
  | .long | .double => w
  | .object => if w = 0 then 0 else addr
  | .void => 0

/-- The value of an argument in a floating-point register, where a single has all high bits
set. -/
def boxed (w : Dword) (t : BasicType) : Dword :=
  if t = .float then 0xffffffff00000000 ||| (w.setWidth 32).setWidth 64 else w

/-- Whether an argument that `m` has in its locals is in its place in `k`. -/
def Argument.Delivered (a : Argument) (m k : Machine) : Prop :=
  let addr := m.reg locals + a.offset
  let w := m.memory.load addr Frame.wordSize
  match a.location with
  | .integer r => k.reg r = carried w addr a.type
  | .float f => k.freg f = boxed w a.type
  | .stack off => k.memory.load (m.reg .sp + off) Frame.wordSize = carried w addr a.type

theorem access_value (t : BasicType) (mem : Memory) (addr : Dword) (value : t ≠ .void)
    (plain : t ≠ .object) :
    (access t).value mem addr = carried (mem.load addr Frame.wordSize) addr t := by
  have low : ∀ n, n ≤ 8 → ∀ w, 8 * n = w →
      mem.load addr n = ((mem.load addr Frame.wordSize).setWidth w).setWidth 64 := by
    rintro n short _ rfl
    exact Memory.load_low addr n short
  cases t with
  | void => exact absurd rfl value
  | object => exact absurd rfl plain
  | boolean => exact low 1 (by omega) 8 rfl
  | char => exact low 2 (by omega) 16 rfl
  | float => exact low 4 (by omega) 32 rfl
  | long | double => rfl
  | byte =>
      rw [access, LoadOp.value, low 1 (by omega) 8 rfl, Machine.sext, carried]
      simp
  | short =>
      rw [access, LoadOp.value, low 2 (by omega) 16 rfl, Machine.sext, carried]
      simp
  | int =>
      rw [access, LoadOp.value, low 4 (by omega) 32 rfl, Machine.sext, carried]
      simp

theorem boxed_value (t : BasicType) (mem : Memory) (addr : Dword) :
    FloatWidth.value mem addr (if t = .float then .single else .double) =
      boxed (mem.load addr Frame.wordSize) t := by
  rw [boxed]
  split
  · rw [FloatWidth.value, Memory.load_low addr 4 (by omega)]
    rfl
  · rfl

section Fetching
variable {c : Linked} {m : Machine} {rest : Program} {rd : Register} {off : Dword} {l : Label}

theorem handle_runs (usable : rd ∈ targets) (stands : c.Stands m (handle rd off l ++ rest)) :
    ∃ k, c.Comes m k rest ∧ Machine.Keeps [.t1, .t2, rd] m k ∧ k.memory = m.memory ∧
      k.reg rd = carried (m.memory.load (m.reg locals + off) Frame.wordSize)
        (m.reg locals + off) .object := by
  obtain ⟨-, writable, -, first, second, base⟩ := targets_usable rd usable
  obtain ⟨k, ⟨leads, there⟩, keeps, memory, word⟩ :=
    stands.load_far (by decide) (by decide) (by decide) (by decide) (by decide)
  obtain ⟨k', ⟨leads', there'⟩, keeps', memory', address⟩ :=
    there.add_constant (by decide) (by decide) (by decide) writable
  have kept : Machine.Keeps [.t1, .t2, rd] m k' :=
    (keeps.mono (by simp)).trans (keeps'.mono (by simp))
  have same : k'.memory = m.memory := memory'.trans memory
  have held : k'.reg .t1 = m.memory.load (m.reg locals + off) Frame.wordSize := by
    rw [keeps'.registers .t1 (by simpa using ⟨by decide, first.symm⟩), word]
    rfl
  have addr : k'.reg rd = m.reg locals + off := by
    rw [address, keeps.registers locals (by decide)]
  by_cases null : m.memory.load (m.reg locals + off) Frame.wordSize = 0
  · have past : Condition.ne.holds (k'.reg .t1) (k'.reg .zero) = false := by
      rw [held, Machine.reg_zero there'.cleared, null]
      rfl
    obtain ⟨leads'', there''⟩ := there'.branch_past past
    obtain ⟨last, final⟩ := there''.immediate (by simp)
    refine ⟨_, ⟨((leads.trans leads').trans leads'').trans last, final.bind.2⟩,
      ((kept.goto _).put (by simp) _).goto _, same, ?_⟩
    rw [Machine.reg_goto, Machine.reg_put_self _ _ _ writable, carried, if_pos null,
      Machine.reg_goto, Machine.reg_zero there'.cleared]
    rfl
  · have taken : Condition.ne.holds (k'.reg .t1) (k'.reg .zero) = true := by
      rw [held, Machine.reg_zero there'.cleared]
      simpa using null
    obtain ⟨pc, last, final⟩ := there'.branch_over [_] taken
    refine ⟨_, ⟨(leads.trans leads').trans last, final⟩, kept.goto pc, same, ?_⟩
    rw [Machine.reg_goto, addr, carried, if_neg null]

theorem fetched_runs (usable : rd ∈ targets) {t : BasicType} (value : t ≠ .void)
    (stands : c.Stands m (fetched t rd off l ++ rest)) :
    ∃ k, c.Comes m k rest ∧ Machine.Keeps [.t1, .t2, rd] m k ∧ k.memory = m.memory ∧
      k.reg rd = carried (m.memory.load (m.reg locals + off) Frame.wordSize)
        (m.reg locals + off) t := by
  obtain ⟨-, writable, distinct, -⟩ := targets_usable rd usable
  by_cases object : t = .object
  · rw [fetched, if_pos object] at stands
    rw [object]
    exact handle_runs usable stands
  · rw [fetched, if_neg object] at stands
    obtain ⟨k, comes, keeps, memory, loaded⟩ :=
      stands.load_far (by decide) (by decide) distinct (by decide) writable
    exact ⟨k, comes, keeps.mono (by simp), memory,
      loaded.trans (access_value t m.memory _ value object)⟩

theorem load_float_runs {width : FloatWidth} {fd : FloatRegister}
    (stands : c.Stands m (loadFloat width fd off ++ rest)) :
    ∃ k, c.Comes m k rest ∧ (∀ r : Register, (∀ s ∈ [Register.t1, .t2], r.code ≠ s.code) →
      k.reg r = m.reg r) ∧ k.memory = m.memory ∧
        k.f = m.f.set fd.code (width.value m.memory (m.reg locals + off)) := by
  by_cases fits : Field.fitsSigned off 12 = true
  · rw [loadFloat, if_pos fits] at stands
    exact ⟨_, stands.load_float, fun _ _ => rfl, rfl, rfl⟩
  · rw [loadFloat, if_neg fits] at stands
    obtain ⟨k, ⟨leads, there⟩, keeps, memory, address⟩ :=
      stands.add_constant (by decide) (by decide) (by decide) (by decide)
    obtain ⟨leads', there'⟩ := there.load_float
    refine ⟨_, ⟨leads.trans leads', there'⟩, ?_, memory, ?_⟩
    · intro r apart
      exact keeps.registers r (by simpa [and_comm] using apart)
    · have here : m.reg locals + off + 0 = m.reg locals + off := BitVec.add_zero _
      rw [Machine.goto, Machine.putFloat, memory, address, keeps.floats, here]

end Fetching

def temporaries : List Register :=
  [.t0, .t1, .t2]

/-- Nothing but the places of some arguments and the temporaries has changed. -/
structure Spares (args : List Argument) (m k : Machine) : Prop where
  registers : ∀ r : Register, (∀ t ∈ temporaries, r.code ≠ t.code) →
    (∀ a ∈ args, ∀ s, a.location = .integer s → r.code ≠ s.code) → k.reg r = m.reg r
  floats : ∀ f : FloatRegister,
    (∀ a ∈ args, ∀ g, a.location = .float g → f.code ≠ g.code) → k.freg f = m.freg f
  memory : ∀ x, (∀ a ∈ args, ∀ off, a.location = .stack off →
    ¬Memory.Covers (m.reg .sp + off) Frame.wordSize x) → k.memory.byte x = m.memory.byte x

section Spares
variable {a : Argument} {args : List Argument} {m k last : Machine}

theorem Spares.fixed (spares : Spares args m k) (fine : ∀ a ∈ args, a.Fine) (r : Register)
    (outside : ∀ s ∈ temporaries ++ Register.arguments, r.code ≠ s.code) :
    k.reg r = m.reg r := by
  rw [List.forall_mem_append] at outside
  refine spares.registers r outside.1 fun a member s place => ?_
  exact outside.2 s ((fine a member).integer s place)

theorem Spares.cons (first : Spares [a] m k) (second : Spares args k last)
    (stack : k.reg .sp = m.reg .sp) : Spares (a :: args) m last := by
  constructor
  · intro r temporary apart
    rw [List.forall_mem_cons] at apart
    rw [second.registers r temporary apart.2,
      first.registers r temporary (List.forall_mem_singleton.mpr apart.1)]
  · intro f apart
    rw [List.forall_mem_cons] at apart
    rw [second.floats f apart.2, first.floats f (List.forall_mem_singleton.mpr apart.1)]
  · intro x apart
    rw [List.forall_mem_cons] at apart
    rw [second.memory x (stack ▸ apart.2),
      first.memory x (List.forall_mem_singleton.mpr apart.1)]

/-- An argument stays in its place while others are moved. -/
theorem Argument.Delivered.spared (delivered : a.Delivered m k) (fine : a.Fine)
    (spares : Spares args k last) (stack : k.reg .sp = m.reg .sp)
    (apart : ∀ b ∈ args, a.location.Apart b.location) : a.Delivered m last := by
  rw [Argument.Delivered] at delivered ⊢
  cases place : a.location with
  | integer r =>
      simp only [place] at delivered apart ⊢
      rw [← delivered]
      have usable : ∀ r ∈ Register.arguments, ∀ t ∈ temporaries, r.code ≠ t.code := by decide
      refine spares.registers r (usable r (fine.integer r place)) fun b member s there => ?_
      have other := apart b member
      rwa [there] at other
  | float f =>
      simp only [place] at delivered apart ⊢
      rw [← delivered]
      refine spares.floats f fun b member g there => ?_
      have other := apart b member
      rwa [there] at other
  | stack off =>
      simp only [place] at delivered apart ⊢
      rw [← delivered]
      refine Memory.load_congr _ _ fun i inside => spares.memory _ fun b member off' there => ?_
      have other := apart b member
      rw [there] at other
      rw [stack]
      have moved : Memory.Apart (m.reg .sp + off') Frame.wordSize (m.reg .sp + off)
          Frame.wordSize := by
        obtain ⟨one, two⟩ := other
        constructor
        · rwa [show m.reg .sp + off - (m.reg .sp + off') = off - off' by bv_omega]
        · rwa [show m.reg .sp + off' - (m.reg .sp + off) = off' - off by bv_omega]
      exact moved.not_covers i inside

/-- What is delivered depends on the locals only. -/
theorem Argument.Delivered.locals_kept (delivered : a.Delivered k last)
    (stack : k.reg .sp = m.reg .sp) (base : k.reg locals = m.reg locals)
    (word : k.memory.load (m.reg locals + a.offset) Frame.wordSize =
      m.memory.load (m.reg locals + a.offset) Frame.wordSize) : a.Delivered m last := by
  rw [Argument.Delivered, stack, base, word] at delivered
  exact delivered

end Spares

section Moving
variable {c : Linked} {m : Machine} {rest : Program}

theorem moved_delivers {a : Argument} (fine : a.Fine) {l : Label}
    (stands : c.Stands m (moved a l ++ rest))
    (outside : ∀ off, a.location = .stack off → ∀ x,
      Memory.Covers (m.reg .sp + off) Frame.wordSize x → ¬c.Covers x) :
    ∃ k, c.Comes m k rest ∧ a.Delivered m k ∧ Spares [a] m k := by
  cases place : a.location with
  | float fd =>
      rw [moved, place] at stands
      obtain ⟨k, comes, registers, memory, floats⟩ := load_float_runs stands
      refine ⟨k, comes, ?_, ?_, ?_, ?_⟩
      · simp only [Argument.Delivered, place]
        rw [Machine.freg, floats, RegisterFile.get_set, if_pos rfl, boxed_value]
      · intro r temporary _
        exact registers r fun s member => temporary s (List.mem_cons_of_mem _ member)
      · intro f apart
        have other := List.forall_mem_singleton.mp apart fd place
        rw [Machine.freg, floats, RegisterFile.get_set, if_neg other]
        rfl
      · intro x _
        rw [memory]
  | integer rd =>
      rw [moved, place] at stands
      obtain ⟨k, comes, keeps, memory, value⟩ :=
        fetched_runs (List.mem_cons_of_mem _ (fine.integer rd place)) fine.value stands
      refine ⟨k, comes, ?_, ?_, ?_, ?_⟩
      · simp only [Argument.Delivered, place]
        exact value
      · intro r temporary apart
        have other := List.forall_mem_singleton.mp apart rd place
        simp only [temporaries, List.forall_mem_cons] at temporary
        exact keeps.registers r (by simpa using ⟨temporary.2.1, temporary.2.2.1, other⟩)
      · intro f _
        rw [Machine.freg, keeps.floats]
        rfl
      · intro x _
        rw [memory]
  | stack off =>
      rw [moved, place] at stands
      dsimp only at stands
      rw [List.append_assoc] at stands
      obtain ⟨k, ⟨leads, there⟩, keeps, memory, value⟩ :=
        fetched_runs List.mem_cons_self fine.value stands
      have stack : k.reg .sp = m.reg .sp := keeps.registers .sp (by decide)
      obtain ⟨k', ⟨leads', there'⟩, keeps', stored⟩ :=
        there.store_far (by decide) (by decide) (by decide) (by decide) (by decide)
          (by rw [stack]; exact outside off place)
      rw [stack, value, memory] at stored
      refine ⟨k', ⟨leads.trans leads', there'⟩, ?_, ?_, ?_, ?_⟩
      · simp only [Argument.Delivered, place]
        rw [stored]
        exact Memory.load_store_word _ _
      · intro r temporary _
        simp only [temporaries, List.forall_mem_cons] at temporary
        rw [keeps'.registers r (by simpa using temporary.2.1)]
        exact keeps.registers r (by simpa using ⟨temporary.2.1, temporary.2.2.1, temporary.1⟩)
      · intro f _
        rw [Machine.freg, keeps'.floats, keeps.floats]
        rfl
      · intro x apart
        rw [stored, Memory.byte_store _ _ _ _ _ (by decide)]
        exact if_neg (List.forall_mem_singleton.mp apart off place)

theorem moves_deliver {args : List Argument} (n : Nat) (fine : ∀ a ∈ args, a.Fine)
    (apart : args.Pairwise fun a b => a.location.Apart b.location)
    (stands : c.Stands m (moves n args ++ rest))
    (outside : ∀ a ∈ args, ∀ off, a.location = .stack off → ∀ x,
      Memory.Covers (m.reg .sp + off) Frame.wordSize x → ¬c.Covers x)
    (locals_apart : ∀ a ∈ args, ∀ b ∈ args, ∀ off, a.location = .stack off →
      Memory.Apart (m.reg .sp + off) Frame.wordSize (m.reg locals + b.offset) Frame.wordSize) :
    ∃ k, c.Comes m k rest ∧ (∀ a ∈ args, a.Delivered m k) ∧ Spares args m k := by
  induction args generalizing m n with
  | nil =>
      exact ⟨m, ⟨.refl m, stands⟩, by simp, fun _ _ _ => rfl, fun _ _ => rfl, fun _ _ => rfl⟩
  | cons a args ih =>
      rw [moves, List.append_assoc] at stands
      obtain ⟨alone, others⟩ := List.pairwise_cons.mp apart
      rw [List.forall_mem_cons] at fine
      obtain ⟨k, ⟨leads, there⟩, delivered, spares⟩ :=
        moved_delivers fine.1 stands (outside a List.mem_cons_self)
      have single : ∀ b ∈ [a], b.Fine := List.forall_mem_singleton.mpr fine.1
      have stack := spares.fixed single .sp (by decide)
      have base := spares.fixed single locals (by decide)
      -- the locals of the arguments to come are as they were
      have word : ∀ b ∈ args, k.memory.load (m.reg locals + b.offset) Frame.wordSize =
          m.memory.load (m.reg locals + b.offset) Frame.wordSize := by
        intro b member
        refine Memory.load_congr _ _ fun i inside => spares.memory _ ?_
        refine List.forall_mem_singleton.mpr fun off place => ?_
        exact (locals_apart a List.mem_cons_self b (List.mem_cons_of_mem _ member) off
          place).not_covers i inside
      obtain ⟨last, ⟨leads', there'⟩, later, spares'⟩ := ih (n + 1) fine.2 others there
        (fun b member off place => by
          rw [stack]
          exact outside b (List.mem_cons_of_mem _ member) off place)
        (fun b member b' member' off place => by
          rw [stack, base]
          exact locals_apart b (List.mem_cons_of_mem _ member) b'
            (List.mem_cons_of_mem _ member') off place)
      refine ⟨last, ⟨leads.trans leads', there'⟩, ?_, spares.cons spares' stack⟩
      rw [List.forall_mem_cons]
      refine ⟨delivered.spared fine.1 spares' stack alone, fun b member => ?_⟩
      exact (later b member).locals_kept stack base (word b member)

end Moving

section Whole

/-- The argument registers that are left for the environment and, for static methods, the
mirror. -/
def reserved (static : Bool) : Nat :=
  if static then 2 else 1

theorem initial_counted (static : Bool) : Assignment.initial static = counted (reserved static) 0 := by
  cases static with
  | false => rfl
  | true => rfl

def outgoing (sig : Signature) (static : Bool) : Nat :=
  (taken (reserved static) 0 (argumentTypes sig static) - 8) * Frame.wordSize

/-- The place and the local of argument `i`, by counting the arguments before it. -/
def argument (sig : Signature) (static : Bool) (i : Nat) (t : BasicType) : Argument :=
  let ts := argumentTypes sig static
  let floats := min (floatsBefore ts i) 8
  ⟨t, localOffset t (slotsBefore ts i), spot t (reserved static + (i - floats)) floats⟩

/-- A machine that is about to execute the handler of a signature. -/
structure Ready (sig : Signature) (static : Bool) (code : Bytes) (m : Machine) : Prop where
  cleared : m.x.get 0 = 0
  loaded : m.memory.read m.pc code.length = code
  even : m.reg .ra &&& 1 = 0
  code_apart : ∀ x, Memory.Covers (m.reg .sp) (outgoing sig static) x →
    ¬Memory.Covers m.pc code.length x
  locals_apart : ∀ i < ((argumentTypes sig static).map BasicType.slots).sum, ∀ x,
    Memory.Covers (m.reg .sp) (outgoing sig static) x →
      ¬Memory.Covers (m.reg locals - BitVec.ofNat 64 (i * Frame.wordSize)) Frame.wordSize x

/-- What a handler leaves when it has returned. -/
structure Passed (sig : Signature) (static : Bool) (rh : Dword) (m k : Machine) : Prop where
  returned : k.pc = m.reg .ra
  result : k.reg .a0 = rh
  delivered : ∀ i t, (argumentTypes sig static)[i]? = some t →
    (argument sig static i t).Delivered m k
  registers : ∀ r : Register, (∀ s ∈ temporaries ++ Register.arguments, r.code ≠ s.code) →
    k.reg r = m.reg r
  floats : ∀ f : FloatRegister, (∀ g ∈ FloatRegister.arguments, f.code ≠ g.code) →
    k.freg f = m.freg f
  memory : ∀ x, ¬Memory.Covers (m.reg .sp) (outgoing sig static) x →
    k.memory.byte x = m.memory.byte x

variable {sig : Signature} {static : Bool}

theorem argument_mem (i : Nat) (t : BasicType) (found : (argumentTypes sig static)[i]? = some t) :
    argument sig static i t ∈
      arguments 0 (counted (reserved static) 0) (argumentTypes sig static) := by
  have placed := arguments_get _ 0 (reserved static) 0 i (by omega) t found
  simp only [Nat.zero_add, Nat.sub_zero] at placed
  exact List.mem_of_getElem? placed

theorem types_values (values : ∀ t ∈ sig.params, t ≠ .void) :
    ∀ t ∈ argumentTypes sig static, t ≠ .void := by
  rw [argumentTypes]
  split
  · exact values
  · rw [List.forall_mem_cons]
    exact ⟨by decide, values⟩

/-- Handlers can be generated for every signature with parameters that have values. -/
theorem generates_values (static : Bool) (rh : Dword) (e : Extensions)
    (values : ∀ t ∈ sig.params, t ≠ .void) :
    ∃ a b, Emitted [] a ∧ (Program.run (body
        (arguments 0 (counted (reserved static) 0) (argumentTypes sig static)) rh)).run a =
          .ok () b ∧
      Emit.unresolved? b = none ∧ generate sig static rh e = .ok b.code :=
  generates rh sig static (by rw [initial_counted])
    (arguments_fine 0 (reserved static) 0 _ (types_values values))

/-- The stack does not wrap onto itself, since the code is apart from it. -/
theorem Ready.short {code : Bytes} {m : Machine} (ready : Ready sig static code m)
    (some : 0 < code.length) : outgoing sig static ≤ 2 ^ 64 := by
  by_contra long
  refine ready.code_apart m.pc ?_ ?_
  · rw [Memory.Covers]
    omega
  · rw [Memory.Covers, BitVec.sub_self]
    exact some

theorem stack_inside (short : outgoing sig static ≤ 2 ^ 64) {a : Argument}
    (member : a ∈ arguments 0 (counted (reserved static) 0) (argumentTypes sig static))
    {off : Dword} (place : a.location = .stack off) {sp x : Dword}
    (inside : Memory.Covers (sp + off) Frame.wordSize x) :
    Memory.Covers sp (outgoing sig static) x := by
  have counts := arguments_from 0 (reserved static) 0 _ (by omega) a member
  rw [place] at counts
  obtain ⟨i, -, low, high, rfl⟩ := counts
  refine inside.within ?_ short
  simp only [outgoing, Frame.wordSize]
  omega

/-- The result handler goes to its register like an argument. -/
def resultArgument : Argument :=
  ⟨.long, 0, .integer .a0⟩

theorem result_apart {a : Argument}
    (member : a ∈ arguments 0 (counted (reserved static) 0) (argumentTypes sig static)) :
    a.location.Apart resultArgument.location := by
  have counts := arguments_from 0 (reserved static) 0 _ (by omega) a member
  cases place : a.location with
  | integer r =>
      rw [place] at counts
      obtain ⟨i, low, high, rfl⟩ := counts
      have later : 1 ≤ reserved static := by
        rw [reserved]
        split <;> omega
      exact numbers_apart i high 0 (by omega) (by omega)
  | float | stack => trivial

theorem body_delivers {c : Linked} {m : Machine} (rh : Dword)
    (values : ∀ t ∈ sig.params, t ≠ .void) (even : m.reg .ra &&& 1 = 0)
    (short : outgoing sig static ≤ 2 ^ 64)
    (stands : c.Stands m
      (body (arguments 0 (counted (reserved static) 0) (argumentTypes sig static)) rh))
    (clear : ∀ x, Memory.Covers (m.reg .sp) (outgoing sig static) x → ¬c.Covers x)
    (locals_apart : ∀ i < ((argumentTypes sig static).map BasicType.slots).sum, ∀ x,
      Memory.Covers (m.reg .sp) (outgoing sig static) x →
        ¬Memory.Covers (m.reg locals - BitVec.ofNat 64 (i * Frame.wordSize)) Frame.wordSize x) :
    ∃ k, c.Leads m k ∧ Passed sig static rh m k := by
  have typed : ∀ t ∈ argumentTypes sig static, t ≠ .void := types_values values
  have fine := arguments_fine 0 (reserved static) 0 _ typed
  have inside : ∀ a ∈ arguments 0 (counted (reserved static) 0) (argumentTypes sig static),
      ∀ off, a.location = .stack off → ∀ x, Memory.Covers (m.reg .sp + off) Frame.wordSize x →
        Memory.Covers (m.reg .sp) (outgoing sig static) x :=
    fun _ member _ place _ => stack_inside short member place
  obtain ⟨k, ⟨leads, there⟩, delivered, spares⟩ := moves_deliver 0 fine
    (arguments_apart 0 (reserved static) 0 _ (by omega) short) stands
    (fun a member off place x covered => clear x (inside a member off place x covered))
    (by
      intro a member b other off place
      obtain ⟨i, low, offset⟩ := arguments_local 0 _ _ typed b other
      rw [offset, ← BitVec.sub_eq_add_neg]
      refine Memory.apart_of_disjoint (by decide) (by decide) fun x covered => ?_
      exact locals_apart i (by omega) x (inside a member off place x covered))
  obtain ⟨pc, leads', there'⟩ := there.constant (by decide)
  set last := (k.put .a0 rh).goto pc
  -- The result handler is passed as one more argument, so what is true of arguments is true of it.
  have last_spares : ∀ u, Spares [resultArgument] k (last.goto u) := by
    intro u
    refine ⟨fun r _ apart => ?_, fun _ _ => rfl, fun _ _ => rfl⟩
    exact Machine.reg_put_ne _ _ _ _ (List.forall_mem_singleton.mp apart .a0 rfl)
  have result_fine : ∀ a ∈ [resultArgument], a.Fine :=
    List.forall_mem_singleton.mpr ⟨by decide, by rintro r ⟨⟩; decide, by simp [resultArgument]⟩
  have registers : ∀ r : Register, (∀ s ∈ temporaries ++ Register.arguments, r.code ≠ s.code) →
      last.reg r = m.reg r := fun r apart =>
    ((last_spares 0).fixed result_fine r apart).trans (spares.fixed fine r apart)
  have link := registers .ra (by decide)
  have leads'' := there'.ret (link ▸ even)
  refine ⟨_, (leads.trans leads').trans leads'', ?_, ?_, ?_, registers, ?_, ?_⟩
  · rw [Machine.pc_goto, link]
  · exact Machine.reg_put_self _ _ _ (by decide)
  · intro i t found
    have member := argument_mem i t found
    exact (delivered _ member).spared (fine _ member) (last_spares _)
      (spares.fixed fine .sp (by decide)) (List.forall_mem_singleton.mpr (result_apart member))
  · intro f apart
    refine spares.floats f fun a member g place => ?_
    exact apart g ((fine a member).float g place).1
  · intro x apart
    refine spares.memory x fun a member off place covered => ?_
    exact apart (inside a member off place x covered)

theorem body_passes {c : Linked} {m : Machine} (rh : Dword)
    (values : ∀ t ∈ sig.params, t ≠ .void) {code : Bytes} (ready : Ready sig static code m)
    (short : outgoing sig static ≤ 2 ^ 64)
    (stands : c.Stands m
      (body (arguments 0 (counted (reserved static) 0) (argumentTypes sig static)) rh))
    (covers : ∀ x, c.Covers x → Memory.Covers m.pc code.length x) :
    ∃ k, c.Leads m k ∧ Passed sig static rh m k :=
  body_delivers rh values ready.even short stands
    (fun x covered within => ready.code_apart x covered (covers x within)) ready.locals_apart

/-- Handlers can be generated for every signature and pass every list of arguments: they stay in
their code until they return, with each argument in its place. -/
theorem handlers_pass_arguments (sig : Signature) (values : ∀ t ∈ sig.params, t ≠ .void)
    (static : Bool) (rh : Dword) (e : Extensions) :
    ∃ code, generate sig static rh e = .ok code ∧ ∀ m, Ready sig static code m →
      ∃ n k, m.after n = .ok k ∧ Passed sig static rh m k ∧
        ∀ i < n, ∃ mid, m.after i = .ok mid ∧ Memory.Covers m.pc code.length mid.pc := by
  have typed : ∀ t ∈ argumentTypes sig static, t ≠ .void := types_values values
  have fine := arguments_fine 0 (reserved static) 0 _ typed
  obtain ⟨b, c, start, ran, clear, made⟩ :=
    generates rh (e := e) sig static (by rw [initial_counted]) fine
  refine ⟨c.code, made, fun m ready => ?_⟩
  obtain ⟨inv, bound⟩ := Program.emitted start _ ran
  have nonempty : 0 < c.code.length := by
    rw [Assembler.code, Bytes.length_of_words, Array.length_toList, inv.size]
    simp [body, Program.emissions_append, Program.emissions, Op.emissions, Op.ret,
      instructionSize]
  have placed := Linked.of_has m.pc inv clear _ [] [] start ran (by simp) fun _ _ same => same
  have origin : m.pc + BitVec.ofNat 64 b.pos = m.pc := by
    rw [start.pos]
    exact BitVec.add_zero _
  rw [origin] at placed
  have stands : (Linked.of m.pc _ c).Stands m _ :=
    ⟨ready.cleared, Linked.of_in_memory m.pc inv ready.loaded, placed⟩
  obtain ⟨k, ⟨n, runs⟩, passed⟩ := body_passes rh values ready (ready.short nonempty) stands
    fun x => Linked.of_covers m.pc inv
  refine ⟨n, k, runs.after, passed, fun i early => ?_⟩
  obtain ⟨mid, reached, covered⟩ := runs.inside i early
  exact ⟨mid, reached, Linked.of_covers m.pc inv covered⟩

/-- A signature whose arguments go to registers of both kinds and to the stack. -/
def mixed : Signature :=
  ⟨[.int, .int, .int, .int, .int, .double, .object, .object], .void⟩

theorem mixed_arguments_pass : (∀ t ∈ mixed.params, t ≠ .void) ∧
    ∃ code m, generate mixed false 0xabc0 .none = .ok code ∧ Ready mixed false code m ∧
      ∃ n k, m.after n = .ok k ∧ Passed mixed false 0xabc0 m k := by
  have values : ∀ t ∈ mixed.params, t ≠ .void := by decide
  refine ⟨values, ?_⟩
  obtain ⟨code, made, passes⟩ := handlers_pass_arguments mixed values false 0xabc0 .none
  have length : code.length = 88 := by
    have sized : (generate mixed false 0xabc0 .none).map List.length = .ok 88 := by cbv
    rw [made] at sized
    exact Except.ok.inj sized
  have ready : Ready mixed false code ⟨(RegisterFile.zeros.set 2 0x2000).set 24 0x3000, .zeros,
      0x1000, Memory.empty.write 0x1000 code⟩ := by
    have even : ((RegisterFile.zeros.set 2 0x2000).set 24 0x3000).get 1 &&& 1 = 0 := by decide
    refine ⟨rfl, Memory.read_write_same _ _ (by omega), even, ?_, ?_⟩
    · intro x inside within
      rw [length] at within
      have low : (x - 0x2000).toNat < 8 := inside
      have high : (x - 0x1000).toNat < 88 := within
      bv_omega
    · intro i few x inside within
      have low : (x - 0x2000).toNat < 8 := inside
      have high : (x - (0x3000 - BitVec.ofNat 64 (i * 8))).toNat < 8 := within
      have small : i < 10 := few
      have value : (BitVec.ofNat 64 (i * 8)).toNat = i * 8 := by
        rw [BitVec.toNat_ofNat]
        omega
      generalize BitVec.ofNat 64 (i * 8) = d at high value
      bv_omega
  obtain ⟨n, k, ran, passed, -⟩ := passes _ ready
  exact ⟨code, _, made, ready, n, k, ran, passed⟩

end Whole

end EntryCode.Handler
