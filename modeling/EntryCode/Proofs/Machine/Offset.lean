import EntryCode.Proofs.Assembler.Pseudo
import EntryCode.Proofs.Machine.Access
import EntryCode.Proofs.Machine.Constant

/-!
Loads and stores at a constant offset. Where the offset is no immediate the address is built first,
without touching memory; then there is one access, at the base as it was before and the offset.
-/

namespace EntryCode

/-- Whether an instruction does nothing but write a register, from other registers. -/
def Instruction.Computes : Instruction → Prop
  | .immediate op .. => op ≠ .jalr
  | .shift .. | .upper .. | .arithmetic .. | .extend .. => True
  | _ => False

namespace Instruction.Computes
variable {i : Instruction} (computes : i.Computes)
include computes

theorem running : i ≠ .ebreak := by
  rintro rfl
  exact computes

theorem access (m : Machine) : i.access? m = none := by
  cases i <;> first | rfl | exact computes.elim

theorem exec (m : Machine) : ∃ rd v, m.exec i = (m.put rd v).goto (m.pc + 4) := by
  cases i with
  | immediate op rd rs imm => exact ⟨_, _, m.exec_immediate op rd rs imm computes⟩
  | shift | upper | arithmetic | extend => exact ⟨_, _, rfl⟩
  | _ => exact computes.elim

end Instruction.Computes

theorem Constant.instructions_compute (rd : Register) (v : Dword) :
    ∀ i ∈ instructions rd v, i.Computes := by
  intro i member
  obtain ⟨s, -, rfl⟩ := List.mem_map.mp member
  cases s <;> first | exact trivial | exact ImmediateOp.noConfusion

namespace Linked
variable {c : Linked} {m : Machine}

/-- Instructions that only compute access no data. -/
theorem accesses_computing {is : List Instruction} (computing : ∀ i ∈ is, i.Computes)
    (cleared : m.Zeroed) (here : c.InMemory m.memory) (placed : c.Straight m.pc is) :
    m.accesses is.length = [] := by
  induction is generalizing m with
  | nil => rfl
  | cons i is ih =>
      rw [List.forall_mem_cons] at computing
      obtain ⟨lies, next⟩ := straight_cons.mp placed
      obtain ⟨encodable, fetched⟩ := here m.pc i lies
      obtain ⟨rd, v, after⟩ := computing.1.exec m
      have step := Machine.accesses_step (n := is.length)
        (advances cleared here lies computing.1.running)
      have word : m.access? m.fetch = none := by
        rw [show m.fetch = i.word from fetched, m.access_word i encodable]
        exact computing.1.access m
      rw [after, word] at step
      rw [List.length_cons, step]
      exact ih computing.2 (Machine.zeroed_put cleared rd v) here next

theorem accesses_last {k : Machine} {n : Nat} {i : Instruction} (reached : m.after n = .ok k)
    (cleared : k.Zeroed) (here : c.InMemory k.memory) (lies : c.lies k.pc i)
    (running : i ≠ .ebreak) :
    m.accesses (n + 1) = m.accesses n ++ (i.access? k).toList ∧
      m.after (n + 1) = .ok (k.exec i) := by
  obtain ⟨encodable, fetched⟩ := here k.pc i lies
  have advanced := advances cleared here lies running
  constructor
  · rw [Machine.accesses_add reached, Machine.accesses_step advanced,
      show k.fetch = i.word from fetched, k.access_word i encodable]
    simp [Machine.accesses]
  · rw [Machine.after_add reached, Machine.after_step advanced]
    rfl

end Linked

/-- The registers that an access at a constant offset may use up. -/
def Pseudo.used (v : Dword) (tmp : Register) : List Register :=
  if Field.fitsSigned v 12 = true ∨ tmp = .absent then [] else [tmp]

theorem Register.distinct_codes {r s t : Register} (distinct : Register.distinct [r, s, t] = true)
    (first : r ≠ .absent) (second : s ≠ .absent) (third : t ≠ .absent) :
    r.code ≠ t.code ∧ s.code ≠ t.code := by
  have apart : [r.code, s.code, t.code].Nodup := by
    simpa [Register.distinct, Register.code, first, second, third] using distinct
  simp only [List.nodup_cons, List.mem_cons, List.not_mem_nil, not_or, or_false] at apart
  exact ⟨apart.1.2, apart.2.1⟩

theorem Register.present {r : Register} (valid : r.isValid = true) : r ≠ .absent := by
  rintro rfl
  cases valid

theorem Register.code_ne {r s : Register} (valid : r.isValid = true) (other : s.isValid = true)
    (apart : r ≠ s) : r.code ≠ s.code := by
  intro same
  apply apart
  rw [← r.of_field_code valid, ← s.of_field_code other, same]

section Address
variable {name : String} {moved base tmp b : Register} {v off : Dword} {isStore : Bool}
  {before : List Instruction} {c : Linked} {m : Machine}

/-- The register that takes a wide address is one that may be used up, and not the base; nor is it
the source of a store. -/
theorem Pseudo.scratch_free (wide : ¬Field.fitsSigned v 12 = true)
    (chosen : Pseudo.scratch ⟨name, moved, base, .constant v⟩ tmp isStore = .ok b)
    (valid : moved.isValid = true) (valid_base : base.isValid = true) :
    b ∈ (if isStore then [] else [moved]) ++ Pseudo.used v tmp ∧ base.code ≠ b.code ∧
      (isStore = true → moved.code ≠ b.code) := by
  obtain ⟨present, distinct, rfl⟩ | ⟨-, load, apart, -, rfl⟩ := Pseudo.scratch_ok.mp chosen
  · obtain ⟨first, second⟩ := Register.distinct_codes distinct (Register.present valid)
      (Register.present valid_base) present
    exact ⟨by simp [Pseudo.used, wide, present], second, fun _ => first⟩
  · refine ⟨by simp [load], (Register.code_ne valid valid_base apart).symm, ?_⟩
    intro store
    rw [load] at store
    cases store

/-- What building the address of an access comes to. -/
structure Pseudo.Built (m k : Machine) (moved base tmp : Register) (v : Dword) (isStore : Bool)
    (before : List Instruction) (b : Register) (off : Dword) : Prop where
  reached : m.after before.length = .ok k
  untouched : m.accesses before.length = []
  cleared : k.Zeroed
  memory : k.memory = m.memory
  pc : k.pc = m.pc + BitVec.ofNat 64 (instructionSize * before.length)
  keeps : Machine.Keeps ((if isStore then [] else [moved]) ++ Pseudo.used v tmp) m k
  address : k.reg b + off = m.reg base + v
  source : isStore = true → k.reg moved = m.reg moved ∧ k.reg base = m.reg base

theorem Pseudo.address_built
    (planned : Pseudo.address ⟨name, moved, base, .constant v⟩ tmp isStore = .ok (before, b, off))
    (encodable : ∀ i ∈ before, i.Encodable) (valid : moved.isValid = true)
    (cleared : m.Zeroed) (here : c.InMemory m.memory) (placed : c.Straight m.pc before) :
    ∃ k, Pseudo.Built m k moved base tmp v isStore before b off := by
  obtain ⟨fits, rfl, rfl, rfl⟩ | ⟨wide, nonzero, chosen, rfl, rfl⟩ := Pseudo.address_ok.mp planned
  · refine ⟨m, rfl, rfl, cleared, rfl, ?_, .refl _ m, rfl, fun _ => ⟨rfl, rfl⟩⟩
    exact (BitVec.add_zero _).symm
  rw [List.forall_mem_append, List.forall_mem_singleton] at encodable
  obtain ⟨-, valid_b, -, valid_base⟩ := encodable
  have writable := Register.code_writable valid_b nonzero
  obtain ⟨member, free, other⟩ := Pseudo.scratch_free wide chosen valid valid_base
  have computing : ∀ i ∈ Constant.instructions b v ++ [Instruction.arithmetic .add b b base],
      i.Computes := by
    rw [List.forall_mem_append, List.forall_mem_singleton]
    exact ⟨Constant.instructions_compute b v, trivial⟩
  have length : (Constant.instructions b v ++ [Instruction.arithmetic .add b b base]).length =
      Constant.length v + 1 := by
    rw [List.length_append, Constant.length_instructions, List.length_singleton]
  have untouched := Linked.accesses_computing computing cleared here placed
  -- The constant first, then the base is added to it.
  obtain ⟨constant, last⟩ := Linked.straight_append.mp placed
  rw [Constant.length_instructions] at last
  have loaded := Linked.runs_constant writable v cleared here constant
  have still : ((m.put b v).goto
      (m.pc + BitVec.ofNat 64 (instructionSize * Constant.length v))).Zeroed :=
    Machine.zeroed_put cleared b v
  have built := loaded.trans (Linked.runs_one still here (Linked.straight_cons.mp last).1 rfl)
  rw [Machine.exec_arithmetic, Machine.reg_goto, Machine.reg_goto,
    Machine.reg_put_self _ _ _ writable, Machine.reg_put_ne _ _ _ _ free, Machine.put_goto,
    Machine.put_put, Machine.goto_goto, Machine.pc_goto] at built
  have reached := built.after
  rw [← length] at reached
  refine ⟨_, reached, untouched, ?_, rfl, ?_, ?_, ?_, ?_⟩
  · exact Machine.zeroed_put cleared b _
  · rw [length, Nat.mul_add, BitVec.ofNat_add, ← BitVec.add_assoc]
    rfl
  · exact ((Machine.Keeps.refl _ m).put member _).goto _
  · rw [Machine.reg_goto, Machine.reg_put_self _ _ _ writable, RegisterOp.value, BitVec.add_comm v]
    exact BitVec.add_zero _
  · intro store
    rw [Machine.reg_goto, Machine.reg_goto, Machine.reg_put_ne _ _ _ _ (other store),
      Machine.reg_put_ne _ _ _ _ free]
    exact ⟨rfl, rfl⟩

/-- The words of an access at a constant offset, executed: the address is built and the last
instruction makes the access. -/
theorem Pseudo.access_runs {last : Instruction}
    (planned : Pseudo.address ⟨name, moved, base, .constant v⟩ tmp isStore = .ok (before, b, off))
    (encodable : ∀ i ∈ before ++ [last], i.Encodable) (valid : moved.isValid = true)
    (running : last ≠ .ebreak) (cleared : m.Zeroed)
    (code : m.memory.read m.pc
        (instructionSize * ((before ++ [last]).map Instruction.word).length) =
      Bytes.ofWords ((before ++ [last]).map Instruction.word)) :
    ∃ k, Pseudo.Built m k moved base tmp v isStore before b off ∧
      m.accesses ((before ++ [last]).map Instruction.word).length = (last.access? k).toList ∧
      m.after ((before ++ [last]).map Instruction.word).length = .ok (k.exec last) := by
  have here := Linked.of_list_in_memory encodable code
  obtain ⟨building, accessing⟩ := Linked.straight_append.mp (Linked.of_list_placed m.pc _)
  obtain ⟨k, built⟩ := Pseudo.address_built planned
    (fun i member => encodable i (List.mem_append_left _ member)) valid cleared here building
  refine ⟨k, built, ?_⟩
  rw [← built.pc] at accessing
  rw [List.length_map, List.length_append, List.length_singleton]
  have ended := Linked.accesses_last built.reached built.cleared (built.memory ▸ here)
    (Linked.straight_cons.mp accessing).1 running
  rwa [built.untouched, List.nil_append] at ended

end Address

theorem Emit.sequence_emitted {plan : Except Violation (List Instruction)} {a b : Assembler}
    (ran : (Emit.sequence plan).run a = .ok () b) : ∃ is, plan = .ok is ∧
      (∀ i ∈ is, i.Encodable) ∧
        b = { a with words := a.words ++ (is.map Instruction.word).toArray } := by
  obtain ⟨is, planned, emitted⟩ := Emit.sequence_ok.mp ran
  exact ⟨is, planned, Emit.instructions_ok emitted⟩

theorem Pseudo.Built.next {moved base tmp b : Register} {v off : Dword} {isStore : Bool}
    {m k : Machine} {before : List Instruction} {last : Instruction}
    (built : Pseudo.Built m k moved base tmp v isStore before b off) :
    k.pc + 4 = m.pc + BitVec.ofNat 64
      (instructionSize * ((before ++ [last]).map Instruction.word).length) := by
  rw [built.pc, List.length_map, List.length_append, List.length_singleton, Nat.mul_add,
    BitVec.ofNat_add, ← BitVec.add_assoc]
  rfl

/-- Accesses at a constant offset. Where the operation breaks no rule, executing its words makes
one access to data, at the base as it was before and the offset. A load leaves its value in the
destination, a store the low bytes of the source in memory; of the other registers only the scratch
register may have changed, and only where the offset is no immediate. -/
theorem constant_offsets_are_accessed (base tmp : Register) (v : Dword) {a b : Assembler} :
    (∀ (op : LoadOp) (rd : Register),
      (Op.load op rd base (.constant v) tmp).run.run a = .ok () b → ∃ words : List Word,
        b = { a with words := a.words ++ words.toArray } ∧
        ∀ m : Machine, m.x.get 0 = 0 →
          m.memory.read m.pc (instructionSize * words.length) = Bytes.ofWords words →
            m.accesses words.length = [⟨false, m.reg base + v, op.size⟩] ∧
            ∃ k, m.after words.length = .ok k ∧
              k.pc = m.pc + BitVec.ofNat 64 (instructionSize * words.length) ∧
              k.memory = m.memory ∧ Machine.Keeps (rd :: Pseudo.used v tmp) m k ∧
              k.reg rd = if rd = .zero then 0 else op.value m.memory (m.reg base + v)) ∧
    ∀ (op : StoreOp) (src : Register),
      (Op.store op src base (.constant v) tmp).run.run a = .ok () b → ∃ words : List Word,
        b = { a with words := a.words ++ words.toArray } ∧
        ∀ m : Machine, m.x.get 0 = 0 →
          m.memory.read m.pc (instructionSize * words.length) = Bytes.ofWords words →
            m.accesses words.length = [⟨true, m.reg base + v, op.size⟩] ∧
            ∃ k, m.after words.length = .ok k ∧
              k.pc = m.pc + BitVec.ofNat 64 (instructionSize * words.length) ∧
              k.memory = m.memory.store (m.reg base + v) op.size (m.reg src) ∧
              Machine.Keeps (Pseudo.used v tmp) m k ∧
              k.reg src = m.reg src ∧ k.reg base = m.reg base := by
  constructor
  · intro op rd ran
    obtain ⟨is, planned, encodable, emitted⟩ := Emit.sequence_emitted ran
    obtain ⟨before, r, off, address, rfl⟩ := Pseudo.load_ok_iff.mp planned
    refine ⟨_, emitted, fun m cleared code => ?_⟩
    have valid : rd.isValid = true := (encodable (.load op rd r off) (by simp)).1
    obtain ⟨k, built, accessed, reached⟩ := Pseudo.access_runs address encodable valid
      (by simp) cleared code
    rw [Instruction.access?, built.address] at accessed
    rw [k.exec_load, built.address, built.memory, built.next] at reached
    refine ⟨accessed, _, reached, rfl, built.memory, ?_, ?_⟩
    · have keeps : Machine.Keeps (rd :: Pseudo.used v tmp) m k := built.keeps
      exact (keeps.put List.mem_cons_self _).goto _
    · split
      case isTrue zero =>
        subst zero
        rw [Machine.put_zero]
        exact built.cleared
      case isFalse nonzero =>
        exact Machine.reg_put_self _ _ _ (Register.code_writable valid nonzero)
  · intro op src ran
    obtain ⟨is, planned, encodable, emitted⟩ := Emit.sequence_emitted ran
    obtain ⟨before, r, off, address, rfl⟩ := Pseudo.store_ok_iff.mp planned
    refine ⟨_, emitted, fun m cleared code => ?_⟩
    have valid : src.isValid = true := (encodable (.store op src r off) (by simp)).2.1
    obtain ⟨k, built, accessed, reached⟩ := Pseudo.access_runs address encodable valid
      (by simp) cleared code
    obtain ⟨source, unmoved⟩ := built.source rfl
    rw [Instruction.access?, built.address] at accessed
    rw [k.exec_store, built.address, source, built.next] at reached
    refine ⟨accessed, _, reached, rfl, ?_, ?_, source, unmoved⟩
    · rw [Machine.memory_goto, Machine.memory_poke, built.memory]
    · have keeps : Machine.Keeps (Pseudo.used v tmp) m k := built.keeps
      exact (keeps.poke _ _ _).goto _

/-- The destination of a load takes the address where there is no scratch register. -/
theorem wide_load_is_one_access : ∃ (b : Assembler) (words : List Word) (m : Machine),
    (Op.load .lhu .a0 .a1 (.constant 0x7ffff800) .absent).run.run (.new .none) = .ok () b ∧
      b.words = words.toArray ∧ m.x.get 0 = 0 ∧
        m.memory.read m.pc (instructionSize * words.length) = Bytes.ofWords words ∧
          m.accesses words.length = [⟨false, m.reg .a1 + 0x7ffff800, 2⟩] := by
  have ran : ∃ b, (Op.load .lhu .a0 .a1 (.constant 0x7ffff800) .absent).run.run (.new .none) =
      .ok () b ∧ b.words.size = 4 := ⟨_, rfl, rfl⟩
  obtain ⟨b, ran, size⟩ := ran
  obtain ⟨words, emitted, runs⟩ :=
    (constant_offsets_are_accessed .a1 .absent 0x7ffff800).1 .lhu .a0 ran
  have same : b.words = words.toArray := by
    rw [emitted]
    exact Array.empty_append
  rw [same, List.size_toArray] at size
  have code : (Memory.empty.writeWords 0 words).read 0 (instructionSize * words.length) =
      Bytes.ofWords words := Memory.read_write_words 0 words (by rw [size]; decide)
  refine ⟨b, words, ⟨.zeros, .zeros, 0, Memory.empty.writeWords 0 words⟩, ran, same, rfl, code, ?_⟩
  exact (runs _ rfl code).1

end EntryCode
