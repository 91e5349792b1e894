import EntryCode.Proofs.Machine.Offset

/-!
Loads and stores with the offset in a register. The sum is written to a scratch register, which may
be the one that holds the offset. The zero register is taken for that as well, and loses the sum.
-/

namespace EntryCode

/-- The address of an access with its offset in a register. -/
def Machine.indexed (m : Machine) (base off tmp : Register) : Dword :=
  if tmp = .zero then 0 else m.reg base + m.reg off

/-- The register of an operand, unless that was left out. -/
def Register.given (r : Register) : List Register :=
  if r = .absent then [] else [r]

namespace Pseudo

section Plans
variable {name : String} {moved base off tmp r : Register} {disp : Dword} {isStore : Bool}
  {before : List Instruction}

theorem address_indexed_ok :
    address ⟨name, moved, base, .register off⟩ tmp isStore = .ok (before, r, disp) ↔
      scratch ⟨name, moved, base, .register off⟩ tmp isStore = .ok r ∧
        before = [.arithmetic .add r base off] ∧ disp = 0 := by
  simp only [address, resolve, bind_ok, pure, Except.pure, Except.ok.injEq, Prod.mk.injEq]
  constructor
  · rintro ⟨r, chosen, rfl, rfl, rfl⟩
    exact ⟨chosen, rfl, rfl⟩
  · rintro ⟨chosen, rfl, rfl⟩
    exact ⟨r, chosen, rfl, rfl, rfl⟩

/-- The sum goes to a register that is given for it, or to the destination of a load. -/
theorem scratch_given (chosen : scratch ⟨name, moved, base, .register off⟩ tmp isStore = .ok r) :
    r ∈ (if isStore then [] else [moved]) ++ tmp.given ∧ (r = .zero ↔ tmp = .zero) := by
  rcases scratch_ok.mp chosen with ⟨present, -, rfl⟩ | ⟨rfl, rfl, -, nonzero, rfl⟩
  · simp [Register.given, present]
  · constructor
    · exact List.mem_cons_self
    · constructor
      · intro zero
        exact absurd zero nonzero
      · intro zero
        cases zero

/-- The source of a store and its base are not used up. -/
theorem scratch_apart (chosen : scratch ⟨name, moved, base, .register off⟩ tmp true = .ok r)
    (valid : moved.isValid = true) (valid_base : base.isValid = true) :
    moved.code ≠ r.code ∧ base.code ≠ r.code := by
  rcases scratch_ok.mp chosen with ⟨present, distinct, rfl⟩ | ⟨-, load, -⟩
  · exact Register.distinct_codes distinct (Register.present valid) (Register.present valid_base)
      present
  · cases load

end Plans

section Sum
variable {name : String} {moved base off tmp r : Register} {isStore : Bool} {m : Machine}
  {last : Instruction}

/-- What adding up the address of an access comes to. -/
structure Summed (m k : Machine) (moved base off tmp r : Register) (isStore : Bool) : Prop where
  cleared : k.Zeroed
  memory : k.memory = m.memory
  pc : k.pc = m.pc + 4
  keeps : Machine.Keeps ((if isStore then [] else [moved]) ++ tmp.given) m k
  address : k.reg r + 0 = m.indexed base off tmp
  source : isStore = true → k.reg moved = m.reg moved ∧ k.reg base = m.reg base

theorem summed (chosen : scratch ⟨name, moved, base, .register off⟩ tmp isStore = .ok r)
    (valid : r.isValid = true) (valid_moved : moved.isValid = true)
    (valid_base : base.isValid = true) (cleared : m.Zeroed) :
    Summed m (m.exec (.arithmetic .add r base off)) moved base off tmp r isStore := by
  obtain ⟨member, zero⟩ := scratch_given chosen
  rw [Machine.exec_arithmetic]
  constructor
  case cleared => exact Machine.zeroed_put cleared r _
  case memory => rfl
  case pc => rfl
  case keeps => exact ((Machine.Keeps.refl _ m).put member _).goto _
  case address =>
    refine (BitVec.add_zero _).trans ?_
    rw [Machine.reg_goto, Machine.indexed]
    by_cases lost : tmp = .zero
    · rw [if_pos lost, zero.mpr lost, Machine.put_zero]
      exact cleared
    · rw [if_neg lost, Machine.reg_put_self _ _ _ (Register.code_writable valid (mt zero.mp lost))]
      rfl
  case source =>
    rintro rfl
    obtain ⟨first, second⟩ := scratch_apart chosen valid_moved valid_base
    rw [Machine.reg_goto, Machine.reg_goto, Machine.reg_put_ne _ _ _ _ first,
      Machine.reg_put_ne _ _ _ _ second]
    exact ⟨rfl, rfl⟩

/-- The two words of an access with its offset in a register, executed. -/
theorem indexed_runs (encodable : ∀ i ∈ [Instruction.arithmetic .add r base off, last], i.Encodable)
    (running : last ≠ .ebreak) (cleared : m.Zeroed)
    (code : m.memory.read m.pc (instructionSize *
        ([Instruction.arithmetic .add r base off, last].map Instruction.word).length) =
      Bytes.ofWords ([Instruction.arithmetic .add r base off, last].map Instruction.word)) :
    m.accesses 2 = (last.access? (m.exec (.arithmetic .add r base off))).toList ∧
      m.after 2 = .ok ((m.exec (.arithmetic .add r base off)).exec last) := by
  have here := Linked.of_list_in_memory encodable code
  obtain ⟨adds, later⟩ := Linked.straight_cons.mp (Linked.of_list_placed m.pc _)
  have sum := Linked.runs_one cleared here adds rfl
  have computing : ∀ i ∈ [Instruction.arithmetic .add r base off], i.Computes := by
    rw [List.forall_mem_singleton]
    trivial
  have untouched := Linked.accesses_computing computing cleared here ⟨adds, trivial⟩
  have still : (m.exec (.arithmetic .add r base off)).Zeroed := Machine.zeroed_put cleared r _
  have ended := Linked.accesses_last sum.after still here (Linked.straight_cons.mp later).1 running
  rw [List.length_singleton] at untouched
  rw [untouched, List.nil_append] at ended
  exact ended

end Sum

end Pseudo

/-- Accesses with the offset in a register. Where the operation breaks no rule, executing its two
words makes one access to data, at the sum of the base and the offset as they were before, whichever
of the registers are the same; only where the scratch register is the zero register, it is at zero.
A load leaves its value in the destination, a store the low bytes of the source in memory, and no
other register changes but the scratch register. -/
theorem register_offsets_are_accessed (base off tmp : Register) {a b : Assembler} :
    (∀ (op : LoadOp) (rd : Register),
      (Op.load op rd base (.register off) tmp).run.run a = .ok () b → ∃ words : List Word,
        words.length = 2 ∧ b = { a with words := a.words ++ words.toArray } ∧
        ∀ m : Machine, m.x.get 0 = 0 →
          m.memory.read m.pc (instructionSize * words.length) = Bytes.ofWords words →
            m.accesses 2 = [⟨false, m.indexed base off tmp, op.size⟩] ∧
            ∃ k, m.after 2 = .ok k ∧ k.pc = m.pc + 8 ∧ k.memory = m.memory ∧
              Machine.Keeps (rd :: tmp.given) m k ∧
              k.reg rd = if rd = .zero then 0 else op.value m.memory (m.indexed base off tmp)) ∧
    ∀ (op : StoreOp) (src : Register),
      (Op.store op src base (.register off) tmp).run.run a = .ok () b → ∃ words : List Word,
        words.length = 2 ∧ b = { a with words := a.words ++ words.toArray } ∧
        ∀ m : Machine, m.x.get 0 = 0 →
          m.memory.read m.pc (instructionSize * words.length) = Bytes.ofWords words →
            m.accesses 2 = [⟨true, m.indexed base off tmp, op.size⟩] ∧
            ∃ k, m.after 2 = .ok k ∧ k.pc = m.pc + 8 ∧
              k.memory = m.memory.store (m.indexed base off tmp) op.size (m.reg src) ∧
              Machine.Keeps tmp.given m k ∧ k.reg src = m.reg src ∧ k.reg base = m.reg base := by
  have twice : ∀ pc : Dword, pc + 4 + 4 = pc + 8 := fun pc => BitVec.add_assoc pc 4 4
  constructor
  · intro op rd ran
    obtain ⟨is, planned, encodable, emitted⟩ := Emit.sequence_emitted ran
    obtain ⟨before, r, disp, address, rfl⟩ := Pseudo.load_ok_iff.mp planned
    obtain ⟨chosen, rfl, rfl⟩ := Pseudo.address_indexed_ok.mp address
    refine ⟨_, rfl, emitted, fun m cleared code => ?_⟩
    obtain ⟨valid, valid_base, -⟩ : Instruction.Encodable (.arithmetic .add r base off) :=
      encodable _ (by simp)
    have valid_rd : rd.isValid = true := (encodable (.load op rd r 0) (by simp)).1
    have sum := Pseudo.summed chosen valid valid_rd valid_base cleared
    obtain ⟨accessed, reached⟩ := Pseudo.indexed_runs encodable (by simp) cleared code
    generalize m.exec (.arithmetic .add r base off) = k at sum accessed reached
    rw [Instruction.access?, sum.address] at accessed
    rw [k.exec_load, sum.address, sum.memory, sum.pc, twice] at reached
    refine ⟨accessed, _, reached, rfl, sum.memory, ?_, ?_⟩
    · have keeps : Machine.Keeps (rd :: tmp.given) m k := sum.keeps
      exact (keeps.put List.mem_cons_self _).goto _
    · by_cases zero : rd = .zero
      · rw [if_pos zero, zero, Machine.put_zero]
        exact sum.cleared
      · rw [if_neg zero]
        exact Machine.reg_put_self _ _ _ (Register.code_writable valid_rd zero)
  · intro op src ran
    obtain ⟨is, planned, encodable, emitted⟩ := Emit.sequence_emitted ran
    obtain ⟨before, r, disp, address, rfl⟩ := Pseudo.store_ok_iff.mp planned
    obtain ⟨chosen, rfl, rfl⟩ := Pseudo.address_indexed_ok.mp address
    refine ⟨_, rfl, emitted, fun m cleared code => ?_⟩
    obtain ⟨valid, valid_base, -⟩ : Instruction.Encodable (.arithmetic .add r base off) :=
      encodable _ (by simp)
    have valid_src : src.isValid = true := (encodable (.store op src r 0) (by simp)).2.1
    have sum := Pseudo.summed chosen valid valid_src valid_base cleared
    obtain ⟨accessed, reached⟩ := Pseudo.indexed_runs encodable (by simp) cleared code
    generalize m.exec (.arithmetic .add r base off) = k at sum accessed reached
    obtain ⟨source, unmoved⟩ := sum.source rfl
    rw [Instruction.access?, sum.address] at accessed
    rw [k.exec_store, sum.address, source, sum.pc, twice] at reached
    refine ⟨accessed, _, reached, rfl, ?_, ?_, source, unmoved⟩
    · rw [Machine.memory_goto, Machine.memory_poke, sum.memory]
    · have keeps : Machine.Keeps tmp.given m k := sum.keeps
      exact (keeps.poke _ _ _).goto _

/-- The offset is in the register that takes the sum. -/
theorem offset_in_destination : ∃ (b : Assembler) (words : List Word) (m : Machine),
    (Op.load .lhu .a0 .a1 (.register .a0) .absent).run.run (.new .none) = .ok () b ∧
      b.words = words.toArray ∧ m.x.get 0 = 0 ∧
        m.memory.read m.pc (instructionSize * words.length) = Bytes.ofWords words ∧
          m.reg .a0 = 0x40 ∧ m.accesses 2 = [⟨false, m.reg .a1 + 0x40, 2⟩] := by
  have ran : ∃ b, (Op.load .lhu .a0 .a1 (.register .a0) .absent).run.run (.new .none) = .ok () b :=
    ⟨_, rfl⟩
  obtain ⟨b, ran⟩ := ran
  obtain ⟨words, size, emitted, runs⟩ :=
    (register_offsets_are_accessed .a1 .a0 .absent).1 .lhu .a0 ran
  have same : b.words = words.toArray := by
    rw [emitted]
    exact Array.empty_append
  have code : (Memory.empty.writeWords 0 words).read 0 (instructionSize * words.length) =
      Bytes.ofWords words := Memory.read_write_words 0 words (by rw [size]; decide)
  have cleared : (RegisterFile.zeros.set 10 0x40).get 0 = 0 := by decide
  have offset : (RegisterFile.zeros.set 10 0x40).get 10 = 0x40 := by decide
  refine ⟨b, words, ⟨RegisterFile.zeros.set 10 0x40, .zeros, 0, Memory.empty.writeWords 0 words⟩, ran,
    same, cleared, code, offset, ?_⟩
  exact (runs _ cleared code).1

/-- A sum that is written to the zero register is lost, though nothing is said against it. -/
theorem sum_in_zero_is_lost :
    ∃ (b : Assembler) (words : List Word) (m : Machine),
      (Op.load .ld .a0 .a1 (.register .a2) .zero).run.run (.new .none) = .ok () b ∧
        b.words = words.toArray ∧ m.x.get 0 = 0 ∧
          m.memory.read m.pc (instructionSize * words.length) = Bytes.ofWords words ∧
            m.reg .a1 + m.reg .a2 = 0x200040 ∧ m.accesses 2 = [⟨false, 0, 8⟩] := by
  let is : List Instruction := [.arithmetic .add .zero .a1 .a2, .load .ld .a0 .zero 0]
  let words := is.map Instruction.word
  have code : (Memory.empty.writeWords 0 words).read 0 (instructionSize * words.length) =
      Bytes.ofWords words := Memory.read_write_words 0 words (by decide)
  let m : Machine := ⟨(RegisterFile.zeros.set 11 0x200000).set 12 0x40, .zeros, 0,
    Memory.empty.writeWords 0 words⟩
  have cleared : m.x.get 0 = 0 := by decide
  have encodable : ∀ i ∈ is, i.Encodable := by
    intro i member
    simp only [is, List.mem_cons, List.not_mem_nil, or_false] at member
    rcases member with rfl | rfl
    · exact ⟨rfl, rfl, rfl⟩
    · exact ⟨rfl, rfl, rfl⟩
  have chosen : Pseudo.scratch ⟨"ld", .a0, .a1, .register .a2⟩ .zero false = .ok .zero := rfl
  have sum := Pseudo.summed chosen rfl rfl rfl cleared
  obtain ⟨accessed, -⟩ := Pseudo.indexed_runs encodable (by simp) cleared code
  refine ⟨_, words, m, rfl, rfl, cleared, code, by decide, ?_⟩
  rw [accessed, Instruction.access?, sum.address]
  rfl

end EntryCode
