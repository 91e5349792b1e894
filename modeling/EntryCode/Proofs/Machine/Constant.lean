import EntryCode.Proofs.Assembler.Constant
import EntryCode.Proofs.Machine.Linked

/-!
Constants loaded by a machine. Emitting the plan of a constant never breaks a rule, and executing
it writes the constant to its register and changes nothing else but the program counter.
-/

namespace EntryCode

theorem Constant.Step.exec {rd : Register} (s : Step) (fits : s.Fits) (m : Machine)
    (cleared : m.Zeroed) :
    m.exec (s.instruction rd) = (m.put rd (s.apply (m.reg rd))).goto (m.pc + 4) := by
  cases s with
  | start imm =>
      rw [Step.instruction, m.exec_immediate _ _ _ _ (by simp), Machine.reg_zero cleared]
      simp [ImmediateOp.value, Step.apply]
  | shift amount =>
      have small : amount < 64 := fits
      have whole : (BitVec.ofNat 64 amount).toNat = amount := by
        rw [BitVec.toNat_ofNat]
        omega
      rw [Step.instruction, m.exec_shift, whole]
      rfl
  | _ => rfl

theorem Constant.Step.hidden (rd : Register) (s : Step) : (s.instruction rd).hidden = true := by
  cases s <;> rfl

namespace Linked

variable {c : Linked}

theorem runs_plan {rd : Register} (writable : rd.code ≠ 0) (p : Constant.Plan)
    (fits : ∀ s ∈ p, s.Fits) {m : Machine} (cleared : m.Zeroed) (here : c.InMemory m.memory)
    (placed : c.Straight m.pc (p.map (Constant.Step.instruction rd))) :
    c.Runs p.length m ((m.put rd (p.value (m.reg rd))).goto
      (m.pc + BitVec.ofNat 64 (instructionSize * p.length))) := by
  induction p generalizing m with
  | nil =>
      rw [Constant.Plan.value, List.foldl_nil, Machine.put_reg, List.length_nil, Nat.mul_zero,
        BitVec.add_zero]
      exact .done m
  | cons s p ih =>
      rw [List.map_cons, straight_cons] at placed
      rw [List.forall_mem_cons] at fits
      have first := runs_one cleared here placed.1 (s.hidden rd)
      rw [s.exec fits.1 m cleared] at first
      have later := ih fits.2 (m := (m.put rd (s.apply (m.reg rd))).goto (m.pc + 4))
        (Machine.zeroed_put cleared rd _) here placed.2
      have both := first.trans later
      rw [Machine.reg_goto, Machine.reg_put_self _ _ _ writable, Machine.put_goto,
        Machine.goto_goto, Machine.put_put, Machine.pc_goto, next_address, Nat.add_comm] at both
      exact both

theorem runs_constant {rd : Register} (writable : rd.code ≠ 0) (v : Dword) {m : Machine}
    (cleared : m.Zeroed) (here : c.InMemory m.memory)
    (placed : c.Straight m.pc (Constant.instructions rd v)) :
    c.Runs (Constant.length v) m ((m.put rd v).goto
      (m.pc + BitVec.ofNat 64 (instructionSize * Constant.length v))) := by
  have runs := runs_plan writable (Constant.plan v) (Constant.plan_fits v) cleared here placed
  rwa [Constant.plan_value] at runs

end Linked

theorem Register.code_writable {rd : Register} (valid : rd.isValid = true)
    (writable : rd ≠ .zero) : rd.code ≠ 0 := by
  intro zero
  apply writable
  have back := rd.of_field_code valid
  rw [zero] at back
  exact back.symm

theorem Register.ne_zero {r : Register} (writable : r.code ≠ 0) : r ≠ .zero := by
  rintro rfl
  exact writable rfl

def Linked.ofList (base : Dword) (is : List Instruction) : Linked where
  origin := base
  target _ := base
  lies addr i := ∃ k, is[k]? = some i ∧ addr = base + BitVec.ofNat 64 (instructionSize * k)
  watched _ := false

theorem Linked.of_list_straight (base : Dword) (before after : List Instruction) :
    (Linked.ofList base (before ++ after)).Straight
      (base + BitVec.ofNat 64 (instructionSize * before.length)) after := by
  induction after generalizing before with
  | nil => trivial
  | cons i rest ih =>
      refine straight_cons.mpr ⟨⟨before.length, by simp, rfl⟩, ?_⟩
      have later := ih (before ++ [i])
      rw [List.append_assoc, List.length_append, List.length_singleton, Nat.mul_add,
        BitVec.ofNat_add, ← BitVec.add_assoc] at later
      exact later

theorem Linked.of_list_in_memory {is : List Instruction} {base : Dword} {mem : Memory}
    (encodable : ∀ i ∈ is, i.Encodable)
    (code : mem.read base (instructionSize * (is.map Instruction.word).length) =
      Bytes.ofWords (is.map Instruction.word)) : (Linked.ofList base is).InMemory mem := by
  rintro _ i ⟨k, found, rfl⟩
  refine ⟨encodable i (List.mem_of_getElem? found), ?_⟩
  exact Memory.load_word base _ code k i.word (by rw [List.getElem?_map, found]; rfl)

theorem Linked.of_list_placed (base : Dword) (is : List Instruction) :
    (Linked.ofList base is).Straight base is := by
  have placed := Linked.of_list_straight base [] is
  rwa [List.nil_append, List.length_nil, Nat.mul_zero, BitVec.add_zero] at placed

/-- Every constant is loaded exactly, into any register but the zero register: the emission breaks
no rule, and the words write the constant and lead past themselves. -/
theorem constants_are_loaded_exactly (rd : Register) (valid : rd.isValid = true)
    (writable : rd ≠ .zero) (v : Dword) :
    (∀ a : Assembler, a.flushed = false → ∃ words : List Word, words.length = Constant.length v ∧
      (Op.constant rd v).run.run a = .ok () { a with words := a.words ++ words.toArray } ∧
      ∀ m : Machine, m.x.get 0 = 0 →
        m.memory.read m.pc (instructionSize * words.length) = Bytes.ofWords words →
          m.after words.length = .ok { m with
            x := m.x.set rd.code v
            pc := m.pc + BitVec.ofNat 64 (instructionSize * words.length) }) ∧
      (Field.fitsSigned v 12 = true → Constant.length v = 1) ∧
      (Field.fitsSigned v 32 = true → Constant.length v ≤ 2) ∧ Constant.length v ≤ 11 := by
  refine ⟨?_, Constant.length_short v, Constant.length_word v, Constant.length_bound v⟩
  intro a unflushed
  have fine := Constant.instructions_fine rd v valid a.extensions
  have nonzero := Register.code_writable valid writable
  refine ⟨(Constant.instructions rd v).map Instruction.word,
    by rw [List.length_map, Constant.length_instructions], ?_, ?_⟩
  · refine Emit.sequence_ok.mpr ⟨_, Constant.load_ok rd v writable, ?_⟩
    exact Emit.instructions_run _ fine unflushed
  · intro m cleared code
    have words : (Linked.ofList m.pc (Constant.instructions rd v)).InMemory m.memory := by
      rintro _ i ⟨k, found, rfl⟩
      refine ⟨(fine i (List.mem_of_getElem? found)).1, ?_⟩
      exact Memory.load_word m.pc _ code k i.word (by rw [List.getElem?_map, found]; rfl)
    have placed := Linked.of_list_straight m.pc [] (Constant.instructions rd v)
    rw [List.length_nil, Nat.mul_zero, BitVec.add_zero] at placed
    have runs := Linked.runs_constant nonzero v cleared words placed
    rw [List.length_map, Constant.length_instructions, runs.after, Machine.put,
      RegisterFile.write, if_neg nonzero]
    rfl

/-- At this constant the upper immediate carries into the sign. -/
theorem carry_into_sign_is_loaded :
    Register.a0.isValid = true ∧ Register.a0 ≠ .zero ∧
      ∃ m : Machine, m.after 2 = .ok { m with x := m.x.set 10 0x7ffff800, pc := 8 } := by
  refine ⟨rfl, by decide, ?_⟩
  obtain ⟨words, length, -, runs⟩ :=
    (constants_are_loaded_exactly .a0 rfl (by decide) 0x7ffff800).1 (.new .none) rfl
  have two : words.length = 2 := length.trans (by decide)
  refine ⟨⟨.zeros, .zeros, 0, Memory.empty.writeWords 0 words⟩, ?_⟩
  rw [two] at runs
  refine runs _ rfl ?_
  rw [← two]
  exact Memory.read_write_words 0 words (by rw [two]; decide)

end EntryCode
