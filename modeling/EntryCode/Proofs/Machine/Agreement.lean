import EntryCode.Machine.Run
import EntryCode.Proofs.Assembler.Operation
import EntryCode.Proofs.Machine.Memory
import EntryCode.Proofs.Machine.State

/-!
The assembler and the machine agree. Every operation of one word that the assembler accepts is
executed by the machine as the instruction says: it never faults, changes at most the one register
or the one range of memory that it names, and goes on where it says.
-/

namespace EntryCode

/-- The instruction of an operation that emits one word, where the assembler stands at `a`. -/
def Op.single? (a : Assembler) : Op → Option Instruction
  | .instruction i => some i
  | .branch c rs1 rs2 l => some (.branch c rs1 rs2 (a.displacement l a.pos))
  | .branchTo c rs1 rs2 target => some (.branch c rs1 rs2 (target - BitVec.ofNat 64 a.pos))
  | .jump rd l => some (.jump rd (a.displacement l a.pos))
  | .jumpTo rd target => some (.jump rd (target - BitVec.ofNat 64 a.pos))
  | _ => none

theorem Op.single_emitted {op : Op} {a b : Assembler} {i : Instruction}
    (single : op.single? a = some i) (ran : op.run.run a = .ok () b) :
    i.Encodable ∧ b.words = a.words.push i.word := by
  cases op with
  | instruction =>
      cases single
      obtain ⟨-, encodable, -, rfl⟩ := Emit.instruction_ok.mp ran
      exact ⟨encodable, rfl⟩
  | branch c rs1 rs2 l =>
      cases single
      obtain ⟨-, encodable, -, rfl⟩ := Emit.branch_ok.mp ran
      refine ⟨encodable, ?_⟩
      rw [Assembler.push, Assembler.words_await]
  | branchTo c rs1 rs2 target =>
      cases single
      obtain ⟨-, encodable, -, rfl⟩ := Emit.instruction_ok.mp ((Emit.branch_to_run ..).symm.trans ran)
      exact ⟨encodable, rfl⟩
  | jump rd l =>
      cases single
      obtain ⟨-, encodable, -, rfl⟩ := Emit.jump_ok.mp ran
      refine ⟨encodable, ?_⟩
      rw [Assembler.push, Assembler.words_await]
  | jumpTo rd target =>
      cases single
      obtain ⟨-, encodable, -, rfl⟩ := Emit.instruction_ok.mp ((Emit.jump_to_run ..).symm.trans ran)
      exact ⟨encodable, rfl⟩
  | _ => cases single

/-- What an effect leaves of a machine, part by part. The zero register is never written. -/
def Effect.Leaves (m k : Machine) : Effect → Prop
  | .none | .fence .. => k.x = m.x ∧ k.f = m.f ∧ k.memory = m.memory
  | .setRegister rd v =>
    (∀ r, k.x.get r = if r = rd ∧ rd ≠ 0 then v else m.x.get r) ∧ k.f = m.f ∧ k.memory = m.memory
  | .setFloat fd v =>
    k.x = m.x ∧ (∀ r, k.f.get r = if r = fd then v else m.f.get r) ∧ k.memory = m.memory
  | .store addr size v =>
    k.x = m.x ∧ k.f = m.f ∧ ∀ c, k.memory.byte c =
      if Memory.Covers addr size c then (v >>> (8 * (c - addr).toNat)).setWidth 8
      else m.memory.byte c

namespace Instruction

/-- No store is wider than a doubleword. -/
theorem store_short {i : Instruction} {m : Machine} {addr v : Dword} {size : Nat}
    (stores : i.effect m = .store addr size v) : size ≤ 8 := by
  cases i with
  | immediate op => cases op <;> cases stores
  | store op => cases op <;> cases stores <;> decide
  | storeFloat width => cases width <;> cases stores <;> decide
  | _ => cases stores

theorem exec_leaves (i : Instruction) (m : Machine) : (i.effect m).Leaves m (m.exec i) := by
  cases effect : i.effect m with
  | none | fence =>
      simp only [Machine.exec, effect]
      exact ⟨rfl, rfl, rfl⟩
  | setRegister rd v =>
      simp only [Machine.exec, effect]
      exact ⟨fun r => m.x.get_write rd r v, rfl, rfl⟩
  | setFloat fd v =>
      simp only [Machine.exec, effect]
      exact ⟨rfl, fun r => m.f.get_set fd r v, rfl⟩
  | store addr size v =>
      have short := store_short effect
      simp only [Machine.exec, effect]
      exact ⟨rfl, rfl, fun c => m.memory.byte_store addr c size v (by omega)⟩

end Instruction

/-- What the instructions that stand for others do to a machine whose zero register holds zero. -/
structure Pseudo.Documented (m : Machine) : Prop where
  nop : Pseudo.nop.effect m = .setRegister 0 0
  mv : ∀ rd rs, (Pseudo.mv rd rs).effect m = .setRegister rd.code (m.reg rs)
  not : ∀ rd rs, (Pseudo.not rd rs).effect m = .setRegister rd.code (~~~m.reg rs)
  neg : ∀ rd rs, (Pseudo.neg rd rs).effect m = .setRegister rd.code (-m.reg rs)
  snez : ∀ rd rs, (Pseudo.snez rd rs).effect m =
    .setRegister rd.code (if m.reg rs = 0 then 0 else 1)
  seqz : ∀ rd rs, (Pseudo.seqz rd rs).effect m =
    .setRegister rd.code (if m.reg rs = 0 then 1 else 0)
  sextW : ∀ rd rs, (Pseudo.sextW rd rs).effect m =
    .setRegister rd.code (((m.reg rs).setWidth 32).signExtend 64)
  jr : ∀ rs, (Pseudo.jr rs).effect m = .setRegister 0 (m.pc + 4) ∧
    (Pseudo.jr rs).next m = m.reg rs &&& ~~~1
  fabs : ∀ fd fs, (Pseudo.fabs fd fs).effect m =
    .setFloat fd.code (m.freg fs &&& ~~~Machine.signBit)
  beqz : ∀ rs disp, (Instruction.branch .eq rs .zero disp).next m =
    m.pc + if m.reg rs = 0 then disp else 4
  bnez : ∀ rs disp, (Instruction.branch .ne rs .zero disp).next m =
    m.pc + if m.reg rs = 0 then 4 else disp

theorem Pseudo.documented {m : Machine} (cleared : m.x.get 0 = 0) : Pseudo.Documented m := by
  have zero : m.reg .zero = 0 := Machine.reg_zero cleared
  have below : ∀ v : Dword, (0 : Dword).ult v = !decide (v = 0) := by
    intro v
    rw [Bool.eq_iff_iff]
    simp [BitVec.ult, BitVec.toNat_eq, Nat.pos_iff_ne_zero]
  constructor
  · exact congrArg (Effect.setRegister 0) (by rw [zero]; rfl)
  · intro rd rs
    exact congrArg (Effect.setRegister rd.code) (BitVec.add_zero _)
  · intro rd rs
    exact congrArg (Effect.setRegister rd.code) (BitVec.xor_allOnes)
  · intro rd rs
    exact congrArg (Effect.setRegister rd.code) (by rw [zero]; exact BitVec.zero_sub _)
  · intro rd rs
    refine congrArg (Effect.setRegister rd.code) ?_
    rw [zero, RegisterOp.value, below, Machine.flag]
    by_cases none : m.reg rs = 0 <;> simp [none]
  · intro rd rs
    refine congrArg (Effect.setRegister rd.code) ?_
    by_cases none : m.reg rs = 0
    · rw [none]
      rfl
    · have large : (m.reg rs).ult 1 = false := by
        rw [Bool.eq_false_iff]
        intro less
        exact none (BitVec.eq_of_toNat_eq (Nat.lt_one_iff.mp (by simpa [BitVec.ult] using less)))
      rw [ImmediateOp.value, large, if_neg none]
      rfl
  · intro rd rs
    have same : m.reg rs + 0 = m.reg rs := BitVec.add_zero _
    refine congrArg (Effect.setRegister rd.code) ?_
    rw [ImmediateOp.value, same]
    rfl
  · intro rs
    exact ⟨rfl, congrArg (· &&& ~~~1) (BitVec.add_zero (m.reg rs))⟩
  · intro fd fs
    refine congrArg (Effect.setFloat fd.code) ?_
    apply BitVec.eq_of_getLsbD_eq
    intro k inside
    grind
  · intro rs disp
    rw [Instruction.next, zero, Condition.holds_eq]
    simp only [decide_eq_true_eq]
  · intro rs disp
    rw [Instruction.next, zero, Condition.holds_ne]
    by_cases none : m.reg rs = 0 <;> simp [none]

/-- The assembler and the machine agree on every operation of one word. A breakpoint stops the run
and changes nothing; any other word does what its instruction says, and nothing else. -/
theorem emitted_words_do_what_they_say {op : Op} {a b : Assembler} {i : Instruction}
    (single : op.single? a = some i) (ran : op.run.run a = .ok () b) :
    (∃ w, b.words = a.words.push w ∧ ∀ {σ : Type} (env : Environment σ) (limit : Nat)
      (p : Progress σ), p.machine.x.get 0 = 0 → env.trap p.machine.pc = none → p.steps < limit →
      p.machine.fetch = w →
      (i = .ebreak →
        p.round env limit = ({ p with steps := p.steps + 1 }, some (.stopped .breakpoint))) ∧
      (i ≠ .ebreak → ∃ k,
        p.round env limit =
          (⟨k, p.steps + 1, env.observe (i.effect p.machine) p.memo⟩, none) ∧
        k.pc = i.next p.machine ∧ (i.effect p.machine).Leaves p.machine k)) ∧
    ∀ m : Machine, m.x.get 0 = 0 → Pseudo.Documented m := by
  obtain ⟨encodable, words⟩ := Op.single_emitted single ran
  refine ⟨⟨i.word, words, ?_⟩, fun m => Pseudo.documented⟩
  intro σ env limit p cleared untrapped left fetched
  constructor
  · rintro rfl
    have stops : p.machine.advance = .error .breakpoint := by
      rw [Machine.advance, fetched]
      rfl
    simp only [Progress.round, untrapped, if_neg (Nat.not_le.mpr left), stops]
  · intro running
    refine ⟨p.machine.exec i, ?_, p.machine.pc_exec i, i.exec_leaves p.machine⟩
    have steps := p.machine.advance_exec cleared i encodable running fetched
    simp only [Progress.round, untrapped, if_neg (Nat.not_le.mpr left), steps]

/-- A jump through the register that takes its return address: the old contents lead. -/
theorem jump_through_link_register :
    (Op.instruction (.immediate .jalr .ra .ra 6)).run.run (.new .none) =
      .ok () (.push (.new .none) 0x006080e7) ∧
    ∃ (p q : Progress Unit), p.machine.reg .ra = 0x1001 ∧ p.machine.pc = 0x2000 ∧
      p.round ⟨fun _ => none, fun _ u => u⟩ 1 = (q, none) ∧ q.machine.pc = 0x1006 ∧
      q.machine.reg .ra = 0x2004 := by
  have ran : (Op.instruction (.immediate .jalr .ra .ra 6)).run.run (.new .none) =
      .ok () (.push (.new .none) 0x006080e7) := by cbv
  obtain ⟨⟨w, words, executes⟩, -⟩ := emitted_words_do_what_they_say rfl ran
  obtain rfl : w = 0x006080e7 := by simpa [Assembler.push, Assembler.new] using words.symm
  let memory := Memory.empty.writeWords 0x2000 [0x006080e7]
  have fetched : (memory.load 0x2000 4).setWidth 32 = 0x006080e7 :=
    Memory.load_word 0x2000 [0x006080e7] (Memory.read_write_words _ _ (by decide)) 0 _ rfl
  obtain ⟨k, round, pc, registers, -⟩ := (executes ⟨fun _ => none, fun _ u => u⟩ 1
    ⟨⟨RegisterFile.zeros.set 1 0x1001, .zeros, 0x2000, memory⟩, 0, ()⟩ (by decide) rfl (by decide)
    fetched).2 (by decide)
  refine ⟨ran, _, _, by decide, rfl, round, ?_, ?_⟩
  · rw [pc]
    decide
  · exact (registers 1).trans (by decide)

end EntryCode
