import EntryCode.Proofs.Interpreter.Entrance
import EntryCode.Proofs.Interpreter.Result
import EntryCode.Proofs.Interpreter.Totality

/-!
The optional extensions do not show. What a result handler answers, and what a scaled addition
leaves, can be said without them; they only decide which instructions get there.
-/

namespace EntryCode

open EntryCode.Frame Pinned Machine

/-- Machines that agree on registers, program counter and memory are the same. -/
theorem Machine.ext_registers {m k : Machine} (registers : ∀ r : Register, m.reg r = k.reg r)
    (floats : m.f = k.f) (here : m.pc = k.pc) (memory : m.memory = k.memory) : m = k := by
  have integers : m.x = k.x := by
    apply RegisterFile.ext_get
    intro i
    have numbered := registers ⟨i.setWidth 8⟩
    have code : (⟨i.setWidth 8⟩ : Register).code = i := by
      apply BitVec.eq_of_toNat_eq
      have small := i.isLt
      simp [Register.code]
    rwa [reg, reg, code] at numbered
  cases m
  cases k
  cases integers
  cases floats
  cases here
  cases memory
  rfl

theorem Linked.Straight.runs {c : Linked} {m : Machine} (is : List Instruction)
    (cleared : m.Zeroed) (here : c.InMemory m.memory) (placed : c.Straight m.pc is)
    (falls : is.all Instruction.falls = true) (hidden : is.all Instruction.hidden = true) :
    c.Runs is.length m (m.performs (is.map .instruction)) ∧
      (m.performs (is.map .instruction)).pc =
        m.pc + BitVec.ofNat 64 (instructionSize * is.length) := by
  induction is generalizing m with
  | nil => exact ⟨.done m, (BitVec.add_zero _).symm⟩
  | cons i is ih =>
      rw [List.all_cons, Bool.and_eq_true] at falls hidden
      obtain ⟨lies, later⟩ := straight_cons.mp placed
      have silent : i.silent = true := by
        cases i <;> first | rfl | exact absurd hidden.1 Bool.false_ne_true
      have memory : (m.exec i).memory = m.memory :=
        m.memory_performs [.instruction i]
          (by rw [List.all_cons, List.all_nil, Bool.and_true]; exact silent)
      have next : (m.exec i).pc = m.pc + 4 := (m.pc_exec i).trans (i.next_of_falls m falls.1)
      obtain ⟨rest, last⟩ := ih (zeroed_exec cleared i) (memory ▸ here) (next ▸ later) falls.2 hidden.2
      have first := runs_one cleared here lies hidden.1
      rw [List.length_cons, List.map_cons, performs_instruction, ← next_address, ← next]
      exact ⟨Nat.add_comm is.length 1 ▸ first.trans rest, last⟩

namespace Exit

def answered (m : Machine) (t : BasicType) : Machine :=
  (m.put .a0 (converted m.memory (m.reg .a0) t)).goto (m.reg .ra)

theorem answered_of_keeps {m k : Machine} {t : BasicType} (back : k.pc = m.reg .ra)
    (keeps : Keeps [.a0] m k) (memory : k.memory = m.memory)
    (value : k.reg .a0 = converted m.memory (m.reg .a0) t) : k = answered m t := by
  refine Machine.ext_registers ?_ keeps.floats back memory
  intro r
  rw [answered, reg_goto]
  by_cases same : r.code = Register.a0.code
  · rw [reg, same, reg_put, if_pos ⟨same, by decide⟩]
    exact value
  · rw [reg_put_ne _ _ _ _ same]
    exact keeps.registers r (by simpa using same)

end Exit

namespace Fragment

/-- The registers of the scaled additions that are generated: result, index, base and what is
lost. -/
def scalings : List (Register × Register × Register × Register) :=
  [(locals, .t2, stack, .t1), (.t0, .t0, dispatch, .t1)]

def Scales (e : Extensions) (rd index base tmp : Register) : Prop :=
  ∀ a : Assembler, a.flushed = false → a.extensions = e → ∃ words : List Word,
    (Program.run (scaledAdd e rd index base tmp)).run a =
      .ok () { a with words := a.words ++ words.toArray } ∧
    ∀ m : Machine, m.x.get 0 = 0 →
      m.memory.read m.pc (instructionSize * words.length) = Bytes.ofWords words →
      ∃ k, m.after words.length = .ok k ∧ k.reg rd = m.reg base + 8 * m.reg index ∧
        Keeps [tmp, rd] m k ∧ k.memory = m.memory ∧
        k.pc = m.pc + BitVec.ofNat 64 (instructionSize * words.length)

def scaling (e : Extensions) (rd index base tmp : Register) : List Instruction :=
  if e.has .zba then [.arithmetic .sh3add rd index base]
  else [.shift .slli tmp index 3, .arithmetic .add rd base tmp]

theorem scaled_add_eq (e : Extensions) (rd index base tmp : Register) :
    scaledAdd e rd index base tmp = (scaling e rd index base tmp).map .instruction := by
  rw [scaledAdd, scaling]
  split <;> rfl

theorem shift_three (v : Dword) : v <<< 3 = 8 * v := by
  apply BitVec.eq_of_toNat_eq
  rw [BitVec.toNat_shiftLeft, BitVec.toNat_mul, Nat.shiftLeft_eq, Nat.mul_comm]
  rfl

section Scaling
variable {e : Extensions} {rd index base tmp : Register}

theorem scaling_adds (m : Machine) (target : rd.code ≠ 0) (scratch : tmp.code ≠ 0)
    (apart : base.code ≠ tmp.code) :
    (m.performs ((scaling e rd index base tmp).map .instruction)).reg rd =
      m.reg base + 8 * m.reg index := by
  rw [scaling, ← shift_three]
  split
  · exact reg_put_self _ _ _ target
  · simp (disch := assumption) only [List.map_cons, List.map_nil, performs_instruction,
      performs_nil, exec_shift, exec_arithmetic, reg_goto, reg_put_self, reg_put_ne,
      RegisterOp.value, ShiftOp.value]
    rfl

theorem scaling_writes : ((scaling e rd index base tmp).map Op.instruction).all
    (Op.writes [tmp, rd]) = true := by
  rw [scaling]
  split <;> simp [Op.writes, Instruction.writes]

/-- With writable registers, of which the base is not lost, and with whatever extensions. -/
theorem scaled_addition
    (valid : ∀ r ∈ [rd, index, base, tmp], r.isValid = true)
    (target : rd.code ≠ 0) (scratch : tmp.code ≠ 0) (apart : base.code ≠ tmp.code) :
    Scales e rd index base tmp := by
  rintro a unflushed rfl
  have fine : ∀ i ∈ scaling a.extensions rd index base tmp, i.Encodable := by
    simp only [List.forall_mem_cons] at valid
    obtain ⟨result, count, start, lost, -⟩ := valid
    rw [scaling]
    split
    · simp [Instruction.Encodable, result, count, start]
    · simp [Instruction.Encodable, result, count, start, lost]
  have available : ∀ i ∈ scaling a.extensions rd index base tmp, i.Available a.extensions := by
    rw [scaling]
    split
    · next has =>
        rintro i member what needed asked
        cases List.mem_singleton.mp member
        cases asked
        exact has
    · simp [Instruction.Available, Instruction.requirement?]
  refine ⟨(scaling a.extensions rd index base tmp).map Instruction.word, ?_, ?_⟩
  · have ran := Emit.instructions_run _ (fun i member => ⟨fine i member, available i member⟩)
      unflushed
    rw [scaled_add_eq, Program.run]
    change EStateM.run (forM (List.map Op.instruction _) Op.run) a = _
    rw [List.forM_map]
    exact ran
  · intro m cleared code
    have here := Linked.of_list_in_memory fine code
    have placed := Linked.of_list_placed m.pc (scaling a.extensions rd index base tmp)
    obtain ⟨runs, last⟩ := placed.runs _ cleared here
      (by rw [scaling]; split <;> rfl) (by rw [scaling]; split <;> rfl)
    rw [List.length_map]
    exact ⟨_, runs.after, scaling_adds m target scratch apart, keeps_performs _ _ scaling_writes,
      memory_performs _ (by rw [scaling]; split <;> rfl), last⟩

end Scaling

end Fragment

/-- Whatever the extensions are, a result handler of an accepted configuration answers the
converted result and changes nothing else, without a store or a call, and a scaled addition leaves
the same sum. -/
theorem conversions_ignore_extensions (cfg : Config) (accepted : cfg.problem? = none)
    (e : Extensions) :
    (∃ made, Interpreter.blob cfg e = .ok made ∧ ∀ (base : Dword) (t : BasicType) {σ : Type}
      (env : Environment σ) (p : Progress σ), p.machine.x.get 0 = 0 →
        p.machine.memory.read base made.code.length = made.code →
        p.machine.pc = (made.installed e base).resultHandler t →
        p.machine.reg .ra &&& 1 = 0 →
        (∀ x, (made.installed e base).Covers x → env.trap x = none) →
        ∃ q, Goes env (fun _ => true) p [] q ∧ q.machine = Exit.answered p.machine t) ∧
      ∀ s ∈ Fragment.scalings, Fragment.Scales e s.1 s.2.1 s.2.2.1 s.2.2.2 := by
  constructor
  · obtain ⟨made, blobbed, image⟩ := Interpreter.blob_image accepted e
    refine ⟨made, blobbed, ?_⟩
    intro base t σ env p cleared loaded here even untrapped
    obtain ⟨c, image⟩ := image base
    -- With every address watched, the code cannot store at all.
    have watching := image.watching fun _ => true
    have stands : (c.watching fun _ => true).Stands p.machine
        (Exit.resultHandler e t ++ []) := by
      refine ⟨cleared, watching.loaded _ loaded, ?_⟩
      rw [List.append_nil, here]
      exact watching.converts t
    obtain ⟨k, leads, back, keeps, memory, value⟩ := Exit.result_handler_runs e t stands even
    have quiet : (c.watching fun _ => true).Quiet env := fun addr i lies =>
      untrapped addr (watching.inside addr ⟨addr, i, lies, 0, by omega, (BitVec.add_zero _).symm⟩)
    obtain ⟨q, goes, there⟩ := (Goes.done p).leads quiet (fun _ same => same) leads
    exact ⟨q, goes, there.trans (Exit.answered_of_keeps back keeps memory value)⟩
  · simp only [Fragment.scalings, List.forall_mem_cons]
    refine ⟨?_, ?_, nofun⟩
    · exact Fragment.scaled_addition (by decide) (by decide) (by decide) (by decide)
    · exact Fragment.scaled_addition (by decide) (by decide) (by decide) (by decide)

/-- Of a byte only the low bits count; here without the extension that has an instruction for it. -/
theorem byte_result_is_extended : Config.extreme.problem? = none ∧
    ∃ made m q, Interpreter.blob .extreme .none = .ok made ∧
      m.pc = (made.installed .none 0x40000000).resultHandler .byte ∧ m.reg .a0 = 0x180 ∧
      Goes (⟨fun _ => none, fun _ u => u⟩ : Environment Unit) (fun _ => true) ⟨m, 0, ()⟩ [] q ∧
      q.machine.pc = 0x78000000 ∧ q.machine.reg .a0 = -128 := by
  have accepted : Config.extreme.problem? = none := by decide
  obtain ⟨⟨made, blobbed, handlers⟩, -⟩ := conversions_ignore_extensions .extreme accepted .none
  let loaded := Memory.empty.write 0x40000000 made.code
  let handler := (made.installed .none 0x40000000).resultHandler .byte
  let m : Machine := ((⟨.zeros, .zeros, handler, loaded⟩ : Machine).put .ra 0x78000000).put .a0 0x180
  have short : made.code.length ≤ 2 ^ 64 :=
    (Interpreter.blob_short accepted blobbed).trans (by decide)
  have link : m.reg .ra = 0x78000000 := by
    simp (disch := decide) only [m, reg_put_ne, reg_put_self]
  have result : m.reg .a0 = 0x180 := by
    simp (disch := decide) only [m, reg_put_self]
  have zero : m.reg .zero = 0 := by
    simp (disch := decide) only [m, reg_put_ne]
    rfl
  obtain ⟨q, goes, same⟩ := handlers 0x40000000 .byte ⟨fun _ => none, fun _ u => u⟩ ⟨m, 0, ()⟩ zero
    (Memory.read_write_same _ _ short) rfl (by rw [link]; decide) (fun _ _ => rfl)
  refine ⟨accepted, made, m, q, blobbed, rfl, result, goes, ?_, ?_⟩
  · rw [same, Exit.answered, pc_goto, link]
  · rw [same, Exit.answered, reg_goto, reg_put_self _ _ _ (by decide), Exit.converted, result]
    rfl

end EntryCode
