import EntryCode.Proofs.Assembler.Sequence

/-!
Words of an extension are emitted only where the extension is there. No run of the assembler gets
around this: not by operations that break a rule half-way, after which the run goes on with what
they left, and not by labels, since sending a branch elsewhere never makes it another instruction.
-/

namespace EntryCode

namespace Format

variable {e : Extensions} {w sent : Word} {dest pos : Dword}

/-- What has to be among the extensions for a word to be there. -/
structure Gated (e : Extensions) (w : Word) : Prop where
  scaledAdd : opcode w = opRegister → funct3 w = 6 → funct7 w = 0x10 → e.has .zba = true
  extendByte : opcode w = opImmediate → funct3 w = 1 → immediateBits w = 0x604 →
    e.has .zbb = true
  extendHalf : opcode w = opImmediate → funct3 w = 1 → immediateBits w = 0x605 →
    e.has .zbb = true
  zeroExtendHalf : opcode w = opRegister32 → funct3 w = 4 → funct7 w = 0x04 → rs2 w = 0 →
    e.has .zbb = true
  float : opcode w = opFloat → e.has .d = true

theorem gated_of_opcode (other : opcode w ∉ [opRegister, opImmediate, opRegister32, opFloat]) :
    Gated e w := by
  simp only [List.mem_cons, List.not_mem_nil, or_false, not_or] at other
  obtain ⟨register, immediate, register32, float⟩ := other
  exact ⟨(absurd · register), (absurd · immediate), (absurd · immediate), (absurd · register32),
    (absurd · float)⟩

theorem gated_immediate (immediate : opcode w = opImmediate)
    (plain : funct3 w = 1 → immediateBits w ≠ 0x604 ∧ immediateBits w ≠ 0x605) : Gated e w := by
  constructor
  · intro register
    exact absurd (immediate.symm.trans register) (by decide)
  · intro _ shift bits
    exact absurd bits (plain shift).1
  · intro _ shift bits
    exact absurd bits (plain shift).2
  · intro register32
    exact absurd (immediate.symm.trans register32) (by decide)
  · intro float
    exact absurd (immediate.symm.trans float) (by decide)

theorem gated_register (register : opcode w = opRegister)
    (scaled : funct3 w = 6 → funct7 w = 0x10 → e.has .zba = true) : Gated e w := by
  constructor
  · intro _
    exact scaled
  · intro immediate
    exact absurd (register.symm.trans immediate) (by decide)
  · intro immediate
    exact absurd (register.symm.trans immediate) (by decide)
  · intro register32
    exact absurd (register.symm.trans register32) (by decide)
  · intro float
    exact absurd (register.symm.trans float) (by decide)

theorem gated_of_has (other : opcode w ≠ opRegister) (zbb : e.has .zbb = true)
    (float : opcode w ≠ opFloat) : Gated e w :=
  ⟨(absurd · other), fun _ _ _ => zbb, fun _ _ _ => zbb, fun _ _ _ _ => zbb, (absurd · float)⟩

theorem gated_float (float : opcode w = opFloat) (d : e.has .d = true) : Gated e w := by
  constructor
  · intro register
    exact absurd (float.symm.trans register) (by decide)
  · intro immediate
    exact absurd (float.symm.trans immediate) (by decide)
  · intro immediate
    exact absurd (float.symm.trans immediate) (by decide)
  · intro register32
    exact absurd (float.symm.trans register32) (by decide)
  · intro _
    exact d

/-- A word that was sent elsewhere is still a branch or a jump. -/
theorem retargeted_gated (retargeted : retarget dest w pos = .ok sent) : Gated e sent := by
  rw [retarget] at retargeted
  apply gated_of_opcode
  split at retargeted
  · next branch =>
      cases field : branchField (dest - pos) with
      | error v =>
          rw [field] at retargeted
          cases retargeted
      | ok disp =>
          rw [field] at retargeted
          cases retargeted
          rw [opcode_branch_format, branch]
          decide
  · split at retargeted
    · next jump =>
        cases field : jumpField (dest - pos) with
        | error v =>
            rw [field] at retargeted
            cases retargeted
        | ok disp =>
            rw [field] at retargeted
            cases retargeted
            rw [opcode_jump_format, jump]
            decide
    · cases retargeted

end Format

section Instructions
variable {e : Extensions}

theorem ShiftOp.not_extend (op : ShiftOp) (n : BitVec 6) (left : op.funct3 = 1) :
    op.high ++ n ≠ 0x604#12 ∧ op.high ++ n ≠ 0x605#12 := by
  -- Of the shifts only those to the left share a code with extensions, and they set no high bit.
  have plain : op.high = 0 := by
    cases op with
    | srai => cases left
    | _ => rfl
  have small : (op.high ++ n).toNat < 64 := by
    rw [plain, BitVec.toNat_append]
    simpa using n.isLt
  constructor <;>
  · intro same
    rw [same] at small
    exact absurd small (by decide)

theorem Instruction.available_of_ungated {i : Instruction} (ungated : i.requirement? = none) :
    i.Available e := by
  intro what needed asked
  rw [ungated] at asked
  cases asked

open Format in
/-- The word of an instruction needs no more than the instruction does. -/
theorem Instruction.gated {i : Instruction} (available : i.Available e) : Gated e i.word := by
  cases i with
  | immediate op rd rs imm =>
      cases op with
      | addiw | jalr =>
          apply gated_of_opcode
          rw [word, opcode_short_immediate]
          decide
      | _ =>
          apply gated_immediate (opcode_short_immediate ..)
          rw [funct3_short_immediate]
          intro shift
          exact absurd shift (by decide)
  | shift op rd rs n =>
      apply gated_immediate (opcode_short_immediate ..)
      rw [funct3_short_immediate, bits_short_immediate]
      exact op.not_extend _
  | arithmetic op rd rs1 rs2 =>
      apply gated_register (opcode_three_register ..)
      rw [funct3_three_register, funct7_three_register]
      cases op with
      | sh3add =>
          intro _ _
          exact available _ _ rfl
      | or =>
          intro _ scaled
          exact absurd scaled (by decide)
      | _ =>
          intro scaled
          exact absurd scaled (by decide)
  | extend op rd rs =>
      have zbb : e.has .zbb = true := available _ _ rfl
      cases op with
      | zextH =>
          apply gated_of_has _ zbb <;>
          · rw [word, ExtendOp.format, opcode_three_register]
            decide
      | _ =>
          apply gated_of_has _ zbb <;>
          · rw [word, ExtendOp.format, opcode_short_immediate]
            decide
  | sqrt | signXor | moveBits =>
      exact gated_float (opcode_three_register ..) (available _ _ rfl)
  | upper op rd imm =>
      apply gated_of_opcode
      rw [word, opcode_upper_immediate]
      cases op <;> decide
  | load | loadFloat | fence =>
      apply gated_of_opcode
      rw [word, opcode_short_immediate]
      decide
  | store | storeFloat =>
      apply gated_of_opcode
      rw [word, opcode_store_format]
      decide
  | branch =>
      apply gated_of_opcode
      rw [word, opcode_branch_format]
      decide
  | jump =>
      apply gated_of_opcode
      rw [word, opcode_jump_format]
      decide
  | ebreak =>
      apply gated_of_opcode
      decide

end Instructions

section Runs
variable {s e : Extensions} {α β : Type}

/-- Nothing was added but words that may be there with the extensions `e`. -/
structure Assembler.Grown (e : Extensions) (a b : Assembler) : Prop where
  extensions : b.extensions = a.extensions
  words : ∀ w ∈ b.words, w ∈ a.words ∨ Format.Gated e w

namespace Assembler.Grown

variable {a b c : Assembler} {w : Word}

theorem same (extensions : b.extensions = a.extensions) (words : b.words = a.words) :
    a.Grown e b := by
  constructor
  · exact extensions
  · intro w member
    rw [words] at member
    exact .inl member

theorem refl (a : Assembler) : a.Grown e a :=
  same rfl rfl

theorem trans (first : a.Grown e b) (second : b.Grown e c) : a.Grown e c := by
  constructor
  · rw [second.extensions, first.extensions]
  · intro w member
    rcases second.words w member with earlier | added
    · exact first.words w earlier
    · exact .inr added

theorem push (added : Format.Gated e w) : a.Grown e (a.push w) := by
  constructor
  · rfl
  · intro w' member
    rcases Array.mem_push.mp member with earlier | latest
    · exact .inl earlier
    · rw [latest]
      exact .inr added

theorem replace (i : Nat) (replaced : Format.Gated e w) :
    a.Grown e { a with words := a.words.setIfInBounds i w } := by
  constructor
  · rfl
  · intro w' member
    rcases Array.mem_or_eq_of_mem_setIfInBounds member with earlier | here
    · exact .inl earlier
    · rw [here]
      exact .inr replaced

end Assembler.Grown

namespace Emit

variable {a b : Assembler} {x : Emit α} {f : α → Emit β}

/-- What is left of an operation, whether or not it broke a rule. -/
def left : EStateM.Result Violation Assembler α → Assembler
  | .ok _ b => b
  | .error _ b => b

/-- Whatever becomes of an operation in an assembler for the extensions `s`, it adds only words
that may be there with `e`. -/
def Gates (s e : Extensions) (x : Emit α) : Prop :=
  ∀ a : Assembler, a.extensions = s → a.Grown e (left (x.run a))

section Combined

theorem gates_pure (y : α) : Gates s e (pure y : Emit α) := by
  intro a _
  exact .refl a

theorem gates_get : Gates s e (get : Emit Assembler) := by
  intro a _
  exact .refl a

theorem gates_modify {g : Assembler → Assembler} (extensions : ∀ a, (g a).extensions = a.extensions)
    (words : ∀ a, (g a).words = a.words) : Gates s e (modify g) := by
  intro a _
  exact .same (extensions a) (words a)

theorem gates_comment (text : String) : Gates s e (comment text) :=
  gates_modify (fun _ => rfl) fun _ => rfl

theorem gates_new_label : Gates s e newLabel := by
  intro a _
  exact .same rfl rfl

theorem gates_bind (first : Gates s e x) (then_ : ∀ y, Gates s e (f y)) :
    Gates s e (x >>= f) := by
  intro a allowed
  have here := first a allowed
  rw [EStateM.run_bind]
  cases ran : x.run a with
  | ok y b =>
      rw [ran] at here
      exact here.trans (then_ y b (here.extensions.trans allowed))
  | error v b =>
      rw [ran] at here
      exact here

theorem gates_for {xs : List α} {f : α → Emit PUnit} (each : ∀ y ∈ xs, Gates s e (f y)) :
    Gates s e (forM xs f) := by
  induction xs with
  | nil => exact gates_pure _
  | cons y rest ih =>
      rw [List.forall_mem_cons] at each
      rw [List.forM_cons]
      exact gates_bind each.1 fun _ => ih each.2

end Combined

section Whole

/-- Operations that do nothing unless they succeed. -/
def Whole (x : Emit α) : Prop :=
  ∀ a v b, x.run a = .error v b → b = a

theorem whole_check (g : Assembler → Except Violation α) : Whole (check g) := by
  intro a v b failed
  cases found : g a with
  | ok y => simp [check, EStateM.run, found] at failed
  | error v' =>
      simp only [check, EStateM.run, found] at failed
      cases failed
      rfl

theorem whole_emit (w : Word) : Whole (emit w) := by
  intro a v b failed
  cases flushed : a.flushed with
  | true =>
      simp only [emit, EStateM.run, flushed] at failed
      cases failed
      rfl
  | false => simp [emit, EStateM.run, flushed] at failed

theorem whole_modify (g : Assembler → Assembler) : Whole (modify g) := by
  intro a v b failed
  cases failed

theorem whole_flush : Whole flush := by
  intro a v b failed
  cases found : unresolved? a with
  | some v' =>
      simp only [flush, EStateM.run, found] at failed
      cases failed
      rfl
  | none => simp [flush, EStateM.run, found] at failed

theorem whole_check_bind {g : Assembler → Except Violation α} (then_ : ∀ y, Whole (f y)) :
    Whole (check g >>= f) := by
  intro a v b failed
  rw [EStateM.run_bind] at failed
  cases found : (check g).run a with
  | ok y c =>
      obtain ⟨-, rfl⟩ := check_ok.mp found
      rw [found] at failed
      exact then_ y c v b failed
  | error v' c =>
      rw [found] at failed
      cases failed
      exact whole_check g a v b found

theorem whole_instruction (i : Instruction) : Whole (instruction i) :=
  whole_check_bind fun _ => whole_check_bind fun _ => whole_emit _

theorem whole_patch (dest pos : Nat) : Whole (patch dest pos) :=
  whole_check_bind fun _ => whole_check_bind fun _ => whole_check_bind fun _ => whole_modify _

theorem gates_whole (whole : Whole x)
    (succeeds : ∀ a y b, a.extensions = s → x.run a = .ok y b → a.Grown e b) :
    Gates s e x := by
  intro a allowed
  cases ran : x.run a with
  | ok y b => exact succeeds a y b allowed ran
  | error v b =>
      rw [whole a v b ran]
      exact .refl a

theorem gates_flush : Gates s e flush := by
  apply gates_whole whole_flush
  intro a code b _ flushed
  obtain ⟨-, -, rfl⟩ := flush_ok.mp flushed
  exact .same rfl rfl

end Whole

section Operations

theorem gates_instruction {i : Instruction} (fits : i.Available s → i.Available e) :
    Gates s e (instruction i) := by
  -- Operands are looked at before the word is added, so what breaks a rule adds nothing.
  apply gates_whole (whole_instruction i)
  intro a y b allowed ran
  obtain ⟨required, -, -, rfl⟩ := instruction_ok.mp ran
  have available := require_ok.mp required
  rw [allowed] at available
  exact .push (Instruction.gated (fits available))

theorem gates_ungated {i : Instruction} (ungated : i.requirement? = none) :
    Gates s e (instruction i) :=
  gates_instruction fun _ => Instruction.available_of_ungated ungated

theorem gates_sequence (op : Op) {is : Except Violation (List Instruction)}
    (sequence : op.sequence? = some is) : Gates s e (Emit.sequence is) := by
  intro a allowed
  cases is with
  | error v => exact .refl a
  | ok plain =>
      have each : Gates s e (forM plain instruction) := by
        apply gates_for
        intro i member
        apply gates_ungated
        exact Instruction.ungated_of_basic (op.sequence_basic sequence i member)
      exact each a allowed

theorem gates_refer (l : Label) : Gates s e (refer l) := by
  intro a _
  by_cases known : a.Knows l
  · rw [refer_known known]
    exact .same (a.extensions_await l) (a.words_await l)
  · rw [refer, EStateM.run_bind, check_label_foreign known]
    exact .refl a

theorem gates_branch (c : Condition) (rs1 rs2 : Register) (l : Label) :
    Gates s e (branch c rs1 rs2 l) := by
  cases valid : c.isValid with
  | false =>
      intro a _
      simpa [branch, valid, left] using .refl a
  | true =>
      rw [branch_valid valid]
      exact gates_bind (gates_refer l) fun disp => gates_ungated rfl

theorem gates_patch (dest pos : Nat) : Gates s e (patch dest pos) := by
  apply gates_whole (whole_patch dest pos)
  intro a y b _ ran
  obtain ⟨i, w, sent, -, -, retargeted, rfl⟩ := patch_ok.mp ran
  exact .replace i (Format.retargeted_gated retargeted)

theorem gates_bind_label (l : Label) : Gates s e (Emit.bind l) := by
  intro a allowed
  cases flushed : a.flushed with
  | true => simpa [Emit.bind, flushed, left] using .refl a
  | false =>
      cases found : (check (·.labelState l)).run a with
      | error v b =>
          obtain rfl := whole_check _ _ _ _ found
          simpa [Emit.bind, flushed, found, left] using .refl b
      | ok state b =>
          obtain ⟨-, rfl⟩ := check_ok.mp found
          cases bound : state.bound with
          | some pos => simpa [Emit.bind, flushed, found, bound, left] using .refl b
          | none =>
              -- A branch that cannot be sent stops this half-way; those before it were sent.
              have sent : Gates s e (do
                  forM state.pending (patch b.pos)
                  modify fun c => c.setLabel l ⟨some b.pos, []⟩) :=
                gates_bind (gates_for fun p _ => gates_patch b.pos p) fun _ =>
                  gates_modify (fun _ => rfl) fun _ => rfl
              have marked : b.Grown e (b.setLabel l { state with bound := some b.pos }) :=
                .same rfl rfl
              have after := marked.trans (sent _ allowed)
              simpa [Emit.bind, flushed, found, bound] using after

end Operations

end Emit

/-- Every operation adds only words that may be there, and none of an extension unless it is the
instruction of one. -/
theorem Op.gates (op : Op) (fits : ∀ i, op = .instruction i → i.Available s → i.Available e) :
    Emit.Gates s e op.run := by
  cases op with
  | instruction i => exact Emit.gates_instruction (fits i rfl)
  | branch c rs1 rs2 l => exact Emit.gates_branch c rs1 rs2 l
  | branchTo c rs1 rs2 target =>
      exact Emit.gates_bind Emit.gates_get fun a => Emit.gates_ungated rfl
  | jump rd l =>
      exact Emit.gates_bind (Emit.gates_refer l) fun disp => Emit.gates_ungated rfl
  | jumpTo rd target =>
      exact Emit.gates_bind Emit.gates_get fun a => Emit.gates_ungated rfl
  | constant rd v => exact Emit.gates_sequence (.constant rd v) rfl
  | callAddress addr tmp => exact Emit.gates_sequence (.callAddress addr tmp) rfl
  | jumpAddress addr tmp => exact Emit.gates_sequence (.jumpAddress addr tmp) rfl
  | addConstant rd rs v tmp => exact Emit.gates_sequence (.addConstant rd rs v tmp) rfl
  | load op rd base offset tmp => exact Emit.gates_sequence (.load op rd base offset tmp) rfl
  | store op src base offset tmp => exact Emit.gates_sequence (.store op src base offset tmp) rfl
  | newLabel => exact Emit.gates_bind Emit.gates_new_label fun _ => Emit.gates_pure _
  | bind l => exact Emit.gates_bind_label l
  | comment text => exact Emit.gates_comment text
  | flush => exact Emit.gates_bind Emit.gates_flush fun _ => Emit.gates_pure _

theorem Program.gates (p : Program) : Emit.Gates e e p.run :=
  Emit.gates_for fun op _ => op.gates fun _ _ => id

/-- The assembler once every operation of a program was tried. What one that broke a rule did
before it noticed stays, and the next one goes on from there. -/
def Program.attempt : Program → Assembler → Assembler
  | [], a => a
  | op :: rest, a => attempt rest (Emit.left (op.run.run a))

theorem Program.attempt_grown (p : Program) (a : Assembler) :
    a.Grown a.extensions (p.attempt a) := by
  induction p generalizing a with
  | nil => exact .refl a
  | cons op rest ih =>
      have first := op.gates (fun _ _ => id) a rfl
      have later := ih (Emit.left (op.run.run a))
      rw [first.extensions] at later
      exact first.trans later

def Op.requirement? : Op → Option (String × Extensions)
  | .instruction i => i.requirement?
  | _ => none

end Runs

end EntryCode
