import EntryCode.Proofs.Assembler.Emission
import EntryCode.Proofs.Machine.Memory
import EntryCode.Proofs.Machine.State

/-!
Code in its place. A program lies at an address when its instructions do, each branch with the
displacement to the address of its label; a machine that stands there executes them one after the
other, as long as no store reaches the code. Some addresses may be watched: a store to them is
noticed, and so is a fence, so that a run through the code shows that there was neither.
-/

namespace EntryCode

/-- Whether an effect is a fence or a store that reaches a watched address. -/
def Effect.noticed (watched : Dword → Bool) : Effect → Bool
  | .fence .. => true
  | .store addr size _ => (List.range size).any fun k => watched (addr + BitVec.ofNat 64 k)
  | .none | .setRegister .. | .setFloat .. => false

@[simp] def Instruction.hidden : Instruction → Bool
  | .store .. | .storeFloat .. | .fence .. | .ebreak => false
  | _ => true

theorem Instruction.effect_hidden (i : Instruction) (m : Machine) (watched : Dword → Bool)
    (hidden : i.hidden = true) : (i.effect m).noticed watched = false := by
  cases i with
  | store | storeFloat | fence | ebreak => cases hidden
  | immediate op => cases op <;> rfl
  | _ => rfl

/-- Code in its place. -/
structure Linked where
  origin : Dword
  target : Label → Dword
  lies : Dword → Instruction → Prop
  watched : Dword → Bool

namespace Linked

variable (c : Linked)

def InMemory (mem : Memory) : Prop :=
  ∀ addr i, c.lies addr i → i.Encodable ∧ (mem.load addr 4).setWidth 32 = i.word

def InCode (b : Dword) : Prop :=
  ∃ addr i, c.lies addr i ∧ ∃ k, k < 4 ∧ b = addr + BitVec.ofNat 64 k

/-- Whether an address is one that the code must not store to unnoticed. -/
def Covers (b : Dword) : Prop :=
  c.InCode b ∨ c.watched b = true

theorem InMemory.congr {c : Linked} {mem other : Memory} (here : c.InMemory mem)
    (same : ∀ b, c.InCode b → other.byte b = mem.byte b) : c.InMemory other := by
  intro addr i lies
  obtain ⟨encodable, word⟩ := here addr i lies
  refine ⟨encodable, ?_⟩
  rw [Memory.load_congr addr 4 fun k inside => same _ ⟨addr, i, lies, k, inside, rfl⟩, word]

def instruction (addr : Dword) (e : Emission) : Instruction :=
  match e.label? with
  | some l => e.instruction (c.target l - addr)
  | none => e.instruction 0

/-- Emissions lie one after the other from an address on. -/
def Lines (addr : Dword) : List Emission → Prop
  | [] => True
  | e :: rest => c.lies addr (c.instruction addr e) ∧ Lines (addr + 4) rest

def Has (addr : Dword) : Program → Prop
  | [] => True
  | op :: rest =>
    let es := op.emissions (addr - c.origin).toNat
    c.Lines addr es ∧ (∀ l, op = .bind l → c.target l = addr) ∧
      Has (addr + BitVec.ofNat 64 (instructionSize * es.length)) rest

/-- `n` instructions of the code lead from one machine to another, and nothing is noticed. -/
inductive Runs : Nat → Machine → Machine → Prop
  | done (m : Machine) : Runs 0 m m
  | step {n : Nat} {m k last : Machine} {i : Instruction} {e : Effect} :
    c.lies m.pc i → m.advance = .ok (k, e) → e.noticed c.watched = false → Runs n k last →
      Runs (n + 1) m last

def Leads (m k : Machine) : Prop := ∃ n, c.Runs n m k

variable {c}

theorem Runs.trans {n n' : Nat} {m k last : Machine} (first : c.Runs n m k)
    (second : c.Runs n' k last) : c.Runs (n + n') m last := by
  induction first with
  | done m => simpa using second
  | step lies advanced unseen _ ih =>
      rw [Nat.add_right_comm]
      exact .step lies advanced unseen (ih second)

theorem Leads.refl (m : Machine) : c.Leads m m := ⟨0, .done m⟩

theorem Leads.trans {m k last : Machine} (first : c.Leads m k) (second : c.Leads k last) :
    c.Leads m last := by
  obtain ⟨n, first⟩ := first
  obtain ⟨n', second⟩ := second
  exact ⟨n + n', first.trans second⟩

section Single
variable {m : Machine} (cleared : m.Zeroed) (here : c.InMemory m.memory) {i : Instruction}
  (lies : c.lies m.pc i)
include cleared here lies

theorem advances (running : i ≠ .ebreak) : m.advance = .ok (m.exec i, i.effect m) := by
  obtain ⟨encodable, word⟩ := here m.pc i lies
  exact m.advance_exec cleared i encodable running word

/-- One instruction that is not noticed. -/
theorem runs_unseen (running : i ≠ .ebreak)
    (unseen : (i.effect m).noticed c.watched = false) : c.Runs 1 m (m.exec i) :=
  .step lies (advances cleared here lies running) unseen (.done _)

theorem runs_one (hidden : i.hidden = true) : c.Runs 1 m (m.exec i) := by
  refine runs_unseen cleared here lies ?_ (i.effect_hidden m c.watched hidden)
  rintro rfl
  cases hidden

end Single

theorem breaks {m : Machine} (here : c.InMemory m.memory) (lies : c.lies m.pc .ebreak) :
    m.advance = .error .breakpoint := by
  obtain ⟨-, word⟩ := here m.pc .ebreak lies
  have fetched : m.fetch = 0x00100073 := word
  rw [Machine.advance, Machine.step, if_pos fetched]
  rfl

/-- A store outside the code and the watched addresses is not noticed. -/
theorem store_unseen {addr v : Dword} {size : Nat} (short : size ≤ 2 ^ 64)
    (outside : ∀ b, Memory.Covers addr size b → ¬c.Covers b) :
    (Effect.store addr size v).noticed c.watched = false := by
  rw [Effect.noticed, List.any_eq_false]
  intro k inside seen
  refine outside _ ((Memory.covers_iff short).mpr ⟨k, List.mem_range.mp inside, rfl⟩) ?_
  exact .inr seen

section Placement
variable {addr : Dword} {rest : Program}

theorem lines_nil : c.Lines addr [] ↔ True := Iff.rfl

theorem lines_cons {e : Emission} {es : List Emission} :
    c.Lines addr (e :: es) ↔ c.lies addr (c.instruction addr e) ∧ c.Lines (addr + 4) es := Iff.rfl

theorem has_cons {op : Op} :
    c.Has addr (op :: rest) ↔ c.Lines addr (op.emissions (addr - c.origin).toNat) ∧
      (∀ l, op = .bind l → c.target l = addr) ∧
        c.Has (addr + BitVec.ofNat 64 (instructionSize *
          (op.emissions (addr - c.origin).toNat).length)) rest := Iff.rfl

theorem has_instruction {i : Instruction} :
    c.Has addr (.instruction i :: rest) ↔ c.lies addr i ∧ c.Has (addr + 4) rest := by
  simp [has_cons, Op.emissions, lines_nil, lines_cons, instruction, Emission.label?,
    Emission.instruction, instructionSize]

theorem has_in_code {i : Instruction} (placed : c.Has addr (.instruction i :: rest)) :
    c.InCode addr :=
  ⟨addr, i, (has_instruction.mp placed).1, 0, by omega, (BitVec.add_zero _).symm⟩

/-- All instructions lie at even addresses. -/
def Even (c : Linked) : Prop :=
  ∀ addr i, c.lies addr i → addr &&& 1 = 0

theorem Even.has (even : c.Even) {i : Instruction}
    (placed : c.Has addr (.instruction i :: rest)) : addr &&& 1 = 0 :=
  even addr i (has_instruction.mp placed).1

theorem has_branch {cond : Condition} {rs1 rs2 : Register} {l : Label} :
    c.Has addr (.branch cond rs1 rs2 l :: rest) ↔
      c.lies addr (.branch cond rs1 rs2 (c.target l - addr)) ∧ c.Has (addr + 4) rest := by
  simp [has_cons, Op.emissions, lines_nil, lines_cons, instruction, Emission.label?,
    Emission.instruction, instructionSize]

theorem has_jump {rd : Register} {l : Label} :
    c.Has addr (.jump rd l :: rest) ↔
      c.lies addr (.jump rd (c.target l - addr)) ∧ c.Has (addr + 4) rest := by
  simp [has_cons, Op.emissions, lines_nil, lines_cons, instruction, Emission.label?,
    Emission.instruction, instructionSize]

theorem has_bind {l : Label} :
    c.Has addr (.bind l :: rest) ↔ c.target l = addr ∧ c.Has addr rest := by
  simp [has_cons, Op.emissions, lines_nil, instructionSize]

theorem has_comment {text : String} : c.Has addr (.comment text :: rest) ↔ c.Has addr rest := by
  simp [has_cons, Op.emissions, lines_nil, instructionSize]

def Straight (c : Linked) (addr : Dword) (is : List Instruction) : Prop :=
  c.Lines addr (is.map .plain)

theorem straight_cons {i : Instruction} {is : List Instruction} :
    c.Straight addr (i :: is) ↔ c.lies addr i ∧ c.Straight (addr + 4) is := Iff.rfl

theorem next_address (addr : Dword) (n : Nat) :
    addr + 4 + BitVec.ofNat 64 (instructionSize * n) =
      addr + BitVec.ofNat 64 (instructionSize * (n + 1)) := by
  rw [Nat.mul_add, Nat.add_comm, BitVec.ofNat_add, ← BitVec.add_assoc]
  rfl

theorem straight_append {is js : List Instruction} :
    c.Straight addr (is ++ js) ↔ c.Straight addr is ∧
      c.Straight (addr + BitVec.ofNat 64 (instructionSize * is.length)) js := by
  induction is generalizing addr with
  | nil => simp [Straight, lines_nil, instructionSize]
  | cons i is ih =>
      rw [List.cons_append, straight_cons, straight_cons, ih, next_address, List.length_cons,
        and_assoc]

theorem has_list {is : List Instruction} :
    c.Has addr (is.map .instruction ++ rest) ↔ c.Straight addr is ∧
      c.Has (addr + BitVec.ofNat 64 (instructionSize * is.length)) rest := by
  induction is generalizing addr with
  | nil => simp [Straight, lines_nil, instructionSize]
  | cons i is ih =>
      rw [List.map_cons, List.cons_append, has_instruction, ih, straight_cons, next_address,
        List.length_cons, and_assoc]

theorem has_planned {op : Op} {is : List Instruction}
    (emits : ∀ pos, op.emissions pos = planned (.ok is)) (other : ∀ l, op ≠ .bind l) :
    c.Has addr (op :: rest) ↔ c.Has addr (is.map .instruction ++ rest) := by
  rw [has_list]
  simp [has_cons, emits, planned, other, Straight]

theorem has_append {p q : Program} (placed : c.Has addr (p ++ q)) :
    c.Has addr p ∧ ∃ next, c.Has next q := by
  induction p generalizing addr with
  | nil => exact ⟨trivial, addr, placed⟩
  | cons op p ih =>
      obtain ⟨lines, bound, later⟩ := placed
      obtain ⟨first, next⟩ := ih later
      exact ⟨⟨lines, bound, first⟩, next⟩

def watching (c : Linked) (watched : Dword → Bool) : Linked :=
  { c with watched }

theorem has_watching {p : Program} (watched : Dword → Bool) (placed : c.Has addr p) :
    (c.watching watched).Has addr p := by
  have lines : ∀ addr es, c.Lines addr es → (c.watching watched).Lines addr es := by
    intro addr es
    induction es generalizing addr with
    | nil => exact fun _ => trivial
    | cons e es ih => exact fun ⟨first, later⟩ => ⟨first, ih _ later⟩
  induction p generalizing addr with
  | nil => trivial
  | cons op p ih =>
      obtain ⟨first, bound, later⟩ := placed
      exact ⟨lines _ _ first, bound, ih later⟩

/-- The part of the code whose instructions have a property. -/
def only (c : Linked) (P : Instruction → Prop) : Linked :=
  { c with lies := fun x i => c.lies x i ∧ P i }

theorem InMemory.only {mem : Memory} (here : c.InMemory mem) (P : Instruction → Prop) :
    (c.only P).InMemory mem :=
  fun addr i lies => here addr i lies.1

theorem has_only {p : Program} {P : Instruction → Prop} (placed : c.Has addr p)
    (every : ∀ op ∈ p, ∀ pos, ∀ e ∈ op.emissions pos, ∀ disp, P (e.instruction disp)) :
    (c.only P).Has addr p := by
  have lines : ∀ addr es, (∀ e ∈ es, ∀ disp, P (e.instruction disp)) → c.Lines addr es →
      (c.only P).Lines addr es := by
    intro addr es suits
    induction es generalizing addr with
    | nil => exact fun _ => trivial
    | cons e es ih =>
        rw [List.forall_mem_cons] at suits
        rintro ⟨first, later⟩
        refine ⟨⟨first, ?_⟩, ih _ suits.2 later⟩
        rw [instruction]
        split <;> exact suits.1 _
  induction p generalizing addr with
  | nil => trivial
  | cons op p ih =>
      rw [List.forall_mem_cons] at every
      obtain ⟨first, bound, later⟩ := placed
      exact ⟨lines _ _ (every.1 _) first, bound, ih later every.2⟩

end Placement

end Linked

/-- `n` instructions, one after the other. -/
def Machine.after : Nat → Machine → Except Stop Machine
  | 0, m => .ok m
  | n + 1, m => m.advance >>= fun (k, _) => k.after n

theorem Linked.Runs.after {c : Linked} {n : Nat} {m k : Machine} (runs : c.Runs n m k) :
    m.after n = .ok k := by
  induction runs with
  | done m => rfl
  | step _ advanced _ _ ih =>
      rw [Machine.after, advanced]
      exact ih

/-- Until its end a run stays in the code. -/
theorem Linked.Runs.inside {c : Linked} {n : Nat} {m k : Machine} (runs : c.Runs n m k) :
    ∀ i < n, ∃ mid, m.after i = .ok mid ∧ c.Covers mid.pc := by
  induction runs with
  | done m => intro i early; omega
  | @step n m k last instr e lies advanced _ _ ih =>
      intro i early
      cases i with
      | zero => exact ⟨m, rfl, .inl ⟨m.pc, instr, lies, 0, by omega, (BitVec.add_zero _).symm⟩⟩
      | succ i =>
          obtain ⟨mid, reached, covered⟩ := ih i (by omega)
          refine ⟨mid, ?_, covered⟩
          rw [Machine.after, advanced]
          exact reached

end EntryCode
