import EntryCode.Assembler.Program
import EntryCode.Proofs.Isa.Encoding

/-!
What an assembler operation did, once it is known that it broke no rule. Each lemma says all that
the operation changed, so later proofs never open the operations themselves.
-/

namespace EntryCode

namespace Assembler

/-- Where a label is bound, if it is one of this assembler's and bound. -/
def bound? (a : Assembler) (l : Label) : Option Nat :=
  match a.labelState l with
  | .ok state => state.bound
  | .error _ => none

def waiting (a : Assembler) (l : Label) : List Nat :=
  match a.labelState l with
  | .ok state => state.pending
  | .error _ => []

abbrev Knows (a : Assembler) (l : Label) : Prop :=
  0 < l.index ∧ l.index ≤ a.labels.size

theorem label_state_known {a : Assembler} {l : Label} (known : a.Knows l) :
    a.labelState l = .ok (a.labels.getD (l.index.toNat - 1) ⟨none, []⟩) := by
  simp only [labelState, labelIndex, if_pos known]
  rfl

theorem label_state_foreign {a : Assembler} {l : Label} (foreign : ¬a.Knows l) :
    a.labelState l = .error (.foreignLabel l) := by
  simp only [labelState, labelIndex, if_neg foreign]
  rfl

theorem not_knows_new (e : Extensions) (l : Label) : ¬(Assembler.new e).Knows l := by
  rintro ⟨positive, small⟩
  simp only [new] at small
  simp at small
  omega

theorem label_state_eq {a : Assembler} {l : Label} (known : a.Knows l) :
    a.labelState l = .ok ⟨a.bound? l, a.waiting l⟩ := by
  simp [bound?, waiting, label_state_known known]

/-- Setting what is known of one label leaves the others as they are. -/
theorem set_label_state (a : Assembler) (l k : Label) (state : LabelState) (known : a.Knows l) :
    (a.setLabel l state).labelState k = if k = l then .ok state else a.labelState k := by
  have size : (a.setLabel l state).labels.size = a.labels.size := by simp [setLabel]
  by_cases same : k = l
  · subst same
    have inside : k.index.toNat - 1 < a.labels.size := by omega
    rw [label_state_known (by rwa [Knows, size]), if_pos rfl]
    simp [setLabel, inside]
  · rw [if_neg same]
    by_cases owned : a.Knows k
    · have apart : l.index.toNat - 1 ≠ k.index.toNat - 1 := by
        intro equal
        have : k.index = l.index := by omega
        exact same (by cases k; cases l; simp_all)
      rw [label_state_known owned, label_state_known (by rwa [Knows, size])]
      simp [setLabel, apart]
    · rw [label_state_foreign owned, label_state_foreign (by rwa [Knows, size])]

theorem bound_of_labels {a b : Assembler} (labels : b.labels = a.labels) (l : Label) :
    b.bound? l = a.bound? l := by
  simp only [bound?, labelState, labelIndex, labels]

theorem waiting_of_labels {a b : Assembler} (labels : b.labels = a.labels) (l : Label) :
    b.waiting l = a.waiting l := by
  simp only [waiting, labelState, labelIndex, labels]

theorem bound_set_label (a : Assembler) (l k : Label) (state : LabelState) (known : a.Knows l) :
    (a.setLabel l state).bound? k = if k = l then state.bound else a.bound? k := by
  by_cases same : k = l <;> simp [bound?, set_label_state a l _ state known, same]

theorem waiting_set_label (a : Assembler) (l k : Label) (state : LabelState)
    (known : a.Knows l) :
    (a.setLabel l state).waiting k = if k = l then state.pending else a.waiting k := by
  by_cases same : k = l <;> simp [waiting, set_label_state a l _ state known, same]

theorem knows_set_label (a : Assembler) (l k : Label) (state : LabelState) :
    (a.setLabel l state).Knows k ↔ a.Knows k := by
  simp [Knows, setLabel]

/-- The displacement that a branch at `pos` to a label holds: zero while the label is not bound. -/
def displacement (a : Assembler) (l : Label) (pos : Nat) : Dword :=
  match a.bound? l with
  | some target => BitVec.ofNat 64 target - BitVec.ofNat 64 pos
  | none => 0

/-- The next instruction waits for a label, unless the label is bound. -/
def await (a : Assembler) (l : Label) : Assembler :=
  match a.bound? l with
  | some _ => a
  | none => a.setLabel l ⟨none, a.waiting l ++ [a.pos]⟩

theorem bound_await (a : Assembler) (l k : Label) (known : a.Knows l) :
    (a.await l).bound? k = a.bound? k := by
  cases bound : a.bound? l with
  | some target => simp [await, bound]
  | none =>
      simp only [await, bound, bound_set_label a l k _ known]
      split
      · rename_i same
        rw [same, bound]
      · rfl

/-- Waiting adds the next position to one label, and only while that is not bound. -/
theorem waiting_await (a : Assembler) (l k : Label) (known : a.Knows l) :
    (a.await l).waiting k =
      if k = l ∧ a.bound? l = none then a.waiting l ++ [a.pos] else a.waiting k := by
  cases bound : a.bound? l with
  | some target => simp [await, bound]
  | none => simp [await, bound, waiting_set_label a l k _ known]

theorem knows_await (a : Assembler) (l k : Label) : (a.await l).Knows k ↔ a.Knows k := by
  cases bound : a.bound? l with
  | some target => simp [await, bound]
  | none => simp only [await, bound, knows_set_label]

def push (a : Assembler) (w : Word) : Assembler :=
  { a with words := a.words.push w }

def extend (a : Assembler) (ws : List Word) : Assembler :=
  { a with words := a.words ++ ws.toArray }

/-- Adds a label that is not bound and that nothing waits for. -/
def addLabel (a : Assembler) : Assembler :=
  { a with labels := a.labels.push ⟨none, []⟩ }

theorem knows_add_label {a : Assembler} {l : Label} (known : a.Knows l) : a.addLabel.Knows l := by
  simp only [addLabel, Array.size_push, Knows]
  omega

theorem label_state_add_label (a : Assembler) (l : Label) (known : a.Knows l) :
    a.addLabel.labelState l = a.labelState l := by
  have inside : l.index.toNat - 1 < a.labels.size := by omega
  have other : l.index.toNat - 1 ≠ a.labels.size := by omega
  rw [label_state_known known, label_state_known (knows_add_label known)]
  simp [addLabel, Array.getElem?_push, other]

theorem label_state_added (a : Assembler) (l : Label) (fresh : ¬a.Knows l) (known : a.addLabel.Knows l) :
    a.addLabel.labelState l = .ok ⟨none, []⟩ := by
  have last : l.index.toNat - 1 = a.labels.size := by
    simp only [addLabel, Array.size_push, Knows] at known fresh
    omega
  rw [label_state_known known, last]
  simp [addLabel]

theorem bound_add_label (a : Assembler) (l : Label) : a.addLabel.bound? l = a.bound? l := by
  by_cases known : a.Knows l
  · rw [bound?, bound?, label_state_add_label a l known]
  · by_cases added : a.addLabel.Knows l
    · simp [bound?, label_state_added a l known added, label_state_foreign known]
    · simp [bound?, label_state_foreign known, label_state_foreign added]

theorem waiting_add_label (a : Assembler) (l : Label) : a.addLabel.waiting l = a.waiting l := by
  by_cases known : a.Knows l
  · rw [waiting, waiting, label_state_add_label a l known]
  · by_cases added : a.addLabel.Knows l
    · simp [waiting, label_state_added a l known added, label_state_foreign known]
    · simp [waiting, label_state_foreign known, label_state_foreign added]

theorem words_await (a : Assembler) (l : Label) : (a.await l).words = a.words := by
  cases bound : a.bound? l <;> simp [await, bound, setLabel]

theorem comments_await (a : Assembler) (l : Label) : (a.await l).comments = a.comments := by
  cases bound : a.bound? l <;> simp [await, bound, setLabel]

theorem flushed_await (a : Assembler) (l : Label) : (a.await l).flushed = a.flushed := by
  cases bound : a.bound? l <;> simp [await, bound, setLabel]

theorem extensions_await (a : Assembler) (l : Label) :
    (a.await l).extensions = a.extensions := by
  cases bound : a.bound? l <;> simp [await, bound, setLabel]

theorem bound_push (a : Assembler) (w : Word) (l : Label) :
    (a.push w).bound? l = a.bound? l := rfl

theorem waiting_push (a : Assembler) (w : Word) (l : Label) :
    (a.push w).waiting l = a.waiting l := rfl

theorem knows_push (a : Assembler) (w : Word) (l : Label) :
    (a.push w).Knows l ↔ a.Knows l := Iff.rfl

end Assembler

def Instruction.Available (e : Extensions) (i : Instruction) : Prop :=
  ∀ what needed, i.requirement? = some (what, needed) → e.has needed = true

namespace Emit

variable {α β : Type} {a b : Assembler}

theorem bind_ok {x : Emit α} {f : α → Emit β} {y : β} :
    (x >>= f).run a = .ok y b ↔ ∃ z c, x.run a = .ok z c ∧ (f z).run c = .ok y b := by
  rw [EStateM.run_bind]
  cases x.run a <;> simp

theorem check_ok {f : Assembler → Except Violation α} {x : α} :
    (check f).run a = .ok x b ↔ f a = .ok x ∧ b = a := by
  cases found : f a with
  | ok y => simp [check, EStateM.run, found, @eq_comm _ a]
  | error v => simp [check, EStateM.run, found]

theorem emit_ok {w : Word} :
    (emit w).run a = .ok () b ↔
      a.flushed = false ∧ b = a.push w := by
  cases flushed : a.flushed with
  | true => simp [emit, EStateM.run, flushed]
  | false => simp [emit, EStateM.run, flushed, Assembler.push, @eq_comm _ b]

theorem instruction_ok {i : Instruction} :
    (instruction i).run a = .ok () b ↔
      require i a = .ok () ∧ i.Encodable ∧ a.flushed = false ∧
        b = a.push i.word := by
  simp only [instruction, bind_ok, check_ok, emit_ok, Instruction.encode_ok]
  constructor
  · rintro ⟨_, _, ⟨needed, rfl⟩, _, _, ⟨⟨encodable, rfl⟩, rfl⟩, flushed, rfl⟩
    exact ⟨needed, encodable, flushed, rfl⟩
  · rintro ⟨needed, encodable, flushed, rfl⟩
    exact ⟨(), a, ⟨needed, rfl⟩, i.word, a, ⟨⟨encodable, rfl⟩, rfl⟩, flushed, rfl⟩

theorem require_ok {i : Instruction} : require i a = .ok () ↔ i.Available a.extensions := by
  cases needed : i.requirement? with
  | none => simp [require, Instruction.Available, needed]
  | some asked =>
      obtain ⟨what, x⟩ := asked
      by_cases has : a.extensions.has x = true
      · simp [require, Instruction.Available, needed, has]
      · simp [require, Instruction.Available, needed, has]

theorem instructions_run (is : List Instruction)
    (fine : ∀ i ∈ is, i.Encodable ∧ i.Available a.extensions) (unflushed : a.flushed = false) :
    EStateM.run (forM is instruction) a = .ok () (a.extend (is.map Instruction.word)) := by
  induction is generalizing a with
  | nil => simp [Assembler.extend]
  | cons i rest ih =>
      rw [List.forall_mem_cons] at fine
      obtain ⟨⟨encodable, available⟩, others⟩ := fine
      have first : (instruction i).run a = .ok () (a.push i.word) :=
        instruction_ok.mpr ⟨require_ok.mpr available, encodable, unflushed, rfl⟩
      have later := ih (a := a.push i.word) others unflushed
      have joined : (a.push i.word).extend (rest.map Instruction.word) =
          a.extend ((i :: rest).map Instruction.word) := by
        simp only [Assembler.extend, Assembler.push, Assembler.mk.injEq, and_true]
        exact Array.ext' (by simp)
      rw [List.forM_cons, EStateM.run_bind, first, ← joined, ← later]

/-- A sequence that was emitted breaks no rule, and its words come behind the others. -/
theorem instructions_ok {is : List Instruction}
    (ran : EStateM.run (forM is instruction) a = .ok () b) :
    (∀ i ∈ is, i.Encodable) ∧ b = a.extend (is.map Instruction.word) := by
  induction is generalizing a with
  | nil =>
      simp only [List.forM_nil, EStateM.run_pure, EStateM.Result.ok.injEq, true_and] at ran
      simp [Assembler.extend, ran]
  | cons i rest ih =>
      rw [List.forM_cons, bind_ok] at ran
      obtain ⟨_, c, first, later⟩ := ran
      obtain ⟨-, encodable, -, rfl⟩ := instruction_ok.mp first
      obtain ⟨others, rfl⟩ := ih later
      refine ⟨List.forall_mem_cons.mpr ⟨encodable, others⟩, ?_⟩
      simp only [Assembler.extend, Assembler.push, Assembler.mk.injEq, and_true]
      exact Array.ext' (by simp)

theorem flush_ok {code : Bytes} :
    flush.run a = .ok code b ↔
      unresolved? a = none ∧ code = a.code ∧ b = { a with flushed := true } := by
  cases found : unresolved? a with
  | some v => simp [flush, EStateM.run, found]
  | none => simp [flush, EStateM.run, found, eq_comm]

theorem check_label_foreign {l : Label} (foreign : ¬a.Knows l) :
    (check (·.labelState l)).run a = .error (.foreignLabel l) a := by
  simp [check, EStateM.run, Assembler.label_state_foreign foreign]

theorem refer_known {l : Label} (known : a.Knows l) :
    (refer l).run a = .ok (a.displacement l a.pos) (a.await l) := by
  have found : (check (·.labelState l)).run a = .ok ⟨a.bound? l, a.waiting l⟩ a :=
    check_ok.mpr ⟨Assembler.label_state_eq known, rfl⟩
  cases bound : a.bound? l with
  | some target =>
      rw [bound] at found
      simp only [refer, EStateM.run_bind, found, EStateM.run_get, EStateM.run_pure,
        Assembler.displacement, Assembler.await, bound]
  | none =>
      rw [bound] at found
      simp only [refer, EStateM.run_bind, found, EStateM.run_get, EStateM.run_set,
        EStateM.run_pure, Assembler.displacement, Assembler.await, bound]

theorem refer_ok {l : Label} {disp : Dword} :
    (refer l).run a = .ok disp b ↔
      a.Knows l ∧ disp = a.displacement l a.pos ∧ b = a.await l := by
  by_cases known : a.Knows l
  · rw [refer_known known]
    constructor
    · rintro ⟨⟩
      exact ⟨known, rfl, rfl⟩
    · rintro ⟨-, rfl, rfl⟩
      rfl
  · simp [refer, check_label_foreign known, known]

/-- Once its condition is one, a branch is a reference and an instruction. -/
theorem branch_valid {c : Condition} {rs1 rs2 : Register} {l : Label} (valid : c.isValid = true) :
    branch c rs1 rs2 l = refer l >>= fun disp => instruction (.branch c rs1 rs2 disp) := by
  simp [branch, valid]

theorem branch_ok {c : Condition} {rs1 rs2 : Register} {l : Label} :
    (branch c rs1 rs2 l).run a = .ok () b ↔
      a.Knows l ∧ (Instruction.branch c rs1 rs2 (a.displacement l a.pos)).Encodable ∧
        a.flushed = false ∧
          b = (a.await l).push (Instruction.branch c rs1 rs2 (a.displacement l a.pos)).word := by
  cases condition : c.isValid with
  | false => simp [branch, condition, Instruction.Encodable]
  | true =>
      simp only [branch_valid condition, bind_ok, refer_ok, instruction_ok, require,
        Instruction.requirement?]
      constructor
      · rintro ⟨_, _, ⟨known, rfl, rfl⟩, -, encodable, flushed, rfl⟩
        exact ⟨known, encodable, (a.flushed_await l).symm.trans flushed, rfl⟩
      · rintro ⟨known, encodable, flushed, rfl⟩
        exact ⟨_, _, ⟨known, rfl, rfl⟩, trivial, encodable, (a.flushed_await l).trans flushed, rfl⟩

theorem jump_ok {rd : Register} {l : Label} :
    (jump rd l).run a = .ok () b ↔
      a.Knows l ∧ (Instruction.jump rd (a.displacement l a.pos)).Encodable ∧ a.flushed = false ∧
        b = (a.await l).push (Instruction.jump rd (a.displacement l a.pos)).word := by
  simp only [jump, bind_ok, refer_ok, instruction_ok, require, Instruction.requirement?]
  constructor
  · rintro ⟨_, _, ⟨known, rfl, rfl⟩, -, encodable, flushed, rfl⟩
    exact ⟨known, encodable, (a.flushed_await l).symm.trans flushed, rfl⟩
  · rintro ⟨known, encodable, flushed, rfl⟩
    exact ⟨_, _, ⟨known, rfl, rfl⟩, trivial, encodable, (a.flushed_await l).trans flushed, rfl⟩

theorem branch_to_run (c : Condition) (rs1 rs2 : Register) (target : Dword) :
    (branchTo c rs1 rs2 target).run a =
      (instruction (.branch c rs1 rs2 (target - BitVec.ofNat 64 a.pos))).run a := by
  rw [branchTo, EStateM.run_bind, EStateM.run_get]

theorem jump_to_run (rd : Register) (target : Dword) :
    (jumpTo rd target).run a =
      (instruction (.jump rd (target - BitVec.ofNat 64 a.pos))).run a := by
  rw [jumpTo, EStateM.run_bind, EStateM.run_get]

theorem sequence_ok {is : Except Violation (List Instruction)} :
    (sequence is).run a = .ok () b ↔
      ∃ plain, is = .ok plain ∧ EStateM.run (forM plain instruction) a = .ok () b := by
  simp only [sequence, bind_ok, check_ok]
  constructor
  · rintro ⟨plain, _, ⟨planned, rfl⟩, emitted⟩
    exact ⟨plain, planned, emitted⟩
  · rintro ⟨plain, planned, emitted⟩
    exact ⟨plain, a, ⟨planned, rfl⟩, emitted⟩

theorem index_ok {pos i : Nat} :
    a.index pos = .ok i ↔ pos = instructionSize * i ∧ i < a.words.size := by
  have size : instructionSize = 4 := rfl
  by_cases inside : 0 ≤ (pos : Int) ∧ (pos : Int) % instructionSize = 0 ∧
      ((pos : Int) / instructionSize).toNat < a.words.size
  · simp only [Assembler.index, if_pos inside, Except.ok.injEq]
    rw [size] at inside ⊢
    omega
  · simp only [Assembler.index, if_neg inside, reduceCtorEq, false_iff]
    rw [size] at inside ⊢
    omega

theorem word_ok {pos : Nat} {w : Word} :
    a.word pos = .ok w ↔ ∃ i, pos = instructionSize * i ∧ a.words[i]? = some w := by
  simp only [Assembler.word, EntryCode.bind_ok, index_ok, pure, Except.pure, Except.ok.injEq]
  constructor
  · rintro ⟨i, ⟨rfl, inside⟩, rfl⟩
    exact ⟨i, rfl, by simp [inside]⟩
  · rintro ⟨i, rfl, found⟩
    obtain ⟨inside, -⟩ := Array.getElem?_eq_some_iff.mp found
    exact ⟨i, ⟨rfl, inside⟩, by simp [found]⟩

theorem patch_ok {dest pos : Nat} :
    (patch dest pos).run a = .ok () b ↔
      ∃ i w sent, pos = instructionSize * i ∧ a.words[i]? = some w ∧
        Format.retarget (BitVec.ofNat 64 dest) w (BitVec.ofNat 64 pos) = .ok sent ∧
          b = { a with words := a.words.setIfInBounds i sent } := by
  simp only [patch, bind_ok, check_ok, index_ok, word_ok, EStateM.run_modify,
    EStateM.Result.ok.injEq, true_and]
  constructor
  · rintro ⟨i, _, ⟨⟨rfl, -⟩, rfl⟩, w, _, ⟨⟨j, same, found⟩, rfl⟩, sent, _, ⟨retargeted, rfl⟩, rfl⟩
    have : j = i := by
      simp only [instructionSize] at same
      omega
    subst this
    exact ⟨j, w, sent, rfl, found, retargeted, rfl⟩
  · rintro ⟨i, w, sent, rfl, found, retargeted, rfl⟩
    obtain ⟨inside, -⟩ := Array.getElem?_eq_some_iff.mp found
    exact ⟨i, a, ⟨⟨rfl, inside⟩, rfl⟩, w, a, ⟨⟨i, rfl, found⟩, rfl⟩, sent, a, ⟨retargeted, rfl⟩, rfl⟩

theorem bind_label_ok {l : Label} :
    (Emit.bind l).run a = .ok () b ↔
      a.flushed = false ∧ a.Knows l ∧ a.bound? l = none ∧
        ∃ c, EStateM.run (forM (a.waiting l) (patch a.pos))
            (a.setLabel l ⟨some a.pos, a.waiting l⟩) = .ok () c ∧
          b = c.setLabel l ⟨some a.pos, []⟩ := by
  cases flushed : a.flushed with
  | true => simp [Emit.bind, flushed]
  | false =>
      by_cases known : a.Knows l
      · have found : (check (·.labelState l)).run a = .ok ⟨a.bound? l, a.waiting l⟩ a :=
          check_ok.mpr ⟨Assembler.label_state_eq known, rfl⟩
        cases bound : a.bound? l with
        | some pos =>
            rw [bound] at found
            simp [Emit.bind, flushed, found]
        | none =>
            rw [bound] at found
            cases patched : EStateM.run (forM (a.waiting l) (patch a.pos))
                (a.setLabel l ⟨some a.pos, a.waiting l⟩) with
            | ok _ c =>
                have opened : (Emit.bind l).run a = .ok () (c.setLabel l ⟨some a.pos, []⟩) := by
                  simp [Emit.bind, flushed, found, patched]
                rw [opened]
                constructor
                · rintro ⟨⟩
                  exact ⟨rfl, known, rfl, c, rfl, rfl⟩
                · rintro ⟨-, -, -, _, same, rfl⟩
                  cases same
                  rfl
            | error v c => simp [Emit.bind, flushed, found, patched]
      · simp [Emit.bind, flushed, check_label_foreign known, known]

end Emit

end EntryCode
