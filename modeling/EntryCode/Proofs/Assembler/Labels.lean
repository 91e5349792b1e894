import EntryCode.Proofs.Assembler.Emission

/-!
Labels over whole runs of the assembler. Finishing the code fails exactly when some label is gone
to and never bound; in finished code every branch and jump leads to its label, and every other word
is the one that was emitted.
-/

namespace EntryCode

def Op.label? : Op → Option Label
  | .branch _ _ _ l | .jump _ l => some l
  | _ => none

/-- Whether some operation of a program goes to a label. -/
def Program.RefersTo (p : Program) (l : Label) : Prop :=
  ∃ op ∈ p, op.label? = some l

section Unresolved
variable {a : Assembler}

theorem Assembler.knows_iff_index {l : Label} :
    a.Knows l ↔ ∃ i, i < a.labels.size ∧ l = ⟨i + 1⟩ := by
  constructor
  · rintro ⟨positive, small⟩
    refine ⟨l.index.toNat - 1, by omega, ?_⟩
    have index : ((l.index.toNat - 1 : Nat) : Int) + 1 = l.index := by omega
    rw [index]
  · rintro ⟨i, inside, rfl⟩
    exact ⟨by simp only; omega, by simp only; omega⟩

theorem Assembler.label_at (i : Nat) (inside : i < a.labels.toList.length) :
    a.labels.toList[i] = ⟨a.bound? ⟨i + 1⟩, a.waiting ⟨i + 1⟩⟩ := by
  have known : a.Knows ⟨i + 1⟩ := knows_iff_index.mpr ⟨i, by simpa using inside, rfl⟩
  have state := label_state_known known
  rw [label_state_eq known, Except.ok.injEq] at state
  have index : ((i : Int) + 1).toNat - 1 = i := by omega
  rw [state, index, Array.getD_eq_getD_getElem?, ← Array.getElem?_toList,
    List.getElem?_eq_getElem inside, Option.getD_some]

/-- The code can be finished exactly when nothing waits for a label that is not bound. -/
theorem unresolved_none :
    Emit.unresolved? a = none ↔ ∀ l, a.bound? l = none → a.waiting l = [] := by
  simp only [Emit.unresolved?, List.findSome?_eq_none_iff, List.mem_mapIdx, id]
  constructor
  · intro resolved l unbound
    by_cases known : a.Knows l
    · obtain ⟨i, inside, rfl⟩ := Assembler.knows_iff_index.mp known
      have clear := resolved _ ⟨i, by simpa using inside, rfl⟩
      rw [Assembler.label_at, unbound] at clear
      cases waits : a.waiting ⟨i + 1⟩ with
      | nil => rfl
      | cons first rest => simp [waits] at clear
    · simp [Assembler.waiting, Assembler.label_state_foreign known]
  · rintro clear _ ⟨i, inside, rfl⟩
    rw [Assembler.label_at]
    cases bound : a.bound? ⟨i + 1⟩ with
    | some target => rfl
    | none => simp [clear _ bound]

end Unresolved

namespace Program

theorem emissions_label (op : Op) (pos : Nat) (l : Label) :
    (∃ e ∈ op.emissions pos, e.label? = some l) ↔ op.label? = some l := by
  have silent : ∀ is, ¬∃ e ∈ planned is, e.label? = some l := by
    rintro (v | is) ⟨e, member, directed⟩
    · cases member
    · obtain ⟨i, -, rfl⟩ := List.mem_map.mp member
      cases directed
  cases op with
  | constant | callAddress | jumpAddress | addConstant | load | store =>
      exact iff_of_false (silent _) (by simp [Op.label?])
  | _ => simp [Op.emissions, Op.label?, Emission.label?]

theorem refers_to_iff (p : Program) (pos : Nat) (l : Label) :
    (∃ e ∈ p.emissions pos, e.label? = some l) ↔ p.RefersTo l := by
  induction p generalizing pos with
  | nil => simp [emissions, RefersTo]
  | cons op rest ih =>
      rw [emissions]
      simp only [List.mem_append, or_and_right, exists_or, emissions_label, ih]
      simp [RefersTo]

theorem place_none (p : Program) (pos : Nat) (l : Label) :
    p.place l pos = none ↔ Op.bind l ∉ p := by
  induction p generalizing pos with
  | nil => simp [place]
  | cons op rest ih =>
      rw [place]
      split <;> simp_all [eq_comm]

end Program

/-- What finished code `b` holds of an operation that led from `before` to `after`. -/
def Op.Settled (before after b : Assembler) : Op → Prop
  | .branch c rs1 rs2 l => ∃ w target, after.words.size = before.words.size + 1 ∧
      b.word before.pos = .ok w ∧ b.target l = .ok target ∧
      Format.destination w (BitVec.ofNat 64 before.pos) = .ok (BitVec.ofNat 64 target) ∧
      Format.opcode w = Format.opBranch ∧ (Format.funct3 w).setWidth 32 = c.code ∧
      Register.ofField (Format.rs1 w) = rs1 ∧ Register.ofField (Format.rs2 w) = rs2
  | .jump rd l => ∃ w target, after.words.size = before.words.size + 1 ∧
      b.word before.pos = .ok w ∧ b.target l = .ok target ∧
      Format.destination w (BitVec.ofNat 64 before.pos) = .ok (BitVec.ofNat 64 target) ∧
      Format.opcode w = Format.opJump ∧ Register.ofField (Format.rd w) = rd
  | _ => ∀ i, before.words.size ≤ i → i < after.words.size → b.words[i]? = after.words[i]?

namespace Emitted

variable {es : List Emission} {a : Assembler}

theorem target_ok {l : Label} {target : Nat} :
    a.target l = .ok target ↔ a.bound? l = some target := by
  rw [Assembler.target, Assembler.bound?]
  cases a.labelState l with
  | error v => simp [bind, Except.bind]
  | ok state =>
      cases bound : state.bound with
      | none => simp [bound, bind, Except.bind, throw, throwThe, MonadExceptOf.throw]
      | some pos => simp [bound, bind, Except.bind, pure, Except.pure]

/-- Once nothing waits for an unbound label, every emission to a label leads there. -/
theorem resolved (inv : Emitted es a) (clear : Emit.unresolved? a = none) (i : Nat)
    (e : Emission) (l : Label) (found : es[i]? = some e) (directed : e.label? = some l) :
    ∃ target, a.target l = .ok target ∧
      (e.instruction (BitVec.ofNat 64 target - BitVec.ofNat 64 (instructionSize * i))).Encodable ∧
      a.word (instructionSize * i : Nat) = .ok (e.instruction
        (BitVec.ofNat 64 target - BitVec.ofNat 64 (instructionSize * i))).word := by
  cases bound : a.bound? l with
  | none =>
      have waits := inv.waits i e l found directed bound
      rw [unresolved_none.mp clear l bound] at waits
      cases waits
  | some target =>
      have same : e.resolve a (instructionSize * i) =
          e.instruction (BitVec.ofNat 64 target - BitVec.ofNat 64 (instructionSize * i)) := by
        simp [Emission.resolve, Emission.displacement, directed, Assembler.displacement, bound]
      obtain ⟨encodable, word⟩ := inv.words i e found
      rw [same] at encodable word
      exact ⟨target, target_ok.mpr bound, encodable, Emit.word_ok.mpr ⟨i, rfl, word⟩⟩

/-- Something waits for an unbound label exactly when some label is gone to and not bound. -/
theorem unresolved_iff (p : Program) (inv : Emitted (p.emissions 0) a)
    (bound : ∀ l, a.bound? l = p.place l 0) :
    Emit.unresolved? a ≠ none ↔ ∃ l, p.RefersTo l ∧ Op.bind l ∉ p := by
  simp only [ne_eq, unresolved_none, not_forall, ← Program.refers_to_iff p 0,
    ← Program.place_none p 0, ← bound]
  constructor
  · rintro ⟨l, unbound, waits⟩
    obtain ⟨pos, member⟩ := List.exists_mem_of_ne_nil _ waits
    obtain ⟨i, e, -, found, directed⟩ := inv.sites l pos member
    exact ⟨l, ⟨e, List.mem_of_getElem? found, directed⟩, unbound⟩
  · rintro ⟨l, ⟨e, member, directed⟩, unbound⟩
    obtain ⟨i, found⟩ := List.getElem?_of_mem member
    exact ⟨l, unbound, List.ne_nil_of_mem (inv.waits i e l found directed unbound)⟩

section Settled
variable {earlier later : List Emission} {before after b : Assembler} {op : Op}

/-- The words that an operation without a label emitted are still there at the end. -/
theorem settled_plain (start : Emitted earlier before) (step : Emitted.Advance op earlier before after)
    (finish : Emitted (earlier ++ op.emissions before.pos ++ later) b) (plain : op.label? = none)
    (i : Nat) (new : before.words.size ≤ i) (inside : i < after.words.size) :
    b.words[i]? = after.words[i]? := by
  rw [step.emitted.size] at inside
  have found := List.getElem?_eq_getElem inside
  have unlabelled : ∀ l, ¬((earlier ++ op.emissions before.pos)[i].label? = some l) := by
    intro l directed
    have member : (earlier ++ op.emissions before.pos)[i] ∈ op.emissions before.pos := by
      rw [start.size] at new
      rw [List.getElem_append_right new]
      exact List.getElem_mem _
    have := (Program.emissions_label op before.pos l).mp ⟨_, member, directed⟩
    rw [plain] at this
    cases this
  have same : ∀ c : Assembler, (earlier ++ op.emissions before.pos)[i].resolve c (instructionSize * i) =
      (earlier ++ op.emissions before.pos)[i].instruction 0 := by
    intro c
    rw [Emission.resolve, Emission.displacement, Option.eq_none_iff_forall_ne_some.mpr unlabelled]
  have last : (earlier ++ op.emissions before.pos ++ later)[i]? =
      some (earlier ++ op.emissions before.pos)[i] := by
    rw [List.getElem?_append_left inside, found]
  rw [(finish.words i _ last).2, (step.emitted.words i _ found).2, same, same]

theorem settled (start : Emitted earlier before) (step : Emitted.Advance op earlier before after)
    (finish : Emitted (earlier ++ op.emissions before.pos ++ later) b)
    (clear : Emit.unresolved? b = none) : op.Settled before after b := by
  cases op with
  | branch c rs1 rs2 l =>
      obtain ⟨target, landed, encodable, word⟩ := finish.resolved clear earlier.length
        (.branch c rs1 rs2 l) l (by simp [Op.emissions]) rfl
      rw [← start.pos] at encodable word
      refine ⟨_, target, ?_, word, landed, ?_, ?_, ?_, ?_, ?_⟩
      · rw [step.emitted.size, start.size]
        simp [Op.emissions]
      · exact Emission.destination _ l rfl _ _ encodable
      · simp [Instruction.word, Emission.instruction]
      · simp [Instruction.word, Emission.instruction, c.code_low encodable.1]
      · simp [Instruction.word, Emission.instruction, rs1.of_field_code encodable.2.1]
      · simp [Instruction.word, Emission.instruction, rs2.of_field_code encodable.2.2.1]
  | jump rd l =>
      obtain ⟨target, landed, encodable, word⟩ := finish.resolved clear earlier.length
        (.jump rd l) l (by simp [Op.emissions]) rfl
      rw [← start.pos] at encodable word
      refine ⟨_, target, ?_, word, landed, ?_, ?_, ?_⟩
      · rw [step.emitted.size, start.size]
        simp [Op.emissions]
      · exact Emission.destination _ l rfl _ _ encodable
      · simp [Instruction.word, Emission.instruction]
      · simp [Instruction.word, Emission.instruction, rd.of_field_code encodable.1]
  | _ => exact start.settled_plain step finish rfl

end Settled

end Emitted

/-- Labels are resolved over whole runs. The run of `p` breaks no rule; `pre` and `op` are any
prefix of it and the operation that follows. -/
theorem finished_code_leads_to_labels (e : Extensions) (p : Program) (a : Assembler)
    (ran : (Program.run p).run (.new e) = .ok () a) :
    ((∃ v b, Emit.flush.run a = .error v b) ↔ ∃ l, p.RefersTo l ∧ Op.bind l ∉ p) ∧
      ∀ code b, Emit.flush.run a = .ok code b →
        code = b.words.toList.flatMap (Bytes.ofBits instructionSize) ∧
        ∀ pre op post before after, p = pre ++ op :: post →
          (Program.run pre).run (.new e) = .ok () before → op.run.run before = .ok () after →
            op.Settled before after b := by
  obtain ⟨inv, bound⟩ := Program.emitted_new p ran
  have fails : (∃ v b, Emit.flush.run a = .error v b) ↔ Emit.unresolved? a ≠ none := by
    cases found : Emit.unresolved? a <;> simp [Emit.flush, EStateM.run, found]
  refine ⟨fails.trans (Emitted.unresolved_iff p inv bound), ?_⟩
  intro code b flushed
  obtain ⟨clear, rfl, rfl⟩ := Emit.flush_ok.mp flushed
  refine ⟨rfl, ?_⟩
  rintro pre op post before after rfl first second
  obtain ⟨start, -⟩ := Program.emitted_new pre first
  have step := start.advance op second
  have finish := inv.transfer (b := { a with flushed := true }) rfl (fun _ => rfl) (fun _ => rfl)
    fun _ known => known
  have place : before.pos = 0 + Program.size 0 pre := by
    rw [start.pos, Program.size, Nat.zero_add]
  rw [Program.emissions_append, ← place, Program.emissions, ← List.append_assoc] at finish
  exact start.settled step finish clear

/-- A loop with a branch out of it: one label is gone to before it is bound, the other after. -/
def countdown : Program :=
  [.newLabel, .newLabel, .bind ⟨1⟩, .branch .eq .a0 .zero ⟨2⟩,
    .instruction (.immediate .addi .a0 .a0 (-1)), .jump .zero ⟨1⟩, .bind ⟨2⟩]

def Assembler.countedDown : Assembler :=
  { words := #[0x00050663, 0xfff50513, 0xff9ff06f]
    labels := #[⟨some 0, []⟩, ⟨some 12, []⟩]
    comments := []
    extensions := .none
    flushed := false }

theorem countdown_leads_to_labels :
    (Program.run countdown).run (.new .none) = .ok () .countedDown ∧
      ((∃ v b, Emit.flush.run .countedDown = .error v b) ↔
        ∃ l, countdown.RefersTo l ∧ Op.bind l ∉ countdown) ∧
      ∀ code b, Emit.flush.run .countedDown = .ok code b →
        ∀ before after, (Program.run (countdown.take 3)).run (.new .none) = .ok () before →
          (Emit.branch .eq .a0 .zero ⟨2⟩).run before = .ok () after →
            (Op.branch .eq .a0 .zero ⟨2⟩).Settled before after b := by
  have ran : (Program.run countdown).run (.new .none) = .ok () .countedDown := by cbv
  obtain ⟨fails, leads⟩ := finished_code_leads_to_labels .none countdown .countedDown ran
  refine ⟨ran, fails, ?_⟩
  intro code b flushed before after
  exact (leads code b flushed).2 (countdown.take 3) (.branch .eq .a0 .zero ⟨2⟩)
    (countdown.drop 4) before after rfl

end EntryCode
