import EntryCode.Proofs.Assembler.Gating

/-!
What operations that break a rule leave behind. Most look at everything before they do anything, so
that it is as if they had not been tried. The others mark a label first: a branch or a jump to a
label that is not bound waits for it before its registers are looked at, and a label is bound before
the branches that wait for it are sent there.
-/

namespace EntryCode

/-- Operations of one instruction, and those that bind a label. -/
def Op.Simple : Op → Prop
  | .instruction _ | .branch .. | .branchTo .. | .jump .. | .jumpTo .. | .bind _ => True
  | _ => False

/-- Whether an operation marks a label before all is looked at. -/
def Op.Marks (a : Assembler) : Op → Prop
  | .branch c _ _ l => c.isValid = true ∧ a.Knows l ∧ a.bound? l = none
  | .jump _ l => a.Knows l ∧ a.bound? l = none
  | .bind l => a.flushed = false ∧ a.Knows l ∧ a.bound? l = none
  | _ => False

/-- What is left where an operation marks a label and then breaks a rule. A branch or a jump waits
for the label without being there. A label is bound and the branches before the one that cannot be
sent there were sent. -/
def Op.Remains (a : Assembler) (v : Violation) (c : Assembler) : Op → Prop
  | .branch _ _ _ l | .jump _ l => c = a.setLabel l ⟨none, a.waiting l ++ [a.pos]⟩
  | .bind l => ∃ sent p rest, a.waiting l = sent ++ p :: rest ∧
      EStateM.run (forM sent (Emit.patch a.pos)) (a.setLabel l ⟨some a.pos, a.waiting l⟩) =
        .ok () c ∧
      (Emit.patch a.pos p).run c = .error v c
  | _ => False

namespace Emit

section Failures
variable {α β : Type} {a c : Assembler} {v : Violation}

/-- A list of operations breaks a rule at one of them, after those before it. -/
theorem for_failed {xs : List α} {f : α → Emit PUnit} (whole : ∀ x, Whole (f x))
    (failed : EStateM.run (forM xs f) a = .error v c) : ∃ done x rest, xs = done ++ x :: rest ∧
      EStateM.run (forM done f) a = .ok () c ∧ (f x).run c = .error v c := by
  induction xs generalizing a with
  | nil => cases failed
  | cons x rest ih =>
      rw [List.forM_cons, EStateM.run_bind] at failed
      cases ran : (f x).run a with
      | error v' b =>
          rw [ran] at failed
          cases failed
          obtain rfl := whole x a v c ran
          exact ⟨[], x, rest, rfl, rfl, ran⟩
      | ok _ b =>
          rw [ran] at failed
          obtain ⟨done, y, later, rfl, before, here⟩ := ih failed
          refine ⟨x :: done, y, later, rfl, ?_, here⟩
          rw [List.forM_cons, EStateM.run_bind, ran]
          exact before

theorem labels_patches {dest : Nat} {ps : List Nat}
    (sent : EStateM.run (forM ps (patch dest)) a = .ok () c) : c.labels = a.labels := by
  induction ps generalizing a with
  | nil =>
      cases sent
      rfl
  | cons p rest ih =>
      rw [List.forM_cons, bind_ok] at sent
      obtain ⟨_, b, first, later⟩ := sent
      obtain ⟨i, w, retargeted, -, -, -, rfl⟩ := patch_ok.mp first
      have kept := ih later
      exact kept

/-- What follows a reference to a label may break a rule, but the place is remembered then. -/
theorem refer_failed {l : Label} {f : Dword → Emit Unit} (whole : ∀ disp, Whole (f disp))
    (failed : (refer l >>= f).run a = .error v c) :
    (a.Knows l ∧ a.bound? l = none) ∧ c = a.setLabel l ⟨none, a.waiting l ++ [a.pos]⟩ ∨
      ¬(a.Knows l ∧ a.bound? l = none) ∧ c = a := by
  rw [EStateM.run_bind] at failed
  by_cases known : a.Knows l
  · rw [refer_known known] at failed
    have awaits : c = a.await l := whole _ _ _ _ failed
    rw [Assembler.await] at awaits
    cases bound : a.bound? l with
    | none =>
        rw [bound] at awaits
        exact .inl ⟨⟨known, rfl⟩, awaits⟩
    | some target =>
        rw [bound] at awaits
        exact .inr ⟨fun marks => (Option.some_ne_none target) marks.2, awaits⟩
  · rw [refer, EStateM.run_bind, check_label_foreign known] at failed
    cases failed
    exact .inr ⟨fun marks => known marks.1, rfl⟩

theorem bind_label_failed {l : Label} (failed : (Emit.bind l).run a = .error v c) :
    (Op.bind l).Marks a ∧ (Op.bind l).Remains a v c ∨ ¬(Op.bind l).Marks a ∧ c = a := by
  by_cases marks : (Op.bind l).Marks a
  · left
    obtain ⟨unflushed, known, unbound⟩ := marks
    have found : (check (·.labelState l)).run a = .ok ⟨none, a.waiting l⟩ a :=
      check_ok.mpr ⟨unbound ▸ Assembler.label_state_eq known, rfl⟩
    refine ⟨⟨unflushed, known, unbound⟩, ?_⟩
    cases sent : EStateM.run (forM (a.waiting l) (patch a.pos))
        (a.setLabel l ⟨some a.pos, a.waiting l⟩) with
    | ok _ b => simp [Emit.bind, unflushed, found, sent] at failed
    | error v' b =>
        have stopped : v' = v ∧ b = c := by
          simpa [Emit.bind, unflushed, found, sent] using failed
        obtain ⟨rfl, rfl⟩ := stopped
        exact for_failed (whole_patch a.pos) sent
  · right
    refine ⟨marks, ?_⟩
    -- Each of the three checks stops the operation before it does anything.
    cases flushed : a.flushed with
    | true =>
        have stopped : Violation.bindAfterFlush l = v ∧ a = c := by
          simpa [Emit.bind, flushed] using failed
        exact stopped.2.symm
    | false =>
        by_cases known : a.Knows l
        · cases bound : a.bound? l with
          | none => exact absurd ⟨flushed, known, bound⟩ marks
          | some target =>
              have found : (check (·.labelState l)).run a = .ok ⟨some target, a.waiting l⟩ a :=
                check_ok.mpr ⟨bound ▸ Assembler.label_state_eq known, rfl⟩
              have stopped : Violation.boundTwice l target = v ∧ a = c := by
                simpa [Emit.bind, flushed, found] using failed
              exact stopped.2.symm
        · have stopped : Violation.foreignLabel l = v ∧ a = c := by
            simpa [Emit.bind, flushed, check_label_foreign known] using failed
          exact stopped.2.symm

end Failures

end Emit

section Operations
variable {op : Op} {a c : Assembler} {v : Violation}

/-- What remains of an operation that marks a label differs at that label. -/
theorem Op.remains_ne (marks : op.Marks a) (remains : op.Remains a v c) : c ≠ a := by
  rintro rfl
  have waited : ∀ l, c.Knows l → c.setLabel l ⟨none, c.waiting l ++ [c.pos]⟩ ≠ c := by
    intro l known same
    have longer := Assembler.waiting_set_label c l l ⟨none, c.waiting l ++ [c.pos]⟩ known
    rw [same, if_pos rfl] at longer
    simp at longer
  cases op with
  | branch cond rs1 rs2 l => exact waited l marks.2.1 remains.symm
  | jump rd l => exact waited l marks.1 remains.symm
  | bind l =>
      obtain ⟨-, known, unbound⟩ := marks
      obtain ⟨sent, p, rest, -, before, -⟩ := remains
      have labels := Emit.labels_patches before
      have bound := Assembler.bound_of_labels labels l
      rw [unbound, Assembler.bound_set_label _ _ _ _ known, if_pos rfl] at bound
      cases bound
  | _ => exact marks

theorem Op.rejected (simple : op.Simple) (failed : op.run.run a = .error v c) :
    op.Marks a ∧ op.Remains a v c ∨ ¬op.Marks a ∧ c = a := by
  cases op with
  | instruction i => exact .inr ⟨id, Emit.whole_instruction i a v c failed⟩
  | branch cond rs1 rs2 l =>
      cases valid : cond.isValid with
      | false =>
          have refused : Violation.condition cond = v ∧ a = c := by
            simpa [Op.run, Emit.branch, valid] using failed
          refine .inr ⟨fun marks => ?_, refused.2.symm⟩
          rw [marks.1] at valid
          cases valid
      | true =>
          rw [Op.run, Emit.branch_valid valid] at failed
          rcases Emit.refer_failed (fun _ => Emit.whole_instruction _) failed with
            ⟨marks, remains⟩ | ⟨unmarked, same⟩
          · exact .inl ⟨⟨valid, marks⟩, remains⟩
          · exact .inr ⟨fun marks => unmarked marks.2, same⟩
  | branchTo cond rs1 rs2 target =>
      rw [Op.run, Emit.branch_to_run] at failed
      exact .inr ⟨id, Emit.whole_instruction _ a v c failed⟩
  | jump rd l => exact Emit.refer_failed (fun _ => Emit.whole_instruction _) failed
  | jumpTo rd target =>
      rw [Op.run, Emit.jump_to_run] at failed
      exact .inr ⟨id, Emit.whole_instruction _ a v c failed⟩
  | bind l => exact Emit.bind_label_failed failed
  | _ => exact simple.elim

/-- No operation of a program that is tried breaks a rule after it marked a label. -/
def Program.Unmarked : Program → Assembler → Prop
  | [], _ => True
  | op :: rest, a =>
    (∀ v c, op.run.run a = .error v c → op.Simple ∧ ¬op.Marks a) ∧
      Unmarked rest (Emit.left (op.run.run a))

/-- The operations of a program that break no rule when all of it is tried. -/
def Program.accepted : Program → Assembler → Program
  | [], _ => []
  | op :: rest, a =>
    match op.run.run a with
    | .ok _ b => op :: accepted rest b
    | .error _ c => accepted rest c

/-- Then it is as if the operations that broke a rule had never been tried. -/
theorem Program.attempt_accepted (p : Program) (unmarked : p.Unmarked a) :
    (p.accepted a).run.run a = .ok () (p.attempt a) := by
  induction p generalizing a with
  | nil => rfl
  | cons op rest ih =>
      obtain ⟨here, later⟩ := unmarked
      rw [accepted, attempt]
      cases ran : op.run.run a with
      | ok _ b =>
          rw [ran] at later
          have first : Program.run (op :: accepted rest b) =
              op.run >>= fun _ => Program.run (accepted rest b) := List.forM_cons
          rw [first, EStateM.run_bind, ran]
          exact ih later
      | error v c =>
          rw [ran] at later
          obtain ⟨simple, unmarks⟩ := here v c ran
          -- What broke the rule left the assembler as it was, and so it is with the rest.
          rcases Op.rejected simple ran with ⟨marks, -⟩ | ⟨-, rfl⟩
          · exact absurd marks unmarks
          · exact ih later

end Operations

/-- An operation that breaks a rule leaves the assembler as it was, unless it marks a label before
all is looked at. Then the mark stays: the label waits for a branch that is not there, or it is
bound and some of its branches are not sent to it. -/
theorem rejected_operations_leave {op : Op} {a c : Assembler} {v : Violation} (simple : op.Simple)
    (rejected : op.run.run a = .error v c) :
    (c = a ↔ ¬op.Marks a) ∧ (op.Marks a → op.Remains a v c) := by
  rcases Op.rejected simple rejected with ⟨marks, remains⟩ | ⟨unmarked, same⟩
  · constructor
    · exact iff_of_false (Op.remains_ne marks remains) (not_not.mpr marks)
    · exact fun _ => remains
  · constructor
    · exact iff_of_true same unmarked
    · exact fun marks => absurd marks unmarked

/-- A label that is bound already is not marked by a branch to it. -/
theorem rejected_branch_to_bound_label :
    ∃ (a c : Assembler) (v : Violation), a.bound? ⟨1⟩ = some 0 ∧
      (Op.branch .eq ⟨32⟩ .zero ⟨1⟩).run.run a = .error v c ∧ c = a := by
  have simple : (Op.branch .eq ⟨32⟩ .zero ⟨1⟩).Simple := trivial
  have rejected : (Op.branch .eq ⟨32⟩ .zero ⟨1⟩).run.run ⟨#[], #[⟨some 0, []⟩], [], .none, false⟩ =
      .error (.register ⟨32⟩) ⟨#[], #[⟨some 0, []⟩], [], .none, false⟩ := rfl
  refine ⟨_, _, _, rfl, rejected, (rejected_operations_leave simple rejected).1.mpr ?_⟩
  rintro ⟨-, -, unbound⟩
  cases unbound

/-- A label waits for a branch that was never emitted, and cannot be bound where the branch would
not have been one. -/
theorem rejected_branch_is_awaited :
    ∃ (a c : Assembler) (v : Violation),
      (Program.run [.newLabel]).run (.new .none) = .ok () a ∧
        (Op.branch .eq ⟨32⟩ .zero ⟨1⟩).run.run a = .error v c ∧ c ≠ a ∧
          (∃ b, (Program.run [.instruction Pseudo.nop, .bind ⟨1⟩]).run a = .ok () b) ∧
            ∃ w b, (Program.run [.instruction Pseudo.nop, .bind ⟨1⟩]).run c = .error w b := by
  refine ⟨_, _, _, rfl, rfl, ?_, ⟨_, rfl⟩, _, _, rfl⟩
  decide

end EntryCode
