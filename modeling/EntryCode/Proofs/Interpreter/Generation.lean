import EntryCode.Proofs.Interpreter.Routine

/-!
The interpreter of an accepted configuration can be generated. Its routines are emitted one after
the other, and every jump between them reaches.
-/

namespace EntryCode

namespace Layout

variable {F : Type} [RecordField F] {l : Layout F}

/-- The offsets of an accepted layout are memory immediates, aligned to the width. -/
theorem offset_of_accepted (accepted : l.problem? = none) {f : F} (listed : f ∈ RecordField.all) :
    (l.offset f).toNat < 2048 ∧ (l.offset f).toNat % RecordField.width f = 0 := by
  have fine := List.findSome?_eq_none_iff.mp accepted f listed
  simp only [check] at fine
  split at fine
  · cases fine
  · next inside =>
      split at fine
      · cases fine
      · next aligned =>
          have value := (l.offset f).toInt_eq_toNat_cond
          have bound := (l.offset f).isLt
          refine ⟨?_, not_not.mp aligned⟩
          split at value <;> omega

theorem fits_of_accepted (accepted : l.problem? = none) {f : F} (listed : f ∈ RecordField.all) :
    Field.fitsSigned (l.offset f) 12 = true := by
  obtain ⟨small, -⟩ := offset_of_accepted accepted listed
  have value := (l.offset f).toInt_eq_toNat_cond
  rw [Field.fits_signed_iff _ 12 (by omega) (by omega)]
  split at value <;> omega

end Layout

theorem MethodField.mem_all (f : MethodField) : f ∈ MethodField.all := by
  cases f <;> decide

theorem ThreadField.mem_all (f : ThreadField) : f ∈ ThreadField.all := by
  cases f <;> decide

namespace Config

variable {cfg : Config}

theorem layouts_of_accepted (accepted : cfg.problem? = none) :
    cfg.method.problem? = none ∧ cfg.thread.problem? = none := by
  simp only [problem?, Option.or_eq_none_iff, Option.map_eq_none_iff] at accepted
  exact ⟨accepted.1, accepted.2.1⟩

/-- Every offset of an accepted configuration is a memory immediate. -/
structure Reachable (cfg : Config) : Prop where
  method : ∀ f, Field.fitsSigned (cfg.method.offset f) 12 = true
  thread : ∀ f, Field.fitsSigned (cfg.thread.offset f) 12 = true

theorem reachable_of_accepted (accepted : cfg.problem? = none) : cfg.Reachable := by
  obtain ⟨method, thread⟩ := layouts_of_accepted accepted
  exact ⟨fun f => Layout.fits_of_accepted method f.mem_all,
    fun f => Layout.fits_of_accepted thread f.mem_all⟩

end Config

def Program.Admissible (e : Extensions) (p : Program) : Prop :=
  ∀ op ∈ p, op.Admissible e

section Parts
variable {e : Extensions} {op : Op} {p q : Program} {b : Prop} [Decidable b]

theorem Program.admissible_nil : Program.Admissible e [] :=
  List.forall_mem_nil _

theorem Program.admissible_cons :
    Program.Admissible e (op :: p) ↔ op.Admissible e ∧ p.Admissible e :=
  List.forall_mem_cons

theorem Program.admissible_append :
    Program.Admissible e (p ++ q) ↔ p.Admissible e ∧ q.Admissible e :=
  List.forall_mem_append

theorem Program.admissible_if : Program.Admissible e (if b then p else q) ↔
    (b → p.Admissible e) ∧ (¬b → q.Admissible e) := by
  split <;> simp_all

theorem Program.extent_nil : Program.extent [] = 0 := rfl

theorem Program.extent_cons : Program.extent (op :: p) = op.extent + p.extent := by
  simp [extent]

theorem Program.extent_if :
    Program.extent (if b then p else q) = if b then p.extent else q.extent := by
  split <;> rfl

/-- An operation whose note, if it is one, has room in any record of notes. -/
def Op.Brief : Op → Prop
  | .comment text => (Text.utf8 text).length < 2 ^ 64
  | _ => True

def Program.Brief (p : Program) : Prop :=
  ∀ op ∈ p, op.Brief

theorem Program.brief_nil : Program.Brief [] :=
  List.forall_mem_nil _

theorem Program.brief_cons : Program.Brief (op :: p) ↔ op.Brief ∧ p.Brief :=
  List.forall_mem_cons

theorem Program.brief_append : Program.Brief (p ++ q) ↔ p.Brief ∧ q.Brief :=
  List.forall_mem_append

theorem Program.brief_if : Program.Brief (if b then p else q) ↔
    (b → p.Brief) ∧ (¬b → q.Brief) := by
  split <;> simp_all

end Parts

section Operands
variable {e : Extensions}

theorem Pseudo.call_emittable (addr : Dword) :
    Emittable e (Pseudo.callAddress addr .t0) := by
  refine ⟨_, Pseudo.call_address_plan .t0 addr (by decide), Pseudo.after_constant (by decide) ?_⟩
  simp +decide [Instruction.Encodable, Instruction.Available, Instruction.requirement?]

theorem Pseudo.jump_emittable (addr : Dword) :
    Emittable e (Pseudo.jumpAddress addr .t0) := by
  refine ⟨_, Pseudo.jump_address_plan .t0 addr (by decide), Pseudo.after_constant (by decide) ?_⟩
  simp +decide [Instruction.Encodable, Instruction.Available, Instruction.requirement?]

end Operands

section Routines

open Fragment Exit

theorem program_cases {cfg : Config} {e : Extensions} {P : Program → Prop} {r : Routine}
    {p : Program} (made : Interpreter.program? cfg e r = some p)
    (interpreted : ∀ synchronized, P (Entry.interpreted cfg e synchronized))
    (native : ∀ synchronized, P (Entry.native cfg e synchronized))
    (abstract : P (Entry.abstract cfg)) (math : ∀ m, P (Entry.math cfg e m))
    (result : ∀ t, P (resultHandler e t)) (forward : P (forwardException cfg))
    (except : P removeActivationException) (remove : P (removeActivation cfg))
    (overflow : P (throwStackOverflow cfg)) : P p := by
  cases r with
  | resultHandler t =>
      cases made
      exact result t
  | entry k =>
      cases k with
      | normal | normalSynchronized =>
          cases made
          exact interpreted _
      | native | nativeSynchronized =>
          cases made
          exact native _
      | abstract =>
          cases made
          exact abstract
      | math m =>
          simp only [Interpreter.program?, Entry.program?, Option.ite_none_right_eq_some] at made
          cases made.2
          exact math m
  | forwardException =>
      cases made
      exact forward
  | removeActivationException =>
      cases made
      exact except
  | removeActivation =>
      cases made
      exact remove
  | throwStackOverflow =>
      cases made
      exact overflow

attribute [local simp] Op.addi Op.andi Op.slli Op.srli Op.srai Op.add Op.sub Op.or Op.mv Op.snez
  Op.sextW Op.here Op.lbu Op.lhu Op.lwu Op.ld Op.sw Op.sd Op.fld Op.fsd Op.fence Op.beqz Op.bnez
  Op.bltu Op.bgeu Op.j Op.jr Op.ret Op.ebreak Op.callRegister Pseudo.mv Pseudo.snez Pseudo.sextW
  Pseudo.jr Pseudo.ret

attribute [local simp] scaledAdd signExtendByte signExtendHalf zeroExtendHalf publishAnchor
  clearAnchor checkPending callRuntime callLeaf saveReturn restoreReturn saveResult restoreResult
  loadFlags publishState findLocals checkStack setProfileCell fixedFrame countInvocation
  counterOverflow profileMethod lockMethod dispatchFirst

section Operands

attribute [local simp] Program.admissible_nil Program.admissible_cons Program.admissible_append
  Program.admissible_if Op.Admissible Instruction.Encodable Instruction.Available
  Instruction.requirement? Format.reaches_zero Pseudo.constant_emittable Pseudo.call_emittable
  Pseudo.jump_emittable

variable {cfg : Config} {e : Extensions}

theorem interpreted_admissible (reach : cfg.Reachable) (synchronized : Bool) :
    (Entry.interpreted cfg e synchronized).Admissible e := by
  simp +decide [Entry.interpreted, reach.method, reach.thread]

theorem native_admissible (reach : cfg.Reachable) (synchronized : Bool) :
    (Entry.native cfg e synchronized).Admissible e := by
  simp +decide [Entry.native, reach.method, reach.thread]

theorem math_admissible (m : MathRoutine) : (Entry.math cfg e m).Admissible e := by
  by_cases has : e.has .d = true
  · cases m <;>
      simp +decide [Entry.math, Entry.mathInstruction?, MathRoutine.instruction?, has]
  · simp +decide [Entry.math, Entry.mathInstruction?, has]

theorem result_admissible (t : BasicType) : (resultHandler e t).Admissible e := by
  cases t <;> simp +decide [resultHandler, convertResult]

theorem program_admissible (reach : cfg.Reachable) {r : Routine} {p : Program}
    (made : Interpreter.program? cfg e r = some p) : p.Admissible e := by
  refine program_cases made (interpreted_admissible reach) (native_admissible reach) ?abstract
    math_admissible result_admissible ?forward ?except ?remove ?overflow
  case abstract => simp +decide [Entry.abstract]
  case forward => simp +decide [forwardException, reach.thread]
  case except => simp +decide [removeActivationException]
  case remove => simp +decide [removeActivation, reach.method]
  case overflow => simp +decide [throwStackOverflow]

end Operands

section Extents

attribute [local simp] Program.extent_append Program.extent_cons Program.extent_nil
  Program.extent_if Op.extent

variable (cfg : Config) (e : Extensions)

theorem interpreted_extent (synchronized : Bool) :
    (Entry.interpreted cfg e synchronized).extent < 1024 := by
  simp [Entry.interpreted]
  split_ifs <;> omega

theorem native_extent (synchronized : Bool) :
    (Entry.native cfg e synchronized).extent < 1024 := by
  simp [Entry.native]
  split_ifs <;> omega

theorem math_extent (m : MathRoutine) : (Entry.math cfg e m).extent < 1024 := by
  rw [Entry.math]
  cases Entry.mathInstruction? e m with
  | none => cases m <;> simp
  | some i => cases m <;> simp

theorem result_extent (t : BasicType) : (resultHandler e t).extent < 1024 := by
  cases t <;> simp [resultHandler, convertResult]
  all_goals split_ifs <;> omega

variable {cfg e}

theorem program_extent {r : Routine} {p : Program}
    (made : Interpreter.program? cfg e r = some p) : p.extent < 1024 := by
  refine program_cases (P := fun p => p.extent < 1024) made (interpreted_extent cfg e)
    (native_extent cfg e) ?abstract (math_extent cfg e) (result_extent e) ?forward ?except ?remove
    ?overflow
  case abstract => simp [Entry.abstract]
  case forward => simp [forwardException]
  case except => simp [removeActivationException]
  case remove => simp [removeActivation]
  case overflow => simp [throwStackOverflow]

end Extents

section Notes

attribute [local simp] Program.brief_nil Program.brief_cons Program.brief_append
  Program.brief_if Op.Brief

variable (cfg : Config) (e : Extensions)

-- The texts are measured byte by byte.
set_option maxRecDepth 2000 in
theorem interpreted_brief (synchronized : Bool) : (Entry.interpreted cfg e synchronized).Brief := by
  simp +decide [Entry.interpreted]

set_option maxRecDepth 2000 in
theorem native_brief (synchronized : Bool) : (Entry.native cfg e synchronized).Brief := by
  simp +decide [Entry.native]

theorem math_brief (m : MathRoutine) : (Entry.math cfg e m).Brief := by
  have named : (Text.utf8 s!"call_leaf {(EntryKind.math m).name}").length < 2 ^ 64 := by
    cases m <;> decide +kernel
  rw [Entry.math]
  cases Entry.mathInstruction? e m with
  | none => simpa using named
  | some i => simp

theorem result_brief (t : BasicType) : (resultHandler e t).Brief := by
  cases t <;> simp [resultHandler, convertResult]

variable {cfg e}

theorem program_brief {r : Routine} {p : Program}
    (made : Interpreter.program? cfg e r = some p) : p.Brief := by
  refine program_cases made (interpreted_brief cfg e) (native_brief cfg e) ?abstract
    (math_brief cfg e) (result_brief e) ?forward ?except ?remove ?overflow
  case abstract => simp +decide [Entry.abstract]
  case forward => simp [forwardException]
  case except => simp [removeActivationException]
  case remove => simp +decide [removeActivation]
  case overflow => simp +decide [throwStackOverflow]

end Notes

section Lengths

variable (cfg : Config) (e : Extensions)

theorem interpreted_length (synchronized : Bool) :
    (Entry.interpreted cfg e synchronized).length < 1024 := by
  simp [Entry.interpreted, apply_ite List.length]
  split_ifs <;> omega

theorem native_length (synchronized : Bool) : (Entry.native cfg e synchronized).length < 1024 := by
  simp [Entry.native, apply_ite List.length]
  split_ifs <;> omega

theorem math_length (m : MathRoutine) : (Entry.math cfg e m).length < 1024 := by
  rw [Entry.math]
  cases Entry.mathInstruction? e m with
  | none => cases m <;> simp
  | some i => cases m <;> simp

theorem result_length (t : BasicType) : (resultHandler e t).length < 1024 := by
  cases t <;> simp [resultHandler, convertResult, apply_ite List.length]
  all_goals split_ifs <;> omega

variable {cfg e}

theorem program_length {r : Routine} {p : Program}
    (made : Interpreter.program? cfg e r = some p) : p.length < 1024 := by
  refine program_cases (P := fun p => p.length < 1024) made (interpreted_length cfg e)
    (native_length cfg e) ?abstract (math_length cfg e) (result_length e) ?forward ?except ?remove
    ?overflow
  case abstract => simp [Entry.abstract]
  case forward => simp [forwardException]
  case except => simp [removeActivationException]
  case remove => simp [removeActivation]
  case overflow => simp [throwStackOverflow]

end Lengths

end Routines

end EntryCode
