import EntryCode.Interpreter.Basic
import EntryCode.Proofs.Assembler.Extent
import EntryCode.Proofs.Assembler.Pseudo

/-!
Every routine of an accepted configuration can be emitted. Its operations have operands that can be
encoded, its labels are its own and bound once, and it is short enough for its branches. Only jumps
leave it, to the places that other routines may go to.
-/

namespace EntryCode

section Labels

theorem Routine.mem_all (r : Routine) : r ∈ Routine.all := by
  cases r with
  | resultHandler t => cases t <;> decide
  | entry k =>
      cases k with
      | math m => cases m <;> decide
      | _ => decide
  | _ => decide

theorem Spot.mem_all (s : Spot) : s ∈ Spot.all := by
  cases s <;> decide

variable {r r' : Routine} {s s' : Spot}

theorem Routine.label_inj : r.label s = r'.label s' ↔ r = r' ∧ s = s' := by
  constructor
  · intro same
    have number : 1 + Spot.all.length * Routine.all.idxOf r + Spot.all.idxOf s =
        1 + Spot.all.length * Routine.all.idxOf r' + Spot.all.idxOf s' := by
      simpa only [label, Label.mk.injEq, Int.natCast_inj] using same
    have inside := List.idxOf_lt_length_of_mem s.mem_all
    have inside' := List.idxOf_lt_length_of_mem s'.mem_all
    have length : Spot.all.length = 24 := rfl
    rw [length] at number inside inside'
    refine ⟨(List.idxOf_inj r.mem_all).mp (by omega), (List.idxOf_inj s.mem_all).mp (by omega)⟩
  · rintro ⟨rfl, rfl⟩
    rfl

theorem Routine.label_known {a : Assembler} (size : a.labels.size = Routine.labelCount) :
    a.Knows (r.label s) := by
  have inside := List.idxOf_lt_length_of_mem s.mem_all
  have inside' := List.idxOf_lt_length_of_mem r.mem_all
  have length : Spot.all.length = 24 := rfl
  rw [Assembler.Knows, size, labelCount, label]
  simp only
  rw [length] at inside ⊢
  omega

def Routine.shared : List (Routine × Spot) :=
  [(.forwardException, .start), (.removeActivationException, .start), (.removeActivation, .start),
   (.removeActivation, .common), (.throwStackOverflow, .start)]

/-- The label of a place that other routines go to. -/
def Label.Shared (l : Label) : Prop :=
  ∃ place ∈ Routine.shared, l = place.1.label place.2

end Labels

section Sketches

/-- What an operation does with a label. -/
inductive Mention where
  | branch | jump | bind
  deriving DecidableEq

def Op.mention? : Op → Option (Mention × Label)
  | .branch _ _ _ l => some (.branch, l)
  | .jump _ l => some (.jump, l)
  | .bind l => some (.bind, l)
  | _ => none

def Mention.bound? {α : Type} : Mention × α → Option α
  | (.bind, x) => some x
  | _ => none

/-- The labels of a program, in the order of the code. -/
def Program.outline (p : Program) : List (Mention × Label) :=
  p.filterMap Op.mention?

abbrev Sketch := List (Mention × Routine × Spot)

def Sketch.outline (places : Sketch) : List (Mention × Label) :=
  places.map fun m => (m.1, m.2.1.label m.2.2)

/-- A routine binds places of its own, each once, branches only to those of them that it does not
share, and jumps only to them and to shared places. -/
def Sketch.Sound (r : Routine) (places : Sketch) : Prop :=
  (∀ m ∈ places, m.1 ≠ .jump → m.2.1 = r) ∧ (places.filterMap Mention.bound?).Nodup ∧
    ∀ m ∈ places, (m.1 = .branch → m.2 ∉ Routine.shared) ∧
      (m.1 ≠ .bind → (.bind, m.2) ∈ places ∨ m.2 ∈ Routine.shared)

instance (r : Routine) (places : Sketch) : Decidable (places.Sound r) :=
  inferInstanceAs (Decidable (_ ∧ _ ∧ _))

namespace Routine

def callSketch (r : Routine) (s : Spot) : Sketch :=
  [(.branch, r, s), (.jump, .removeActivationException, .start), (.bind, r, s)]

def countSketch (r : Routine) (compiled profiled : Bool) : Sketch :=
  if compiled then [(.branch, r, .overflow), (.branch, r, .overflow), (.bind, r, .counted)]
  else if profiled then [(.branch, r, .counted), (.bind, r, .counted)] else []

def lockSketch (r : Routine) (synchronized : Bool) : Sketch :=
  if synchronized then
    ([(.branch, r, .lockObject), (.bind, r, .lockObject)] : Sketch) ++ callSketch r .locked else []

def overflowSketch (r : Routine) (compiled : Bool) : Sketch :=
  if compiled then
    ([(.bind, r, .overflow)] : Sketch) ++ callSketch r .overflowDone ++
      ([(.jump, r, .proceed)] : Sketch) else []

def interpretedSketch (compiled profiled synchronized : Bool) : Sketch :=
  let r := entry (if synchronized then .normalSynchronized else .normal)
  List.flatten [
    [(.branch, r, .stackOk), (.jump, .throwStackOverflow, .start), (.bind, r, .stackOk),
     (.branch, r, .zeroed), (.bind, r, .loop), (.branch, r, .loop), (.bind, r, .zeroed)],
    if profiled then [(.branch, r, .noProfile), (.bind, r, .noProfile)] else [],
    countSketch r compiled profiled,
    [(.bind, r, .proceed)],
    if profiled then
      ([(.branch, r, .profiled), (.branch, r, .profiled)] : Sketch) ++ callSketch r .profileDone ++
        ([(.branch, r, .null), (.bind, r, .null), (.bind, r, .profiled)] : Sketch) else [],
    lockSketch r synchronized,
    overflowSketch r compiled]

def nativeSketch (compiled profiled synchronized : Bool) : Sketch :=
  let r := entry (if synchronized then .nativeSynchronized else .native)
  List.flatten [
    countSketch r compiled profiled,
    [(.bind, r, .proceed)],
    lockSketch r synchronized,
    [(.branch, r, .prepare), (.branch, r, .prepared), (.bind, r, .prepare)],
    callSketch r .prepareDone,
    [(.bind, r, .prepared), (.branch, r, .notStatic), (.bind, r, .notStatic),
     (.branch, r, .noSpecial), (.bind, r, .noSpecial)],
    callSketch r .noPending,
    [(.jump, .removeActivation, .start)],
    overflowSketch r compiled]

def sketch (compiled profiled : Bool) : Routine → Sketch
  | .forwardException =>
    [(.bind, .forwardException, .start), (.branch, .forwardException, .present),
     (.bind, .forwardException, .present)]
  | .removeActivationException =>
    [(.bind, .removeActivationException, .start), (.jump, .removeActivation, .common)]
  | .removeActivation =>
    let r := removeActivation
    [(.bind, r, .start), (.bind, r, .common), (.branch, r, .unlocked), (.branch, r, .unlocked),
     (.bind, r, .unlocked), (.branch, r, .returning), (.jump, .forwardException, .start),
     (.bind, r, .returning)]
  | .throwStackOverflow =>
    [(.bind, .throwStackOverflow, .start), (.jump, .forwardException, .start)]
  | .resultHandler .object =>
    let r := resultHandler .object
    [(.bind, r, .start), (.branch, r, .null), (.bind, r, .null)]
  | .resultHandler t => [(.bind, .resultHandler t, .start)]
  | .entry .normal => interpretedSketch compiled profiled false
  | .entry .normalSynchronized => interpretedSketch compiled profiled true
  | .entry .native => nativeSketch compiled profiled false
  | .entry .nativeSynchronized => nativeSketch compiled profiled true
  | .entry .abstract => [(.jump, .forwardException, .start)]
  | .entry (.math _) => []

theorem sketches_sound :
    ∀ compiled profiled, ∀ r ∈ Routine.all, (r.sketch compiled profiled).Sound r := by
  decide +kernel

end Routine

section Outlines
variable {cfg : Config} {e : Extensions}

theorem interpreted_outline (synchronized : Bool) :
    (Entry.interpreted cfg e synchronized).outline =
      (Routine.interpretedSketch cfg.useCompiler cfg.profile synchronized).outline := by
  obtain ⟨⟨compiled, _, profiled, _, _, _⟩, _, _, _⟩ := cfg
  simp only [Entry.interpreted, Fragment.findLocals, Fragment.scaledAdd, Fragment.dispatchFirst]
  cases e.has .zba <;> cases synchronized <;> cases compiled <;> cases profiled <;> rfl

theorem native_outline (synchronized : Bool) :
    (Entry.native cfg e synchronized).outline =
      (Routine.nativeSketch cfg.useCompiler cfg.profile synchronized).outline := by
  obtain ⟨⟨compiled, _, profiled, _, _, _⟩, _, _, _⟩ := cfg
  simp only [Entry.native, Fragment.findLocals, Fragment.scaledAdd]
  cases e.has .zba <;> cases synchronized <;> cases compiled <;> cases profiled <;> rfl

theorem math_outline (m : MathRoutine) : (Entry.math cfg e m).outline = [] := by
  simp only [Entry.math]
  cases Entry.mathInstruction? e m with
  | none => cases m <;> rfl
  | some i => cases m <;> rfl

theorem result_outline (t : BasicType) : (Exit.resultHandler e t).outline =
    (Routine.sketch cfg.useCompiler cfg.profile (.resultHandler t)).outline := by
  simp only [Exit.resultHandler, Exit.convertResult, Fragment.zeroExtendHalf,
    Fragment.signExtendByte, Fragment.signExtendHalf]
  cases t <;> cases e.has .zbb <;> rfl

theorem program_outline {r : Routine} {p : Program} (made : Interpreter.program? cfg e r = some p) :
    p.outline = (r.sketch cfg.useCompiler cfg.profile).outline := by
  cases r with
  | resultHandler t =>
      cases made
      exact result_outline t
  | entry k =>
      cases k with
      | normal =>
          cases made
          exact interpreted_outline false
      | normalSynchronized =>
          cases made
          exact interpreted_outline true
      | native =>
          cases made
          exact native_outline false
      | nativeSynchronized =>
          cases made
          exact native_outline true
      | abstract =>
          cases made
          rfl
      | math m =>
          simp only [Interpreter.program?, Entry.program?, Option.ite_none_right_eq_some] at made
          cases made.2
          exact math_outline m
  | _ =>
      cases made
      rfl

end Outlines

section Labelled
variable {p : Program} {l : Label} {op : Op} {places : Sketch} {r : Routine}

theorem bindings_outlined (p : Program) :
    p.filterMap Op.binding? = p.outline.filterMap Mention.bound? := by
  rw [Program.outline, List.filterMap_filterMap]
  congr
  funext op
  cases op <;> rfl

theorem Sketch.bindings (places : Sketch) : places.outline.filterMap Mention.bound? =
    (places.filterMap Mention.bound?).map fun place => place.1.label place.2 := by
  rw [outline, List.filterMap_map, List.map_filterMap]
  congr
  funext m
  obtain ⟨m, place⟩ := m
  cases m <;> rfl

theorem outlined {m : Mention} : (m, l) ∈ p.outline ↔ ∃ op ∈ p, op.mention? = some (m, l) :=
  List.mem_filterMap

theorem bind_outlined : (.bind, l) ∈ p.outline ↔ Op.bind l ∈ p := by
  rw [outlined]
  constructor
  · rintro ⟨op, member, mentions⟩
    cases op with
    | bind k =>
        cases mentions
        exact member
    | _ => cases mentions
  · intro member
    exact ⟨_, member, rfl⟩

theorem Sketch.mem_outline {m : Mention} : (m, l) ∈ places.outline ↔
    ∃ r s, (m, r, s) ∈ places ∧ l = r.label s := by
  simp [outline, eq_comm]

theorem Sketch.mem_outline_label {m : Mention} {s : Spot} :
    (m, r.label s) ∈ places.outline ↔ (m, r, s) ∈ places := by
  rw [mem_outline]
  constructor
  · rintro ⟨r', s', member, same⟩
    obtain ⟨rfl, rfl⟩ := Routine.label_inj.mp same
    exact member
  · intro member
    exact ⟨r, s, member, rfl⟩

theorem Routine.shared_label {s : Spot} : (r.label s).Shared ↔ (r, s) ∈ Routine.shared := by
  constructor
  · rintro ⟨⟨r', s'⟩, member, same⟩
    obtain ⟨rfl, rfl⟩ := label_inj.mp same
    exact member
  · intro member
    exact ⟨(r, s), member, rfl⟩

/-- The labels of a routine: its own are bound once, and its branches go to them. -/
structure Routine.Labelled (r : Routine) (p : Program) : Prop where
  places : ∀ op ∈ p, ∀ l, op.label? = some l ∨ op.binding? = some l → ∃ r' s, l = Routine.label r' s
  own : ∀ l, Op.bind l ∈ p → ∃ s, l = r.label s
  once : (p.filterMap Op.binding?).Nodup
  inner : ∀ c rs1 rs2 l, Op.branch c rs1 rs2 l ∈ p → ¬l.Shared
  inward : ∀ l, p.RefersTo l → ¬l.Shared → Op.bind l ∈ p

theorem Sketch.Sound.labelled (sound : places.Sound r) (same : p.outline = places.outline) :
    r.Labelled p := by
  obtain ⟨own, once, inward⟩ := sound
  have placed : ∀ op ∈ p, ∀ m l, op.mention? = some (m, l) →
      ∃ r' s, l = Routine.label r' s ∧ (m, r', s) ∈ places := by
    intro op member m l mentions
    obtain ⟨r', s, found, rfl⟩ := Sketch.mem_outline.mp (same ▸ outlined.mpr ⟨op, member, mentions⟩)
    exact ⟨r', s, rfl, found⟩
  have goes : ∀ op ∈ p, ∀ l, op.label? = some l → ∃ m r' s, m ≠ .bind ∧ l = Routine.label r' s ∧
      (m, r', s) ∈ places := by
    intro op member l directed
    cases op with
    | branch c rs1 rs2 k =>
        obtain ⟨r', s, named, found⟩ := placed _ member .branch k rfl
        cases directed
        exact ⟨.branch, r', s, by decide, named, found⟩
    | jump rd k =>
        obtain ⟨r', s, named, found⟩ := placed _ member .jump k rfl
        cases directed
        exact ⟨.jump, r', s, by decide, named, found⟩
    | _ => cases directed
  refine ⟨?_, ?_, ?_, ?_, ?_⟩
  · rintro op member l (directed | binds)
    · obtain ⟨-, r', s, -, named, -⟩ := goes op member l directed
      exact ⟨r', s, named⟩
    · obtain rfl := Op.binding_iff.mp binds
      obtain ⟨r', s, named, -⟩ := placed _ member .bind l rfl
      exact ⟨r', s, named⟩
  · intro l member
    obtain ⟨r', s, rfl, found⟩ := placed _ member .bind l rfl
    obtain rfl := own _ found nofun
    exact ⟨s, rfl⟩
  · rw [bindings_outlined, same, Sketch.bindings]
    refine once.map ?_
    rintro ⟨r₁, s₁⟩ ⟨r₂, s₂⟩ equal
    obtain ⟨rfl, rfl⟩ := Routine.label_inj.mp equal
    rfl
  · intro c rs1 rs2 l member
    obtain ⟨r', s, rfl, found⟩ := placed _ member .branch l rfl
    rw [Routine.shared_label]
    exact (inward _ found).1 rfl
  · rintro l ⟨op, member, directed⟩ unshared
    obtain ⟨m, r', s, other, rfl, found⟩ := goes op member l directed
    rw [Routine.shared_label] at unshared
    rw [← bind_outlined, same, Sketch.mem_outline_label]
    exact ((inward _ found).2 other).resolve_right unshared

end Labelled
end Sketches

end EntryCode
