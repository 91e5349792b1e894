import EntryCode.Proofs.Assembler.Ending
import EntryCode.Proofs.Interpreter.Tiling
import EntryCode.Proofs.Interpreter.Totality
import EntryCode.Proofs.Machine.Memory

/-!
The code of an interpreter is closed. Nothing in it branches out of it, and no routine runs on into
the next one.
-/

namespace EntryCode

namespace Entry
variable (cfg : Config) (e : Extensions)

theorem interpreted_ends (synchronized : Bool) : Program.Leaves (interpreted cfg e synchronized) := by
  obtain ⟨⟨compiled, _, profiled, _, _, _⟩, _, _, _⟩ := cfg
  cases compiled with
  | true =>
      refine ⟨.j ((Routine.entry (if synchronized then .normalSynchronized else .normal)).label
        .proceed), ?_, Op.j_leaves _⟩
      simp only [interpreted, Fragment.findLocals, Fragment.scaledAdd, Fragment.dispatchFirst]
      cases e.has .zba <;> cases synchronized <;> cases profiled <;> rfl
  | false =>
      refine ⟨.jr .t0, ?_, Op.jr_leaves .t0⟩
      simp only [interpreted, Fragment.findLocals, Fragment.scaledAdd, Fragment.dispatchFirst]
      cases e.has .zba <;> cases synchronized <;> cases profiled <;> rfl

theorem native_ends (synchronized : Bool) : Program.Leaves (native cfg e synchronized) := by
  obtain ⟨⟨compiled, _, profiled, _, _, _⟩, _, _, _⟩ := cfg
  cases compiled with
  | true =>
      refine ⟨.j ((Routine.entry (if synchronized then .nativeSynchronized else .native)).label
        .proceed), ?_, Op.j_leaves _⟩
      simp only [native, Fragment.findLocals, Fragment.scaledAdd]
      cases e.has .zba <;> cases synchronized <;> cases profiled <;> rfl
  | false =>
      refine ⟨.j (Routine.removeActivation.label .start), ?_, Op.j_leaves _⟩
      simp only [native, Fragment.findLocals, Fragment.scaledAdd]
      cases e.has .zba <;> cases synchronized <;> cases profiled <;> rfl

theorem interpreted_by_label (synchronized : Bool) :
    (interpreted cfg e synchronized).all Op.byLabel = true := by
  obtain ⟨⟨compiled, _, profiled, _, _, _⟩, _, _, _⟩ := cfg
  simp only [interpreted, Fragment.findLocals, Fragment.scaledAdd, Fragment.dispatchFirst]
  cases e.has .zba <;> cases synchronized <;> cases compiled <;> cases profiled <;> rfl

set_option maxRecDepth 1024 in
theorem native_by_label (synchronized : Bool) :
    (native cfg e synchronized).all Op.byLabel = true := by
  obtain ⟨⟨compiled, _, profiled, _, _, _⟩, _, _, _⟩ := cfg
  simp only [native, Fragment.findLocals, Fragment.scaledAdd]
  cases e.has .zba <;> cases synchronized <;> cases compiled <;> cases profiled <;> rfl

theorem math_by_label (m : MathRoutine) : (math cfg e m).all Op.byLabel = true := by
  simp only [math, mathInstruction?]
  cases e.has .d <;> cases m <;> rfl

theorem program_some (k : EntryKind) :
    (program? cfg e k).isSome = true ↔ ∀ m, k = .math m →
      cfg.math = true ∧
        (e.has .d = true ∧ (m = .sqrt ∨ m = .abs) ∨ cfg.callees.address m.callee ≠ 0) := by
  cases k with
  | math m =>
      simp only [program?, EntryKind.math.injEq, forall_eq']
      cases has : e.has .d <;> cases m <;>
        simp [mathAvailable, mathInstruction?, MathRoutine.instruction?, has]
  | _ => simp [program?]

end Entry

theorem Exit.result_by_label (e : Extensions) (t : BasicType) :
    (resultHandler e t).all Op.byLabel = true := by
  simp only [resultHandler, convertResult, Fragment.zeroExtendHalf, Fragment.signExtendByte,
    Fragment.signExtendHalf]
  cases t <;> cases e.has .zbb <;> rfl

namespace Interpreter

section Programs
variable {cfg : Config} {e : Extensions} {r : Routine} {p : Program}

theorem program_leaves (made : program? cfg e r = some p) : p.Leaves := by
  cases r with
  | forwardException =>
      cases made
      exact ⟨_, rfl, Op.jump_address_leaves _ (by decide)⟩
  | removeActivationException =>
      cases made
      exact ⟨_, rfl, Op.j_leaves _⟩
  | removeActivation =>
      cases made
      exact ⟨_, rfl, Op.ret_leaves⟩
  | throwStackOverflow =>
      cases made
      exact ⟨_, rfl, Op.j_leaves _⟩
  | resultHandler t =>
      cases made
      rw [Exit.resultHandler, List.flatten_cons, List.flatten_cons]
      exact .append _ (.append _ ⟨_, rfl, Op.ret_leaves⟩)
  | entry k =>
      cases k with
      | normal | normalSynchronized =>
          cases made
          exact Entry.interpreted_ends cfg e _
      | native | nativeSynchronized =>
          cases made
          exact Entry.native_ends cfg e _
      | abstract =>
          cases made
          exact ⟨_, rfl, Op.j_leaves _⟩
      | math m =>
          simp only [program?, Entry.program?, Option.ite_none_right_eq_some] at made
          cases made.2
          rw [Entry.math, List.flatten_cons, List.flatten_cons]
          exact .append _ (.append _ ⟨_, rfl, Op.ret_leaves⟩)

theorem program_by_label (made : program? cfg e r = some p) : ∀ op ∈ p, op.byLabel = true := by
  apply List.all_eq_true.mp
  cases r with
  | resultHandler t =>
      cases made
      exact Exit.result_by_label e t
  | entry k =>
      cases k with
      | normal | normalSynchronized =>
          cases made
          exact Entry.interpreted_by_label cfg e _
      | native | nativeSynchronized =>
          cases made
          exact Entry.native_by_label cfg e _
      | abstract =>
          cases made
          rfl
      | math m =>
          simp only [program?, Entry.program?, Option.ite_none_right_eq_some] at made
          cases made.2
          exact Entry.math_by_label cfg e m
  | _ =>
      cases made
      rfl

theorem joined_leaves {ps : List (Routine × Program)} (some : ps ≠ [])
    (leave : ∀ q ∈ ps, q.2.Leaves) : (joined ps).Leaves := by
  induction ps with
  | nil => exact absurd rfl some
  | cons q ps ih =>
      rw [List.forall_mem_cons] at leave
      rw [joined_cons, ← List.singleton_append]
      apply Program.Leaves.append
      cases ps with
      | nil =>
          rw [joined, List.flatMap_nil, List.append_nil]
          exact leave.1
      | cons q' ps => exact .append _ (ih (by simp) leave.2)

theorem joined_programs_leave (cfg : Config) (e : Extensions) :
    (joined (programs cfg e)).Leaves := by
  apply joined_leaves
  · have first : (Routine.forwardException, Exit.forwardException cfg) ∈ programs cfg e :=
      mem_programs.mpr rfl
    exact List.ne_nil_of_mem first
  · intro q member
    exact program_leaves (mem_programs.mp member)

theorem joined_by_label (cfg : Config) (e : Extensions) :
    ∀ op ∈ joined (programs cfg e), op.byLabel = true := by
  intro op member
  obtain ⟨q, inside, rfl | own⟩ := mem_joined.mp member
  · rfl
  · exact program_by_label (mem_programs.mp inside) op own

end Programs

section Names

theorem names_nodup : (Routine.all.map Routine.name).Nodup := by
  decide +kernel

theorem name_inj {r r' : Routine} : r.name = r'.name ↔ r = r' :=
  ⟨List.inj_on_of_nodup_map names_nodup r.mem_all r'.mem_all, fun same => same ▸ rfl⟩

theorem named_name (i : Interpreter) (r : Routine) : i.named? r.name = i.placed? r := by
  simp only [named?, placed?, name_inj]

end Names

/-- A displacement does not change with the place that both of its ends are counted from. -/
theorem shifted (base v w : Dword) : base + v - (base + w) = v - w := by
  bv_omega

section Laid
variable {cfg : Config} {e : Extensions} {b : Blob} {es : List Emission} {a : Assembler}
  (laid : Laid cfg e b es a)
include laid

theorem Laid.words : Bytes.toWords b.code = a.words.toList := by
  rw [laid.code, Assembler.code, Bytes.to_words_of_words]

theorem Laid.word_at {k : Nat} {em : Emission} (found : es[k]? = some em) :
    (Bytes.toWords b.code)[k]? = some (em.resolve a (instructionSize * k)).word := by
  rw [laid.words, Array.getElem?_toList]
  exact (laid.emitted.words k em found).2

theorem Laid.length_words : (Bytes.toWords b.code).length = es.length := by
  rw [laid.words, Array.length_toList, laid.emitted.size]

/-- A word that carries a displacement goes to a word of the code, wherever the code is. -/
theorem Laid.branch_lands (base : Dword) {n : Nat} {w : Word}
    (found : (Bytes.toWords b.code)[n]? = some w) (branch : Format.isBranch w = true) :
    ∃ k < (Bytes.toWords b.code).length,
      Format.destination w (base + BitVec.ofNat 64 (instructionSize * n)) =
        .ok (base + BitVec.ofNat 64 (instructionSize * k)) := by
  obtain ⟨inside, -⟩ := List.getElem?_eq_some_iff.mp found
  rw [laid.length_words] at inside ⊢
  have here := List.getElem?_eq_getElem inside
  have member := List.getElem_mem inside
  generalize es[n] = em at here member
  obtain rfl := Option.some.inj (found.symm.trans (laid.word_at here))
  cases directed : em.label? with
  | none =>
      cases em with
      | plain i =>
          -- A word without a label is no branch: nothing in the program branches to a position.
          rw [laid.whole] at member
          have fixed := Program.not_relative (joined_by_label cfg e) member
          rw [Emission.resolve, Emission.instruction, Instruction.is_branch_word, fixed] at branch
          cases branch
      | branch | jump => cases directed
  | some l =>
      obtain ⟨target, landed, encodable, word⟩ :=
        laid.emitted.resolved laid.clear n em l here directed
      -- The whole program ends in a word, so its labels all stand before one.
      have place := laid.bound l ▸ Emitted.target_ok.mp landed
      obtain ⟨k, early, rfl⟩ := (joined_programs_leave cfg e).place_inside place
      rw [Nat.zero_add] at encodable word
      obtain ⟨m, same, there⟩ := Emit.word_ok.mp word
      obtain rfl : n = m := by
        simp only [instructionSize] at same
        omega
      rw [(laid.emitted.words n em here).2, Option.some.injEq] at there
      rw [laid.whole, there]
      refine ⟨k, early, ?_⟩
      rw [← shifted base] at encodable ⊢
      exact em.destination l directed _ _ encodable

theorem Laid.last_leaves {r : PlacedRoutine} (member : r ∈ b.routines) :
    ∃ k w, r.offset ≤ instructionSize * k ∧ r.offset + r.size = instructionSize * (k + 1) ∧
      (Bytes.toWords b.code)[k]? = some w ∧ Format.Leaves w := by
  obtain ⟨p, made, before, after, whole, here, size⟩ := laid.lies r member
  obtain ⟨earlier, last, ends, leaves⟩ := (program_leaves made).emissions r.offset
  have found : es[before.length + earlier.length]? = some last := by
    rw [whole, ends, ← List.append_assoc before, List.append_assoc _ [last], ← List.length_append,
      List.getElem?_append_right le_rfl, Nat.sub_self]
    rfl
  refine ⟨before.length + earlier.length, _, ?_, ?_, laid.word_at found, leaves _⟩
  · rw [here]
    exact Nat.mul_le_mul_left _ (Nat.le_add_right _ _)
  · rw [size, Program.size, ends, here, List.length_append, List.length_singleton]
    simp only [instructionSize]
    omega

theorem Laid.filled {r : PlacedRoutine} (member : r ∈ b.routines) : 0 < r.size := by
  obtain ⟨k, w, before, after, -, -⟩ := laid.last_leaves member
  simp only [instructionSize] at before after
  omega

theorem Laid.placed {r : PlacedRoutine} (member : r ∈ b.routines) (base : Dword) :
    (b.installed e base).placed? r.routine = some r :=
  Table.find_keyed laid.distinct member rfl

theorem Laid.placed_iff (base : Dword) (r : Routine) :
    ((b.installed e base).placed? r).isSome = true ↔ (program? cfg e r).isSome = true := by
  have listed : r ∈ b.routines.map PlacedRoutine.routine ↔ (program? cfg e r).isSome = true := by
    rw [laid.routines, programs_listed, List.mem_filter, and_iff_right r.mem_all]
  rw [← listed, placed?, List.find?_isSome, List.mem_map]
  simp only [Blob.installed, decide_eq_true_eq]

/-- The start of a result handler is where the label of the handler is. -/
theorem Laid.handler_start (base : Dword) (t : BasicType) :
    ∃ r ∈ b.routines, (b.installed e base).placed? (.resultHandler t) = some r ∧
      a.target ((Routine.resultHandler t).label .start) = .ok r.offset := by
  obtain ⟨r, found⟩ := Option.isSome_iff_exists.mp ((laid.placed_iff base (.resultHandler t)).mpr rfl)
  have member := List.mem_of_find?_eq_some found
  have same : r.routine = .resultHandler t := by simpa using List.find?_some found
  refine ⟨r, member, found, ?_⟩
  apply Emitted.target_ok.mpr
  apply laid.starts r member
  rw [same]
  rfl

end Laid

/-- An interpreter whose code is closed and fully described. -/
structure Enclosed (cfg : Config) (e : Extensions) (i : Interpreter) : Prop where
  names : (i.routines.map fun r => r.routine.name).Nodup
  filled : ∀ r ∈ i.routines, 0 < r.size
  tiles : Tiles 0 i.routines i.code.length
  entries : ∀ k, i.entry? k =
    (i.named? s!"{k.name}_entry").map fun r => i.base + BitVec.ofNat 64 r.offset
  kinds : ∀ k, (i.entry? k).isSome = true ↔ ∀ m, k = .math m →
    cfg.math = true ∧
      (e.has .d = true ∧ (m = .sqrt ∨ m = .abs) ∨ cfg.callees.address m.callee ≠ 0)
  handlers : ∀ t, ∃ r, i.named? s!"result_handler_{t.name}" = some r ∧
    i.resultHandler t = i.base + BitVec.ofNat 64 r.offset
  words : Bytes.ofWords (Bytes.toWords i.code) = i.code
  /-- What carries a displacement goes to an instruction of the code. -/
  branches : ∀ n w, (Bytes.toWords i.code)[n]? = some w → Format.isBranch w = true →
    ∃ k < (Bytes.toWords i.code).length,
      Format.destination w (i.base + BitVec.ofNat 64 (instructionSize * n)) =
        .ok (i.base + BitVec.ofNat 64 (instructionSize * k))
  ends : ∀ r ∈ i.routines, ∃ k w, r.offset ≤ instructionSize * k ∧
    r.offset + r.size = instructionSize * (k + 1) ∧ (Bytes.toWords i.code)[k]? = some w ∧
    Format.Leaves w

theorem Laid.enclosed {cfg : Config} {e : Extensions} {b : Blob} {es : List Emission}
    {a : Assembler} (laid : Laid cfg e b es a) (base : Dword) :
    Enclosed cfg e (b.installed e base) where
  names := by
    have same : (b.routines.map fun r => r.routine.name) =
        (b.routines.map PlacedRoutine.routine).map Routine.name := by
      rw [List.map_map]
      rfl
    exact same ▸ laid.distinct.map fun r r' => name_inj.mp
  filled r member := laid.filled member
  tiles := laid.tiles
  entries k := by
    have named := (b.installed e base).named_name (.entry k)
    unfold entry?
    rw [← named]
    rfl
  kinds k := by
    unfold entry?
    rw [Option.isSome_map, laid.placed_iff base (.entry k)]
    exact Entry.program_some cfg e k
  handlers t := by
    obtain ⟨r, -, found, -⟩ := laid.handler_start base t
    refine ⟨r, ?_, ?_⟩
    · rw [← found]
      exact (b.installed e base).named_name (.resultHandler t)
    · rw [resultHandler, found]
      rfl
  words := by
    show Bytes.ofWords (Bytes.toWords b.code) = b.code
    rw [laid.words, laid.code]
    rfl
  branches n w found branch := laid.branch_lands base found branch
  ends r member := laid.last_leaves member

/-- Whatever is generated is closed and described, wherever it is installed; and the address of a
result handler is that of the label it starts with. -/
theorem generated_interpreters_are_enclosed {R : Type}
    {emit : (Dword → Except Violation Bytes) → Region.Work Violation R Dword}
    {cfg : Config} {e : Extensions} {i : Interpreter} {before after : R}
    (made : (generateInto emit cfg e).run before = .ok i after) :
    i.Enclosed cfg e ∧ ∃ a, (emitAll cfg e).run (.new e) = .ok (i.routines, i.code) a ∧
      ∀ t, ∃ pos, a.target ((Routine.resultHandler t).label .start) = .ok pos ∧
        i.resultHandler t = i.base + BitVec.ofNat 64 pos := by
  obtain ⟨accepted, b, blobbed, installed⟩ := generate_into_ok made
  obtain ⟨es, a, laid⟩ := blob_laid accepted blobbed
  rw [installed]
  refine ⟨laid.enclosed i.base, a, laid.ran, ?_⟩
  intro t
  obtain ⟨r, -, found, landed⟩ := laid.handler_start i.base t
  refine ⟨r.offset, landed, ?_⟩
  rw [resultHandler, found]
  rfl

/-- No interpreter is shorter than this: the ways out are always there. -/
theorem blob_long {cfg : Config} {e : Extensions} {b : Blob} (accepted : cfg.problem? = none)
    (made : blob cfg e = .ok b) : instructionSize * 14 ≤ b.code.length := by
  obtain ⟨es, a, laid⟩ := blob_laid accepted made
  have filled : ∀ r ∈ b.routines, instructionSize ≤ r.size := by
    intro r member
    obtain ⟨p, made, before, after, whole, here, size⟩ := laid.lies r member
    have filled := laid.filled member
    rw [size, Program.size] at filled ⊢
    exact Nat.le_mul_of_pos_right _ (Nat.pos_of_mul_pos_left filled)
  have many : 14 ≤ b.routines.length := by
    have same := congrArg List.length laid.routines
    rw [List.length_map, List.length_map] at same
    rw [same, programs, Routine.all, List.filterMap_append, List.filterMap_append]
    simp [program?, BasicType.all]
  have long := laid.tiles.long filled
  exact (Nat.mul_le_mul_left _ many).trans (by omega)

/-- A heap with room for it takes the interpreter of every accepted configuration. -/
theorem generate_in_room {cfg : Config} (accepted : cfg.problem? = none) (e : Extensions) (h : Heap)
    (room : h.Room (instructionSize * (1023 * 28))) :
    ∃ b, blob cfg e = .ok b ∧
      (generate cfg e).run h = .ok (b.installed e h.nextAddress) (h.install b.code) := by
  obtain ⟨b, made, -⟩ := blob_image accepted e
  have short := blob_short accepted made
  refine ⟨b, made, (generate_made accepted made h).trans (if_pos ?_)⟩
  simp only [Heap.Room, instructionSize] at room short ⊢
  omega

theorem extreme_interpreter_is_enclosed : ∃ i h,
    (generate .extreme .none).run (.new 0x40000000 0x20000) = .ok i h ∧
      i.Enclosed .extreme .none := by
  obtain ⟨b, -, made⟩ := generate_in_room (show Config.extreme.problem? = none by decide) .none
    (.new 0x40000000 0x20000) (by decide)
  exact ⟨_, _, made, (generated_interpreters_are_enclosed made).1⟩

end Interpreter

end EntryCode
