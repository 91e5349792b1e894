import EntryCode.Proofs.Interpreter.Blob
import EntryCode.Proofs.Region.Heap

/-!
Generation succeeds. Whatever an accepted configuration says and whatever the extensions are, every
instruction of the interpreter can be encoded, every branch reaches its label, and no instruction
is of an extension that is not there; only a heap without room for the code refuses it.
-/

namespace EntryCode

section Available
variable {e : Extensions} {em : Emission} {pos : Nat}

theorem planned_available {is : Except Violation (List Instruction)} (fine : Emittable e is)
    (member : em ∈ planned is) (disp : Dword) : (em.instruction disp).Available e := by
  obtain ⟨plain, rfl, each⟩ := fine
  obtain ⟨i, inside, rfl⟩ := List.mem_map.mp member
  exact (each i inside).2

/-- An admissible operation emits nothing of an extension that is not there, wherever its label is. -/
theorem Op.Admissible.available {op : Op} (admissible : op.Admissible e)
    (member : em ∈ op.emissions pos) (disp : Dword) : (em.instruction disp).Available e := by
  cases op with
  | instruction i =>
      obtain rfl := List.mem_singleton.mp member
      exact admissible.2
  | branch | jump =>
      obtain rfl := List.mem_singleton.mp member
      intro what needed asked
      cases asked
  | constant | callAddress | jumpAddress | addConstant | load | store =>
      exact planned_available admissible member disp
  | newLabel | bind | comment => cases member
  | branchTo | jumpTo | flush => exact absurd admissible id

theorem Program.Admissible.available {p : Program} (admissible : p.Admissible e)
    (member : em ∈ p.emissions pos) (disp : Dword) : (em.instruction disp).Available e := by
  induction p generalizing pos with
  | nil => cases member
  | cons op rest ih =>
      rw [Program.admissible_cons] at admissible
      rw [Program.emissions, List.mem_append] at member
      rcases member with here | later
      · exact admissible.1.available here disp
      · exact ih admissible.2 later

end Available

section Finished
variable {es : List Emission} {b : Assembler}

/-- The instructions that emissions stand for, with the displacements to the labels of `b`. -/
def Emission.settled (b : Assembler) (es : List Emission) : List Instruction :=
  es.mapIdx fun k em => em.resolve b (instructionSize * k)

theorem Emission.mem_settled {i : Instruction} :
    i ∈ settled b es ↔ ∃ (k : Nat) (em : Emission), es[k]? = some em ∧
      em.resolve b (instructionSize * k) = i := by
  simp only [settled, List.mem_iff_getElem?, List.getElem?_mapIdx, Option.map_eq_some_iff]

theorem Emitted.code_settled (inv : Emitted es b) :
    b.code = Bytes.ofWords ((Emission.settled b es).map Instruction.word) := by
  rw [Assembler.code]
  congr 1
  apply List.ext_getElem?
  intro k
  rw [List.getElem?_map, Emission.settled, List.getElem?_mapIdx, Array.getElem?_toList]
  cases found : es[k]? with
  | none =>
      have outside := List.getElem?_eq_none_iff.mp found
      rw [← inv.size] at outside
      exact Array.getElem?_eq_none outside
  | some em => exact (inv.words k em found).2

theorem Emitted.is_bound (inv : Emitted es b) (clear : Emit.unresolved? b = none) {em : Emission}
    {l : Label} (member : em ∈ es) (directed : em.label? = some l) : b.isBound l = .ok true := by
  have known := inv.known em member l directed
  cases bound : b.bound? l with
  | none =>
      obtain ⟨k, found⟩ := List.getElem?_of_mem member
      have waits := inv.waits k em l found directed bound
      rw [unresolved_none.mp clear l bound] at waits
      cases waits
  | some target =>
      rw [Assembler.isBound, Assembler.label_state_eq known, bound]
      rfl

end Finished

namespace Interpreter

variable {cfg : Config} {e : Extensions} {b : Blob}

/-- Installing generated code depends on nothing but the room for it. -/
theorem generate_made (accepted : cfg.problem? = none) (made : blob cfg e = .ok b) (h : Heap) :
    (generate cfg e).run h = if h.Room b.code.length then
        .ok (b.installed e h.nextAddress) (h.install b.code)
      else .error (.install (.full b.code.length h.nextOffset h.capacity)) h := by
  have code : (fun _ : Dword => (Except.ok b : Except Violation Blob).map Blob.code)
      h.nextAddress = .ok b.code := rfl
  simp only [generate, generateInto, accepted, made, EStateM.run_bind, Region.run_adapt]
  by_cases room : h.Room b.code.length
  · rw [if_pos room, Heap.emit_room code room]
    rfl
  · rw [if_neg room, Heap.emit_full code room]

theorem blob_filled (accepted : cfg.problem? = none) (made : blob cfg e = .ok b) :
    0 < b.code.length := by
  obtain ⟨start, a, rs, inv, ran, -, emitted, -, -⟩ := emit_all_runs accepted e
  obtain ⟨finished, -⟩ := Program.emitted inv _ ran
  obtain rfl := Except.ok.inj (made.symm.trans (blob_ok emitted))
  have listed : (.removeActivationException, Exit.removeActivationException) ∈ programs cfg e :=
    mem_programs.mpr rfl
  have jumps : (joined (programs cfg e)).RefersTo (Routine.removeActivation.label .common) :=
    ⟨.j _, mem_joined.mpr ⟨_, listed, .inr (by simp [Exit.removeActivationException])⟩, rfl⟩
  obtain ⟨em, member, -⟩ := (Program.refers_to_iff _ start.pos _).mpr jumps
  rw [List.nil_append] at finished
  rw [finished.code_length]
  exact Nat.mul_pos (by decide) (List.length_pos_of_mem member)

end Interpreter

open Interpreter in
/-- Every accepted configuration is generated, under all extensions: nothing is emitted that breaks
a rule, and a heap takes the code exactly where it has room. -/
theorem accepted_configurations_generate {cfg : Config} (accepted : cfg.problem? = none)
    (e : Extensions) :
    ∃ (b : Blob) (a : Assembler) (is : List Instruction),
      (emitAll cfg e).run (.new e) = .ok (b.routines, b.code) a ∧
      b.code = Bytes.ofWords (is.map Instruction.word) ∧
      (∀ i ∈ is, i.Encodable ∧ i.Available e) ∧
      (∀ l, (joined (programs cfg e)).RefersTo l → a.isBound l = .ok true) ∧
      ∀ h : Heap, (generate cfg e).run h =
        if (b.code.length : Int) ≤ h.capacity - h.nextOffset then
          .ok (b.installed e h.nextAddress) (h.install b.code)
        else .error (.install (.full b.code.length h.nextOffset h.capacity)) h := by
  obtain ⟨start, a, rs, inv, ran, clear, emitted, -, -⟩ := emit_all_runs accepted e
  obtain ⟨finished, -⟩ := Program.emitted inv _ ran
  rw [List.nil_append] at finished
  have admissible := (programs_sound (e := e) accepted).joined_admissible
  refine ⟨⟨rs, a.code, _⟩, _, Emission.settled a _, emitted, finished.code_settled, ?_, ?_,
    generate_made accepted (blob_ok emitted)⟩
  · intro i member
    obtain ⟨k, em, found, rfl⟩ := Emission.mem_settled.mp member
    exact ⟨(finished.words k em found).1, admissible.available (List.mem_of_getElem? found) _⟩
  · rintro l refers
    obtain ⟨em, member, directed⟩ := (Program.refers_to_iff _ start.pos l).mpr refers
    exact finished.is_bound clear member directed

/-- A configuration with every option on, at the edges of what is accepted: the greatest limits and
offsets as far as immediates go. -/
def Config.extreme : Config where
  useCompiler := true
  invocationLimit := 0xffffffff
  profile := true
  profileLimit := 0xffffffff
  math := true
  dispatch := ⟨0x8000000000000000⟩
  method := ⟨fun _ => 2040⟩
  thread := ⟨fun _ => 2040⟩
  callees := ⟨fun _ => 0xdeadbeefcafebabf⟩

/-- A heap that is large enough takes its code, and one without room refuses it. -/
theorem extreme_configuration_generates : Config.extreme.problem? = none ∧
    ∃ (b : Interpreter.Blob) (a : Assembler),
      (Interpreter.emitAll .extreme .none).run (.new .none) = .ok (b.routines, b.code) a ∧
      (Interpreter.generate .extreme .none).run (.new 0x40000000 0x20000) =
        .ok (b.installed .none 0x40000000) (Heap.install (.new 0x40000000 0x20000) b.code) ∧
      (Interpreter.generate .extreme .none).run (.new 0x40000000 0) =
        .error (.install (.full b.code.length 0 0)) (.new 0x40000000 0) := by
  have accepted : Config.extreme.problem? = none := by decide
  obtain ⟨b, a, is, emitted, -, -, -, generated⟩ := accepted_configurations_generate accepted .none
  have made := Interpreter.blob_ok emitted
  have short := Interpreter.blob_short accepted made
  have filled := Interpreter.blob_filled accepted made
  simp only [instructionSize] at short filled
  refine ⟨accepted, b, a, emitted, ?_, ?_⟩
  · have fits : (b.code.length : Int) ≤ 0x20000 - 0 := by omega
    exact (generated (.new 0x40000000 0x20000)).trans (if_pos fits)
  · have beyond : ¬(b.code.length : Int) ≤ 0 - 0 := by omega
    exact (generated (.new 0x40000000 0)).trans (if_neg beyond)

end EntryCode
