import EntryCode.Proofs.Interpreter.Blob

/-!
Where the routines of an interpreter lie. They follow one another from the first byte of the code
to the last, in the order in which all routines are listed, and each is found where it was emitted.
-/

namespace EntryCode

namespace Listing
variable {pos : Int} {text : String}

theorem length_add (notes : Notes) : (notes.add pos text).length ≤ notes.length + 1 := by
  induction notes with
  | nil => exact le_rfl
  | cons n rest ih =>
      rw [Notes.add]
      split
      · exact Nat.le_succ _
      · exact Nat.succ_le_succ ih

theorem mem_add {n : Int × List String} {notes : Notes} (member : n ∈ notes.add pos text) :
    n ∈ notes ∨ n = (pos, [text]) ∨ ∃ texts, (pos, texts) ∈ notes ∧ n = (pos, texts ++ [text]) := by
  induction notes with
  | nil => exact .inr (.inl (List.mem_singleton.mp member))
  | cons first rest ih =>
      rw [Notes.add] at member
      split at member
      · next same =>
          rcases List.mem_cons.mp member with rfl | later
          · exact .inr (.inr ⟨first.2, same ▸ List.mem_cons_self, by rw [same]⟩)
          · exact .inl (List.mem_cons_of_mem _ later)
      · rcases List.mem_cons.mp member with rfl | later
        · exact .inl List.mem_cons_self
        · rcases ih later with before | alone | ⟨texts, among, joined⟩
          · exact .inl (List.mem_cons_of_mem _ before)
          · exact .inr (.inl alone)
          · exact .inr (.inr ⟨texts, List.mem_cons_of_mem _ among, joined⟩)

/-- Notes on the same position are joined; none is made up. -/
theorem notes_hold (a : Assembler) : a.notes.length ≤ a.comments.length ∧
    ∀ n ∈ a.notes, n.2.length ≤ a.comments.length ∧ (∃ c ∈ a.comments, n.1 = c.1) ∧
      ∀ x ∈ n.2, ∃ c ∈ a.comments, x = c.2 := by
  rw [Assembler.notes]
  induction a.comments using List.reverseRecOn with
  | nil => exact ⟨le_rfl, nofun⟩
  | append_singleton cs c ih =>
      obtain ⟨few, held⟩ := ih
      have last : c ∈ cs ++ [c] := List.mem_append_right _ (List.mem_singleton_self c)
      have before : ∀ {d}, d ∈ cs → d ∈ cs ++ [c] := List.mem_append_left _
      rw [List.foldl_append, List.foldl_cons, List.foldl_nil, List.length_append,
        List.length_singleton]
      refine ⟨(length_add _).trans (Nat.succ_le_succ few), ?_⟩
      intro n member
      rcases mem_add member with old | rfl | ⟨texts, among, rfl⟩
      · obtain ⟨short, ⟨d, among, same⟩, there⟩ := held n old
        refine ⟨Nat.le_succ_of_le short, ⟨d, before among, same⟩, ?_⟩
        intro x inside
        obtain ⟨d, among, same⟩ := there x inside
        exact ⟨d, before among, same⟩
      · refine ⟨Nat.le_add_left 1 _, ⟨c, last, rfl⟩, ?_⟩
        intro x inside
        exact ⟨c, last, List.mem_singleton.mp inside⟩
      · obtain ⟨short, -, there⟩ := held _ among
        refine ⟨?_, ⟨c, last, rfl⟩, ?_⟩
        · rw [List.length_append, List.length_singleton]
          exact Nat.succ_le_succ short
        · intro x inside
          rcases List.mem_append.mp inside with old | latest
          · obtain ⟨d, among, same⟩ := there x old
            exact ⟨d, before among, same⟩
          · exact ⟨c, last, List.mem_singleton.mp latest⟩

end Listing

namespace Interpreter

/-- Routines that follow one another from one offset to another. -/
def Tiles : Nat → List PlacedRoutine → Nat → Prop
  | start, [], stop => start = stop
  | start, r :: rest, stop => r.offset = start ∧ Tiles (start + r.size) rest stop

namespace Tiles

variable {start stop : Nat} {rs : List PlacedRoutine}

theorem le (tiles : Tiles start rs stop) : start ≤ stop := by
  induction rs generalizing start with
  | nil => exact tiles.le
  | cons r rest ih => exact (Nat.le_add_right start r.size).trans (ih tiles.2)

theorem inside (tiles : Tiles start rs stop) :
    ∀ r ∈ rs, start ≤ r.offset ∧ r.offset + r.size ≤ stop := by
  induction rs generalizing start with
  | nil => nofun
  | cons r rest ih =>
      obtain ⟨here, later⟩ := tiles
      rw [List.forall_mem_cons, here]
      refine ⟨⟨le_rfl, later.le⟩, ?_⟩
      intro q member
      obtain ⟨after, before⟩ := ih later q member
      exact ⟨(Nat.le_add_right start r.size).trans after, before⟩

theorem apart (tiles : Tiles start rs stop) :
    rs.Pairwise fun p q => p.offset + p.size ≤ q.offset := by
  induction rs generalizing start with
  | nil => exact .nil
  | cons r rest ih =>
      obtain ⟨here, later⟩ := tiles
      apply List.pairwise_cons.mpr
      constructor
      · intro q member
        rw [here]
        exact (later.inside q member).1
      · exact ih later

theorem long {n : Nat} (tiles : Tiles start rs stop)
    (filled : ∀ r ∈ rs, n ≤ r.size) : start + n * rs.length ≤ stop := by
  induction rs generalizing start with
  | nil => exact tiles.le
  | cons r rest ih =>
      obtain ⟨here, later⟩ := List.forall_mem_cons.mp filled
      have more := ih tiles.2 later
      rw [List.length_cons, Nat.mul_succ]
      omega

end Tiles

section Placing
variable {ps : List (Routine × Program)} {rs : List PlacedRoutine} {es : List Emission}
  {a b : Assembler}

theorem place_cons {q : Routine × Program} (inv : Emitted es a)
    (placed : (place (q :: ps)).run a = .ok rs b) : ∃ a' c more,
      (Op.comment q.1.name).run.run a = .ok () a' ∧ Emitted es a' ∧ a'.pos = a.pos ∧
      q.2.run.run a' = .ok () c ∧ c.pos = a.pos + q.2.size a.pos ∧
      Emitted (es ++ q.2.emissions a.pos) c ∧ (place ps).run c = .ok more b ∧
      rs = ⟨q.1, a.pos, q.2.size a.pos⟩ :: more := by
  obtain ⟨_, a', noted, placed⟩ := Emit.bind_ok.mp placed
  obtain ⟨_, _, got, placed⟩ := Emit.bind_ok.mp placed
  cases got
  obtain ⟨_, c, first, placed⟩ := Emit.bind_ok.mp placed
  obtain ⟨_, _, got, placed⟩ := Emit.bind_ok.mp placed
  cases got
  obtain ⟨more, d, rest, made⟩ := Emit.bind_ok.mp placed
  cases made
  have start := inv.advance (.comment q.1.name) noted
  have begun : Emitted es a' := by
    have emitted := start.emitted
    rwa [Op.emissions, List.append_nil] at emitted
  have here : a'.pos = a.pos := start.pos inv
  obtain ⟨emitted, -⟩ := Program.emitted begun q.2 first
  rw [here] at emitted
  have next : c.pos = a.pos + q.2.size a.pos := by
    rw [emitted.pos, inv.pos, List.length_append, Nat.mul_add, Program.size]
  refine ⟨a', c, more, noted, begun, here, first, next, emitted, rest, ?_⟩
  rw [here, next, Nat.add_sub_cancel_left]

theorem place_ran (inv : Emitted es a) (placed : (place ps).run a = .ok rs b) :
    (Program.run (joined ps)).run a = .ok () b := by
  induction ps generalizing es a rs with
  | nil =>
      cases placed
      rfl
  | cons q ps ih =>
      obtain ⟨a', c, more, noted, -, -, first, -, emitted, rest, -⟩ := place_cons inv placed
      rw [joined_cons, Program.run_cons]
      refine ⟨a', noted, ?_⟩
      rw [Program.run_append]
      exact ⟨c, first, ih emitted rest⟩

/-- A routine takes the room of its program, and the next one follows. -/
theorem place_tiles (inv : Emitted es a) (placed : (place ps).run a = .ok rs b) :
    Tiles a.pos rs b.pos ∧ ∀ r ∈ rs, ∃ p, (r.routine, p) ∈ ps ∧ r.size = p.size r.offset := by
  induction ps generalizing es a rs with
  | nil =>
      cases placed
      exact ⟨rfl, nofun⟩
  | cons q ps ih =>
      obtain ⟨a', c, more, -, -, -, -, next, emitted, rest, rfl⟩ := place_cons inv placed
      obtain ⟨tiles, sizes⟩ := ih emitted rest
      constructor
      · refine ⟨rfl, ?_⟩
        rw [← next]
        exact tiles
      · rw [List.forall_mem_cons]
        refine ⟨⟨q.2, List.mem_cons_self, rfl⟩, ?_⟩
        intro r member
        obtain ⟨p, among, large⟩ := sizes r member
        exact ⟨p, List.mem_cons_of_mem _ among, large⟩

end Placing

def Lies (es : List Emission) (p : Program) (r : PlacedRoutine) : Prop :=
  ∃ before after, es = before ++ p.emissions r.offset ++ after ∧
    r.offset = instructionSize * before.length ∧ r.size = p.size r.offset

/-- An interpreter as it was emitted: the words of `es`, up to the finished assembler `a`. -/
structure Laid (cfg : Config) (e : Extensions) (b : Blob) (es : List Emission) (a : Assembler) :
    Prop where
  ran : (emitAll cfg e).run (.new e) = .ok (b.routines, b.code) a
  emitted : Emitted es a
  clear : Emit.unresolved? a = none
  code : b.code = a.code
  whole : es = (joined (programs cfg e)).emissions 0
  bound : ∀ l, a.bound? l = (joined (programs cfg e)).place l 0
  routines : b.routines.map PlacedRoutine.routine = (programs cfg e).map Prod.fst
  distinct : (b.routines.map PlacedRoutine.routine).Nodup
  tiles : Tiles 0 b.routines b.code.length
  lies : ∀ r ∈ b.routines, ∃ p, program? cfg e r.routine = some p ∧ Lies es p r
  /-- A label that a routine binds before anything else is at its start. -/
  starts : ∀ r ∈ b.routines, ∀ l p, program? cfg e r.routine = some (.bind l :: p) →
    a.bound? l = some r.offset

theorem generate_into_ok {R : Type}
    {emit : (Dword → Except Violation Bytes) → Region.Work Violation R Dword}
    {cfg : Config} {e : Extensions} {i : Interpreter} {before after : R}
    (made : (generateInto emit cfg e).run before = .ok i after) :
    cfg.problem? = none ∧ ∃ b, blob cfg e = .ok b ∧ i = b.installed e i.base := by
  cases accepted : cfg.problem? with
  | some p =>
      simp only [generateInto, accepted] at made
      cases made
  | none =>
      refine ⟨rfl, ?_⟩
      simp only [generateInto, accepted, EStateM.run_bind] at made
      split at made
      case h_2 => cases made
      case h_1 =>
        cases blobbed : blob cfg e with
        | error v =>
            rw [blobbed] at made
            cases made
        | ok b =>
            rw [blobbed] at made
            cases made
            exact ⟨b, rfl, rfl⟩

theorem blob_ran {cfg : Config} {e : Extensions} {b : Blob} (made : blob cfg e = .ok b) :
    ∃ a, (emitAll cfg e).run (.new e) = .ok (b.routines, b.code) a := by
  unfold blob at made
  generalize (emitAll cfg e).run (.new e) = result at made ⊢
  cases result with
  | error v a => cases made
  | ok made' a =>
      cases made
      exact ⟨a, rfl⟩

theorem emit_all_ok {cfg : Config} {e : Extensions} {rs : List PlacedRoutine} {code : Bytes}
    {b : Assembler} (ran : (emitAll cfg e).run (.new e) = .ok (rs, code) b) :
    ∃ start a, Emitted [] start ∧ start.pos = 0 ∧ (∀ l, start.bound? l = none) ∧
      start.comments = [] ∧ (place (programs cfg e)).run start = .ok rs a ∧
      Emit.unresolved? a = none ∧ code = a.code ∧ b = { a with flushed := true } := by
  rw [emitAll, Emit.bind_ok] at ran
  obtain ⟨_, start, labelled, ran⟩ := ran
  obtain ⟨rs, a, placed, ran⟩ := Emit.bind_ok.mp ran
  obtain ⟨_, _, flushed, ran⟩ := Emit.bind_ok.mp ran
  cases ran
  obtain ⟨clear, code, finished⟩ := Emit.flush_ok.mp flushed
  -- Labels are made without a word, and none is bound yet; so the routines start at zero.
  obtain ⟨start', labelled', inv, -, bound, -⟩ :=
    new_labels_run (Emitted.new e) Routine.labelCount rfl
  rw [labelled'] at labelled
  injection labelled with _ same
  subst same
  refine ⟨start', a, inv, ?_, ?_, ?_, placed, clear, code, finished⟩
  · rw [inv.pos, List.length_nil, Nat.mul_zero]
  · intro l
    rw [bound, Assembler.bound_new]
  · obtain ⟨-, -, made⟩ := Program.noted (Emitted.new e) _ labelled'
    rw [List.eq_nil_iff_forall_not_mem]
    intro c member
    rcases made c member with before | ⟨-, text⟩
    · cases before
    · cases List.eq_of_mem_replicate text

theorem blob_laid {cfg : Config} {e : Extensions} {b : Blob} (accepted : cfg.problem? = none)
    (made : blob cfg e = .ok b) : ∃ es a, Laid cfg e b es a := by
  obtain ⟨_, finished⟩ := blob_ran made
  obtain ⟨start, a, inv, zero, fresh, -, placed, clear, code, rfl⟩ := emit_all_ok finished
  have ran := place_ran inv placed
  obtain ⟨emitted, bound⟩ := Program.emitted inv _ ran
  obtain ⟨tiles, sizes⟩ := place_tiles inv placed
  obtain ⟨rs, placed', names, there⟩ := place_runs _ inv ran
  rw [placed] at placed'
  cases placed'
  have distinct : (b.routines.map PlacedRoutine.routine).Nodup := by
    rw [names]
    exact (programs_sound accepted).names
  -- Names are distinct, so the routine that a program is found at is the one it was placed as.
  have at_ : ∀ r ∈ b.routines, ∃ p, program? cfg e r.routine = some p ∧
      r.size = p.size r.offset ∧
      EmittedAt ([] ++ (joined (programs cfg e)).emissions start.pos) a p r.offset := by
    intro r member
    obtain ⟨p, among, size⟩ := sizes r member
    obtain ⟨r', member', same, found⟩ := there _ among
    obtain rfl := List.inj_on_of_nodup_map distinct member' member same
    exact ⟨p, mem_programs.mp among, size, found⟩
  rw [List.nil_append, zero] at emitted at_
  rw [zero] at tiles
  refine ⟨_, { a with flushed := true }, finished, ?_, clear, code, rfl, ?_, names, distinct,
    ?_, ?_, ?_⟩
  · exact emitted.transfer rfl (fun _ => rfl) (fun _ => rfl) fun _ known => known
  · intro l
    exact (bound l).trans (by rw [fresh, zero, Option.none_or])
  · rw [code, emitted.code_length, ← emitted.pos]
    exact tiles
  · intro r member
    obtain ⟨p, made, size, before, after, c, d, begun, first, here, whole, -⟩ := at_ r member
    refine ⟨p, made, before, after, ?_, ?_, size⟩
    · rw [whole, here]
    · rw [← here, begun.pos]
  · intro r member l p made
    obtain ⟨p', made', -, before, after, c, d, begun, first, here, -, kept⟩ := at_ r member
    obtain rfl := Option.some.inj (made'.symm.trans made)
    obtain ⟨-, places⟩ := Program.emitted begun _ first
    obtain ⟨c', binds, -⟩ := (Program.run_cons _ _).mp first
    -- A label that was bound before could not be bound here again.
    have unbound := (begun.advance _ binds).once l rfl
    apply kept l
    rw [places, unbound, Program.place, if_pos rfl, here, Option.none_or]

/-- Notes are no more than the operations that made them, lie in the code and are short. -/
theorem blob_noted {cfg : Config} {e : Extensions} {b : Blob} (made : blob cfg e = .ok b) :
    b.notes.length ≤ 1024 * 28 ∧ ∀ n ∈ b.notes, 0 ≤ n.1 ∧ n.1 ≤ b.code.length ∧
      n.2.length ≤ 1024 * 28 ∧ ∀ text ∈ n.2, Op.Brief (.comment text) := by
  obtain ⟨a, finished⟩ := blob_ran made
  have notes : b.notes = a.notes :=
    congrArg Blob.notes (Except.ok.inj (made.symm.trans (blob_ok finished)))
  obtain ⟨start, c, inv, zero, -, clean, placed, -, code, rfl⟩ := emit_all_ok finished
  have ran := place_ran inv placed
  obtain ⟨emitted, -⟩ := Program.emitted inv _ ran
  obtain ⟨few, -, there⟩ := Program.noted inv _ ran
  have length := programs_length cfg e
  have size : b.code.length = c.pos := by
    rw [code, emitted.code_length, ← emitted.pos]
  rw [clean] at few there
  rw [List.length_nil, Nat.zero_add] at few
  obtain ⟨joined, held⟩ := Listing.notes_hold { c with flushed := true }
  rw [notes, size]
  refine ⟨joined.trans (few.trans length), ?_⟩
  intro n member
  obtain ⟨short, ⟨first, among, same⟩, texts⟩ := held n member
  refine ⟨?_, ?_, short.trans (few.trans length), ?_⟩
  · omega
  · rcases there first among with none | ⟨inside, -⟩
    · cases none
    · omega
  · intro text inside
    obtain ⟨d, among, rfl⟩ := texts text inside
    rcases there d among with none | ⟨-, made⟩
    · cases none
    · exact programs_brief cfg e _ made

end Interpreter

end EntryCode
