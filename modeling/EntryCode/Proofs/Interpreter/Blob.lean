import EntryCode.Proofs.Interpreter.Generation
import EntryCode.Proofs.Machine.Placement
import EntryCode.Proofs.Table

/-!
The interpreter as a whole. Its routines are emitted one after the other; since each has labels of
its own, they fit together, and every one lies in memory where the blob says.
-/

namespace EntryCode

theorem Routine.nodup_all : Routine.all.Nodup := by
  decide

theorem Routine.brief_name (r : Routine) : Op.Brief (.comment r.name) := by
  have names : ∀ r ∈ Routine.all, (Text.utf8 r.name).length < 2 ^ 64 := by
    decide +kernel
  exact names r r.mem_all

namespace Interpreter

def joined (ps : List (Routine × Program)) : Program :=
  ps.flatMap fun q => .comment q.1.name :: q.2

/-- Routines that fit together. -/
structure Sound (e : Extensions) (ps : List (Routine × Program)) : Prop where
  names : (ps.map Prod.fst).Nodup
  admissible : ∀ q ∈ ps, q.2.Admissible e
  labelled : ∀ q ∈ ps, q.1.Labelled q.2
  short : ∀ q ∈ ps, q.2.extent < 1024

section Joined
variable {e : Extensions} {ps : List (Routine × Program)} {op : Op} {l : Label}

theorem joined_cons (q : Routine × Program) (ps : List (Routine × Program)) :
    joined (q :: ps) = .comment q.1.name :: (q.2 ++ joined ps) := rfl

theorem mem_joined : op ∈ joined ps ↔ ∃ q ∈ ps, op = .comment q.1.name ∨ op ∈ q.2 := by
  simp [joined]

theorem Sound.tail {q : Routine × Program} (sound : Sound e (q :: ps)) : Sound e ps where
  names := (List.nodup_cons.mp sound.names).2
  admissible r member := sound.admissible r (List.mem_cons_of_mem _ member)
  labelled r member := sound.labelled r (List.mem_cons_of_mem _ member)
  short r member := sound.short r (List.mem_cons_of_mem _ member)

theorem Sound.joined_admissible (sound : Sound e ps) : (joined ps).Admissible e := by
  intro op member
  obtain ⟨q, inside, rfl | own⟩ := mem_joined.mp member
  · trivial
  · exact sound.admissible q inside op own

theorem Sound.joined_places (sound : Sound e ps) (member : op ∈ joined ps)
    (mentions : op.label? = some l ∨ op.binding? = some l) : ∃ r s, l = Routine.label r s := by
  obtain ⟨q, inside, rfl | own⟩ := mem_joined.mp member
  · rcases mentions with directed | binds
    · cases directed
    · cases binds
  · exact (sound.labelled q inside).places op own l mentions

theorem Sound.joined_bind (sound : Sound e ps) (member : Op.bind l ∈ joined ps) :
    ∃ q ∈ ps, ∃ s, l = q.1.label s := by
  obtain ⟨q, inside, same | own⟩ := mem_joined.mp member
  · cases same
  · exact ⟨q, inside, (sound.labelled q inside).own l own⟩

theorem Sound.bind_apart {q : Routine × Program} (sound : Sound e (q :: ps))
    (here : Op.bind l ∈ q.2) : Op.bind l ∉ joined ps := by
  intro later
  obtain ⟨s, rfl⟩ := (sound.labelled q List.mem_cons_self).own l here
  obtain ⟨r, inside, s', same⟩ := sound.tail.joined_bind later
  obtain ⟨same, -⟩ := Routine.label_inj.mp same
  exact (List.nodup_cons.mp sound.names).1 (List.mem_map.mpr ⟨r, inside, same.symm⟩)

theorem Sound.joined_once (sound : Sound e ps) :
    ((joined ps).filterMap Op.binding?).Nodup := by
  induction ps with
  | nil => exact List.nodup_nil
  | cons q ps ih =>
      rw [joined_cons, List.filterMap_cons_none rfl, List.filterMap_append]
      refine (sound.labelled q List.mem_cons_self).once.append (ih sound.tail) ?_
      intro l here later
      obtain ⟨op, inside, binds⟩ := List.mem_filterMap.mp here
      obtain ⟨op', inside', binds'⟩ := List.mem_filterMap.mp later
      obtain rfl := Op.binding_iff.mp binds
      obtain rfl := Op.binding_iff.mp binds'
      exact sound.bind_apart inside inside'

theorem Sound.joined_closed (sound : Sound e ps) : (joined ps).ClosedBut Label.Shared := by
  induction ps with
  | nil => exact Program.closed_of_silent (List.forall_mem_nil _)
  | cons q ps ih =>
      have labelled := sound.labelled q List.mem_cons_self
      have own := Program.closed_of_short (sound.admissible q List.mem_cons_self) labelled.inward
        (sound.short q List.mem_cons_self)
      have named : Program.ClosedBut Label.Shared [.comment q.1.name] :=
        Program.closed_of_silent (List.forall_mem_singleton.mpr rfl)
      have first : Program.ClosedBut Label.Shared ([Op.comment q.1.name] ++ q.2) :=
        named.append own (by simp)
      refine first.append (ih sound.tail) ?_
      rintro l ⟨op, member, directed⟩ unshared here
      obtain ⟨r, inside, rfl | later⟩ := mem_joined.mp member
      · cases directed
      · have binds := (sound.tail.labelled r inside).inward l ⟨op, later, directed⟩ unshared
        refine sound.bind_apart (by simpa using here) (mem_joined.mpr ⟨r, inside, .inr binds⟩)

theorem Sound.joined_extent (sound : Sound e ps) : (joined ps).extent ≤ 1023 * ps.length := by
  induction ps with
  | nil => exact le_rfl
  | cons q ps ih =>
      have here := sound.short q List.mem_cons_self
      have later := ih sound.tail
      rw [joined_cons, Program.extent_cons, Program.extent_append, List.length_cons, Op.extent]
      omega

theorem joined_length (short : ∀ q ∈ ps, q.2.length < 1024) :
    (joined ps).length ≤ 1024 * ps.length := by
  induction ps with
  | nil => exact le_rfl
  | cons q ps ih =>
      obtain ⟨here, later⟩ := List.forall_mem_cons.mp short
      have rest := ih later
      rw [joined_cons, List.length_cons, List.length_append, List.length_cons]
      omega

end Joined

section Programs
variable {cfg : Config} {e : Extensions} {r : Routine} {p : Program}

theorem mem_programs : (r, p) ∈ programs cfg e ↔ program? cfg e r = some p := by
  simp [programs, r.mem_all]

theorem programs_listed (cfg : Config) (e : Extensions) :
    (programs cfg e).map Prod.fst = Routine.all.filter fun r => (program? cfg e r).isSome := by
  rw [programs, List.map_filterMap, ← List.filterMap_eq_filter]
  congr
  funext r
  cases made : program? cfg e r <;> simp [Option.guard, made]

theorem programs_sound (accepted : cfg.problem? = none) : Sound e (programs cfg e) where
  names := by
    rw [programs_listed]
    exact Routine.nodup_all.filter _
  admissible q member :=
    program_admissible (Config.reachable_of_accepted accepted) (mem_programs.mp member)
  labelled q member := by
    have made := mem_programs.mp member
    exact (Routine.sketches_sound _ _ q.1 q.1.mem_all).labelled (program_outline made)
  short q member := program_extent (mem_programs.mp member)

theorem shared_bound {l : Label} (shared : l.Shared) : Op.bind l ∈ joined (programs cfg e) := by
  have there : ∀ place ∈ Routine.shared, ∃ p, program? cfg e place.1 = some p ∧
      Op.bind (place.1.label place.2) ∈ p := by
    simp only [Routine.shared, List.forall_mem_cons]
    refine ⟨⟨_, rfl, ?_⟩, ⟨_, rfl, ?_⟩, ⟨_, rfl, ?_⟩, ⟨_, rfl, ?_⟩, ⟨_, rfl, ?_⟩, List.forall_mem_nil _⟩
    · simp [Exit.forwardException]
    · simp [Exit.removeActivationException]
    · simp [Exit.removeActivation]
    · simp [Exit.removeActivation]
    · simp [Exit.throwStackOverflow]
  obtain ⟨place, member, rfl⟩ := shared
  obtain ⟨p, made, binds⟩ := there place member
  exact mem_joined.mpr ⟨(place.1, p), mem_programs.mpr made, .inr binds⟩

theorem programs_few (cfg : Config) (e : Extensions) : (programs cfg e).length ≤ 28 :=
  List.length_filterMap_le _ Routine.all

/-- No interpreter is longer than this. -/
theorem programs_extent (accepted : cfg.problem? = none) :
    (joined (programs cfg e)).extent ≤ 1023 * 28 := by
  have few := programs_few cfg e
  have extent := (programs_sound (e := e) accepted).joined_extent
  omega

theorem programs_length (cfg : Config) (e : Extensions) :
    (joined (programs cfg e)).length ≤ 1024 * 28 := by
  have few := programs_few cfg e
  have short : ∀ q ∈ programs cfg e, q.2.length < 1024 :=
    fun q member => program_length (mem_programs.mp member)
  have length := joined_length short
  omega

theorem programs_brief (cfg : Config) (e : Extensions) : (joined (programs cfg e)).Brief := by
  intro op member
  obtain ⟨q, inside, rfl | own⟩ := mem_joined.mp member
  · exact q.1.brief_name
  · exact program_brief (mem_programs.mp inside) op own

/-- All routines can be emitted after their labels, and nothing stays open. -/
theorem programs_emitted (accepted : cfg.problem? = none) :
    ∃ a b, (Program.run (List.replicate Routine.labelCount .newLabel)).run (.new e) = .ok () a ∧
      Emitted [] a ∧ (Program.run (joined (programs cfg e))).run a = .ok () b ∧
      Emit.unresolved? b = none := by
  have sound := programs_sound (e := e) accepted
  obtain ⟨a, labelled, inv, ⟨unflushed, extensions⟩, bound, size⟩ :=
    new_labels_run (Emitted.new e) Routine.labelCount rfl
  have fresh : ∀ l, a.bound? l = none := by
    intro l
    rw [bound, Assembler.bound_new]
  have admissible := sound.joined_admissible
  have reached : Reached [] a (joined (programs cfg e)) := by
    refine sound.joined_closed.reached inv fresh admissible (fun l _ => shared_bound) ?_ ?_
    · intro c rs1 rs2 l member
      obtain ⟨q, inside, same | own⟩ := mem_joined.mp member
      · cases same
      · exact (sound.labelled q inside).inner c rs1 rs2 l own
    · have extent := programs_extent (e := e) accepted
      omega
  obtain ⟨b, ran, -⟩ := Program.runs inv (joined (programs cfg e)) unflushed
    (extensions ▸ admissible)
    (fun op member l mentions => by
      obtain ⟨r, s, rfl⟩ := sound.joined_places member mentions
      exact Routine.label_known (size.trans (Nat.zero_add _)))
    (fun l _ => fresh l) sound.joined_once reached
  exact ⟨a, b, labelled, inv, ran, reached.resolved inv ran⟩

end Programs

/-- Where a program was emitted among others, up to the finished assembler `b`. -/
def EmittedAt (es : List Emission) (b : Assembler) (p : Program) (pos : Nat) : Prop :=
  ∃ earlier later a c, Emitted earlier a ∧ (Program.run p).run a = .ok () c ∧ a.pos = pos ∧
    es = earlier ++ p.emissions a.pos ++ later ∧ ∀ l t, c.bound? l = some t → b.bound? l = some t

theorem place_runs (ps : List (Routine × Program)) {es : List Emission} {a b : Assembler}
    (inv : Emitted es a) (ran : (Program.run (joined ps)).run a = .ok () b) :
    ∃ rs, (place ps).run a = .ok rs b ∧ rs.map PlacedRoutine.routine = ps.map Prod.fst ∧
      ∀ q ∈ ps, ∃ r ∈ rs, r.routine = q.1 ∧
        EmittedAt (es ++ (joined ps).emissions a.pos) b q.2 r.offset := by
  induction ps generalizing es a with
  | nil =>
      cases ran
      exact ⟨[], rfl, rfl, List.forall_mem_nil _⟩
  | cons q ps ih =>
      obtain ⟨a', noted, ran⟩ := (Program.run_cons _ _).mp ran
      obtain ⟨c, first, ran⟩ := (Program.run_append _ _).mp ran
      have start := inv.advance _ noted
      have here : a'.pos = a.pos := start.pos inv
      have begun : Emitted es a' := by simpa [Op.emissions] using start.emitted
      obtain ⟨emitted, bound⟩ := Program.emitted begun q.2 first
      obtain ⟨rs, placed, names, there⟩ := ih emitted ran
      have next : c.pos = a'.pos + Program.size a'.pos q.2 := by
        rw [emitted.pos, begun.pos, List.length_append, Nat.mul_add]
        rfl
      have whole : es ++ (joined (q :: ps)).emissions a.pos =
          es ++ q.2.emissions a'.pos ++ (joined ps).emissions c.pos := by
        simp [joined_cons, Program.emissions, Op.emissions, Program.emissions_append, next, here]
      refine ⟨⟨q.1, a'.pos, c.pos - a'.pos⟩ :: rs, ?_, by simp [names], ?_⟩
      · exact Emit.bind_ok.mpr ⟨(), a', noted, Emit.bind_ok.mpr ⟨a', a', rfl, Emit.bind_ok.mpr
          ⟨(), c, first, Emit.bind_ok.mpr ⟨c, c, rfl, Emit.bind_ok.mpr ⟨rs, b, placed, rfl⟩⟩⟩⟩⟩
      · rw [List.forall_mem_cons, whole]
        refine ⟨⟨_, List.mem_cons_self, rfl, es, _, a', c, begun, first, rfl, rfl, ?_⟩, ?_⟩
        · intro l t found
          rw [(Program.emitted emitted (joined ps) ran).2, found, Option.some_or]
        · intro q' member
          obtain ⟨r, inside, same, at_⟩ := there q' member
          exact ⟨r, List.mem_cons_of_mem _ inside, same, at_⟩

theorem even_add {base : Dword} (even : base &&& 1 = 0) (k : Nat) :
    (base + BitVec.ofNat 64 (instructionSize * k)) &&& 1 = 0 := by
  have bit : ∀ v : Dword, v &&& 1 = 0 ↔ v.toNat % 2 = 0 := by
    intro v
    rw [← BitVec.toNat_inj, BitVec.toNat_and, show (1 : Dword).toNat = 1 from rfl, Nat.and_one_is_mod]
    rfl
  rw [bit] at even ⊢
  rw [BitVec.toNat_add, BitVec.toNat_ofNat, instructionSize]
  omega

def Blob.installed (b : Blob) (e : Extensions) (base : Dword) : Interpreter :=
  ⟨base, b.code, e, b.routines, b.notes⟩

/-- The code of an interpreter at an address. -/
structure Image (cfg : Config) (i : Interpreter) (c : Linked) : Prop where
  loaded : ∀ mem : Memory, mem.read i.base i.code.length = i.code → c.InMemory mem
  inside : ∀ x, c.InCode x → Memory.Covers i.base i.code.length x
  routines : ∀ r p, program? cfg i.extensions r = some p →
    ∃ q, i.placed? r = some q ∧ c.Has (i.address q) p
  even : i.base &&& 1 = 0 → c.Even

theorem blob_ok {cfg : Config} {e : Extensions} {rs : List PlacedRoutine} {code : Bytes}
    {a : Assembler} (emitted : (emitAll cfg e).run (.new e) = .ok (rs, code) a) :
    blob cfg e = .ok ⟨rs, code, a.notes⟩ := by
  unfold blob
  generalize (emitAll cfg e).run (.new e) = r at emitted ⊢
  subst emitted
  rfl

/-- Everything is emitted, first the labels and then one routine after the other. -/
theorem emit_all_runs {cfg : Config} (accepted : cfg.problem? = none) (e : Extensions) :
    ∃ a b rs, Emitted [] a ∧ (Program.run (joined (programs cfg e))).run a = .ok () b ∧
      Emit.unresolved? b = none ∧
      (emitAll cfg e).run (.new e) = .ok (rs, b.code) { b with flushed := true } ∧
      rs.map PlacedRoutine.routine = (programs cfg e).map Prod.fst ∧
      ∀ q ∈ programs cfg e, ∃ r ∈ rs, r.routine = q.1 ∧
        EmittedAt ([] ++ (joined (programs cfg e)).emissions a.pos) b q.2 r.offset := by
  obtain ⟨a, b, labelled, inv, ran, clear⟩ := programs_emitted (e := e) accepted
  obtain ⟨rs, placed, names, there⟩ := place_runs (programs cfg e) inv ran
  refine ⟨a, b, rs, inv, ran, clear, ?_, names, there⟩
  exact Emit.bind_ok.mpr ⟨(), a, labelled, Emit.bind_ok.mpr ⟨rs, b, placed,
    Emit.bind_ok.mpr ⟨b.code, _, Emit.flush_ok.mpr ⟨clear, rfl, rfl⟩, rfl⟩⟩⟩

theorem blob_short {cfg : Config} {e : Extensions} {b : Blob} (accepted : cfg.problem? = none)
    (made : blob cfg e = .ok b) : b.code.length ≤ instructionSize * (1023 * 28) := by
  obtain ⟨start, a, rs, inv, ran, -, emitted, -, -⟩ := emit_all_runs accepted e
  obtain ⟨finished, -⟩ := Program.emitted inv _ ran
  obtain rfl := Except.ok.inj (made.symm.trans (blob_ok emitted))
  have words := (joined (programs cfg e)).emissions_extent start.pos
  have extent := programs_extent (e := e) accepted
  rw [List.nil_append] at finished
  rw [finished.code_length]
  exact Nat.mul_le_mul_left _ (words.trans extent)

/-- Every accepted configuration has an interpreter, whose routines lie where it says. -/
theorem blob_image {cfg : Config} (accepted : cfg.problem? = none) (e : Extensions) :
    ∃ b, blob cfg e = .ok b ∧ ∀ base, ∃ c, Image cfg (b.installed e base) c := by
  obtain ⟨a, b, rs, inv, ran, clear, emitted, names, there⟩ := emit_all_runs accepted e
  obtain ⟨finished, -⟩ := Program.emitted inv _ ran
  have made := blob_ok emitted
  have distinct : (rs.map PlacedRoutine.routine).Nodup := by
    rw [names]
    exact (programs_sound accepted).names
  refine ⟨_, made, fun base => ⟨.of base ([] ++ (joined (programs cfg e)).emissions a.pos) b,
    ?_, ?_, ?_, ?_⟩⟩
  · exact fun mem loaded => Linked.of_in_memory base finished loaded
  · exact fun x inside => Linked.of_covers base finished (.inl inside)
  · intro r p made
    obtain ⟨q, member, named, earlier, later, a', c', start, first, here, whole, kept⟩ :=
      there (r, p) (mem_programs.mpr made)
    refine ⟨q, ?_, ?_⟩
    · exact Table.find_keyed distinct member named
    · rw [address, ← here]
      exact Linked.of_has base finished clear p earlier later start first whole kept
  · rintro even _ _ ⟨k, _, -, rfl, -⟩
    exact even_add even k

end Interpreter

end EntryCode
