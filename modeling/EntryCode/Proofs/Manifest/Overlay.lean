import EntryCode.Manifest.Basic
import EntryCode.Proofs.Interpreter.Generation
import EntryCode.Proofs.Table

/-!
A manifest is an overlay over the reference configuration. Every address and offset that it names
takes the value given there, all others stay, and it gives a configuration exactly where all names
are known and the result is accepted.
-/

namespace EntryCode

section Names

section Search
variable {α : Type} {name : α → String} {all : List α}

theorem find_named (listed : ∀ a, a ∈ all) (name_inj : ∀ {a b}, name a = name b → a = b) (a : α) :
    (all.find? fun b => name b = name a) = some a :=
  Table.find_alone (listed a) fun _ _ => name_inj

theorem find_unnamed {n : String} (unnamed : ∀ a, name a ≠ n) :
    (all.find? fun b => name b = n) = none := by
  rw [List.find?_eq_none]
  intro a _ same
  exact unnamed a (of_decide_eq_true same)

end Search

theorem Callee.mem_all (c : Callee) : c ∈ Callee.all := by
  cases c <;> decide

theorem Callee.name_inj {c d : Callee} (same : c.name = d.name) : c = d :=
  List.inj_on_of_nodup_map (l := Callee.all) (by decide) c.mem_all d.mem_all same

theorem MethodField.name_inj {f g : MethodField} (same : f.name = g.name) : f = g :=
  List.inj_on_of_nodup_map (l := MethodField.all) (by decide) f.mem_all g.mem_all same

theorem ThreadField.name_inj {f g : ThreadField} (same : f.name = g.name) : f = g :=
  List.inj_on_of_nodup_map (l := ThreadField.all) (by decide) f.mem_all g.mem_all same

end Names

section Assignment
variable {σ ε α : Type}

theorem map_error_ok {δ : Type} {x : Except ε α} {f : ε → δ} {a : α} :
    x.mapError f = .ok a ↔ x = .ok a := by
  cases x <;> simp [Except.mapError]

/-- A record whose fields have names, and a function that assigns one field by name. -/
structure Assigns (name : α → String) (value : σ → α → Dword)
    (assign : σ → String → Dword → Except ε σ) : Prop where
  name_inj : ∀ {a b}, name a = name b → a = b
  value_inj : ∀ {s t}, value s = value t → s = t
  known : ∀ s a v, ∃ t, assign s (name a) v = .ok t ∧ value t a = v ∧
    ∀ b, b ≠ a → value t b = value s b
  unknown : ∀ s n v, (∀ a, name a ≠ n) → ∃ e, assign s n v = .error e

/-- The values of a table in the place of the given ones. -/
def overlaid (name : α → String) (t : List (String × Dword)) (value : α → Dword) (a : α) : Dword :=
  (t.lookup (name a)).getD (value a)

/-- Whether values are given ones with those of a table in their place. -/
def Overlays (name : α → String) (t : List (String × Dword)) (given value : α → Dword) : Prop :=
  ∀ a, (∀ v, (name a, v) ∈ t → value a = v) ∧ (name a ∉ t.map Prod.fst → value a = given a)

/-- Every name of a table is that of a field. -/
def Named (name : α → String) (t : List (String × Dword)) : Prop :=
  ∀ e ∈ t, ∃ a, name a = e.1

section Tables
variable {name : α → String} {t entries : List (String × Dword)} {value : α → Dword}

theorem overlaid_overlays (distinct : (t.map Prod.fst).Nodup) :
    Overlays name t value (overlaid name t value) := by
  intro a
  constructor
  · intro v member
    rw [overlaid, (Table.lookup_iff_mem distinct).mpr member, Option.getD_some]
  · intro absent
    have missing : t.lookup (name a) = none := by
      rw [List.lookup_eq_none_iff]
      intro e member
      rw [bne_iff_ne]
      rintro same
      exact absent (same ▸ List.mem_map_of_mem member)
    rw [overlaid, missing, Option.getD_none]

theorem overlaid_of_entries (distinct : (entries.map Prod.fst).Nodup) :
    overlaid name (Table.ofEntries entries) value = overlaid name entries value := by
  funext a
  have same : (Table.ofEntries entries).lookup (name a) = entries.lookup (name a) := by
    apply Option.ext
    intro v
    rw [Table.lookup_of_entries distinct, Table.lookup_iff_mem distinct]
  rw [overlaid, same, overlaid]

theorem named_of_entries (distinct : (entries.map Prod.fst).Nodup) :
    Named name (Table.ofEntries entries) ↔ Named name entries :=
  forall_congr' fun _ => imp_congr_left (Table.of_entries_perm distinct).mem_iff

end Tables

namespace Assigns
variable {name : α → String} {value : σ → α → Dword} {assign : σ → String → Dword → Except ε σ}
  (assigns : Assigns name value assign)
include assigns

/-- An assignment changes the field of its name and no other, and fails if there is none. -/
theorem ok_iff {s t : σ} {n : String} {v : Dword} : assign s n v = .ok t ↔
    ∃ a, name a = n ∧ value t a = v ∧ ∀ b, b ≠ a → value t b = value s b := by
  constructor
  · intro assigned
    by_cases named : ∃ a, name a = n
    · obtain ⟨a, rfl⟩ := named
      obtain ⟨u, same, changed⟩ := assigns.known s a v
      rw [assigned] at same
      cases same
      exact ⟨a, rfl, changed⟩
    · obtain ⟨e, failed⟩ := assigns.unknown s n v (not_exists.mp named)
      rw [assigned] at failed
      cases failed
  · rintro ⟨a, rfl, here, others⟩
    obtain ⟨u, assigned, at_a, elsewhere⟩ := assigns.known s a v
    rw [assigned]
    congr 1
    apply assigns.value_inj
    funext b
    by_cases same : b = a
    · rw [same, at_a, here]
    · rw [elsewhere b same, others b same]

theorem all_ok_iff {t : List (String × Dword)} (distinct : (t.map Prod.fst).Nodup) {s u : σ} :
    t.foldlM (fun s e => assign s e.1 e.2) s = .ok u ↔
      Named name t ∧ value u = overlaid name t (value s) := by
  induction t generalizing s with
  | nil =>
      constructor
      · intro same
        cases same
        exact ⟨nofun, rfl⟩
      · rintro ⟨-, same⟩
        exact congrArg Except.ok (assigns.value_inj same.symm)
  | cons e rest ih =>
      rw [List.map_cons, List.nodup_cons] at distinct
      rw [List.foldlM_cons, Named, List.forall_mem_cons]
      -- No later entry has the name of the first one.
      have later : rest.lookup e.1 = none := by
        rw [List.lookup_eq_none_iff]
        intro d member
        rw [bne_iff_ne]
        exact fun same => distinct.1 (same ▸ List.mem_map_of_mem member)
      have joined : ∀ {mid : σ} {a}, name a = e.1 → value mid a = e.2 →
          (∀ b, b ≠ a → value mid b = value s b) →
          overlaid name rest (value mid) = overlaid name (e :: rest) (value s) := by
        intro mid a here changed others
        funext b
        by_cases same : b = a
        · subst same
          simp [overlaid, List.lookup, here, later, changed]
        · have apart : name b ≠ e.1 := fun names => same (assigns.name_inj (names.trans here.symm))
          simp [overlaid, List.lookup, beq_false_of_ne apart, others b same]
      constructor
      · intro assigned
        obtain ⟨mid, first, second⟩ := bind_ok.mp assigned
        obtain ⟨a, here, changed, others⟩ := assigns.ok_iff.mp first
        obtain ⟨named, same⟩ := (ih distinct.2).mp second
        exact ⟨⟨⟨a, here⟩, named⟩, same.trans (joined here changed others)⟩
      · rintro ⟨⟨⟨a, here⟩, named⟩, same⟩
        obtain ⟨mid, first, changed, others⟩ := assigns.known s a e.2
        rw [here] at first
        rw [first]
        exact (ih distinct.2).mpr ⟨named, same.trans (joined here changed others).symm⟩

/-- The one record that a table overlays is what comes of assigning its entries. -/
theorem built_iff {δ : Type} {f : ε → δ} {t : List (String × Dword)}
    (distinct : (t.map Prod.fst).Nodup) {s u x : σ}
    (built : value u = overlaid name t (value s)) :
    (t.foldlM (fun s e => assign s e.1 e.2) s).mapError f = .ok x ↔ Named name t ∧ x = u := by
  rw [map_error_ok, assigns.all_ok_iff distinct, ← built]
  exact and_congr_right fun _ => ⟨fun same => assigns.value_inj same, congrArg value⟩

end Assigns
end Assignment

section Records

theorem Callees.assigns : Assigns Callee.name Callees.address Callees.setNamed where
  name_inj := Callee.name_inj
  value_inj := fun {s t} same => by
    cases s
    cases t
    exact congrArg Callees.mk same
  known := by
    intro s c v
    refine ⟨s.set c v, ?_, if_pos rfl, fun b other => if_neg other⟩
    rw [setNamed, find_named Callee.mem_all Callee.name_inj]
  unknown := by
    intro s n v unnamed
    refine ⟨⟨n⟩, ?_⟩
    rw [setNamed, find_unnamed unnamed]

theorem Layout.assigns {F : Type} [RecordField F] [DecidableEq F]
    (listed : ∀ f : F, f ∈ RecordField.all)
    (name_inj : ∀ {f g : F}, RecordField.name f = RecordField.name g → f = g) :
    Assigns (RecordField.name (F := F)) Layout.offset Layout.setNamed where
  name_inj := name_inj
  value_inj := fun {s t} same => by
    cases s
    cases t
    exact congrArg Layout.mk same
  known := by
    intro s f v
    refine ⟨s.set f v, ?_, if_pos rfl, fun b other => if_neg other⟩
    rw [setNamed, field?, find_named listed name_inj]
  unknown := by
    intro s n v unnamed
    refine ⟨⟨n⟩, ?_⟩
    rw [setNamed, field?, find_unnamed unnamed]

theorem MethodField.assigns :
    Assigns MethodField.name (Layout.offset (F := MethodField)) Layout.setNamed :=
  Layout.assigns MethodField.mem_all MethodField.name_inj

theorem ThreadField.assigns :
    Assigns ThreadField.name (Layout.offset (F := ThreadField)) Layout.setNamed :=
  Layout.assigns ThreadField.mem_all ThreadField.name_inj

end Records

namespace Manifest

/-- The reference configuration with a manifest's settings and with the values of three tables in
the place of its own. -/
def overlaidConfig (settings : Settings) (runtime method thread : List (String × Dword)) :
    Config where
  toSettings := settings
  callees := ⟨overlaid Callee.name runtime Callees.reference.address⟩
  method := ⟨overlaid MethodField.name method MethodField.reference.offset⟩
  thread := ⟨overlaid ThreadField.name thread ThreadField.reference.offset⟩

/-- The manifest with the given entries of its three tables, in whatever order they come. -/
def entered (m : Manifest) (runtime method thread : List (String × Dword)) : Manifest :=
  { m with
    runtime := Table.ofEntries runtime
    method := Table.ofEntries method
    thread := Table.ofEntries thread }

theorem overlay_ok_iff {m : Manifest} {c : Config} (runtime : (m.runtime.map Prod.fst).Nodup)
    (method : (m.method.map Prod.fst).Nodup) (thread : (m.thread.map Prod.fst).Nodup) :
    m.overlay = .ok c ↔ (Named Callee.name m.runtime ∧ Named MethodField.name m.method ∧
      Named ThreadField.name m.thread) ∧
        c = overlaidConfig m.settings m.runtime m.method m.thread := by
  have callees := fun {x} => Callees.assigns.built_iff (f := ConfigError.runtime) runtime (x := x)
    (u := ⟨overlaid Callee.name m.runtime Callees.reference.address⟩) rfl
  have methods := fun {x} => MethodField.assigns.built_iff (f := ConfigError.method) method (x := x)
    (u := ⟨overlaid MethodField.name m.method MethodField.reference.offset⟩) rfl
  have threads := fun {x} => ThreadField.assigns.built_iff (f := ConfigError.thread) thread (x := x)
    (u := ⟨overlaid ThreadField.name m.thread ThreadField.reference.offset⟩) rfl
  constructor
  · intro overlay
    obtain ⟨_, first, overlay⟩ := bind_ok.mp overlay
    obtain ⟨_, second, overlay⟩ := bind_ok.mp overlay
    obtain ⟨_, third, overlay⟩ := bind_ok.mp overlay
    obtain ⟨one, rfl⟩ := callees.mp first
    obtain ⟨two, rfl⟩ := methods.mp second
    obtain ⟨three, rfl⟩ := threads.mp third
    cases overlay
    exact ⟨⟨one, two, three⟩, rfl⟩
  · rintro ⟨⟨one, two, three⟩, rfl⟩
    refine bind_ok.mpr ⟨_, callees.mpr ⟨one, rfl⟩, ?_⟩
    refine bind_ok.mpr ⟨_, methods.mpr ⟨two, rfl⟩, ?_⟩
    exact bind_ok.mpr ⟨_, threads.mpr ⟨three, rfl⟩, rfl⟩

theorem config_ok_iff {m : Manifest} {c : Config} : m.config = .ok c ↔
    m.overlay = .ok c ∧ c.problem? = none := by
  rw [config, bind_ok]
  constructor
  · rintro ⟨d, overlay, checked⟩
    split at checked
    · cases checked
    · next fine =>
        cases checked
        exact ⟨overlay, fine⟩
  · rintro ⟨overlay, fine⟩
    refine ⟨c, overlay, ?_⟩
    rw [fine]
    rfl

/-- A manifest gives the reference configuration with its own values in the place of those that it
names, where all names are known and the result is accepted. -/
theorem manifests_overlay_reference (m : Manifest) {runtime method thread : List (String × Dword)}
    (runtime_keys : (runtime.map Prod.fst).Nodup) (method_keys : (method.map Prod.fst).Nodup)
    (thread_keys : (thread.map Prod.fst).Nodup) :
    let c := overlaidConfig m.settings runtime method thread
    (∀ d, (m.entered runtime method thread).config = .ok d ↔
      (Named Callee.name runtime ∧ Named MethodField.name method ∧
        Named ThreadField.name thread) ∧ c.problem? = none ∧ d = c) ∧
    (c.toSettings = m.settings ∧
      Overlays Callee.name runtime Config.reference.callees.address c.callees.address ∧
      Overlays MethodField.name method Config.reference.method.offset c.method.offset ∧
      Overlays ThreadField.name thread Config.reference.thread.offset c.thread.offset) ∧
    (∀ runtime' method' thread', runtime.Perm runtime' → method.Perm method' →
      thread.Perm thread' →
      (m.entered runtime' method' thread').config = (m.entered runtime method thread).config) ∧
    ((∀ s t n v, Callees.setNamed s n v = .ok t ↔ ∃ a, Callee.name a = n ∧ t.address a = v ∧
        ∀ b, b ≠ a → t.address b = s.address b) ∧
      (∀ (s t : Layout MethodField) n v, s.setNamed n v = .ok t ↔
        ∃ a, MethodField.name a = n ∧ t.offset a = v ∧ ∀ b, b ≠ a → t.offset b = s.offset b) ∧
      ∀ (s t : Layout ThreadField) n v, s.setNamed n v = .ok t ↔
        ∃ a, ThreadField.name a = n ∧ t.offset a = v ∧ ∀ b, b ≠ a → t.offset b = s.offset b) := by
  refine ⟨?_, ⟨rfl, overlaid_overlays runtime_keys, overlaid_overlays method_keys,
    overlaid_overlays thread_keys⟩, ?_, fun _ _ _ _ => Callees.assigns.ok_iff,
    fun _ _ _ _ => MethodField.assigns.ok_iff, fun _ _ _ _ => ThreadField.assigns.ok_iff⟩
  · intro d
    have keys : ∀ {t : List (String × Dword)}, (t.map Prod.fst).Nodup →
        ((Table.ofEntries t).map Prod.fst).Nodup := fun distinct =>
      ((Table.of_entries_perm distinct).map Prod.fst).nodup_iff.mpr distinct
    rw [config_ok_iff, overlay_ok_iff (keys runtime_keys) (keys method_keys) (keys thread_keys),
      entered, named_of_entries runtime_keys, named_of_entries method_keys,
      named_of_entries thread_keys]
    have same : overlaidConfig m.settings (Table.ofEntries runtime) (Table.ofEntries method)
        (Table.ofEntries thread) = overlaidConfig m.settings runtime method thread := by
      rw [overlaidConfig, overlaid_of_entries runtime_keys, overlaid_of_entries method_keys,
        overlaid_of_entries thread_keys, overlaidConfig]
    rw [same, and_assoc]
    constructor
    · rintro ⟨named, rfl, fine⟩
      exact ⟨named, fine, rfl⟩
    · rintro ⟨named, fine, rfl⟩
      exact ⟨named, rfl, fine⟩
  · intro runtime' method' thread' one two three
    rw [entered, entered, Table.of_entries_congr runtime_keys one,
      Table.of_entries_congr method_keys two, Table.of_entries_congr thread_keys three]

/-- A manifest that names two routines, one of them without an address, and one offset of each
record; the routine in between keeps its own. -/
theorem named_values_are_taken :
    let runtime := [("sin", 0), ("monitorexit", 0x7000)]
    let method := [("codes-offset", 56)]
    let thread := [("handle-block-top", 4)]
    ((runtime.map Prod.fst).Nodup ∧ (method.map Prod.fst).Nodup ∧ (thread.map Prod.fst).Nodup) ∧
      ∃ c, (default.entered runtime method thread).config = .ok c ∧
        c.callees.address .monitorExit = 0x7000 ∧ c.callees.address .sin = 0 ∧
        c.callees.address .prepareNativeCall = 0x7f0000000050 ∧ c.method.offset .codes = 56 ∧
        c.thread.offset .handleTop = 4 := by
  intro runtime method thread
  have distinct : (runtime.map Prod.fst).Nodup ∧ (method.map Prod.fst).Nodup ∧
      (thread.map Prod.fst).Nodup := by decide
  obtain ⟨one, two, three⟩ := distinct
  obtain ⟨taken, ⟨-, callees, methods, threads⟩, -⟩ :=
    manifests_overlay_reference default one two three
  refine ⟨⟨one, two, three⟩, _, (taken _).mpr ⟨⟨?_, ?_, ?_⟩, ?_, rfl⟩, ?_, ?_, ?_, ?_, ?_⟩
  · exact List.forall_mem_cons.mpr ⟨⟨.sin, rfl⟩, List.forall_mem_singleton.mpr ⟨.monitorExit, rfl⟩⟩
  · exact List.forall_mem_singleton.mpr ⟨.codes, rfl⟩
  · exact List.forall_mem_singleton.mpr ⟨.handleTop, rfl⟩
  · decide +kernel
  · exact (callees .monitorExit).1 _ (by simp [runtime, Callee.name])
  · exact (callees .sin).1 _ (by simp [runtime, Callee.name])
  · exact (callees .prepareNativeCall).2 (by decide)
  · exact (methods .codes).1 _ (by simp [method, MethodField.name])
  · exact (threads .handleTop).1 _ (by simp [thread, ThreadField.name])

end Manifest

end EntryCode
