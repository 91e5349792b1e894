import EntryCode.Image.Codec
import EntryCode.Proofs.Cbor.Canonical
import EntryCode.Proofs.Image.Capture

/-!
Images are read back from their bytes. Whatever a generator makes has room in the format: its texts
are short, its notes are few, and its tables are in order.
-/

namespace EntryCode

theorem Uuid.length_bytes (u : Uuid) : u.bytes.length = 16 := by
  rw [bytes, List.length_reverse, Bytes.length_ofBits]

theorem Uuid.of_bytes (u : Uuid) : ofBytes? u.bytes = some u := by
  have small := u.bits.isLt
  rw [ofBytes?, if_pos u.length_bytes, bytes, List.reverse_reverse, Bytes.to_nat_of_bits,
    Nat.mod_eq_of_lt (by omega), BitVec.ofNat_toNat, BitVec.setWidth_eq]

def ImageRoutine.fields (r : ImageRoutine) : List (String × Cbor) :=
  [("name", .text r.name), ("offset", .integer r.offset.toInt), ("size", .integer r.size.toInt)]

namespace Image

open Cbor

def ShortTexts (xs : List String) : Prop :=
  xs.length ≤ maxItems ∧ ∀ x ∈ xs, ShortText x

def ShortTable (t : Table String Dword) : Prop :=
  t.length ≤ maxItems ∧ Table.Ascending t ∧ ∀ e ∈ t, ShortText e.1

/-- An image that can be stored: nothing in it is too large, and its tables are in order. -/
structure Storable (i : Image) : Prop where
  fingerprint : ShortText i.fingerprint
  features : ∀ xs, i.features = some xs → ShortTexts xs
  code : ∀ b, i.code = some b → b.length < 2 ^ 64
  routines : ∀ rs, i.routines = some rs → rs.length ≤ maxItems ∧ ∀ r ∈ rs, ShortText r.name
  entries : ∀ t, i.entries = some t → ShortTable t
  handlers : ∀ t, i.resultHandlers = some t → ShortTable t
  notes : i.notes.length ≤ maxItems
  ascending : Table.Ascending i.notes
  positions : ∀ n ∈ i.notes, -2 ^ 63 ≤ n.1 ∧ n.1 < 2 ^ 63
  texts : ∀ n ∈ i.notes, ∀ xs, n.2 = some xs → ShortTexts xs

section Parts

theorem sorted_optional {α : Type} {write : α → Cbor} (x : Option α) :
    sorted (optional write x) = optional (sorted ∘ write) x := by
  cases x <;> rfl

theorem read_optional {α : Type} {read : Reading α} {write : α → Cbor} {x : Option α}
    (missing : read null = some none)
    (each : ∀ a, x = some a → read (write a) = some (some a)) :
    read (optional write x) = some x := by
  cases x with
  | none => exact missing
  | some a => exact each a rfl

theorem sorted_texts (xs : List String) : sorted (texts xs) = texts xs := by
  rw [texts, sorted_array, List.map_map]
  rfl

theorem read_texts (xs : List String) : asList "" asText (texts xs) = some (some xs) :=
  as_list fun _ _ => rfl

theorem read_sorted_texts (xs : List String) :
    asList "" asText (sorted (texts xs)) = some (some xs) := by
  rw [sorted_texts]
  exact read_texts xs

theorem read_id (u : Uuid) : idOfCbor (.bytes u.bytes) = some (some u) :=
  congrArg (Option.bind · fun u => some (some u)) u.of_bytes

theorem read_table {t : Table String Dword} (ascending : Table.Ascending t) :
    offsetsOfCbor (sorted (offsetTable t)) = some (some t) := by
  obtain ⟨ys, perm, ordered⟩ := sorted_map_of (fun e : String × Dword => .text e.1)
    (fun e => integer e.2.toInt) t
  have names : ∀ e ∈ ys, asText (.text e.1) = some (some e.1) := fun _ _ => rfl
  have offsets : ∀ e ∈ ys, asSigned (integer e.2.toInt) = some (some e.2) :=
    fun e _ => as_signed e.2
  have read : asMap ("", 0) asText asSigned
      (.map (ys.map fun e => (.text e.1, integer e.2.toInt))) = some (some ys) :=
    as_map .text (fun v : Dword => integer v.toInt) names offsets
  simp only [sorted_integer] at ordered
  rw [offsetTable, ordered]
  refine (congrArg (Option.bind · _) read).trans ?_
  exact congrArg (fun t => some (some t)) (Table.of_entries_of_perm ascending perm)

theorem read_note_texts (x : Option (List String)) :
    noteTexts (optional texts x) = some (some x) := by
  cases x with
  | none => rfl
  | some xs => exact congrArg (Option.bind · _) (read_texts xs)

theorem read_notes {t : Table Int (Option (List String))} (ascending : Table.Ascending t)
    (positions : ∀ n ∈ t, -2 ^ 63 ≤ n.1 ∧ n.1 < 2 ^ 63) :
    notesOfCbor (sorted (.map (t.map fun n => (.integer n.1, .optional texts n.2)))) =
      some (some t) := by
  obtain ⟨ys, perm, ordered⟩ := sorted_map_of (fun n : Int × Option (List String) => integer n.1)
    (fun n => optional texts n.2) t
  have within : ∀ n ∈ ys, asIntegerWithin (-0x8000000000000000) 0x8000000000000000
      (integer n.1) = some (some n.1) := by
    intro n member
    obtain ⟨low, high⟩ := positions n (perm.mem_iff.mp member)
    exact as_integer_within (by omega) (by omega)
  have read : asMap (0, none) (asIntegerWithin (-0x8000000000000000) 0x8000000000000000) noteTexts
      (.map (ys.map fun n => (integer n.1, optional texts n.2))) = some (some ys) :=
    as_map integer (optional texts) within fun n _ => read_note_texts n.2
  have texts : sorted ∘ texts = texts := funext sorted_texts
  simp only [sorted_integer, sorted_optional, texts] at ordered
  rw [ordered]
  refine (congrArg (Option.bind · _) read).trans ?_
  exact congrArg (fun t => some (some t)) (Table.of_entries_of_perm ascending perm)

theorem read_routine (r : ImageRoutine) :
    ImageRoutine.ofCbor (sorted r.toCbor) = some (some r) := by
  obtain ⟨found, record, fields, -⟩ := as_record ["name", "offset", "size"] r.fields
    (by decide +kernel) (show ["name", "offset", "size"].Nodup by decide) (by simp [ImageRoutine.fields])
  simp only [ImageRoutine.fields, List.forall_mem_cons, sorted_integer] at fields
  have whole : asRecord ["name", "offset", "size"] (sorted r.toCbor) = some found := record
  simp only [ImageRoutine.ofCbor, whole, field, fields, as_signed, Option.bind_eq_bind,
    Option.bind_some]
  rfl

theorem read_routines (rs : List ImageRoutine) :
    asList ⟨"", 0, 0⟩ ImageRoutine.ofCbor (sorted (.array (rs.map ImageRoutine.toCbor))) =
      some (some rs) := by
  rw [sorted_array, List.map_map]
  exact as_list fun r _ => read_routine r

section Fitting
variable {d : Nat} {t : Bool}

theorem fits_optional {α : Type} {write : α → Cbor} {x : Option α}
    (each : ∀ a, x = some a → Fits d t (write a)) : Fits d t (optional write x) := by
  cases x with
  | none => exact .simple (by decide)
  | some a => exact each a rfl

theorem fits_texts {xs : List String} (short : ShortTexts xs) : Fits (d + 1) t (texts xs) := by
  refine .array (by rw [List.length_map]; exact short.1) ?_
  intro x member
  obtain ⟨s, among, rfl⟩ := List.mem_map.mp member
  exact .text (short.2 s among)

theorem fits_table {xs : Table String Dword} (short : ShortTable xs) :
    Fits (d + 1) t (offsetTable xs) :=
  fits_named short.1 short.2.2 fun e _ => fits_signed e.2

theorem fits_routine {r : ImageRoutine} (short : ShortText r.name) : Fits (d + 1) t r.toCbor := by
  have names : ∀ p ∈ r.fields, ShortText p.1 := by
    simp only [ImageRoutine.fields, List.forall_mem_cons]
    exact ⟨by decide, by decide, by decide, List.forall_mem_nil _⟩
  show Fits (d + 1) t (.map (r.fields.map fun p => (.text p.1, p.2)))
  refine fits_named (Nat.le_of_ble_eq_true rfl) names ?_
  simp only [ImageRoutine.fields, List.forall_mem_cons]
  exact ⟨.text short, fits_signed _, fits_signed _, List.forall_mem_nil _⟩

theorem fits_routines {rs : List ImageRoutine}
    (short : rs.length ≤ maxItems ∧ ∀ r ∈ rs, ShortText r.name) :
    Fits (d + 2) t (.array (rs.map ImageRoutine.toCbor)) := by
  refine .array (by rw [List.length_map]; exact short.1) ?_
  intro x member
  obtain ⟨r, among, rfl⟩ := List.mem_map.mp member
  exact fits_routine (short.2 r among)

theorem fits_notes {xs : Table Int (Option (List String))} (few : xs.length ≤ maxItems)
    (positions : ∀ n ∈ xs, -2 ^ 63 ≤ n.1 ∧ n.1 < 2 ^ 63)
    (short : ∀ n ∈ xs, ∀ ys, n.2 = some ys → ShortTexts ys) :
    Fits (d + 2) t (.map (xs.map fun n => (.integer n.1, .optional texts n.2))) := by
  refine .map (by rw [List.length_map]; exact few) ?_ ?_
  · intro p member
    obtain ⟨n, among, rfl⟩ := List.mem_map.mp member
    obtain ⟨low, high⟩ := positions n among
    exact fits_integer low (by omega)
  · intro p member
    obtain ⟨n, among, rfl⟩ := List.mem_map.mp member
    exact fits_optional fun ys stored => fits_texts (short n among ys stored)

end Fitting

end Parts

section Whole
variable (i : Image)

def fields : List (String × Cbor) :=
  [("version", integer i.version.toInt), ("id", bytes i.id.bytes),
    ("fingerprint", text i.fingerprint), ("created", integer i.created.toInt),
    ("features", optional texts i.features), ("base", unsigned i.base.toNat),
    ("code", optional bytes i.code),
    ("routines", optional (fun rs => array (rs.map ImageRoutine.toCbor)) i.routines),
    ("entries", optional offsetTable i.entries),
    ("result_handlers", optional offsetTable i.resultHandlers)] ++
    if i.notes.isEmpty then []
    else [("notes", Cbor.map (i.notes.map fun n => (integer n.1, optional texts n.2)))]

theorem to_cbor_eq : i.toCbor = .map (i.fields.map fun f => (.text f.1, f.2)) := by
  rw [toCbor, fields]
  split <;> rfl

theorem names_eq : i.fields.map Prod.fst =
    if i.notes.isEmpty then fieldNames.dropLast else fieldNames := by
  rw [fields]
  split <;> rfl

variable {i}

theorem known {f : String × Cbor} (member : f ∈ i.fields) : f.1 ∈ fieldNames := by
  have among := List.mem_map_of_mem (f := Prod.fst) member
  rw [names_eq] at among
  split at among
  · exact List.mem_of_mem_dropLast among
  · exact among

theorem of_cbor (storable : i.Storable) : ofCbor? (sorted i.toCbor) = some i := by
  have distinct : (i.fields.map Prod.fst).Nodup := by
    rw [names_eq]
    split <;> decide
  obtain ⟨found, record, there, missing⟩ := as_record fieldNames i.fields (by decide +kernel)
    distinct fun _ => known
  rw [← to_cbor_eq] at record
  have notes : field found "notes" [] notesOfCbor = some i.notes := by
    -- Without notes there is no such field.
    by_cases none : i.notes.isEmpty
    · have absent : "notes" ∉ i.fields.map Prod.fst := by
        rw [names_eq, if_pos none]
        decide
      rw [field_missing (missing _ absent), List.isEmpty_iff.mp none]
    · have stored := there ("notes", .map (i.notes.map fun n => (.integer n.1, .optional texts n.2)))
        (by simp [fields, none])
      exact field_found stored (read_notes storable.ascending storable.positions)
  -- Fields were sorted by their names, so each is found by its own.
  simp only [fields, List.forall_mem_append, List.forall_mem_cons, sorted_integer,
    sorted_optional] at there
  obtain ⟨⟨version, id, fingerprint, created, features, base, code, routines, entries, handlers, -⟩,
    -⟩ := there
  have version : field found "version" 0 asSigned = some i.version :=
    field_found version (as_signed _)
  have created : field found "created" 0 asSigned = some i.created :=
    field_found created (as_signed _)
  have base : field found "base" 0 asUnsigned = some i.base :=
    field_found base (as_unsigned _)
  have id : field found "id" .zero idOfCbor = some i.id := field_found id (read_id i.id)
  have fingerprint : field found "fingerprint" "" asText = some i.fingerprint :=
    field_found fingerprint rfl
  have features : field? found "features" (asList "" asText) = some i.features :=
    optional_field_found features (read_optional rfl fun xs _ => read_sorted_texts xs)
  have code : field? found "code" asBytes = some i.code :=
    optional_field_found code (read_optional rfl fun _ _ => rfl)
  have routines :
      field? found "routines" (asList ⟨"", 0, 0⟩ ImageRoutine.ofCbor) = some i.routines :=
    optional_field_found routines (read_optional rfl fun rs _ => read_routines rs)
  have entries : field? found "entries" offsetsOfCbor = some i.entries :=
    optional_field_found entries (read_optional rfl fun t stored =>
      read_table (storable.entries t stored).2.1)
  have handlers : field? found "result_handlers" offsetsOfCbor = some i.resultHandlers :=
    optional_field_found handlers (read_optional rfl fun t stored =>
      read_table (storable.handlers t stored).2.1)
  rw [ofCbor?, bind_read record, bind_read version, bind_read id, bind_read fingerprint,
    bind_read created, bind_read features, bind_read base, bind_read code, bind_read routines,
    bind_read entries, bind_read handlers, bind_read notes]
  rfl

/-- Everything in an image that can be stored can be written and read again. -/
theorem fits (storable : i.Storable) : Fits maxDepth false i.toCbor := by
  have names : ∀ name ∈ fieldNames, ShortText name := by decide +kernel
  have each : ∀ f ∈ i.fields, Fits 31 false f.2 := by
    rw [fields]
    simp only [List.forall_mem_append, List.forall_mem_cons]
    refine ⟨⟨fits_signed _, .bytes (by rw [Uuid.length_bytes]; decide),
      .text storable.fingerprint, fits_signed _, ?_, .unsigned i.base.isLt, ?_, ?_, ?_, ?_,
      List.forall_mem_nil _⟩, ?_⟩
    · exact fits_optional fun xs stored => fits_texts (storable.features xs stored)
    · exact fits_optional fun b stored => .bytes (storable.code b stored)
    · exact fits_optional fun rs stored => fits_routines (storable.routines rs stored)
    · exact fits_optional fun t stored => fits_table (storable.entries t stored)
    · exact fits_optional fun t stored => fits_table (storable.handlers t stored)
    · split
      · exact List.forall_mem_nil _
      · rw [List.forall_mem_singleton]
        exact fits_notes storable.notes storable.positions storable.texts
  rw [to_cbor_eq]
  refine fits_named ?_ (fun f among => names _ (known among)) each
  rw [← List.length_map (f := Prod.fst), names_eq]
  split <;> decide

theorem decode_encode (storable : i.Storable) (valid : i.problem? = none) :
    decode i.encode = .ok i := by
  rw [decode, encode, Cbor.decode_encode (fits storable), Option.bind_some, of_cbor storable]
  simp only [valid]

end Whole

section Generated
open Interpreter

variable {cfg : Config} {e : Extensions} {b : Blob}

theorem short_features (e : Extensions) : ShortTexts e.names := by
  have names : ∀ x ∈ Extensions.known.map Prod.fst, ShortText x := by decide +kernel
  have among : e.names.Sublist (Extensions.known.map Prod.fst) := List.filter_sublist.map _
  exact ⟨among.length_le.trans (by decide), fun x member => names x (among.subset member)⟩

theorem short_table {xs : List (String × Dword)} (few : xs.length ≤ maxItems)
    (names : ∀ e ∈ xs, ShortText e.1) : ShortTable (Table.ofEntries xs) :=
  ⟨Table.length_of_entries_le.trans few, Table.of_entries_ascending,
    fun e member => names e (Table.mem_of_entries member)⟩

/-- Whatever is generated can be stored. -/
theorem storable_of_blob (accepted : cfg.problem? = none) (made : blob cfg e = .ok b)
    (base : Dword) {fingerprint : String} (short : ShortText fingerprint) (id : Uuid)
    (created : Dword) : (ofInterpreter (b.installed e base) fingerprint id created).Storable where
  fingerprint := short
  features xs stored := by
    rw [ofInterpreter] at stored
    split at stored
    · cases stored
    · cases stored
      exact short_features e
  code bytes stored := by
    cases stored
    have few := blob_short accepted made
    simp only [instructionSize] at few
    show b.code.length < _
    omega
  routines rs stored := by
    cases stored
    -- There is one routine for each program, and all of them have brief names.
    have named : b.routines.map PlacedRoutine.routine = (programs cfg e).map Prod.fst := by
      obtain ⟨es, a, laid⟩ := blob_laid accepted made
      exact laid.routines
    have few := programs_few cfg e
    have same := congrArg List.length named
    simp only [List.length_map] at same
    refine ⟨?_, ?_⟩
    · rw [List.length_map, show (b.installed e base).routines = b.routines from rfl, same]
      exact few.trans (by decide)
    · intro r member
      obtain ⟨p, -, rfl⟩ := List.mem_map.mp member
      exact p.routine.brief_name
  entries t stored := by
    have names : ∀ k ∈ EntryKind.all, ShortText k.name := by decide +kernel
    have table := entry_table (b.installed e base) fingerprint id created
    rw [entryTable, stored, Option.getD_some] at table
    subst table
    refine short_table ?_ ?_
    · exact (List.length_filterMap_le _ EntryKind.all).trans (by decide)
    · rintro ⟨name, off⟩ member
      obtain ⟨k, -, -, rfl, -⟩ := mem_entry_offsets.mp member
      exact names k k.mem_all
  handlers t stored := by
    have names : ∀ t ∈ BasicType.all, ShortText t.name := by decide +kernel
    have table := handler_table (i := b.installed e base) fingerprint id created
    rw [handlerTable, stored, Option.getD_some] at table
    subst table
    refine short_table ?_ ?_
    · rw [handlerOffsets, List.length_map]
      decide
    · intro x member
      obtain ⟨t, -, rfl⟩ := List.mem_map.mp member
      exact names t t.mem_all
  notes := by
    refine Table.length_of_entries_le.trans ?_
    rw [List.length_map]
    exact (blob_noted made).1.trans (by decide)
  ascending := Table.of_entries_ascending
  positions n member := by
    obtain ⟨m, among, rfl⟩ := List.mem_map.mp (Table.mem_of_entries member)
    obtain ⟨low, high, -⟩ := (blob_noted made).2 m among
    have few := blob_short accepted made
    simp only [instructionSize] at few
    show _ ≤ m.1 ∧ m.1 < _
    omega
  texts n member xs stored := by
    obtain ⟨m, among, rfl⟩ := List.mem_map.mp (Table.mem_of_entries member)
    cases stored
    obtain ⟨-, -, few, short⟩ := (blob_noted made).2 m among
    exact ⟨few.trans (by decide), short⟩

end Generated

end Image

end EntryCode
