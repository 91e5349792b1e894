import EntryCode.Command.Build
import EntryCode.Proofs.Image.Codec
import EntryCode.Proofs.Manifest.Overlay

/-!
What a cache of images changes. A fingerprint stands for everything that code is made from, so a
build with a cache gives the image that it would make; only the room for the code is no part of it,
and is not looked at where an image is found.
-/

namespace EntryCode

section Fingerprints

namespace Text

theorem hex_padded_two {n : Nat} (byte : n < 256) :
    hexPadded 2 n = String.ofList [Nat.digitChar (n / 16), Nat.digitChar (n % 16)] := by
  rw [hexPadded]
  by_cases small : n < 16
  · rw [Nat.toDigits_of_lt_base small, Nat.div_eq_of_lt small, Nat.mod_eq_of_lt small]
    rfl
  · rw [Nat.toDigits_of_base_le (by decide) (Nat.not_lt.mp small),
      Nat.toDigits_of_lt_base (show n / 16 < 16 by omega)]
    rfl

theorem hex_digit :
    ∀ d < 16, hexValue? (Nat.digitChar d) = some d ∧ (Nat.digitChar d).utf8Size = 1 := by
  decide

theorem hex_padded_reads {n : Nat} (byte : n < 256) :
    (hexPadded 2 n).toList.map hexValue? = [some (n / 16), some (n % 16)] := by
  rw [hex_padded_two byte, String.toList_ofList, List.map_cons, List.map_singleton,
    (hex_digit (n / 16) (by omega)).1, (hex_digit (n % 16) (by omega)).1]

theorem hex_padded_size {n : Nat} (byte : n < 256) : (hexPadded 2 n).utf8ByteSize = 2 := by
  rw [hex_padded_two byte, String.utf8ByteSize_ofList]
  simp [hex_digit (n / 16) (by omega), hex_digit (n % 16) (by omega)]

theorem hex_bytes_list (bs : Bytes) :
    (hexBytes bs).toList = bs.flatMap fun b => (hexPadded 2 b.toNat).toList := by
  have folded : ∀ text : String, (bs.foldl (fun text b => text ++ hexPadded 2 b.toNat) text).toList =
      text.toList ++ bs.flatMap fun b => (hexPadded 2 b.toNat).toList := by
    induction bs with
    | nil => simp
    | cons b rest ih =>
        intro text
        rw [List.foldl_cons, ih, String.toList_append, List.flatMap_cons, List.append_assoc]
  exact folded ""

theorem bytes_of_hex_bytes (bs : Bytes) : bytesOfHex? (hexBytes bs).toList = some bs := by
  rw [hex_bytes_list]
  induction bs with
  | nil => rfl
  | cons b rest ih =>
      have digits := hex_padded_reads b.isLt
      rw [List.flatMap_cons]
      generalize (hexPadded 2 b.toNat).toList = pair at digits ⊢
      obtain ⟨high, low, rfl⟩ := List.length_eq_two.mp (by simpa using congrArg List.length digits)
      obtain ⟨upper, lower⟩ : hexValue? high = some (b.toNat / 16) ∧
          hexValue? low = some (b.toNat % 16) := by
        simpa using digits
      have whole : BitVec.ofNat 8 (16 * (b.toNat / 16) + b.toNat % 16) = b := by
        rw [Nat.div_add_mod, BitVec.ofNat_toNat, BitVec.setWidth_eq]
      simp [bytesOfHex?, upper, lower, ih, whole]

theorem hex_bytes_inj {xs ys : Bytes} (same : hexBytes xs = hexBytes ys) : xs = ys := by
  have read := bytes_of_hex_bytes xs
  rw [same, bytes_of_hex_bytes] at read
  exact (Option.some.inj read).symm

theorem length_utf8 (s : String) : (utf8 s).length = s.utf8ByteSize := by
  rw [utf8, List.length_map]
  rfl

theorem length_hex_bytes (bs : Bytes) : (utf8 (hexBytes bs)).length = 2 * bs.length := by
  have folded : ∀ text : String,
      (bs.foldl (fun text b => text ++ hexPadded 2 b.toNat) text).utf8ByteSize =
        text.utf8ByteSize + 2 * bs.length := by
    induction bs with
    | nil => exact fun _ => rfl
    | cons b rest ih =>
        intro text
        rw [List.foldl_cons, ih, String.utf8ByteSize_append, hex_padded_size b.isLt, List.length_cons]
        omega
  rw [length_utf8, hexBytes, folded]
  exact Nat.zero_add _

end Text

theorem Sha256.length_digest (message : Bytes) : (digest message).length = 32 := by
  rw [digest, State.words]
  rfl

section Settings
open Cbor

variable {d : Nat} {t : Bool}

def Config.parts : List (String × (Config → Cbor)) :=
  [("UseCompiler", fun c => .bool c.useCompiler),
   ("InvocationLimit", fun c => .unsigned c.invocationLimit.toNat),
   ("ProfileInterpreter", fun c => .bool c.profile),
   ("ProfileLimit", fun c => .unsigned c.profileLimit.toNat),
   ("MathIntrinsics", fun c => .bool c.math),
   ("Method", fun c => .map (MethodField.all.map fun f =>
     (.text f.identifier, .integer (c.method.offset f).toInt))),
   ("Thread", fun c => .map (ThreadField.all.map fun f =>
     (.text f.identifier, .integer (c.thread.offset f).toInt))),
   ("Runtime", fun c => .map (Callee.all.map fun k =>
     (.text k.identifier, .unsigned (c.callees.address k).toNat))),
   ("Dispatch", fun c => .map [(.text "Base", .unsigned c.dispatch.base.toNat)])]

theorem Config.to_cbor_eq (c : Config) :
    c.toCbor = .map (parts.map fun p => (.text p.1, p.2 c)) := rfl

theorem Config.fits_cbor (c : Config) : Fits (d + 2) t c.toCbor := by
  have names : ∀ p ∈ parts, ShortText p.1 := by
    simp only [parts, List.forall_mem_cons]
    refine ⟨?_, ?_, ?_, ?_, ?_, ?_, ?_, ?_, ?_, List.forall_mem_nil _⟩
    all_goals decide
  rw [to_cbor_eq]
  refine fits_named (show 9 ≤ maxItems by decide) names ?_
  simp only [parts, List.forall_mem_cons]
  refine ⟨fits_bool _, fits_unsigned _ (by decide), fits_bool _, fits_unsigned _ (by decide),
    fits_bool _, ?_, ?_, ?_, ?_, List.forall_mem_nil _⟩
  · exact fits_named (by decide) (by decide +kernel) fun f _ => fits_signed _
  · exact fits_named (by decide) (by decide +kernel) fun f _ => fits_signed _
  · exact fits_named (by decide) (by decide +kernel) fun k _ =>
      fits_unsigned _ le_rfl
  · refine .map (Nat.le_of_ble_eq_true rfl) ?_ ?_
    · exact List.forall_mem_singleton.mpr (.text (by decide))
    · exact List.forall_mem_singleton.mpr (fits_unsigned _ le_rfl)

theorem layout_inj {F : Type} {fs : List F} (all : ∀ f, f ∈ fs) {identifier : F → String}
    (distinct : (fs.map identifier).Nodup) {l l' : Layout F}
    (same : sorted (.map (fs.map fun f => (.text (identifier f), .integer (l.offset f).toInt))) =
      sorted (.map (fs.map fun f => (.text (identifier f), .integer (l'.offset f).toInt)))) :
    l = l' := by
  have each := values_of_sorted fs identifier (fun f => .integer (l.offset f).toInt)
    (fun f => .integer (l'.offset f).toInt) distinct same
  have offsets : l.offset = l'.offset := by
    funext f
    have here := each f (all f)
    rw [sorted_integer, sorted_integer] at here
    exact BitVec.eq_of_toInt_eq (integer_inj here)
  exact congrArg Layout.mk offsets

theorem unsigned_inj {w : Nat} {v v' : BitVec w}
    (same : sorted (.unsigned v.toNat) = sorted (.unsigned v'.toNat)) : v = v' :=
  BitVec.eq_of_toNat_eq (unsigned.inj same)

theorem Config.to_cbor_inj {c c' : Config} (same : sorted c.toCbor = sorted c'.toCbor) : c = c' := by
  have each := values_of_sorted parts Prod.fst (fun p => p.2 c) (fun p => p.2 c') (by decide) same
  simp only [parts, List.forall_mem_cons] at each
  obtain ⟨useCompiler, invocationLimit, profile, profileLimit, math, method, thread, callees,
    dispatch, -⟩ := each
  have addresses : c.callees.address = c'.callees.address := by
    have each := values_of_sorted Callee.all Callee.identifier
      (fun k => .unsigned (c.callees.address k).toNat)
      (fun k => .unsigned (c'.callees.address k).toNat) (by decide) callees
    exact funext fun k => unsigned_inj (each k k.mem_all)
  have base := values_of_sorted [()] (fun _ => "Base") (fun _ => .unsigned c.dispatch.base.toNat)
    (fun _ => .unsigned c'.dispatch.base.toNat) (by decide) dispatch () List.mem_cons_self
  rw [Config.mk.injEq, Settings.mk.injEq]
  refine ⟨⟨sorted_bool_inj useCompiler, unsigned_inj invocationLimit, sorted_bool_inj profile,
    unsigned_inj profileLimit, sorted_bool_inj math, ?_⟩, ?_, ?_, ?_⟩
  · exact congrArg DispatchTable.mk (unsigned_inj base)
  · exact layout_inj MethodField.mem_all (by decide) method
  · exact layout_inj ThreadField.mem_all (by decide) thread
  · exact congrArg Callees.mk addresses

namespace Image
variable {c c' : Config} {e e' : Extensions} {base base' : Dword}

def inputParts : List (String × (Config → Extensions → Dword → Cbor)) :=
  [("version", fun _ _ _ => .integer formatVersion.toInt),
   ("features", fun _ e _ => if e.names.isEmpty then .null else texts e.names),
   ("base", fun _ _ base => .unsigned base.toNat), ("config", fun c _ _ => c.toCbor)]

theorem inputs_eq (c : Config) (e : Extensions) (base : Dword) :
    inputs c e base = .map (inputParts.map fun p => (.text p.1, p.2 c e base)) := rfl

theorem fits_inputs (c : Config) (e : Extensions) (base : Dword) :
    Fits maxDepth false (inputs c e base) := by
  have names : ∀ p ∈ inputParts, ShortText p.1 := by
    simp only [inputParts, List.forall_mem_cons]
    exact ⟨by decide, by decide, by decide, by decide, List.forall_mem_nil _⟩
  rw [inputs_eq]
  refine fits_named (Nat.le_of_ble_eq_true rfl) names ?_
  simp only [inputParts, List.forall_mem_cons]
  refine ⟨fits_signed _, ?_, fits_unsigned _ le_rfl, c.fits_cbor, List.forall_mem_nil _⟩
  split
  · exact .simple (by decide)
  · exact fits_texts (short_features e)

theorem names_inj (same : sorted (if e.names.isEmpty then .null else texts e.names) =
    sorted (if e'.names.isEmpty then .null else texts e'.names)) : e.names = e'.names := by
  have read : ∀ xs : List String,
      asList "" asText (sorted (if xs.isEmpty then .null else texts xs)) =
        some (if xs.isEmpty then none else some xs) := by
    intro xs
    split
    · rfl
    · exact read_sorted_texts xs
  have whole : ∀ xs : List String, (if xs.isEmpty then none else some xs).getD [] = xs := by
    intro xs
    cases xs <;> rfl
  have both := read e.names
  rw [same, read e'.names] at both
  have names := congrArg (fun x => x.getD []) (Option.some.inj both)
  simp only [whole] at names
  exact names.symm

/-- Nothing that generated code depends on is lost. -/
theorem inputs_inj (known : Extensions.all.insert e = .all) (known' : Extensions.all.insert e' = .all)
    (same : (inputs c e base).encode = (inputs c' e' base').encode) :
    c = c' ∧ e = e' ∧ base = base' := by
  have each := values_of_sorted inputParts Prod.fst (fun p => p.2 c e base)
    (fun p => p.2 c' e' base') (by decide)
    (sorted_of_encode (fits_inputs c e base) (fits_inputs c' e' base') same)
  simp only [inputParts, List.forall_mem_cons] at each
  obtain ⟨-, features, base, config, -⟩ := each
  refine ⟨Config.to_cbor_inj config, ?_, unsigned_inj base⟩
  have named := Extensions.of_names_names known
  rw [names_inj features, Extensions.of_names_names known'] at named
  exact (Except.ok.inj named).symm

theorem short_fingerprint (c : Config) (e : Extensions) (base : Dword) :
    ShortText (fingerprintOf c e base) := by
  rw [ShortText, fingerprintOf, Text.length_hex_bytes, Sha256.length_digest]
  decide

theorem fingerprint_ne (c : Config) (e : Extensions) (base : Dword) :
    fingerprintOf c e base ≠ "" := by
  intro none
  have length := congrArg (fun s => (Text.utf8 s).length) none
  simp only [fingerprintOf, Text.length_hex_bytes, Sha256.length_digest] at length
  nomatch length

end Image

end Settings

end Fingerprints

namespace Image

/-- The same image but for its identifier and the time it was made. -/
def Alike (i k : Image) : Prop :=
  i = { k with id := i.id, created := i.created }

end Image

section Known

/-- Names stand for known extensions only. -/
theorem Extensions.of_names_known {names : List String} {e : Extensions}
    (made : ofNames names = .ok e) : all.insert e = all := by
  have each : ∀ p ∈ known, all.insert p.2 = all := by decide
  have start : all.insert .none = all := by decide
  rw [ofNames] at made
  generalize Extensions.none = s at made start
  induction names generalizing s with
  | nil =>
      cases made
      exact start
  | cons n rest ih =>
      rw [List.foldlM_cons, bind_ok] at made
      obtain ⟨s', first, later⟩ := made
      split at first
      · next x found =>
          cases first
          obtain ⟨before, after, split, -⟩ := List.lookup_eq_some_iff.mp found
          have member : (_, x) ∈ known := split ▸ List.mem_append_right _ List.mem_cons_self
          refine ih _ later ?_
          have joined : all.insert (s.insert x) = (all.insert s).insert x :=
            congrArg Extensions.mk (BitVec.or_assoc ..).symm
          rw [joined, start, each _ member]
      · cases first

end Known

namespace ImageCache
variable {c : ImageCache} {i : Image} {fingerprint : String}

/-- A cache with one more image, in place of any with the same fingerprint. -/
def store (c : ImageCache) (i : Image) : ImageCache :=
  { c with rows := rowOf i :: c.without i.fingerprint }

theorem put_open (isOpen : c.isOpen = true) (named : i.fingerprint ≠ "") :
    c.put i = .ok (c.store i) := by
  rw [put, if_neg named, check, if_pos isOpen]
  rfl

theorem get_open (isOpen : c.isOpen = true) : c.get fingerprint =
    match c.row? fingerprint with
    | none => .error .notFound
    | some r => (Image.decode r.data).mapError (.damaged fingerprint) := by
  rw [get, check, if_pos isOpen]
  cases c.row? fingerprint <;> rfl

theorem row_store : (c.store i).row? fingerprint =
    if fingerprint = i.fingerprint then some (rowOf i) else c.row? fingerprint := by
  rw [row?, store, List.find?_cons]
  split
  · next same =>
      have same : fingerprint = i.fingerprint := (of_decide_eq_true same).symm
      rw [if_pos same]
  · next other =>
      have apart : fingerprint ≠ i.fingerprint := fun same =>
        of_decide_eq_false other same.symm
      rw [if_neg apart, without, List.find?_filter, row?]
      congr
      funext r
      by_cases here : r.fingerprint = fingerprint
      · simp [here, apart]
      · simp [here]

end ImageCache

namespace Build

/-- A build that is asked for. -/
structure Job where
  manifest : Manifest
  options : Options
  occasion : Occasion

namespace Job
variable (j : Job)

/-- Where the code goes, zero for executable memory. -/
def base : Dword :=
  j.manifest.target.base

def capacity : Int :=
  j.manifest.target.capacity.toInt

/-- What a build gives, with a cache or without one. -/
def build (cache : Option ImageCache) : Except Error Image :=
  (run j.manifest j.options cache j.occasion).map Prod.fst

def after (c : ImageCache) : ImageCache :=
  match run j.manifest j.options (some c) j.occasion with
  | .ok (_, some changed) => changed
  | _ => c

def basis : Except Error (Config × Extensions) := do
  let cfg ← j.manifest.config.mapError .config
  return (cfg, ← extensions j.manifest j.options j.occasion)

/-- What the fingerprint of a build is the digest of. -/
def material? : Option Bytes :=
  j.basis.toOption.map fun made => (Image.inputs made.1 made.2 j.base).encode

end Job

def cacheAfter (history : List Job) : ImageCache :=
  history.foldl (fun c j => j.after c) .empty

section Runs
open Interpreter

variable {j : Job} {cfg : Config} {e : Extensions} {c : ImageCache}

theorem run_failed {f : Error} (failed : j.basis = .error f) (cache : Option ImageCache) :
    run j.manifest j.options cache j.occasion = .error f := by
  rw [Job.basis] at failed
  rw [run, image]
  cases configured : j.manifest.config.mapError Error.config with
  | error g =>
      rw [configured] at failed
      cases failed
      rfl
  | ok cfg =>
      rw [configured] at failed
      cases extended : extensions j.manifest j.options j.occasion with
      | error g =>
          simp only [extended] at failed
          cases failed
          rfl
      | ok e =>
          simp only [extended] at failed
          cases failed

/-- Where there is something to generate from, only the base and the cache are left to look at. -/
theorem run_made (made : j.basis = .ok (cfg, e)) (cache : Option ImageCache) :
    run j.manifest j.options cache j.occasion =
      match if j.base = 0 then none else cache with
      | none => (fresh j.manifest cfg e j.occasion).map fun i => (i, none)
      | some c =>
        match c.get (Image.fingerprintOf cfg e j.base) with
        | .ok i => .ok (i, none)
        | .error _ => (fresh j.manifest cfg e j.occasion).map fun i => (i, (c.put i).toOption) := by
  obtain ⟨_, configured, made⟩ := bind_ok.mp made
  obtain ⟨_, extended, made⟩ := bind_ok.mp made
  cases made
  rw [run, image, configured]
  simp only [bind, Except.bind, extended, Job.base]
  by_cases mapped : j.manifest.target.base = 0
  · simp only [mapped, if_true]
    cases fresh j.manifest cfg e j.occasion <;> rfl
  · simp only [mapped, if_false]
    cases cache with
    | none => cases fresh j.manifest cfg e j.occasion <;> rfl
    | some c =>
        simp only [Option.map_some]
        cases c.get (Image.fingerprintOf cfg e j.manifest.target.base) with
        | error f => cases fresh j.manifest cfg e j.occasion <;> rfl
        | ok i => rfl

theorem basis_accepted (made : j.basis = .ok (cfg, e)) : cfg.problem? = none := by
  obtain ⟨_, configured, made⟩ := bind_ok.mp made
  obtain ⟨_, -, made⟩ := bind_ok.mp made
  cases made
  exact (Manifest.config_ok_iff.mp (map_error_ok.mp configured)).2

theorem basis_known (made : j.basis = .ok (cfg, e))
    (known : Extensions.all.insert j.occasion.host = .all) : Extensions.all.insert e = .all := by
  obtain ⟨_, -, made⟩ := bind_ok.mp made
  obtain ⟨_, extended, made⟩ := bind_ok.mp made
  cases made
  have allowed : ∀ detected : Extensions, Extensions.all.insert detected = .all →
      Extensions.all.insert (if j.options.allowAll then .all else detected) = .all := by
    intro detected known
    split
    · decide
    · exact known
  rw [extensions] at extended
  split at extended
  · cases extended
    exact allowed _ known
  · obtain ⟨detected, found, extended⟩ := bind_ok.mp extended
    cases extended
    exact allowed _ (Extensions.of_names_known (map_error_ok.mp found))

def Job.imageOf (j : Job) (cfg : Config) (e : Extensions) (b : Blob) : Image :=
  .ofInterpreter (b.installed e j.base) (Image.fingerprintOf cfg e j.base) j.occasion.id
    j.occasion.now

/-- Code for a chosen base is generated wherever there is room for it. -/
theorem fresh_addressed (addressed : j.base ≠ 0) (accepted : cfg.problem? = none) {b : Blob}
    (made : blob cfg e = .ok b) : fresh j.manifest cfg e j.occasion =
      if (b.code.length : Int) ≤ j.capacity then .ok (j.imageOf cfg e b)
      else .error (.interpreter
        (.install (.full b.code.length 0 j.capacity))) := by
  have offset : (Heap.new j.base j.capacity).nextOffset = 0 :=
    show Region.alignUp 0 = 0 by decide
  have start : (Heap.new j.base j.capacity).nextAddress = j.base := by
    rw [Heap.nextAddress, offset]
    exact BitVec.add_zero _
  have room : (Heap.new j.base j.capacity).Room b.code.length ↔
      (b.code.length : Int) ≤ j.capacity := by
    rw [Heap.Room, offset]
    exact Iff.of_eq (congrArg _ (Int.sub_zero _))
  have generated := generate_made accepted made (.new j.base j.capacity)
  rw [start, offset] at generated
  rw [fresh, generate, if_neg (show ¬j.manifest.target.base = 0 from addressed)]
  by_cases fits : (b.code.length : Int) ≤ j.capacity
  · rw [if_pos (room.mpr fits), Job.base, Job.capacity] at generated
    rw [if_pos fits]
    simp only [generated]
    rfl
  · rw [if_neg (mt room.mp fits), Job.base, Job.capacity] at generated
    rw [if_neg fits]
    simp only [generated]
    rfl

end Runs

section Histories
open Interpreter

variable {j : Job} {cfg : Config} {e : Extensions} {b : Blob} {c : ImageCache} {i : Image}
  {history : List Job}

theorem build_unmade {f : Error} (failed : j.basis = .error f) (cache : Option ImageCache) :
    j.build cache = .error f := by
  rw [Job.build, run_failed failed]
  rfl

theorem build_uncached (made : j.basis = .ok (cfg, e)) :
    j.build none = fresh j.manifest cfg e j.occasion := by
  rw [Job.build, run_made made, ite_self]
  cases fresh j.manifest cfg e j.occasion <;> rfl

/-- Without a cache a build gives the image of its code, where there is room for that. -/
theorem build_ok (addressed : j.base ≠ 0) : j.build none = .ok i ↔
    ∃ cfg e b, j.basis = .ok (cfg, e) ∧ blob cfg e = .ok b ∧
      (b.code.length : Int) ≤ j.capacity ∧ i = j.imageOf cfg e b := by
  constructor
  · intro built
    cases made : j.basis with
    | error f =>
        rw [build_unmade made] at built
        cases built
    | ok basis =>
        obtain ⟨cfg, e⟩ := basis
        have accepted := basis_accepted made
        obtain ⟨b, blobbed, -⟩ := blob_image accepted e
        rw [build_uncached made, fresh_addressed addressed accepted blobbed] at built
        split at built
        · next room =>
            cases built
            exact ⟨cfg, e, b, rfl, blobbed, room, rfl⟩
        · cases built
  · rintro ⟨cfg, e, b, made, blobbed, room, rfl⟩
    rw [build_uncached made, fresh_addressed addressed (basis_accepted made) blobbed, if_pos room]

theorem fingerprint_built (addressed : j.base ≠ 0) (made : j.basis = .ok (cfg, e))
    (built : j.build none = .ok i) : i.fingerprint = Image.fingerprintOf cfg e j.base := by
  obtain ⟨cfg', e', b, made', -, -, rfl⟩ := (build_ok addressed).mp built
  cases made.symm.trans made'
  rfl

theorem decode_built (addressed : j.base ≠ 0) (built : j.build none = .ok i) :
    Image.decode i.encode = .ok i := by
  obtain ⟨cfg, e, b, made, blobbed, -, rfl⟩ := (build_ok addressed).mp built
  have accepted := basis_accepted made
  obtain ⟨es, a, laid⟩ := blob_laid accepted blobbed
  have few := blob_short accepted blobbed
  simp only [instructionSize] at few
  refine Image.decode_encode ?_ ?_
  · exact Image.storable_of_blob accepted blobbed _ (Image.short_fingerprint cfg e _) _ _
  · exact Image.image_valid laid (by omega) ..

/-- What a cache holds after some builds: under each fingerprint an image that one of them makes,
and one for every image that they make. -/
structure Stocked (history : List Job) (c : ImageCache) : Prop where
  isOpen : c.isOpen = true
  rows : ∀ fingerprint r, c.row? fingerprint = some r → ∃ j ∈ history, ∃ i, j.base ≠ 0 ∧
    j.build none = .ok i ∧ i.fingerprint = fingerprint ∧ r = ImageCache.rowOf i
  there : ∀ j ∈ history, j.base ≠ 0 → ∀ i, j.build none = .ok i → (c.row? i.fingerprint).isSome

theorem after_cases (isOpen : c.isOpen = true) (j : Job) :
    (j.after c = c ∧ (j.base ≠ 0 → ∀ i, j.build none = .ok i → (c.row? i.fingerprint).isSome)) ∨
      ∃ i, j.base ≠ 0 ∧ j.build none = .ok i ∧ j.after c = c.store i := by
  cases made : j.basis with
  | error f =>
      refine .inl ⟨by rw [Job.after, run_failed made], ?_⟩
      intro _ i built
      rw [build_unmade made] at built
      cases built
  | ok basis =>
      obtain ⟨cfg, e⟩ := basis
      have ran := run_made made (some c)
      by_cases mapped : j.base = 0
      · rw [if_pos mapped] at ran
        refine .inl ⟨?_, fun addressed => absurd mapped addressed⟩
        rw [Job.after, ran]
        cases fresh j.manifest cfg e j.occasion <;> rfl
      · rw [if_neg mapped] at ran
        cases got : c.get (Image.fingerprintOf cfg e j.base) with
        | ok found =>
            simp only [got] at ran
            refine .inl ⟨by rw [Job.after, ran], ?_⟩
            intro _ i built
            rw [fingerprint_built mapped made built]
            cases row : c.row? (Image.fingerprintOf cfg e j.base) with
            | some r => rfl
            -- An image that was found has a row.
            | none =>
                rw [ImageCache.get_open isOpen, row] at got
                cases got
        | error f =>
            simp only [got] at ran
            -- Nothing usable is stored: the image is made anew and put there, if it can be made.
            cases made' : fresh j.manifest cfg e j.occasion with
            | error g =>
                rw [made'] at ran
                refine .inl ⟨by rw [Job.after, ran]; rfl, ?_⟩
                intro _ i built
                rw [build_uncached made, made'] at built
                cases built
            | ok i =>
                have built := (build_uncached made).trans made'
                have unnamed : i.fingerprint ≠ "" := by
                  rw [fingerprint_built mapped made built]
                  exact Image.fingerprint_ne cfg e j.base
                rw [made'] at ran
                refine .inr ⟨i, mapped, built, ?_⟩
                rw [Job.after, ran]
                simp only [Except.map, ImageCache.put_open isOpen unnamed]
                rfl

theorem Stocked.step (stocked : Stocked history c) (j : Job) :
    Stocked (history ++ [j]) (j.after c) := by
  have last : j ∈ history ++ [j] := List.mem_append_right _ (List.mem_singleton_self j)
  have before : ∀ {k}, k ∈ history → k ∈ history ++ [j] := List.mem_append_left _
  rcases after_cases stocked.isOpen j with ⟨same, held⟩ | ⟨i, addressed, built, stored⟩
  · rw [same]
    refine ⟨stocked.isOpen, ?_, ?_⟩
    · intro fingerprint r found
      obtain ⟨k, among, made⟩ := stocked.rows fingerprint r found
      exact ⟨k, before among, made⟩
    · intro k member addressed i built
      rcases List.mem_append.mp member with earlier | latest
      · exact stocked.there k earlier addressed i built
      · obtain rfl := List.mem_singleton.mp latest
        exact held addressed i built
  · rw [stored]
    refine ⟨stocked.isOpen, ?_, ?_⟩
    · intro fingerprint r found
      rw [ImageCache.row_store] at found
      split at found
      · next same => exact ⟨j, last, i, addressed, built, same.symm, (Option.some.inj found).symm⟩
      · obtain ⟨k, among, made⟩ := stocked.rows fingerprint r found
        exact ⟨k, before among, made⟩
    · intro k member addressed' i' built'
      -- A row may be replaced, but only by an image with the same fingerprint.
      rw [ImageCache.row_store]
      split
      · rfl
      · next other =>
          rcases List.mem_append.mp member with earlier | latest
          · exact stocked.there k earlier addressed' i' built'
          · obtain rfl := List.mem_singleton.mp latest
            obtain rfl := Except.ok.inj (built.symm.trans built')
            exact absurd rfl other

theorem stocked_after (history : List Job) : Stocked history (cacheAfter history) := by
  -- Each build finds the cache that the builds before it left, so the last one is taken off.
  induction history using List.reverseRecOn with
  | nil =>
      refine ⟨rfl, ?_, fun j member => absurd member List.not_mem_nil⟩
      intro fingerprint r found
      cases found
  | append_singleton earlier j ih =>
      rw [cacheAfter, List.foldl_append]
      exact ih.step j

/-- A build with a stocked cache gives what an earlier build of the same code gave, if there was
one, and what it gives without the cache otherwise. -/
theorem Stocked.serves (stocked : Stocked history c) (addressed : j.base ≠ 0)
    (made : j.basis = .ok (cfg, e)) (blobbed : blob cfg e = .ok b)
    (known : ∀ k ∈ j :: history, Extensions.all.insert k.occasion.host = .all)
    (apart : ∀ k ∈ history, ∀ x, k.material? = some x → ∀ y, j.material? = some y →
      Sha256.digest x = Sha256.digest y → x = y) :
    (j.build (some c) = j.build none ∧
      ∀ k ∈ history, k.basis = j.basis → k.base = j.base → ∀ i, k.build none ≠ .ok i) ∨
    ∃ k ∈ history, k.basis = j.basis ∧ k.base = j.base ∧
      k.build none = .ok (k.imageOf cfg e b) ∧ j.build (some c) = .ok (k.imageOf cfg e b) := by
  have ran := run_made made (some c)
  rw [if_neg addressed] at ran
  simp only [ImageCache.get_open stocked.isOpen] at ran
  cases row : c.row? (Image.fingerprintOf cfg e j.base) with
  | none =>
      refine .inl ⟨?_, ?_⟩
      · simp only [row] at ran
        rw [build_uncached made, Job.build, ran]
        cases fresh j.manifest cfg e j.occasion <;> rfl
      · intro k member same there i built
        have placed : k.base ≠ 0 := there ▸ addressed
        have held := stocked.there k member placed i built
        rw [fingerprint_built placed (same.trans made) built, there, row] at held
        cases held
  | some r =>
      obtain ⟨k, member, i, placed, built, named, rfl⟩ := stocked.rows _ r row
      have decoded : Image.decode (ImageCache.rowOf i).data = .ok i := decode_built placed built
      simp only [row, decoded] at ran
      obtain ⟨cfg', e', b', made', blobbed', -, rfl⟩ := (build_ok placed).mp built
      have material : j.material? = some (Image.inputs cfg e j.base).encode := by
        rw [Job.material?, made]
        rfl
      have material' : k.material? = some (Image.inputs cfg' e' k.base).encode := by
        rw [Job.material?, made']
        rfl
      obtain ⟨here, earlier⟩ := List.forall_mem_cons.mp known
      -- Equal fingerprints are of equal inputs, and these leave nothing open but the capacity.
      obtain ⟨rfl, rfl, there⟩ := Image.inputs_inj (basis_known made' (earlier k member))
        (basis_known made here)
        (apart k member _ material' _ material (Text.hex_bytes_inj named))
      cases blobbed'.symm.trans blobbed
      refine .inr ⟨k, member, made'.trans made.symm, there, built, ?_⟩
      rw [Job.build, ran]
      rfl

theorem built_image (addressed : j.base ≠ 0) (made : j.basis = .ok (cfg, e))
    (blobbed : blob cfg e = .ok b) (built : j.build none = .ok i) :
    i = j.imageOf cfg e b ∧ (b.code.length : Int) ≤ j.capacity := by
  obtain ⟨cfg', e', b', made', blobbed', room, rfl⟩ := (build_ok addressed).mp built
  cases made.symm.trans made'
  cases blobbed.symm.trans blobbed'
  exact ⟨rfl, room⟩

theorem image_of_alike {k : Job} (there : k.base = j.base) :
    (k.imageOf cfg e b).Alike (j.imageOf cfg e b) := by
  rw [Image.Alike, Job.imageOf, Job.imageOf, there]
  rfl

end Histories

/-- A cache changes nothing but whether there is room. A build with it fails only as it fails
without it, and gives the image that it gives without it, but for identifier and time. Where it
gives one although it fails without the cache, there was no room for the code, and an earlier build
of the same code had more. -/
theorem cached_builds_agree {history : List Job} {next : Job} (addressed : next.base ≠ 0)
    (known : ∀ j ∈ next :: history, Extensions.all.insert j.occasion.host = .all)
    (apart : ∀ j ∈ history, ∀ x, j.material? = some x → ∀ y, next.material? = some y →
      Sha256.digest x = Sha256.digest y → x = y) :
    let cached := next.build (some (cacheAfter history))
    (∀ f, cached = .error f → next.build none = .error f) ∧
    (∀ i, next.build none = .ok i → ∃ i', cached = .ok i' ∧ i'.Alike i) ∧
    (∀ j ∈ history, j.basis = next.basis → j.base = next.base → ∀ i, j.build none = .ok i →
      ∃ i', cached = .ok i' ∧ i'.Alike i) ∧
    ∀ i' f, cached = .ok i' → next.build none = .error f →
      (∃ size, f = .interpreter (.install (.full size 0 next.capacity))) ∧
      ∃ j ∈ history, j.basis = next.basis ∧ j.base = next.base ∧ next.capacity < j.capacity ∧
        ∃ i, j.build none = .ok i ∧ i'.Alike i := by
  intro cached
  have stocked := stocked_after history
  cases made : next.basis with
  | error f =>
      -- Nothing is looked up before it is known what to generate from.
      have failed : ∀ cache, next.build cache = .error f := build_unmade made
      refine ⟨?_, ?_, ?_, ?_⟩
      · intro g same
        rw [← same, failed, ← failed (some (cacheAfter history))]
      · intro i built
        rw [failed] at built
        cases built
      · intro j _ same _ i built
        rw [build_unmade same] at built
        cases built
      · intro i' g built
        rw [show cached = .error f from failed _] at built
        cases built
  | ok basis =>
      obtain ⟨cfg, e⟩ := basis
      have accepted := basis_accepted made
      obtain ⟨b, blobbed, -⟩ := Interpreter.blob_image accepted e
      rcases stocked.serves addressed made blobbed known apart with
        ⟨same, never⟩ | ⟨k, member, basis, there, built, served⟩
      · rw [show cached = next.build none from same]
        refine ⟨fun _ failed => failed, fun i built => ⟨i, built, rfl⟩, ?_, ?_⟩
        · intro j member basis there i built
          exact absurd built (never j member (basis.trans made.symm) there i)
        · intro i' f built failed
          rw [built] at failed
          cases failed
      · have served : cached = .ok (k.imageOf cfg e b) := served
        rw [served]
        have placed : k.base ≠ 0 := there ▸ addressed
        refine ⟨nofun, ?_, ?_, ?_⟩
        · intro i built'
          obtain ⟨rfl, -⟩ := built_image addressed made blobbed built'
          exact ⟨_, rfl, image_of_alike there⟩
        · intro j _ basis' there' i built'
          obtain ⟨rfl, -⟩ := built_image (there' ▸ addressed) basis' blobbed built'
          exact ⟨_, rfl, image_of_alike (there.trans there'.symm)⟩
        · intro i' f same failed
          cases same
          obtain ⟨-, room⟩ := built_image placed (basis.trans made) blobbed built
          rw [build_uncached made, fresh_addressed addressed accepted blobbed] at failed
          split at failed
          · cases failed
          · next full =>
              cases failed
              -- The code is the same, and there was room for it in the earlier build.
              refine ⟨⟨_, rfl⟩, k, member, basis.trans made, there, ?_, _, built, rfl⟩
              omega

/-- A build of the default manifest, but for its capacity. -/
def Job.sample (capacity : Dword) : Job where
  manifest := { Manifest.default with target := { Manifest.default.target with capacity } }
  options := .default
  occasion := ⟨.zero, 0, .d, 0, fun _ => true⟩

theorem basis_sample (capacity : Dword) :
    (Job.sample capacity).basis = .ok (.reference, .d) := by
  have configured : (Job.sample capacity).manifest.config = .ok .reference :=
    Manifest.config_ok_iff.mpr ⟨rfl, by decide⟩
  have named : (Job.sample capacity).manifest.extensions = .ok .d := by
    show Extensions.ofNames ["d"] = .ok .d
    decide +kernel
  rw [Job.basis, configured]
  show (do return (Config.reference, ← extensions _ .default _)) = _
  rw [extensions, named]
  rfl

theorem known_sample : ∀ j ∈ [Job.sample 16, Job.sample 0x100000],
    Extensions.all.insert j.occasion.host = .all := by
  simp only [List.forall_mem_cons]
  exact ⟨by decide, by decide, List.forall_mem_nil _⟩

theorem apart_sample {capacity capacity' : Dword} : ∀ j ∈ [Job.sample capacity], ∀ x,
    j.material? = some x → ∀ y, (Job.sample capacity').material? = some y →
      Sha256.digest x = Sha256.digest y → x = y := by
  intro j member x made y made' _
  obtain rfl := List.mem_singleton.mp member
  rw [Job.material?, basis_sample] at made made'
  exact Option.some.inj (made.symm.trans made')

theorem build_sample : ∃ i, (Job.sample 0x100000).build none = .ok i := by
  obtain ⟨b, blobbed, -⟩ := Interpreter.blob_image (basis_accepted (basis_sample 0x100000)) .d
  have short := Interpreter.blob_short (basis_accepted (basis_sample 0x100000)) blobbed
  refine ⟨_, (build_ok (by decide)).mpr ⟨_, _, b, basis_sample _, blobbed, ?_, rfl⟩⟩
  simp only [instructionSize] at short
  show (b.code.length : Int) ≤ 0x100000
  omega

/-- A build without room for its code gives an image all the same, once a build with room was
asked for. -/
theorem lowered_room_is_overlooked :
    (∃ i, (Job.sample 16).build (some (cacheAfter [.sample 0x100000])) = .ok i) ∧
      ∃ size, (Job.sample 16).build none = .error (.interpreter (.install (.full size 0 16))) := by
  have made := basis_sample 16
  obtain ⟨b, blobbed, -⟩ := Interpreter.blob_image (basis_accepted made) .d
  constructor
  · rcases (stocked_after [Job.sample 0x100000]).serves (by decide) made blobbed known_sample
      apart_sample with ⟨-, never⟩ | ⟨k, -, -, -, -, served⟩
    · obtain ⟨i, built⟩ := build_sample
      exact absurd built (never _ List.mem_cons_self (by rw [basis_sample, basis_sample]) rfl i)
    · exact ⟨_, served⟩
  · have long := Interpreter.blob_long (basis_accepted made) blobbed
    refine ⟨b.code.length, ?_⟩
    rw [build_uncached made, fresh_addressed (by decide) (basis_accepted made) blobbed, if_neg]
    · rfl
    · simp only [instructionSize] at long
      show ¬(b.code.length : Int) ≤ 16
      omega

theorem sample_is_served : (Job.sample 16).base ≠ 0 ∧
    (∀ j ∈ [Job.sample 16, Job.sample 0x100000], Extensions.all.insert j.occasion.host = .all) ∧
    (∀ j ∈ [Job.sample 0x100000], ∀ x, j.material? = some x →
      ∀ y, (Job.sample 16).material? = some y → Sha256.digest x = Sha256.digest y → x = y) ∧
    ∃ i, (Job.sample 0x100000).build none = .ok i ∧
      ∃ i', (Job.sample 16).build (some (cacheAfter [.sample 0x100000])) = .ok i' ∧ i'.Alike i := by
  have addressed : (Job.sample 16).base ≠ 0 := by decide
  obtain ⟨-, -, served, -⟩ := cached_builds_agree addressed known_sample apart_sample
  obtain ⟨i, built⟩ := build_sample
  exact ⟨addressed, known_sample, apart_sample, i, built,
    served _ List.mem_cons_self (by rw [basis_sample, basis_sample]) rfl i built⟩

end Build

end EntryCode
