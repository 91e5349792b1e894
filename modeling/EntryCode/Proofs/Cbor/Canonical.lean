import EntryCode.Cbor.Shape
import EntryCode.Proofs.Machine.Memory
import EntryCode.Proofs.Table

/-!
Canonical items are read back. Reading the encoding of an item gives the item with the entries of
its maps in canonical order, whatever bytes follow.
-/

namespace EntryCode

namespace Text

theorem of_utf8 (s : String) : ofUtf8? (utf8 s) = some s := by
  have bytes : (⟨((utf8 s).map UInt8.ofBitVec).toArray⟩ : ByteArray) = s.toByteArray := by
    rw [utf8, List.map_map]
    exact congrArg ByteArray.mk (by simp [Function.comp_def])
  rw [ofUtf8?, bytes, String.fromUTF8?, dif_pos s.isValidUTF8]
  rfl

end Text

namespace Cbor

section Heads

theorem of_big_endian_reverse (xs : Bytes) : ofBigEndian xs.reverse = Bytes.toNat xs := by
  rw [ofBigEndian, List.foldl_reverse]
  induction xs with
  | nil => rfl
  | cons b rest ih =>
      rw [List.foldr_cons, ih, Bytes.toNat, Nat.add_comm]

theorem of_big_endian {n v : Nat} (small : v < 256 ^ n) : ofBigEndian (bigEndian n v) = v := by
  have power : (256 : Nat) ^ n = 2 ^ (8 * n) := by rw [Nat.pow_mul]
  rw [bigEndian, of_big_endian_reverse, Bytes.to_nat_of_bits, BitVec.toNat_ofNat, ← power,
    Nat.mod_mod, Nat.mod_eq_of_lt small]

theorem length_big_endian (n v : Nat) : (bigEndian n v).length = n := by
  rw [bigEndian, List.length_reverse, Bytes.length_ofBits]

theorem split_append {n : Nat} {bs : Bytes} (size : bs.length = n) (rest : Bytes) :
    split? n (bs ++ rest) = some (bs, rest) := by
  rw [split?, if_pos (by rw [List.length_append]; omega), List.take_left' size,
    List.drop_left' size]

theorem head_begins (major info : Nat) (argument : Bytes) (known : major < 8) (small : info < 32)
    (size : argumentSize? info = some argument.length) (rest : Bytes) :
    head? (initialByte major info :: (argument ++ rest)) =
      some (⟨major, info, argument⟩, rest) := by
  have value : (initialByte major info).toNat = 32 * major + info := by
    rw [initialByte, BitVec.toNat_ofNat]
    omega
  have low : (32 * major + info) % 32 = info := by omega
  have high : (32 * major + info) / 32 = major := by omega
  simp only [head?, value, low, high, size, Option.bind_eq_bind, Option.bind_some,
    split_append rfl rest]
  rfl

theorem argument_reads {major size n : Nat} (known : major < 8) (info : Nat) (small : info < 31)
    (large : 24 ≤ info) (announced : argumentSize? info = some size) (fits : n < 256 ^ size)
    (rest : Bytes) : ∃ i argument,
      head? (initialByte major info :: (bigEndian size n ++ rest)) =
        some (⟨major, i, argument⟩, rest) ∧ Head.number? ⟨major, i, argument⟩ = some n := by
  refine ⟨info, bigEndian size n, ?_, ?_⟩
  · exact head_begins major info _ known (by omega) (by rw [announced, length_big_endian]) rest
  · have wide : ¬info < 24 := by omega
    have known : info ≠ 31 := by omega
    simp only [Head.number?, wide, known, if_false, of_big_endian fits]

theorem head_reads (major : Nat) {n : Nat} (known : major < 8) (small : n < 2 ^ 64) (rest : Bytes) :
    ∃ info argument, head? (head major n ++ rest) = some (⟨major, info, argument⟩, rest) ∧
      Head.number? ⟨major, info, argument⟩ = some n := by
  rw [head]
  split
  · next tiny =>
      refine ⟨n, [], ?_, if_pos tiny⟩
      have none : argumentSize? n = some ([] : Bytes).length := if_pos (.inl tiny)
      exact head_begins major n [] known (by omega) none rest
  · split
    · exact argument_reads known 24 (by decide) (by decide) rfl (by omega) rest
    · split
      · exact argument_reads known 25 (by decide) (by decide) rfl (by omega) rest
      · split
        · exact argument_reads known 26 (by decide) (by decide) rfl (by omega) rest
        · exact argument_reads known 27 (by decide) (by decide) rfl (by omega) rest

theorem float_reads {raw : Bytes} (size : raw.length = 2 ∨ raw.length = 4 ∨ raw.length = 8)
    (rest : Bytes) : ∃ n,
      head? (initialByte 7 (floatInfo raw.length) :: (raw ++ rest)) =
        some (⟨7, floatInfo raw.length, raw⟩, rest) ∧
      Head.number? ⟨7, floatInfo raw.length, raw⟩ = some n ∧
      ¬floatInfo raw.length < 24 ∧ floatInfo raw.length ≠ 24 := by
  have range : 24 < floatInfo raw.length ∧ floatInfo raw.length < 28 := by
    rw [floatInfo]
    split
    · decide
    · split <;> decide
  have announced : argumentSize? (floatInfo raw.length) = some raw.length := by
    rcases size with two | four | eight
    · rw [two]; rfl
    · rw [four]; rfl
    · rw [eight]; rfl
  have large : ¬floatInfo raw.length < 24 := by omega
  have given : floatInfo raw.length ≠ 31 := by omega
  refine ⟨ofBigEndian raw, head_begins 7 _ raw (by decide) (by omega) announced rest, ?_, large,
    by omega⟩
  simp only [Head.number?, large, given, if_false]

end Heads

section Canonical

mutual

/-- An item whose maps have their entries in canonical order. -/
def sorted : Cbor → Cbor
  | .array items => .array (sortedItems items)
  | .map entries => .map (((keyed entries).mergeSort fun p q => keyLe p.1 q.1).map Prod.snd)
  | .tagged tag content => .tagged tag (sorted content)
  | item => item

def sortedItems : List Cbor → List Cbor
  | [] => []
  | item :: rest => sorted item :: sortedItems rest

/-- Entries beside the bytes of their keys, by which they are sorted. -/
def keyed : List (Cbor × Cbor) → List (Bytes × Cbor × Cbor)
  | [] => []
  | (key, value) :: rest => (encode key, sorted key, sorted value) :: keyed rest

end

theorem sorted_items_eq (items : List Cbor) : sortedItems items = items.map sorted := by
  induction items with
  | nil => rfl
  | cons item rest ih => rw [sortedItems, ih, List.map_cons]

theorem keyed_eq (entries : List (Cbor × Cbor)) :
    keyed entries = entries.map fun p => (encode p.1, sorted p.1, sorted p.2) := by
  induction entries with
  | nil => rfl
  | cons p rest ih => rw [keyed, ih, List.map_cons]

theorem encode_items_eq (items : List Cbor) : encodeItems items = items.flatMap encode := by
  induction items with
  | nil => rfl
  | cons item rest ih => rw [encodeItems, ih, List.flatMap_cons]

theorem encode_entries_eq (entries : List (Cbor × Cbor)) :
    encodeEntries entries = entries.map fun p => (encode p.1, encode p.2) := by
  induction entries with
  | nil => rfl
  | cons p rest ih => rw [encodeEntries, ih, List.map_cons]

/-- The entries of a map in the order in which they are written. -/
def inOrder (entries : List (Cbor × Cbor)) : List (Cbor × Cbor) :=
  entries.mergeSort fun p q => keyLe (encode p.1) (encode q.1)

theorem in_order_perm (entries : List (Cbor × Cbor)) : (inOrder entries).Perm entries :=
  List.mergeSort_perm _ _

/-- Whatever stands beside the keys is sorted with them. -/
theorem in_order_map {β : Type} {f : Cbor × Cbor → Bytes × β} (keys : ∀ p, (f p).1 = encode p.1)
    (entries : List (Cbor × Cbor)) :
    (entries.map f).mergeSort (fun p q => keyLe p.1 q.1) = (inOrder entries).map f := by
  rw [inOrder, List.map_mergeSort]
  intro p _ q _
  rw [keys, keys]

theorem sorted_array (items : List Cbor) : sorted (.array items) = .array (items.map sorted) := by
  rw [sorted, sorted_items_eq]

theorem sorted_map (entries : List (Cbor × Cbor)) :
    sorted (.map entries) = .map ((inOrder entries).map (Prod.map sorted sorted)) := by
  rw [sorted, keyed_eq, in_order_map fun _ => rfl, List.map_map]
  rfl

/-- Keys and values as one list of items, in the order in which they are written. -/
def inTurn (entries : List (Cbor × Cbor)) : List Cbor :=
  (inOrder entries).flatMap fun p => [p.1, p.2]

theorem mem_in_turn {entries : List (Cbor × Cbor)} {x : Cbor} :
    x ∈ inTurn entries ↔ ∃ p ∈ entries, x = p.1 ∨ x = p.2 := by
  simp only [inTurn, List.mem_flatMap, List.mem_pair, (in_order_perm entries).mem_iff]

theorem length_in_turn (entries : List (Cbor × Cbor)) :
    (inTurn entries).length = 2 * entries.length := by
  rw [inTurn, List.length_flatMap, ← (in_order_perm entries).length_eq]
  simp [Nat.mul_comm]

theorem encode_map (entries : List (Cbor × Cbor)) :
    encode (.map entries) = head 5 entries.length ++ (inTurn entries).flatMap encode := by
  rw [encode, sortKeys, encode_entries_eq, in_order_map fun _ => rfl, List.flatMap_map, inTurn,
    List.flatMap_assoc]
  simp

/-- What can be written and read again at some depth, inside a tag or not: numbers and lengths have
room in a head, and containers are neither too large nor nested too deep. -/
inductive Fits : Nat → Bool → Cbor → Prop
  | unsigned {d t n} (small : n < 2 ^ 64) : Fits d t (.unsigned n)
  | negative {d t n} (small : n < 2 ^ 64) : Fits d t (.negative n)
  | bytes {d t b} (short : b.length < 2 ^ 64) : Fits d t (.bytes b)
  | text {d t s} (short : (Text.utf8 s).length < 2 ^ 64) : Fits d t (.text s)
  | brokenText {d t raw} (short : raw.length < 2 ^ 64) (broken : Text.ofUtf8? raw = none) :
    Fits d t (.brokenText raw)
  | array {d t items} (few : items.length ≤ maxItems) (each : ∀ x ∈ items, Fits d false x) :
    Fits (d + 1) t (.array items)
  | map {d t entries} (few : entries.length ≤ maxItems)
    (keys : ∀ p ∈ entries, Fits d false p.1) (values : ∀ p ∈ entries, Fits d false p.2) :
    Fits (d + 1) t (.map entries)
  | tagged {d tag c} (small : tag < 2 ^ 64) (content : Fits d true c) : Fits d false (.tagged tag c)
  | retagged {d tag c} (small : tag < 2 ^ 64) (content : Fits d true c) :
    Fits (d + 1) true (.tagged tag c)
  | simple {d t n} (known : n < 24 ∨ 32 ≤ n ∧ n < 256) : Fits d t (.simple n)
  | float {d t raw} (size : raw.length = 2 ∨ raw.length = 4 ∨ raw.length = 8) :
    Fits d t (.float raw)

end Canonical

section Reading

theorem items_read {α : Type} {item : Bytes → Option (Cbor × Bytes)} {write : α → Bytes}
    {value : α → Cbor} {xs : List α}
    (each : ∀ x ∈ xs, ∀ rest, item (write x ++ rest) = some (value x, rest)) (rest : Bytes) :
    items? item xs.length (xs.flatMap write ++ rest) = some (xs.map value, rest) := by
  induction xs with
  | nil => rfl
  | cons x xs ih =>
      rw [List.forall_mem_cons] at each
      simp only [List.flatMap_cons, List.append_assoc, List.length_cons, items?, each.1, ih each.2,
        Option.bind_eq_bind, Option.bind_some, List.map_cons]
      rfl

theorem pairs_read (entries : List (Cbor × Cbor)) :
    pairs? (entries.flatMap fun p => [p.1, p.2]) = some entries := by
  induction entries with
  | nil => rfl
  | cons p rest ih =>
      simp only [List.flatMap_cons, List.cons_append, List.nil_append, pairs?, ih,
        Option.bind_eq_bind, Option.bind_some]
      rfl

theorem pairs_in_turn (entries : List (Cbor × Cbor)) :
    pairs? ((inTurn entries).map sorted) =
      some ((inOrder entries).map (Prod.map sorted sorted)) := by
  rw [inTurn, List.map_flatMap, ← pairs_read, List.flatMap_map]
  rfl

variable {d n : Nat} {t : Bool} {c : Cbor} {h : Head}

theorem string_reads {bs : Bytes} (number : h.number? = some bs.length) (rest : Bytes) :
    string? h (bs ++ rest) = some ([bs], rest) := by
  simp only [string?, number, split_append rfl rest, Option.bind_eq_bind, Option.bind_some]
  rfl

theorem text_reads (s : String) : ofTextChunks [Text.utf8 s] = .text s := by
  simp [ofTextChunks, Text.of_utf8, String.join]

theorem broken_text_reads {raw : Bytes} (broken : Text.ofUtf8? raw = none) :
    ofTextChunks [raw] = .brokenText raw := by
  simp [ofTextChunks, broken]

theorem contents_read {α : Type} {item : Bytes → Option (Cbor × Bytes)} {write : α → Bytes}
    {value : α → Cbor} {xs : List α} (width : Nat) (number : h.number? = some n) (few : n ≤ maxItems)
    (size : xs.length = width * n)
    (each : ∀ x ∈ xs, ∀ rest, item (write x ++ rest) = some (value x, rest)) (rest : Bytes) :
    contents? item width h (xs.flatMap write ++ rest) = some (xs.map value, rest) := by
  simp only [contents?, number, few, if_true]
  rw [← size]
  exact items_read each rest

/-- An item that fits is read back, whatever follows it. -/
theorem item_encode (fits : Fits d t c) (rest : Bytes) :
    item? d t (encode c ++ rest) = some (sorted c, rest) := by
  -- The depth of what fits is the fuel of the reader, and only containers use it up.
  induction fits generalizing rest with
  | unsigned small =>
      obtain ⟨info, argument, begins, number⟩ := head_reads 0 (by decide) small rest
      rw [encode, item?, begins]
      simp only [Option.bind_eq_bind, Option.bind_some, scalar?, number]
      rfl
  | negative small =>
      obtain ⟨info, argument, begins, number⟩ := head_reads 1 (by decide) small rest
      rw [encode, item?, begins]
      simp only [Option.bind_eq_bind, Option.bind_some, scalar?, number]
      rfl
  | @bytes _ _ b short =>
      obtain ⟨info, argument, begins, number⟩ :=
        head_reads 2 (by decide) short (b ++ rest)
      rw [encode, List.append_assoc, item?, begins]
      simp only [Option.bind_eq_bind, Option.bind_some, scalar?, string_reads number,
        List.flatten_singleton]
      rfl
  | @text _ _ s short =>
      obtain ⟨info, argument, begins, number⟩ :=
        head_reads 3 (by decide) short (Text.utf8 s ++ rest)
      rw [encode, List.append_assoc, item?, begins]
      simp only [Option.bind_eq_bind, Option.bind_some, scalar?, string_reads number, text_reads]
      rfl
  | @brokenText _ _ raw short broken =>
      obtain ⟨info, argument, begins, number⟩ :=
        head_reads 3 (by decide) short (raw ++ rest)
      rw [encode, List.append_assoc, item?, begins]
      simp only [Option.bind_eq_bind, Option.bind_some, scalar?, string_reads number,
        broken_text_reads broken]
      rfl
  | @array d _ items few each ih =>
      obtain ⟨info, argument, begins, number⟩ := head_reads 4 (by decide)
        (lt_of_le_of_lt few (by decide)) (items.flatMap encode ++ rest)
      have read := contents_read 1 number few (Nat.one_mul _).symm ih rest
      rw [encode, encode_items_eq, List.append_assoc, item?, begins]
      simp only [Option.bind_eq_bind, Option.bind_some, read, sorted_array]
      rfl
  | @map d _ entries few keys values key value =>
      have each : ∀ x ∈ inTurn entries, ∀ rest,
          item? d false (encode x ++ rest) = some (sorted x, rest) := by
        intro x member
        obtain ⟨p, inside, rfl | rfl⟩ := mem_in_turn.mp member
        · exact key p inside
        · exact value p inside
      obtain ⟨info, argument, begins, number⟩ := head_reads 5 (by decide)
        (lt_of_le_of_lt few (by decide)) ((inTurn entries).flatMap encode ++ rest)
      have read := contents_read 2 number few (length_in_turn entries) each rest
      rw [encode_map, List.append_assoc, item?, begins]
      simp only [Option.bind_eq_bind, Option.bind_some, read, pairs_in_turn, sorted_map]
      rfl
  | @tagged d tag c small content ih =>
      obtain ⟨info, argument, begins, number⟩ :=
        head_reads 6 (by decide) small (encode c ++ rest)
      rw [encode, List.append_assoc, item?, begins]
      simp only [Option.bind_eq_bind, Option.bind_some, number, ih]
      rfl
  | @retagged d tag c small content ih =>
      obtain ⟨info, argument, begins, number⟩ :=
        head_reads 6 (by decide) small (encode c ++ rest)
      rw [encode, List.append_assoc, item?, begins]
      simp only [Option.bind_eq_bind, Option.bind_some, number, ih]
      rfl
  | @simple _ _ n known =>
      rw [encode]
      split
      · next tiny =>
          have begins := head_begins 7 n [] (by decide) (by omega) (if_pos (.inl tiny)) rest
          rw [List.nil_append] at begins
          rw [List.singleton_append, item?, begins]
          simp only [Option.bind_eq_bind, Option.bind_some, scalar?, Head.number?, tiny, if_true]
          rfl
      · next wide =>
          have begins := head_begins 7 24 [BitVec.ofNat 8 n] (by decide) (by decide) rfl rest
          have value : ofBigEndian [BitVec.ofNat 8 n] = n := by
            simp [ofBigEndian]
            omega
          have known : 32 ≤ n := by omega
          rw [List.cons_append, item?, begins]
          simp [scalar?, Head.number?, value, known, sorted]
  | @float _ _ raw size =>
      obtain ⟨n, begins, number, wide⟩ := float_reads size rest
      rw [encode, List.cons_append, item?, begins]
      simp only [Option.bind_eq_bind, Option.bind_some, scalar?, number, wide, if_false]
      rfl

theorem decode_encode (fits : Fits maxDepth false c) : decode? (encode c) = some (sorted c) := by
  have read := item_encode fits []
  rw [List.append_nil] at read
  simp only [decode?, read, Option.bind_eq_bind, Option.bind_some]
  rfl

/-- Items with the same encoding are the same up to the order of entries. -/
theorem sorted_of_encode {c' : Cbor} (fits : Fits maxDepth false c) (fits' : Fits maxDepth false c')
    (same : encode c = encode c') : sorted c = sorted c' := by
  have read := decode_encode fits
  rw [same, decode_encode fits'] at read
  exact (Option.some.inj read).symm

end Reading

section Maps
variable {α : Type}

/-- A map is written in some order of what it is made of. -/
theorem sorted_map_of (key value : α → Cbor) (xs : List α) : ∃ ys : List α, ys.Perm xs ∧
    sorted (.map (xs.map fun x => (key x, value x))) =
      .map (ys.map fun x => (sorted (key x), sorted (value x))) := by
  refine ⟨xs.mergeSort fun x y => keyLe (encode (key x)) (encode (key y)),
    List.mergeSort_perm _ _, ?_⟩
  have ordered : inOrder (xs.map fun x => (key x, value x)) =
      (xs.mergeSort fun x y => keyLe (encode (key x)) (encode (key y))).map fun x =>
        (key x, value x) := by
    rw [inOrder, List.map_mergeSort]
    intro x _ y _
    rfl
  rw [sorted_map, ordered, List.map_map]
  rfl

/-- Maps with the same names that are written alike hold the same values. -/
theorem values_of_sorted (xs : List α) (name : α → String) (v v' : α → Cbor)
    (distinct : (xs.map name).Nodup) (same : sorted (.map (xs.map fun x => (.text (name x), v x))) =
      sorted (.map (xs.map fun x => (.text (name x), v' x)))) :
    ∀ x ∈ xs, sorted (v x) = sorted (v' x) := by
  obtain ⟨ys, perm, ordered⟩ := sorted_map_of (fun x => .text (name x)) v xs
  obtain ⟨zs, perm', ordered'⟩ := sorted_map_of (fun x => .text (name x)) v' xs
  rw [ordered, ordered', map.injEq] at same
  intro x member
  have written : (text (name x), sorted (v x)) ∈
      ys.map fun x => (sorted (text (name x)), sorted (v x)) :=
    List.mem_map_of_mem (perm.mem_iff.mpr member)
  rw [same] at written
  obtain ⟨z, among, pair⟩ := List.mem_map.mp written
  obtain ⟨named, valued⟩ := Prod.mk.inj pair
  rw [List.inj_on_of_nodup_map distinct (perm'.mem_iff.mp among) member (text.inj named)] at valued
  exact valued.symm

end Maps

section Values
variable {α β : Type}

theorem sorted_integer (i : Int) : sorted (integer i) = integer i := by
  rw [integer]
  split <;> rfl

theorem integer_inj {i j : Int} (same : integer i = integer j) : i = j := by
  simp only [integer] at same
  split at same
  · split at same
    · injection same with same
      omega
    · nomatch same
  · split at same
    · nomatch same
    · injection same with same
      omega

theorem fits_integer {d : Nat} {t : Bool} {i : Int} (low : -2 ^ 63 ≤ i) (high : i < 2 ^ 64) :
    Fits d t (integer i) := by
  rw [integer]
  split
  · exact .negative (by omega)
  · exact .unsigned (by omega)

theorem fits_signed {d : Nat} {t : Bool} (v : Dword) : Fits d t (integer v.toInt) := by
  have low := v.le_toInt
  have high := v.toInt_lt
  exact fits_integer (by omega) (by omega)

theorem fits_unsigned {d w : Nat} {t : Bool} (v : BitVec w) (narrow : w ≤ 64) :
    Fits d t (.unsigned v.toNat) :=
  .unsigned (v.isLt.trans_le (Nat.pow_le_pow_right (by decide) narrow))

theorem fits_bool {d : Nat} {t : Bool} (b : Bool) : Fits d t (.bool b) := by
  cases b <;> exact .simple (by decide)

theorem sorted_bool_inj {b b' : Bool} (same : sorted (bool b) = sorted (bool b')) : b = b' := by
  cases b <;> cases b' <;> first | rfl | nomatch same

def ShortText (s : String) : Prop :=
  (Text.utf8 s).length < 2 ^ 64

instance : DecidablePred ShortText := fun s =>
  inferInstanceAs (Decidable ((Text.utf8 s).length < 2 ^ 64))

theorem fits_named {d : Nat} {t : Bool} {name : α → String} {value : α → Cbor} {xs : List α}
    (few : xs.length ≤ maxItems) (names : ∀ x ∈ xs, ShortText (name x))
    (values : ∀ x ∈ xs, Fits d false (value x)) :
    Fits (d + 1) t (.map (xs.map fun x => (.text (name x), value x))) := by
  refine .map (by rw [List.length_map]; exact few) ?_ ?_
  · intro p member
    obtain ⟨x, among, rfl⟩ := List.mem_map.mp member
    exact .text (names x among)
  · intro p member
    obtain ⟨x, among, rfl⟩ := List.mem_map.mp member
    exact values x among

theorem as_integer_within {i low high : Int} (above : low ≤ i) (below : i < high) :
    asIntegerWithin low high (integer i) = some (some i) := by
  have read : asInteger (integer i) = some (some i) := by
    rw [integer]
    split
    · next negative =>
        show some (some (-1 - ((-1 - i).toNat : Int))) = some (some i)
        rw [show (-1 - ((-1 - i).toNat : Int)) = i by omega]
    · next positive =>
        show some (some (i.toNat : Int)) = some (some i)
        rw [show ((i.toNat : Nat) : Int) = i by omega]
  simp only [asIntegerWithin, read, Option.bind_eq_bind, Option.bind_some, above, below, and_self,
    if_true]

theorem as_signed (v : Dword) : asSigned (integer v.toInt) = some (some v) := by
  have low := v.le_toInt
  have high := v.toInt_lt
  simp only [asSigned, as_integer_within (show -0x8000000000000000 ≤ v.toInt by omega)
    (show v.toInt < 0x8000000000000000 by omega), Option.bind_eq_bind, Option.bind_some]
  exact congrArg (fun x => some (some x)) (BitVec.ofInt_toInt ..)

theorem as_unsigned (v : Dword) : asUnsigned (.unsigned v.toNat) = some (some v) := by
  have small := v.isLt
  have read : asIntegerWithin 0 0x10000000000000000 (integer v.toNat) =
      some (some (v.toNat : Int)) :=
    as_integer_within (by omega) (by omega)
  rw [integer, if_neg (by omega), Int.toNat_natCast] at read
  simp only [asUnsigned, read, Option.bind_eq_bind, Option.bind_some]
  refine congrArg (fun x => some (some x)) ?_
  rw [BitVec.ofInt_natCast, BitVec.ofNat_toNat, BitVec.setWidth_eq]

theorem as_list {default : α} {read : Reading α} {write : α → Cbor} {xs : List α}
    (each : ∀ x ∈ xs, read (write x) = some (some x)) :
    asList default read (.array (xs.map write)) = some (some xs) := by
  have items : (xs.map write).mapM (fun i => do return (← read i).getD default) = some xs := by
    induction xs with
    | nil => rfl
    | cons x xs ih =>
        rw [List.forall_mem_cons] at each
        rw [List.map_cons, List.mapM_cons, ih each.2, each.1]
        rfl
  simp only [asList, untagged?, Option.bind_eq_bind, Option.bind_some]
  exact congrArg (Option.bind · _) items

theorem as_map {κ ν : Type} {start : κ × ν} {key : Reading κ} {value : Reading ν}
    (writeKey : κ → Cbor) (writeValue : ν → Cbor) {t : List (κ × ν)}
    (keys : ∀ e ∈ t, key (writeKey e.1) = some (some e.1))
    (values : ∀ e ∈ t, value (writeValue e.2) = some (some e.2)) :
    asMap start key value (.map (t.map fun e => (writeKey e.1, writeValue e.2))) =
      some (some t) := by
  have entries : readEntries key value start (t.map fun e => (writeKey e.1, writeValue e.2)) =
      some t := by
    induction t generalizing start with
    | nil => rfl
    | cons e t ih =>
        rw [List.forall_mem_cons] at keys values
        simp [readEntries, keys.1, values.1, ih keys.2 values.2]
  simp only [asMap, untagged?, entries, Option.bind_eq_bind, Option.bind_some]
  rfl

end Values

section Records
variable {names : List String} {fields : List (String × Cbor)}

theorem read_fields (apart : (names.map String.toLower).Nodup)
    (distinct : (fields.map Prod.fst).Nodup) (known : ∀ f ∈ fields, f.1 ∈ names) :
    readFields names (fields.map fun f => (.text f.1, f.2)) = some fields := by
  induction fields generalizing names with
  | nil => rfl
  | cons f fields ih =>
      obtain ⟨here, later⟩ := List.forall_mem_cons.mp known
      obtain ⟨fresh, distinct⟩ := List.nodup_cons.mp distinct
      have found : (names.find? fun n => n.toLower = f.1.toLower) = some f.1 :=
        Table.find_keyed apart here rfl
      have rest : readFields (names.erase f.1) (fields.map fun f => (.text f.1, f.2)) =
          some fields := ih (apart.sublist (List.erase_sublist.map _)) distinct
        (fun g member => (List.mem_erase_of_ne fun same =>
          fresh (List.mem_map.mpr ⟨g, member, same⟩)).mpr (later g member))
      simp [readFields, fieldName?, found, rest]

/-- A record that is read back has the fields that it was written with. -/
theorem as_record (names : List String) (fields : List (String × Cbor))
    (apart : (names.map String.toLower).Nodup)
    (distinct : (fields.map Prod.fst).Nodup) (known : ∀ f ∈ fields, f.1 ∈ names) :
    ∃ found, asRecord names (sorted (.map (fields.map fun f => (.text f.1, f.2)))) = some found ∧
      (∀ f ∈ fields, found.lookup f.1 = some (sorted f.2)) ∧
      ∀ name ∉ fields.map Prod.fst, found.lookup name = none := by
  obtain ⟨ys, perm, ordered⟩ := sorted_map_of (fun f : String × Cbor => .text f.1) Prod.snd fields
  -- What is found are the same names, each once, with the same items in canonical form.
  have same : ((ys.map fun f => (f.1, sorted f.2)).map Prod.fst).Perm (fields.map Prod.fst) := by
    rw [List.map_map]
    exact perm.map _
  have once := same.nodup_iff.mpr distinct
  refine ⟨ys.map fun f => (f.1, sorted f.2), ?_, ?_, ?_⟩
  · have among : ∀ f ∈ ys.map fun f => (f.1, sorted f.2), f.1 ∈ names := by
      intro f member
      obtain ⟨g, among, rfl⟩ := List.mem_map.mp member
      exact known g (perm.mem_iff.mp among)
    have read := read_fields apart once among
    rw [List.map_map] at read
    rw [ordered]
    exact read
  · intro f member
    rw [Table.lookup_iff_mem once]
    exact List.mem_map.mpr ⟨f, perm.mem_iff.mpr member, rfl⟩
  · intro name absent
    rw [List.lookup_eq_none_iff]
    intro f member
    rw [bne_iff_ne]
    rintro rfl
    exact absent (same.mem_iff.mp (List.mem_map_of_mem member))

section Found
variable {α : Type} {found : List (String × Cbor)} {name : String} {item : Cbor} {read : Reading α}

theorem bind_read {β : Type} {x : Option α} {a : α} {f : α → Option β} (read : x = some a) :
    (x >>= f) = f a := by
  rw [read]
  rfl

theorem field_found {default x : α} (there : found.lookup name = some item)
    (reads : read item = some (some x)) : field found name default read = some x := by
  simp only [field, there, reads]
  rfl

theorem field_missing {default : α} (missing : found.lookup name = none) :
    field found name default read = some default := by
  simp only [field, missing]

theorem optional_field_found {x : Option α} (there : found.lookup name = some item)
    (reads : read item = some x) : field? found name read = some x := by
  simp only [field?, there, reads]

end Found

end Records

end Cbor

end EntryCode
