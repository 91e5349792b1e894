import EntryCode.Machine.Memory
import Mathlib

/-!
Memory by its bytes. Two memories that agree on the bytes of an access agree on the access; a store
changes the bytes it covers and no others, also where it wraps past the last address.
-/

namespace EntryCode

namespace Bytes

theorem to_nat_of_bits {w : Nat} (n : Nat) (x : BitVec w) :
    toNat (ofBits n x) = x.toNat % 256 ^ n := by
  induction n generalizing x with
  | zero => simp [ofBits, toNat, Nat.mod_one]
  | succ n ih =>
      rw [ofBits, toNat, ih, BitVec.toNat_setWidth, BitVec.toNat_ushiftRight,
        Nat.shiftRight_eq_div_pow, pow_succ' 256 n, Nat.mod_mul]

theorem get_of_bits {w : Nat} (n k : Nat) (x : BitVec w) (inside : k < n) :
    (ofBits n x)[k]? = some ((x >>> (8 * k)).setWidth 8) := by
  induction n generalizing k x with
  | zero => omega
  | succ n ih =>
      cases k with
      | zero => simp [ofBits]
      | succ k =>
          rw [ofBits, List.getElem?_cons_succ, ih k (x >>> 8) (by omega), ← BitVec.shiftRight_add]
          congr 3
          ring

theorem to_nat_append (xs ys : Bytes) :
    toNat (xs ++ ys) = toNat xs + 256 ^ xs.length * toNat ys := by
  induction xs with
  | nil => simp [toNat]
  | cons b rest ih =>
      rw [List.cons_append, toNat, ih, toNat, List.length_cons, pow_succ']
      ring

theorem to_nat_lt (xs : Bytes) : toNat xs < 256 ^ xs.length := by
  induction xs with
  | nil => simp [toNat]
  | cons b rest ih =>
      have byte := b.isLt
      rw [toNat, List.length_cons, pow_succ']
      omega

theorem of_bits_to_nat {w : Nat} (xs : Bytes) (wide : 8 * xs.length ≤ w) :
    ofBits xs.length (BitVec.ofNat w (toNat xs)) = xs := by
  induction xs with
  | nil => rfl
  | cons b rest ih =>
      rw [List.length_cons] at wide ⊢
      have bound : toNat (b :: rest) < 2 ^ w := by
        calc toNat (b :: rest) < 256 ^ (b :: rest).length := to_nat_lt _
          _ = 2 ^ (8 * (rest.length + 1)) := by rw [List.length_cons, Nat.pow_mul]
          _ ≤ 2 ^ w := Nat.pow_le_pow_right (by omega) wide
      have byte := b.isLt
      have low : (BitVec.ofNat w (toNat (b :: rest))).setWidth 8 = b := by
        apply BitVec.eq_of_toNat_eq
        rw [BitVec.toNat_setWidth, BitVec.toNat_ofNat, Nat.mod_eq_of_lt bound, toNat]
        omega
      have high : BitVec.ofNat w (toNat (b :: rest)) >>> 8 = BitVec.ofNat w (toNat rest) := by
        apply BitVec.eq_of_toNat_eq
        rw [toNat] at bound
        rw [BitVec.toNat_ushiftRight, BitVec.toNat_ofNat, BitVec.toNat_ofNat, toNat,
          Nat.mod_eq_of_lt bound, Nat.shiftRight_eq_div_pow, Nat.mod_eq_of_lt (by omega)]
        omega
      rw [ofBits, low, high, ih (by omega)]

theorem length_of_words (words : List Word) :
    (ofWords words).length = instructionSize * words.length := by
  induction words with
  | nil => rfl
  | cons w rest ih =>
      rw [ofWords, List.flatMap_cons, List.length_append, length_ofBits, List.length_cons]
      rw [ofWords] at ih
      rw [ih, Nat.mul_add, Nat.add_comm]
      rfl

theorem to_words_of_words (words : List Word) : toWords (ofWords words) = words := by
  induction words with
  | nil => rfl
  | cons w rest ih =>
      have word : BitVec.ofNat 32 (toNat (ofBits 4 w)) = w := by
        apply BitVec.eq_of_toNat_eq
        have bound := w.isLt
        rw [to_nat_of_bits, BitVec.toNat_ofNat]
        omega
      have split : ofWords (w :: rest) = ofBits 4 w ++ ofWords rest := rfl
      rw [ofBits, ofBits, ofBits, ofBits, ofBits] at word split
      rw [split, List.cons_append, List.cons_append, List.cons_append, List.cons_append,
        List.nil_append, toWords, word, ih]

end Bytes

namespace Memory

variable (m : Memory)

theorem same_address {a c : Dword} (pages : page a = page c) (places : place a = place c) :
    a = c := by
  have high := congrArg BitVec.toNat pages
  have low : a.toNat % pageSize = c.toNat % pageSize := congrArg Fin.val places
  have size : pageSize = 2 ^ pageBits := rfl
  rw [page, page, BitVec.toNat_ushiftRight, BitVec.toNat_ushiftRight, Nat.shiftRight_eq_div_pow,
    Nat.shiftRight_eq_div_pow, ← size] at high
  apply BitVec.eq_of_toNat_eq
  rw [← Nat.div_add_mod a.toNat pageSize, high, low, Nat.div_add_mod]

theorem byte_empty (c : Dword) : empty.byte c = 0 := by
  rw [byte, empty, Std.HashMap.getElem?_empty]

theorem byte_set_byte (addr c : Dword) (b : Byte) :
    (m.setByte addr b).byte c = if c = addr then b else m.byte c := by
  rw [byte, byte, setByte, Std.HashMap.getElem?_alter]
  by_cases here : page addr = page c
  · rw [if_pos (beq_iff_eq.mpr here), here]
    dsimp only
    rw [Vector.get_eq_getElem, Vector.getElem_set]
    by_cases same : c = addr
    · rw [same, if_pos rfl, if_pos rfl]
    · rw [if_neg same, if_neg fun places => same (same_address here (Fin.ext places)).symm]
      -- A page that is made for the write holds zeros everywhere else.
      cases m.pages[page c]? with
      | none => exact Vector.getElem_replicate _
      | some p => rfl
  · rw [if_neg (by simpa using here), if_neg (by rintro rfl; exact here rfl)]

/-- Whether an address is one of `size` bytes from `addr` on. -/
def Covers (addr : Dword) (size : Nat) (c : Dword) : Prop :=
  (c - addr).toNat < size

instance (addr : Dword) (size : Nat) (c : Dword) : Decidable (Covers addr size c) :=
  inferInstanceAs (Decidable ((c - addr).toNat < size))

theorem covers_iff {addr c : Dword} {size : Nat} (short : size ≤ 2 ^ 64) :
    Covers addr size c ↔ ∃ k, k < size ∧ c = addr + BitVec.ofNat 64 k := by
  constructor
  · intro inside
    refine ⟨(c - addr).toNat, inside, ?_⟩
    rw [BitVec.ofNat_toNat, BitVec.setWidth_eq, BitVec.add_comm, BitVec.sub_add_cancel]
  · rintro ⟨k, inside, rfl⟩
    rw [Covers, BitVec.add_comm, BitVec.add_sub_cancel, BitVec.toNat_ofNat]
    omega

theorem Covers.within {addr c : Dword} {off size total : Nat}
    (inside : Covers (addr + BitVec.ofNat 64 off) size c) (part : off + size ≤ total)
    (short : total ≤ 2 ^ 64) : Covers addr total c := by
  rw [Covers] at inside ⊢
  have value : (BitVec.ofNat 64 off).toNat = off := by
    rw [BitVec.toNat_ofNat]
    omega
  generalize BitVec.ofNat 64 off = d at inside value
  bv_omega

theorem covers_add {addr c : Dword} {s t : Nat} (short : s + t ≤ 2 ^ 64) :
    Covers addr (s + t) c ↔ Covers addr s c ∨ Covers (addr + BitVec.ofNat 64 s) t c := by
  simp only [Covers]
  have value : s < 2 ^ 64 → (BitVec.ofNat 64 s).toNat = s := by
    intro small
    rw [BitVec.toNat_ofNat]
    omega
  by_cases small : s < 2 ^ 64
  · have value := value small
    generalize BitVec.ofNat 64 s = d at value
    bv_omega
  · have none : t = 0 := by omega
    subst none
    simp

/-- A stretch of memory by the distance from an address below it. -/
theorem covers_at {addr c : Dword} {k size : Nat} (short : k + size ≤ 2 ^ 64) :
    Covers (addr + BitVec.ofNat 64 k) size c ↔
      k ≤ (c - addr).toNat ∧ (c - addr).toNat < k + size := by
  rw [Covers]
  by_cases small : k < 2 ^ 64
  · have value : (BitVec.ofNat 64 k).toNat = k := by
      rw [BitVec.toNat_ofNat]
      omega
    generalize BitVec.ofNat 64 k = d at value
    constructor
    · intro inside
      bv_omega
    · intro inside
      bv_omega
  · have bound := (c - addr).isLt
    omega

theorem byte_write (addr c : Dword) (bytes : Bytes) (short : bytes.length ≤ 2 ^ 64) :
    (m.write addr bytes).byte c = (bytes[(c - addr).toNat]?).getD (m.byte c) := by
  induction bytes generalizing m addr with
  | nil => simp [write]
  | cons b rest ih =>
      rw [List.length_cons] at short
      rw [write, ih _ _ (by omega), byte_set_byte]
      by_cases here : c = addr
      · have last : rest.length ≤ (c - (addr + 1)).toNat := by
          subst here
          bv_omega
        have first : (c - addr).toNat = 0 := by
          subst here
          bv_omega
        rw [List.getElem?_eq_none last, first, if_pos here]
        rfl
      · have next : (c - addr).toNat = (c - (addr + 1)).toNat + 1 := by bv_omega
        rw [next, List.getElem?_cons_succ, if_neg here]

theorem byte_store (addr c : Dword) (size : Nat) (v : Dword) (short : size ≤ 2 ^ 64) :
    (m.store addr size v).byte c =
      if Covers addr size c then (v >>> (8 * (c - addr).toNat)).setWidth 8 else m.byte c := by
  rw [store, byte_write _ _ _ _ (by rw [Bytes.length_ofBits]; exact short)]
  by_cases inside : Covers addr size c
  · rw [if_pos inside, Bytes.get_of_bits _ _ _ inside, Option.getD_some]
  · have past : (Bytes.ofBits size v).length ≤ (c - addr).toNat := by
      rw [Bytes.length_ofBits]
      exact Nat.le_of_not_lt inside
    rw [if_neg inside, List.getElem?_eq_none past, Option.getD_none]

variable {m} {n : Memory}

theorem read_congr (addr : Dword) (size : Nat)
    (same : ∀ k, k < size → n.byte (addr + BitVec.ofNat 64 k) = m.byte (addr + BitVec.ofNat 64 k)) :
    n.read addr size = m.read addr size := by
  induction size generalizing addr with
  | zero => rfl
  | succ size ih =>
      rw [read, read, ih (addr + 1)]
      · have first := same 0 (by omega)
        rw [BitVec.add_zero] at first
        rw [first]
      · intro k inside
        have later := same (k + 1) (by omega)
        rwa [BitVec.ofNat_add, BitVec.add_comm (BitVec.ofNat 64 k), ← BitVec.add_assoc] at later

theorem load_congr (addr : Dword) (size : Nat)
    (same : ∀ k, k < size → n.byte (addr + BitVec.ofNat 64 k) = m.byte (addr + BitVec.ofNat 64 k)) :
    n.load addr size = m.load addr size := by
  rw [load, load, read_congr addr size same]

/-- Bytes that are all zero make up zero. -/
theorem load_zero (addr : Dword) (size : Nat)
    (zeros : ∀ k, k < size → m.byte (addr + BitVec.ofNat 64 k) = 0) : m.load addr size = 0 := by
  have value : Bytes.toNat (m.read addr size) = 0 := by
    induction size generalizing addr with
    | zero => rfl
    | succ size ih =>
        have first := zeros 0 (by omega)
        rw [BitVec.add_zero] at first
        have later := ih (addr + 1) fun k inside => by
          have next := zeros (k + 1) (by omega)
          rwa [BitVec.ofNat_add, BitVec.add_comm (BitVec.ofNat 64 k), ← BitVec.add_assoc] at next
        rw [read, Bytes.toNat, first, later]
        rfl
  rw [load, value]
  rfl

theorem read_write_same (addr : Dword) (bytes : Bytes) (short : bytes.length ≤ 2 ^ 64) :
    (m.write addr bytes).read addr bytes.length = bytes := by
  induction bytes generalizing m addr with
  | nil => rfl
  | cons b rest ih =>
      rw [List.length_cons] at short
      rw [List.length_cons, read, byte_write _ _ _ _ (by rw [List.length_cons]; exact short),
        write, ih _ (by omega)]
      simp

theorem read_write_words (addr : Dword) (words : List Word)
    (short : instructionSize * words.length ≤ 2 ^ 64) :
    (m.writeWords addr words).read addr (instructionSize * words.length) = Bytes.ofWords words := by
  have same := read_write_same (m := m) addr (Bytes.ofWords words)
    (by rwa [Bytes.length_of_words])
  rwa [Bytes.length_of_words] at same

theorem load_store_same (addr : Dword) (size : Nat) (v : Dword) (short : size ≤ 8) :
    (m.store addr size v).load addr size = BitVec.ofNat 64 (v.toNat % 256 ^ size) := by
  have same := read_write_same (m := m) addr (Bytes.ofBits size v)
    (by rw [Bytes.length_ofBits]; omega)
  rw [Bytes.length_ofBits] at same
  rw [load, store, same, Bytes.to_nat_of_bits]

theorem load_store_word (addr v : Dword) : (m.store addr 8 v).load addr 8 = v := by
  rw [load_store_same addr 8 v le_rfl, Nat.mod_eq_of_lt (by simpa using v.isLt),
    BitVec.ofNat_toNat, BitVec.setWidth_eq]

/-- Whether `s` bytes from `a` on and `t` bytes from `b` on have none in common. -/
def Apart (a : Dword) (s : Nat) (b : Dword) (t : Nat) : Prop :=
  s ≤ (b - a).toNat ∧ t ≤ (a - b).toNat

theorem Apart.not_covers {a b : Dword} {s t : Nat} (apart : Apart a s b t) (k : Nat)
    (inside : k < t) : ¬Covers a s (b + BitVec.ofNat 64 k) := by
  obtain ⟨first, second⟩ := apart
  rw [Covers]
  have small : k < 2 ^ 64 := by omega
  have value : (BitVec.ofNat 64 k).toNat = k := by
    rw [BitVec.toNat_ofNat]
    omega
  generalize BitVec.ofNat 64 k = d at value
  bv_omega

theorem apart_of_disjoint {a b : Dword} {s t : Nat} (first : 0 < s) (second : 0 < t)
    (disjoint : ∀ c, Covers a s c → ¬Covers b t c) : Apart a s b t := by
  constructor
  · by_contra inside
    exact disjoint b (by rw [Covers]; omega) (by rw [Covers, BitVec.sub_self]; exact second)
  · by_contra inside
    exact disjoint a (by rw [Covers, BitVec.sub_self]; exact first) (by rw [Covers]; omega)

theorem load_store_apart (addr : Dword) (size : Nat) (v : Dword) (short : size ≤ 2 ^ 64)
    (other : Dword) (width : Nat) (apart : Apart addr size other width) :
    (m.store addr size v).load other width = m.load other width := by
  apply load_congr
  intro k inside
  rw [byte_store _ _ _ _ _ short, if_neg (apart.not_covers k inside)]

instance (a : Dword) (s : Nat) (b : Dword) (t : Nat) : Decidable (Apart a s b t) :=
  inferInstanceAs (Decidable (_ ∧ _))

theorem Apart.add {a b : Dword} {s t : Nat} (apart : Apart a s b t) (base : Dword) :
    Apart (base + a) s (base + b) t := by
  obtain ⟨one, two⟩ := apart
  constructor
  · rwa [show base + b - (base + a) = b - a by bv_omega]
  · rwa [show base + a - (base + b) = a - b by bv_omega]

def Holds (m : Memory) (base : Dword) (words : List (Dword × Dword)) : Prop :=
  ∀ w ∈ words, m.load (base + w.1) 8 = w.2

/-- None of the words lies at an offset. -/
def Free (off : Dword) (words : List (Dword × Dword)) : Prop :=
  ∀ w ∈ words, Apart off 8 w.1 8

@[simp]
theorem free_nil (off : Dword) : Free off [] := nofun

theorem free_cons {off : Dword} {w : Dword × Dword} {words : List (Dword × Dword)} :
    Free off (w :: words) ↔ Apart off 8 w.1 8 ∧ Free off words :=
  List.forall_mem_cons

theorem Holds.nil (base : Dword) : m.Holds base [] := fun _ none => nomatch none

theorem Holds.store {base off v : Dword} {words : List (Dword × Dword)} (holds : m.Holds base words)
    (apart : Free off words) :
    (m.store (base + off) 8 v).Holds base ((off, v) :: words) := by
  intro w member
  cases member with
  | head => exact load_store_word _ _
  | tail _ earlier =>
      rw [load_store_apart _ _ _ (by decide) _ _ ((apart w earlier).add base)]
      exact holds w earlier

def Agree (on : Dword → Prop) (m n : Memory) : Prop :=
  ∀ x, on x → n.byte x = m.byte x

section Agree
variable {on : Dword → Prop} {last : Memory}

theorem Agree.refl (on : Dword → Prop) (m : Memory) : Agree on m m := fun _ _ => rfl

theorem Agree.trans (first : Agree on m n) (second : Agree on n last) : Agree on m last :=
  fun x inside => (second x inside).trans (first x inside)

theorem Agree.mono {more : Dword → Prop} (agree : Agree more m n) (part : ∀ x, on x → more x) :
    Agree on m n :=
  fun x inside => agree x (part x inside)

theorem Agree.store (agree : Agree on m n) {addr : Dword} {size : Nat} (v : Dword)
    (short : size ≤ 2 ^ 64) (outside : ∀ x, Covers addr size x → ¬on x) :
    Agree on m (n.store addr size v) := by
  intro x inside
  rw [byte_store _ _ _ _ _ short, if_neg fun covered => outside x covered inside]
  exact agree x inside

/-- A store leaves everything else alone. -/
theorem agree_store (m : Memory) (addr : Dword) {size : Nat} (v : Dword) (short : size ≤ 2 ^ 64) :
    Agree (fun x => ¬Covers addr size x) m (m.store addr size v) :=
  (Agree.refl _ m).store v short fun _ covered free => free covered

theorem Agree.write (agree : Agree on m n) {addr : Dword} {bytes : Bytes}
    (short : bytes.length ≤ 2 ^ 64) (outside : ∀ x, Covers addr bytes.length x → ¬on x) :
    Agree on m (n.write addr bytes) := by
  intro x inside
  have beyond : bytes.length ≤ (x - addr).toNat :=
    Nat.le_of_not_lt fun covered => outside x covered inside
  rw [byte_write _ _ _ _ short, List.getElem?_eq_none beyond]
  exact agree x inside

theorem Agree.load (agree : Agree on m n) {addr : Dword} {size : Nat} (short : size ≤ 2 ^ 64)
    (inside : ∀ x, Covers addr size x → on x) : n.load addr size = m.load addr size :=
  load_congr addr size fun k part => agree _ (inside _ ((covers_iff short).mpr ⟨k, part, rfl⟩))

theorem Agree.holds (agree : Agree on m n) {base : Dword} {words : List (Dword × Dword)}
    (holds : m.Holds base words)
    (inside : ∀ w ∈ words, ∀ x, Covers (base + w.1) 8 x → on x) : n.Holds base words := by
  intro w member
  rw [agree.load (by decide) (inside w member)]
  exact holds w member

end Agree

theorem length_read (addr : Dword) (size : Nat) : (m.read addr size).length = size := by
  induction size generalizing addr with
  | zero => rfl
  | succ size ih => rw [read, List.length_cons, ih]

theorem read_add (addr : Dword) (s t : Nat) :
    m.read addr (s + t) = m.read addr s ++ m.read (addr + BitVec.ofNat 64 s) t := by
  induction s generalizing addr with
  | zero => simp [read]
  | succ s ih =>
      have next : addr + 1 + BitVec.ofNat 64 s = addr + BitVec.ofNat 64 (s + 1) := by
        rw [BitVec.ofNat_add, BitVec.add_comm (BitVec.ofNat 64 s), ← BitVec.add_assoc]
        rfl
      rw [Nat.add_right_comm, read, read, ih, next, List.cons_append]

theorem get_read (addr : Dword) (n k : Nat) (inside : k < n) :
    (m.read addr n)[k]? = some (m.byte (addr + BitVec.ofNat 64 k)) := by
  have split := m.read_add addr k (n - k)
  rw [Nat.add_sub_cancel' inside.le] at split
  obtain ⟨more, rest⟩ : ∃ more, n - k = more + 1 := ⟨n - k - 1, by omega⟩
  rw [split, List.getElem?_append_right (by rw [length_read]), length_read, Nat.sub_self, rest]
  rfl

/-- Storing what is there already changes nothing. -/
theorem byte_store_held {addr v : Dword} (held : m.load addr 8 = v) (x : Dword) :
    (m.store addr 8 v).byte x = m.byte x := by
  rw [byte_store _ _ _ _ _ (by decide)]
  split
  · next inside =>
      obtain ⟨k, small, rfl⟩ := (covers_iff (by decide)).mp inside
      have there := get_read (m := m) addr 8 k small
      have bytes := Bytes.of_bits_to_nat (w := 64) (m.read addr 8) (by rw [length_read])
      rw [length_read] at bytes
      rw [← bytes, Bytes.get_of_bits _ _ _ small, Option.some.injEq] at there
      have place : (addr + BitVec.ofNat 64 k - addr).toNat = k := by
        rw [BitVec.add_comm, BitVec.add_sub_cancel, BitVec.toNat_ofNat]
        omega
      rw [place, ← held, ← there]
      rfl
  · rfl

theorem load_low (addr : Dword) (n : Nat) (short : n ≤ 8) :
    m.load addr n = ((m.load addr 8).setWidth (8 * n)).setWidth 64 := by
  have whole : m.read addr 8 = m.read addr n ++ m.read (addr + BitVec.ofNat 64 n) (8 - n) := by
    rw [← read_add, Nat.add_sub_cancel' short]
  have bound := Bytes.to_nat_lt (m.read addr n)
  have total := Bytes.to_nat_lt (m.read addr 8)
  rw [length_read] at bound total
  have low : Bytes.toNat (m.read addr n) = Bytes.toNat (m.read addr 8) % 2 ^ (8 * n) := by
    rw [Nat.pow_mul, whole, Bytes.to_nat_append, length_read, Nat.add_mul_mod_self_left,
      Nat.mod_eq_of_lt bound]
  rw [load, low, load]
  apply BitVec.eq_of_toNat_eq
  rw [BitVec.toNat_setWidth, BitVec.toNat_setWidth, BitVec.toNat_ofNat, BitVec.toNat_ofNat,
    Nat.mod_eq_of_lt (b := 2 ^ 64) (a := Bytes.toNat (m.read addr 8)) (by simpa using total)]

/-- The words of a piece of code are fetched where it lies. -/
theorem load_word (addr : Dword) (words : List Word)
    (code : m.read addr (instructionSize * words.length) = Bytes.ofWords words) (k : Nat) (w : Word)
    (found : words[k]? = some w) :
    (m.load (addr + BitVec.ofNat 64 (instructionSize * k)) 4).setWidth 32 = w := by
  induction words generalizing addr k with
  | nil => simp at found
  | cons first rest ih =>
      rw [List.length_cons, Nat.mul_add, Nat.add_comm, Nat.mul_one, read_add] at code
      have sizes : (m.read addr instructionSize).length = (Bytes.ofBits 4 first).length := by
        rw [length_read, Bytes.length_ofBits]
        rfl
      obtain ⟨head, tail⟩ := List.append_inj code sizes
      cases k with
      | zero =>
          cases found
          have value : m.read addr 4 = Bytes.ofBits 4 w := head
          rw [Nat.mul_zero, BitVec.add_zero, load, value, Bytes.to_nat_of_bits]
          apply BitVec.eq_of_toNat_eq
          have bound := w.isLt
          rw [BitVec.toNat_setWidth, BitVec.toNat_ofNat]
          omega
      | succ k =>
          rw [Nat.mul_add, Nat.add_comm, BitVec.ofNat_add, ← BitVec.add_assoc]
          exact ih _ tail k found

end Memory

end EntryCode
