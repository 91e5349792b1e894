import EntryCode.Machine.Basic
import EntryCode.Proofs.Machine.Memory

/-!
Simulated memory is a flat array of bytes. Whatever was written, in whatever pieces and across
whatever pages, a load puts together the bytes that were written last at its addresses.
-/

namespace EntryCode

/-- A write to memory. -/
inductive MemoryWrite where
  | store (addr : Dword) (size : Nat) (v : Dword)
  | bytes (addr : Dword) (content : Bytes)
  | words (addr : Dword) (content : List Word)
  deriving DecidableEq, Repr

namespace MemoryWrite

def run (m : Memory) : MemoryWrite → Memory
  | store addr size v => m.store addr size v
  | bytes addr content => m.write addr content
  | words addr content => m.writeWords addr content

/-- The low `n` bytes of a number with their addresses, the least significant one first. -/
def littleEndian {w : Nat} (addr : Dword) (n : Nat) (v : BitVec w) : List (Dword × Byte) :=
  (List.range n).map fun i => (addr + BitVec.ofNat 64 i, (v >>> (8 * i)).setWidth 8)

def single : MemoryWrite → List (Dword × Byte)
  | store addr size v => littleEndian addr size v
  | bytes addr content => content.mapIdx fun i b => (addr + BitVec.ofNat 64 i, b)
  | words addr content => (content.mapIdx fun k w =>
      littleEndian (addr + BitVec.ofNat 64 (instructionSize * k)) instructionSize w).flatten

end MemoryWrite

namespace Memory

def written (history : List MemoryWrite) : Memory :=
  history.foldl MemoryWrite.run empty

/-- The byte that was written last at an address, zero where none was. -/
def latest (history : List MemoryWrite) (c : Dword) : Byte :=
  ((history.flatMap MemoryWrite.single).reverse.lookup c).getD 0

def setBytes (m : Memory) (bytes : List (Dword × Byte)) : Memory :=
  bytes.foldl (fun m b => m.setByte b.1 b.2) m

section Single
variable {m : Memory} {addr : Dword}

theorem byte_set_bytes (bytes : List (Dword × Byte)) (c : Dword) :
    (m.setBytes bytes).byte c = (bytes.reverse.lookup c).getD (m.byte c) := by
  induction bytes generalizing m with
  | nil => rfl
  | cons b rest ih =>
      rw [setBytes, List.foldl_cons, ← setBytes, ih, byte_set_byte, List.reverse_cons,
        List.lookup_append]
      cases rest.reverse.lookup c with
      | some v => rfl
      | none =>
          by_cases here : c = b.1
          · simp [List.lookup, here]
          · simp [List.lookup, here, beq_eq_false_iff_ne.mpr here]

theorem set_bytes_append (first second : List (Dword × Byte)) :
    m.setBytes (first ++ second) = (m.setBytes first).setBytes second :=
  List.foldl_append

theorem step_address (i j : Nat) :
    addr + BitVec.ofNat 64 (i + j) = addr + BitVec.ofNat 64 j + BitVec.ofNat 64 i := by
  rw [BitVec.ofNat_add, BitVec.add_comm (BitVec.ofNat 64 i), ← BitVec.add_assoc]

theorem write_single (content : Bytes) :
    m.write addr content = m.setBytes (MemoryWrite.bytes addr content).single := by
  induction content generalizing m addr with
  | nil => rfl
  | cons b rest ih =>
      have first : addr + BitVec.ofNat 64 0 = addr := BitVec.add_zero addr
      have later : (fun i (b : Byte) => (addr + BitVec.ofNat 64 (i + 1), b)) =
          fun i b => (addr + 1 + BitVec.ofNat 64 i, b) := by
        funext i b
        rw [step_address]
        rfl
      rw [write, ih, MemoryWrite.single, MemoryWrite.single, List.mapIdx_cons, later, first]
      rfl

theorem placed_bits {w : Nat} (n : Nat) (v : BitVec w) :
    (Bytes.ofBits n v).mapIdx (fun i b => (addr + BitVec.ofNat 64 i, b)) =
      MemoryWrite.littleEndian addr n v := by
  apply List.ext_getElem?
  intro i
  rw [List.getElem?_mapIdx, MemoryWrite.littleEndian, List.getElem?_map]
  by_cases inside : i < n
  · rw [Bytes.get_of_bits n i v inside, List.getElem?_range inside]
    rfl
  · rw [List.getElem?_eq_none (by rw [Bytes.length_ofBits]; omega),
      List.getElem?_eq_none (by rw [List.length_range]; omega)]
    rfl

theorem placed_words (content : List Word) :
    (Bytes.ofWords content).mapIdx (fun i b => (addr + BitVec.ofNat 64 i, b)) =
      (MemoryWrite.words addr content).single := by
  induction content generalizing addr with
  | nil => rfl
  | cons w rest ih =>
      have first : addr + BitVec.ofNat 64 (instructionSize * 0) = addr := BitVec.add_zero addr
      have later : (fun k (w : Word) => MemoryWrite.littleEndian
            (addr + BitVec.ofNat 64 (instructionSize * (k + 1))) instructionSize w) =
          fun k w => MemoryWrite.littleEndian (addr + BitVec.ofNat 64 instructionSize +
            BitVec.ofNat 64 (instructionSize * k)) instructionSize w := by
        funext k w
        rw [Nat.mul_succ, step_address]
      have bytes : (fun i (b : Byte) =>
            (addr + BitVec.ofNat 64 (i + (Bytes.ofBits 4 w).length), b)) =
          fun i b => (addr + BitVec.ofNat 64 instructionSize + BitVec.ofNat 64 i, b) := by
        funext i b
        rw [Bytes.length_ofBits, step_address]
        rfl
      have split : Bytes.ofWords (w :: rest) = Bytes.ofBits 4 w ++ Bytes.ofWords rest := rfl
      rw [split, List.mapIdx_append, bytes, ih, placed_bits, MemoryWrite.single,
        MemoryWrite.single, List.mapIdx_cons, later, first]
      rfl

theorem run_single (w : MemoryWrite) : w.run m = m.setBytes w.single := by
  cases w with
  | bytes => exact write_single _
  | store addr size v =>
      rw [MemoryWrite.run, store, write_single, MemoryWrite.single, MemoryWrite.single, placed_bits]
  | words addr content =>
      rw [MemoryWrite.run, writeWords, write_single, MemoryWrite.single, placed_words]

theorem byte_written (history : List MemoryWrite) (c : Dword) :
    (written history).byte c = latest history c := by
  have all : ∀ m : Memory, history.foldl MemoryWrite.run m =
      m.setBytes (history.flatMap MemoryWrite.single) := by
    induction history with
    | nil => exact fun _ => rfl
    | cons w rest ih =>
        intro m
        rw [List.foldl_cons, ih, run_single, List.flatMap_cons, set_bytes_append]
  rw [written, all, byte_set_bytes, byte_empty, latest]

/-- What is not written to stays. -/
theorem byte_kept (later : List MemoryWrite) (c : Dword)
    (apart : ∀ w ∈ later, ∀ b ∈ w.single, b.1 ≠ c) :
    (later.foldl MemoryWrite.run m).byte c = m.byte c := by
  induction later generalizing m with
  | nil => rfl
  | cons w rest ih =>
      rw [List.forall_mem_cons] at apart
      have missing : w.single.reverse.lookup c = none := by
        rw [List.lookup_eq_none_iff]
        intro b member
        exact bne_iff_ne.mpr (apart.1 b (List.mem_reverse.mp member)).symm
      rw [List.foldl_cons, ih apart.2, run_single, byte_set_bytes, missing, Option.getD_none]

end Single

section Load
variable {m : Memory} {addr : Dword}

theorem read_to_nat (size : Nat) : Bytes.toNat (m.read addr size) =
    ∑ i ∈ Finset.range size, 256 ^ i * (m.byte (addr + BitVec.ofNat 64 i)).toNat := by
  induction size generalizing addr with
  | zero => rfl
  | succ size ih =>
      have first : addr + BitVec.ofNat 64 0 = addr := BitVec.add_zero addr
      rw [read, Bytes.toNat, ih, Finset.sum_range_succ', first, Finset.mul_sum, pow_zero, one_mul,
        Nat.add_comm]
      congr 1
      apply Finset.sum_congr rfl
      intro i _
      rw [step_address, pow_succ', Nat.mul_assoc]
      rfl

theorem load_to_nat (size : Nat) (short : size ≤ 8) : (m.load addr size).toNat =
    ∑ i ∈ Finset.range size, 256 ^ i * (m.byte (addr + BitVec.ofNat 64 i)).toNat := by
  have bound := Bytes.to_nat_lt (m.read addr size)
  rw [length_read] at bound
  have wide : 256 ^ size ≤ 256 ^ 8 := Nat.pow_le_pow_right (by decide) short
  rw [load, BitVec.toNat_ofNat, Nat.mod_eq_of_lt (by omega), read_to_nat]

end Load

section Code
variable {m : Memory} {addr : Dword} {code : Bytes}

theorem get_to_words {k : Nat} {w : Word} (found : (Bytes.toWords code)[k]? = some w) :
    instructionSize * k + instructionSize ≤ code.length ∧
      w = BitVec.ofNat 32
        (Bytes.toNat ((code.drop (instructionSize * k)).take instructionSize)) := by
  fun_induction Bytes.toWords code generalizing k with
  | case1 b0 b1 b2 b3 rest ih =>
      cases k with
      | zero =>
          cases found
          exact ⟨Nat.le_add_left _ _, rfl⟩
      | succ k =>
          obtain ⟨inside, value⟩ := ih found
          rw [Nat.mul_succ]
          exact ⟨Nat.add_le_add_right inside _, value⟩
  | case2 => cases found

/-- A word of a piece of code, read from where the code lies. -/
theorem fetched_word {k : Nat} {w : Word} (found : (Bytes.toWords code)[k]? = some w)
    (there : ∀ n b, code[n]? = some b → m.byte (addr + BitVec.ofNat 64 n) = b) :
    (m.load (addr + BitVec.ofNat 64 (instructionSize * k)) instructionSize).setWidth 32 = w := by
  obtain ⟨inside, rfl⟩ := get_to_words found
  have bytes : m.read (addr + BitVec.ofNat 64 (instructionSize * k)) instructionSize =
      (code.drop (instructionSize * k)).take instructionSize := by
    apply List.ext_getElem?
    intro i
    by_cases small : i < instructionSize
    · have part : instructionSize * k + i < code.length := by omega
      rw [get_read _ _ _ small, ← step_address, List.getElem?_take_of_lt small,
        List.getElem?_drop, Nat.add_comm i, List.getElem?_eq_getElem part,
        there _ _ (List.getElem?_eq_getElem part)]
    · rw [List.getElem?_eq_none (by rw [length_read]; omega),
        List.getElem?_eq_none (by rw [List.length_take]; omega)]
  rw [load, bytes, BitVec.setWidth_ofNat_of_le (by decide)]

end Code

/-- Memory is a flat array of bytes. -/
theorem memory_is_flat (history : List MemoryWrite) :
    (∀ addr size, size ≤ 8 → ((written history).load addr size).toNat =
      ∑ i ∈ Finset.range size, 256 ^ i * (latest history (addr + BitVec.ofNat 64 i)).toNat) ∧
    (∀ addr code later, code.length ≤ 2 ^ 64 →
      (∀ w ∈ later, ∀ b ∈ w.single, ¬Covers addr code.length b.1) →
      ∀ k w, (Bytes.toWords code)[k]? = some w → ∀ x f,
        (Machine.mk x f (addr + BitVec.ofNat 64 (instructionSize * k))
          (written (history ++ .bytes addr code :: later))).fetch = w) ∧
    (∀ addr size v c, (∀ i, i < size → c ≠ addr + BitVec.ofNat 64 i) →
      (written (history ++ [.store addr size v])).byte c = (written history).byte c) := by
  refine ⟨?_, ?_, ?_⟩
  · intro addr size short
    rw [load_to_nat size short]
    simp only [byte_written]
  · intro addr code later short apart k w found x f
    refine fetched_word found fun n b there => ?_
    have inside := (List.getElem?_eq_some_iff.mp there).1
    have place : (addr + BitVec.ofNat 64 n - addr).toNat = n := by
      rw [BitVec.add_comm, BitVec.add_sub_cancel, BitVec.toNat_ofNat]
      omega
    have split : written (history ++ MemoryWrite.bytes addr code :: later) =
        later.foldl MemoryWrite.run ((written history).write addr code) :=
      List.foldl_append
    rw [split, byte_kept, byte_write _ _ _ _ short, place, there, Option.getD_some]
    intro v member c part same
    exact apart v member c part (by rw [same, Covers, place]; exact inside)
  · intro addr size v c outside
    have split : written (history ++ [MemoryWrite.store addr size v]) =
        [MemoryWrite.store addr size v].foldl MemoryWrite.run (written history) :=
      List.foldl_append
    rw [split, byte_kept]
    intro w member b part same
    obtain rfl := List.mem_singleton.mp member
    obtain ⟨i, inside, rfl⟩ := List.mem_map.mp part
    exact outside i (List.mem_range.mp inside) same.symm

/-- Two stores that overlap at the end of a page and past the last address. -/
theorem wrapping_stores_are_loaded :
    ((written [.store (-4) 8 0x1122334455667788, .store 1 2 0xaabb]).load (-3) 8).toNat =
      0x0011aabb44556677 := by
  obtain ⟨loads, -⟩ :=
    memory_is_flat [.store (-4) 8 0x1122334455667788, .store 1 2 0xaabb]
  rw [loads _ _ le_rfl]
  decide

end Memory

end EntryCode
