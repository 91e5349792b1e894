import EntryCode.Proofs.Region.Heap

/-!
Heaps over whole histories. Installations follow one another and some of them fail. The blocks lie
in the order in which they were installed, each still holds what its generator gave for it, and
there are only zeros between them.
-/

namespace EntryCode

namespace Heap

variable {ε : Type}

abbrev Generator (ε : Type) := Dword → Except ε Bytes

def attempt (h : Heap) (gen : Generator ε) : Heap :=
  match (emit gen).run h with
  | .ok _ k | .error _ k => k

def replay (h : Heap) : List (Generator ε) → Heap
  | [] => h
  | gen :: rest => replay (h.attempt gen) rest

/-- Code that was installed: the address that was handed out for it, and what the generator gave
for that address. -/
structure Piece where
  addr : Dword
  code : Bytes

namespace Piece

def block (p : Piece) : Region.Block := ⟨p.addr, p.code.length⟩

def offset (base : Dword) (p : Piece) : Nat := (p.addr - base).toNat

def stop (base : Dword) (p : Piece) : Nat := p.offset base + p.code.length

end Piece

def piece? (h : Heap) (gen : Generator ε) : Option Piece :=
  match (emit gen).run h with
  | .ok addr _ => (gen addr).toOption.map (⟨addr, ·⟩)
  | .error _ _ => none

def pieces (h : Heap) : List (Generator ε) → List Piece
  | [] => []
  | gen :: rest => (h.piece? gen).toList ++ pieces (h.attempt gen) rest

section Attempts
variable {h k : Heap} {gen : Generator ε} {code : Bytes}

theorem attempt_installed (made : gen h.nextAddress = .ok code) (room : h.Room code.length) :
    h.attempt gen = h.install code ∧ h.piece? gen = some ⟨h.nextAddress, code⟩ := by
  have emitted := emit_room made room
  constructor
  · simp only [attempt, emitted]
  · simp only [piece?, emitted, made]
    rfl

theorem replay_append (gens : List (Generator ε)) (gen : Generator ε) :
    h.replay (gens ++ [gen]) = (h.replay gens).attempt gen := by
  induction gens generalizing h with
  | nil => rfl
  | cons first rest ih => exact ih

theorem next_offset_first (h : Heap) : 16 ∣ h.nextOffset ∧ h.used ≤ h.nextOffset ∧
    h.nextOffset < h.used + 16 := by
  rw [nextOffset, Region.alignUp, Region.alignment]
  omega

theorem attempt_failed {f : Region.Failure ε} (failed : (emit gen).run h = .error f k) :
    h.attempt gen = h ∧ h.piece? gen = none := by
  obtain ⟨-, rfl⟩ := emit_failed_iff.mp failed
  simp only [attempt, piece?, failed, and_self]

end Attempts

/-- What holds of a heap and the pieces in it. -/
structure Orderly (base capacity : Dword) (h : Heap) (ps : List Piece) : Prop where
  based : h.base = base
  bounded : h.capacity = capacity.toInt
  listed : h.blocks = ps.map Piece.block
  aligned : ∀ p ∈ ps, 16 ∣ p.offset base
  apart : ps.Pairwise fun p q => p.stop base ≤ q.offset base
  inside : ∀ p ∈ ps, (p.stop base : Int) ≤ capacity.toInt
  within : ∀ p ∈ ps, p.stop base ≤ h.used
  held : ∀ p ∈ ps, h.read (p.offset base) p.code.length = p.code
  padded : ∀ n < h.used, (∀ p ∈ ps, n < p.offset base ∨ p.stop base ≤ n) → h.bytes[n]? = some 0
  used : h.used = (ps.getLast?.map (Piece.stop base)).getD 0

namespace Orderly

variable {base capacity : Dword} {h : Heap} {ps : List Piece}

theorem new : Orderly base capacity (.new base capacity.toInt) [] where
  based := rfl
  bounded := rfl
  listed := rfl
  aligned := nofun
  apart := .nil
  inside := nofun
  within := nofun
  held := nofun
  padded := nofun
  used := rfl

section Install
variable {code : Bytes} (orderly : h.Orderly base capacity ps) (room : h.Room code.length)
include orderly room

theorem next_offset : Piece.offset base ⟨h.nextAddress, code⟩ = h.nextOffset := by
  -- A region is too small for its offsets to wrap around.
  have top := capacity.toInt_lt
  rw [Room, orderly.bounded] at room
  rw [Piece.offset, ← orderly.based]
  apply h.next_address_offset
  omega

theorem next_stop : Piece.stop base ⟨h.nextAddress, code⟩ = h.nextOffset + code.length := by
  rw [Piece.stop, orderly.next_offset room]

theorem padded_install (n : Nat) (used : n < (h.install code).used)
    (free : ∀ p ∈ ps ++ [⟨h.nextAddress, code⟩], n < p.offset base ∨ p.stop base ≤ n) :
    (h.install code).bytes[n]? = some 0 := by
  rw [List.forall_mem_append, List.forall_mem_singleton, orderly.next_offset room,
    orderly.next_stop room] at free
  rw [h.used_install] at used
  -- What is free lies among the old bytes or in the padding behind them, never in the new code.
  obtain ⟨earlier, before | behind⟩ := free
  · have padding := h.used_le_next
    rw [install, List.append_assoc]
    by_cases old : n < h.used
    · rw [List.getElem?_append_left old]
      exact orderly.padded n old earlier
    · rw [Heap.used] at old padding
      rw [List.getElem?_append_right (by omega), List.getElem?_append_left
        (by rw [List.length_replicate, Heap.used]; omega), List.getElem?_replicate_of_lt]
      rw [Heap.used]
      omega
  · omega

theorem install : (h.install code).Orderly base capacity (ps ++ [⟨h.nextAddress, code⟩]) where
  based := orderly.based
  bounded := orderly.bounded
  listed := by
    rw [Heap.install, List.map_append, orderly.listed]
    rfl
  aligned := by
    rw [List.forall_mem_append, List.forall_mem_singleton, orderly.next_offset room]
    exact ⟨orderly.aligned, h.next_offset_first.1⟩
  apart := by
    apply List.pairwise_append.mpr
    refine ⟨orderly.apart, List.pairwise_singleton _ _, ?_⟩
    intro p earlier q latest
    rw [List.mem_singleton.mp latest, orderly.next_offset room]
    exact (orderly.within p earlier).trans h.used_le_next
  inside := by
    rw [List.forall_mem_append, List.forall_mem_singleton, orderly.next_stop room]
    refine ⟨orderly.inside, ?_⟩
    rw [Room, orderly.bounded] at room
    push_cast
    omega
  within := by
    rw [List.forall_mem_append, List.forall_mem_singleton, orderly.next_stop room, h.used_install]
    constructor
    · intro p earlier
      have behind := h.used_le_next
      have ends := orderly.within p earlier
      omega
    · exact le_rfl
  held := by
    rw [List.forall_mem_append, List.forall_mem_singleton, orderly.next_offset room]
    constructor
    · intro p earlier
      rw [h.read_install_old code (orderly.within p earlier)]
      exact orderly.held p earlier
    · exact h.read_install_new code
  padded := orderly.padded_install room
  used := by
    rw [List.getLast?_concat, Option.map_some, Option.getD_some, orderly.next_stop room,
      h.used_install]

end Install

/-- Whether it succeeds or not, an installation keeps the heap in order. -/
theorem attempt (orderly : h.Orderly base capacity ps) (gen : Generator ε) :
    (h.attempt gen).Orderly base capacity (ps ++ (h.piece? gen).toList) := by
  cases emitted : (emit gen).run h with
  | error f k =>
      obtain ⟨same, nothing⟩ := attempt_failed emitted
      rw [same, nothing, Option.toList_none, List.append_nil]
      exact orderly
  | ok addr k =>
      obtain ⟨code, made, room, -, -⟩ := emit_ok_iff.mp emitted
      obtain ⟨grown, added⟩ := attempt_installed made room
      rw [grown, added]
      exact orderly.install room

theorem replay (orderly : h.Orderly base capacity ps) (gens : List (Generator ε)) :
    (h.replay gens).Orderly base capacity (ps ++ h.pieces gens) := by
  induction gens generalizing h ps with
  | nil =>
      rw [pieces, List.append_nil]
      exact orderly
  | cons gen rest ih =>
      rw [pieces, ← List.append_assoc]
      exact ih (orderly.attempt gen)

end Orderly

end Heap

open Heap in
/-- Heaps keep their code. After any installations, of which some failed: the blocks are those of
the pieces that were installed, in order; they start at multiples of sixteen, one behind the other
and inside the region; each still holds its code; every other byte is zero; and the last one ends
where the bytes in use do. The next installation hands its generator the address that it returns,
which is the next aligned one; it fails with its generator or where there is no room, and then
nothing has changed. -/
theorem heaps_keep_code {ε : Type} (base capacity : Dword) (gens : List (Generator ε)) :
    let start := Heap.new base capacity.toInt
    let h := start.replay gens
    let ps := start.pieces gens
    h.blocks = ps.map Piece.block ∧
    (∀ p ∈ ps, 16 ∣ p.offset base) ∧
    ps.Pairwise (fun p q => p.stop base ≤ q.offset base) ∧
    (∀ p ∈ ps, (p.stop base : Int) ≤ capacity.toInt) ∧
    (∀ p ∈ ps, (h.bytes.drop (p.offset base)).take p.code.length = p.code) ∧
    (∀ n < h.bytes.length, (∀ p ∈ ps, n < p.offset base ∨ p.stop base ≤ n) →
      h.bytes[n]? = some 0) ∧
    h.used = (ps.getLast?.map (Piece.stop base)).getD 0 ∧
    ∀ gen : Generator ε, ∃ off, 16 ∣ off ∧ h.used ≤ off ∧ off < h.used + 16 ∧
      (∀ addr k, (emit gen).run h = .ok addr k ↔ ∃ code, gen addr = .ok code ∧
        addr = base + BitVec.ofNat 64 off ∧ ((off + code.length : Nat) : Int) ≤ capacity.toInt ∧
        k = h.install code) ∧
      (∀ f k, (emit gen).run h = .error f k ↔
        ((∃ e, gen (base + BitVec.ofNat 64 off) = .error e ∧ f = .generator e) ∨
          ∃ code, gen (base + BitVec.ofNat 64 off) = .ok code ∧
            capacity.toInt < (off + code.length : Nat) ∧
            f = .full code.length off capacity.toInt) ∧ k = h) ∧
      ∀ f k, (emit gen).run h = .error f k → start.replay (gens ++ [gen]) = h := by
  intro start h ps
  have orderly : h.Orderly base capacity ps := Orderly.new.replay gens
  refine ⟨orderly.listed, orderly.aligned, orderly.apart, orderly.inside, orderly.held,
    orderly.padded, orderly.used, ?_⟩
  intro gen
  -- The blocks so far are orderly; what is left is the next installation.
  have next : h.nextAddress = base + BitVec.ofNat 64 h.nextOffset := by
    rw [nextAddress, orderly.based]
  obtain ⟨aligned, behind, near⟩ := h.next_offset_first
  refine ⟨h.nextOffset, aligned, behind, near, ?_, ?_, ?_⟩
  · intro addr k
    rw [emit_ok_iff, ← next]
    constructor
    · rintro ⟨code, made, room, rfl, rfl⟩
      rw [Room, orderly.bounded] at room
      exact ⟨code, made, rfl, by push_cast; omega, rfl⟩
    · rintro ⟨code, made, rfl, fits, rfl⟩
      refine ⟨code, made, ?_, rfl, rfl⟩
      rw [Room, orderly.bounded]
      push_cast at fits
      omega
  · intro f k
    rw [emit_failed_iff, ← next, orderly.bounded]
  · intro f k failed
    rw [replay_append]
    exact (attempt_failed failed).1

end EntryCode
