import EntryCode.Proofs.Region.Blocks
import EntryCode.Region.Executable

/-!
Mapped regions over whole histories. Until it is closed a region is a heap, so what lies in it is
what was installed and zeros. Reading gives just that for the ranges that are in use. The check of
a range wraps around, so that for some ranges that are not in use it passes and no bytes are there
to be taken.
-/

namespace EntryCode

/-- The byte at an offset of a region that the given pieces lie in; between them there are zeros. -/
def Heap.Piece.byteAt (base : Dword) (ps : List Piece) (off : Nat) : Byte :=
  ((ps.find? fun p => p.offset base ≤ off && off < p.stop base).bind fun p =>
    p.code[off - p.offset base]?).getD 0

open Heap (Generator Piece)

theorem Heap.Orderly.contents {base capacity : Dword} {h : Heap} {ps : List Piece}
    (orderly : h.Orderly base capacity ps) {off : Nat} (used : off < h.used) :
    h.bytes[off]? = some (Piece.byteAt base ps off) := by
  rw [Piece.byteAt]
  cases found : ps.find? fun p => p.offset base ≤ off && off < p.stop base with
  | none =>
      rw [List.find?_eq_none] at found
      apply orderly.padded off used
      intro p member
      have outside := found p member
      simp only [Bool.and_eq_true, decide_eq_true_eq] at outside
      omega
  | some p =>
      have covers := List.find?_some found
      rw [Bool.and_eq_true, decide_eq_true_eq, decide_eq_true_eq, Piece.stop] at covers
      have held := orderly.held p (List.mem_of_find?_eq_some found)
      have same : p.code[off - p.offset base]? = h.bytes[off]? := by
        have short : off - p.offset base < p.code.length := by omega
        rw [← held, Heap.read, List.getElem?_take_of_lt short, List.getElem?_drop]
        congr 1
        omega
      rw [Option.bind_some, same, List.getElem?_eq_getElem used, Option.getD_some]

namespace Executable

variable {ε : Type}

/-- What is done to a region. -/
inductive Step (ε : Type) where
  | install (gen : Generator ε)
  | close

def after (e : Executable) : Step ε → Executable
  | .install gen =>
    match (emit gen).run e with
    | .ok _ k | .error _ k => k
  | .close => e.close

def run (e : Executable) : List (Step ε) → Executable
  | [] => e
  | s :: rest => run (e.after s) rest

def Step.installs : List (Step ε) → List (Generator ε)
  | .install gen :: rest => gen :: installs rest
  | _ => []

def heap (e : Executable) : Heap :=
  { base := e.base, capacity := e.capacity, bytes := e.bytes, blocks := e.blocks }

section History
variable {e : Executable}

theorem after_install (opened : e.isOpen = true) (gen : Generator ε) :
    (e.after (.install gen)).heap = e.heap.attempt gen ∧
      (e.after (.install gen)).isOpen = true := by
  rw [after, Heap.attempt]
  have next : e.heap.nextAddress = e.nextAddress := rfl
  cases made : gen e.nextAddress with
  | error x =>
      rw [Heap.emit_failed (next ▸ made)]
      simp [emit, opened, made]
  | ok code =>
      by_cases full : e.capacity < Region.alignUp e.used + code.length
      · have no : ¬e.heap.Room code.length := by
          show ¬(code.length : Int) ≤ (e.capacity : Int) - (Region.alignUp e.used : Nat)
          omega
        rw [Heap.emit_full (next ▸ made) no]
        simp [emit, opened, made, full]
      · have room : e.heap.Room code.length := by
          show (code.length : Int) ≤ (e.capacity : Int) - (Region.alignUp e.used : Nat)
          omega
        rw [Heap.emit_room (next ▸ made) room]
        simp only [emit, EStateM.run_bind, EStateM.run_get, opened, made, Bool.not_true,
          Bool.false_eq_true, if_false, if_neg full, EStateM.run_modify, EStateM.run_pure, and_true]
        rfl

theorem after_closed (closed : e.isOpen = false) (s : Step ε) : e.after s = e := by
  cases s with
  | install gen => simp [after, emit, closed]
  | close => rw [after, close, ← closed]

theorem run_closed (closed : e.isOpen = false) (steps : List (Step ε)) : e.run steps = e := by
  induction steps with
  | nil => rfl
  | cons s rest ih => rwa [run, after_closed closed]

theorem run_heap (opened : e.isOpen = true) (steps : List (Step ε)) :
    (e.run steps).heap = e.heap.replay (Step.installs steps) ∧
      ((e.run steps).isOpen = true ↔ Step.close ∉ steps) := by
  induction steps generalizing e with
  | nil => exact ⟨rfl, by simp [run, opened]⟩
  | cons s rest ih =>
      cases s with
      | install gen =>
          obtain ⟨same, still⟩ := after_install opened gen
          obtain ⟨heap, open_⟩ := ih still
          refine ⟨?_, ?_⟩
          · rw [run, heap, same]
            rfl
          · simpa [run] using open_
      | close =>
          rw [run, after, run_closed rfl]
          exact ⟨rfl, by simp [close]⟩

end History

section Read

/-- Over the integers, the range lies in what is in use. -/
def Inside (e : Executable) (addr n : Dword) : Prop :=
  0 ≤ n.toInt ∧ e.base.toNat ≤ addr.toNat ∧ addr.toNat + n.toInt ≤ e.base.toNat + e.used

/-- The range passes the check and is none: a negative length, or a start or a stop that is
negative as a signed word. -/
def Astray (e : Executable) (addr n : Dword) : Prop :=
  let start : Int := addr.toNat - e.base.toNat
  0 ≤ start ∧ (start + n.toInt).bmod (2 ^ 64) ≤ e.used ∧
    (n.toInt < 0 ∨ 2 ^ 63 ≤ start + n.toInt ∨ 2 ^ 63 ≤ start)

/-- How a read ends. -/
inductive Reads (e : Executable) (addr n : Dword) : Except ReadError Bytes → Prop where
  | bytes (opened : e.isOpen = true) (inside : e.Inside addr n) :
    Reads e addr n (.ok ((e.bytes.drop (addr - e.base).toNat).take n.toNat))
  | panics (opened : e.isOpen = true) (astray : e.Astray addr n) : Reads e addr n (.error .badRange)
  | refused (no : ¬(e.isOpen = true ∧ (e.Inside addr n ∨ e.Astray addr n))) :
    Reads e addr n (.error (.outside addr n))

variable {e : Executable} {addr n : Dword}

theorem not_astray (small : e.used < 2 ^ 63) (inside : e.Inside addr n) : ¬e.Astray addr n := by
  obtain ⟨sign, above, stop⟩ := inside
  rintro ⟨-, -, away⟩
  omega

/-- The start of a range and its stop as signed words. -/
theorem range_words (above : e.base.toNat ≤ addr.toNat) :
    (addr - e.base).toInt = ((addr.toNat : Int) - e.base.toNat).bmod (2 ^ 64) ∧
      (addr - e.base + n).toInt =
        ((addr.toNat : Int) - e.base.toNat + n.toInt).bmod (2 ^ 64) := by
  have start : (addr - e.base).toInt = ((addr.toNat : Int) - e.base.toNat).bmod (2 ^ 64) := by
    rw [BitVec.toInt_eq_toNat_bmod, BitVec.toNat_sub_of_le (BitVec.le_def.mpr above),
      Nat.cast_sub above]
  refine ⟨start, ?_⟩
  rw [BitVec.toInt_add, start, Int.bmod_add_bmod]

/-- The check compares the end with what is in use, as signed words. -/
theorem check_iff (small : e.used < 2 ^ 63) (opened : e.isOpen = true)
    (above : e.base.toNat ≤ addr.toNat) :
    (!e.isOpen || addr < e.base || (BitVec.ofNat 64 e.used).slt (addr - e.base + n)) = false ↔
      ((addr.toNat : Int) - e.base.toNat + n.toInt).bmod (2 ^ 64) ≤ e.used := by
  have used : (BitVec.ofNat 64 e.used).toInt = e.used := by
    rw [BitVec.toInt_ofNat']
    exact Int.bmod_eq_of_le (by omega) (by omega)
  have behind : ¬addr < e.base := by
    rw [BitVec.lt_def]
    omega
  rw [← (range_words above).2, ← Int.not_lt, ← used, ← BitVec.slt_iff_toInt_lt]
  simp [opened, behind]

theorem reads (small : e.used < 2 ^ 63) (addr n : Dword) : Reads e addr n (e.read addr n) := by
  by_cases opened : e.isOpen = true
  swap
  · have closed : e.read addr n = .error (.outside addr n) := by
      simp [read, opened]
    rw [closed]
    exact .refused fun ⟨yes, _⟩ => opened yes
  by_cases above : e.base.toNat ≤ addr.toNat
  swap
  · have below : e.read addr n = .error (.outside addr n) := by
      have lt : addr < e.base := BitVec.lt_def.mpr (by omega)
      simp [read, lt]
    rw [below]
    refine .refused ?_
    rintro ⟨-, ⟨-, yes, -⟩ | ⟨yes, -⟩⟩ <;> omega
  -- From here on the range starts behind the base, and only the wrapped end is in question.
  have passes := check_iff (n := n) small opened above
  obtain ⟨start, stop⟩ := range_words (n := n) above
  have n_lt := BitVec.toInt_lt (x := n)
  have le_n := BitVec.le_toInt n
  have addr_lt := addr.isLt
  by_cases checked : ((addr.toNat : Int) - e.base.toNat + n.toInt).bmod (2 ^ 64) ≤ e.used
  swap
  · have beyond : e.read addr n = .error (.outside addr n) := by
      rw [read, if_pos (Bool.eq_true_of_not_eq_false fun no => checked (passes.mp no))]
    rw [beyond]
    refine .refused ?_
    rintro ⟨-, inside | astray⟩
    · obtain ⟨sign, -, ends⟩ := inside
      rw [Int.bmod_eq_of_le (by omega) (by omega)] at checked
      omega
    · exact checked astray.2.1
  rw [read, if_neg (Bool.eq_false_iff.mp (passes.mpr checked))]
  by_cases inside : e.Inside addr n
  · obtain ⟨sign, -, ends⟩ := inside
    rw [Int.bmod_eq_of_le (by omega) (by omega)] at start stop
    rw [if_neg (by omega), BitVec.add_comm, BitVec.add_sub_cancel]
    exact .bytes opened ⟨sign, above, ends⟩
  · have astray : e.Astray addr n := by
      refine ⟨by omega, checked, ?_⟩
      by_contra none
      rw [Int.bmod_eq_of_le (by omega) (by omega)] at checked
      exact inside ⟨by omega, above, by omega⟩
    have bad : (addr - e.base).toInt < 0 ∨
        (addr - e.base + n).toInt < (addr - e.base).toInt := by
      obtain ⟨-, -, away⟩ := astray
      rw [start, stop, Int.bmod_def, Int.bmod_def]
      split <;> split <;> omega
    rw [if_pos bad]
    exact .panics opened astray

theorem Reads.unique (small : e.used < 2 ^ 63) {r r' : Except ReadError Bytes}
    (one : Reads e addr n r) (other : Reads e addr n r') : r = r' := by
  cases one with
  | bytes opened inside =>
      cases other with
      | bytes => rfl
      | panics _ astray => exact absurd astray (not_astray small inside)
      | refused no => exact absurd ⟨opened, .inl inside⟩ no
  | panics opened astray =>
      cases other with
      | bytes _ inside => exact absurd astray (not_astray small inside)
      | panics => rfl
      | refused no => exact absurd ⟨opened, .inr astray⟩ no
  | refused no =>
      cases other with
      | bytes opened inside => exact absurd ⟨opened, .inl inside⟩ no
      | panics opened astray => exact absurd ⟨opened, .inr astray⟩ no
      | refused => rfl

theorem read_eq_iff (small : e.used < 2 ^ 63) {r : Except ReadError Bytes} :
    e.read addr n = r ↔ Reads e addr n r :=
  ⟨fun ended => ended ▸ reads small addr n, (reads small addr n).unique small⟩

theorem Reads.bytes_iff {bs : Bytes} : Reads e addr n (.ok bs) ↔
    e.isOpen = true ∧ e.Inside addr n ∧
      bs = (e.bytes.drop (addr - e.base).toNat).take n.toNat := by
  constructor
  · rintro ⟨opened, inside⟩
    exact ⟨opened, inside, rfl⟩
  · rintro ⟨opened, inside, rfl⟩
    exact .bytes opened inside

theorem Reads.panics_iff : Reads e addr n (.error .badRange) ↔
    e.isOpen = true ∧ e.Astray addr n := by
  constructor
  · rintro (_ | ⟨opened, astray⟩)
    exact ⟨opened, astray⟩
  · rintro ⟨opened, astray⟩
    exact .panics opened astray

theorem Reads.refused_iff : Reads e addr n (.error (.outside addr n)) ↔
    ¬(e.isOpen = true ∧ (e.Inside addr n ∨ e.Astray addr n)) := by
  constructor
  · rintro (_ | _ | no)
    exact no
  · exact .refused

end Read

/-- A region that was mapped is a heap of whole pages, whatever was done to it since. -/
theorem mapped_orderly {grants : Dword → Bool} {base capacity : Dword} {start : Executable}
    (mapped : map grants base capacity = .ok start) (steps : List (Step ε)) :
    let e := start.run steps
    let ps := (Heap.new base (pageAlign capacity).toInt).pieces (Step.installs steps)
    e.heap.Orderly base (pageAlign capacity) ps ∧ e.used < 2 ^ 63 ∧
      (e.isOpen = true ↔ Step.close ∉ steps) := by
  intro e ps
  rw [map] at mapped
  split at mapped
  case isFalse => cases mapped
  case isTrue granted =>
    cases mapped
    obtain ⟨heap, opened⟩ := run_heap (e := ⟨base, (pageAlign capacity).toNat, [], [], true⟩) rfl steps
    have size : ((pageAlign capacity).toNat : Int) = (pageAlign capacity).toInt := by
      have positive := granted.1
      rw [BitVec.toInt_eq_toNat_cond] at positive ⊢
      split at positive <;> omega
    have first : Executable.heap ⟨base, (pageAlign capacity).toNat, [], [], true⟩ =
        Heap.new base (pageAlign capacity).toInt := by
      rw [← size]
      rfl
    have orderly : e.heap.Orderly base (pageAlign capacity) ps := by
      rw [heap, first]
      exact Heap.Orderly.new.replay _
    refine ⟨orderly, ?_, opened⟩
    have used : e.heap.used = e.used := rfl
    rw [← used, orderly.used]
    cases last : ps.getLast? with
    | none => exact Nat.two_pow_pos 63
    | some p =>
        have inside := orderly.inside p (List.mem_of_getLast? last)
        have top := (pageAlign capacity).toInt_lt
        rw [Option.map_some, Option.getD_some]
        omega

/-- What is read from a region after anything was installed in it and it was perhaps closed: the
bytes of a range that lies in what is in use, of the pieces that were installed and zeros between
them. A range for which the wrapped check passes in error is no range to take bytes of; all other
ranges are refused. -/
theorem regions_are_read_exactly {grants : Dword → Bool} {base capacity : Dword}
    {start : Executable} (mapped : map grants base capacity = .ok start) (steps : List (Step ε))
    (addr n : Dword) :
    let e := start.run steps
    let ps := (Heap.new base (pageAlign capacity).toInt).pieces (Step.installs steps)
    e.base = base ∧ e.used = (ps.getLast?.map (Piece.stop base)).getD 0 ∧
      (e.isOpen = true ↔ Step.close ∉ steps) ∧
      (∀ bs, e.read addr n = .ok bs ↔ e.isOpen = true ∧ e.Inside addr n ∧
        bs = (List.range n.toNat).map fun k =>
          Piece.byteAt base ps (addr.toNat - base.toNat + k)) ∧
      (e.read addr n = .error .badRange ↔ e.isOpen = true ∧ e.Astray addr n) ∧
      (e.read addr n = .error (.outside addr n) ↔
        ¬(e.isOpen = true ∧ (e.Inside addr n ∨ e.Astray addr n))) := by
  intro e ps
  obtain ⟨orderly, small, opened⟩ := mapped_orderly mapped steps
  have based : e.base = base := orderly.based
  refine ⟨based, orderly.used, opened, ?_, (read_eq_iff small).trans Reads.panics_iff,
    (read_eq_iff small).trans Reads.refused_iff⟩
  intro bs
  rw [read_eq_iff small, Reads.bytes_iff]
  refine and_congr_right fun _ => and_congr_right fun inside => ?_
  obtain ⟨sign, above, stop⟩ := inside
  have begins : (addr - e.base).toNat = addr.toNat - base.toNat := by
    rw [BitVec.toNat_sub_of_le (BitVec.le_def.mpr above), based]
  have length : (n.toNat : Int) = n.toInt := by
    rw [BitVec.toInt_eq_toNat_cond] at sign ⊢
    have n_lt := n.isLt
    split at sign <;> omega
  have taken : (e.bytes.drop (addr - e.base).toNat).take n.toNat =
      (List.range n.toNat).map fun k =>
        Piece.byteAt base ps (addr.toNat - base.toNat + k) := by
    apply List.ext_getElem?
    intro k
    by_cases within : k < n.toNat
    · rw [List.getElem?_take_of_lt within, List.getElem?_drop, begins, List.getElem?_map,
        List.getElem?_range within]
      apply orderly.contents
      rw [based] at above stop
      show addr.toNat - base.toNat + k < (start.run steps).used
      omega
    · rw [List.getElem?_eq_none, List.getElem?_eq_none]
      · rw [List.length_map, List.length_range]
        omega
      · rw [List.length_take]
        omega
  rw [taken]

def sample : Step Empty :=
  .install fun _ => .ok [0x13, 0x05, 0x50, 0x00, 0x67, 0x80, 0x00, 0x00]

/-- The end of a block is read, and the padding behind it up to the start of the next one. -/
theorem padding_is_read : ∃ start, map (fun _ => true) 0x7f0000000000 100 = .ok start ∧
    (start.run [sample, sample]).read 0x7f0000000004 13 =
      .ok [0x67, 0x80, 0, 0, 0, 0, 0, 0, 0, 0, 0, 0, 0x13] := by
  refine ⟨_, rfl, ?_⟩
  obtain ⟨-, -, -, bytes, -⟩ := regions_are_read_exactly
    (show map (fun _ => true) 0x7f0000000000 100 = .ok _ from rfl) [sample, sample] 0x7f0000000004 13
  exact (bytes _).mpr ⟨rfl, ⟨by decide, by decide, by decide⟩, by decide⟩

/-- The check lets a negative length pass at the start of what is in use, and any small length at
half the address space above it. -/
theorem misread_ranges_panic : ∃ start, map (fun _ => true) 0x7f0000000000 4096 = .ok start ∧
    ¬(start.run [sample]).Inside 0x7f0000000000 (-1) ∧
      (start.run [sample]).read 0x7f0000000000 (-1) = .error .badRange ∧
      ¬(start.run [sample]).Inside 0x80007f0000000000 4 ∧
      (start.run [sample]).read 0x80007f0000000000 4 = .error .badRange := by
  refine ⟨_, rfl, ?_, by decide, ?_, by decide⟩
  · exact fun inside => absurd inside.1 (by decide)
  · exact fun inside => absurd inside.2.2 (by decide)

end Executable
end EntryCode
