import EntryCode.Region.Heap
import Mathlib

/-!
Installing code in a heap. A block goes to the next aligned offset, where there is room for it;
what was installed before stays where it is.
-/

namespace EntryCode

@[simp] theorem Region.run_throw {ε R α : Type} (f : Region.Failure ε) (r : R) :
    (throw f : Region.Work ε R α).run r = .error f r := rfl

theorem Region.run_adapt {ε ε' R α : Type} (f : Region.Failure ε → ε') (x : Region.Work ε R α)
    (r : R) : (EStateM.adaptExcept f x).run r = match x.run r with
      | .ok a s => .ok a s
      | .error e s => .error (f e) s := by
  rw [EStateM.run, EStateM.run, EStateM.adaptExcept]
  cases x r <;> rfl

namespace Heap

/-- Whether a block of the given size fits behind the others. -/
def Room (h : Heap) (size : Nat) : Prop :=
  (size : Int) ≤ h.capacity - h.nextOffset

instance (h : Heap) (size : Nat) : Decidable (h.Room size) :=
  inferInstanceAs (Decidable (_ ≤ _))

/-- The heap with a block of code behind the others. -/
def install (h : Heap) (code : Bytes) : Heap :=
  { h with
    bytes := h.bytes ++ List.replicate (h.nextOffset - h.used) 0 ++ code
    blocks := h.blocks ++ [⟨h.nextAddress, code.length⟩] }

section Emit
variable {ε : Type} {h : Heap} {gen : Dword → Except ε Bytes} {code : Bytes}

theorem emit_room (made : gen h.nextAddress = .ok code) (room : h.Room code.length) :
    (emit gen).run h = .ok h.nextAddress (h.install code) := by
  have fits : ¬h.capacity < (h.nextOffset + code.length : Nat) := by
    rw [Room] at room
    push_cast
    omega
  simp only [emit, EStateM.run_bind, EStateM.run_get, made, if_neg fits, EStateM.run_modify,
    EStateM.run_pure, install]

theorem emit_full (made : gen h.nextAddress = .ok code) (full : ¬h.Room code.length) :
    (emit gen).run h = .error (.full code.length h.nextOffset h.capacity) h := by
  have beyond : h.capacity < (h.nextOffset + code.length : Nat) := by
    rw [Room] at full
    push_cast
    omega
  simp only [emit, EStateM.run_bind, EStateM.run_get, made, if_pos beyond,
    Region.run_throw]

theorem emit_failed {e : ε} (failed : gen h.nextAddress = .error e) :
    (emit gen).run h = .error (.generator e) h := by
  simp only [emit, EStateM.run_bind, EStateM.run_get, failed, Region.run_throw]

/-- A block is installed exactly where its generator succeeds and there is room. -/
theorem emit_ok_iff {addr : Dword} {k : Heap} :
    (emit gen).run h = .ok addr k ↔ ∃ code, gen h.nextAddress = .ok code ∧ h.Room code.length ∧
      addr = h.nextAddress ∧ k = h.install code := by
  constructor
  · intro emitted
    cases made : gen h.nextAddress with
    | error e =>
        rw [emit_failed made] at emitted
        cases emitted
    | ok code =>
        by_cases room : h.Room code.length
        · rw [emit_room made room] at emitted
          cases emitted
          exact ⟨code, rfl, room, rfl, rfl⟩
        · rw [emit_full made room] at emitted
          cases emitted
  · rintro ⟨code, made, room, rfl, rfl⟩
    exact emit_room made room

/-- An installation fails with its generator or for want of room, before anything is written. -/
theorem emit_failed_iff {f : Region.Failure ε} {k : Heap} : (emit gen).run h = .error f k ↔
    ((∃ e, gen h.nextAddress = .error e ∧ f = .generator e) ∨
      ∃ code, gen h.nextAddress = .ok code ∧ h.capacity < (h.nextOffset + code.length : Nat) ∧
        f = .full code.length h.nextOffset h.capacity) ∧ k = h := by
  cases made : gen h.nextAddress with
  | error e =>
      rw [emit_failed made]
      simp [eq_comm]
  | ok code =>
      have beyond : h.capacity < (h.nextOffset : Int) + code.length ↔ ¬h.Room code.length := by
        rw [Room]
        omega
      by_cases room : h.Room code.length
      · rw [emit_room made room]
        simp [beyond, room]
      · rw [emit_full made room]
        simp [beyond, room, eq_comm]

end Emit

section Blocks
variable (h : Heap) (code : Bytes)

theorem used_le_next : h.used ≤ h.nextOffset := by
  rw [nextOffset, Region.alignUp, Region.alignment]
  omega

theorem next_address_offset (bounded : h.nextOffset < 2 ^ 64) :
    (h.nextAddress - h.base).toNat = h.nextOffset := by
  rw [nextAddress, BitVec.add_comm, BitVec.add_sub_cancel, BitVec.toNat_ofNat,
    Nat.mod_eq_of_lt bounded]

theorem used_install : (h.install code).used = h.nextOffset + code.length := by
  have behind := h.used_le_next
  rw [used] at behind ⊢
  simp only [install, List.length_append, List.length_replicate, used]
  omega

def read (off size : Nat) : Bytes :=
  (h.bytes.drop off).take size

theorem read_install_new : (h.install code).read h.nextOffset code.length = code := by
  have length : (h.bytes ++ List.replicate (h.nextOffset - h.used) 0).length = h.nextOffset := by
    have behind := h.used_le_next
    rw [used] at behind ⊢
    rw [List.length_append, List.length_replicate]
    omega
  rw [read, install, List.drop_left' length, List.take_length]

theorem read_install_old {off size : Nat} (inside : off + size ≤ h.used) :
    (h.install code).read off size = h.read off size := by
  rw [used] at inside
  rw [read, read, install, List.append_assoc, List.drop_append_of_le_length (by omega),
    List.take_append_of_le_length (by rw [List.length_drop]; omega)]

end Blocks

end Heap

end EntryCode
