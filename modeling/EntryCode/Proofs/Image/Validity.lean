import EntryCode.Image.Codec
import Mathlib

/-!
Which images are accepted. Offsets and sizes are signed words. The end of a routine is their sum in
words, so acceptance speaks of the end over the integers for the sizes only that are not negative
and do not lead past the last signed word.
-/

namespace EntryCode
namespace Image

/-- An offset over the integers is that of an instruction in code of the given size. -/
def Starts (size : Nat) (off : Int) : Prop :=
  0 ≤ off ∧ off < size ∧ off % instructionSize = 0

theorem in_code_iff (size : Nat) (off : Dword) : inCode size off = true ↔ Starts size off.toInt := by
  simp only [inCode, Starts, Bool.and_eq_true, decide_eq_true_eq, and_assoc]

/-- Every location of an image lies in its code, over the integers. -/
structure Contained (i : Image) : Prop where
  version : i.version = formatVersion
  whole : i.codeBytes.length % instructionSize = 0
  starts : ∀ r ∈ i.routines.getD [], Starts i.codeBytes.length r.offset.toInt
  sizes : ∀ r ∈ i.routines.getD [], 0 ≤ r.size.toInt
  ends : ∀ r ∈ i.routines.getD [], r.offset.toInt + r.size.toInt ≤ i.codeBytes.length
  entries : ∀ e ∈ i.entryTable, Starts i.codeBytes.length e.2.toInt
  handlers : ∀ e ∈ i.handlerTable, Starts i.codeBytes.length e.2.toInt

def EndsBy (size : Nat) (off len : Int) : Prop :=
  off + len ≤ size ∨ 2 ^ 63 ≤ off + len

section Parts
variable {size : Nat}

/-- A sum that leaves the signed words from a start in the code is negative as a word. -/
theorem sum_le_iff {off len : Dword} (start : 0 ≤ off.toInt) :
    (off + len).toInt ≤ size ↔ EndsBy size off.toInt len.toInt := by
  have off_lt := BitVec.toInt_lt (x := off)
  have len_lt := BitVec.toInt_lt (x := len)
  have le_len := BitVec.le_toInt len
  rw [BitVec.toInt_add, EndsBy]
  by_cases wraps : 2 ^ 63 ≤ off.toInt + len.toInt
  · have word : (off.toInt + len.toInt).bmod (2 ^ 64) = off.toInt + len.toInt - 2 ^ 64 := by
      rw [← Int.sub_bmod_right]
      exact Int.bmod_eq_of_le (by omega) (by omega)
    rw [word]
    omega
  · have word : (off.toInt + len.toInt).bmod (2 ^ 64) = off.toInt + len.toInt :=
      Int.bmod_eq_of_le (by omega) (by omega)
    rw [word]
    omega

theorem routine_problem_iff (r : ImageRoutine) : routineProblem? size r = none ↔
    Starts size r.offset.toInt ∧ EndsBy size r.offset.toInt r.size.toInt := by
  rw [routineProblem?, ← in_code_iff]
  by_cases start : inCode size r.offset = true
  · have le := ((in_code_iff size r.offset).mp start).1
    simp [start, ← sum_le_iff le]
  · simp [start]

theorem entry_problem_iff (kind : String) (e : String × Dword) :
    entryProblem? size kind e = none ↔ Starts size e.2.toInt := by
  rw [entryProblem?, ← in_code_iff]
  split <;> simp_all

end Parts

variable {i : Image}

theorem accepted_iff : i.problem? = none ↔
    i.version = formatVersion ∧ i.codeBytes.length % instructionSize = 0 ∧
      (∀ r ∈ i.routines.getD [], Starts i.codeBytes.length r.offset.toInt ∧
        EndsBy i.codeBytes.length r.offset.toInt r.size.toInt) ∧
      (∀ e ∈ i.entryTable, Starts i.codeBytes.length e.2.toInt) ∧
      ∀ e ∈ i.handlerTable, Starts i.codeBytes.length e.2.toInt := by
  rw [problem?]
  by_cases version : i.version = formatVersion
  · by_cases whole : i.codeBytes.length % instructionSize = 0
    · simp only [version, whole, ne_eq, not_true, if_false, true_and, Option.or_eq_none_iff,
        List.findSome?_eq_none_iff, routine_problem_iff, entry_problem_iff]
    · simp [version, whole]
  · simp [version]

/-- An image is contained in its code if it is accepted and no size of its routines is negative or
leads past the last signed word. -/
theorem contained_iff_accepted (short : i.codeBytes.length < 2 ^ 63) :
    i.Contained ↔ i.problem? = none ∧ ∀ r ∈ i.routines.getD [],
      0 ≤ r.size.toInt ∧ r.offset.toInt + r.size.toInt < 2 ^ 63 := by
  rw [accepted_iff]
  constructor
  · intro contained
    refine ⟨⟨contained.version, contained.whole, fun r member => ?_, contained.entries,
      contained.handlers⟩, fun r member => ?_⟩
    · exact ⟨contained.starts r member, .inl (contained.ends r member)⟩
    · have stop := contained.ends r member
      exact ⟨contained.sizes r member, by omega⟩
  · rintro ⟨⟨version, whole, routines, entries, handlers⟩, sized⟩
    refine ⟨version, whole, fun r member => (routines r member).1,
      fun r member => (sized r member).1, fun r member => ?_, entries, handlers⟩
    obtain ⟨-, below⟩ := sized r member
    exact (routines r member).2.resolve_right (by omega)

def lone (off size : Dword) : Image :=
  { empty with
    version := formatVersion
    code := some [0x13, 0, 0, 0, 0x67, 0x80, 0, 0]
    routines := some [⟨"", off, size⟩] }

theorem routine_at_the_end_is_contained :
    (lone 4 4).codeBytes.length < 2 ^ 63 ∧ (lone 4 4).Contained := by
  refine ⟨by decide, (contained_iff_accepted (by decide)).mpr ⟨by decide, ?_⟩⟩
  decide

/-- A record of the version, the code and one routine, of which only the size is given. -/
def backwards : Bytes :=
  [0xa3, 0x67, 0x76, 0x65, 0x72, 0x73, 0x69, 0x6f, 0x6e, 0x01,
   0x64, 0x63, 0x6f, 0x64, 0x65, 0x48, 0x13, 0x00, 0x00, 0x00, 0x67, 0x80, 0x00, 0x00,
   0x68, 0x72, 0x6f, 0x75, 0x74, 0x69, 0x6e, 0x65, 0x73, 0x81,
   0xa1, 0x64, 0x73, 0x69, 0x7a, 0x65, 0x23]

/-- A size that is negative is accepted, and so is one whose sum with the offset wraps around. -/
theorem overrunning_routines_are_accepted :
    decode backwards = .ok (lone 0 (-4)) ∧ ¬(lone 0 (-4)).Contained ∧
      (lone 4 0x7fffffffffffffff).problem? = none ∧ ¬(lone 4 0x7fffffffffffffff).Contained := by
  refine ⟨by cbv, fun contained => ?_, by decide, fun contained => ?_⟩
  · exact absurd (contained.sizes ⟨"", 0, -4⟩ (by decide)) (by decide)
  · exact absurd (contained.ends ⟨"", 4, 0x7fffffffffffffff⟩ (by decide)) (by decide)

end Image
end EntryCode
