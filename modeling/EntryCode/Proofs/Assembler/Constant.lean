import EntryCode.Machine.Basic
import EntryCode.Proofs.Assembler.Operation

/-!
The plans for constants. Whatever the register held before, the steps of a plan leave the constant
in it; every step has a word, and the plans are short.
-/

namespace EntryCode.Constant

def Step.apply (a : Dword) : Step → Dword
  | .start imm => imm
  | .add imm => a + imm
  | .shift amount => a <<< amount
  | .upper imm => Machine.sext 32 (imm <<< 12)
  | .addWord imm => Machine.sext 32 (a + imm)
  | .complement => a ^^^ -1

def Plan.value (p : Plan) (a : Dword) : Dword :=
  p.foldl Step.apply a

/-- Whether the operand of a step can be put in its word. -/
def Step.Fits : Step → Prop
  | .start imm | .add imm | .addWord imm => Field.fitsSigned imm 12 = true
  | .shift amount => amount < 64
  | .upper imm => Field.fitsUnsigned imm 20 = true
  | .complement => True

section Chunks

/-- Chunks that lie one below the other, the first one just below bit `top`. -/
def Stacked : Nat → List (Nat × Nat) → Prop
  | top, [] => top = 0
  | top, (pos, width) :: more => pos + width = top ∧ 0 < width ∧ width ≤ 11 ∧ Stacked pos more

variable (u : Dword)

theorem chunk_to_nat (pos width : Nat) (narrow : width ≤ 11) :
    (chunk u pos width).toNat = (u >>> pos).toNat % 2 ^ width := by
  have small : 2 ^ width ≤ 2 ^ 11 := Nat.pow_le_pow_right (by omega) narrow
  have positive : 0 < 2 ^ width := Nat.two_pow_pos width
  have mask : ((1#64 <<< width) - 1).toNat = 2 ^ width - 1 := by
    have power : (1#64 <<< width).toNat = 2 ^ width := by
      rw [BitVec.toNat_shiftLeft, BitVec.toNat_ofNat, Nat.shiftLeft_eq]
      omega
    rw [BitVec.toNat_sub_of_le (by rw [BitVec.le_def, power]; exact positive), power]
    rfl
  rw [chunk, BitVec.toNat_and, mask, Nat.and_two_pow_sub_one_eq_mod]

theorem fits_chunk (pos width : Nat) (narrow : width ≤ 11) :
    Field.fitsSigned (chunk u pos width) 12 = true := by
  have small : 2 ^ width ≤ 2 ^ 11 := Nat.pow_le_pow_right (by omega) narrow
  have positive : 0 < 2 ^ width := Nat.two_pow_pos width
  have value := chunk_to_nat u pos width narrow
  have below := Nat.mod_lt (u >>> pos).toNat positive
  rw [Field.fits_signed_iff _ _ (by omega) (by omega), BitVec.toInt_eq_toNat_cond]
  omega

/-- The bits from `pos` on are those above the chunk and the chunk itself. -/
theorem join_chunk (pos width : Nat) (narrow : width ≤ 11) :
    (u >>> (pos + width)) <<< width + chunk u pos width = u >>> pos := by
  apply BitVec.eq_of_toNat_eq
  have value := chunk_to_nat u pos width narrow
  have split := Nat.div_add_mod (u >>> pos).toNat (2 ^ width)
  have bound := (u >>> pos).isLt
  have high : ((u >>> (pos + width)) <<< width).toNat =
      2 ^ width * ((u >>> pos).toNat / 2 ^ width) := by
    rw [BitVec.shiftRight_add, BitVec.toNat_shiftLeft, BitVec.toNat_ushiftRight (u >>> pos),
      Nat.shiftLeft_eq, Nat.shiftRight_eq_div_pow, Nat.mul_comm]
    exact Nat.mod_eq_of_lt (by omega)
  rw [BitVec.toNat_add, high, value, split]
  exact Nat.mod_eq_of_lt bound

section Equations
variable (pending pos width : Nat) (more : List (Nat × Nat))

theorem rest_empty (empty : chunk u pos width = 0#64) :
    rest u pending ((pos, width) :: more) = rest u (pending + width) more := if_pos empty

theorem rest_part (part : chunk u pos width ≠ 0#64) :
    rest u pending ((pos, width) :: more) =
      .shift (pending + width) :: .add (chunk u pos width) :: rest u 0 more := if_neg part

theorem from_first_empty (empty : chunk u pos width = 0#64) :
    fromFirst u ((pos, width) :: more) = fromFirst u more := if_pos empty

theorem from_first_part (part : chunk u pos width ≠ 0#64) :
    fromFirst u ((pos, width) :: more) = .start (chunk u pos width) :: rest u 0 more :=
  if_neg part

end Equations

/-- The register holds the bits from `top` on, but for a shift that is still pending. -/
theorem rest_value (top pending : Nat) (more : List (Nat × Nat)) (stacked : Stacked top more)
    (a : Dword) (reached : a <<< pending = u >>> top) :
    Plan.value (rest u pending more) a = u := by
  induction more generalizing top pending a with
  | nil =>
      cases stacked
      rw [BitVec.ushiftRight_zero] at reached
      by_cases settled : pending = 0
      · subst settled
        simpa [rest, Plan.value] using reached
      · simpa [rest, settled, Plan.value, Step.apply] using reached
  | cons head more ih =>
      obtain ⟨pos, width⟩ := head
      obtain ⟨rfl, positive, narrow, stacked⟩ := stacked
      have shifted : a <<< (pending + width) + chunk u pos width = u >>> pos := by
        rw [BitVec.shiftLeft_add, reached, join_chunk u pos width narrow]
      by_cases empty : chunk u pos width = 0#64
      · rw [rest_empty u _ _ _ _ empty]
        rw [empty, BitVec.add_zero] at shifted
        exact ih pos (pending + width) stacked a shifted
      · rw [rest_part u _ _ _ _ empty]
        refine ih pos 0 stacked _ ?_
        simpa [Step.apply] using shifted

theorem from_first_value (top : Nat) (cs : List (Nat × Nat)) (stacked : Stacked top cs)
    (bounded : u >>> top = 0#64) (nonzero : u ≠ 0#64) (a : Dword) :
    Plan.value (fromFirst u cs) a = u := by
  induction cs generalizing top with
  | nil =>
      cases stacked
      rw [BitVec.ushiftRight_zero] at bounded
      exact absurd bounded nonzero
  | cons head more ih =>
      obtain ⟨pos, width⟩ := head
      obtain ⟨rfl, positive, narrow, stacked⟩ := stacked
      have joined := join_chunk u pos width narrow
      rw [bounded, BitVec.zero_shiftLeft, BitVec.zero_add] at joined
      by_cases empty : chunk u pos width = 0#64
      · rw [from_first_empty u _ _ _ empty]
        exact ih pos stacked (joined.symm.trans empty)
      · rw [from_first_part u _ _ _ empty]
        refine rest_value u pos 0 more stacked _ ?_
        simpa [Step.apply] using joined

theorem chunks_stacked : ∃ top, Stacked top (chunks u) ∧ u >>> top = 0#64 ∧ top ≤ 64 := by
  by_cases narrow : u >>> 32 = 0#64
  · refine ⟨32, ?_, narrow, by omega⟩
    simp [chunks, narrow, Stacked]
  · refine ⟨64, ?_, BitVec.ushiftRight_eq_zero (by omega), by omega⟩
    simp [chunks, narrow, Stacked]

theorem chunked_value (nonzero : u ≠ 0#64) (a : Dword) : Plan.value (chunked u) a = u := by
  obtain ⟨top, stacked, bounded, -⟩ := chunks_stacked u
  exact from_first_value u top (chunks u) stacked bounded nonzero a

theorem rest_fits (top pending : Nat) (more : List (Nat × Nat)) (stacked : Stacked top more)
    (short : pending + top < 64) : ∀ s ∈ rest u pending more, s.Fits := by
  induction more generalizing top pending with
  | nil =>
      cases stacked
      by_cases settled : pending = 0 <;> simp [rest, settled, Step.Fits]
      omega
  | cons head more ih =>
      obtain ⟨pos, width⟩ := head
      obtain ⟨rfl, positive, narrow, stacked⟩ := stacked
      by_cases empty : chunk u pos width = 0#64
      · rw [rest_empty u _ _ _ _ empty]
        exact ih pos (pending + width) stacked (by omega)
      · rw [rest_part u _ _ _ _ empty, List.forall_mem_cons, List.forall_mem_cons]
        refine ⟨?_, fits_chunk u pos width narrow, ih pos 0 stacked (by omega)⟩
        simp only [Step.Fits]
        omega

theorem from_first_fits (top : Nat) (cs : List (Nat × Nat)) (stacked : Stacked top cs)
    (short : top ≤ 64) : ∀ s ∈ fromFirst u cs, s.Fits := by
  induction cs generalizing top with
  | nil => simp [fromFirst]
  | cons head more ih =>
      obtain ⟨pos, width⟩ := head
      obtain ⟨rfl, positive, narrow, stacked⟩ := stacked
      by_cases empty : chunk u pos width = 0#64
      · rw [from_first_empty u _ _ _ empty]
        exact ih pos stacked (by omega)
      · rw [from_first_part u _ _ _ empty, List.forall_mem_cons]
        exact ⟨fits_chunk u pos width narrow, rest_fits u pos 0 more stacked (by omega)⟩

theorem rest_length (pending : Nat) (more : List (Nat × Nat)) :
    (rest u pending more).length ≤ 2 * more.length + if pending = 0 then 0 else 1 := by
  induction more generalizing pending with
  | nil => by_cases settled : pending = 0 <;> simp [rest, settled]
  | cons head more ih =>
      obtain ⟨pos, width⟩ := head
      by_cases empty : chunk u pos width = 0#64
      · have later := ih (pending + width)
        rw [rest_empty u _ _ _ _ empty, List.length_cons]
        split at later <;> omega
      · have later := ih 0
        rw [rest_part u _ _ _ _ empty, List.length_cons, List.length_cons, List.length_cons]
        simp only [if_true] at later
        omega

theorem from_first_length (cs : List (Nat × Nat)) :
    (fromFirst u cs).length ≤ 2 * cs.length - 1 := by
  induction cs with
  | nil => simp [fromFirst]
  | cons head more ih =>
      obtain ⟨pos, width⟩ := head
      by_cases empty : chunk u pos width = 0#64
      · rw [from_first_empty u _ _ _ empty, List.length_cons]
        omega
      · have later := rest_length u 0 more
        rw [from_first_part u _ _ _ empty, List.length_cons, List.length_cons]
        simp only [if_true] at later
        omega

theorem chunked_length : (chunked u).length ≤ 11 := by
  have bound := from_first_length u (chunks u)
  have count : (chunks u).length ≤ 6 := by
    by_cases narrow : u >>> 32 = 0#64 <;> simp [chunks, narrow]
  rw [chunked]
  omega

end Chunks

section Upper

theorem low_sext (v : Dword) : (Machine.sext 32 v).setWidth 32 = v.setWidth 32 := by
  apply BitVec.eq_of_getLsbD_eq
  intro i inside
  grind [Machine.sext]

theorem sext_fits (v : Dword) (fits : Field.fitsSigned v 32 = true) : Machine.sext 32 v = v :=
  Field.sign_extend_low v 32 (by omega) (by omega) fits

/-- Only the low half of a word counts for what is extended from it. -/
theorem sext_congr {v w : Dword} (same : v.setWidth 32 = w.setWidth 32) :
    Machine.sext 32 v = Machine.sext 32 w := by
  rw [Machine.sext, same, Machine.sext]

variable (v : Dword)

theorem mask_upper (high : Dword) : (high &&& 0xfffff).toNat = high.toNat % 2 ^ 20 := by
  rw [BitVec.toNat_and]
  exact Nat.and_two_pow_sub_one_eq_mod high.toNat 20

theorem upper_low (high : Dword) :
    (Machine.sext 32 ((high &&& 0xfffff) <<< 12)).setWidth 32 = (high <<< 12).setWidth 32 := by
  rw [low_sext]
  apply BitVec.eq_of_toNat_eq
  rw [BitVec.toNat_setWidth, BitVec.toNat_setWidth, BitVec.toNat_shiftLeft,
    BitVec.toNat_shiftLeft, mask_upper, Nat.shiftLeft_eq, Nat.shiftLeft_eq]
  omega

/-- The upper part, rounded so that the rest is a short signed number. -/
def upperPart : Dword := (v + 0x800).sshiftRight 12

def lowerPart : Dword := v - upperPart v <<< 12

theorem upper_first_eq :
    upperFirst v = .upper (upperPart v &&& 0xfffff) ::
      if lowerPart v = 0 then [] else [.addWord (lowerPart v)] := rfl

/-- The two parts make up the value, with a carry where the lower one is negative. -/
theorem upper_first_value (fits : Field.fitsSigned v 32 = true) (a : Dword) :
    Plan.value (upperFirst v) a = v := by
  have joined : Machine.sext 32 (Machine.sext 32 ((upperPart v &&& 0xfffff) <<< 12) +
      lowerPart v) = v := by
    calc
      _ = Machine.sext 32 v := by
        apply sext_congr
        rw [BitVec.setWidth_add _ _ (by omega), upper_low, ← BitVec.setWidth_add _ _ (by omega),
          lowerPart, BitVec.add_comm, BitVec.sub_add_cancel]
      _ = v := sext_fits v fits
  rw [upper_first_eq]
  split
  · rename_i whole
    have bare : Machine.sext 32 (Machine.sext 32 ((upperPart v &&& 0xfffff) <<< 12)) = v := by
      simpa [whole] using joined
    exact (sext_congr (low_sext _)).symm.trans bare
  · exact joined

theorem lower_part_to_int (fits : Field.fitsSigned v 32 = true) :
    (lowerPart v).toInt = v.toInt - (v.toInt + 2048) / 4096 * 4096 := by
  obtain ⟨least, greatest⟩ := (Field.fits_signed_iff v 32 (by omega) (by omega)).mp fits
  have raised : (v + 0x800).toInt = v.toInt + 2048 := by
    rw [BitVec.toInt_add, show (0x800 : Dword).toInt = 2048 from rfl]
    exact Int.bmod_eq_of_le (by omega) (by omega)
  have upper : (upperPart v).toInt = (v.toInt + 2048) / 4096 := by
    rw [upperPart, BitVec.toInt_sshiftRight, raised, Int.shiftRight_eq_div_pow]
    rfl
  have scaled : (upperPart v <<< 12).toInt = (v.toInt + 2048) / 4096 * 4096 := by
    rw [BitVec.shiftLeft_eq_mul_twoPow, BitVec.toInt_mul, upper,
      show (BitVec.twoPow 64 12).toInt = 4096 from rfl]
    exact Int.bmod_eq_of_le (by omega) (by omega)
  rw [lowerPart, BitVec.toInt_sub, scaled]
  exact Int.bmod_eq_of_le (by omega) (by omega)

theorem upper_first_fits (fits : Field.fitsSigned v 32 = true) :
    ∀ s ∈ upperFirst v, s.Fits := by
  have upper : Field.fitsUnsigned (upperPart v &&& 0xfffff) 20 = true := by
    apply Field.fits_unsigned_of_lt _ _ (by omega) (by omega)
    rw [mask_upper]
    exact Nat.mod_lt _ (by omega)
  have lower : Field.fitsSigned (lowerPart v) 12 = true := by
    rw [Field.fits_signed_iff _ _ (by omega) (by omega), lower_part_to_int v fits]
    omega
  rw [upper_first_eq, List.forall_mem_cons]
  refine ⟨upper, ?_⟩
  split <;> simp [Step.Fits, lower]

theorem upper_first_length : (upperFirst v).length ≤ 2 := by
  rw [upper_first_eq]
  split <;> simp

end Upper

section Plans
variable (v : Dword)

theorem nonzero_of_wide (wide : ¬Field.fitsSigned v 12 = true) : v ≠ 0#64 := by
  rintro rfl
  exact wide rfl

theorem direct_value (a : Dword) : Plan.value (direct v) a = v := by
  rw [direct]
  split
  · rfl
  · rename_i wide
    split
    · rename_i fits
      rw [shorter]
      split
      · exact upper_first_value v fits a
      · exact chunked_value v (nonzero_of_wide v wide) a
    · exact chunked_value v (nonzero_of_wide v wide) a

theorem direct_fits : ∀ s ∈ direct v, s.Fits := by
  obtain ⟨top, stacked, -, short⟩ := chunks_stacked v
  have chunked := from_first_fits v top (chunks v) stacked short
  rw [direct]
  split
  · rename_i fits
    simpa [Step.Fits] using fits
  · split
    · rename_i fits
      rw [shorter]
      split
      · exact upper_first_fits v fits
      · exact chunked
    · exact chunked

theorem plan_value (a : Dword) : Plan.value (plan v) a = v := by
  have complemented : Plan.value (direct (~~~v) ++ [Step.complement]) a = v := by
    rw [Plan.value, List.foldl_append]
    show (Plan.value (direct (~~~v)) a) ^^^ BitVec.allOnes 64 = v
    rw [direct_value, BitVec.xor_allOnes, BitVec.not_not]
  rw [plan]
  split
  · exact direct_value v a
  · rw [shorter]
    split
    · exact complemented
    · exact direct_value v a

theorem plan_fits : ∀ s ∈ plan v, s.Fits := by
  rw [plan]
  split
  · exact direct_fits v
  · rw [shorter]
    split
    · intro s member
      rcases List.mem_append.mp member with earlier | last
      · exact direct_fits (~~~v) s earlier
      · rw [List.mem_singleton.mp last]
        trivial
    · exact direct_fits v

theorem shorter_length (p q : Plan) : (shorter p q).length ≤ p.length ∧
    (shorter p q).length ≤ q.length := by
  rw [shorter]
  split <;> omega

theorem length_le_direct : length v ≤ (direct v).length := by
  rw [length, plan]
  split
  · exact Nat.le_refl _
  · exact (shorter_length _ _).1

theorem length_short (fits : Field.fitsSigned v 12 = true) : length v = 1 := by
  simp [length, plan, direct, fits]

theorem length_word (fits : Field.fitsSigned v 32 = true) : length v ≤ 2 := by
  refine (length_le_direct v).trans ?_
  rw [direct]
  split
  · simp
  · exact (shorter_length _ _).2.trans (upper_first_length v)

theorem length_bound : length v ≤ 11 := by
  refine (length_le_direct v).trans ?_
  rw [direct]
  split
  · simp
  · split
    · exact (shorter_length _ _).1.trans (chunked_length v)
    · exact chunked_length v

end Plans

section Steps
variable {rd : Register} (s : Step)

theorem Step.available (e : Extensions) : (s.instruction rd).Available e := by
  cases s <;> simp [Step.instruction, Instruction.Available, Instruction.requirement?]

theorem Step.encodable (valid : rd.isValid = true) (fits : s.Fits) :
    (s.instruction rd).Encodable := by
  have zero : Register.zero.isValid = true := rfl
  cases s with
  | start imm => exact ⟨valid, zero, fits⟩
  | add imm => exact ⟨valid, valid, fits⟩
  | shift amount =>
      refine ⟨valid, valid, ?_⟩
      rw [BitVec.toNat_ofNat]
      have : amount < 64 := fits
      omega
  | upper imm => exact ⟨valid, .inr fits⟩
  | addWord imm => exact ⟨valid, valid, fits⟩
  | complement => exact ⟨valid, valid, rfl⟩

end Steps

def instructions (rd : Register) (v : Dword) : List Instruction :=
  (plan v).map (Step.instruction rd)

variable (rd : Register) (v : Dword)

theorem load_ok (writable : rd ≠ .zero) : load rd v = .ok (instructions rd v) :=
  if_neg writable

theorem length_instructions : (instructions rd v).length = length v := by
  rw [instructions, List.length_map, length]

theorem instructions_fine (valid : rd.isValid = true) (e : Extensions) :
    ∀ i ∈ instructions rd v, i.Encodable ∧ i.Available e := by
  intro i member
  obtain ⟨s, inside, rfl⟩ := List.mem_map.mp member
  exact ⟨s.encodable valid (plan_fits v s inside), s.available e⟩

end EntryCode.Constant
