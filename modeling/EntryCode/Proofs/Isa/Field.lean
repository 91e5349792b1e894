import EntryCode.Isa.Field
import Mathlib

/-!
Fields hold ranges of integers. The range tests are compared with these ranges at every width, and
writing a value into a field and reading it back are inverse to each other.
-/

namespace EntryCode.Field

/-- The integers that `w` bits hold in two's complement. No bits hold none. -/
def Signed (w : Nat) (z : Int) : Prop :=
  0 < w ∧ -(2 : Int) ^ (w - 1) ≤ z ∧ z < 2 ^ (w - 1)

/-- The integers that `w` bits hold without a sign. No bits hold none. -/
def Unsigned (w : Nat) (z : Int) : Prop :=
  0 < w ∧ 0 ≤ z ∧ z < 2 ^ w

section Ranges

theorem power_shift (n : Nat) (bound : n < 63) : (1#64 <<< n).toInt = 2 ^ n := by
  have small : 2 ^ n < 2 ^ 63 := Nat.pow_lt_pow_right (by omega) bound
  have value : (1#64 <<< n).toNat = 2 ^ n := by
    rw [BitVec.toNat_shiftLeft, BitVec.toNat_ofNat, Nat.shiftLeft_eq]
    omega
  rw [BitVec.toInt_eq_toNat_of_lt (by omega), value]
  norm_cast

theorem fits_signed_iff (v : Dword) (w : Nat) (positive : 0 < w) (short : w ≤ 64) :
    fitsSigned v w = true ↔ -(2 : Int) ^ (w - 1) ≤ v.toInt ∧ v.toInt < 2 ^ (w - 1) := by
  have nonzero : w ≠ 0 := by omega
  by_cases full : 64 ≤ w
  · have same : w = 64 := by omega
    subst same
    have low := BitVec.le_toInt v
    have high := BitVec.toInt_lt (x := v)
    simp only [fitsSigned]
    grind
  · have small : (2 : Int) ^ (w - 1) ≤ 2 ^ 62 := by
      exact_mod_cast Nat.pow_le_pow_right (by omega) (by omega : w - 1 ≤ 62)
    have positive : (0 : Int) < 2 ^ (w - 1) := by positivity
    have top := power_shift (w - 1) (by omega)
    have least : (-(1#64 <<< (w - 1))).toInt = -2 ^ (w - 1) := by
      rw [BitVec.toInt_neg, top, Int.bmod_eq_of_le (by omega) (by omega)]
    have greatest : ((1#64 <<< (w - 1)) - 1).toInt = 2 ^ (w - 1) - 1 := by
      rw [BitVec.toInt_sub, top, Int.bmod_eq_of_le (by simp; omega) (by simp; omega)]
      rfl
    simp only [fitsSigned, nonzero, full, if_false, Bool.and_eq_true, BitVec.sle_iff_toInt_le,
      least, greatest]
    omega

theorem fits_iff_signed (v : Dword) (w : Nat) : fitsSigned v w = true ↔ Signed w v.toInt := by
  by_cases positive : 0 < w
  · by_cases short : w ≤ 64
    · rw [fits_signed_iff v w positive short]
      exact (and_iff_right positive).symm
    · -- Every doubleword lies in the range of 64 bits, hence in each wider one.
      have fits : fitsSigned v w = true := by
        rw [fitsSigned, if_neg (by omega), if_pos (by omega)]
      have wide : (2 : Int) ^ 63 ≤ 2 ^ (w - 1) := by
        exact_mod_cast Nat.pow_le_pow_right (by omega) (by omega : 63 ≤ w - 1)
      have low := v.le_toInt
      have high := v.toInt_lt
      refine iff_of_true fits ⟨positive, ?_, ?_⟩
      · omega
      · omega
  · have none : w = 0 := by omega
    subst none
    exact iff_of_false (by simp [fitsSigned]) fun range => positive range.1

theorem fits_iff_unsigned (v : Dword) (w : Nat) :
    fitsUnsigned v w = true ↔ Unsigned w v.toInt := by
  by_cases empty : v.slt 0#64 = true ∨ w = 0
  · -- Neither a negative number nor one of no bits.
    have unfit : ¬fitsUnsigned v w = true := by
      rw [fitsUnsigned, if_pos (by simpa using empty)]
      exact Bool.false_ne_true
    refine iff_of_false unfit fun range => ?_
    rcases empty with negative | none
    · exact absurd (BitVec.slt_iff_toInt_lt.mp negative) (not_lt.mpr range.2.1)
    · exact absurd none range.1.ne'
  · obtain ⟨nonnegative, nonzero⟩ := not_or.mp empty
    have low : 0 ≤ v.toInt := by
      rwa [BitVec.slt_iff_toInt_lt, BitVec.toInt_zero, not_lt] at nonnegative
    have tested : fitsUnsigned v w = if 63 ≤ w then true else v.slt (1#64 <<< w) := by
      rw [fitsUnsigned, if_neg (by simpa using empty)]
    rw [tested]
    split
    · next wide =>
        have least : (2 : Int) ^ 63 ≤ 2 ^ w := by
          exact_mod_cast Nat.pow_le_pow_right (by omega) wide
        have high := v.toInt_lt
        refine iff_of_true rfl ⟨by omega, low, ?_⟩
        omega
    · next narrow =>
        rw [BitVec.slt_iff_toInt_lt, power_shift w (by omega)]
        exact ⟨fun high => ⟨by omega, low, high⟩, fun range => range.2.2⟩

theorem fits_unsigned_of_lt (v : Dword) (w : Nat) (positive : 0 < w) (short : w < 63)
    (small : v.toNat < 2 ^ w) : fitsUnsigned v w = true := by
  have bound : 2 ^ w ≤ 2 ^ 62 := Nat.pow_le_pow_right (by omega) (by omega)
  have value : v.toInt = v.toNat := BitVec.toInt_eq_toNat_of_lt (by omega)
  rw [fits_iff_unsigned, value]
  exact ⟨positive, by omega, by exact_mod_cast small⟩

end Ranges

section Extension

theorem shift_sign (v : Dword) (w : Nat) (short : w ≤ 64) :
    (v <<< (64 - w)).sshiftRight (64 - w) = (v.setWidth w).signExtend 64 := by
  apply BitVec.eq_of_getLsbD_eq
  intro i inside
  rw [BitVec.getLsbD_sshiftRight, BitVec.getLsbD_signExtend, BitVec.msb_eq_getLsbD_last,
    BitVec.msb_eq_getLsbD_last, BitVec.getLsbD_setWidth, BitVec.getLsbD_setWidth,
    BitVec.getLsbD_shiftLeft, BitVec.getLsbD_shiftLeft]
  by_cases low : i < w
  · have back : 64 - w + i - (64 - w) = i := by omega
    simp [low, inside, back, show ¬ 64 ≤ i by omega, show 64 - w + i < 64 by omega]
  · have top : 64 - 1 - (64 - w) = w - 1 := by omega
    have sign : decide (63 < 64 - w) = !decide (0 < w) := by
      rw [← decide_not]
      exact decide_eq_decide.mpr (by omega)
    simp [low, inside, top, sign, show ¬ 64 - w + i < 64 by omega]

theorem sign_extend_eq (v : Dword) (w : Nat) (short : w ≤ 64) :
    signExtend v w = (v.setWidth w).signExtend 64 := by
  rw [signExtend, if_pos short]
  exact shift_sign v w short

theorem low_sign_extend {w : Nat} (f : BitVec w) (short : w ≤ 64) :
    (f.signExtend 64).setWidth w = f := by
  apply BitVec.eq_of_getLsbD_eq
  intro i inside
  rw [BitVec.getLsbD_setWidth, BitVec.getLsbD_signExtend, if_pos inside]
  simp [inside, show i < 64 by omega]

theorem fits_sign_extend {w : Nat} (f : BitVec w) (positive : 0 < w) (short : w ≤ 64) :
    fitsSigned (f.signExtend 64) w = true := by
  rw [fits_signed_iff _ w positive short, BitVec.toInt_signExtend_of_le short]
  exact ⟨f.le_toInt, f.toInt_lt⟩

/-- A value that fits `w` bits is what is read back from them. -/
theorem sign_extend_low (v : Dword) (w : Nat) (positive : 0 < w) (short : w ≤ 64)
    (fits : fitsSigned v w = true) : (v.setWidth w).signExtend 64 = v := by
  obtain ⟨low, high⟩ := (fits_signed_iff v w positive short).mp fits
  have double : 2 ^ w = 2 * 2 ^ (w - 1) := by
    rw [← pow_succ']
    congr
    omega
  apply BitVec.eq_of_toInt_eq
  rw [BitVec.toInt_signExtend_of_le short, ← BitVec.signExtend_eq_setWidth_of_le v short,
    BitVec.toInt_signExtend_eq_toInt_bmod_of_le v short, double]
  apply Int.bmod_eq_of_le
  · push_cast
    omega
  · push_cast
    omega

end Extension

theorem low_part (v : Dword) (w : Nat) (short : w ≤ 64) :
    ((v.setWidth w).toNat : Int) = v.toInt % 2 ^ w := by
  have divides : (2 : Int) ^ w ∣ 2 ^ 64 := pow_dvd_pow 2 short
  calc ((v.setWidth w).toNat : Int)
    _ = (v.toNat : Int) % 2 ^ w := by rw [BitVec.toNat_setWidth]; norm_cast
    _ = (v.toNat : Int) % 2 ^ 64 % 2 ^ w := (Int.emod_emod_of_dvd _ divides).symm
    _ = v.toInt % 2 ^ 64 % 2 ^ w := by
        rw [BitVec.toInt_eq_toNat_bmod, show (2 : Int) ^ 64 = (2 ^ 64 : Nat) by norm_cast,
          Int.bmod_emod]
    _ = v.toInt % 2 ^ w := Int.emod_emod_of_dvd _ divides

section Codec
variable {w : Nat} {v : Dword} {f : BitVec w}

theorem low_bits_ok_iff :
    lowBits v w = .ok f ↔ (0 < w ∧ w ≤ 32) ∧ fitsSigned v w = true ∧ f = v.setWidth w := by
  by_cases width : 0 < w ∧ w ≤ 32
  · by_cases fits : fitsSigned v w = true
    · simp [lowBits, show ¬(w = 0 ∨ 32 < w) by omega, width, fits, @eq_comm _ f]
    · simp [lowBits, show ¬(w = 0 ∨ 32 < w) by omega, fits]
  · simp [lowBits, show w = 0 ∨ 32 < w by omega, width]

theorem low_bits_range (width : 0 < w ∧ w ≤ 32) (unfit : ¬fitsSigned v w = true) :
    lowBits v w = .error (.range v w) := by
  rw [lowBits, if_neg (by omega), if_neg unfit]

end Codec

/-- Fields are exact at every width. -/
theorem fields_are_exact :
    (∀ (w : Nat) (v : Dword), 0 < w → w ≤ 32 →
      ((∃ f, lowBits v w = .ok f) ↔ Signed w v.toInt) ∧
      (∀ f, lowBits v w = .ok f →
        f.toNat < 2 ^ w ∧ (f.toNat : Int) = v.toInt % 2 ^ w ∧ signExtend (f.setWidth 64) w = v) ∧
      (¬Signed w v.toInt → lowBits v w = .error (.range v w))) ∧
    (∀ (w : Nat) (f : Dword), 0 < w → w ≤ 32 → f.toNat < 2 ^ w →
      fitsSigned (signExtend f w) w = true ∧
        ∃ g, lowBits (signExtend f w) w = .ok g ∧ g.setWidth 64 = f) ∧
    ∀ (w : Nat) (v : Dword),
      (fitsSigned v w = true ↔ Signed w v.toInt) ∧
        (fitsUnsigned v w = true ↔ Unsigned w v.toInt) := by
  refine ⟨?_, ?_, fun w v => ⟨fits_iff_signed v w, fits_iff_unsigned v w⟩⟩
  · intro w v positive short
    simp only [← fits_iff_signed]
    refine ⟨?_, ?_, low_bits_range ⟨positive, short⟩⟩
    · constructor
      · rintro ⟨f, written⟩
        exact (low_bits_ok_iff.mp written).2.1
      · intro fits
        exact ⟨v.setWidth w, low_bits_ok_iff.mpr ⟨⟨positive, short⟩, fits, rfl⟩⟩
    · intro f written
      obtain ⟨-, fits, rfl⟩ := low_bits_ok_iff.mp written
      refine ⟨BitVec.isLt _, ?_, ?_⟩
      · exact low_part v w (by omega)
      · rw [sign_extend_eq _ _ (by omega), BitVec.setWidth_setWidth_of_le _ (by omega),
          BitVec.setWidth_eq]
        exact sign_extend_low v w positive (by omega) fits
  · intro w f positive short small
    have extended := sign_extend_eq f w (by omega)
    have fits : fitsSigned (signExtend f w) w = true := by
      rw [extended]
      exact fits_sign_extend _ positive (by omega)
    refine ⟨fits, _, low_bits_ok_iff.mpr ⟨⟨positive, short⟩, fits, rfl⟩, ?_⟩
    rw [extended, low_sign_extend _ (by omega)]
    apply BitVec.eq_of_toNat_eq
    rw [BitVec.toNat_setWidth, BitVec.toNat_setWidth, Nat.mod_eq_of_lt small,
      Nat.mod_eq_of_lt f.isLt]

/-- The least number of the widest field, and the next one above the greatest. -/
theorem widest_field_is_exact :
    lowBits (-0x80000000) 32 = .ok 0x80000000#32 ∧ signExtend 0x80000000 32 = -0x80000000 ∧
      fitsSigned (signExtend 0x80000000 32) 32 = true ∧
      lowBits 0x80000000 32 = .error (.range 0x80000000 32) := by
  obtain ⟨writes, reads, -⟩ := fields_are_exact
  have written : lowBits (-0x80000000) 32 = .ok 0x80000000#32 := rfl
  obtain ⟨-, stands, -⟩ := writes 32 (-0x80000000) (by decide) (by decide)
  obtain ⟨-, -, refused⟩ := writes 32 0x80000000 (by decide) (by decide)
  have beyond : ¬Signed 32 (0x80000000 : Dword).toInt := by
    rintro ⟨-, -, high⟩
    revert high
    decide
  exact ⟨written, (stands _ written).2.2,
    (reads 32 0x80000000 (by decide) (by decide) (by decide)).1, refused beyond⟩

end EntryCode.Field
