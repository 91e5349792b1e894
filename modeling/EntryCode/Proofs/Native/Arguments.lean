import EntryCode.Native.Handler
import EntryCode.Proofs.Isa.Encoding
import EntryCode.Proofs.Machine.Memory
import Mathlib

/-!
Where the calling convention puts arguments, in closed form. Two counts settle it: how many
arguments before went to floating-point registers, and how many did not; the second goes on past
the integer registers to the words of the stack.
-/

namespace EntryCode.Handler

/-- The argument registers and stack words that are left after `q` of the integer registers and
stack words and `j` of the floating-point registers. -/
def counted (q j : Nat) : Assignment :=
  { integers := Register.arguments.drop q
    floats := FloatRegister.arguments.drop j
    stack := (q - 8) * Frame.wordSize }

def takesFloat (t : BasicType) (j : Nat) : Bool :=
  t.isFloating && decide (j < 8)

/-- The next place after `q` and `j`. -/
def spot (t : BasicType) (q j : Nat) : Location :=
  if takesFloat t j then .float ⟨BitVec.ofNat 8 (10 + j)⟩
  else if q < 8 then .integer ⟨BitVec.ofNat 8 (10 + q)⟩
  else .stack (BitVec.ofNat 64 ((q - 8) * Frame.wordSize))

theorem integers_counted (q : Nat) (left : q < 8) :
    Register.arguments.drop q =
      ⟨BitVec.ofNat 8 (10 + q)⟩ :: Register.arguments.drop (q + 1) := by
  interval_cases q <;> rfl

theorem floats_counted (j : Nat) (left : j < 8) :
    FloatRegister.arguments.drop j =
      ⟨BitVec.ofNat 8 (10 + j)⟩ :: FloatRegister.arguments.drop (j + 1) := by
  interval_cases j <;> rfl

theorem next_integer (q j : Nat) (floating : Bool) (full : floating = true → 8 ≤ j) :
    (counted q j).next floating =
      (if q < 8 then .integer ⟨BitVec.ofNat 8 (10 + q)⟩
        else .stack (BitVec.ofNat 64 ((q - 8) * Frame.wordSize)), counted (q + 1) j) := by
  have floats : floating = true → FloatRegister.arguments.drop j = [] := fun yes =>
    List.drop_eq_nil_of_le (full yes)
  by_cases left : q < 8
  · have stack : (q - 8) * Frame.wordSize = (q + 1 - 8) * Frame.wordSize := by
      rw [show q - 8 = q + 1 - 8 by omega]
    rw [if_pos left, counted, integers_counted q left, stack]
    cases floating with
    | false => rfl
    | true =>
        rw [floats rfl, counted, floats rfl]
        rfl
  · have used : Register.arguments.drop q = [] := List.drop_eq_nil_of_le (Nat.le_of_not_lt left)
    have spent : Register.arguments.drop (q + 1) = [] :=
      List.drop_eq_nil_of_le (by rw [show Register.arguments.length = 8 from rfl]; omega)
    have stack : (q + 1 - 8) * Frame.wordSize = (q - 8) * Frame.wordSize + Frame.wordSize := by
      rw [show q + 1 - 8 = q - 8 + 1 by omega, Nat.add_mul, Nat.one_mul]
    rw [if_neg left, counted, counted, used, spent, stack]
    cases floating with
    | false => rfl
    | true =>
        rw [floats rfl]
        rfl

theorem next_counted (t : BasicType) (q j : Nat) :
    (counted q j).next t.isFloating = (spot t q j,
      if takesFloat t j then counted q (j + 1) else counted (q + 1) j) := by
  cases takes : takesFloat t j with
  | true =>
      simp only [takesFloat, Bool.and_eq_true, decide_eq_true_eq] at takes
      obtain ⟨floating, left⟩ := takes
      simp [Assignment.next, counted, floats_counted j left, spot, takesFloat, floating, left]
  | false =>
      rw [next_integer q j _ (by
        intro floating
        simp only [takesFloat, floating, Bool.true_and, decide_eq_false_iff_not] at takes
        omega), spot, takes]
      rfl

/-- The slots of the arguments before number `k`. -/
def slotsBefore (ts : List BasicType) (k : Nat) : Nat :=
  ((ts.take k).map BasicType.slots).sum

/-- The floating arguments before number `k`. -/
def floatsBefore (ts : List BasicType) (k : Nat) : Nat :=
  (ts.take k).countP BasicType.isFloating

/-- The offset of the local that holds a value from local `slot` on. -/
def localOffset (t : BasicType) (slot : Nat) : Dword :=
  -BitVec.ofNat 64 ((if t.slots = 2 then slot + 1 else slot) * Frame.wordSize)

theorem arguments_cons (slot q j : Nat) (t : BasicType) (rest : List BasicType) :
    arguments slot (counted q j) (t :: rest) = ⟨t, localOffset t slot, spot t q j⟩ ::
      if takesFloat t j then arguments (slot + t.slots) (counted q (j + 1)) rest
      else arguments (slot + t.slots) (counted (q + 1) j) rest := by
  rw [arguments, next_counted]
  cases takesFloat t j with
  | true => rfl
  | false => rfl

/-- Argument `k` in closed form. -/
theorem arguments_get (ts : List BasicType) (slot q j k : Nat) (bound : j ≤ 8) (t : BasicType)
    (found : ts[k]? = some t) :
    (arguments slot (counted q j) ts)[k]? = some ⟨t, localOffset t (slot + slotsBefore ts k),
      spot t (q + (k - (min (j + floatsBefore ts k) 8 - j))) (min (j + floatsBefore ts k) 8)⟩ := by
  induction ts generalizing slot q j k with
  | nil => simp at found
  | cons head rest ih =>
      rw [arguments_cons]
      cases k with
      | zero =>
          cases found
          simp [slotsBefore, floatsBefore, bound]
      | succ k =>
          rw [List.getElem?_cons_succ] at found ⊢
          have slots : slot + head.slots + slotsBefore rest k =
              slot + slotsBefore (head :: rest) (k + 1) := by
            simp [slotsBefore, Nat.add_assoc]
          have enough : floatsBefore rest k ≤ k := by
            exact List.countP_le_length.trans (List.length_take_le k rest)
          cases takes : takesFloat head j with
          | true =>
              have takes' := takes
              simp only [takesFloat, Bool.and_eq_true, decide_eq_true_eq] at takes'
              have floats : floatsBefore (head :: rest) (k + 1) = floatsBefore rest k + 1 := by
                simp [floatsBefore, takes'.1]
              rw [if_pos rfl, ih _ _ _ k (by omega) found, slots, floats]
              congr 3 <;> omega
          | false =>
              rw [if_neg (by simp), ih _ _ _ k bound found, slots]
              cases floating : head.isFloating with
              | true =>
                  -- A floating argument takes an integer place only once all float registers are
                  -- taken.
                  have full : j = 8 := by
                    simp only [takesFloat, floating, Bool.true_and, decide_eq_false_iff_not]
                      at takes
                    omega
                  have floats : floatsBefore (head :: rest) (k + 1) = floatsBefore rest k + 1 := by
                    simp [floatsBefore, floating]
                  rw [floats]
                  congr 3 <;> omega
              | false =>
                  have floats : floatsBefore (head :: rest) (k + 1) = floatsBefore rest k := by
                    simp [floatsBefore, floating]
                  rw [floats]
                  congr 3
                  omega

/-- The integer registers and stack words that are used after `ts`. -/
def taken (q j : Nat) (ts : List BasicType) : Nat :=
  q + ts.length - (min (j + ts.countP BasicType.isFloating) 8 - j)

theorem taken_cons (q j : Nat) (t : BasicType) (rest : List BasicType) (bound : j ≤ 8) :
    taken q j (t :: rest) =
      if takesFloat t j then taken q (j + 1) rest else taken (q + 1) j rest := by
  have enough := List.countP_le_length (p := BasicType.isFloating) (l := rest)
  cases floating : t.isFloating with
  | false =>
      simp only [taken, takesFloat, List.length_cons, List.countP_cons, floating,
        Bool.false_and, Bool.false_eq_true, if_false]
      omega
  | true =>
      by_cases left : j < 8
      · simp only [taken, takesFloat, List.length_cons, List.countP_cons, floating, left,
          Bool.true_and, decide_true, if_true]
        omega
      · simp only [taken, takesFloat, List.length_cons, List.countP_cons, floating, left,
          Bool.true_and, decide_false, Bool.false_eq_true, if_false, if_true]
        omega

theorem le_taken (q j : Nat) (ts : List BasicType) : q ≤ taken q j ts := by
  have enough := List.countP_le_length (p := BasicType.isFloating) (l := ts)
  rw [taken]
  omega

/-- A place among those from `q` and `j` on, of which `last` bounds the first kind. -/
def Location.From (q j last : Nat) : Location → Prop
  | .integer r => ∃ i, q ≤ i ∧ i < 8 ∧ r = ⟨BitVec.ofNat 8 (10 + i)⟩
  | .float f => ∃ i, j ≤ i ∧ i < 8 ∧ f = ⟨BitVec.ofNat 8 (10 + i)⟩
  | .stack off =>
    ∃ i, q ≤ i ∧ 8 ≤ i ∧ i < last ∧ off = BitVec.ofNat 64 ((i - 8) * Frame.wordSize)

theorem Location.From.mono {q j q' j' last : Nat} {l : Location} (later : l.From q' j' last)
    (integers : q ≤ q') (floats : j ≤ j') : l.From q j last := by
  cases l with
  | integer r =>
      obtain ⟨i, low, rest⟩ := later
      exact ⟨i, by omega, rest⟩
  | float f =>
      obtain ⟨i, low, rest⟩ := later
      exact ⟨i, by omega, rest⟩
  | stack off =>
      obtain ⟨i, low, rest⟩ := later
      exact ⟨i, by omega, rest⟩

theorem spot_from (t : BasicType) (q j last : Nat)
    (bound : takesFloat t j = false → q < last) : (spot t q j).From q j last := by
  cases takes : takesFloat t j with
  | true =>
      simp only [spot, takes, if_true]
      simp only [takesFloat, Bool.and_eq_true, decide_eq_true_eq] at takes
      exact ⟨j, le_rfl, takes.2, rfl⟩
  | false =>
      by_cases left : q < 8
      · simp only [spot, takes, left, if_true, Bool.false_eq_true, if_false]
        exact ⟨q, le_rfl, left, rfl⟩
      · simp only [spot, takes, left, Bool.false_eq_true, if_false]
        exact ⟨q, le_rfl, by omega, bound takes, rfl⟩

theorem arguments_from (slot q j : Nat) (ts : List BasicType) (bound : j ≤ 8) :
    ∀ a ∈ arguments slot (counted q j) ts, a.location.From q j (taken q j ts) := by
  induction ts generalizing slot q j with
  | nil => simp [arguments]
  | cons t rest ih =>
      rw [arguments_cons, List.forall_mem_cons, taken_cons q j t rest bound]
      refine ⟨spot_from t q j _ fun takes => ?_, ?_⟩
      · rw [takes]
        exact le_taken (q + 1) j rest
      · cases takes : takesFloat t j with
        | true =>
            simp only [takesFloat, Bool.and_eq_true, decide_eq_true_eq] at takes
            intro a member
            exact (ih _ _ _ (by omega) a member).mono le_rfl (by omega)
        | false =>
            intro a member
            exact (ih _ _ _ bound a member).mono (by omega) le_rfl

/-- Whether two places have nothing in common. -/
def Location.Apart : Location → Location → Prop
  | .integer r, .integer s => r.code ≠ s.code
  | .float f, .float g => f.code ≠ g.code
  | .stack o, .stack o' => Memory.Apart o Frame.wordSize o' Frame.wordSize
  | _, _ => True

theorem numbers_apart : ∀ i < 8, ∀ k < 8, i ≠ k →
    (BitVec.ofNat 8 (10 + i)).setWidth 5 ≠ (BitVec.ofNat 8 (10 + k)).setWidth 5 := by
  decide

theorem words_apart (i k : Nat) (apart : i < k) (short : (k + 1) * Frame.wordSize ≤ 2 ^ 64) :
    Memory.Apart (BitVec.ofNat 64 (i * Frame.wordSize)) Frame.wordSize
      (BitVec.ofNat 64 (k * Frame.wordSize)) Frame.wordSize := by
  simp only [Frame.wordSize] at short ⊢
  constructor
  · rw [BitVec.toNat_sub, BitVec.toNat_ofNat, BitVec.toNat_ofNat]
    omega
  · rw [BitVec.toNat_sub, BitVec.toNat_ofNat, BitVec.toNat_ofNat]
    omega

/-- The next place has nothing in common with those after it. -/
theorem spot_apart (t : BasicType) (q j last : Nat) (l : Location)
    (short : (last - 8) * Frame.wordSize ≤ 2 ^ 64)
    (later : if takesFloat t j then l.From q (j + 1) last else l.From (q + 1) j last) :
    (spot t q j).Apart l := by
  cases takes : takesFloat t j with
  | true =>
      simp only [takes, if_true] at later
      simp only [spot, takes, if_true]
      simp only [takesFloat, Bool.and_eq_true, decide_eq_true_eq] at takes
      cases l with
      | float f =>
          obtain ⟨i, low, high, rfl⟩ := later
          exact numbers_apart j takes.2 i high (by omega)
      | integer | stack => trivial
  | false =>
      simp only [takes, Bool.false_eq_true, if_false] at later
      by_cases left : q < 8
      · simp only [spot, takes, left, if_true, Bool.false_eq_true, if_false]
        cases l with
        | integer r =>
            obtain ⟨i, low, high, rfl⟩ := later
            exact numbers_apart q left i high (by omega)
        | float | stack => trivial
      · simp only [spot, takes, left, Bool.false_eq_true, if_false]
        cases l with
        | stack off =>
            obtain ⟨i, low, -, high, rfl⟩ := later
            refine words_apart _ _ (by omega) ?_
            simp only [Frame.wordSize] at short ⊢
            omega
        | integer | float => trivial

theorem arguments_apart (slot q j : Nat) (ts : List BasicType) (bound : j ≤ 8)
    (short : (taken q j ts - 8) * Frame.wordSize ≤ 2 ^ 64) :
    (arguments slot (counted q j) ts).Pairwise fun a b => a.location.Apart b.location := by
  induction ts generalizing slot q j with
  | nil => simp [arguments]
  | cons t rest ih =>
      rw [taken_cons q j t rest bound] at short
      rw [arguments_cons, List.pairwise_cons]
      cases takes : takesFloat t j with
      | true =>
          have left : j < 8 := by
            simp only [takesFloat, Bool.and_eq_true, decide_eq_true_eq] at takes
            exact takes.2
          rw [takes, if_pos rfl] at short
          refine ⟨fun b member => ?_, ih _ _ _ (by omega) short⟩
          refine spot_apart t q j _ _ short ?_
          rw [takes, if_pos rfl]
          exact arguments_from _ _ _ rest (by omega) b member
      | false =>
          rw [takes, if_neg (by simp)] at short
          refine ⟨fun b member => ?_, ih _ _ _ bound short⟩
          refine spot_apart t q j _ _ short ?_
          rw [takes, if_neg (by simp)]
          exact arguments_from _ _ _ rest bound b member

/-- The local of an argument is one of those of the arguments. -/
theorem arguments_local (slot : Nat) (as : Assignment) (ts : List BasicType)
    (values : ∀ t ∈ ts, t ≠ .void) : ∀ a ∈ arguments slot as ts, ∃ i,
      i < slot + (ts.map BasicType.slots).sum ∧
        a.offset = -BitVec.ofNat 64 (i * Frame.wordSize) := by
  induction ts generalizing slot as with
  | nil => simp [arguments]
  | cons t rest ih =>
      rw [List.forall_mem_cons] at values
      rw [arguments, List.forall_mem_cons, List.map_cons, List.sum_cons]
      constructor
      · refine ⟨_, ?_, rfl⟩
        have some : 0 < t.slots := by
          cases t with
          | void => exact absurd rfl values.1
          | _ => decide
        split <;> omega
      · intro a member
        obtain ⟨i, inside, offset⟩ := ih _ _ values.2 a member
        exact ⟨i, by omega, offset⟩

end EntryCode.Handler
