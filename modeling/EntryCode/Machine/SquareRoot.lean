import EntryCode.Word

/-!
The square root of a double, rounded to nearest with ties to even, on the raw bits. A finite
positive double is `m * 2 ^ q`; the root of `m * 4 ^ k` for a suitable `k` has two bits more than
the result keeps, and those bits and the remainder decide the rounding.
-/

namespace EntryCode.SquareRoot

/-- The greatest number that agrees with `r` above the low `i` bits and whose square is at most
`n`, where the low bits of `r` are zero. -/
def rootBits (n : Nat) : Nat → Nat → Nat
  | 0, r => r
  | i + 1, r =>
    let c := r + (1 <<< i)
    if c * c ≤ n then rootBits n i c else rootBits n i r

/-- The integer square root of a number below `2 ^ 110`. -/
def integerRoot (n : Nat) : Nat :=
  rootBits n 55 0

/-- `r / 4` rounded to nearest, ties to even; `inexact` says that the exact value is above `r`. -/
def roundQuarter (r : Nat) (inexact : Bool) : Nat :=
  let low := r % 4
  let kept := r / 4
  if low = 3 ∨ (low = 2 ∧ (inexact ∨ kept % 2 = 1)) then kept + 1 else kept

/-- The bits of the root of `m * 2 ^ q`, for `m` not zero. -/
def finite (m : Nat) (q : Int) : Nat :=
  let odd := q % 2 = 1
  let m := if odd then 2 * m else m
  let half := (if odd then q - 1 else q) / 2
  let k := (110 - (Nat.log2 m + 1)) / 2
  let n := m <<< (2 * k)
  let r := integerRoot n
  let mantissa := roundQuarter r (r * r ≠ n)
  ((half - k + 2 + 1075).toNat) * 0x10000000000000 + (mantissa - 0x10000000000000)

/-- The bits of the root of the double with bits `b`. -/
def ofBits (b : Dword) : Dword :=
  let exponent := (b.extractLsb' 52 11).toNat
  let fraction := (b.extractLsb' 0 52).toNat
  if exponent = 2047 ∧ fraction ≠ 0 then b ||| 0x8000000000000
  else if exponent = 0 ∧ fraction = 0 then b
  else if b.getLsbD 63 then 0xfff8000000000000
  else if exponent = 2047 then b
  else if exponent = 0 then BitVec.ofNat 64 (finite fraction (-1074))
  else BitVec.ofNat 64 (finite (fraction + 0x10000000000000) (exponent - 1075))

end EntryCode.SquareRoot
