import EntryCode.Word

/-!
Numbers with a point, as the sixty-four bits of a double. A finite one is a whole number times a
power of two, and its decimal digits are found exactly from that.
-/

namespace EntryCode.Double

section Conversions

def toFloat (b : Dword) : Float :=
  Float.ofBits (UInt64.ofBitVec b)

def ofFloat (x : Float) : Dword :=
  x.toBits.toBitVec

def ofInt (i : Int) : Dword :=
  ofFloat (Float.ofInt i)

/-- The double that is nearest to a whole number times a power of ten. -/
def ofDecimal (isNegative : Bool) (digits : Nat) (scale : Int) : Dword :=
  let x := Float.ofScientific digits (scale < 0) scale.natAbs
  ofFloat (if isNegative then -x else x)

def isNegative (b : Dword) : Bool :=
  b.getLsbD 63

def exponentBits (b : Dword) : Nat :=
  (b.extractLsb' 52 11).toNat

def isFinite (b : Dword) : Bool :=
  exponentBits b < 2047

def isNumber (b : Dword) : Bool :=
  isFinite b || b.extractLsb' 0 52 = 0

/-- The size of a finite double as a whole number times a power of two. -/
def parts (b : Dword) : Nat × Int :=
  let fraction := (b.extractLsb' 0 52).toNat
  if exponentBits b = 0 then (fraction, -1074)
  else (fraction + 0x10000000000000, (exponentBits b : Int) - 1075)

def quotient (b : Dword) : Int × Nat :=
  let (m, e) := parts b
  let size : Nat × Nat := if 0 ≤ e then (m <<< e.toNat, 1) else (m, 1 <<< e.natAbs)
  (if isNegative b then -(size.1 : Int) else size.1, size.2)

/-- The whole number next to a finite double on the side of zero. -/
def truncate (b : Dword) : Int :=
  let (n, d) := quotient b
  Int.tdiv n d

def compareInt (i : Int) (b : Dword) : Ordering :=
  if isFinite b then
    let (n, d) := quotient b
    compare (i * d) n
  else if isNegative b then .gt else .lt

end Conversions

section Digits

/-- The least power of ten above a quotient, as an exponent; `n` bounds the search. -/
def magnitude (num den : Nat) : Int :=
  let guess : Int := (Nat.toDigits 10 num).length - (Nat.toDigits 10 den).length
  if below guess then guess else guess + 1
where
  below (p : Int) : Bool :=
    if 0 ≤ p then num < den * Nat.pow 10 p.toNat else num * Nat.pow 10 p.natAbs < den

/-- The first `n` digits of a quotient that is not zero, a half being rounded up, and how many of
them stand before the point. -/
def leading (n num den : Nat) : Nat × Int :=
  let p := magnitude num den
  let shift : Int := n - p
  let (a, b) :=
    if 0 ≤ shift then (num * Nat.pow 10 shift.toNat, den)
    else (num, den * Nat.pow 10 shift.natAbs)
  let rounded := (2 * a + b) / (2 * b)
  if rounded = Nat.pow 10 n then (Nat.pow 10 (n - 1), p + 1) else (rounded, p)

def trimmed (digits : List Char) : List Char :=
  (digits.reverse.dropWhile (· = '0')).reverse

/-- Digits with a point among them; zeros fill up where there are none. -/
def pointed (digits : List Char) (p : Int) : List Char × List Char :=
  if p ≤ 0 then (['0'], List.replicate p.natAbs '0' ++ digits)
  else
    let n := p.toNat
    (digits.take n ++ List.replicate (n - digits.length) '0', digits.drop n)

/-- The exponent of a number, with a sign and at least two digits. -/
def exponentText (e : Int) : List Char :=
  let digits := Nat.toDigits 10 e.natAbs
  (if e < 0 then '-' else '+') :: (if digits.length < 2 then '0' :: digits else digits)

/-- The text of a size with at most fifteen digits; there is always one behind the point. -/
def sizeText (num den : Nat) : List Char :=
  let (rounded, p) := leading 15 num den
  let digits := trimmed (Nat.toDigits 10 rounded)
  let behind (t : List Char) := if t.isEmpty then ['0'] else t
  if p < -3 ∨ 15 < p then
    digits.take 1 ++ '.' :: behind (digits.drop 1) ++ 'e' :: exponentText (p - 1)
  else
    let (whole, fraction) := pointed digits p
    whole ++ '.' :: behind fraction

def text (b : Dword) : List Char :=
  let sign := if isNegative b then ['-'] else []
  if !isFinite b then sign ++ "Inf".toList
  else
    let (n, d) := quotient b
    if n = 0 then "0.0".toList else sign ++ sizeText n.natAbs d

/-- The fewest digits that are read as the same double, and how many stand before the point. -/
def fewest (b : Dword) (num den : Nat) : List Char × Int :=
  let reads (n : Nat) : Bool :=
    let (digits, p) := leading n num den
    ofDecimal false digits (p - n) = b &&& 0x7fffffffffffffff
  let n := ((List.range 17).map (· + 1)).find? reads
  let (digits, p) := leading (n.getD 17) num den
  (trimmed (Nat.toDigits 10 digits), p)

def shortest (b : Dword) : List Char :=
  let sign := if isNegative b then ['-'] else []
  if !isFinite b then (if isNegative b then "-Inf" else "+Inf").toList
  else
    let (n, d) := quotient b
    if n = 0 then sign ++ ['0']
    else
      let (digits, p) := fewest b n.natAbs d
      let dot (t : List Char) := if t.isEmpty then [] else '.' :: t
      if p < -3 ∨ 6 < p then
        sign ++ digits.take 1 ++ dot (digits.drop 1) ++ 'e' :: exponentText (p - 1)
      else
        let (whole, fraction) := pointed digits p
        sign ++ whole ++ dot fraction

end Digits

end EntryCode.Double
