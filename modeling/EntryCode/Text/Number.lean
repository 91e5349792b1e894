import EntryCode.Word

/-!
Numbers as text: decimal for signed quantities, lowercase hexadecimal for addresses and words.
-/

namespace EntryCode.Text

/-- The lowercase hexadecimal digits of `n`, without leading zeros. -/
def hexDigits (n : Nat) : String :=
  String.ofList (Nat.toDigits 16 n)

/-- At least `width` hexadecimal digits. -/
def hexPadded (width n : Nat) : String :=
  let digits := Nat.toDigits 16 n
  String.ofList (List.replicate (width - digits.length) '0' ++ digits)

def hex (n : Nat) : String :=
  "0x" ++ hexDigits n

def hexWord (n : Nat) : String :=
  "0x" ++ hexPadded 8 n

def hexBytes (bytes : Bytes) : String :=
  bytes.foldl (fun text b => text ++ hexPadded 2 b.toNat) ""

def hexValue? (c : Char) : Option Nat :=
  if '0' ≤ c ∧ c ≤ '9' then some (c.toNat - '0'.toNat)
  else if 'a' ≤ c ∧ c ≤ 'f' then some (c.toNat - 'a'.toNat + 10)
  else if 'A' ≤ c ∧ c ≤ 'F' then some (c.toNat - 'A'.toNat + 10)
  else none

def bytesOfHex? : List Char → Option Bytes
  | [] => some []
  | high :: low :: rest => do
    let h ← hexValue? high
    let l ← hexValue? low
    let bytes ← bytesOfHex? rest
    return BitVec.ofNat 8 (16 * h + l) :: bytes
  | [_] => none

/-- The number in decimal digits, or in hexadecimal ones after the mark `0x`. -/
def natural? : List Char → Option Nat
  | '0' :: 'x' :: digits | '0' :: 'X' :: digits =>
    if digits.isEmpty then none
    else digits.foldlM (fun n c => (hexValue? c).map (16 * n + ·)) 0
  | digits =>
    if digits.isEmpty then none
    else digits.foldlM
      (fun n c => if c.isDigit then some (10 * n + (c.toNat - '0'.toNat)) else none) 0

def integer? : List Char → Option Int
  | '-' :: digits => (natural? digits).map fun n => -n
  | digits => (natural? digits).map Int.ofNat

/-- The doubleword of a number that some reading of a doubleword, signed or unsigned, can take. -/
def dwordOfInt? (n : Int) : Option Dword :=
  if -0x8000000000000000 ≤ n ∧ n < 0x10000000000000000 then some (BitVec.ofInt 64 n) else none

def dword? (s : String) : Option Dword := do
  dwordOfInt? (← integer? s.toList)

/-- A doubleword read as a signed number. -/
def signed (v : Dword) : String :=
  toString v.toInt

end EntryCode.Text
