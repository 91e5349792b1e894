import EntryCode.Database.Value

/-!
Rows as bytes. A record begins with a header, which holds its own length and a number for the kind
and length of each value; the values follow without gaps. Numbers of varying length have seven bits
in each byte, the most significant first; a ninth byte has eight.
-/

namespace EntryCode.Database

section Varints

/-- The groups of seven bits of a number, all but the last marked, in front of `tail`. -/
def sevens : Nat → Nat → Bytes → Bytes
  | 0, _, tail => tail
  | fuel + 1, n, tail =>
    let rest := BitVec.ofNat 8 (n % 128 + 128) :: tail
    if n < 128 then rest else sevens fuel (n / 128) rest

/-- A number below `2 ^ 64` as bytes. -/
def varint (n : Nat) : Bytes :=
  if n < 128 then [BitVec.ofNat 8 n]
  else if n < 0x100000000000000 then sevens 8 (n / 128) [BitVec.ofNat 8 (n % 128)]
  else (List.range 8).map (fun i => BitVec.ofNat 8 (n >>> (8 + 7 * (7 - i)) % 128 + 128)) ++
    [BitVec.ofNat 8 (n % 256)]

def varintLength (n : Nat) : Nat :=
  (varint n).length

/-- Reads on after some bytes of a number; `n` is what they held. -/
def varintFrom? : Nat → Nat → Bytes → Option (Nat × Bytes)
  | _, _, [] => none
  | 0, n, b :: rest => some (256 * n + b.toNat, rest)
  | left + 1, n, b :: rest =>
    if b.toNat < 128 then some (128 * n + b.toNat, rest)
    else varintFrom? left (128 * n + b.toNat % 128) rest

def varint? : Bytes → Option (Nat × Bytes) :=
  varintFrom? 8 0

def unsigned (i : Int) : Nat :=
  (i % 0x10000000000000000).toNat

/-- The number with sign that is kept as one of `n` bytes. -/
def signed (n value : Nat) : Int :=
  if value < 1 <<< (8 * n - 1) then value else (value : Int) - (1 <<< (8 * n) : Nat)

end Varints

/-- A number of `n` bytes, the most significant first. -/
def bigEndian (n value : Nat) : Bytes :=
  (Bytes.ofBits n (BitVec.ofNat (8 * n) value)).reverse

def ofBigEndian (bytes : Bytes) : Nat :=
  bytes.foldl (fun n b => 256 * n + b.toNat) 0

structure Format where
  encoding : Text.Encoding
  /-- Whether zero and one have kinds of their own. -/
  hasConstants : Bool
  deriving DecidableEq, Repr

namespace Record

def encodeText (e : Text.Encoding) (t : Bytes) : Bytes :=
  match e with
  | .utf8 => t
  | e => e.bytes (e.kept (String.ofList (Text.charsOfUtf8 t)))

/-- The characters in units of sixteen bits; halves without their other half stand for U+FFFD. -/
def ofUnits : List Nat → List Char
  | [] => []
  | high :: low :: rest =>
    if 0xd800 ≤ high ∧ high < 0xdc00 ∧ 0xdc00 ≤ low ∧ low < 0xe000 then
      Char.ofNat (0x10000 + (high - 0xd800) * 0x400 + (low - 0xdc00)) :: ofUnits rest
    else single high :: ofUnits (low :: rest)
  | [unit] => [single unit]
where
  single (unit : Nat) : Char :=
    if 0xd800 ≤ unit ∧ unit < 0xe000 then '\ufffd' else Char.ofNat unit

/-- The units of sixteen bits in some bytes. -/
def units (isLittle : Bool) : Bytes → List Nat
  | a :: b :: rest =>
    (if isLittle then a.toNat + 256 * b.toNat else 256 * a.toNat + b.toNat) :: units isLittle rest
  | _ => []

def decodeText (e : Text.Encoding) (t : Bytes) : Bytes :=
  match e with
  | .utf8 => t
  | .utf16le => Text.utf8 (String.ofList (ofUnits (units true t)))
  | .utf16be => Text.utf8 (String.ofList (ofUnits (units false t)))

/-- Whether a signed number fits in some bytes. -/
def fits (i : Int) (n : Nat) : Bool :=
  let half : Int := Int.ofNat (1 <<< (8 * n - 1))
  decide (-half ≤ i ∧ i < half)

def integerKind (f : Format) (i : Int) : Nat × Nat :=
  if f.hasConstants && i = 0 then (8, 0)
  else if f.hasConstants && i = 1 then (9, 0)
  else ([(1, 1), (2, 2), (3, 3), (4, 4), (5, 6)].find? fun k => fits i k.2).getD (6, 8)

def field (f : Format) : Value → Nat × Bytes
  | .null => (0, [])
  | .integer i =>
    let (kind, n) := integerKind f i
    (kind, bigEndian n (unsigned i))
  | .real b => (7, bigEndian 8 b.toNat)
  | .text t =>
    let t := encodeText f.encoding t
    (13 + 2 * t.length, t)
  | .blob b => (12 + 2 * b.length, b)

/-- The header for some kinds. Its length counts itself. -/
def header (kinds : List Nat) : Bytes :=
  let body := kinds.flatMap varint
  let n := body.length
  let one := n + varintLength (n + 1)
  let length := if varintLength one = varintLength (n + 1) then one else one + 1
  varint length ++ body

def encode (f : Format) (values : List Value) : Bytes :=
  let fields := values.map (field f)
  header (fields.map Prod.fst) ++ fields.flatMap Prod.snd

def kindLength (kind : Nat) : Nat :=
  if kind < 12 then ([0, 1, 2, 3, 4, 6, 8, 8].drop kind).head?.getD 0
  else (kind - 12) / 2

def ofField (e : Text.Encoding) (kind : Nat) (bytes : Bytes) : Value :=
  if kind = 0 then .null
  else if kind < 7 then .integer (signed bytes.length (ofBigEndian bytes))
  else if kind = 7 then
    let b := BitVec.ofNat 64 (ofBigEndian bytes)
    if Double.isNumber b then .real b else .null
  else if kind = 8 then .integer 0
  else if kind = 9 then .integer 1
  else if kind < 12 then .null
  else if kind % 2 = 0 then .blob bytes
  else .text (decodeText e bytes)

/-- The kinds in the rest of a header of `n` bytes. -/
def kinds? : Nat → Bytes → Option (List Nat)
  | _, [] => some []
  | 0, _ => none
  | fuel + 1, bytes => do
    let (kind, rest) ← varint? bytes
    return kind :: (← kinds? fuel rest)

def fields? (e : Text.Encoding) : List Nat → Bytes → Option (List Value)
  | [], _ => some []
  | kind :: rest, bytes =>
    let n := kindLength kind
    let part := bytes.take n
    if part.length < n then none
    else (fields? e rest (bytes.drop n)).map (ofField e kind part :: ·)

/-- The values in a record, unless it is damaged. -/
def decode? (e : Text.Encoding) (payload : Bytes) : Option (List Value) := do
  let (length, rest) ← varint? payload
  let used := payload.length - rest.length
  if length < used ∨ payload.length < length then none
  let kinds ← kinds? length (rest.take (length - used))
  fields? e kinds (rest.drop (length - used))

end Record

end EntryCode.Database
