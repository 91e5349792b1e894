import EntryCode.Text.Utf8

/-!
Items of the concise binary object representation, and their canonical form: lengths and numbers
are as short as they can be, and the keys of a map are sorted, shorter keys first and keys of one
length by their bytes.
-/

namespace EntryCode

inductive Cbor where
  | unsigned (n : Nat)
  /-- The number `-1 - n`. -/
  | negative (n : Nat)
  | bytes (b : Bytes)
  | text (s : String)
  /-- A text, some part of which is not UTF-8. -/
  | brokenText (raw : Bytes)
  | array (items : List Cbor)
  | map (entries : List (Cbor × Cbor))
  | tagged (tag : Nat) (content : Cbor)
  | simple (n : Nat)
  | float (raw : Bytes)
  deriving Repr

namespace Cbor

section Constants

def bool (b : Bool) : Cbor := .simple (if b then 21 else 20)
def null : Cbor := .simple 22

/-- An integer, whatever its sign. -/
def integer (i : Int) : Cbor :=
  if i < 0 then .negative (-1 - i).toNat else .unsigned i.toNat

/-- What is missing is written as null. -/
def optional {α : Type} (f : α → Cbor) (x : Option α) : Cbor :=
  (x.map f).getD null

end Constants

section Encoding

/-- The low `8 * n` bits of a number, most significant byte first. -/
def bigEndian (n v : Nat) : Bytes :=
  (Bytes.ofBits n (BitVec.ofNat (8 * n) v)).reverse

/-- The first byte of an item, from its major type and its additional information. -/
def initialByte (major info : Nat) : Byte :=
  BitVec.ofNat 8 (32 * major + info)

/-- The head of an item with a number below `2 ^ 64` in it. -/
def head (major n : Nat) : Bytes :=
  if n < 24 then [initialByte major n]
  else if n < 0x100 then initialByte major 24 :: bigEndian 1 n
  else if n < 0x10000 then initialByte major 25 :: bigEndian 2 n
  else if n < 0x100000000 then initialByte major 26 :: bigEndian 4 n
  else initialByte major 27 :: bigEndian 8 n

def keyLe (a b : Bytes) : Bool :=
  a.length < b.length || (a.length = b.length && !(b.map BitVec.toNat < a.map BitVec.toNat))

def sortKeys (entries : List (Bytes × Bytes)) : List (Bytes × Bytes) :=
  entries.mergeSort fun p q => keyLe p.1 q.1

def floatInfo (size : Nat) : Nat :=
  if size = 2 then 25 else if size = 4 then 26 else 27

mutual

def encode : Cbor → Bytes
  | .unsigned n => head 0 n
  | .negative n => head 1 n
  | .bytes b => head 2 b.length ++ b
  | .text s =>
    let raw := Text.utf8 s
    head 3 raw.length ++ raw
  | .brokenText raw => head 3 raw.length ++ raw
  | .array items => head 4 items.length ++ encodeItems items
  | .map entries =>
    head 5 entries.length ++ (sortKeys (encodeEntries entries)).flatMap fun e => e.1 ++ e.2
  | .tagged tag content => head 6 tag ++ encode content
  | .simple n => if n < 24 then [initialByte 7 n] else [initialByte 7 24, BitVec.ofNat 8 n]
  | .float raw => initialByte 7 (floatInfo raw.length) :: raw

def encodeItems : List Cbor → Bytes
  | [] => []
  | item :: rest => encode item ++ encodeItems rest

/-- Keys and values apart from each other, in the order in which they are given. -/
def encodeEntries : List (Cbor × Cbor) → List (Bytes × Bytes)
  | [] => []
  | (key, value) :: rest => (encode key, encode value) :: encodeEntries rest

end

end Encoding

end Cbor

end EntryCode
