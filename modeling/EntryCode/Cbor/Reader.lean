import EntryCode.Cbor.Basic

/-!
Reading items from bytes. Any well-formed item is read, also one whose lengths are longer than
need be or not given beforehand; nesting and the number of items in one container are limited.
-/

namespace EntryCode.Cbor

def maxDepth : Nat := 32

/-- An array has at most so many items and a map so many entries. -/
def maxItems : Nat := 131072

/-- The byte that ends a container or string whose length is not given beforehand. -/
def breakByte : Byte := 0xff

section Heads

/-- The number whose base-256 digits, most significant first, are `bytes`. -/
def ofBigEndian (bytes : Bytes) : Nat :=
  bytes.foldl (fun n b => 256 * n + b.toNat) 0

/-- The first `n` bytes and the rest. -/
def split? (n : Nat) (bs : Bytes) : Option (Bytes × Bytes) :=
  if n ≤ bs.length then some (bs.take n, bs.drop n) else none

structure Head where
  major : Nat
  info : Nat
  /-- The bytes of the argument, none where it is in the first byte. -/
  argument : Bytes
  deriving DecidableEq, Repr

/-- The number in a head; none where the length is not given beforehand. -/
def Head.number? (h : Head) : Option Nat :=
  if h.info < 24 then some h.info
  else if h.info = 31 then none
  else some (ofBigEndian h.argument)

def argumentSize? (info : Nat) : Option Nat :=
  if info < 24 ∨ info = 31 then some 0
  else if info = 24 then some 1
  else if info = 25 then some 2
  else if info = 26 then some 4
  else if info = 27 then some 8
  else none

def head? : Bytes → Option (Head × Bytes)
  | [] => none
  | b :: rest => do
    let info := b.toNat % 32
    let (argument, rest) ← split? (← argumentSize? info) rest
    return (⟨b.toNat / 32, info, argument⟩, rest)

end Heads

section Strings

/-- The chunks of a string up to its end mark; each is a string of the same kind and has a
length. -/
def chunks? (major : Nat) : Nat → Bytes → Option (List Bytes × Bytes)
  | 0, _ => none
  | fuel + 1, bs => do
    let b ← bs.head?
    if b = breakByte then return ([], bs.drop 1)
    let (h, rest) ← head? bs
    if h.major ≠ major then failure
    let (chunk, rest) ← split? (← h.number?) rest
    let (more, rest) ← chunks? major fuel rest
    return (chunk :: more, rest)

/-- The chunks of a string whose head was read; a string with a length is one chunk. -/
def string? (h : Head) (bs : Bytes) : Option (List Bytes × Bytes) :=
  match h.number? with
  | some n => do
    let (b, rest) ← split? n bs
    return ([b], rest)
  | none => chunks? h.major (bs.length + 1) bs

/-- A text is UTF-8 chunk by chunk. -/
def ofTextChunks (chunks : List Bytes) : Cbor :=
  match chunks.mapM Text.ofUtf8? with
  | some parts => .text (String.join parts)
  | none => .brokenText chunks.flatten

end Strings

section Containers

variable (item : Bytes → Option (Cbor × Bytes))

/-- `n` items. -/
def items? : Nat → Bytes → Option (List Cbor × Bytes)
  | 0, bs => some ([], bs)
  | n + 1, bs => do
    let (v, rest) ← item bs
    let (more, rest) ← items? n rest
    return (v :: more, rest)

def itemsToBreak? : Nat → Bytes → Option (List Cbor × Bytes)
  | 0, _ => none
  | fuel + 1, bs => do
    let b ← bs.head?
    if b = breakByte then return ([], bs.drop 1)
    let (v, rest) ← item bs
    let (more, rest) ← itemsToBreak? fuel rest
    return (v :: more, rest)

/-- The items of a container whose head was read and of which each entry has `width` items. -/
def contents? (width : Nat) (h : Head) (bs : Bytes) : Option (List Cbor × Bytes) :=
  match h.number? with
  | some n => if n ≤ maxItems then items? item (width * n) bs else none
  | none => do
    let (vs, rest) ← itemsToBreak? item (bs.length + 1) bs
    if vs.length / width ≤ maxItems then return (vs, rest) else failure

end Containers

/-- Items taken two by two; none where one is left. -/
def pairs? : List Cbor → Option (List (Cbor × Cbor))
  | [] => some []
  | [_] => none
  | key :: value :: rest => do return (key, value) :: (← pairs? rest)

def scalar? (h : Head) (bs : Bytes) : Option (Cbor × Bytes) :=
  match h.major with
  | 0 => do return (.unsigned (← h.number?), bs)
  | 1 => do return (.negative (← h.number?), bs)
  | 2 => do
    let (chunks, rest) ← string? h bs
    return (.bytes chunks.flatten, rest)
  | 3 => do
    let (chunks, rest) ← string? h bs
    return (ofTextChunks chunks, rest)
  | 7 => do
    let n ← h.number?
    if h.info < 24 then return (.simple n, bs)
    else if h.info = 24 then
      if 32 ≤ n then return (.simple n, bs) else failure
    else return (.float h.argument, bs)
  | _ => none

/-- The item at the start of `bs`. Of the tags around an item, each but the outermost counts as a
container. -/
def item? (depth : Nat) (inTag : Bool) (bs : Bytes) : Option (Cbor × Bytes) := do
  let (h, rest) ← head? bs
  match h.major, depth with
  | 4, d + 1 =>
    let (vs, rest) ← contents? (item? d false) 1 h rest
    return (.array vs, rest)
  | 5, d + 1 =>
    let (vs, rest) ← contents? (item? d false) 2 h rest
    return (.map (← pairs? vs), rest)
  | 6, d =>
    let tag ← h.number?
    match inTag, d with
    | false, d =>
      let (v, rest) ← item? d true rest
      return (.tagged tag v, rest)
    | true, d + 1 =>
      let (v, rest) ← item? d true rest
      return (.tagged tag v, rest)
    | true, 0 => failure
  | _, _ => scalar? h rest
termination_by (depth, if inTag then 0 else 1)

/-- The item that `bs` consists of. -/
def decode? (bs : Bytes) : Option Cbor := do
  let (v, rest) ← item? maxDepth false bs
  if rest.isEmpty then return v else failure

end EntryCode.Cbor
