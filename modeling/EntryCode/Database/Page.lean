import EntryCode.Database.Record

/-!
The pages of a database file that hold trees. There are two kinds of trees: those of tables, whose
entries have a number as key and lie in the leaves, and those of indexes, whose entries are keys
themselves and lie everywhere. An entry that is too long for a page goes on in pages of its own.
-/

namespace EntryCode.Database

structure Shape where
  isIndex : Bool
  isLeaf : Bool
  deriving DecidableEq, Repr

/-- An entry of a page. What does not apply to the shape of the page is zero or empty. -/
structure Cell where
  child : Nat
  key : Int
  size : Nat
  part : Bytes
  /-- The page where the content goes on, or zero. -/
  next : Nat
  deriving DecidableEq, Repr

structure Node where
  shape : Shape
  cells : List Cell
  right : Nat
  deriving DecidableEq, Repr

namespace Shape

def flag (s : Shape) : Nat :=
  (if s.isIndex then 2 else 5) + if s.isLeaf then 8 else 0

def ofFlag? (n : Nat) : Option Shape :=
  [(2, ⟨true, false⟩), (5, ⟨false, false⟩), (10, ⟨true, true⟩), (13, ⟨false, true⟩)].lookup n

def headLength (s : Shape) : Nat :=
  if s.isLeaf then 8 else 12

def hasContent (s : Shape) : Bool :=
  s.isIndex || s.isLeaf

variable (s : Shape) (usable : Nat)

/-- The most bytes of content that are kept in a page as a whole. -/
def mostInline : Nat :=
  if s.isIndex then (usable - 12) * 64 / 255 - 23 else usable - 35

/-- The bytes that are kept in a page of a content of `size` bytes. -/
def inlineLength (size : Nat) : Nat :=
  let least := (usable - 12) * 32 / 255 - 23
  let filling := least + (size - least) % (usable - 4)
  if size ≤ s.mostInline usable then size
  else if filling ≤ s.mostInline usable then filling
  else least

end Shape

namespace Cell

def bytes (s : Shape) (c : Cell) : Bytes :=
  let child := if s.isLeaf then [] else bigEndian 4 c.child
  let size := if s.hasContent then varint c.size else []
  let key := if s.isIndex then [] else varint (unsigned c.key)
  let content := if s.hasContent then c.part else []
  let next := if s.hasContent && c.next ≠ 0 then bigEndian 4 c.next else []
  let all := child ++ size ++ key ++ content ++ next
  all ++ List.replicate (4 - all.length) 0

def room (s : Shape) (c : Cell) : Nat :=
  let child := if s.isLeaf then 0 else 4
  let size := if s.hasContent then varintLength c.size else 0
  let key := if s.isIndex then 0 else varintLength (unsigned c.key)
  let content := if s.hasContent then c.part.length + if c.next = 0 then 0 else 4 else 0
  max 4 (child + size + key + content)

def ofBytes? (s : Shape) (usable : Nat) (bytes : Bytes) : Option Cell := do
  let child := if s.isLeaf then 0 else ofBigEndian (bytes.take 4)
  let rest := if s.isLeaf then bytes else bytes.drop 4
  let (size, rest) ← if s.hasContent then varint? rest else some (0, rest)
  let (key, rest) ← if s.isIndex then some (0, rest) else varint? rest
  let n := if s.hasContent then s.inlineLength usable size else 0
  let part := rest.take n
  if part.length < n then none
  let next := (rest.drop n).take 4
  if n < size ∧ next.length < 4 then none
  return { child, key := signed 8 key, size, part, next := if n < size then ofBigEndian next else 0 }

end Cell

namespace Node

def empty (isIndex : Bool) : Node :=
  ⟨⟨isIndex, true⟩, [], 0⟩

variable (n : Node)

/-- The bytes that the entries take, with two for the place of each. -/
def used : Nat :=
  n.cells.foldl (fun sum c => sum + c.room n.shape + 2) 0

/-- The page that stands before the entry with a number, or after the last one. -/
def childAt (i : Nat) : Nat :=
  ((n.cells[i]?).map Cell.child).getD n.right

/-- Puts another page before the entry with a number, or after the last one. -/
def setChild (i child : Nat) : Node :=
  if i < n.cells.length then { n with cells := n.cells.modify i fun c => { c with child } }
  else { n with right := child }

/-- The bytes of a page of which the first `offset` ones and the last ones after `usable` are used
for something else. Entries stand at the end, the first one last. -/
def bytes (offset usable : Nat) : Bytes :=
  let cells := n.cells.map (Cell.bytes n.shape)
  let (places, start) := cells.foldl
    (fun (places, top) c => (places ++ [top - c.length], top - c.length)) (([] : List Nat), usable)
  let head := bigEndian 1 n.shape.flag ++ [0, 0] ++ bigEndian 2 cells.length ++
    bigEndian 2 start ++ [0] ++ if n.shape.isLeaf then [] else bigEndian 4 n.right
  let front := head ++ places.flatMap (bigEndian 2)
  front ++ List.replicate (start - offset - front.length) 0 ++ cells.reverse.flatten

/-- The page in some bytes, of which the first `offset` ones are used for something else. -/
def ofBytes? (offset usable : Nat) (page : Bytes) : Option Node := do
  let head := (page.drop offset).take 12
  let shape ← Shape.ofFlag? ((head.head?.map BitVec.toNat).getD 0)
  let count := ofBigEndian ((head.drop 3).take 2)
  if (page.length - 8) / 6 < count then none
  let places := (page.drop (offset + shape.headLength)).take (2 * count)
  let all := (page.take usable).toArray
  let cells ← (List.range count).mapM fun i => do
    let place := ofBigEndian ((places.drop (2 * i)).take 2) % page.length
    Cell.ofBytes? shape usable (all.extract place usable).toList
  return { shape, cells, right := if shape.isLeaf then 0 else ofBigEndian (head.drop 8) }

end Node

inductive Page where
  /-- A page that was not looked at. -/
  | raw (bytes : Bytes)
  | node (n : Node)
  /-- Content that does not fit where it begins; it may go on in another page. -/
  | chain (next : Nat) (content : Bytes)
  /-- A page that is not in use, or says where others belong. -/
  | unused
  deriving DecidableEq, Repr

end EntryCode.Database
