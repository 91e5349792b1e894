import EntryCode.Database.Store

/-!
Trees of pages. Entries are kept in order; a page that gets too full, or too empty, shares its
entries with its neighbours, so that all leaves are equally deep. The entries of a page and its
neighbours are first packed to the left and then spread evenly.
-/

namespace EntryCode.Database.Tree

open Store

/-- A place in a tree: the page reached and those above it up to the root, each with the number of
an entry or of the child that was taken. -/
abbrev Path := List (Nat × Nat)

abbrev Probe := Cell → Action Ordering

/-- More levels than a tree of pages can have. -/
def mostLevels : Nat := 40

section Packing

/-- How entries are shared between pages: the bytes on each page, and the number of the entry at
which it ends. -/
structure Plan where
  sizes : Array Int
  ends : Array Nat
  deriving DecidableEq, Repr

variable (rooms : Array Nat) (isRows : Bool) (space : Int)

def roomAt (i : Nat) : Int :=
  ((rooms[i]?).map fun n => (n : Int) + 2).getD 0

/-- The bytes that the next page loses or gains when the end of a page moves to entry `i`. Unless
the pages hold the rows of a table, an entry stands between them. -/
def passing (taken : Int) (i : Nat) : Int :=
  if isRows then taken else roomAt rooms i

def Plan.size (p : Plan) (i : Nat) : Int :=
  (p.sizes[i]?).getD 0

def Plan.stop (p : Plan) (i : Nat) : Nat :=
  (p.ends[i]?).getD 0

def Plan.update (p : Plan) (i : Nat) (size next : Int) (stop : Nat) : Plan :=
  ⟨(p.sizes.setIfInBounds i size).setIfInBounds (i + 1) next, p.ends.setIfInBounds i stop⟩

/-- Moves entries from page `i` to the next one until it is not too full. -/
def shed (i : Nat) : Nat → Plan → Plan
  | 0, p => p
  | fuel + 1, p =>
    if p.size i ≤ space then p
    else
      let p := if i + 1 < p.sizes.size then p else ⟨p.sizes.push 0, p.ends.push rooms.size⟩
      let stop := p.stop i
      let taken := roomAt rooms (stop - 1)
      shed i fuel (p.update i (p.size i - taken)
        (p.size (i + 1) + passing rooms isRows taken stop) (stop - 1))

/-- Moves entries to page `i` from the next one while there is room. -/
def fill (i : Nat) : Nat → Plan → Plan
  | 0, p => p
  | fuel + 1, p =>
    let stop := p.stop i
    let taken := roomAt rooms stop
    if rooms.size ≤ stop ∨ space < p.size i + taken then p
    else
      fill i fuel (p.update i (p.size i + taken)
        (p.size (i + 1) - passing rooms isRows taken (stop + 1)) (stop + 1))

/-- Packs the entries to the left, from page `i` on. -/
def pack : Nat → Nat → Plan → Option Plan
  | 0, _, _ => none
  | fuel + 1, i, p =>
    let p := fill rooms isRows space i rooms.size (shed rooms isRows space i (rooms.size + 1) p)
    if rooms.size ≤ p.stop i then some ⟨p.sizes.extract 0 (i + 1), p.ends.extract 0 (i + 1)⟩
    else if p.stop i ≤ (if i = 0 then 0 else p.stop (i - 1)) ∨ 5 < p.sizes.size then none
    else pack fuel (i + 1) p

/-- Moves entries from a page to the one right of it while that makes them more even; `stop` is
where the left page ends. -/
def level (isBulk isLast : Bool) : Nat → Int → Int → Nat × Int × Int
  | 0, left, right => (0, left, right)
  | r + 1, left, right =>
    let given := roomAt rooms r
    let got := roomAt rooms (if isRows then r else r + 1)
    if right ≠ 0 ∧ (isBulk ∨ left - (given - if isLast then 2 else 0) < right + got) then
      (r + 1, left, right)
    else level isBulk isLast r (left - given) (right + got)

/-- Spreads the entries evenly, from page `i` down. -/
def even (isBulk : Bool) : Nat → Plan → Option Plan
  | 0, p => some p
  | i + 1, p =>
    let (stop, left, right) := level rooms isRows isBulk (i + 2 = p.sizes.size) (p.stop i)
      (p.size i) (p.size (i + 1))
    let p : Plan := p.update i left right stop
    if stop ≤ (if i = 0 then 0 else p.stop (i - 1)) then none else even isBulk i p

def share (isBulk : Bool) (p : Plan) : Option (List Nat) := do
  let packed ← pack rooms isRows space 6 0 p
  let shared ← even rooms isRows isBulk (packed.sizes.size - 1) packed
  return shared.ends.toList

end Packing

section Balance

/-- The entries of neighbouring pages in order. Between two pages stands the entry that parts them,
unless they hold the rows of a table. -/
def joined (isRows : Bool) : List Node → List Cell → List Cell
  | n :: rest, divider :: dividers =>
    n.cells ++ (if isRows then [] else [{ divider with child := n.right }]) ++
      joined isRows rest dividers
  | nodes, _ => nodes.flatMap Node.cells

def endsOf (isRows : Bool) : Nat → List Node → List Nat
  | _, [] => []
  | start, n :: rest =>
    let stop := start + n.cells.length
    stop :: endsOf isRows (if isRows then stop else stop + 1) rest

/-- The neighbours of child `k` of a page with `m` entries: the first one, and how many entries are
between them. -/
def neighbours (isBulk : Bool) (m k : Nat) : Nat × Nat :=
  let most := if isBulk then 1 else 2
  if m < 2 then (0, m)
  else if k = 0 then (0, most)
  else if k = m then (m - most, most)
  else (k - 1, most)

def dealt (isRows : Bool) (shape : Shape) (cells : List Cell) (right : Nat) :
    Nat → List (Nat × Nat) → List (Nat × Node) × List Cell
  | _, [] => ([], [])
  | start, [(p, stop)] => ([(p, ⟨shape, (cells.drop start).take (stop - start), right⟩)], [])
  | start, (p, stop) :: rest =>
    let own := (cells.drop start).take (stop - start)
    let divider := ((if isRows then own.getLast? else cells[stop]?).getD ⟨0, 0, 0, [], 0⟩)
    let next := if isRows then stop else stop + 1
    let (nodes, dividers) := dealt isRows shape cells right next rest
    let parting := if isRows then ⟨p, divider.key, 0, [], 0⟩ else { divider with child := p }
    ((p, ⟨shape, own, if shape.isLeaf then 0 else divider.child⟩) :: nodes, parting :: dividers)

/-- Shares the entries of child `k` of a page with its neighbours. -/
def spread (parent k : Nat) (isRoot isBulk : Bool) : Action Unit := do
  let above ← node parent
  let (first, between) := neighbours isBulk above.cells.length k
  let old := (List.range (between + 1)).map fun i => above.childAt (first + i)
  let nodes ← old.mapM node
  let shape := (nodes.head?.map Node.shape).getD ⟨false, true⟩
  if nodes.any fun n => n.shape ≠ shape then throw .damaged
  let isRows := !shape.isIndex && shape.isLeaf
  let cells := joined isRows nodes ((above.cells.drop first).take between)
  let rooms := (cells.map (Cell.room shape)).toArray
  let plan := ⟨(nodes.map fun n => (n.used : Int)).toArray, (endsOf isRows 0 nodes).toArray⟩
  let some ends := share rooms isRows ((← get).usable - shape.headLength) isBulk plan
    | throw .damaged
  let added ← (ends.drop old.length).mapM fun _ => allocate
  let pages := (old.take ends.length ++ added).mergeSort (· ≤ ·)
  let right := (nodes.getLast?.map Node.right).getD 0
  let (parts, dividers) := dealt isRows shape cells right 0 (pages.zip ends)
  for (p, n) in parts do setNode p n
  let above := { above with
    cells := above.cells.take first ++ dividers ++ above.cells.drop (first + between) }
  let above := above.setChild (first + dividers.length) (pages.getLast?.getD 0)
  setNode parent above
  for p in old.drop ends.length do release p
  match parts with
  | (p, n) :: _ =>
    if isRoot && above.cells.isEmpty && offset parent ≤ (← get).capacity p shape - n.used then
      setNode parent n
      release p
  | [] => return

/-- Moves the last entry of the last page of a table to a page of its own. -/
def extend (parent p : Nat) : Action Unit := do
  let n ← node p
  let above ← node parent
  let fresh ← allocate
  let kept := n.cells.dropLast
  setNode p { n with cells := kept }
  setNode fresh { n with cells := n.cells.drop kept.length }
  let divider := ⟨p, (kept.getLast?.map Cell.key).getD 0, 0, [], 0⟩
  setNode parent { above with cells := above.cells ++ [divider], right := fresh }

/-- Restores the balance along a path after an entry was put to its first page or taken from it.
Gives the part of the path from where on nothing was to be done. -/
def balance (isBulk : Bool) : Nat → Path → Action Path
  | 0, path => return path
  | _, [] => return []
  | fuel + 1, (p, i) :: up => do
    let n ← node p
    let s ← get
    let capacity := s.capacity p n.shape
    let isOver := capacity < n.used
    if !isOver && (capacity - n.used) * 3 ≤ s.usable * 2 then return (p, i) :: up
    match up with
    | [] =>
      if !isOver then return [(p, i)]
      let child ← allocate
      setNode child n
      setNode p ⟨{ n.shape with isLeaf := false }, [], child⟩
      balance isBulk fuel [(child, i), (p, 0)]
    | (parent, k) :: above =>
      let isLast := i + 1 = n.cells.length && parent ≠ 1 && (← node parent).cells.length = k
      if isOver && n.shape = ⟨false, true⟩ && isLast then extend parent p
      else spread parent k above.isEmpty isBulk
      balance isBulk fuel up

end Balance

section Search

/-- The number of the first entry that is not before what is looked for, and whether it is the
same. -/
def position (probe : Probe) : Nat → List Cell → Action (Nat × Bool)
  | i, [] => return (i, false)
  | i, c :: rest => do
    match ← probe c with
    | .lt => position probe (i + 1) rest
    | .eq => return (i, true)
    | .gt => return (i, false)

def seek (probe : Probe) : Nat → Nat → Path → Action (Path × Bool)
  | 0, _, _ => throw .damaged
  | fuel + 1, p, up => do
    let n ← node p
    let (i, isHit) ← position probe 0 n.cells
    let here := (p, i) :: up
    if n.shape.isLeaf || (isHit && n.shape.isIndex) then return (here, isHit)
    else seek probe fuel (n.childAt i) here

def seekEnd : Nat → Nat → Path → Action Path
  | 0, _, _ => throw .damaged
  | fuel + 1, p, up => do
    let n ← node p
    let here := (p, n.cells.length) :: up
    if n.shape.isLeaf then return here else seekEnd fuel n.right here

def row (key : Int) : Probe := fun c => return compare c.key key

def entriesBelow : Nat → Nat → Action (List Cell)
  | 0, _ => throw .damaged
  | fuel + 1, p => do
    let n ← node p
    if n.shape.isLeaf then return n.cells
    let parts ← n.cells.mapM fun c => do
      let below ← entriesBelow fuel c.child
      return below ++ if n.shape.isIndex then [c] else []
    return parts.flatten ++ (← entriesBelow fuel n.right)

def entries (root : Nat) : Action (List Cell) :=
  entriesBelow mostLevels root

def find? (root : Nat) (probe : Probe) : Action (Option Cell) := do
  match ← seek probe mostLevels root [] with
  | ((p, i) :: _, true) => return (← node p).cells[i]?
  | _ => return none

def lastKey? (root : Nat) : Action (Option Int) := do
  match ← seekEnd mostLevels root [] with
  | (p, _) :: _ => return (← node p).cells.getLast?.map Cell.key
  | [] => return none

end Search

section Changes

def overwrite (p i : Nat) (n : Node) (old : Cell) (content : Bytes) : Action Unit := do
  let s ← get
  let part := content.take old.part.length
  let pages ← if old.next = 0 then pure [] else chainFrom (← chainLength old) old.next
  let chunks := chunks (s.usable - 4) content.length (content.drop part.length)
  link ((pages.map Prod.fst).zip chunks)
  setNode p { n with cells := n.cells.set i { old with part } }

/-- Puts a page with one more entry in place. Only one that is too full asks for balance. -/
def setFuller (isBulk : Bool) (p i : Nat) (up : Path) (n : Node) : Action Unit := do
  setNode p n
  if (← get).capacity p n.shape < n.used then
    let _ ← balance isBulk mostLevels ((p, i) :: up)

/-- Puts an entry to the place where it belongs; one that is there gives way. -/
def insertAt (isBulk : Bool) (path : Path) (isHit : Bool) (key : Int) (content : Bytes) :
    Action Unit := do
  match path with
  | [] => throw .damaged
  | (p, i) :: up =>
    let n ← node p
    match if isHit then n.cells[i]? else none with
    | some old =>
      if old.size = content.length then overwrite p i n old content
      else
        let c ← makeCell n.shape key content
        releaseCell old
        setFuller isBulk p i up { n with cells := n.cells.set i { c with child := old.child } }
    | none =>
      let c ← makeCell n.shape key content
      setFuller isBulk p i up { n with cells := n.cells.insertIdx i c }

def insert (root : Nat) (probe : Probe) (key : Int) (content : Bytes) : Action Unit := do
  let (path, isHit) ← seek probe mostLevels root []
  insertAt false path isHit key content

def append (isBulk : Bool) (root : Nat) (key : Int) (content : Bytes) : Action Unit := do
  insertAt isBulk (← seekEnd mostLevels root []) false key content

/-- Takes away the entry at a place. One that is not in a leaf gives way to the one before it. -/
def eraseAt (p i : Nat) (up : Path) : Action Unit := do
  let n ← node p
  let some c := n.cells[i]? | throw .damaged
  releaseCell c
  if n.shape.isLeaf then
    setNode p { n with cells := n.cells.eraseIdx i }
    let _ ← balance false mostLevels ((p, i) :: up)
  else
    let path ← seekEnd mostLevels c.child ((p, i) :: up)
    let (leaf, _) := path.head?.getD (0, 0)
    let below ← node leaf
    let some last := below.cells.getLast? | throw .damaged
    setNode p { n with cells := n.cells.set i { last with child := c.child } }
    setNode leaf { below with cells := below.cells.dropLast }
    let rest ← balance false mostLevels path
    if up.length + 1 < rest.length then
      let _ ← balance false mostLevels (rest.drop (rest.length - (up.length + 1)))

def erase (root : Nat) (probe : Probe) : Action Unit := do
  match ← seek probe mostLevels root [] with
  | ((p, i) :: up, true) => eraseAt p i up
  | _ => return

/-- Takes all pages below a page out of use, with those of long entries. -/
def releaseBelow : Nat → Nat → Action Unit
  | 0, _ => throw .damaged
  | fuel + 1, p => do
    let n ← node p
    for c in n.cells do
      if !n.shape.isLeaf then
        releaseBelow fuel c.child
        release c.child
      if n.shape.hasContent then releaseCell c
    if !n.shape.isLeaf then
      releaseBelow fuel n.right
      release n.right

def clear (root : Nat) : Action Unit := do
  let n ← node root
  releaseBelow mostLevels root
  setNode root (.empty n.shape.isIndex)

end Changes

end EntryCode.Database.Tree
