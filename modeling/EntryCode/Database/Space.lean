import EntryCode.Database.Tree

/-!
Making and removing trees, and giving unused pages back. In a file that gives pages back, trees begin
at the first pages, and other pages make room for them; pages at the end move to unused places
further in front before the file is cut.
-/

namespace EntryCode.Database.Space

open Store

section Moving

def reveal : Nat → Nat → Action Unit
  | 0, _ => throw .damaged
  | fuel + 1, p => do
    let n ← node p
    setNode p n
    for c in n.cells do
      if n.shape.hasContent && c.next ≠ 0 then
        link (← chainFrom (← chainLength c) c.next)
      if !n.shape.isLeaf then reveal fuel c.child
    if !n.shape.isLeaf then reveal fuel n.right

/-- The page of a tree that a row of the first tree names. -/
def rootIn? (e : Text.Encoding) (row : Bytes) : Option Nat := do
  match (← Record.decode? e row).drop 3 with
  | .integer i :: _ => if 0 < i then some i.toNat else none
  | _ => none

/-- The pages at which trees begin: the first one, and those that the rows of its tree name. -/
def roots : Action (List Nat) := do
  let rows ← (← Tree.entries 1).mapM content
  return 1 :: rows.filterMap (rootIn? (← get).encoding)

/-- A page in which a number of a page was replaced by another one. -/
def renamed (before after : Nat) (page : Page) : Page :=
  let new (p : Nat) := if p = before then after else p
  match page with
  | .node n => .node { n with
      right := new n.right
      cells := n.cells.map fun c => { c with child := new c.child, next := new c.next } }
  | .chain next content => .chain (new next) content
  | page => page

def move (before after : Nat) : Action Unit := do
  for root in ← roots do reveal Tree.mostLevels root
  let moved ← page before
  setPage after moved
  modify fun s => { s with pages := s.pages.map (renamed before after) }

end Moving

section Roots

def usableFrom (s : Store) (p : Nat) : Nat :=
  if s.isMapPage p then p + 1 else p

/-- Makes a tree without entries and gives the page at which it begins. -/
def createRoot (isIndex : Bool) : Action Nat := do
  let p ← allocate
  let s ← get
  if !s.hasMap then
    setNode p (.empty isIndex)
    return p
  let root := usableFrom s (s.header.largestRoot + 1)
  if p ≠ root then
    if s.free.contains root then set { s with free := p :: s.free.erase root }
    else move root p
  setNode root (.empty isIndex)
  modify fun s => { s with header.largestRoot := root }
  return root

/-- Removes a tree. Gives the page of another tree that took its place, if one did. -/
def destroyRoot (root : Nat) : Action (Option Nat) := do
  Tree.releaseBelow Tree.mostLevels root
  let s ← get
  if !s.hasMap then
    release root
    return none
  let last := s.header.largestRoot
  if root ≠ last then
    setNode root (.empty false)
    move last root
  release last
  let before := if s.isMapPage (last - 1) then last - 2 else last - 1
  modify fun s => { s with header.largestRoot := before }
  return if root = last then none else some last

end Roots

section Cutting

/-- The number of pages in the first `n` that say where others belong. -/
def mapPages (s : Store) (n : Nat) : Nat :=
  ((List.range n).filter fun i => s.isMapPage (i + 1)).length

/-- Whether `n` pages are enough for those in use. -/
def isEnough (s : Store) (n : Nat) : Bool :=
  s.count - mapPages s s.count - s.free.length ≤ n - mapPages s n && !s.isMapPage n

/-- Cuts the file to `n` pages. -/
def cutTo (n : Nat) : Action Unit := do
  let s ← get
  let high := ((List.range s.count).map (· + 1)).filter fun p =>
    n < p && !s.isMapPage p && !s.free.contains p
  let low := s.free.filter (· ≤ n)
  for (before, after) in high.zip low do move before after
  modify fun s => { s with
    pages := s.pages.extract 0 n
    free := low.drop high.length
    isTouched := true }

/-- Gives all unused pages back, if the file is one that does so. -/
def giveBack : Action Unit := do
  let s ← get
  if s.vacuuming = .always ∧ s.free ≠ [] then
    match (List.range (s.count + 1)).find? (isEnough s) with
    | some n => cutTo n
    | none => return

def giveOneBack : Action Unit := do
  let s ← get
  if s.hasMap ∧ s.free ≠ [] then
    cutTo (if s.isMapPage (s.count - 1) then s.count - 2 else s.count - 1)

end Cutting

end EntryCode.Database.Space
