import EntryCode.Database.Fault
import EntryCode.Database.Page

/-!
The pages of a database and the numbers at the start of its file. A page that is no longer needed is
kept for later use. In a file that gives unused pages back, some pages say where the others belong.
-/

namespace EntryCode.Database

structure Header where
  /-- One where changes are journalled, two where they go to a log first. -/
  writeVersion : Nat
  readVersion : Nat
  changes : Nat
  cookie : Nat
  format : Nat
  cacheSize : Nat
  /-- The last page at which a tree begins; zero where unused pages are not given back. -/
  largestRoot : Nat
  /-- The encoding of texts, from one on; zero where none was chosen. -/
  encoding : Nat
  userVersion : Nat
  /-- Whether unused pages are given back only on request. -/
  incremental : Nat
  applicationId : Nat
  deriving DecidableEq, Repr

structure Store where
  header : Header
  pageSize : Nat
  /-- The bytes at the end of each page that are not used. -/
  reserved : Nat
  /-- The pages; the first one has number one. -/
  pages : Array Page
  /-- The pages that are not in use. -/
  free : List Nat
  isFreeKnown : Bool
  limit : Nat
  /-- Whether something was written since the last statement began. -/
  isTouched : Bool
  deriving DecidableEq, Repr

inductive Vacuuming where
  | never
  | always
  | onRequest
  deriving DecidableEq, Repr

structure Paper where
  size : Nat
  vacuuming : Vacuuming
  deriving DecidableEq, Repr

def Paper.default : Paper :=
  ⟨4096, .never⟩

namespace Store

def mostPages : Nat := 0xfffffffe

/-- A database with nothing in it. -/
def new (p : Paper) : Store where
  header := {
    writeVersion := 1
    readVersion := 1
    changes := 0
    cookie := 0
    format := 0
    cacheSize := 0
    largestRoot := if p.vacuuming = .never then 0 else 1
    encoding := 0
    userVersion := 0
    incremental := if p.vacuuming = .onRequest then 1 else 0
    applicationId := 0 }
  pageSize := p.size
  reserved := 0
  pages := #[.node (.empty false)]
  free := []
  isFreeKnown := true
  limit := mostPages
  isTouched := false

section Layout

variable (s : Store)

def usable : Nat :=
  s.pageSize - s.reserved

def count : Nat :=
  s.pages.size

/-- The bytes at the start of a page that belong to the file. -/
def offset (page : Nat) : Nat :=
  if page = 1 then 100 else 0

def capacity (page : Nat) (shape : Shape) : Nat :=
  s.usable - offset page - shape.headLength

def hasMap : Bool :=
  s.header.largestRoot ≠ 0

def isMapPage (page : Nat) : Bool :=
  s.hasMap && 2 ≤ page && (page - 2) % (s.usable / 5 + 1) = 0

def vacuuming : Vacuuming :=
  if !s.hasMap then .never else if s.header.incremental = 0 then .always else .onRequest

def encoding : Text.Encoding :=
  match s.header.encoding % 4 with
  | 2 => .utf16le
  | 3 => .utf16be
  | _ => .utf8

def format : Format :=
  ⟨s.encoding, 4 ≤ s.header.format⟩

end Layout

abbrev Action := StateT Store (Except Fault)

section Pages

def page (p : Nat) : Action Page := do
  let s ← get
  match if p = 0 then none else s.pages[p - 1]? with
  | some page => return page
  | none => throw .damaged

def setPage (p : Nat) (page : Page) : Action Unit :=
  modify fun s => { s with pages := s.pages.setIfInBounds (p - 1) page, isTouched := true }

def setHeader (f : Header → Header) : Action Unit :=
  modify fun s => { s with header := f s.header, isTouched := true }

def node (p : Nat) : Action Node := do
  match ← page p with
  | .node n => return n
  | .raw bytes =>
    match Node.ofBytes? (offset p) (← get).usable bytes with
    | some n => return n
    | none => throw .damaged
  | _ => throw .damaged

def setNode (p : Nat) (n : Node) : Action Unit :=
  setPage p (.node n)

/-- Content that goes on in a page, and the page where it goes on after that. -/
def chain (p : Nat) : Action (Nat × Bytes) := do
  match ← page p with
  | .chain next content => return (next, content)
  | .raw bytes => return (ofBigEndian (bytes.take 4), (bytes.take (← get).usable).drop 4)
  | _ => throw .damaged

/-- Takes a page into use: one that is there, or else a new one. -/
def allocate : Action Nat := do
  let s ← get
  if !s.isFreeKnown then throw .damaged
  match s.free with
  | p :: free =>
    set { s with free }
    return p
  | [] =>
    let isMap := s.isMapPage (s.count + 1)
    let p := if isMap then s.count + 2 else s.count + 1
    if s.limit < p then throw .full
    set { s with pages := (if isMap then s.pages.push .unused else s.pages).push .unused }
    return p

def release (p : Nat) : Action Unit := do
  let s ← get
  if !s.isFreeKnown || p < 2 || s.count < p then throw .damaged
  set { s with free := p :: s.free }
  setPage p .unused

end Pages

section Content

def chunks (n : Nat) : Nat → Bytes → List Bytes
  | 0, _ => []
  | _, [] => []
  | fuel + 1, content => content.take n :: chunks n fuel (content.drop n)

/-- Writes parts of content to pages, each of which leads to the next one. -/
def link : List (Nat × Bytes) → Action Unit
  | [] => return
  | (p, content) :: rest => do
    setPage p (.chain ((rest.head?.map Prod.fst).getD 0) content)
    link rest

/-- An entry for a page of some shape. What does not fit goes to other pages. -/
def makeCell (shape : Shape) (key : Int) (content : Bytes) : Action Cell := do
  let s ← get
  let n := shape.inlineLength s.usable content.length
  let parts := chunks (s.usable - 4) content.length (content.drop n)
  let pages ← parts.mapM fun _ => allocate
  link (pages.zip parts)
  return { child := 0, key, size := content.length, part := content.take n,
           next := pages.head?.getD 0 }

/-- The pages that an entry goes on in, at most `n`, and what they hold. -/
def chainFrom : Nat → Nat → Action (List (Nat × Bytes))
  | 0, _ => return []
  | n + 1, p => do
    let (next, content) ← chain p
    return (p, content) :: (← chainFrom n next)

def chainLength (c : Cell) : Action Nat := do
  let room := (← get).usable - 4
  return (c.size - c.part.length + room - 1) / room

def content (c : Cell) : Action Bytes := do
  if c.next = 0 then return c.part
  let rest ← chainFrom (← chainLength c) c.next
  return (c.part ++ rest.flatMap Prod.snd).take c.size

def releaseCell (c : Cell) : Action Unit := do
  if c.next ≠ 0 then
    for (p, _) in ← chainFrom (← chainLength c) c.next do release p

end Content

section File

def magic : Bytes :=
  Text.utf8 "SQLite format 3\x00"

/-- Pages that list the unused ones; each but the last leads to the next one. -/
def trunks (room : Nat) : Nat → List Nat → List (Nat × Bytes)
  | 0, _ => []
  | _, [] => []
  | fuel + 1, p :: rest =>
    let leaves := rest.take room
    let after := rest.drop room
    (p, bigEndian 4 (after.head?.getD 0) ++ bigEndian 4 leaves.length ++
      leaves.flatMap (bigEndian 4)) :: trunks room fuel after

variable (s : Store)

def headerBytes : Bytes :=
  let h := s.header
  let four := bigEndian 4
  magic ++ bigEndian 2 (if s.pageSize = 65536 then 1 else s.pageSize) ++
    [BitVec.ofNat 8 h.writeVersion, BitVec.ofNat 8 h.readVersion, BitVec.ofNat 8 s.reserved,
      64, 32, 32] ++
    four h.changes ++ four s.count ++ four (s.free.head?.getD 0) ++ four s.free.length ++
    four h.cookie ++ four h.format ++ four h.cacheSize ++ four h.largestRoot ++
    four h.encoding ++ four h.userVersion ++ four h.incremental ++ four h.applicationId ++
    List.replicate 20 0 ++ four h.changes ++ four 3049001

/-- The bytes of a page, which may be one of those that list unused ones. -/
def pageBytes (trunks : List (Nat × Bytes)) (p : Nat) (page : Page) : Bytes :=
  let content := match trunks.lookup p, page with
    | some listed, _ => listed
    | none, .raw bytes => bytes.drop (offset p)
    | none, .node n => n.bytes (offset p) s.usable
    | none, .chain next content => bigEndian 4 next ++ content
    | none, .unused => []
  let all := (if p = 1 then s.headerBytes else []) ++ content
  all ++ List.replicate (s.pageSize - all.length) 0

def bytes : Bytes :=
  let listed := trunks (s.usable / 4 - 8) s.free.length s.free
  (s.pages.toList.zipIdx 1).flatMap fun (page, p) => s.pageBytes listed p page

end File

section Reading

/-- The parts of a file of one length, the last one filled up with zeros. -/
def cut (size : Nat) : Nat → Bytes → List Bytes
  | 0, _ => []
  | n + 1, bytes =>
    let part := bytes.take size
    (part ++ List.replicate (size - part.length) 0) :: cut size n (bytes.drop size)

def freeFrom? (pages : Array Bytes) : Nat → Nat → Option (List Nat)
  | _, 0 => some []
  | 0, _ => none
  | fuel + 1, p => do
    let bytes ← pages[p - 1]?
    let n := ofBigEndian ((bytes.drop 4).take 4)
    if bytes.length / 4 - 2 < n then none
    let leaves := (List.range n).map fun i => ofBigEndian ((bytes.drop (8 + 4 * i)).take 4)
    if leaves.any fun q => q < 2 ∨ pages.size < q then none
    return p :: leaves ++ (← freeFrom? pages fuel (ofBigEndian (bytes.take 4)))

def pageSize? (bytes : Bytes) : Option Nat :=
  let n := ofBigEndian ((bytes.drop 16).take 2)
  let size := if n = 1 then 65536 else n
  if 512 ≤ size ∧ size ≤ 65536 ∧ size = 1 <<< size.log2 then some size else none

/-- The database in a file that is not empty. -/
def ofBytes (bytes : Bytes) : Except Fault Store := do
  let head := (bytes.take 100).toArray
  let one (i : Nat) : Nat := ((head[i]?).map BitVec.toNat).getD 0
  let four (i : Nat) : Nat := ofBigEndian (head.extract i (i + 4)).toList
  if bytes.take 16 ≠ magic ∨ 2 < one 19 ∨ [one 21, one 22, one 23] ≠ [64, 32, 32] then
    throw .foreign
  let some pageSize := pageSize? bytes | throw .foreign
  if pageSize < one 20 + 480 then throw .foreign
  let inFile := (bytes.length + pageSize - 1) / pageSize
  let count := if four 28 = 0 ∨ four 24 ≠ four 92 then inFile else four 28
  if inFile < count then throw .damaged
  let pages := (cut pageSize count bytes).toArray
  let free := freeFrom? pages pages.size (if four 36 = 0 then 0 else four 32)
  return {
    header := {
      writeVersion := one 18
      readVersion := one 19
      changes := four 24
      cookie := four 40
      format := four 44
      cacheSize := four 48
      largestRoot := four 52
      encoding := four 56
      userVersion := four 60
      incremental := four 64
      applicationId := four 68 }
    pageSize
    reserved := one 20
    pages := pages.map .raw
    free := free.getD []
    isFreeKnown := free.any fun f => f.length = four 36
    limit := mostPages
    isTouched := false }

end Reading

end Store

end EntryCode.Database
