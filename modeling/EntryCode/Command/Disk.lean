import EntryCode.Command.Host

/-!
A disk in memory, for running the command without a machine. Paths lead through directories that
are there, and through links to other places; two dots lead back. Besides files there are devices,
which take what is written to them and keep nothing.
-/

namespace EntryCode

inductive DiskEntry where
  | directory
  | file (content : Bytes)
  /-- What is written to it is lost, or refused where it has no room. -/
  | device (hasRoom : Bool)
  /-- Another name of a directory, which is given by its parts from the root. -/
  | link (target : List String)
  deriving DecidableEq, Repr

structure Disk where
  cwd : List String
  entries : List (List String × DiskEntry)
  occasions : Nat
  deriving DecidableEq, Repr

namespace Disk

def entry? (d : Disk) (parts : List String) : Option DiskEntry :=
  if parts.isEmpty then some .directory else d.entries.lookup parts

def target (d : Disk) (parts : List String) : List String :=
  match d.entry? parts with
  | some (.link parts) => parts
  | _ => parts

section Names

def longestName : Nat := 255

def longestPath : Nat := 4095

def nameOk (name : String) : Bool :=
  name.utf8ByteSize ≤ longestName && !name.contains '\x00'

def checkPath (path : String) : Except FileError Unit :=
  if path.contains '\x00' then .error .invalid
  else if longestPath < path.utf8ByteSize then .error .tooLong
  else if path = "" then .error .missing
  else .ok ()

end Names

/-- Follows names from a directory. Every name but the last, and what stands before a dot, is that
of a directory. -/
def follow (d : Disk) : List String → List String → Except FileError (List String)
  | here, [] => .ok here
  | here, name :: rest =>
    match d.entry? here with
    | none => .error .missing
    | some .directory =>
      if name = "." then follow d here rest
      else if name = ".." then follow d here.dropLast rest
      else if !nameOk name then .error .tooLong
      else follow d (d.target (here ++ [name])) rest
    | some _ => .error .notDirectory

/-- The path from the root of one that is meant below the current directory. -/
def below (d : Disk) (path : String) : String :=
  Path.join (Path.ofParts d.cwd) path

def walk (d : Disk) (path : String) (names : List String) : Except FileError (List String) := do
  checkPath path
  d.follow (if Path.isAbsolute path then [] else d.cwd) names

def resolve (d : Disk) (path : String) : Except FileError (List String) :=
  d.walk path (Path.names path)

def place (d : Disk) (parts : List String) (e : DiskEntry) : Disk :=
  { d with entries := (parts, e) :: d.entries.filter fun x => x.1 ≠ parts }

/-- Whether nothing can be made in a place: the directories about running programs stay as they
are. -/
def isSealed (parts : List String) : Bool :=
  parts.head? = some "proc"

/-- The content of a file. A slash at the end of the path asks for a directory. -/
def read (d : Disk) (path : String) : Except FileError Bytes := do
  let found := d.entry? (← d.resolve path)
  if found.isNone then throw .missing
  if found = some .directory then throw .isDirectory
  if path.endsWith "/" then throw .notDirectory
  return if let some (.file content) := found then content else []

def found? (d : Disk) (path : String) : Option DiskEntry :=
  (d.resolve path).toOption.bind d.entry?

/-- Puts a file in place of any that is there. A path that ends in a slash is refused before its
last name is looked up. -/
def write (d : Disk) (path : String) (content : Bytes) : Except FileError Disk := do
  if path.endsWith "/" then
    let _ ← d.walk path ((Path.names path).dropLast ++ ["."])
    throw .isDirectory
  let parts ← d.resolve path
  match d.entry? parts with
  | some (.device true) => return d
  | some (.device false) => throw .noSpace
  | some (.file _) => return d.place parts (.file content)
  | some _ => throw .isDirectory
  | none => if isSealed parts then throw .missing else return d.place parts (.file content)

/-- Takes a file away. All else stays. -/
def remove (d : Disk) (path : String) : Disk :=
  match d.resolve path with
  | .error _ => d
  | .ok parts =>
    match d.entry? parts with
    | some (.file _) => { d with entries := d.entries.filter fun x => x.1 ≠ parts }
    | _ => d

/-- Makes directories one after the other, up to the first that cannot be made. -/
def makeAll (d : Disk) : List (List String) → Bool × Disk
  | [] => (true, d)
  | names :: rest =>
    match d.follow [] names with
    | .error _ => (false, d)
    | .ok parts =>
      match d.entry? parts with
      | some .directory => makeAll d rest
      | some _ => (false, d)
      | none =>
        if isSealed parts ∨ longestPath < (Path.ofParts names).utf8ByteSize then (false, d)
        else makeAll (d.place parts .directory) rest

def makeDirectories (d : Disk) (path : String) : Bool × Disk :=
  d.makeAll (Path.ways (Path.parts (Path.absolute (Path.ofParts d.cwd) path)))

/-- Writes a text to a file, in a directory that is made if it is not there. -/
def writeText (d : Disk) (path text : String) : Option Disk :=
  ((d.makeDirectories (Path.parent path)).2.write path (Text.utf8 text)).toOption

def devices : List (String × Bool) :=
  [("null", true), ("zero", true), ("full", false)]

/-- What every disk holds, given the current directory: devices, and links to the current directory
and to the root. -/
def standard (cwd : List String) : List (List String × DiskEntry) :=
  [(["dev"], DiskEntry.directory), (["proc"], .directory), (["proc", "self"], .directory),
   (["proc", "self", "cwd"], .link cwd), (["proc", "self", "root"], .link [])] ++
    devices.map fun (name, hasRoom) => (["dev", name], DiskEntry.device hasRoom)

def new (cwd : List String) : Disk :=
  (Disk.makeAll ⟨cwd, standard cwd, 0⟩ (Path.ways cwd)).2

/-- An occasion for each number: identifiers are all different, and the clock stands still. -/
def occasionOf (n : Nat) : Occasion where
  id := .random (BitVec.ofNat 128 n)
  now := 1700000000
  host := .none
  mapping := 0x7f0000000000
  grants size := size.toNat < 0x800000000

/-- The machine whose only device is the disk. -/
def host : Host (StateM Disk) where
  cwd := return Path.ofParts (← get).cwd
  isThere path := return ((← get).found? path).isSome
  isDevice path := return (← get).found? path matches some (.device _)
  read path := return (← get).read path
  write path content := do
    match (← get).write path content with
    | .ok d => set d; return .ok ()
    | .error e => return .error e
  remove path := modify fun d => d.remove path
  makeDirectories path := modifyGet fun d => d.makeDirectories path
  now := return (occasionOf 0).now
  occasion := modifyGet fun d => (occasionOf d.occasions, { d with occasions := d.occasions + 1 })

end Disk

end EntryCode
