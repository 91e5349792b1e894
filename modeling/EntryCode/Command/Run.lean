import EntryCode.Calendar
import EntryCode.Command.Host
import EntryCode.Image.CacheDatabase
import EntryCode.Image.Handler
import EntryCode.Image.Location
import EntryCode.Manifest.Reader

/-!
The command: it finds the manifest, opens the cache, and prints or writes what the options ask
for. Text that was printed stays printed when a later step fails.
-/

namespace EntryCode

open Database

structure Outcome where
  exit : Nat
  stdout : String
  stderr : String
  deriving DecidableEq, Repr

namespace Command

section Reports

/-- The text in some bytes. One that is part of no character shows as a mark. -/
def shown (bytes : Bytes) : String :=
  String.ofList (Text.charsOfUtf8 bytes)

/-- A list of cached images, with at most the first twelve bytes of each fingerprint. -/
def cacheListing (all : List CacheDatabase.Listed) : String :=
  if all.isEmpty then "no cached images\n"
  else String.join (all.map fun e =>
    s!"{shown (e.fingerprint.take 12)}  {shown e.id}  {Calendar.timestamp e.created}  " ++
      s!"{e.size} bytes\n")

def entryListing (i : Image) : String :=
  s!"image {i.id.text}  {i.fingerprint}  base {Text.hex i.base.toNat}\n" ++
    String.join (i.entryNames.map fun name =>
      s!"  0x{Text.hexPadded 12 ((i.entry? name).getD 0).toNat}  {name}\n")

end Reports

variable {m : Type → Type} [Monad m] (h : Host m)

section Actions

abbrev Action (m : Type → Type) := ExceptT String (StateT String m)

def say (text : String) : Action m Unit :=
  modify (· ++ text)

def orFail {ε α : Type} (message : ε → String) (r : Except ε α) : Action m α :=
  match r with
  | .ok a => pure a
  | .error e => throw (message e)

def Action.perform {α : Type} (a : Action m α) : m (Except String α × String) :=
  a.run.run ""

end Actions

section Files

/-- Why a cache cannot be opened. -/
inductive OpenError where
  | directory
  | unreadable
  | noCache
  deriving DecidableEq, Repr

def OpenError.message : OpenError → String
  | .directory => "creating cache directory"
  | .unreadable => "setting busy timeout"
  | .noCache => "creating table"

/-- The content of a file, which is made if it is not there. -/
def readOrMake (file : String) : Action m (Except FileError Bytes) := do
  match ← h.read file with
  | .error .missing => return (← h.write file []).map fun _ => []
  | content => return content

def companion (file : String) : Action m Companion := do
  match ← h.read file with
  | .ok content => return .file content
  | .error .missing => return .absent
  | .error .isDirectory => return .directory
  | .error _ => return .refused

/-- The names of the files beside a cache, with their places on a shelf. -/
def companions (file : String) : List (String × (Shelf → Companion)) :=
  [(file ++ "-journal", Shelf.journal), (file ++ "-wal", Shelf.log), (file ++ "-shm", Shelf.index)]

/-- What is found where a cache is kept. Its file is made if it is not there. A device holds
nothing and keeps nothing, so that no change of it can be carried out. -/
def takeShelf (l : Location) : Action m Shelf := do
  if l.medium = .memory then return .empty
  if Location.longestPath < (Path.absolute (← h.cwd) l.file).utf8ByteSize then
    throw OpenError.unreadable.message
  if ← h.isDevice l.file then return { Shelf.empty with journal := .refused }
  let bytes ← orFail (fun _ => OpenError.unreadable.message) (← readOrMake h l.file)
  return {
    content := .ofBytes bytes
    journal := ← companion h (l.file ++ "-journal")
    log := ← companion h (l.file ++ "-wal")
    index := ← companion h (l.file ++ "-shm")
    mark := ← companion h (l.file ++ ".lock") }

def leaveShelf (l : Location) (before after : Shelf) : Action m Unit := do
  if l.medium ≠ .memory then
    if before.content ≠ after.content then
      let _ ← h.write l.file after.content.bytes
    for (file, part) in companions l.file do
      if part before ≠ part after then
        match part after with
        | .file content => let _ ← h.write file content
        | _ => h.remove file

structure OpenCache where
  location : Location
  session : Session

def useCache (l : Location) : ExceptT OpenError (StateM Session) Unit := do
  l.configure.adapt fun _ => .unreadable
  CacheDatabase.make.adapt fun _ => .noCache

/-- Opens the cache at a path. Its directory is made before the settings are looked at, and the
file before they are carried out. -/
def openCache (path : String) : Action m OpenCache := do
  if !(← h.makeDirectories (Path.parent path)) then throw OpenError.directory.message
  let some location := Location.ofPath? path | throw OpenError.unreadable.message
  let shelf ← takeShelf h location
  let reachable ← location.paths.filterM fun p => h.isThere p
  let start := Session.new location.medium shelf (← h.now).toInt reachable
  let (result, session) := (useCache location).run.run start
  leaveShelf h location shelf session.close
  orFail OpenError.message result
  return { location, session }

/-- Does something with a cache; `report` says what is wrong if that fails. -/
def withCache {α : Type} (c : OpenCache) (report : Database.Fault → String) (step : Session.Step α) :
    Action m (α × OpenCache) := do
  let (result, session) := step.run.run c.session
  leaveShelf h c.location c.session.close session.close
  return (← orFail report result, { c with session })

def saveImage (c : OpenCache) (i : Image) : Action m Unit := do
  let report (e : ImageCache.Error) : String := e.message
  if i.fingerprint = "" then throw (report (.noFingerprint i.id))
  let _ ← withCache h c (fun f => report (.fault s!"saving image {i.id.text}" f))
    (CacheDatabase.save i)

def readImage (path : String) : Action m Image := do
  match ← h.read path with
  | .ok bytes => orFail Image.DecodeError.message (Image.decode bytes)
  | .error .isDirectory => throw s!"image: read {path}: {FileError.isDirectory.message}"
  | .error e => throw s!"image: open {path}: {e.message}"

def putImage (path : String) (i : Image) : Action m Unit := do
  saveImage h (← openCache h path) i

end Files

/-- The manifest in a directory or in one around it, or the default one. -/
def loadManifest (dir : String) : Action m Manifest := do
  let start := Path.absolute (← h.cwd) dir
  match ← (Path.ancestors start).findM? fun d => h.isThere (Path.join d Manifest.fileName) with
  | none => return .default
  | some d =>
    let path := Path.join d Manifest.fileName
    let bytes ← orFail (fun (e : FileError) => s!"cannot read {path}: {e.message}") (← h.read path)
    return { ← orFail (Manifest.ReadError.message path) (Manifest.ofBytes bytes) with dir := d }

def removeImage (c : OpenCache) (fingerprint : String) : Action m OpenCache := do
  let report (e : ImageCache.Error) := s!"{fingerprint}: {e.message}"
  let (isGone, c) ← withCache h c (fun f => report (.fault "deleting image" f))
    (CacheDatabase.remove fingerprint)
  if !isGone then throw (report .notFound)
  return c

def inspectCache (o : Options) (c : OpenCache) : Action m Unit := do
  let c ← if o.cacheDelete = "" then pure c else removeImage h c o.cacheDelete
  if o.cacheList then
    let report (f : Database.Fault) := (ImageCache.Error.fault "listing images" f).message
    let (all, _) ← withCache h c report CacheDatabase.list
    say (cacheListing all)

def cached? (c : OpenCache) (fingerprint : String) : Option Image :=
  match ((CacheDatabase.image? fingerprint).run.run c.session).1 with
  | .ok found => found
  | .error _ => none

def present (o : Options) (i : Image) : Action m Unit := do
  if o.output ≠ "" then
    orFail (fun (e : FileError) =>
        let step := if e = .noSpace then "write" else "open"
        s!"image: {step} {o.output}: {e.message}")
      (← h.write o.output i.encode)
    say s!"Wrote {o.output} ({i.codeBytes.length} bytes of code)\n"
  if o.entries then say (entryListing i)
  if o.list then say i.listing
  if o.signature ≠ "" then
    say (← orFail Image.HandlerError.message (i.handlerListing o.signature o.static))

def obey (o : Options) : Action m Unit := do
  let manifest ← loadManifest h o.dir
  let path := if o.noCache then "" else manifest.cachePath
  let cache ← if path = "" then pure none
    else do
      pure (some (← openCache h path))
  if o.cacheList ∨ o.cacheDelete ≠ "" then
    match cache with
    | none => throw "image cache is disabled"
    | some c => inspectCache h o c
  else
    let (i, isNew) ← orFail Build.Error.message
      (Build.image manifest o (cache.map cached?) (← h.occasion))
    if let (some c, true) := (cache, isNew) then
      tryCatch (saveImage h c i) fun _ => pure ()
    present h o i

def run (arguments : List String) : m Outcome := do
  match Options.parse arguments with
  | .error r => return ⟨r.exitCode, "", r.message ++ Options.usage⟩
  | .ok o =>
    let (result, printed) ← (obey h o).perform
    match result with
    | .ok _ => return ⟨0, printed, ""⟩
    | .error message => return ⟨1, printed, s!"Error: {message}\n"⟩

end Command

end EntryCode
