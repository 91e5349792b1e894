import EntryCode.Database.Medium
import EntryCode.Database.World

/-!
An open database: the file that holds it, the files beside it, and the settings under which it is
used. Before a database changes, what it held goes to a journal beside it; or the changes themselves
go to a log, which is taken over when the database is closed. What an earlier user left in such
files is cleared away when the database is next read.
-/

namespace EntryCode.Database

inductive Content where
  | blank
  /-- Something that cannot be used. -/
  | faulty (f : Fault)
  | stored (s : Store)
  deriving DecidableEq, Repr

namespace Content

/-- The content of a file. One with at most one byte holds nothing yet. -/
def ofBytes (bytes : Bytes) : Content :=
  if bytes.length ≤ 1 then .blank
  else match Store.ofBytes bytes with
    | .ok s => .stored s
    | .error f => .faulty f

/-- The bytes of a file that holds a database or nothing. -/
def bytes : Content → Bytes
  | .stored s => s.bytes
  | _ => []

/-- The database; a new one where there is none. -/
def store (paper : Paper) : Content → Store
  | .stored s => s
  | _ => .new paper

def logsAhead : Content → Bool
  | .stored s => s.header.readVersion = 2
  | _ => false

def isFixed : Content → Bool
  | .stored s => 2 < s.header.writeVersion
  | _ => false

end Content

inductive Companion where
  | absent
  | file (content : Bytes)
  | directory
  | refused
  deriving DecidableEq, Repr

def Companion.canBeFile : Companion → Bool
  | .absent | .file _ => true
  | .directory | .refused => false

structure Shelf where
  content : Content
  journal : Companion
  log : Companion
  index : Companion
  mark : Companion
  deriving DecidableEq, Repr

/-- A shelf with nothing on it. -/
def Shelf.empty : Shelf :=
  ⟨.blank, .absent, .absent, .absent, .absent⟩

/-- What becomes of the journal after a change, or what takes its place. -/
inductive JournalMode where
  | delete
  | persist
  | off
  | truncate
  | memory
  | wal
  deriving DecidableEq, Repr

structure Backup where
  content : Content
  others : List (Name × Store)
  deriving DecidableEq, Repr

structure Session where
  medium : Medium
  shelf : Shelf
  mode : JournalMode
  isLogging : Bool
  isExclusive : Bool
  isLocked : Bool
  /-- What comes back unless the transaction that was begun is completed. -/
  undo : Option Backup
  savepoints : List (Name × Backup)
  beganWithMark : Bool
  hasChanged : Bool
  isReadOnly : Bool
  /-- Whether a change gives the number of rows it touched in a row of its own. -/
  givesCounts : Bool
  encoding : Text.Encoding
  isEncodingFixed : Bool
  paper : Paper
  /-- The size of pages when the database is next written anew. -/
  nextSize : Option Nat
  nextVacuuming : Option Vacuuming
  isLoaded : Bool
  pageLimit : Nat
  /-- The database that is gone when the program ends, and those that were added. -/
  others : List (Name × Store)
  changes : Nat
  totalChanges : Nat
  lastNumber : Int
  now : Int
  reachable : List String
  deriving DecidableEq, Repr

namespace Session

def new (medium : Medium) (shelf : Shelf) (now : Int) (reachable : List String) : Session where
  medium := medium
  shelf := shelf
  mode := if medium = .memory then .memory else .delete
  isLogging := false
  isExclusive := false
  isLocked := false
  undo := none
  savepoints := []
  beganWithMark := false
  hasChanged := false
  isReadOnly := false
  givesCounts := false
  encoding := .utf8
  isEncodingFixed := false
  paper := .default
  nextSize := none
  nextVacuuming := none
  isLoaded := false
  pageLimit := Store.mostPages
  others := [("temp", .new .default)]
  changes := 0
  totalChanges := 0
  lastNumber := 0
  now := now
  reachable := reachable

/-- A step of a session. What it changed before a fault stays changed. -/
abbrev Step := ExceptT Fault (StateM Session)

def invalid {α : Type} (reason : String) : Step α :=
  throw (.invalid reason)

def setShelf (f : Shelf → Shelf) : Step Unit :=
  modify fun s => { s with shelf := f s.shelf }

def setContent (content : Content) : Step Unit :=
  setShelf fun shelf => { shelf with content }

def setJournal (journal : Companion) : Step Unit :=
  setShelf fun shelf => { shelf with journal }

def setLog (log : Companion) : Step Unit :=
  setShelf fun shelf => { shelf with log }

section Reading

/-- Clears away a journal that was left over. In a file that holds something, one whose first byte
is zero is not in use; and where a mark says that the database is in use, so may the journal be. -/
def settleJournal : Step Unit := do
  let s ← get
  let isBlank := s.shelf.content = .blank
  match if s.medium = .marked then .absent else s.shelf.journal with
  | .directory => if !isBlank then throw .unreadable
  | .file (b :: _) =>
    if isBlank ∨ (b ≠ 0 ∧ !(s.isExclusive ∧ s.shelf.content.logsAhead)) then setJournal .absent
  | _ => pure ()

def openLog : Step Unit := do
  let s ← get
  if !(s.isExclusive || s.medium.canLog) || !s.shelf.log.canBeFile then throw .noCompanion
  if s.shelf.log = .absent then setLog (.file [])
  modify fun s => { s with isLogging := true, mode := .wal }

def settleLog : Step Unit := do
  let s ← get
  if s.mode = .wal then set { s with mode := .delete }
  match s.shelf.log with
  | .directory => throw .noCompanion
  | .file (_ :: _) => if s.shelf.content = .blank then setLog .absent else openLog
  | _ => pure ()

def lock : Step Unit := do
  let s ← get
  if s.medium = .marked then
    match s.shelf.mark with
    | .absent => pure ()
    | .refused => throw .unreadable
    | _ => throw .busy

def read : Step Unit := do
  let s ← get
  if !s.isLogging && !s.isLocked then
    lock
    settleJournal
    settleLog
  modify fun s => { s with isLocked := s.isExclusive || s.undo.isSome }
  let s ← get
  if let .faulty f := s.shelf.content then throw f
  if s.shelf.content.logsAhead && !s.isLogging then openLog

def keptEncoding? (s : Session) : Option Text.Encoding :=
  match s.shelf.content with
  | .stored store => if store.header.encoding = 0 then none else some store.encoding
  | _ => none

/-- Finds out what the database holds, unless it is known. -/
def load : Step Unit := do
  let before ← get
  if !before.isLoaded then
    read
    modify fun s => { s with
      isLoaded := true
      isLocked := before.isLocked || s.isExclusive
      encoding := if s.isEncodingFixed then s.encoding else s.keptEncoding?.getD s.encoding
      isEncodingFixed := s.isEncodingFixed || s.keptEncoding?.isSome }

end Reading

section Changing

/-- Whether the index of the log is of no use, so that nothing can be added to the log. -/
def isStuck (s : Session) : Bool :=
  s.medium.hasIndex && !s.isExclusive && s.shelf.index = .directory

/-- Keeps what the database holds until the change is complete. -/
def keep : Step Unit := do
  let s ← get
  if !s.isLogging ∧ s.mode ≠ .off ∧ s.mode ≠ .memory then
    if !s.shelf.journal.canBeFile then throw .noCompanion
    setJournal (match s.mode with
      | .truncate => .file []
      | .persist => .file [0]
      | _ => .absent)
  modify fun s => { s with hasChanged := s.undo.isSome }

def begin : Step Unit := do
  if (← get).isReadOnly then throw .readOnly
  read
  let s ← get
  if (s.isLogging && s.isStuck) || s.shelf.content.isFixed then throw .readOnly

def store : Step Store := do
  let s ← get
  let found := s.shelf.content.store s.paper
  return { found with limit := s.pageLimit, isTouched := s.shelf.content = .blank }

def settled (s : Store) : Content :=
  .stored { s with limit := Store.mostPages, isTouched := false }

/-- Completes a change: unused pages are given back, and the change is counted. -/
def complete (s : Store) : Store :=
  let after := match Space.giveBack.run s with
    | .ok (_, after) => after
    | .error _ => s
  { after with header.changes := (s.header.changes + 1) % 0x100000000 }

/-- Puts a changed database in place. Within a transaction the change is completed later. -/
def put (store : Store) : Step Unit := do
  let s ← get
  setContent (settled (if s.undo.isSome then store else complete store))

/-- Changes the database, which is made if there is none. -/
def change (action : Store.Action Unit) : Step Unit := do
  begin
  keep
  match action.run (← store) with
  | .ok (_, after) => put after
  | .error f => throw f

end Changing

section Transactions

def backup (s : Session) : Backup :=
  ⟨s.shelf.content, s.others⟩

def restore (b : Backup) : Step Unit :=
  modify fun s => { s with shelf.content := b.content, others := b.others }

/-- Begins a transaction, at once with a change if it is to make one. -/
def beginTransaction (changes : Bool) : Step Unit := do
  let before := (← get).backup
  let isBlank := before.content = .blank
  if changes then
    begin
    if isBlank then change (pure ())
  if (← get).undo.isSome then invalid "cannot start a transaction within a transaction"
  modify fun s => { s with
      undo := some before
      savepoints := []
      beganWithMark := false
      hasChanged := changes && isBlank
      isLocked := s.isLocked || changes }

/-- Ends a transaction; its changes stay if it is completed. -/
def endTransaction (completes : Bool) : Step Unit := do
  let s ← get
  match s.undo with
  | none => invalid "no transaction is active"
  | some before =>
    if !completes then restore before
    else if s.hasChanged then
      if let .stored store := s.shelf.content then setContent (settled (complete store))
    modify fun s => { s with
      undo := none
      savepoints := []
      hasChanged := false
      isLocked := s.isExclusive }

/-- Sets a mark, to which changes can be undone. A transaction begins with it unless there is
one. -/
def setMark (name : Name) : Step Unit :=
  modify fun s => { s with
    undo := s.undo <|> some s.backup
    beganWithMark := if s.undo.isSome then s.beganWithMark else true
    savepoints := (name, s.backup) :: s.savepoints }

def marksFrom (name : Name) : Step (List (Name × Backup)) := do
  match (← get).savepoints.dropWhile fun m => !Name.same m.1 name with
  | [] => invalid s!"no such savepoint: {name}"
  | marks => return marks

/-- Takes a mark away with those set after it. With the first one a transaction ends. -/
def releaseMark (name : Name) : Step Unit := do
  let marks ← marksFrom name
  if marks.length = 1 ∧ (← get).beganWithMark then endTransaction true
  else modify fun s => { s with savepoints := marks.drop 1 }

/-- Undoes what was done since a mark was set. -/
def returnToMark (name : Name) : Step Unit := do
  let marks ← marksFrom name
  if let (_, b) :: _ := marks then restore b
  modify fun s => { s with savepoints := marks }

end Transactions

/-- What is left when a session ends. A log that could be used is gone, with its index, and so are
the changes of a transaction that was not completed. -/
def close (s : Session) : Shelf :=
  let shelf := { s.shelf with content := s.undo.elim s.shelf.content Backup.content }
  if !s.isLogging || s.isStuck then shelf
  else
    { shelf with
      log := .absent
      index := if s.medium.hasIndex && !s.isExclusive then .absent else shelf.index }

end Session

end EntryCode.Database
