import EntryCode.Interpreter.Basic
import EntryCode.Table
import EntryCode.Uuid

/-!
Images: a generated interpreter with what is needed to use it again. Entries and result handlers
are offsets into the code. A part that was never there is kept apart from an empty one.
-/

namespace EntryCode

/-- A named routine in the code of an image. Offset and size are read as signed. -/
structure ImageRoutine where
  name : String
  offset : Dword
  size : Dword
  deriving DecidableEq, Repr

structure Image where
  version : Dword
  id : Uuid
  fingerprint : String
  /-- Seconds of Unix time, read as signed. -/
  created : Dword
  features : Option (List String)
  base : Dword
  code : Option Bytes
  routines : Option (List ImageRoutine)
  entries : Option (Table String Dword)
  resultHandlers : Option (Table String Dword)
  /-- By position, which is read as signed. -/
  notes : Table Int (Option (List String))
  deriving DecidableEq, Repr

namespace Image

/-- The version of the format. It is part of every fingerprint. -/
def formatVersion : Dword := 1

/-- An image with nothing in it. -/
def empty : Image where
  version := 0
  id := .zero
  fingerprint := ""
  created := 0
  features := none
  base := 0
  code := none
  routines := none
  entries := none
  resultHandlers := none
  notes := []

def codeBytes (i : Image) : Bytes :=
  i.code.getD []

def entryTable (i : Image) : Table String Dword :=
  i.entries.getD []

def handlerTable (i : Image) : Table String Dword :=
  i.resultHandlers.getD []

section Validity

inductive Problem where
  | version (v : Dword)
  | codeSize (n : Nat)
  | outside (what : String) (off : Dword)
  | overrun (name : String)
  deriving DecidableEq, Repr

def Problem.message : Problem → String
  | .version v =>
    s!"image: format version {Text.signed v}, want {Text.signed formatVersion}"
  | .codeSize n => s!"image: code size {n} is not a whole number of instructions"
  | .outside what off => s!"image: {what} at offset {Text.signed off} outside code"
  | .overrun name => s!"image: routine {name} overruns code"

/-- Whether an offset is the start of an instruction in code of the given size. -/
def inCode (size : Nat) (off : Dword) : Bool :=
  0 ≤ off.toInt && off.toInt < size && off.toInt % instructionSize = 0

def routineProblem? (size : Nat) (r : ImageRoutine) : Option Problem :=
  if !inCode size r.offset then some (.outside r.name r.offset)
  else if size < (r.offset + r.size).toInt then some (.overrun r.name)
  else none

def entryProblem? (size : Nat) (kind : String) (e : String × Dword) : Option Problem :=
  if inCode size e.2 then none else some (.outside s!"{kind} {e.1}" e.2)

/-- The first thing wrong with an image: its version, the size of its code, or a location that is
not in the code. -/
def problem? (i : Image) : Option Problem :=
  let size := i.codeBytes.length
  if i.version ≠ formatVersion then some (.version i.version)
  else if size % instructionSize ≠ 0 then some (.codeSize size)
  else
    ((i.routines.getD []).findSome? (routineProblem? size)).or <|
    (i.entryTable.findSome? (entryProblem? size "entry")).or <|
    i.handlerTable.findSome? (entryProblem? size "result handler")

end Validity

section Lookup

def entry? (i : Image) (name : String) : Option Dword :=
  (i.entryTable.lookup name).map (i.base + ·)

def entryNames (i : Image) : List String :=
  (i.entryTable.mergeSort fun a b => a.2.sle b.2).map Prod.fst

def resultHandler? (i : Image) (t : BasicType) : Option Dword :=
  (i.handlerTable.lookup t.name).map (i.base + ·)

def listing (i : Image) : String :=
  Listing.render i.base (Listing.lines i.codeBytes (i.notes.map fun n => (n.1, n.2.getD [])))

end Lookup

def ofInterpreter (i : Interpreter) (fingerprint : String) (id : Uuid) (created : Dword) :
    Image where
  version := formatVersion
  id
  fingerprint
  created
  features := if i.extensions.names.isEmpty then none else some i.extensions.names
  base := i.base
  code := some i.code
  routines := some (i.routines.map fun r =>
    ⟨r.routine.name, BitVec.ofNat 64 r.offset, BitVec.ofNat 64 r.size⟩)
  entries := some (Table.ofEntries (EntryKind.all.filterMap fun k =>
    (i.entry? k).map fun addr => (k.name, addr - i.base)))
  resultHandlers := some (Table.ofEntries (BasicType.all.map fun t =>
    (t.name, i.resultHandler t - i.base)))
  notes := Table.ofEntries (i.notes.map fun n => (n.1, some n.2))

end Image

end EntryCode
