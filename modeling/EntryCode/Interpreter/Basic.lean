import EntryCode.Interpreter.Entry
import EntryCode.Interpreter.Exit
import EntryCode.Region.Heap

/-!
The generated interpreter: all routines in one piece of code. Transfers between routines are
relative, so the code is the same at every address.
-/

namespace EntryCode

structure PlacedRoutine where
  routine : Routine
  offset : Nat
  size : Nat
  deriving DecidableEq, Repr

structure Interpreter where
  base : Dword
  code : Bytes
  extensions : Extensions
  routines : List PlacedRoutine
  notes : Listing.Notes
  deriving DecidableEq, Repr

namespace Interpreter

section Code

variable (cfg : Config) (e : Extensions)

def program? : Routine → Option Program
  | .forwardException => some (Exit.forwardException cfg)
  | .removeActivationException => some Exit.removeActivationException
  | .removeActivation => some (Exit.removeActivation cfg)
  | .throwStackOverflow => some (Exit.throwStackOverflow cfg)
  | .resultHandler t => some (Exit.resultHandler e t)
  | .entry k => Entry.program? cfg e k

def programs : List (Routine × Program) :=
  Routine.all.filterMap fun r => (program? cfg e r).map fun p => (r, p)

def place : List (Routine × Program) → Emit (List PlacedRoutine)
  | [] => return []
  | (r, p) :: rest => do
    Emit.comment r.name
    let start := (← get).pos
    p.run
    let stop := (← get).pos
    let more ← place rest
    return ⟨r, start, stop - start⟩ :: more

def emitAll : Emit (List PlacedRoutine × Bytes) := do
  Program.run (List.replicate Routine.labelCount .newLabel)
  let routines ← place (programs cfg e)
  let code ← Emit.flush
  return (routines, code)

/-- The code of the interpreter, where its routines are, and the notes on it. -/
structure Blob where
  routines : List PlacedRoutine
  code : Bytes
  notes : Listing.Notes
  deriving DecidableEq, Repr

def blob : Except Violation Blob :=
  match (emitAll cfg e).run (.new e) with
  | .ok (routines, code) a => .ok { routines, code, notes := a.notes }
  | .error v _ => .error v

end Code

/-- Why an interpreter is not generated. -/
inductive Error where
  | config (p : Config.Problem)
  | install (f : Region.Failure Violation)
  deriving DecidableEq, Repr

def Error.message : Error → String
  | .config p => s!"interp: {p.message}"
  | .install f => s!"interp: {f.message Violation.message}"

/-- Generates an interpreter and installs it through `emit`. -/
def generateInto {R : Type}
    (emit : (Dword → Except Violation Bytes) → Region.Work Violation R Dword)
    (cfg : Config) (e : Extensions) : EStateM Error R Interpreter := do
  match cfg.problem? with
  | some p => throw (.config p)
  | none =>
    let made := blob cfg e
    let base ← EStateM.adaptExcept .install (emit fun _ => made.map Blob.code)
    match made with
    | .error v => throw (.install (.generator v))
    | .ok b =>
      return { base, code := b.code, extensions := e, routines := b.routines, notes := b.notes }

def generate (cfg : Config) (e : Extensions) : EStateM Error Heap Interpreter :=
  generateInto Heap.emit cfg e

section Lookup

variable (i : Interpreter)

def address (r : PlacedRoutine) : Dword :=
  i.base + BitVec.ofNat 64 r.offset

def placed? (r : Routine) : Option PlacedRoutine :=
  i.routines.find? fun p => p.routine = r

/-- The routine called `name`. -/
def named? (name : String) : Option PlacedRoutine :=
  i.routines.find? fun p => p.routine.name = name

def entry? (k : EntryKind) : Option Dword :=
  (i.placed? (.entry k)).map i.address

def resultHandler (t : BasicType) : Dword :=
  ((i.placed? (.resultHandler t)).map i.address).getD 0

/-- The entry that a method is sent to. A math method without an entry of its own uses the one of
ordinary methods. -/
def entryFor (m : Method) : Dword :=
  let ordinary := if m.flags.isSynchronized then EntryKind.normalSynchronized else .normal
  ((i.entry? (.ofMethod m)).or (i.entry? ordinary)).getD 0

def listing : String :=
  Listing.render i.base (Listing.lines i.code i.notes)

end Lookup

end Interpreter

end EntryCode
