import EntryCode.Isa.Listing

/-!
The assembler: words emitted so far, labels, and notes. A branch to a label that is not bound yet
is emitted with displacement zero and remembered; binding the label sends it to its place. An
operation that breaks a rule keeps what it did before it noticed: a branch remembers its place
before its registers are looked at, and a label counts as bound before its branches are sent to it.
-/

namespace EntryCode

structure LabelState where
  bound : Option Nat
  /-- The branches that wait for it, in the order in which they were emitted. -/
  pending : List Nat
  deriving DecidableEq, Repr

structure Assembler where
  words : Array Word
  /-- Label `n` is at index `n - 1`. -/
  labels : Array LabelState
  comments : List (Nat × String)
  extensions : Extensions
  /-- Set by `flush`; nothing is emitted afterwards. -/
  flushed : Bool
  deriving DecidableEq, Repr

/-- An assembler operation. The state it leaves counts also when it breaks a rule. -/
abbrev Emit := EStateM Violation Assembler

namespace Assembler

def new (extensions : Extensions) : Assembler :=
  { words := #[], labels := #[], comments := [], extensions, flushed := false }

def pos (a : Assembler) : Nat :=
  instructionSize * a.words.size

/-- The words of `a` that are new or not what they were in `b`, with their positions. -/
def changedSince (a b : Assembler) : List (Nat × Word) :=
  (List.range a.words.size).filterMap fun i =>
    if a.words[i]? = b.words[i]? then none
    else some (instructionSize * i, a.words.getD i 0)

def index (a : Assembler) (pos : Int) : Except Violation Nat :=
  let i := (pos / instructionSize).toNat
  if 0 ≤ pos ∧ pos % instructionSize = 0 ∧ i < a.words.size then .ok i
  else .error (.noInstruction pos)

def word (a : Assembler) (pos : Int) : Except Violation Word := do
  let i ← a.index pos
  return a.words.getD i 0

def labelIndex (a : Assembler) (l : Label) : Except Violation Nat :=
  if 0 < l.index ∧ l.index ≤ a.labels.size then .ok (l.index.toNat - 1)
  else .error (.foreignLabel l)

def labelState (a : Assembler) (l : Label) : Except Violation LabelState := do
  let i ← a.labelIndex l
  return a.labels.getD i ⟨none, []⟩

def isBound (a : Assembler) (l : Label) : Except Violation Bool := do
  let state ← a.labelState l
  return state.bound.isSome

def target (a : Assembler) (l : Label) : Except Violation Nat := do
  let state ← a.labelState l
  match state.bound with
  | some pos => return pos
  | none => throw (.unboundTarget l)

def notes (a : Assembler) : Listing.Notes :=
  a.comments.foldl (fun notes c => notes.add c.1 c.2) []

def code (a : Assembler) : Bytes :=
  Bytes.ofWords a.words.toList

def listing (a : Assembler) (base : Dword) : String :=
  Listing.render base (Listing.lines a.code a.notes)

def setLabel (a : Assembler) (l : Label) (state : LabelState) : Assembler :=
  { a with labels := a.labels.setIfInBounds (l.index.toNat - 1) state }

end Assembler

namespace Emit

/-- A check that reads the assembler and changes nothing. -/
def check {α : Type} (f : Assembler → Except Violation α) : Emit α := fun a =>
  match f a with
  | .ok x => .ok x a
  | .error v => .error v a

def newLabel : Emit Label := fun a =>
  .ok ⟨a.labels.size + 1⟩ { a with labels := a.labels.push ⟨none, []⟩ }

def comment (text : String) : Emit Unit :=
  modify fun a => { a with comments := a.comments ++ [(a.pos, text)] }

def emit (w : Word) : Emit Unit := fun a =>
  if a.flushed then .error (.emitAfterFlush w) a else .ok () { a with words := a.words.push w }

/-- An instruction of an extension needs that extension. -/
def require (i : Instruction) (a : Assembler) : Except Violation Unit :=
  match i.requirement? with
  | some (what, e) => if a.extensions.has e then .ok () else .error (.extension what e)
  | none => .ok ()

def instruction (i : Instruction) : Emit Unit := do
  check (require i)
  let w ← check fun _ => i.encode
  emit w

/-- The displacement from the current position to a label, or zero for a label that is not bound,
which then remembers the position. -/
def refer (l : Label) : Emit Dword := do
  let state ← check (·.labelState l)
  let a ← get
  match state.bound with
  | some pos => return BitVec.ofNat 64 pos - BitVec.ofNat 64 a.pos
  | none =>
    set (a.setLabel l { state with pending := state.pending ++ [a.pos] })
    return 0

def branch (c : Condition) (rs1 rs2 : Register) (l : Label) : Emit Unit := do
  if !c.isValid then throw (.condition c)
  let disp ← refer l
  instruction (.branch c rs1 rs2 disp)

def branchTo (c : Condition) (rs1 rs2 : Register) (target : Dword) : Emit Unit := do
  let a ← get
  instruction (.branch c rs1 rs2 (target - BitVec.ofNat 64 a.pos))

def jump (rd : Register) (l : Label) : Emit Unit := do
  let disp ← refer l
  instruction (.jump rd disp)

def jumpTo (rd : Register) (target : Dword) : Emit Unit := do
  let a ← get
  instruction (.jump rd (target - BitVec.ofNat 64 a.pos))

/-- Sends the branch at `pos` to `dest`. -/
def patch (dest pos : Nat) : Emit Unit := do
  let i ← check (·.index pos)
  let w ← check (·.word pos)
  let sent ← check fun _ => Format.retarget (BitVec.ofNat 64 dest) w (BitVec.ofNat 64 pos)
  modify fun a => { a with words := a.words.setIfInBounds i sent }

/-- Binds a label to the current position and sends the branches that wait for it there. -/
def bind (l : Label) : Emit Unit := do
  let a ← get
  if a.flushed then throw (.bindAfterFlush l)
  let state ← check (·.labelState l)
  match state.bound with
  | some pos => throw (.boundTwice l pos)
  | none =>
    set (a.setLabel l { state with bound := some a.pos })
    state.pending.forM (patch a.pos)
    modify fun b => b.setLabel l ⟨some a.pos, []⟩

/-- The first label that is referred to and not bound, with the places that refer to it. -/
def unresolved? (a : Assembler) : Option Violation :=
  (a.labels.toList.mapIdx fun i state => match state with
    | ⟨none, first :: rest⟩ => some (Violation.unboundReference (i + 1) (rest.length + 1) first)
    | _ => none).findSome? id

def flush : Emit Bytes := fun a =>
  match unresolved? a with
  | some v => .error v a
  | none => .ok a.code { a with flushed := true }

end Emit

end EntryCode
