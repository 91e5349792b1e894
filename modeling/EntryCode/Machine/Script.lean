import EntryCode.Machine.Run

/-!
Scripted environments. A stub stands for a routine outside the code under test: it records that it
was reached, sets registers and memory, and returns, jumps or ends the run. Fences and the stores
into watched ranges are recorded too.
-/

namespace EntryCode.Script

/-- A value, or the contents of a register when it is looked at. -/
inductive Value where
  | literal (v : Dword)
  | x (i : BitVec 5)
  | f (i : BitVec 5)
  deriving DecidableEq, Repr

def Value.eval (m : Machine) : Value → Dword
  | .literal v => v
  | .x i => m.x.get i
  | .f i => m.f.get i

/-- A register as `x` or `f`, a colon and its number. -/
def Value.ofRegister? (s : String) : Option Value :=
  match s.toList with
  | kind :: ':' :: digits => do
    let n ← Text.natural? digits
    if 32 ≤ n then none
    else match kind with
      | 'x' => some (.x (BitVec.ofNat 5 n))
      | 'f' => some (.f (BitVec.ofNat 5 n))
      | _ => none
  | _ => none

structure Place where
  base : Value
  offset : Dword
  deriving DecidableEq, Repr

def Place.address (m : Machine) (p : Place) : Dword :=
  p.base.eval m + p.offset

inductive Content where
  | value (size : Nat) (v : Value)
  | bytes (b : Bytes)
  deriving DecidableEq, Repr

structure Peek where
  place : Place
  size : Nat
  deriving DecidableEq, Repr

def Peek.read (m : Machine) (p : Peek) : Dword :=
  m.memory.load (p.place.address m) p.size

structure Setup where
  x : List (BitVec 5 × Value)
  f : List (BitVec 5 × Value)
  memory : List (Place × Content)
  deriving DecidableEq, Repr

def poke (m : Machine) (place : Place) : Content → Machine
  | .value size v =>
    { m with memory := m.memory.store (place.address m) size (v.eval m) }
  | .bytes b => { m with memory := m.memory.write (place.address m) b }

def Setup.apply (s : Setup) (m : Machine) : Machine :=
  let m := s.x.foldl (fun m (i, v) => { m with x := m.x.set i (v.eval m) }) m
  let m := s.f.foldl (fun m (i, v) => { m with f := m.f.set i (v.eval m) }) m
  s.memory.foldl (fun m (place, content) => poke m place content) m

structure Stub where
  name : String
  setup : Setup
  pc : Option Value
  peeks : Option (List Peek)
  action : TrapAction
  deriving DecidableEq, Repr

structure Visit where
  name : String
  arguments : List Dword
  ra : Dword
  sp : Dword
  fp : Dword
  steps : Nat
  peeked : Option (List Dword)
  deriving DecidableEq, Repr

inductive Event where
  | visit (v : Visit)
  | fence (pred succ : FenceSet)
  | store (addr : Dword) (size : Nat) (v : Dword)
  deriving DecidableEq, Repr

structure Log where
  events : List Event
  visits : Nat
  exit : String

def Log.empty : Log := ⟨[], 0, ""⟩

def visitLimit : Nat := 100

def Stub.visit (s : Stub) (m : Machine) (steps : Nat) : Visit :=
  { name := s.name
    arguments := [m.x.get 10, m.x.get 11, m.x.get 12]
    ra := m.x.get 1
    sp := m.x.get 2
    fp := m.x.get 8
    steps
    peeked := s.peeks.map fun peeks => peeks.map (Peek.read m) }

/-- What reaching a stub does. The last visit allowed is only recorded. -/
def Stub.act (s : Stub) (m : Machine) (steps : Nat) (log : Log) : Machine × Log × TrapAction :=
  let log := { log with events := .visit (s.visit m steps) :: log.events, visits := log.visits + 1 }
  if visitLimit ≤ log.visits then (m, { log with exit := "trap-limit" }, .halt)
  else
    let m := s.setup.apply m
    let m := match s.pc with
      | some v => { m with pc := v.eval m }
      | none => m
    match s.action with
    | .halt => (m, { log with exit := s!"stop:{s.name}" }, .halt)
    | action => (m, log, action)

abbrev Watch := List (Dword × Dword)

def Watch.covers (w : Watch) (addr : Dword) : Bool :=
  w.any fun (low, high) => low ≤ addr && addr < high

def record (watch : Watch) (e : Effect) (log : Log) : Log :=
  match e with
  | .fence pred succ => { log with events := .fence pred succ :: log.events }
  | .store addr size v =>
    if watch.covers addr then { log with events := .store addr size v :: log.events } else log
  | _ => log

/-- The stubs by address; a later one at the same address replaces an earlier one. -/
def environment (stubs : List (Dword × Stub)) (watch : Watch) : Environment Log where
  trap pc := (stubs.reverse.lookup pc).map Stub.act
  observe := record watch

/-- Runs from `entry` until a stub ends the run or it stops early. -/
def run (m : Machine) (stubs : List (Dword × Stub)) (watch : Watch) (entry : Dword) (limit : Nat) :
    Progress Log × Ending :=
  Progress.run (environment stubs watch) limit (limit + visitLimit + 1)
    ⟨{ m with pc := entry }, 0, .empty⟩

end EntryCode.Script
