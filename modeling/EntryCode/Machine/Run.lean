import EntryCode.Machine.Basic

/-!
Runs of a machine among routines that are not simulated. Addresses may be traps: when control
reaches one, the environment acts in place of memory, and execution returns, goes on elsewhere or
ends there. The environment also sees the effect of every instruction.
-/

namespace EntryCode

inductive TrapAction where
  /-- Continue at the address in `ra`. -/
  | resume
  | jump
  | halt
  deriving DecidableEq, Repr

/-- What surrounds a machine; `σ` is what it remembers. -/
structure Environment (σ : Type) where
  trap : Dword → Option (Machine → Nat → σ → Machine × σ × TrapAction)
  observe : Effect → σ → σ

structure Progress (σ : Type) where
  machine : Machine
  steps : Nat
  memo : σ

/-- How a run ends: at a trap, early, or not within the rounds it was given. -/
inductive Ending where
  | halted
  | stopped (s : Stop)
  | unfinished
  deriving DecidableEq, Repr

namespace Progress

variable {σ : Type}

/-- One trap or one instruction, of which at most `limit` are executed. -/
def round (env : Environment σ) (limit : Nat) (p : Progress σ) :
    Progress σ × Option Ending :=
  match env.trap p.machine.pc with
  | some act =>
    let (m, memo, action) := act p.machine p.steps p.memo
    match action with
    | .halt => ({ p with machine := m, memo }, some .halted)
    | .resume => ({ p with machine := { m with pc := m.x.get 1 }, memo }, none)
    | .jump => ({ p with machine := m, memo }, none)
  | none =>
    if limit ≤ p.steps then (p, some (.stopped .stepLimit))
    else match p.machine.advance with
      | .ok (m, e) => (⟨m, p.steps + 1, env.observe e p.memo⟩, none)
      | .error s => ({ p with steps := p.steps + 1 }, some (.stopped s))

/-- Runs for at most `fuel` rounds. -/
def run (env : Environment σ) (limit : Nat) : Nat → Progress σ → Progress σ × Ending
  | 0, p => (p, .unfinished)
  | fuel + 1, p =>
    match p.round env limit with
    | (q, some ending) => (q, ending)
    | (q, none) => run env limit fuel q

end Progress

/-- The machine after the given words, run from address zero to their end. -/
def Machine.afterWords (words : List Word) : Machine :=
  let start : Machine := ⟨.zeros, .zeros, 0, Memory.empty.writeWords 0 words⟩
  let atEnd : Environment Unit :=
    { trap := fun pc =>
        if pc.toNat = instructionSize * words.length then some fun m _ u => (m, u, .halt) else none
      observe := fun _ u => u }
  (Progress.run atEnd words.length (words.length + 1) ⟨start, 0, ()⟩).1.machine

end EntryCode
