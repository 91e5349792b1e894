import EntryCode.Isa.Instruction

/-!
Constants in registers. A constant is built by the shortest of a few fixed plans: one add, an upper
immediate and an add, eleven-bit chunks from the top down, or the plan of the complement followed
by an exclusive or.
-/

namespace EntryCode.Constant

inductive Step where
  /-- Starts from zero. -/
  | start (imm : Dword)
  | add (imm : Dword)
  | shift (amount : Nat)
  | upper (imm : Dword)
  | addWord (imm : Dword)
  | complement
  deriving DecidableEq, Repr

abbrev Plan := List Step

/-- The position and width of the chunks of a value, from the top down. -/
def chunks (u : Dword) : List (Nat × Nat) :=
  if u >>> 32 = 0 then [(21, 11), (10, 11), (0, 10)]
  else [(53, 11), (42, 11), (31, 11), (20, 11), (9, 11), (0, 9)]

def chunk (u : Dword) (pos width : Nat) : Dword :=
  (u >>> pos) &&& ((1#64 <<< width) - 1)

/-- The steps for the chunks that are left, once the first one that is not zero has been placed.
The shifts across zero chunks are joined; `pending` is the distance not shifted yet. -/
def rest (u : Dword) (pending : Nat) : List (Nat × Nat) → Plan
  | [] => if pending = 0 then [] else [.shift pending]
  | (pos, width) :: more =>
    let part := chunk u pos width
    if part = 0 then rest u (pending + width) more
    else .shift (pending + width) :: .add part :: rest u 0 more

/-- The steps from the first chunk that is not zero on. -/
def fromFirst (u : Dword) : List (Nat × Nat) → Plan
  | [] => []
  | (pos, width) :: more =>
    let part := chunk u pos width
    if part = 0 then fromFirst u more else .start part :: rest u 0 more

def chunked (u : Dword) : Plan :=
  fromFirst u (chunks u)

/-- An upper immediate and, unless it is zero, the signed rest. -/
def upperFirst (v : Dword) : Plan :=
  let high := (v + 0x800).sshiftRight 12
  let low := v - high <<< 12
  .upper (high &&& 0xfffff) :: if low = 0 then [] else [.addWord low]

/-- The first plan unless the second one is shorter. -/
def shorter (p q : Plan) : Plan :=
  if q.length < p.length then q else p

def direct (v : Dword) : Plan :=
  if Field.fitsSigned v 12 then [.start v]
  else if Field.fitsSigned v 32 then shorter (chunked v) (upperFirst v)
  else chunked v

/-- The plan that loads `v`. -/
def plan (v : Dword) : Plan :=
  let best := direct v
  if best.length = 1 then best else shorter best (direct (~~~v) ++ [Step.complement])

/-- The number of instructions that load `v`. -/
def length (v : Dword) : Nat :=
  (plan v).length

def Step.instruction (rd : Register) : Step → Instruction
  | .start imm => .immediate .addi rd .zero imm
  | .add imm => .immediate .addi rd rd imm
  | .shift amount => .shift .slli rd rd (BitVec.ofNat 64 amount)
  | .upper imm => .upper .lui rd imm
  | .addWord imm => .immediate .addiw rd rd imm
  | .complement => .immediate .xori rd rd (-1)

/-- The instructions that load `v` into `rd`, which must not be the zero register. -/
def load (rd : Register) (v : Dword) : Except Violation (List Instruction) :=
  if rd = .zero then .error (.constantIntoZero v)
  else .ok ((plan v).map (Step.instruction rd))

end EntryCode.Constant
