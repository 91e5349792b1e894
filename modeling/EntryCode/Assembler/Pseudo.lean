import EntryCode.Assembler.Constant

/-!
Instructions that stand for others. Every check that concerns the whole sequence comes before the
first instruction of it.
-/

namespace EntryCode.Pseudo

section Single

def nop : Instruction := .immediate .addi .zero .zero 0
def mv (rd rs : Register) : Instruction := .immediate .addi rd rs 0
def not (rd rs : Register) : Instruction := .immediate .xori rd rs (-1)
def neg (rd rs : Register) : Instruction := .arithmetic .sub rd .zero rs

/-- One where `rs` is not zero, else zero. -/
def snez (rd rs : Register) : Instruction := .arithmetic .sltu rd .zero rs

/-- One where `rs` is zero, else zero. -/
def seqz (rd rs : Register) : Instruction := .immediate .sltiu rd rs 1

/-- The low word of `rs` with its sign. -/
def sextW (rd rs : Register) : Instruction := .immediate .addiw rd rs 0

def jr (rs : Register) : Instruction := .immediate .jalr .zero rs 0
def ret : Instruction := jr .ra
def fabs (fd fs : FloatRegister) : Instruction := .signXor fd fs fs

end Single

/-- Calls an absolute address through `tmp`. -/
def callAddress (addr : Dword) (tmp : Register) : Except Violation (List Instruction) := do
  let li ← Constant.load tmp addr
  return li ++ [Instruction.immediate .jalr .ra tmp 0]

/-- Jumps to an absolute address through `tmp`. -/
def jumpAddress (addr : Dword) (tmp : Register) : Except Violation (List Instruction) := do
  let li ← Constant.load tmp addr
  return li ++ [Instruction.immediate .jalr .zero tmp 0]

/-- `rd = rs + v`, through `tmp` where `v` is no immediate. -/
def addConstant (rd rs : Register) (v : Dword) (tmp : Register) :
    Except Violation (List Instruction) := do
  if Field.fitsSigned v 12 then return [.immediate .addi rd rs v]
  else if tmp = .absent ∨ tmp = rs then throw (.wideAddTemp rd rs v)
  else
    let li ← Constant.load tmp v
    return li ++ [Instruction.arithmetic .add rd rs tmp]

/-- The register that takes a wide address: `tmp`, or the destination of a load without one. -/
def scratch (a : Access) (tmp : Register) (isStore : Bool) : Except Violation Register :=
  if tmp ≠ .absent then
    if Register.distinct [a.moved, a.base, tmp] then .ok tmp else .error (.sharedTemp a tmp)
  else if isStore then .error (.missingTemp a)
  else if a.moved = a.base ∨ a.moved = .zero then .error (.addressClobbered a)
  else .ok a.moved

/-- The instructions that build the address of an access in a register, and the register and
offset to use then. -/
def resolve (a : Access) (tmp : Register) (isStore : Bool) :
    Except Violation (List Instruction × Register × Dword) := do
  let r ← scratch a tmp isStore
  match a.offset with
  | .register off => return ([.arithmetic .add r a.base off], r, 0)
  | .constant v =>
    let li ← Constant.load r v
    return (li ++ [Instruction.arithmetic .add r r a.base], r, 0)

/-- The address as it stands where the offset is an immediate, and resolved elsewhere. -/
def address (a : Access) (tmp : Register) (isStore : Bool) :
    Except Violation (List Instruction × Register × Dword) :=
  match a.offset with
  | .constant v => if Field.fitsSigned v 12 then .ok ([], a.base, v) else resolve a tmp isStore
  | .register _ => resolve a tmp isStore

/-- Loads from `base` plus any offset. -/
def load (op : LoadOp) (rd base : Register) (offset : Offset) (tmp : Register) :
    Except Violation (List Instruction) := do
  let (before, b, off) ← address ⟨op.name, rd, base, offset⟩ tmp false
  return before ++ [.load op rd b off]

/-- Stores to `base` plus any offset. -/
def store (op : StoreOp) (src base : Register) (offset : Offset) (tmp : Register) :
    Except Violation (List Instruction) := do
  let (before, b, off) ← address ⟨op.name, src, base, offset⟩ tmp true
  return before ++ [.store op src b off]

end EntryCode.Pseudo
