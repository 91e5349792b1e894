import EntryCode.Isa.Violation

/-!
The instruction formats: how the fields of an instruction lie in its word, and how they are read
back. The displacement of a branch or a jump is scattered over the word; `retarget` replaces it and
`destination` follows it.
-/

namespace EntryCode.Format

section Fields

def opcode (w : Word) : BitVec 7 := w.extractLsb' 0 7
def rd (w : Word) : BitVec 5 := w.extractLsb' 7 5
def funct3 (w : Word) : BitVec 3 := w.extractLsb' 12 3
def rs1 (w : Word) : BitVec 5 := w.extractLsb' 15 5
def rs2 (w : Word) : BitVec 5 := w.extractLsb' 20 5
def funct7 (w : Word) : BitVec 7 := w.extractLsb' 25 7

def immediateBits (w : Word) : BitVec 12 := w.extractLsb' 20 12

/-- The twelve bits of a store offset, split around the two source registers. -/
def storeBits (w : Word) : BitVec 12 := funct7 w ++ rd w

def immediate (w : Word) : Dword := (immediateBits w).signExtend 64
def storeOffset (w : Word) : Dword := (storeBits w).signExtend 64

def upperBits (w : Word) : BitVec 20 := w.extractLsb' 12 20

def branchBits (w : Word) : BitVec 13 :=
  w.extractLsb' 31 1 ++ w.extractLsb' 7 1 ++ w.extractLsb' 25 6 ++ w.extractLsb' 8 4 ++ 0#1

def jumpBits (w : Word) : BitVec 21 :=
  w.extractLsb' 31 1 ++ w.extractLsb' 12 8 ++ w.extractLsb' 20 1 ++ w.extractLsb' 21 10 ++ 0#1

def branchDisplacement (w : Word) : Dword := (branchBits w).signExtend 64
def jumpDisplacement (w : Word) : Dword := (jumpBits w).signExtend 64

end Fields

section Opcodes

def opLoad : BitVec 7 := 0x03
def opLoadFloat : BitVec 7 := 0x07
def opFence : BitVec 7 := 0x0f
def opImmediate : BitVec 7 := 0x13
def opAuipc : BitVec 7 := 0x17
def opImmediate32 : BitVec 7 := 0x1b
def opStore : BitVec 7 := 0x23
def opStoreFloat : BitVec 7 := 0x27
def opRegister : BitVec 7 := 0x33
def opLui : BitVec 7 := 0x37
def opRegister32 : BitVec 7 := 0x3b
def opFloat : BitVec 7 := 0x53
def opBranch : BitVec 7 := 0x63
def opJumpRegister : BitVec 7 := 0x67
def opJump : BitVec 7 := 0x6f
def opSystem : BitVec 7 := 0x73

end Opcodes

section Layout

def threeRegister (op : BitVec 7) (f3 : BitVec 3) (f7 : BitVec 7) (d s1 s2 : BitVec 5) : Word :=
  f7 ++ s2 ++ s1 ++ f3 ++ d ++ op

def shortImmediate (op : BitVec 7) (f3 : BitVec 3) (d s1 : BitVec 5) (imm : BitVec 12) : Word :=
  imm ++ s1 ++ f3 ++ d ++ op

def storeFormat (op : BitVec 7) (f3 : BitVec 3) (s1 s2 : BitVec 5) (imm : BitVec 12) : Word :=
  imm.extractLsb' 5 7 ++ s2 ++ s1 ++ f3 ++ imm.extractLsb' 0 5 ++ op

def upperImmediate (op : BitVec 7) (d : BitVec 5) (imm : BitVec 20) : Word :=
  imm ++ d ++ op

/-- Two source registers and a thirteen-bit even displacement. -/
def branchFormat (op : BitVec 7) (f3 : BitVec 3) (s1 s2 : BitVec 5) (disp : BitVec 13) : Word :=
  disp.extractLsb' 12 1 ++ disp.extractLsb' 5 6 ++ s2 ++ s1 ++ f3 ++ disp.extractLsb' 1 4 ++
    disp.extractLsb' 11 1 ++ op

/-- A register and a twenty-one-bit even displacement. -/
def jumpFormat (op : BitVec 7) (d : BitVec 5) (disp : BitVec 21) : Word :=
  disp.extractLsb' 20 1 ++ disp.extractLsb' 1 10 ++ disp.extractLsb' 11 1 ++
    disp.extractLsb' 12 8 ++ d ++ op

end Layout

section Immediates

/-- A signed immediate of `w` bits; `what` names the instruction. -/
def field (what : String) (w : Nat) (v : Dword) : Except Violation (BitVec w) :=
  (Field.lowBits v w).mapError (.immediate what)

/-- An upper immediate, signed or unsigned. -/
def upperField (what : String) (v : Dword) : Except Violation (BitVec 20) :=
  if Field.fitsSigned v 20 || Field.fitsUnsigned v 20 then .ok (v.setWidth 20)
  else .error (.upperImmediate what v)

def displacementField (what : String) (w : Nat) (disp : Dword) : Except Violation (BitVec w) :=
  if disp.getLsbD 0 then .error (.oddDisplacement disp) else field what w disp

def branchField (disp : Dword) : Except Violation (BitVec 13) :=
  displacementField "conditional branch displacement" 13 disp

def jumpField (disp : Dword) : Except Violation (BitVec 21) :=
  displacementField "jump displacement" 21 disp

end Immediates

section Classes

def isLoad (w : Word) : Bool := opcode w = opLoad
def isStore (w : Word) : Bool := opcode w = opStore

def isBranch (w : Word) : Bool := opcode w = opBranch || opcode w = opJump

def fenceSets? (w : Word) : Option (FenceSet × FenceSet) :=
  if opcode w = opFence ∧ funct3 w = 0 then some (⟨w >>> 24 &&& 0xf⟩, ⟨w >>> 20 &&& 0xf⟩)
  else none

end Classes

section Retargeting

/-- Where the branch or jump `w` at `pos` goes. -/
def destination (w : Word) (pos : Dword) : Except Violation Dword :=
  if opcode w = opBranch then .ok (pos + branchDisplacement w)
  else if opcode w = opJump then .ok (pos + jumpDisplacement w)
  else .error (.unreachable "branch destination of a non-branch instruction")

/-- The branch or jump `w` at `pos`, sent to `dest`. All but the displacement stays. -/
def retarget (dest : Dword) (w : Word) (pos : Dword) : Except Violation Word :=
  if opcode w = opBranch then
    (branchField (dest - pos)).map (branchFormat (opcode w) (funct3 w) (rs1 w) (rs2 w))
  else if opcode w = opJump then
    (jumpField (dest - pos)).map (jumpFormat (opcode w) (rd w))
  else .error (.unreachable "patching a non-branch instruction")

end Retargeting

end EntryCode.Format
