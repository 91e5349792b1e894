import EntryCode.Isa.Format

/-!
The instructions that generated code is made of. `encode` gives the word of an instruction or the
first rule that its operands break: registers are looked at before immediates, in the order in
which they are listed there.
-/

namespace EntryCode

inductive ImmediateOp where
  | addi | addiw | andi | ori | xori | sltiu | jalr
  deriving DecidableEq, Repr

inductive ShiftOp where
  | slli | srli | srai
  deriving DecidableEq, Repr

inductive UpperOp where
  | lui | auipc
  deriving DecidableEq, Repr

inductive RegisterOp where
  | add | sub | sltu | xor | or | and | sh3add
  deriving DecidableEq, Repr

inductive ExtendOp where
  | sextB | sextH | zextH
  deriving DecidableEq, Repr

inductive LoadOp where
  | lb | lh | lw | ld | lbu | lhu | lwu
  deriving DecidableEq, Repr

inductive StoreOp where
  | sb | sh | sw | sd
  deriving DecidableEq, Repr

inductive FloatWidth where
  | single | double
  deriving DecidableEq, Repr

inductive Instruction where
  | immediate (op : ImmediateOp) (rd rs1 : Register) (imm : Dword)
  | shift (op : ShiftOp) (rd rs1 : Register) (amount : Dword)
  | upper (op : UpperOp) (rd : Register) (imm : Dword)
  | arithmetic (op : RegisterOp) (rd rs1 rs2 : Register)
  | extend (op : ExtendOp) (rd rs : Register)
  | load (op : LoadOp) (rd base : Register) (off : Dword)
  | store (op : StoreOp) (src base : Register) (off : Dword)
  | loadFloat (width : FloatWidth) (fd : FloatRegister) (base : Register) (off : Dword)
  | storeFloat (width : FloatWidth) (fs : FloatRegister) (base : Register) (off : Dword)
  | fence (pred succ : FenceSet)
  | sqrt (fd fs : FloatRegister)
  | signXor (fd fs1 fs2 : FloatRegister)
  | moveBits (rd : Register) (fs : FloatRegister)
  | branch (c : Condition) (rs1 rs2 : Register) (disp : Dword)
  | jump (rd : Register) (disp : Dword)
  | ebreak
  deriving DecidableEq, Repr

section Names

def ImmediateOp.name : ImmediateOp → String
  | .addi => "addi"
  | .addiw => "addiw"
  | .andi => "andi"
  | .ori => "ori"
  | .xori => "xori"
  | .sltiu => "sltiu"
  | .jalr => "jalr"

def ShiftOp.name : ShiftOp → String
  | .slli => "slli"
  | .srli => "srli"
  | .srai => "srai"

def UpperOp.name : UpperOp → String
  | .lui => "lui"
  | .auipc => "auipc"

def RegisterOp.name : RegisterOp → String
  | .add => "add"
  | .sub => "sub"
  | .sltu => "sltu"
  | .xor => "xor"
  | .or => "or"
  | .and => "and"
  | .sh3add => "sh3add"

def ExtendOp.name : ExtendOp → String
  | .sextB => "sext.b"
  | .sextH => "sext.h"
  | .zextH => "zext.h"

def LoadOp.name : LoadOp → String
  | .lb => "lb"
  | .lh => "lh"
  | .lw => "lw"
  | .ld => "ld"
  | .lbu => "lbu"
  | .lhu => "lhu"
  | .lwu => "lwu"

def StoreOp.name : StoreOp → String
  | .sb => "sb"
  | .sh => "sh"
  | .sw => "sw"
  | .sd => "sd"

def FloatWidth.loadName : FloatWidth → String
  | .single => "flw"
  | .double => "fld"

def FloatWidth.storeName : FloatWidth → String
  | .single => "fsw"
  | .double => "fsd"

end Names

section Codes

def ImmediateOp.opcode : ImmediateOp → BitVec 7
  | .addiw => Format.opImmediate32
  | .jalr => Format.opJumpRegister
  | _ => Format.opImmediate

def ImmediateOp.funct3 : ImmediateOp → BitVec 3
  | .addi | .addiw | .jalr => 0
  | .sltiu => 3
  | .xori => 4
  | .ori => 6
  | .andi => 7

def ShiftOp.funct3 : ShiftOp → BitVec 3
  | .slli => 1
  | .srli | .srai => 5

def ShiftOp.high : ShiftOp → BitVec 6
  | .slli | .srli => 0
  | .srai => 0x10

def UpperOp.opcode : UpperOp → BitVec 7
  | .lui => Format.opLui
  | .auipc => Format.opAuipc

def RegisterOp.funct3 : RegisterOp → BitVec 3
  | .add | .sub => 0
  | .sltu => 3
  | .xor => 4
  | .or | .sh3add => 6
  | .and => 7

def RegisterOp.funct7 : RegisterOp → BitVec 7
  | .sub => 0x20
  | .sh3add => 0x10
  | _ => 0

def ExtendOp.format (op : ExtendOp) (rd rs : BitVec 5) : Word :=
  match op with
  | .sextB => Format.shortImmediate Format.opImmediate 1 rd rs 0x604
  | .sextH => Format.shortImmediate Format.opImmediate 1 rd rs 0x605
  | .zextH => Format.threeRegister Format.opRegister32 4 0x04 rd rs 0

def LoadOp.funct3 : LoadOp → BitVec 3
  | .lb => 0
  | .lh => 1
  | .lw => 2
  | .ld => 3
  | .lbu => 4
  | .lhu => 5
  | .lwu => 6

def StoreOp.funct3 : StoreOp → BitVec 3
  | .sb => 0
  | .sh => 1
  | .sw => 2
  | .sd => 3

def FloatWidth.funct3 : FloatWidth → BitVec 3
  | .single => 2
  | .double => 3

end Codes

namespace Instruction

/-- The extension an instruction belongs to, with the name it is asked for by. -/
def requirement? : Instruction → Option (String × Extensions)
  | .arithmetic .sh3add .. => some (RegisterOp.sh3add.name, .zba)
  | .extend op .. => some (op.name, .zbb)
  | .sqrt .. => some ("fsqrt.d", .d)
  | .signXor .. => some ("fsgnjx.d", .d)
  | .moveBits .. => some ("fmv.x.d", .d)
  | _ => none

def shiftField (op : ShiftOp) (amount : Dword) : Except Violation (BitVec 6) :=
  if amount.slt 0 || (63 : Dword).slt amount then .error (.shiftAmount op.name amount)
  else .ok (amount.setWidth 6)

def encode : Instruction → Except Violation Word
  | .immediate op rd rs1 imm => do
    let d ← rd.encode
    let s ← rs1.encode
    let i ← Format.field op.name 12 imm
    return Format.shortImmediate op.opcode op.funct3 d s i
  | .shift op rd rs1 amount => do
    let d ← rd.encode
    let s ← rs1.encode
    let n ← shiftField op amount
    return Format.shortImmediate Format.opImmediate op.funct3 d s (op.high ++ n)
  | .upper op rd imm => do
    let d ← rd.encode
    let i ← Format.upperField op.name imm
    return Format.upperImmediate op.opcode d i
  | .arithmetic op rd rs1 rs2 => do
    let d ← rd.encode
    let s1 ← rs1.encode
    let s2 ← rs2.encode
    return Format.threeRegister Format.opRegister op.funct3 op.funct7 d s1 s2
  | .extend op rd rs => do
    let d ← rd.encode
    let s ← rs.encode
    return op.format d s
  | .load op rd base off => do
    let d ← rd.encode
    let b ← base.encode
    let i ← Format.field op.name 12 off
    return Format.shortImmediate Format.opLoad op.funct3 d b i
  | .store op src base off => do
    let b ← base.encode
    let s ← src.encode
    let i ← Format.field op.name 12 off
    return Format.storeFormat Format.opStore op.funct3 b s i
  | .loadFloat width fd base off => do
    let d ← fd.encode
    let b ← base.encode
    let i ← Format.field width.loadName 12 off
    return Format.shortImmediate Format.opLoadFloat width.funct3 d b i
  | .storeFloat width fs base off => do
    let b ← base.encode
    let s ← fs.encode
    let i ← Format.field width.storeName 12 off
    return Format.storeFormat Format.opStoreFloat width.funct3 b s i
  | .fence pred succ =>
    return Format.shortImmediate Format.opFence 0 0 0 
      (0#4 ++ pred.low.bits.setWidth 4 ++ succ.low.bits.setWidth 4)
  | .sqrt fd fs => do
    let d ← fd.encode
    let s ← fs.encode
    return Format.threeRegister Format.opFloat 7 0x2d d s 0
  | .signXor fd fs1 fs2 => do
    let d ← fd.encode
    let s1 ← fs1.encode
    let s2 ← fs2.encode
    return Format.threeRegister Format.opFloat 2 0x11 d s1 s2
  | .moveBits rd fs => do
    let d ← rd.encode
    let s ← fs.encode
    return Format.threeRegister Format.opFloat 0 0x71 d s 0
  | .branch c rs1 rs2 disp => do
    if !c.isValid then throw (.condition c)
    let s1 ← rs1.encode
    let s2 ← rs2.encode
    let i ← Format.branchField disp
    return Format.branchFormat Format.opBranch (c.code.setWidth 3) s1 s2 i
  | .jump rd disp => do
    let d ← rd.encode
    let i ← Format.jumpField disp
    return Format.jumpFormat Format.opJump d i
  | .ebreak => return 0x00100073

end Instruction

end EntryCode
