import EntryCode.Isa.Instruction

/-!
Reading instructions back from their words. Only words that `Instruction.encode` gives are read.
-/

namespace EntryCode.Instruction

open Format

section Families

def immediateOp? (op : BitVec 7) (f3 : BitVec 3) : Option ImmediateOp :=
  [ImmediateOp.addi, .addiw, .andi, .ori, .xori, .sltiu, .jalr].find? fun i =>
    i.opcode = op && i.funct3 = f3

def loadOp? (f3 : BitVec 3) : Option LoadOp :=
  [LoadOp.lb, .lh, .lw, .ld, .lbu, .lhu, .lwu].find? fun i => i.funct3 = f3

def storeOp? (f3 : BitVec 3) : Option StoreOp :=
  [StoreOp.sb, .sh, .sw, .sd].find? fun i => i.funct3 = f3

def floatWidth? (f3 : BitVec 3) : Option FloatWidth :=
  [FloatWidth.single, .double].find? fun i => i.funct3 = f3

def registerOp? (f3 : BitVec 3) (f7 : BitVec 7) : Option RegisterOp :=
  [RegisterOp.add, .sub, .sltu, .xor, .or, .and, .sh3add].find? fun i =>
    i.funct3 = f3 && i.funct7 = f7

def shiftOp? (f3 : BitVec 3) (high : BitVec 6) : Option ShiftOp :=
  [ShiftOp.slli, .srli, .srai].find? fun i => i.funct3 = f3 && i.high = high

def extendOp? (w : Word) : Option ExtendOp :=
  [ExtendOp.sextB, .sextH, .zextH].find? fun i => i.format (rd w) (rs1 w) = w

end Families

/-- The instruction whose word is `w`. -/
def ofWord? (w : Word) : Option Instruction :=
  let d := Register.ofField (rd w)
  let s1 := Register.ofField (rs1 w)
  let s2 := Register.ofField (rs2 w)
  let fd := FloatRegister.ofField (rd w)
  let fs1 := FloatRegister.ofField (rs1 w)
  let fs2 := FloatRegister.ofField (rs2 w)
  let op := opcode w
  let f3 := funct3 w
  if op = opImmediate ∨ op = opImmediate32 ∨ op = opJumpRegister ∨ op = opRegister32 then
    match extendOp? w, immediateOp? op f3, shiftOp? f3 (w.extractLsb' 26 6) with
    | some i, _, _ => some (.extend i d s1)
    | _, some i, _ => some (.immediate i d s1 (Format.immediate w))
    | _, _, some i =>
      if op = opImmediate then some (.shift i d s1 ((w.extractLsb' 20 6).setWidth 64)) else none
    | _, _, _ => none
  else if op = opLui then some (.upper .lui d ((upperBits w).setWidth 64))
  else if op = opAuipc then some (.upper .auipc d ((upperBits w).setWidth 64))
  else if op = opRegister then (registerOp? f3 (funct7 w)).map (.arithmetic · d s1 s2)
  else if op = opLoad then (loadOp? f3).map (.load · d s1 (Format.immediate w))
  else if op = opStore then (storeOp? f3).map (.store · s2 s1 (storeOffset w))
  else if op = opLoadFloat then (floatWidth? f3).map (.loadFloat · fd s1 (Format.immediate w))
  else if op = opStoreFloat then (floatWidth? f3).map (.storeFloat · fs2 s1 (storeOffset w))
  else if op = opFence then
    if rd w = 0 ∧ f3 = 0 ∧ rs1 w = 0 ∧ w.extractLsb' 28 4 = 0 then
      some (.fence ⟨w >>> 24 &&& 0xf⟩ ⟨w >>> 20 &&& 0xf⟩)
    else none
  else if op = opFloat then
    if funct7 w = 0x2d ∧ f3 = 7 ∧ rs2 w = 0 then some (.sqrt fd fs1)
    else if funct7 w = 0x11 ∧ f3 = 2 then some (.signXor fd fs1 fs2)
    else if funct7 w = 0x71 ∧ f3 = 0 ∧ rs2 w = 0 then some (.moveBits d fs1)
    else none
  else if op = opBranch then
    let c : Condition := ⟨f3.setWidth 32⟩
    if c.isValid then some (.branch c s1 s2 (branchDisplacement w)) else none
  else if op = opJump then some (.jump d (jumpDisplacement w))
  else if w = 0x00100073 then some .ebreak
  else none

end EntryCode.Instruction
