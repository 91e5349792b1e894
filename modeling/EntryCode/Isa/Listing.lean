import EntryCode.Isa.Decode

/-!
Disassembly. Registers are shown by number, common special forms by their own names, and a word
that is no known instruction as data.
-/

namespace EntryCode

section Operands

def Register.plain (r : Register) : String :=
  s!"x{r.number.toNat}"

def FloatRegister.plain (f : FloatRegister) : String :=
  s!"f{f.number.toNat}"

def FenceSet.plain (s : FenceSet) : String :=
  String.ofList (([(0, 'i'), (1, 'o'), (2, 'r'), (3, 'w')].filter fun k => s.bits.getLsbD k.1).map
    Prod.snd)

def mnemonic (name : String) (operands : List String) : String :=
  if operands.isEmpty then name else name ++ " " ++ ",".intercalate operands

/-- The memory operand `off(base)`. -/
def memoryOperand (base : Register) (off : Dword) : String :=
  s!"{Text.signed off}({base.plain})"

end Operands

namespace Instruction

/-- The immediate forms, of which the special values have names of their own. -/
def immediateText (op : ImmediateOp) (rd rs : Register) (imm : Dword) : String :=
  let full := mnemonic op.name [rd.plain, rs.plain, Text.signed imm]
  match op with
  | .addi =>
    if rs = .zero ∧ rd ≠ .zero then mnemonic "li" [rd.plain, Text.signed imm]
    else if imm ≠ 0 then full
    else if rs = .zero then "nop"
    else mnemonic "mv" [rd.plain, rs.plain]
  | .addiw => if imm = 0 then mnemonic "sext.w" [rd.plain, rs.plain] else full
  | .andi => if imm = 255 then mnemonic "zext.b" [rd.plain, rs.plain] else full
  | .xori => if imm = -1 then mnemonic "not" [rd.plain, rs.plain] else full
  | .sltiu => if imm = 1 then mnemonic "seqz" [rd.plain, rs.plain] else full
  | .ori => full
  | .jalr =>
    if rd = .zero then
      if imm ≠ 0 then mnemonic "jr" [memoryOperand rs imm]
      else if rs = .ra then "ret"
      else mnemonic "jr" [rs.plain]
    else if rd = .ra ∧ imm = 0 then mnemonic "jalr" [rs.plain]
    else mnemonic "jalr" [rd.plain, memoryOperand rs imm]

def arithmeticText (op : RegisterOp) (rd rs1 rs2 : Register) : String :=
  let full := mnemonic op.name [rd.plain, rs1.plain, rs2.plain]
  if rs1 ≠ .zero then full
  else match op with
    | .add => mnemonic "mv" [rd.plain, rs2.plain]
    | .sub => mnemonic "neg" [rd.plain, rs2.plain]
    | .sltu => mnemonic "snez" [rd.plain, rs2.plain]
    | _ => full

/-- Comparisons with zero are named for it; the unsigned ones always show both registers. -/
def branchText (c : Condition) (rs1 rs2 : Register) (disp : Dword) : String :=
  let target := Text.signed disp
  let full := mnemonic s!"b{c.name}" [rs1.plain, rs2.plain, target]
  if c = .eq ∨ c = .ne then
    if rs2 = .zero then mnemonic s!"b{c.name}z" [rs1.plain, target] else full
  else if c = .lt ∨ c = .ge then
    if rs2 = .zero then mnemonic s!"b{c.name}z" [rs1.plain, target]
    else if rs1 = .zero then
      mnemonic (if c = .lt then "bgtz" else "blez") [rs2.plain, target]
    else full
  else full

def text : Instruction → String
  | .immediate op rd rs imm => immediateText op rd rs imm
  | .shift op rd rs amount => mnemonic op.name [rd.plain, rs.plain, Text.hex amount.toNat]
  | .upper op rd imm => mnemonic op.name [rd.plain, Text.hex imm.toNat]
  | .arithmetic op rd rs1 rs2 => arithmeticText op rd rs1 rs2
  | .extend op rd rs => mnemonic op.name [rd.plain, rs.plain]
  | .load op rd base off => mnemonic op.name [rd.plain, memoryOperand base off]
  | .store op src base off => mnemonic op.name [src.plain, memoryOperand base off]
  | .loadFloat width fd base off => mnemonic width.loadName [fd.plain, memoryOperand base off]
  | .storeFloat width fs base off => mnemonic width.storeName [fs.plain, memoryOperand base off]
  | .fence pred succ =>
    if pred.bits = 15 ∧ succ.bits = 15 then "fence" else mnemonic "fence" [pred.plain, succ.plain]
  | .sqrt fd fs => mnemonic "fsqrt.d" [fd.plain, fs.plain]
  | .signXor fd fs1 fs2 =>
    if fs1 = fs2 then mnemonic "fabs.d" [fd.plain, fs1.plain]
    else mnemonic "fsgnjx.d" [fd.plain, fs1.plain, fs2.plain]
  | .moveBits rd fs => mnemonic "fmv.x.d" [rd.plain, fs.plain]
  | .branch c rs1 rs2 disp => branchText c rs1 rs2 disp
  | .jump rd disp =>
    if rd = .zero then mnemonic "j" [Text.signed disp]
    else if rd = .ra then mnemonic "jal" [Text.signed disp]
    else mnemonic "jal" [rd.plain, Text.signed disp]
  | .ebreak => "ebreak"

end Instruction

namespace Listing

/-- The notes on code: for a byte position, the lines that stand before its instruction. -/
abbrev Notes := List (Int × List String)

def Notes.add (notes : Notes) (pos : Int) (text : String) : Notes :=
  match notes with
  | [] => [(pos, [text])]
  | (p, texts) :: rest =>
    if p = pos then (p, texts ++ [text]) :: rest else (p, texts) :: Notes.add rest pos text

structure Line where
  pos : Nat
  word : Word
  text : String
  notes : List String
  deriving DecidableEq, Repr

def wordText (w : Word) : String :=
  match Instruction.ofWord? w with
  | some i => i.text
  | none => s!".word {Text.hexWord w.toNat}"

/-- One line for each word of `code`; bytes after the last whole word are left out. -/
def lines (code : Bytes) (notes : Notes) : List Line :=
  code.toWords.mapIdx fun i w =>
    { pos := instructionSize * i
      word := w
      text := wordText w
      notes := (notes.lookup ((instructionSize * i : Nat) : Int)).getD [] }

def Line.render (base : Dword) (line : Line) : String :=
  let before := line.notes.map fun note => String.ofList (List.replicate 28 ' ') ++ s!"; {note}\n"
  let address := Text.hexWord (base + BitVec.ofNat 64 line.pos).toNat
  String.join before ++ s!"  {address}  {Text.hexPadded 8 line.word.toNat}  {line.text}\n"

/-- The lines with their addresses, for code whose first byte is at `base`. -/
def render (base : Dword) (lines : List Line) : String :=
  String.join (lines.map (Line.render base))

end Listing

end EntryCode
