import EntryCode.Assembler.Basic
import EntryCode.Assembler.Pseudo

/-!
Programs for the assembler: lists of operations, each of which emits instructions or deals with a
label, a note or the end of the code.
-/

namespace EntryCode

inductive Op where
  | instruction (i : Instruction)
  | branch (c : Condition) (rs1 rs2 : Register) (l : Label)
  | branchTo (c : Condition) (rs1 rs2 : Register) (target : Dword)
  | jump (rd : Register) (l : Label)
  | jumpTo (rd : Register) (target : Dword)
  | constant (rd : Register) (v : Dword)
  | callAddress (addr : Dword) (tmp : Register)
  | jumpAddress (addr : Dword) (tmp : Register)
  | addConstant (rd rs : Register) (v : Dword) (tmp : Register)
  | load (op : LoadOp) (rd base : Register) (offset : Offset) (tmp : Register)
  | store (op : StoreOp) (src base : Register) (offset : Offset) (tmp : Register)
  | newLabel
  | bind (l : Label)
  | comment (text : String)
  | flush
  deriving DecidableEq, Repr

abbrev Program := List Op

namespace Emit

def sequence (is : Except Violation (List Instruction)) : Emit Unit := do
  let is ← check fun _ => is
  is.forM instruction

end Emit

def Op.run : Op → Emit Unit
  | .instruction i => Emit.instruction i
  | .branch c rs1 rs2 l => Emit.branch c rs1 rs2 l
  | .branchTo c rs1 rs2 target => Emit.branchTo c rs1 rs2 target
  | .jump rd l => Emit.jump rd l
  | .jumpTo rd target => Emit.jumpTo rd target
  | .constant rd v => Emit.sequence (Constant.load rd v)
  | .callAddress addr tmp => Emit.sequence (Pseudo.callAddress addr tmp)
  | .jumpAddress addr tmp => Emit.sequence (Pseudo.jumpAddress addr tmp)
  | .addConstant rd rs v tmp => Emit.sequence (Pseudo.addConstant rd rs v tmp)
  | .load op rd base offset tmp => Emit.sequence (Pseudo.load op rd base offset tmp)
  | .store op src base offset tmp => Emit.sequence (Pseudo.store op src base offset tmp)
  | .newLabel => do let _ ← Emit.newLabel
  | .bind l => Emit.bind l
  | .comment text => Emit.comment text
  | .flush => do let _ ← Emit.flush

def Program.run (p : Program) : Emit Unit :=
  p.forM Op.run

end EntryCode
