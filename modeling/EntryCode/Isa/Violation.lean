import EntryCode.Isa.Operand
import EntryCode.Isa.Field
import EntryCode.Isa.Extension

/-!
The rules of code generation and how each can be broken. The wording of every message is here.
-/

namespace EntryCode

inductive Violation where
  | register (r : Register)
  | floatRegister (f : FloatRegister)
  | immediate (what : String) (cause : Field.Error)
  | upperImmediate (what : String) (imm : Dword)
  | oddDisplacement (disp : Dword)
  | shiftAmount (what : String) (amount : Dword)
  | condition (c : Condition)
  | extension (what : String) (needed : Extensions)
  | foreignLabel (l : Label)
  | boundTwice (l : Label) (pos : Nat)
  | unboundTarget (l : Label)
  | unboundReference (label sites first : Nat)
  | emitAfterFlush (w : Word)
  | bindAfterFlush (l : Label)
  | noInstruction (pos : Int)
  | constantIntoZero (v : Dword)
  | sharedTemp (a : Access) (tmp : Register)
  | missingTemp (a : Access)
  | addressClobbered (a : Access)
  | wideAddTemp (rd rs : Register) (v : Dword)
  | notRegister (o : Offset)
  | notConstant (o : Offset)
  | revertOrder (depth stack : Nat)
  | unimplemented (what : String)
  | unreachable (what : String)
  deriving DecidableEq, Repr

namespace Violation

def rule : Violation → String
  | .register _ | .floatRegister _ => "register operand is valid"
  | .immediate .. | .upperImmediate .. => "immediate fits its field"
  | .oddDisplacement _ => "branch displacement is even"
  | .shiftAmount .. => "shift amount fits 6 bits"
  | .condition _ => "branch condition is encodable"
  | .extension .. => "instruction requires extension"
  | .foreignLabel _ => "label belongs to this assembler"
  | .boundTwice .. => "label bound once"
  | .unboundTarget _ => "label is bound"
  | .unboundReference .. => "referenced labels are bound before flush"
  | .emitAfterFlush _ | .bindAfterFlush _ => "no emission after flush"
  | .noInstruction _ => "position names an emitted instruction"
  | .constantIntoZero _ => "load constant targets a writable register"
  | .sharedTemp .. => "destination, base and temp are distinct"
  | .missingTemp _ => "store with a wide offset has a temp"
  | .addressClobbered _ => "load destination may hold the address"
  | .wideAddTemp .. => "wide add has a temp distinct from its source"
  | .notRegister _ => "operand is a register"
  | .notConstant _ => "operand is a constant"
  | .revertOrder .. => "feature overrides revert innermost first"
  | .unimplemented _ => "not implemented"
  | .unreachable _ => "should not reach here"

def detail : Violation → String
  | .register r => r.name
  | .floatRegister f => f.name
  | .immediate what cause => s!"{what}: {cause.message}"
  | .upperImmediate what imm => s!"{what}: {Text.signed imm} does not fit 20 bits"
  | .oddDisplacement disp => Text.signed disp
  | .shiftAmount what amount => s!"{what} by {Text.signed amount}"
  | .condition c => toString c.code.toNat
  | .extension what needed => s!"{what} needs {needed.flagName}"
  | .foreignLabel l => s!"label {l.index}"
  | .boundTwice l pos => s!"label {l.index} already bound at {pos}"
  | .unboundTarget l => s!"label {l.index}"
  | .unboundReference label sites first =>
    s!"label {label} referenced from {sites} site(s), first at {first}"
  | .emitAfterFlush w => Text.hexWord w.toNat
  | .bindAfterFlush l => s!"bind label {l.index}"
  | .noInstruction pos => toString pos
  | .constantIntoZero v => s!"li zero, {Text.signed v}"
  | .sharedTemp a tmp => s!"{a.text} tmp {tmp.name}"
  | .missingTemp a => a.text
  | .addressClobbered a => a.text
  | .wideAddTemp rd rs v => s!"{rd.name} = {rs.name} + {Text.signed v}"
  | .notRegister o => o.text
  | .notConstant o => o.text
  | .revertOrder depth stack => s!"revert at depth {depth}, stack depth {stack}"
  | .unimplemented what => what
  | .unreachable what => what

def message (v : Violation) : String :=
  if v.detail = "" then s!"asm: {v.rule}" else s!"asm: {v.rule}: {v.detail}"

end Violation

namespace Register

def encode (r : Register) : Except Violation (BitVec 5) :=
  match r.field? with
  | some f => .ok f
  | none => .error (.register r)

end Register

namespace FloatRegister

def encode (f : FloatRegister) : Except Violation (BitVec 5) :=
  match f.field? with
  | some b => .ok b
  | none => .error (.floatRegister f)

end FloatRegister

namespace Offset

def asRegister : Offset → Except Violation Register
  | .register r => .ok r
  | o => .error (.notRegister o)

def asConstant : Offset → Except Violation Dword
  | .constant v => .ok v
  | o => .error (.notConstant o)

end Offset

end EntryCode
