import EntryCode.Assembler.Shorthand
import EntryCode.Frame
import EntryCode.Interpreter.Routine

/-!
Signature handlers: the code that moves the arguments of a native method from its locals to where
the calling convention wants them, and returns the address of the result handler. The first
argument register is left for the environment and, for static methods, the second for the mirror;
the receiver of other methods is passed as the first object.
-/

namespace EntryCode.Handler

inductive Location where
  | integer (r : Register)
  | float (f : FloatRegister)
  | stack (off : Dword)
  deriving DecidableEq, Repr

/-- The argument registers not taken yet and the next word on the stack. -/
structure Assignment where
  integers : List Register
  floats : List FloatRegister
  stack : Nat
  deriving DecidableEq, Repr

def Assignment.initial (static : Bool) : Assignment :=
  { integers := Register.arguments.drop (if static then 2 else 1)
    floats := FloatRegister.arguments
    stack := 0 }

/-- The next argument: a floating-point register while there are some, for what is floating; then
an integer register; then the stack. -/
def Assignment.next (a : Assignment) (floating : Bool) : Location × Assignment :=
  match floating, a.floats, a.integers with
  | true, f :: rest, _ => (.float f, { a with floats := rest })
  | _, _, r :: rest => (.integer r, { a with integers := rest })
  | _, _, [] => (.stack (BitVec.ofNat 64 a.stack), { a with stack := a.stack + Frame.wordSize })

structure Argument where
  type : BasicType
  offset : Dword
  location : Location
  deriving DecidableEq, Repr

/-- The arguments from local `slot` on. A value of two slots lies in the second one. -/
def arguments (slot : Nat) (a : Assignment) : List BasicType → List Argument
  | [] => []
  | t :: rest =>
    let held := if t.slots = 2 then slot + 1 else slot
    let (location, b) := a.next t.isFloating
    ⟨t, -BitVec.ofNat 64 (held * Frame.wordSize), location⟩ :: arguments (slot + t.slots) b rest

section Moves

open Pinned

def loadFloat (width : FloatWidth) (fd : FloatRegister) (off : Dword) : Program :=
  if Field.fitsSigned off 12 then [.instruction (.loadFloat width fd locals off)]
  else [.addConstant .t1 locals off .t2, .instruction (.loadFloat width fd .t1 0)]

/-- Loads an argument into an integer register. An object is passed as the address of its local,
or as null where the local holds null. -/
def loadInteger (t : BasicType) (rd : Register) (off : Dword) (notNull : Label) :
    Except Violation Program :=
  let load (op : LoadOp) (dst : Register) : Op := .load op dst locals (.constant off) .t2
  match t with
  | .boolean => .ok [load .lbu rd]
  | .byte => .ok [load .lb rd]
  | .char => .ok [load .lhu rd]
  | .short => .ok [load .lh rd]
  | .int => .ok [load .lw rd]
  | .float => .ok [load .lwu rd]
  | .long | .double => .ok [load .ld rd]
  | .object =>
    .ok [load .ld .t1, .addConstant rd locals off .t2, .bnez .t1 notNull, .mv rd .zero,
      .bind notNull]
  | .void => .error (.unreachable s!"argument of type {t.name}")

def pass (a : Argument) (notNull : Label) : Except Violation Program :=
  match a.location with
  | .float fd => .ok (loadFloat (if a.type = .float then .single else .double) fd a.offset)
  | .integer rd => loadInteger a.type rd a.offset notNull
  | .stack off => do
    let moved ← loadInteger a.type .t0 a.offset notNull
    return moved ++ [.store .sd .t0 .sp (.constant off) .t1]

end Moves

def argumentTypes (sig : Signature) (static : Bool) : List BasicType :=
  if static then sig.params else .object :: sig.params

/-- The whole handler; argument `n` has label `n + 1`. -/
def program (sig : Signature) (static : Bool) (resultHandler : Dword) :
    Except Violation Program := do
  let args := arguments 0 (.initial static) (argumentTypes sig static)
  let moves ← (args.mapIdx fun n a => (a, n)).mapM fun (a, n) => pass a ⟨(n + 1 : Nat)⟩
  return [.comment s!"signature handler {sig.key static}"] ++
    List.replicate args.length .newLabel ++ moves.flatten ++
    [.constant .a0 resultHandler, .ret]

def generate (sig : Signature) (static : Bool) (resultHandler : Dword) (e : Extensions) :
    Except Violation Bytes := do
  let p ← program sig static resultHandler
  match (do p.run; Emit.flush : Emit Bytes).run (.new e) with
  | .ok code _ => return code
  | .error v _ => throw v

end EntryCode.Handler
