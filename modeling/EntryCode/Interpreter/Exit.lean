import EntryCode.Interpreter.Fragment

/-!
The shared ways out of interpreted and native frames, and the conversion of native results.
-/

namespace EntryCode.Exit

open EntryCode.Frame Pinned Fragment

variable (cfg : Config) (e : Extensions)

/-- Clears the pending exception and jumps to the exception dispatch with the exception and the
return address. Without an exception it traps. -/
def forwardException : Program :=
  let spot := Routine.forwardException.label
  [.bind (spot .start),
   .ld .a0 thread (cfg.thread.offset .pendingException),
   .bnez .a0 (spot .present),
   .ebreak,
   .bind (spot .present),
   .sd .zero thread (cfg.thread.offset .pendingException),
   .mv .a1 .ra,
   .jumpAddress (cfg.callees.address .exceptionDispatch) .t0]

def removeActivationException : Program :=
  [.bind (Routine.removeActivationException.label .start),
   .constant .t2 1,
   .j (Routine.removeActivation.label .common)]

/-- Releases the monitor if one is held, pops the frame, and returns or forwards the exception. -/
def removeActivation : Program :=
  let spot := Routine.removeActivation.label
  List.flatten [
    [.bind (spot .start),
     .constant .t2 0,
     .bind (spot .common),
     .addi .sp .sp (-BitVec.ofNat 64 (2 * stackAlignment)),
     .sd .a0 .sp 0,
     .fsd .fa0 .sp (words 1),
     .sd .t2 .sp (words 2),
     .comment "unlock if synchronized and still held",
     .ld .t0 .fp (slot .method)],
    loadFlags cfg .t0 .t0 .synchronized,
    [.beqz .t0 (spot .unlocked),
     .addi .a0 .fp firstMonitor,
     .ld .t0 .a0 monitorObject,
     .beqz .t0 (spot .unlocked),
     .mv .a1 thread],
    callLeaf cfg .monitorExit "monitorexit",
    [.sd .zero .fp (firstMonitor + monitorObject),
     .bind (spot .unlocked),
     .ld .a0 .sp 0,
     .fld .fa0 .sp (words 1),
     .ld .t2 .sp (words 2),
     .addi .sp .sp (BitVec.ofNat 64 (2 * stackAlignment)),
     .comment "pop frame",
     .ld .ra .fp (slot .returnAddress),
     .ld .t1 .fp (slot .senderSp),
     .ld .fp .fp (slot .savedFp),
     .mv .sp .t1,
     .beqz .t2 (spot .returning),
     .j (Routine.forwardException.label .start),
     .bind (spot .returning),
     .ret]]

def throwStackOverflow : Program :=
  List.flatten [
    [.bind (Routine.throwStackOverflow.label .start),
     .mv .sp senderSp],
    saveReturn,
    [.mv .a0 thread],
    callLeaf cfg .throwStackOverflow "throw_StackOverflowError",
    restoreReturn,
    [.j (Routine.forwardException.label .start)]]

/-- Brings a raw result of type `t` into the interpreter's form. -/
def convertResult (t : BasicType) : Program :=
  let null := (Routine.resultHandler t).label .null
  match t with
  | .boolean => [.andi .a0 .a0 0xff, .snez .a0 .a0]
  | .char => zeroExtendHalf e .a0 .a0
  | .byte => signExtendByte e .a0 .a0
  | .short => signExtendHalf e .a0 .a0
  | .int => [.sextW .a0 .a0]
  | .object => [.beqz .a0 null, .ld .a0 .a0 0, .bind null]
  | .long | .float | .double | .void => []

def resultHandler (t : BasicType) : Program :=
  List.flatten [
    [.bind ((Routine.resultHandler t).label .start)],
    convertResult e t,
    [.ret]]

end EntryCode.Exit
