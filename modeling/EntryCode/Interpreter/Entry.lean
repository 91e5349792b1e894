import EntryCode.Interpreter.Fragment

/-!
The entries. Each is called with the method, the last parameter on the caller's expression stack,
the caller's stack pointer, the thread and a return address in their registers, and leaves its
result in `a0` or `fa0`.
-/

namespace EntryCode.Entry

open EntryCode.Frame Pinned Fragment

variable (cfg : Config) (e : Extensions)

/-- Interpreted methods: zero the extra locals, build a frame and go to the first bytecode. -/
def interpreted (synchronized : Bool) : Program :=
  let spot := (Routine.entry (if synchronized then .normalSynchronized else .normal)).label
  List.flatten [
    findLocals cfg e,
    [.lhu .t0 method (cfg.method.offset .maxLocals),
     .sub .t0 .t0 .t2],
    checkStack cfg .t0 (spot .stackOk),
    [.comment "zero extra locals",
     .beqz .t0 (spot .zeroed),
     .bind (spot .loop),
     .addi stack stack (-words 1),
     .sd .zero stack 0,
     .addi .t0 .t0 (-1),
     .bnez .t0 (spot .loop),
     .bind (spot .zeroed),
     .andi .sp stack (-BitVec.ofNat 64 stackAlignment)],
    fixedFrame cfg false synchronized (spot .noProfile),
    if cfg.counts then countInvocation cfg (spot .overflow) (spot .counted) else [],
    [.bind (spot .proceed)],
    if cfg.profile then profileMethod cfg (spot .profiled) (spot .profileDone) (spot .null) else [],
    if synchronized then lockMethod cfg (spot .lockObject) (spot .locked) else [],
    dispatchFirst cfg e,
    if cfg.useCompiler then
      counterOverflow cfg (spot .overflow) (spot .proceed) (spot .overflowDone) else []]

/-- Native methods: build a frame, place the arguments by the signature handler, call the function
under the thread state protocol, and convert the result. -/
def native (synchronized : Bool) : Program :=
  let spot := (Routine.entry (if synchronized then .nativeSynchronized else .native)).label
  List.flatten [
    findLocals cfg e,
    [.andi .sp stack (-BitVec.ofNat 64 stackAlignment)],
    fixedFrame cfg true synchronized (spot .noProfile),
    if cfg.counts then countInvocation cfg (spot .overflow) (spot .counted) else [],
    [.bind (spot .proceed)],
    if synchronized then lockMethod cfg (spot .lockObject) (spot .locked) else [],
    [.comment "outgoing argument area",
     .lhu .t1 method (cfg.method.offset .parameterSlots),
     .addi .t1 .t1 2,
     .slli .t1 .t1 3,
     .sub .t1 stack .t1,
     .andi .sp .t1 (-BitVec.ofNat 64 stackAlignment),
     .ld .t0 method (cfg.method.offset .signatureHandler),
     .beqz .t0 (spot .prepare),
     .ld .t0 method (cfg.method.offset .nativeFunction),
     .bnez .t0 (spot .prepared),
     .bind (spot .prepare),
     .mv .a1 method],
    callRuntime cfg .prepareNativeCall "prepare_native_call" (spot .prepareDone),
    [.bind (spot .prepared),
     .comment "marshal arguments",
     .ld .t0 method (cfg.method.offset .signatureHandler),
     .callRegister .t0,
     .sd .a0 .fp (slot .resultHandler),
     .ld method .fp (slot .method)],
    loadFlags cfg .t0 method .static,
    [.beqz .t0 (spot .notStatic),
     .ld .t0 .fp (slot .mirror),
     .sd .t0 .fp (slot .oopTemp),
     .addi .a1 .fp (slot .oopTemp),
     .bind (spot .notStatic),
     .addi .a0 thread (cfg.thread.offset .environment)],
    publishAnchor cfg,
    [.ld .t1 method (cfg.method.offset .nativeFunction),
     .comment "thread state in_native"],
    publishState cfg .inNative true,
    [.callRegister .t1],
    saveResult,
    [.comment "thread state in_native_trans"],
    publishState cfg .inNativeTrans false,
    [.fence .rw .rw,
     .ld .t0 thread (cfg.thread.offset .pollingWord),
     .andi .t0 .t0 1,
     .lwu .t1 thread (cfg.thread.offset .suspendFlags),
     .or .t0 .t0 .t1,
     .beqz .t0 (spot .noSpecial),
     .mv .a0 thread],
    callLeaf cfg .checkSpecialCondition "check_special_condition",
    [.bind (spot .noSpecial),
     .comment "thread state in_java"],
    publishState cfg .inJava true,
    clearAnchor cfg,
    [.ld .t0 thread (cfg.thread.offset .activeHandles),
     .sw .zero .t0 (cfg.thread.offset .handleTop)],
    restoreResult,
    checkPending cfg (spot .noPending),
    [.ld .t0 .fp (slot .resultHandler),
     .callRegister .t0,
     .j (Routine.removeActivation.label .start)],
    if cfg.useCompiler then
      counterOverflow cfg (spot .overflow) (spot .proceed) (spot .overflowDone) else []]

def abstract : Program :=
  List.flatten [
    [.mv .sp senderSp],
    saveReturn,
    [.mv .a0 thread,
     .mv .a1 method],
    callLeaf cfg .throwAbstractMethod "throw_AbstractMethodError",
    restoreReturn,
    [.j (Routine.forwardException.label .start)]]

def mathInstruction? (r : MathRoutine) : Option Instruction :=
  if e.has .d then r.instruction? .fa0 .fa0 else none

def mathAvailable (r : MathRoutine) : Bool :=
  (mathInstruction? e r).isSome || cfg.callees.address r.callee ≠ 0

/-- Math routines work on the caller's expression stack, without a frame. A double takes two slots
and lies in the later one. -/
def math (r : MathRoutine) : Program :=
  List.flatten [
    if r = .pow then [.fld .fa0 stack (words 2), .fld .fa1 stack 0] else [.fld .fa0 stack 0],
    (match mathInstruction? e r with
     | some i => [.instruction i]
     | none => saveReturn ++ callLeaf cfg r.callee (EntryKind.math r).name ++ restoreReturn),
    [.mv .sp senderSp,
     .ret]]

def program? : EntryKind → Option Program
  | .normal => some (interpreted cfg e false)
  | .normalSynchronized => some (interpreted cfg e true)
  | .native => some (native cfg e false)
  | .nativeSynchronized => some (native cfg e true)
  | .abstract => some (abstract cfg)
  | .math r => if cfg.math && mathAvailable cfg e r then some (math cfg e r) else none

end EntryCode.Entry
