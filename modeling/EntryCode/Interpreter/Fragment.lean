import EntryCode.Frame
import EntryCode.Interpreter.Config
import EntryCode.Interpreter.Routine

/-!
The pieces of code that several routines share: extensions of narrow values, calls out of
generated code, frames, the invocation counter, locks and dispatch.
-/

namespace EntryCode.Fragment

open EntryCode.Frame Pinned

def slot (s : Slot) : Dword := s.offset

def words (n : Nat) : Dword := BitVec.ofNat 64 (n * wordSize)

section Narrow

/-- `rd = base + 8 * index`; `tmp` is lost. -/
def scaledAdd (e : Extensions) (rd index base tmp : Register) : Program :=
  if e.has .zba then [.instruction (.arithmetic .sh3add rd index base)]
  else [.slli tmp index 3, .add rd base tmp]

def signExtendByte (e : Extensions) (rd rs : Register) : Program :=
  if e.has .zbb then [.instruction (.extend .sextB rd rs)] else [.slli rd rs 56, .srai rd rd 56]

def signExtendHalf (e : Extensions) (rd rs : Register) : Program :=
  if e.has .zbb then [.instruction (.extend .sextH rd rs)] else [.slli rd rs 48, .srai rd rd 48]

def zeroExtendHalf (e : Extensions) (rd rs : Register) : Program :=
  if e.has .zbb then [.instruction (.extend .zextH rd rs)] else [.slli rd rs 48, .srli rd rd 48]

end Narrow

section Calls

variable (cfg : Config)

/-- Publishes where the interpreted frame is, for those who walk the stack during a call. -/
def publishAnchor : Program :=
  [.sd .sp thread (cfg.thread.offset .lastSp),
   .sd .fp thread (cfg.thread.offset .lastFp),
   .here .t0,
   .sd .t0 thread (cfg.thread.offset .lastPc)]

def clearAnchor : Program :=
  [.sd .zero thread (cfg.thread.offset .lastSp),
   .sd .zero thread (cfg.thread.offset .lastFp),
   .sd .zero thread (cfg.thread.offset .lastPc)]

def checkPending (noPending : Label) : Program :=
  [.ld .t0 thread (cfg.thread.offset .pendingException),
   .beqz .t0 noPending,
   .j (Routine.removeActivationException.label .start),
   .bind noPending]

/-- Calls a routine from inside a frame, with the thread as first argument. -/
def callRuntime (callee : Callee) (what : String) (noPending : Label) : Program :=
  List.flatten [
    [.comment s!"call_VM {what}",
     .mv .a0 thread,
     .sd bytecode .fp (slot .bytecode)],
    publishAnchor cfg,
    [.callAddress (cfg.callees.address callee) .t0],
    clearAnchor cfg,
    [.ld method .fp (slot .method),
     .ld bytecode .fp (slot .bytecode)],
    checkPending cfg noPending]

def callLeaf (callee : Callee) (what : String) : Program :=
  [.comment s!"call_leaf {what}",
   .callAddress (cfg.callees.address callee) .t0]

def saveReturn : Program :=
  [.addi .sp .sp (-BitVec.ofNat 64 stackAlignment),
   .sd .ra .sp (words 1)]

def restoreReturn : Program :=
  [.ld .ra .sp (words 1),
   .addi .sp .sp (BitVec.ofNat 64 stackAlignment)]

def saveResult : Program :=
  [.addi .sp .sp (-BitVec.ofNat 64 stackAlignment),
   .sd .a0 .sp 0,
   .fsd .fa0 .sp (words 1)]

def restoreResult : Program :=
  [.ld .a0 .sp 0,
   .fld .fa0 .sp (words 1),
   .addi .sp .sp (BitVec.ofNat 64 stackAlignment)]

/-- The access flags of the method at `m` that are in `mask`. -/
def loadFlags (rd m : Register) (mask : AccessFlags) : Program :=
  [.lwu rd m (cfg.method.offset .accessFlags),
   .andi rd rd (mask.bits.setWidth 64)]

/-- Publishes a thread state, after every earlier access where `fenced`. -/
def publishState (state : ThreadState) (fenced : Bool) : Program :=
  List.flatten [
    [.constant .t0 (state.code.setWidth 64)],
    if fenced then [.fence .rw .w] else [],
    [.sw .t0 thread (cfg.thread.offset .state)]]

end Calls

section Frames

variable (cfg : Config) (e : Extensions)

/-- Finds local zero from the last parameter on the stack; `t2` holds the parameter count. -/
def findLocals : Program :=
  List.flatten [
    [.lhu .t2 method (cfg.method.offset .parameterSlots)],
    scaledAdd e locals .t2 stack .t1,
    [.addi locals locals (-words 1)]]

/-- Throws where the frame could reach below the stack limit. `extra` holds the number of locals
that are no parameters; a monitor and the alignment are allowed for. -/
def checkStack (extra : Register) (stackOk : Label) : Program :=
  [.comment "stack overflow check",
   .lhu .t1 method (cfg.method.offset .maxStack),
   .add .t1 .t1 extra,
   .addi .t1 .t1 (BitVec.ofNat 64 (fixedWords + monitorWords + stackAlignment / wordSize)),
   .slli .t1 .t1 3,
   .sub .t1 stack .t1,
   .ld .t2 thread (cfg.thread.offset .stackLimit),
   .bgeu .t1 .t2 stackOk,
   .j (Routine.throwStackOverflow.label .start),
   .bind stackOk]

/-- Keeps the first profile cell in the frame where the method has data. -/
def setProfileCell (noProfile : Label) : Program :=
  [.ld .t0 method (cfg.method.offset .methodData),
   .beqz .t0 noProfile,
   .addi .t0 .t0 (cfg.method.offset .profileCells),
   .sd .t0 .fp (slot .profileCell),
   .bind noProfile]

/-- Pushes the fixed part of a frame. A synchronized method also gets a monitor without an object,
so that an exit before the lock is taken finds nothing to release. -/
def fixedFrame (native synchronized : Bool) (noProfile : Label) : Program :=
  List.flatten [
    [.comment "fixed frame",
     .addi .sp .sp (-words fixedWords),
     .sd .ra .sp (words fixedWords + slot .returnAddress),
     .sd .fp .sp (words fixedWords + slot .savedFp),
     .addi .fp .sp (words fixedWords),
     .sd senderSp .fp (slot .senderSp),
     .sd .zero .fp (slot .lastSp),
     .sd method .fp (slot .method),
     .ld .t0 method (cfg.method.offset .mirror),
     .sd .t0 .fp (slot .mirror),
     .sd .zero .fp (slot .profileCell)],
    if cfg.profile && !native then setProfileCell cfg noProfile else [],
    [.ld .t0 method (cfg.method.offset .cpCache),
     .sd .t0 .fp (slot .cpCache),
     .sd locals .fp (slot .locals)],
    if native then [.mv bytecode .zero]
    else
      [.ld .t0 method (cfg.method.offset .constMethod),
       .addi bytecode .t0 (cfg.method.offset .codes)],
    [.sd bytecode .fp (slot .bytecode),
     .sd .zero .fp (slot .resultHandler),
     .sd .zero .fp (slot .oopTemp),
     .sd .zero .fp (slot .padding),
     .addi stack .fp (-words fixedWords)],
    if synchronized then [.addi stack stack (-words monitorWords)] else [],
    [.sd stack .fp (slot .monitorTop)],
    if native then [.mv .sp stack]
    else
      [.lhu .t0 method (cfg.method.offset .maxStack),
       .slli .t0 .t0 3,
       .sub .t0 stack .t0,
       .andi .sp .t0 (-BitVec.ofNat 64 stackAlignment)],
    if synchronized then [.sd .zero stack monitorLock, .sd .zero stack monitorObject] else []]

/-- Counts the invocation up to the limit. With a compiler every invocation at the limit leaves
for `overflow`; without one the counter stops. -/
def countInvocation (overflow counted : Label) : Program :=
  List.flatten [
    [.comment "invocation counter",
     .lwu .t0 method (cfg.method.offset .invocationCounter),
     .constant .t1 (cfg.counterLimit.setWidth 64),
     .bgeu .t0 .t1 (if cfg.useCompiler then overflow else counted),
     .addi .t0 .t0 1,
     .sw .t0 method (cfg.method.offset .invocationCounter)],
    if cfg.useCompiler then [.bgeu .t0 .t1 overflow] else [],
    [.bind counted]]

/-- Triggers compilation and goes on at `proceed`. -/
def counterOverflow (overflow proceed overflowDone : Label) : Program :=
  List.flatten [
    [.bind overflow,
     .mv .a1 .zero],
    callRuntime cfg .counterOverflow "frequency_counter_overflow" overflowDone,
    [.j proceed]]

def profileMethod (profiled profileDone noProfile : Label) : Program :=
  List.flatten [
    [.comment "profile method",
     .ld .t0 method (cfg.method.offset .methodData),
     .bnez .t0 profiled,
     .lwu .t0 method (cfg.method.offset .invocationCounter),
     .constant .t1 (cfg.profileLimit.setWidth 64),
     .bltu .t0 .t1 profiled],
    callRuntime cfg .profileMethod "profile_method" profileDone,
    setProfileCell cfg noProfile,
    [.bind profiled]]

/-- Locks the mirror of a static method, the receiver of any other. The object is in the monitor
before the call, so a call that throws must take it out again. -/
def lockMethod (lockObject locked : Label) : Program :=
  List.flatten [
    [.comment "lock method"],
    loadFlags cfg .t1 method .static,
    [.ld .t0 locals 0,
     .beqz .t1 lockObject,
     .ld .t0 .fp (slot .mirror),
     .bind lockObject,
     .addi .a1 .fp firstMonitor,
     .sd .t0 .a1 monitorObject],
    callRuntime cfg .monitorEnter "monitorenter" locked]

def dispatchFirst : Program :=
  List.flatten [
    [.comment "dispatch",
     .lbu .t0 bytecode 0,
     .constant dispatch cfg.dispatch.base],
    scaledAdd e .t0 .t0 dispatch .t1,
    [.ld .t0 .t0 0,
     .jr .t0]]

end Frames

end EntryCode.Fragment
