import EntryCode.Assembler.Shorthand
import EntryCode.Interpreter.Kind

/-!
The routines of the interpreter and the places in them that branches go to. Every routine has the
same number of labels, so a place has its label before any code is emitted.
-/

namespace EntryCode

inductive Routine where
  /-- Hands the pending exception of a caller without a frame to the exception dispatch. -/
  | forwardException
  | removeActivationException
  | removeActivation
  | throwStackOverflow
  | resultHandler (t : BasicType)
  | entry (k : EntryKind)
  deriving DecidableEq, Repr

/-- The places in a routine; `start` is its first instruction. -/
inductive Spot where
  | start | present | common | unlocked | returning | null
  | stackOk | zeroed | loop | noProfile | overflow | proceed | counted
  | profiled | profileDone | lockObject | locked | prepare | prepared | prepareDone
  | notStatic | noSpecial | noPending | overflowDone
  deriving DecidableEq, Repr

def Spot.all : List Spot :=
  [.start, .present, .common, .unlocked, .returning, .null, .stackOk, .zeroed, .loop, .noProfile,
   .overflow, .proceed, .counted, .profiled, .profileDone, .lockObject, .locked, .prepare,
   .prepared, .prepareDone, .notStatic, .noSpecial, .noPending, .overflowDone]

namespace Routine

def all : List Routine :=
  [forwardException, removeActivationException, removeActivation, throwStackOverflow] ++
    BasicType.all.map resultHandler ++ EntryKind.all.map entry

def name : Routine → String
  | forwardException => "forward_exception"
  | removeActivationException => "remove_activation_exception"
  | removeActivation => "remove_activation"
  | throwStackOverflow => "throw_StackOverflowError"
  | resultHandler t => s!"result_handler_{t.name}"
  | entry k => s!"{k.name}_entry"

def label (r : Routine) (s : Spot) : Label :=
  ⟨(1 + Spot.all.length * all.idxOf r + Spot.all.idxOf s : Nat)⟩

def labelCount : Nat :=
  Spot.all.length * all.length

end Routine

/-! The registers of interpreted frames. All but the method survive native calls. -/

namespace Pinned

def thread : Register := .s7

def method : Register := .t6

def bytecode : Register := .s6

/-- The address of local zero; the others lie below it. -/
def locals : Register := .s8

def dispatch : Register := .s5

def stack : Register := .s4

def senderSp : Register := .s3

def all : List Register :=
  [thread, method, bytecode, locals, dispatch, stack, senderSp]

end Pinned

end EntryCode
