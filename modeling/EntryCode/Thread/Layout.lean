import EntryCode.Record.Layout

/-!
The thread record: the state a thread publishes and the fields that generated code touches.
-/

namespace EntryCode

structure ThreadState where
  code : BitVec 32
  deriving DecidableEq, Repr

namespace ThreadState

def inNative : ThreadState := ⟨4⟩
def inNativeTrans : ThreadState := ⟨5⟩
def inJava : ThreadState := ⟨8⟩

def known : List (Nat × String) :=
  [(0, "uninitialized"), (2, "new"), (4, "in_native"), (5, "in_native_trans"), (6, "in_vm"),
   (7, "in_vm_trans"), (8, "in_java"), (9, "in_java_trans"), (10, "blocked")]

def name (s : ThreadState) : String :=
  (known.lookup s.code.toNat).getD s!"state({s.code.toNat})"

end ThreadState

inductive ThreadField where
  | state
  | suspendFlags
  | pendingException
  | activeHandles
  | stackLimit
  | lastSp
  | lastFp
  | lastPc
  /-- The environment lies in the record; its address is passed on. -/
  | environment
  | pollingWord
  | handleTop
  deriving DecidableEq, Repr

namespace ThreadField

def all : List ThreadField :=
  [state, suspendFlags, pendingException, activeHandles, stackLimit, lastSp, lastFp, lastPc,
   environment, pollingWord, handleTop]

def name : ThreadField → String
  | state => "state"
  | suspendFlags => "suspend-flags"
  | pendingException => "pending-exception"
  | activeHandles => "active-handles"
  | stackLimit => "stack-limit"
  | lastSp => "last-java-sp"
  | lastFp => "last-java-fp"
  | lastPc => "last-java-pc"
  | environment => "jni-environment"
  | pollingWord => "polling-word"
  | handleTop => "handle-block-top"

def width : ThreadField → Nat
  | state | suspendFlags | handleTop => 4
  | _ => 8

instance : RecordField ThreadField := ⟨"thread", all, name, width⟩

def reference : Layout ThreadField where
  offset
    | state => 0
    | suspendFlags => 4
    | pendingException => 8
    | activeHandles => 16
    | stackLimit => 24
    | lastSp => 32
    | lastFp => 40
    | lastPc => 48
    | environment => 56
    | pollingWord => 64
    | handleTop => 0

end ThreadField

end EntryCode
