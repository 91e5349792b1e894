import EntryCode.Interpreter.Basic
import EntryCode.Native.Handler

/-!
The library of signature handlers: one for each normalized signature, generated when it is first
asked for and installed in a heap.
-/

namespace EntryCode

structure HandlerLibrary where
  interpreter : Interpreter
  handlers : List (String × Dword)
  deriving DecidableEq, Repr

namespace HandlerLibrary

def new (i : Interpreter) : HandlerLibrary :=
  { interpreter := i, handlers := [] }

def size (l : HandlerLibrary) : Nat :=
  l.handlers.length

structure Error where
  key : String
  cause : Region.Failure Violation
  deriving DecidableEq, Repr

def Error.message (e : Error) : String :=
  s!"signature handler {e.key}: {e.cause.message Violation.message}"

/-- Work on a library and the heap of its handlers. An error leaves what was done before it. -/
abbrev Work := EStateM Error (HandlerLibrary × Heap)

def install (key : String) (gen : Dword → Except Violation Bytes) : Work Dword := fun (l, h) =>
  match (Heap.emit gen).run h with
  | .ok addr k => .ok addr (l, k)
  | .error f k => .error ⟨key, f⟩ (l, k)

def lookup (sig : Signature) (static : Bool) : Work Dword := do
  let (l, _) ← get
  let key := sig.key static
  match l.handlers.lookup key with
  | some addr => return addr
  | none =>
    let addr ← install key fun _ =>
      Handler.generate sig static (l.interpreter.resultHandler sig.result)
        l.interpreter.extensions
    modify fun (l, h) => ({ l with handlers := l.handlers ++ [(key, addr)] }, h)
    return addr

end HandlerLibrary

end EntryCode
