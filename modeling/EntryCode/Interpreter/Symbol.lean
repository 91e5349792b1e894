import EntryCode.Interpreter.Basic

/-!
Names for addresses of generated code: a kind, a colon and what is meant, as in `entry:zerolocals`.
-/

namespace EntryCode.Interpreter

/-- The address that a symbol stands for. Signature handlers are known by their position in
`handlers`. -/
def symbol? (i : Interpreter) (handlers : List Dword) (s : String) : Option Dword := do
  let name := String.ofList ((s.toList.dropWhile (· ≠ ':')).drop 1)
  match String.ofList (s.toList.takeWhile (· ≠ ':')) with
  | "entry" => i.entry? (← EntryKind.all.find? fun k => k.name = name)
  | "routine" => return i.address (← i.named? name)
  | "result" => return i.resultHandler (← BasicType.all.find? fun t => t.name = name)
  | "handler" => handlers[← Text.natural? name.toList]?
  | _ => none

end EntryCode.Interpreter
