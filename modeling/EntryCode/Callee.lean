import EntryCode.Text.Quoted

/-!
The routines of the surrounding runtime that generated code calls, and where they are. Math
routines may be missing; the others must have an address.
-/

namespace EntryCode

inductive Callee where
  | exceptionDispatch
  | counterOverflow
  | profileMethod
  | monitorEnter
  | monitorExit
  | prepareNativeCall
  | checkSpecialCondition
  | throwStackOverflow
  | throwAbstractMethod
  | sin | cos | tan | log | log10 | exp | pow | sqrt | abs
  deriving DecidableEq, Repr

namespace Callee

def all : List Callee :=
  [exceptionDispatch, counterOverflow, profileMethod, monitorEnter, monitorExit,
   prepareNativeCall, checkSpecialCondition, throwStackOverflow, throwAbstractMethod,
   sin, cos, tan, log, log10, exp, pow, sqrt, abs]

def name : Callee → String
  | exceptionDispatch => "exception-dispatch"
  | counterOverflow => "frequency-counter-overflow"
  | profileMethod => "profile-method"
  | monitorEnter => "monitorenter"
  | monitorExit => "monitorexit"
  | prepareNativeCall => "prepare-native-call"
  | checkSpecialCondition => "check-special-condition"
  | throwStackOverflow => "throw-stack-overflow"
  | throwAbstractMethod => "throw-abstract-method"
  | sin => "sin"
  | cos => "cos"
  | tan => "tan"
  | log => "log"
  | log10 => "log10"
  | exp => "exp"
  | pow => "pow"
  | sqrt => "sqrt"
  | abs => "abs"

/-- Whether generated code cannot do without the routine. -/
def required : Callee → Bool
  | sin | cos | tan | log | log10 | exp | pow | sqrt | abs => false
  | _ => true

end Callee

/-- The addresses of the routines; zero where there is none. -/
structure Callees where
  address : Callee → Dword

namespace Callees

def none : Callees := ⟨fun _ => 0⟩

def referenceBase : Dword := 0x7f0000000000

/-- Addresses sixteen bytes apart. -/
def reference : Callees :=
  ⟨fun c => referenceBase + BitVec.ofNat 64 (16 * Callee.all.idxOf c)⟩

def set (cs : Callees) (c : Callee) (addr : Dword) : Callees :=
  ⟨fun d => if d = c then addr else cs.address d⟩

structure Unknown where
  name : String
  deriving DecidableEq, Repr

def Unknown.message (u : Unknown) : String :=
  s!"unknown runtime entry {Text.quoted u.name}"

/-- Places the routine called `name`. -/
def setNamed (cs : Callees) (name : String) (addr : Dword) : Except Unknown Callees :=
  match Callee.all.find? fun c => c.name = name with
  | some c => .ok (cs.set c addr)
  | .none => .error ⟨name⟩

def setAll (cs : Callees) (placed : List (String × Dword)) : Except Unknown Callees :=
  placed.foldlM (fun cs e => setNamed cs e.1 e.2) cs

def missing? (cs : Callees) : Option Callee :=
  Callee.all.find? fun c => c.required && cs.address c = 0

end Callees

structure DispatchTable where
  base : Dword
  deriving DecidableEq, Repr

namespace DispatchTable

def entrySize : Nat := 8

def size : Nat := 256 * entrySize

def entry (t : DispatchTable) (bytecode : Byte) : Dword :=
  t.base + BitVec.ofNat 64 (entrySize * bytecode.toNat)

end DispatchTable

end EntryCode
