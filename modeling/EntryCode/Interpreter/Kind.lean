import EntryCode.Callee
import EntryCode.Isa.Instruction
import EntryCode.Method.Basic

/-!
The kinds of entries: interpreted and native methods, each with and without a lock, abstract
methods, and the math routines that have entries of their own.
-/

namespace EntryCode

inductive MathRoutine where
  | sqrt | abs | sin | cos | tan | log | log10 | exp | pow
  deriving DecidableEq, Repr

namespace MathRoutine

def all : List MathRoutine :=
  [sqrt, abs, sin, cos, tan, log, log10, exp, pow]

def name : MathRoutine → String
  | sqrt => "sqrt"
  | abs => "abs"
  | sin => "sin"
  | cos => "cos"
  | tan => "tan"
  | log => "log"
  | log10 => "log10"
  | exp => "exp"
  | pow => "pow"

def callee : MathRoutine → Callee
  | sqrt => .sqrt
  | abs => .abs
  | sin => .sin
  | cos => .cos
  | tan => .tan
  | log => .log
  | log10 => .log10
  | exp => .exp
  | pow => .pow

def instruction? (r : MathRoutine) (fd fs : FloatRegister) : Option Instruction :=
  match r with
  | sqrt => some (.sqrt fd fs)
  | abs => some (.signXor fd fs fs)
  | _ => none

end MathRoutine

inductive EntryKind where
  | normal
  | normalSynchronized
  | native
  | nativeSynchronized
  | abstract
  | math (r : MathRoutine)
  deriving DecidableEq, Repr

namespace EntryKind

def all : List EntryKind :=
  [normal, normalSynchronized, native, nativeSynchronized, abstract] ++ MathRoutine.all.map math

def name : EntryKind → String
  | normal => "normal"
  | normalSynchronized => "normal_synchronized"
  | native => "native"
  | nativeSynchronized => "native_synchronized"
  | abstract => "abstract"
  | math r => s!"java_lang_math_{r.name}"

def isMath : EntryKind → Bool
  | math _ => true
  | _ => false

def ofNumber? (n : Int) : Option EntryKind :=
  if n < 0 then none else all[n.toNat]?

/-- The name of the kind with a number, also where there is none. -/
def nameOfNumber (n : Int) : String :=
  match ofNumber? n with
  | some k => k.name
  | none => s!"kind({n})"

/-- The kind of entry that suits a method, whether or not it was generated. -/
def ofMethod (m : Method) : EntryKind :=
  if m.flags.isAbstract then abstract
  else if m.flags.isNative then
    if m.flags.isSynchronized then nativeSynchronized else native
  else match MathRoutine.all.find? fun r => r.name = m.intrinsic with
    | some r => math r
    | none => if m.flags.isSynchronized then normalSynchronized else normal

end EntryKind

end EntryCode
