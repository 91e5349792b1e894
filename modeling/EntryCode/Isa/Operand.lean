import EntryCode.Isa.Register
import EntryCode.Text.Number

/-!
Operands that are not single registers: labels, branch conditions, fence sets, and the offset of
a memory access, which is a register or a constant.
-/

namespace EntryCode

/-- A position in code that is being written, named before it is known. The labels of an
assembler are numbered from one. -/
structure Label where
  index : Int
  deriving DecidableEq, Repr

def Label.name (l : Label) : String :=
  s!"L{l.index}"

structure Condition where
  code : BitVec 32
  deriving DecidableEq, Repr

namespace Condition

def eq : Condition := ⟨0⟩
def ne : Condition := ⟨1⟩
def lt : Condition := ⟨4⟩
def ge : Condition := ⟨5⟩
def ltu : Condition := ⟨6⟩
def geu : Condition := ⟨7⟩

def known : List (Condition × String) :=
  [(eq, "eq"), (ne, "ne"), (lt, "lt"), (ge, "ge"), (ltu, "ltu"), (geu, "geu")]

def name (c : Condition) : String :=
  (known.lookup c).getD "cond?"

def isValid (c : Condition) : Bool :=
  (known.lookup c).isSome

/-- The condition that holds exactly when `c` does not. -/
def invert (c : Condition) : Condition :=
  ⟨c.code ^^^ 1⟩

end Condition

/-- The kinds of memory access that a fence orders: from the lowest bit up, memory writes, memory
reads, device output and device input. -/
structure FenceSet where
  bits : BitVec 32
  deriving DecidableEq, Repr

namespace FenceSet

def w : FenceSet := ⟨1⟩
def rw : FenceSet := ⟨3⟩

def low (s : FenceSet) : FenceSet := ⟨s.bits &&& 0xf⟩

def name (s : FenceSet) : String :=
  String.ofList (([(3, 'i'), (2, 'o'), (1, 'r'), (0, 'w')].filter fun k => s.bits.getLsbD k.1).map
    Prod.snd)

end FenceSet

inductive Offset where
  | register (r : Register)
  | constant (v : Dword)
  deriving DecidableEq, Repr

def Offset.text : Offset → String
  | .register r => r.name
  | .constant v => Text.signed v

/-- A memory access as it is written: what it does, the register it moves, and where. -/
structure Access where
  what : String
  moved : Register
  base : Register
  offset : Offset
  deriving DecidableEq, Repr

def Access.text (a : Access) : String :=
  s!"{a.what} {a.moved.name}, {a.offset.text}({a.base.name})"

end EntryCode
