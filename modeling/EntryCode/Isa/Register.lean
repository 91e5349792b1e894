import EntryCode.Word

/-!
Register operands. A caller names a register by a number; numbers from 32 on name no register,
and one of them, `Register.absent`, stands for an operand that was left out.
-/

namespace EntryCode

structure Register where
  number : BitVec 8
  deriving DecidableEq, Repr

structure FloatRegister where
  number : BitVec 8
  deriving DecidableEq, Repr

namespace Register

def absent : Register := ⟨255⟩

def zero : Register := ⟨0⟩
def ra : Register := ⟨1⟩
def sp : Register := ⟨2⟩
def t0 : Register := ⟨5⟩
def t1 : Register := ⟨6⟩
def t2 : Register := ⟨7⟩
def fp : Register := ⟨8⟩
def a0 : Register := ⟨10⟩
def a1 : Register := ⟨11⟩
def a2 : Register := ⟨12⟩
def a3 : Register := ⟨13⟩
def a4 : Register := ⟨14⟩
def a5 : Register := ⟨15⟩
def a6 : Register := ⟨16⟩
def a7 : Register := ⟨17⟩
def s3 : Register := ⟨19⟩
def s4 : Register := ⟨20⟩
def s5 : Register := ⟨21⟩
def s6 : Register := ⟨22⟩
def s7 : Register := ⟨23⟩
def s8 : Register := ⟨24⟩
def t6 : Register := ⟨31⟩

/-- The names the calling convention gives to `x0`, `x1`, ... -/
def names : List String :=
  ["zero", "ra", "sp", "gp", "tp", "t0", "t1", "t2",
   "s0", "s1", "a0", "a1", "a2", "a3", "a4", "a5",
   "a6", "a7", "s2", "s3", "s4", "s5", "s6", "s7",
   "s8", "s9", "s10", "s11", "t3", "t4", "t5", "t6"]

def isValid (r : Register) : Bool :=
  r.number < 32

def name (r : Register) : String :=
  if r = absent then "noreg"
  else names[r.number.toNat]?.getD s!"x?{r.number.toNat}"

def field? (r : Register) : Option (BitVec 5) :=
  if r.isValid then some (r.number.setWidth 5) else none

def ofField (f : BitVec 5) : Register :=
  ⟨f.setWidth 8⟩

/-- Whether no register appears twice. Absent operands do not count, and numbers that agree in
their low five bits name the same register here. -/
def distinct (rs : List Register) : Bool :=
  let present := (rs.filter (· ≠ absent)).map fun r => r.number.setWidth 5
  decide present.Nodup

def arguments : List Register := [a0, a1, a2, a3, a4, a5, a6, a7]

end Register

namespace FloatRegister

def fa0 : FloatRegister := ⟨10⟩
def fa1 : FloatRegister := ⟨11⟩

/-- The names the calling convention gives to `f0`, `f1`, ... -/
def names : List String :=
  ["ft0", "ft1", "ft2", "ft3", "ft4", "ft5", "ft6", "ft7",
   "fs0", "fs1", "fa0", "fa1", "fa2", "fa3", "fa4", "fa5",
   "fa6", "fa7", "fs2", "fs3", "fs4", "fs5", "fs6", "fs7",
   "fs8", "fs9", "fs10", "fs11", "ft8", "ft9", "ft10", "ft11"]

def isValid (f : FloatRegister) : Bool :=
  f.number < 32

def name (f : FloatRegister) : String :=
  names[f.number.toNat]?.getD s!"f?{f.number.toNat}"

def field? (f : FloatRegister) : Option (BitVec 5) :=
  if f.isValid then some (f.number.setWidth 5) else none

def ofField (f : BitVec 5) : FloatRegister :=
  ⟨f.setWidth 8⟩

def arguments : List FloatRegister :=
  [fa0, fa1, ⟨12⟩, ⟨13⟩, ⟨14⟩, ⟨15⟩, ⟨16⟩, ⟨17⟩]

end FloatRegister

end EntryCode
