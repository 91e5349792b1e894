import EntryCode.Isa.Format
import EntryCode.Machine.Memory
import EntryCode.Machine.SquareRoot

/-!
A simulated hart. An instruction has one effect on a register, on memory or on an observer, and
leads to the next address; an instruction that cannot be executed has none.
-/

namespace EntryCode

structure RegisterFile where
  values : Vector Dword 32
  deriving DecidableEq

namespace RegisterFile

def zeros : RegisterFile := ⟨Vector.replicate 32 0⟩

def get (r : RegisterFile) (i : BitVec 5) : Dword :=
  r.values.get i.toFin

def set (r : RegisterFile) (i : BitVec 5) (v : Dword) : RegisterFile :=
  ⟨r.values.set i.toNat v i.isLt⟩

end RegisterFile

structure Machine where
  x : RegisterFile
  f : RegisterFile
  pc : Dword
  memory : Memory

/-- Why the machine cannot execute a word. -/
inductive Unsupported where
  | immediateOp | shift | immediateOp32 | registerOp | registerOp32 | load | store
  | floatLoad | floatStore | signInjection | floatOp | branch | system | opcode
  deriving DecidableEq, Repr

def Unsupported.text : Unsupported → String
  | .immediateOp => "unsupported op-imm"
  | .shift => "unsupported shift"
  | .immediateOp32 => "unsupported op-imm-32"
  | .registerOp => "unsupported op"
  | .registerOp32 => "unsupported op-32"
  | .load => "unsupported load"
  | .store => "unsupported store"
  | .floatLoad => "unsupported fp load"
  | .floatStore => "unsupported fp store"
  | .signInjection => "unsupported sign injection"
  | .floatOp => "unsupported fp op"
  | .branch => "unsupported branch"
  | .system => "unsupported system instruction"
  | .opcode => "unsupported opcode"

structure Fault where
  pc : Dword
  word : Word
  reason : Unsupported
  deriving DecidableEq, Repr

inductive Stop where
  | fault (f : Fault)
  | breakpoint
  | stepLimit
  deriving DecidableEq, Repr

def Stop.message : Stop → String
  | .fault f =>
    s!"rvsim: {f.reason.text} at {Text.hex f.pc.toNat} ({Text.hexPadded 8 f.word.toNat})"
  | .breakpoint => "rvsim: ebreak"
  | .stepLimit => "rvsim: step limit exceeded"

def Stop.kind : Stop → String
  | .fault _ => "fault"
  | .breakpoint => "break"
  | .stepLimit => "step-limit"

inductive Effect where
  | none
  | setRegister (rd : BitVec 5) (v : Dword)
  | setFloat (fd : BitVec 5) (v : Dword)
  /-- Writes the low `size` bytes of `v`. -/
  | store (addr : Dword) (size : Nat) (v : Dword)
  | fence (pred succ : FenceSet)
  deriving DecidableEq, Repr

structure Transition where
  effect : Effect
  next : Dword
  deriving DecidableEq, Repr

namespace Machine

section Operations

/-- The low `w` bits with their sign. -/
def sext (w : Nat) (v : Dword) : Dword :=
  (v.setWidth w).signExtend 64

def flag (b : Bool) : Dword :=
  if b then 1 else 0

def immediateValue (w : Word) (a : Dword) : Except Unsupported Dword :=
  let imm := Format.immediate w
  let amount := (w.extractLsb' 20 6).toNat
  let high := w.extractLsb' 26 6
  match (Format.funct3 w).toNat with
  | 0 => .ok (a + imm)
  | 1 =>
    if Format.immediateBits w = 0x604 then .ok (sext 8 a)
    else if Format.immediateBits w = 0x605 then .ok (sext 16 a)
    else if high = 0 then .ok (a <<< amount)
    else .error .immediateOp
  | 3 => .ok (flag (a.ult imm))
  | 4 => .ok (a ^^^ imm)
  | 5 =>
    if high = 0 then .ok (a >>> amount)
    else if high = 0x10 then .ok (a.sshiftRight amount)
    else .error .shift
  | 6 => .ok (a ||| imm)
  | 7 => .ok (a &&& imm)
  | _ => .error .immediateOp

def registerValue (w : Word) (a b : Dword) : Except Unsupported Dword :=
  match (Format.funct7 w).toNat, (Format.funct3 w).toNat with
  | 0, 0 => .ok (a + b)
  | 0x20, 0 => .ok (a - b)
  | 0, 3 => .ok (flag (a.ult b))
  | 0, 4 => .ok (a ^^^ b)
  | 0, 6 => .ok (a ||| b)
  | 0, 7 => .ok (a &&& b)
  | 0x10, 6 => .ok (b + a <<< 3)
  | _, _ => .error .registerOp

def loadValue (m : Memory) (w : Word) (addr : Dword) : Except Unsupported Dword :=
  match (Format.funct3 w).toNat with
  | 0 => .ok (sext 8 (m.load addr 1))
  | 1 => .ok (sext 16 (m.load addr 2))
  | 2 => .ok (sext 32 (m.load addr 4))
  | 3 => .ok (m.load addr 8)
  | 4 => .ok (m.load addr 1)
  | 5 => .ok (m.load addr 2)
  | 6 => .ok (m.load addr 4)
  | _ => .error .load

/-- A single is kept in a double register with all high bits set. -/
def loadFloatValue (m : Memory) (w : Word) (addr : Dword) : Except Unsupported Dword :=
  match (Format.funct3 w).toNat with
  | 2 => .ok (0xffffffff00000000 ||| m.load addr 4)
  | 3 => .ok (m.load addr 8)
  | _ => .error .floatLoad

def branchTaken (w : Word) (a b : Dword) : Except Unsupported Bool :=
  match (Format.funct3 w).toNat with
  | 0 => .ok (a = b)
  | 1 => .ok (a ≠ b)
  | 4 => .ok (a.slt b)
  | 5 => .ok (!a.slt b)
  | 6 => .ok (a.ult b)
  | 7 => .ok (!a.ult b)
  | _ => .error .branch

/-- How far a branch leads, put together from the bits of its word. -/
def branchOffset (w : Word) : Dword :=
  sext 13 ((w >>> 31 &&& 1).setWidth 64 <<< 12 ||| (w >>> 7 &&& 1).setWidth 64 <<< 11 |||
    (w >>> 25 &&& 0x3f).setWidth 64 <<< 5 ||| (w >>> 8 &&& 0xf).setWidth 64 <<< 1)

def jumpOffset (w : Word) : Dword :=
  sext 21 ((w >>> 31 &&& 1).setWidth 64 <<< 20 ||| (w >>> 12 &&& 0xff).setWidth 64 <<< 12 |||
    (w >>> 20 &&& 1).setWidth 64 <<< 11 ||| (w >>> 21 &&& 0x3ff).setWidth 64 <<< 1)

def signBit : Dword := 1#64 <<< 63

def floatEffect (m : Machine) (w : Word) : Except Unsupported Effect :=
  let a := m.f.get (Format.rs1 w)
  let b := m.f.get (Format.rs2 w)
  let f3 := (Format.funct3 w).toNat
  let d := Format.rd w
  match (Format.funct7 w).toNat with
  | 0x2d => if Format.rs2 w = 0 then .ok (.setFloat d (SquareRoot.ofBits a)) else .error .floatOp
  | 0x11 =>
    match f3 with
    | 0 => .ok (.setFloat d ((a &&& ~~~signBit) ||| (b &&& signBit)))
    | 1 => .ok (.setFloat d ((a &&& ~~~signBit) ||| ((b &&& signBit) ^^^ signBit)))
    | 2 => .ok (.setFloat d (a ^^^ (b &&& signBit)))
    | _ => .error .signInjection
  | 0x71 => if f3 = 0 ∧ Format.rs2 w = 0 then .ok (.setRegister d a) else .error .floatOp
  | 0x79 =>
    if f3 = 0 ∧ Format.rs2 w = 0 then .ok (.setFloat d (m.x.get (Format.rs1 w)))
    else .error .floatOp
  | _ => .error .floatOp

end Operations

/-- The effect and successor of a word, or why it cannot be executed. A breakpoint is told apart
before this is asked. -/
def transition (m : Machine) (w : Word) : Except Unsupported Transition :=
  let a := m.x.get (Format.rs1 w)
  let b := m.x.get (Format.rs2 w)
  let rd := Format.rd w
  let next := m.pc + 4
  let upper : Dword := sext 32 ((Format.upperBits w ++ 0#12).setWidth 64)
  match (Format.opcode w).toNat with
  | 0x37 => .ok ⟨.setRegister rd upper, next⟩
  | 0x17 => .ok ⟨.setRegister rd (m.pc + upper), next⟩
  | 0x13 => do return ⟨.setRegister rd (← immediateValue w a), next⟩
  | 0x1b =>
    if Format.funct3 w = 0 then .ok ⟨.setRegister rd (sext 32 (a + Format.immediate w)), next⟩
    else .error .immediateOp32
  | 0x33 => do return ⟨.setRegister rd (← registerValue w a b), next⟩
  | 0x3b =>
    if Format.funct7 w = 0x04 ∧ Format.funct3 w = 4 ∧ Format.rs2 w = 0 then
      .ok ⟨.setRegister rd (a &&& 0xffff), next⟩
    else .error .registerOp32
  | 0x03 => do return ⟨.setRegister rd (← loadValue m.memory w (a + Format.immediate w)), next⟩
  | 0x23 =>
    if Format.funct3 w ≤ 3 then
      .ok ⟨.store (a + Format.storeOffset w) (1 <<< (Format.funct3 w).toNat) b, next⟩
    else .error .store
  | 0x07 => do return ⟨.setFloat rd (← loadFloatValue m.memory w (a + Format.immediate w)), next⟩
  | 0x27 =>
    let v := m.f.get (Format.rs2 w)
    match (Format.funct3 w).toNat with
    | 2 => .ok ⟨.store (a + Format.storeOffset w) 4 (v &&& 0xffffffff), next⟩
    | 3 => .ok ⟨.store (a + Format.storeOffset w) 8 v, next⟩
    | _ => .error .floatStore
  | 0x53 => do return ⟨← floatEffect m w, next⟩
  | 0x63 => do
    let taken ← branchTaken w a b
    return ⟨.none, if taken then m.pc + branchOffset w else next⟩
  | 0x6f => .ok ⟨.setRegister rd next, m.pc + jumpOffset w⟩
  | 0x67 => .ok ⟨.setRegister rd next, (a + Format.immediate w) &&& ~~~1⟩
  | 0x0f => .ok ⟨.fence ⟨w >>> 24 &&& 0xf⟩ ⟨w >>> 20 &&& 0xf⟩, next⟩
  | 0x73 => .error .system
  | _ => .error .opcode

def apply (m : Machine) : Effect → Machine
  | .none | .fence .. => m
  | .setRegister rd v => { m with x := m.x.set rd v }
  | .setFloat fd v => { m with f := m.f.set fd v }
  | .store addr size v => { m with memory := m.memory.store addr size v }

def step (m : Machine) (w : Word) : Except Stop (Machine × Effect) :=
  if w = 0x00100073 then .error .breakpoint
  else match m.transition w with
    | .ok t => .ok ({ m.apply t.effect with pc := t.next }, t.effect)
    | .error reason => .error (.fault ⟨m.pc, w, reason⟩)

def fetch (m : Machine) : Word :=
  (m.memory.load m.pc 4).setWidth 32

/-- Executes the word at the program counter; the zero register holds zero afterwards. -/
def advance (m : Machine) : Except Stop (Machine × Effect) :=
  (m.step m.fetch).map fun (n, e) => ({ n with x := n.x.set 0 0 }, e)

end Machine

end EntryCode
