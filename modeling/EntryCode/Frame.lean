import EntryCode.Text.Number

/-!
The frame that generated entries build. Its fixed part is fourteen words below the frame pointer;
monitors follow, and then the expression stack, growing down. The fixed part and each monitor are
multiples of the stack alignment.
-/

namespace EntryCode.Frame

def wordSize : Nat := 8

def stackAlignment : Nat := 16

structure Slot where
  index : Dword
  deriving DecidableEq, Repr

namespace Slot

def returnAddress : Slot := ⟨-1⟩
def savedFp : Slot := ⟨-2⟩
def senderSp : Slot := ⟨-3⟩
def lastSp : Slot := ⟨-4⟩
def method : Slot := ⟨-5⟩
def mirror : Slot := ⟨-6⟩
def profileCell : Slot := ⟨-7⟩
def cpCache : Slot := ⟨-8⟩
def locals : Slot := ⟨-9⟩
def bytecode : Slot := ⟨-10⟩
def monitorTop : Slot := ⟨-11⟩
def resultHandler : Slot := ⟨-12⟩
def oopTemp : Slot := ⟨-13⟩
def padding : Slot := ⟨-14⟩

def named : List (Slot × String) :=
  [(returnAddress, "return address"), (savedFp, "saved fp"), (senderSp, "sender sp"),
   (lastSp, "last sp"), (method, "method"), (mirror, "mirror"), (profileCell, "mdp"),
   (cpCache, "cp cache"), (locals, "locals"), (bytecode, "bcp"),
   (monitorTop, "monitor block top"), (resultHandler, "result handler"),
   (oopTemp, "oop temp"), (padding, "padding")]

def offset (s : Slot) : Dword :=
  s.index * BitVec.ofNat 64 wordSize

def name (s : Slot) : String :=
  (named.lookup s).getD s!"slot({Text.signed s.index})"

end Slot

def fixedWords : Nat := 14
def fixedSize : Nat := fixedWords * wordSize
def monitorWords : Nat := 2
def monitorSize : Nat := monitorWords * wordSize

def monitorLock : Dword := 0

def monitorObject : Dword := BitVec.ofNat 64 wordSize

def firstMonitor : Dword := -BitVec.ofNat 64 (fixedSize + monitorSize)

def alignDown (v : Dword) : Dword :=
  v &&& ~~~BitVec.ofNat 64 (stackAlignment - 1)

def alignUp (v : Dword) : Dword :=
  alignDown (v + BitVec.ofNat 64 (stackAlignment - 1))

/-- The aligned bytes below the frame pointer of a frame with monitors and stack words. -/
def size (monitors words : Dword) : Dword :=
  alignUp (BitVec.ofNat 64 fixedSize + monitors * BitVec.ofNat 64 monitorSize +
    words * BitVec.ofNat 64 wordSize)

/-- Checks the alignment of the parts and that every word of the fixed part has a name. -/
def validate : Except String Unit :=
  if fixedSize % stackAlignment ≠ 0 then
    .error s!"frame: fixed part {fixedSize} bytes is not {stackAlignment}-aligned"
  else if monitorSize % stackAlignment ≠ 0 then
    .error s!"frame: monitor {monitorSize} bytes is not {stackAlignment}-aligned"
  else if Slot.named.length ≠ fixedWords then
    .error s!"frame: {Slot.named.length} named slots, fixed part has {fixedWords} words"
  else .ok ()

end EntryCode.Frame
