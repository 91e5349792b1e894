import EntryCode.Region.Heap

/-!
A region of host memory. It is mapped in whole pages, holds what was installed and zeros, and can
be closed.
-/

namespace EntryCode

structure Executable where
  base : Dword
  capacity : Nat
  bytes : Bytes
  blocks : List Region.Block
  isOpen : Bool
  deriving DecidableEq, Repr

namespace Executable

def pageSize : Nat := 4096

/-- The bytes to map for a capacity: whole pages, and at least one. -/
def pageAlign (capacity : Dword) : Dword :=
  let page : Dword := BitVec.ofNat 64 pageSize
  let n := if capacity.toInt ≤ 0 then page else capacity
  (n + (page - 1)) &&& ~~~(page - 1)

/-- The number of bytes that could not be mapped. -/
structure MapFailure where
  size : Dword
  deriving DecidableEq, Repr

/-- Rounding up can lead beyond the greatest signed number; such a size means nothing. -/
def MapFailure.message (f : MapFailure) : String :=
  let reason := if f.size.toInt ≤ 0 then "invalid argument" else "cannot allocate memory"
  s!"codecache: mmap {Text.signed f.size} bytes: {reason}"

/-- Maps a region of at least `capacity` bytes at `base`, if the host grants that many. -/
def map (grants : Dword → Bool) (base capacity : Dword) : Except MapFailure Executable :=
  let size := pageAlign capacity
  if 0 < size.toInt ∧ grants size then
    .ok { base, capacity := size.toNat, bytes := [], blocks := [], isOpen := true }
  else .error ⟨size⟩

def used (e : Executable) : Nat :=
  e.bytes.length

def nextAddress (e : Executable) : Dword :=
  e.base + BitVec.ofNat 64 (Region.alignUp e.used)

/-- Installs the code that `gen` gives for the next free address. -/
def emit {ε : Type} (gen : Dword → Except ε Bytes) : Region.Work ε Executable Dword := do
  let e ← get
  let off := Region.alignUp e.used
  let addr := e.nextAddress
  if !e.isOpen then throw .closed
  else match gen addr with
    | .error x => throw (.generator x)
    | .ok code =>
      if e.capacity < off + code.length then throw (.full code.length off e.capacity)
      else
        modify fun e => { e with bytes := e.bytes ++ List.replicate (off - e.used) 0 ++ code }
        modify fun e => { e with blocks := e.blocks ++ [⟨addr, code.length⟩] }
        return addr

/-- Why bytes cannot be read. -/
inductive ReadError where
  | outside (addr n : Dword)
  /-- The length is negative, or the distance from the start is beyond what is counted. -/
  | badRange
  deriving DecidableEq, Repr

def ReadError.message : ReadError → String
  | .outside addr n => s!"codecache: {Text.hex addr.toNat}+{Text.signed n} outside installed code"
  | .badRange => "slice bounds out of range"

/-- The `n` installed bytes at `addr`. The end of the range is computed in wrapping arithmetic. -/
def read (e : Executable) (addr n : Dword) : Except ReadError Bytes :=
  let off := addr - e.base
  let last := off + n
  if !e.isOpen || addr < e.base || (BitVec.ofNat 64 e.used).slt last then .error (.outside addr n)
  else if off.toInt < 0 ∨ last.toInt < off.toInt then .error .badRange
  else .ok ((e.bytes.drop off.toNat).take (last - off).toNat)

def close (e : Executable) : Executable :=
  { e with isOpen := false }

end Executable

end EntryCode
