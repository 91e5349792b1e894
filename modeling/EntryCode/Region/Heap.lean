import EntryCode.Text.Number

/-!
Regions that generated code is installed into. A heap keeps code for a chosen address; every block
of it starts at a multiple of sixteen bytes from the start.
-/

namespace EntryCode

namespace Region

def alignment : Nat := 16

def alignUp (n : Nat) : Nat :=
  (n + alignment - 1) / alignment * alignment

structure Block where
  addr : Dword
  size : Nat
  deriving DecidableEq, Repr

/-- Why a block is not installed: its generator failed, there is no room, or the region is
closed. -/
inductive Failure (ε : Type) where
  | generator (e : ε)
  | full (size offset : Nat) (capacity : Int)
  | closed
  deriving DecidableEq, Repr

def Failure.message {ε : Type} (text : ε → String) : Failure ε → String
  | .generator e => text e
  | .full size offset capacity =>
    s!"codecache: region full: {size} bytes at offset {offset}, capacity {capacity}"
  | .closed => "codecache: region closed"

/-- Work on a region. What was done before a failure stays. -/
abbrev Work (ε R : Type) := EStateM (Failure ε) R

end Region

structure Heap where
  base : Dword
  capacity : Int
  bytes : Bytes
  blocks : List Region.Block
  deriving DecidableEq, Repr

namespace Heap

def new (base : Dword) (capacity : Int) : Heap :=
  { base, capacity, bytes := [], blocks := [] }

def used (h : Heap) : Nat :=
  h.bytes.length

def nextOffset (h : Heap) : Nat :=
  Region.alignUp h.used

def nextAddress (h : Heap) : Dword :=
  h.base + BitVec.ofNat 64 h.nextOffset

/-- Installs the code that `gen` gives for the next free address. -/
def emit {ε : Type} (gen : Dword → Except ε Bytes) : Region.Work ε Heap Dword := do
  let h ← get
  let off := h.nextOffset
  let addr := h.nextAddress
  match gen addr with
  | .error e => throw (.generator e)
  | .ok code =>
    if h.capacity < (off + code.length : Nat) then
      throw (.full code.length off h.capacity)
    else
      modify fun h => { h with bytes := h.bytes ++ List.replicate (off - h.used) 0 }
      modify fun h => { h with bytes := h.bytes ++ code }
      modify fun h => { h with blocks := h.blocks ++ [⟨addr, code.length⟩] }
      return addr

end Heap

end EntryCode
