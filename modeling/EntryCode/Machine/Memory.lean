import EntryCode.Word
import Std.Data.HashMap

/-!
Simulated memory: a byte at every address, zero where nothing was written. It is kept in pages, and
a page is there from the first write to it on. Accesses of several bytes are little-endian and wrap
past the last address.
-/

namespace EntryCode

namespace Memory

def pageBits : Nat := 12

def pageSize : Nat := 1 <<< pageBits

abbrev Page := Vector Byte pageSize

def Page.blank : Page := Vector.replicate _ 0

end Memory

structure Memory where
  pages : Std.HashMap Dword Memory.Page

namespace Memory

def empty : Memory := ⟨∅⟩

def page (addr : Dword) : Dword :=
  addr >>> pageBits

def place (addr : Dword) : Fin pageSize :=
  ⟨addr.toNat % pageSize, Nat.mod_lt _ (by decide)⟩

def byte (m : Memory) (addr : Dword) : Byte :=
  match m.pages[page addr]? with
  | none => 0
  | some p => p.get (place addr)

def setByte (m : Memory) (addr : Dword) (b : Byte) : Memory :=
  ⟨m.pages.alter (page addr) fun p => some ((p.getD .blank).set (place addr) b)⟩

/-- The bytes at `addr` and after. -/
def read (m : Memory) (addr : Dword) : Nat → Bytes
  | 0 => []
  | n + 1 => m.byte addr :: m.read (addr + 1) n

/-- Writes bytes at `addr` and after. -/
def write (m : Memory) (addr : Dword) : Bytes → Memory
  | [] => m
  | b :: rest => (m.setByte addr b).write (addr + 1) rest

/-- The value of `size` bytes at `addr`, extended with zeros. -/
def load (m : Memory) (addr : Dword) (size : Nat) : Dword :=
  BitVec.ofNat 64 (Bytes.toNat (m.read addr size))

/-- Writes the low `size` bytes of `v` at `addr`. -/
def store (m : Memory) (addr : Dword) (size : Nat) (v : Dword) : Memory :=
  m.write addr (Bytes.ofBits size v)

/-- Writes instruction words at `addr`. -/
def writeWords (m : Memory) (addr : Dword) (words : List Word) : Memory :=
  m.write addr (Bytes.ofWords words)

end Memory

end EntryCode
