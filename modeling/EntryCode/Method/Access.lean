import EntryCode.Word

/-!
The access flags of a method that generated code looks at.
-/

namespace EntryCode

structure AccessFlags where
  bits : BitVec 32
  deriving DecidableEq, Repr

namespace AccessFlags

def static : AccessFlags := ⟨0x0008⟩
def synchronized : AccessFlags := ⟨0x0020⟩
def native : AccessFlags := ⟨0x0100⟩
def abstract : AccessFlags := ⟨0x0400⟩

def has (f flag : AccessFlags) : Bool :=
  f.bits &&& flag.bits ≠ 0

def isStatic (f : AccessFlags) : Bool := f.has static
def isSynchronized (f : AccessFlags) : Bool := f.has synchronized
def isNative (f : AccessFlags) : Bool := f.has native
def isAbstract (f : AccessFlags) : Bool := f.has abstract

def text (f : AccessFlags) : String :=
  let present := [(static, "static"), (synchronized, "synchronized"), (native, "native"),
    (abstract, "abstract")].filter fun k => f.has k.1
  if present.isEmpty then "none" else " ".intercalate (present.map Prod.snd)

end AccessFlags

end EntryCode
