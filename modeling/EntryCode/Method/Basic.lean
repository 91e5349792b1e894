import EntryCode.Method.Access
import EntryCode.Method.Signature
import EntryCode.Record.Layout

/-!
Methods as the generated entries see them. The runtime owns a record for each method; generated
code reads it at the offsets of a layout.
-/

namespace EntryCode

structure Method where
  name : String
  descriptor : String
  flags : AccessFlags
  /-- The math routine the method stands for, or nothing. -/
  intrinsic : String := ""
  parameterSlots : Dword
  maxLocals : Dword
  maxStack : Dword
  invocationCount : BitVec 32 := 0
  constMethod : Dword := 0
  mirror : Dword := 0
  /-- Zero until profiling builds it. -/
  methodData : Dword := 0
  cpCache : Dword := 0
  /-- Zero until resolved. -/
  nativeFunction : Dword := 0
  /-- Zero until resolved. -/
  signatureHandler : Dword := 0
  deriving DecidableEq, Repr

namespace Method

inductive Problem where
  | count (what : String) (v : Dword)
  | tooFewLocals (locals params : Dword)
  | nativeAndAbstract
  deriving DecidableEq, Repr

def Problem.message (name : String) : Problem → String
  | .count what v => s!"method {name}: {what} {Text.signed v} out of range"
  | .tooFewLocals locals params =>
    s!"method {name}: max locals {Text.signed locals} below parameter size {Text.signed params}"
  | .nativeAndAbstract => s!"method {name}: native and abstract"

def problem? (m : Method) : Option Problem :=
  let counts := [("size of parameters", m.parameterSlots), ("max locals", m.maxLocals),
    ("max stack", m.maxStack)]
  match counts.find? fun c => c.2.toInt < 0 ∨ 0xffff < c.2.toInt with
  | some (what, v) => some (.count what v)
  | none =>
    if m.maxLocals.slt m.parameterSlots then some (.tooFewLocals m.maxLocals m.parameterSlots)
    else if m.flags.isNative && m.flags.isAbstract then some .nativeAndAbstract
    else none

/-- A method whose parameter count follows from its descriptor and flags; it has at least as many
locals as parameters. -/
def new (name descriptor : String) (flags : AccessFlags) (maxLocals maxStack : Dword) :
    Except Signature.Error Method := do
  let sig ← Signature.ofDescriptor descriptor
  let params := BitVec.ofNat 64 (sig.slots + if flags.isStatic then 0 else 1)
  return {
    name, descriptor, flags, maxStack
    parameterSlots := params
    maxLocals := if maxLocals.slt params then params else maxLocals }

def signature (m : Method) : Except Signature.Error Signature :=
  Signature.ofDescriptor m.descriptor

def extraLocals (m : Method) : Dword :=
  m.maxLocals - m.parameterSlots

def text (m : Method) : String :=
  s!"{m.name}{m.descriptor} [{m.flags.text}]"

end Method

inductive MethodField where
  | accessFlags
  | invocationCounter
  | parameterSlots
  | maxLocals
  | maxStack
  | constMethod
  | codes
  | mirror
  | methodData
  | profileCells
  | cpCache
  | nativeFunction
  | signatureHandler
  deriving DecidableEq, Repr

namespace MethodField

def all : List MethodField :=
  [accessFlags, invocationCounter, parameterSlots, maxLocals, maxStack, constMethod, codes,
   mirror, methodData, profileCells, cpCache, nativeFunction, signatureHandler]

def name : MethodField → String
  | accessFlags => "access-flags"
  | invocationCounter => "invocation-counter"
  | parameterSlots => "size-of-parameters"
  | maxLocals => "max-locals"
  | maxStack => "max-stack"
  | constMethod => "const-method"
  | codes => "codes-offset"
  | mirror => "holder-mirror"
  | methodData => "method-data"
  | profileCells => "mdp-data-offset"
  | cpCache => "cp-cache"
  | nativeFunction => "native-function"
  | signatureHandler => "signature-handler"

def width : MethodField → Nat
  | accessFlags | invocationCounter => 4
  | parameterSlots | maxLocals | maxStack => 2
  | codes | profileCells => 1
  | _ => 8

instance : RecordField MethodField := ⟨"method", all, name, width⟩

def contents (m : Method) : List (MethodField × Dword) :=
  [(accessFlags, m.flags.bits.setWidth 64), (invocationCounter, m.invocationCount.setWidth 64),
   (parameterSlots, m.parameterSlots), (maxLocals, m.maxLocals), (maxStack, m.maxStack),
   (constMethod, m.constMethod), (mirror, m.mirror), (methodData, m.methodData),
   (cpCache, m.cpCache), (nativeFunction, m.nativeFunction),
   (signatureHandler, m.signatureHandler)]

def inRecord : List MethodField :=
  all.filter fun f => f ≠ codes ∧ f ≠ profileCells

def reference : Layout MethodField where
  offset
    | accessFlags => 0
    | invocationCounter => 4
    | parameterSlots => 8
    | maxLocals => 10
    | maxStack => 12
    | constMethod => 16
    | codes => 48
    | mirror => 24
    | methodData => 32
    | profileCells => 16
    | cpCache => 40
    | nativeFunction => 48
    | signatureHandler => 56

end MethodField

namespace Layout

def fieldEnd (l : Layout MethodField) (f : MethodField) : Dword :=
  l.offset f + BitVec.ofNat 64 f.width

/-- The bytes of a record, up to the end of its last field. -/
def size (l : Layout MethodField) : Dword :=
  MethodField.inRecord.foldl (fun last f =>
    if last.slt (l.fieldEnd f) then l.fieldEnd f else last) 0

/-- Records longer than this cannot be made. -/
def sizeLimit : Nat := 0x1000000000000

/-- The record of a method; none where a field lies outside of it. -/
def encode (l : Layout MethodField) (m : Method) : Option Bytes :=
  let size := l.size.toNat
  if sizeLimit < size then none
  else (MethodField.contents m).foldlM (fun record (f, v) =>
    let off := (l.offset f).toNat
    if off + f.width ≤ size then some (Bytes.overwrite record off (Bytes.ofBits f.width v))
    else none) (List.replicate size 0)

end Layout

end EntryCode
