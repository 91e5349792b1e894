import EntryCode.Digest.Sha256
import EntryCode.Image.Codec

/-!
Fingerprints: the digest of everything that the code of an image depends on.
-/

namespace EntryCode

section Identifiers

def MethodField.identifier : MethodField → String
  | accessFlags => "AccessFlags"
  | invocationCounter => "InvocationCounter"
  | parameterSlots => "SizeOfParameters"
  | maxLocals => "MaxLocals"
  | maxStack => "MaxStack"
  | constMethod => "ConstMethod"
  | codes => "CodesOffset"
  | mirror => "HolderMirror"
  | methodData => "MethodData"
  | profileCells => "MDPDataOffset"
  | cpCache => "CPCache"
  | nativeFunction => "NativeFunction"
  | signatureHandler => "SignatureHandler"

def ThreadField.identifier : ThreadField → String
  | state => "State"
  | suspendFlags => "SuspendFlags"
  | pendingException => "PendingException"
  | activeHandles => "ActiveHandles"
  | stackLimit => "StackLimit"
  | lastSp => "LastJavaSP"
  | lastFp => "LastJavaFP"
  | lastPc => "LastJavaPC"
  | environment => "JNIEnvironment"
  | pollingWord => "PollingWord"
  | handleTop => "HandleBlockTop"

def Callee.identifier : Callee → String
  | exceptionDispatch => "ExceptionDispatch"
  | counterOverflow => "FrequencyCounterOverflow"
  | profileMethod => "ProfileMethod"
  | monitorEnter => "MonitorEnter"
  | monitorExit => "MonitorExit"
  | prepareNativeCall => "PrepareNativeCall"
  | checkSpecialCondition => "CheckSpecialCondition"
  | throwStackOverflow => "ThrowStackOverflow"
  | throwAbstractMethod => "ThrowAbstractMethod"
  | sin => "Sin"
  | cos => "Cos"
  | tan => "Tan"
  | log => "Log"
  | log10 => "Log10"
  | exp => "Exp"
  | pow => "Pow"
  | sqrt => "Sqrt"
  | abs => "Abs"

end Identifiers

def Config.toCbor (c : Config) : Cbor :=
  .map [(.text "UseCompiler", .bool c.useCompiler),
    (.text "InvocationLimit", .unsigned c.invocationLimit.toNat),
    (.text "ProfileInterpreter", .bool c.profile),
    (.text "ProfileLimit", .unsigned c.profileLimit.toNat),
    (.text "MathIntrinsics", .bool c.math),
    (.text "Method", .map (MethodField.all.map fun f =>
      (.text f.identifier, .integer (c.method.offset f).toInt))),
    (.text "Thread", .map (ThreadField.all.map fun f =>
      (.text f.identifier, .integer (c.thread.offset f).toInt))),
    (.text "Runtime", .map (Callee.all.map fun k =>
      (.text k.identifier, .unsigned (c.callees.address k).toNat))),
    (.text "Dispatch", .map [(.text "Base", .unsigned c.dispatch.base.toNat)])]

namespace Image

def inputs (c : Config) (e : Extensions) (base : Dword) : Cbor :=
  .map [(.text "version", .integer formatVersion.toInt),
    (.text "features", if e.names.isEmpty then .null else texts e.names),
    (.text "base", .unsigned base.toNat), (.text "config", c.toCbor)]

/-- The fingerprint of the code generated with a configuration and extensions for an address. -/
def fingerprintOf (c : Config) (e : Extensions) (base : Dword) : String :=
  Text.hexBytes (Sha256.digest (inputs c e base).encode)

end Image

end EntryCode
