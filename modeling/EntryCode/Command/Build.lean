import EntryCode.Command.Options
import EntryCode.Image.Cache
import EntryCode.Image.Fingerprint
import EntryCode.Manifest.Basic
import EntryCode.Native.Handler
import EntryCode.Region.Executable

/-!
Building an image from a manifest, with or without a cache. Code for executable memory is never
cached, since its address changes from run to run.
-/

namespace EntryCode

structure Occasion where
  id : Uuid
  now : Dword
  host : Extensions
  mapping : Dword
  grants : Dword → Bool

namespace Build

inductive Error where
  | config (e : Manifest.ConfigError)
  | features (u : Extensions.Unknown)
  | mapping (f : Executable.MapFailure)
  | interpreter (e : Interpreter.Error)
  deriving DecidableEq, Repr

def Error.message : Error → String
  | .config e => e.message
  | .features u => u.message
  | .mapping f => f.message
  | .interpreter e => e.message

def extensions (m : Manifest) (o : Options) (occasion : Occasion) : Except Error Extensions := do
  let detected ← if o.host then pure occasion.host else m.extensions.mapError .features
  return if o.allowAll then .all else detected

def outcome {R : Type} : EStateM.Result Interpreter.Error R Interpreter → Except Error Interpreter
  | .ok i _ => .ok i
  | .error e _ => .error (.interpreter e)

def generate (m : Manifest) (cfg : Config) (e : Extensions) (occasion : Occasion) :
    Except Error Interpreter :=
  if m.target.base = 0 then do
    let region ← (Executable.map occasion.grants occasion.mapping m.target.capacity).mapError
      .mapping
    outcome ((Interpreter.generateInto Executable.emit cfg e).run region)
  else
    outcome ((Interpreter.generate cfg e).run (.new m.target.base m.target.capacity.toInt))

def fresh (m : Manifest) (cfg : Config) (e : Extensions) (occasion : Occasion) :
    Except Error Image := do
  let i ← generate m cfg e occasion
  return .ofInterpreter i (Image.fingerprintOf cfg e m.target.base) occasion.id occasion.now

/-- The image for a manifest: the cached one if there is one, else a new one. `find?` looks for a
sound image with a fingerprint in the cache, if there is a cache. With the image comes whether it
is to be cached. -/
def image (m : Manifest) (o : Options) (find? : Option (String → Option Image))
    (occasion : Occasion) : Except Error (Image × Bool) := do
  let cfg ← m.config.mapError .config
  let e ← extensions m o occasion
  match if m.target.base = 0 then none else find? with
  | none => return (← fresh m cfg e occasion, false)
  | some find =>
    match find (Image.fingerprintOf cfg e m.target.base) with
    | some i => return (i, false)
    | none => return (← fresh m cfg e occasion, true)

def run (m : Manifest) (o : Options) (cache : Option ImageCache) (occasion : Occasion) :
    Except Error (Image × Option ImageCache) := do
  let find := cache.map fun c fingerprint => (c.get fingerprint).toOption
  let (i, isNew) ← image m o find occasion
  return (i, if isNew then cache.bind fun c => (c.put i).toOption else none)

end Build

end EntryCode
