import EntryCode.Interpreter.Config
import EntryCode.Isa.Extension
import EntryCode.Path
import EntryCode.Table

/-!
Manifests: what a project asks of the generator. A manifest names only what differs from the
reference runtime.
-/

namespace EntryCode

namespace Manifest

structure Target where
  /-- Zero for executable memory of this machine. -/
  base : Dword
  /-- Bytes, read as signed. -/
  capacity : Dword
  features : List String
  deriving DecidableEq, Repr

structure CacheSettings where
  path : String
  disabled : Bool
  deriving DecidableEq, Repr

end Manifest

structure Manifest where
  target : Manifest.Target
  settings : Settings
  cache : Manifest.CacheSettings
  runtime : Table String Dword
  method : Table String Dword
  thread : Table String Dword
  dir : String
  deriving DecidableEq, Repr

namespace Manifest

def fileName : String := "rvgen.toml"

def default : Manifest where
  target := { base := 0x40000000, capacity := 0x100000, features := ["d"] }
  settings := .reference
  cache := { path := ".rvgen/images.db", disabled := false }
  runtime := []
  method := []
  thread := []
  dir := ""

def extensions (m : Manifest) : Except Extensions.Unknown Extensions :=
  Extensions.ofNames m.target.features

inductive ConfigError where
  | runtime (u : Callees.Unknown)
  | method (u : Layout.Unknown)
  | thread (u : Layout.Unknown)
  | invalid (p : Config.Problem)
  deriving DecidableEq, Repr

def ConfigError.message : ConfigError → String
  | .runtime u => s!"runtime: {u.message}"
  | .method u => s!"method: {u.message}"
  | .thread u => s!"thread: {u.message}"
  | .invalid p => p.message

def overlay (m : Manifest) : Except ConfigError Config := do
  let reference := Config.reference
  let callees ← (reference.callees.setAll m.runtime).mapError .runtime
  let method ← (reference.method.setAll m.method).mapError .method
  let thread ← (reference.thread.setAll m.thread).mapError .thread
  return { toSettings := m.settings, callees, method, thread }

def config (m : Manifest) : Except ConfigError Config := do
  let c ← m.overlay
  match c.problem? with
  | some p => throw (.invalid p)
  | none => return c

/-- The path of the image cache, empty where there is none. -/
def cachePath (m : Manifest) : String :=
  if m.cache.disabled ∨ m.cache.path = "" then ""
  else if Path.isAbsolute m.cache.path ∨ m.dir = "" then m.cache.path
  else Path.join m.dir m.cache.path

end Manifest

end EntryCode
