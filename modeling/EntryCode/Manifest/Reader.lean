import EntryCode.Manifest.Basic
import EntryCode.Toml.Document

/-!
Manifests read from TOML over the default one. The names of sections and settings are recognized
whatever their case; the names of runtime routines and fields are kept as they are.
-/

namespace EntryCode.Manifest

open Toml (Node Key)

section Values

def asInteger? : Node → Option Int
  | .integer i => some i
  | _ => none

/-- Negative numbers wrap. -/
def asDword? (n : Node) : Option Dword :=
  (asInteger? n).map (BitVec.ofInt 64)

def asLimit? (n : Node) : Option (BitVec 32) := do
  let i ← asInteger? n
  if 0 ≤ i ∧ i < 0x100000000 then some (BitVec.ofInt 32 i) else none

def asBool? : Node → Option Bool
  | .boolean b => some b
  | _ => none

def asString? : Node → Option String
  | .string s => some s
  | _ => none

def asStrings? : Node → Option (List String)
  | .array items => items.mapM asString?
  | _ => none

end Values

section Sections

/-- The name that a key stands for: the key itself, or one that differs in case. -/
def nameFor? (names : List String) (key : String) : Option String :=
  (names.find? (· = key)).or (names.find? fun n => Text.foldCase n = Text.foldCase key)

/-- Reads the entries of a table whose keys stand for names; `path` is where the table is. The keys
that were used are given too. -/
def readNamed {σ : Type} (path : Key) (names : List String)
    (read : Key → String → Node → σ → Option (σ × List Key)) :
    Toml.Entries → σ → Option (σ × List Key)
  | [], s => some (s, [])
  | (key, node) :: rest, s =>
    match nameFor? names key with
    | none => readNamed path names read rest s
    | some name => do
      let full := path ++ [key]
      let (s, inner) ← read full name node s
      let (s, more) ← readNamed path names read rest s
      return (s, full :: inner ++ more)

def readSection {σ : Type} (names : List String) (set : String → Node → σ → Option σ)
    (path : Key) (node : Node) (s : σ) : Option (σ × List Key) :=
  match node with
  | .table entries =>
    readNamed path names (fun _ name node s => do return (← set name node s, [])) entries s
  | _ => none

/-- A section of numbers under any names. What is no table is passed over. -/
def readNumbers (path : Key) (node : Node) (t : Table String Dword) :
    Option (Table String Dword × List Key) :=
  match node with
  | .table entries => do
    let values ← entries.mapM fun e => do return (e.1, ← asDword? e.2)
    return (values.foldl (fun t e => t.insert e.1 e.2) t, entries.map fun e => path ++ [e.1])
  | _ => some (t, [])

def setTarget (name : String) (node : Node) (t : Target) : Option Target :=
  match name with
  | "base" => do return { t with base := ← asDword? node }
  | "capacity" => do return { t with capacity := ← asDword? node }
  | "features" => do return { t with features := ← asStrings? node }
  | _ => none

def setSettings (name : String) (node : Node) (s : Settings) : Option Settings :=
  match name with
  | "use-compiler" => do return { s with useCompiler := ← asBool? node }
  | "invocation-limit" => do return { s with invocationLimit := ← asLimit? node }
  | "profile" => do return { s with profile := ← asBool? node }
  | "profile-limit" => do return { s with profileLimit := ← asLimit? node }
  | "math-intrinsics" => do return { s with math := ← asBool? node }
  | "dispatch-table" => do return { s with dispatch := ⟨← asDword? node⟩ }
  | _ => none

def setCache (name : String) (node : Node) (c : CacheSettings) : Option CacheSettings :=
  match name with
  | "path" => do return { c with path := ← asString? node }
  | "disabled" => do return { c with disabled := ← asBool? node }
  | _ => none

def sectionNames : List String :=
  ["target", "interpreter", "cache", "runtime", "method", "thread"]

def readManifestSection (path : Key) (name : String) (node : Node) (m : Manifest) :
    Option (Manifest × List Key) :=
  match name with
  | "target" => do
    let (target, keys) ← readSection ["base", "capacity", "features"] setTarget path node m.target
    return ({ m with target }, keys)
  | "interpreter" => do
    let names := ["use-compiler", "invocation-limit", "profile", "profile-limit",
      "math-intrinsics", "dispatch-table"]
    let (settings, keys) ← readSection names setSettings path node m.settings
    return ({ m with settings }, keys)
  | "cache" => do
    let (cache, keys) ← readSection ["path", "disabled"] setCache path node m.cache
    return ({ m with cache }, keys)
  | "runtime" => do
    let (runtime, keys) ← readNumbers path node m.runtime
    return ({ m with runtime }, keys)
  | "method" => do
    let (method, keys) ← readNumbers path node m.method
    return ({ m with method }, keys)
  | "thread" => do
    let (thread, keys) ← readNumbers path node m.thread
    return ({ m with thread }, keys)
  | _ => none

end Sections

inductive ReadError where
  | malformed
  /-- Keys that mean nothing here. -/
  | unknownKeys (keys : List Key)
  | features (u : Extensions.Unknown)
  | capacity
  deriving DecidableEq, Repr

/-- The error, where the manifest is called `name`. -/
def ReadError.message (name : String) : ReadError → String
  | .malformed => s!"parse error in {name}"
  | .unknownKeys keys =>
    let texts := ", ".intercalate (keys.map Key.text)
    s!"{name}: unknown keys: {texts}"
  | .features u => s!"{name}: target.features: {u.message}"
  | .capacity => s!"{name}: target.capacity must be positive"

def ofDocument (doc : Toml.Document) : Except ReadError Manifest := do
  let (m, used) ← match readNamed [] sectionNames readManifestSection doc.root default with
    | some r => pure r
    | none => throw .malformed
  let unknown := doc.order.filter fun k => !used.contains k
  if !unknown.isEmpty then throw (.unknownKeys unknown)
  let _ ← m.extensions.mapError ReadError.features
  if m.target.capacity.toInt ≤ 0 then throw .capacity
  return m

def ofText (text : String) : Except ReadError Manifest :=
  match Toml.Document.ofText? text with
  | some doc => ofDocument doc
  | none => .error .malformed

def ofBytes (bytes : Bytes) : Except ReadError Manifest :=
  match Text.ofUtf8? bytes with
  | some text => ofText text
  | none => .error .malformed

end EntryCode.Manifest
