import EntryCode.Callee
import EntryCode.Method.Basic
import EntryCode.Thread.Layout

/-!
The configuration of the generator: what it counts and profiles, the layouts of the records it
reads, and the addresses it calls.
-/

namespace EntryCode

/-- What does not depend on the layouts and routines of the runtime. -/
structure Settings where
  useCompiler : Bool
  invocationLimit : BitVec 32
  /-- Keep the profile cell in every frame and ask for method data at the limit. -/
  profile : Bool
  profileLimit : BitVec 32
  /-- Generate math entries; one without an instruction and without a routine is left out. -/
  math : Bool
  dispatch : DispatchTable
  deriving DecidableEq, Repr

structure Config extends Settings where
  method : Layout MethodField
  thread : Layout ThreadField
  callees : Callees

def Settings.reference : Settings where
  useCompiler := true
  invocationLimit := 10000
  profile := false
  profileLimit := 3300
  math := true
  dispatch := ⟨0x7e0000000000⟩

namespace Config

def reference : Config where
  toSettings := .reference
  method := MethodField.reference
  thread := ThreadField.reference
  callees := .reference

inductive Problem where
  | method (p : Layout.Problem)
  | thread (p : Layout.Problem)
  | callee (c : Callee)
  | dispatch
  | invocationLimit
  | profileLimit
  deriving DecidableEq, Repr

def Problem.message : Problem → String
  | .method p => Layout.report MethodField p
  | .thread p => Layout.report ThreadField p
  | .callee c => s!"runtime entry {c.name} has no address"
  | .dispatch => "dispatch table has no address"
  | .invocationLimit => "invocation limit must be positive"
  | .profileLimit => "profile limit must be positive"

def problem? (c : Config) : Option Problem :=
  (c.method.problem?.map .method).or <|
  (c.thread.problem?.map .thread).or <|
  (c.callees.missing?.map .callee).or <|
  if c.dispatch.base = 0 then some .dispatch
  else if c.useCompiler ∧ c.invocationLimit = 0 then some .invocationLimit
  else if c.profile ∧ c.profileLimit = 0 then some .profileLimit
  else none

def counts (c : Config) : Bool :=
  c.useCompiler || c.profile

def counterLimit (c : Config) : BitVec 32 :=
  if c.useCompiler then c.invocationLimit else c.profileLimit

end Config

end EntryCode
