import EntryCode.Isa.Violation

/-!
Scoped extension sets. An override replaces the current set until it is reverted; overrides are
reverted innermost first. Each override hands out one revert, which works at most once: a call out
of order uses it up without effect.
-/

namespace EntryCode

structure Revert where
  /-- The number of sets that were saved once the override was in force. -/
  depth : Nat
  used : Bool
  deriving DecidableEq, Repr

structure ExtensionScope where
  current : Extensions
  saved : List Extensions
  reverts : List Revert
  deriving DecidableEq, Repr

namespace ExtensionScope

def new (initial : Extensions) : ExtensionScope :=
  { current := initial, saved := [], reverts := [] }

/-- Makes `s` the current set. -/
def override (c : ExtensionScope) (s : Extensions) : ExtensionScope :=
  { current := s
    saved := c.current :: c.saved
    reverts := c.reverts ++ [⟨c.saved.length + 1, false⟩] }

def allowAll (c : ExtensionScope) : ExtensionScope :=
  c.override .all

/-- Marks revert `i` as used. -/
def use (c : ExtensionScope) (i : Nat) (r : Revert) : ExtensionScope :=
  { c with reverts := c.reverts.set i { r with used := true } }

/-- Calls revert `i`: the scope afterwards and the rule it broke, if any. -/
def revert (c : ExtensionScope) (i : Nat) : ExtensionScope × Option Violation :=
  match c.reverts[i]? with
  | none => (c, none)
  | some r =>
    if r.used then (c, none)
    else if c.saved.length ≠ r.depth then
      (c.use i r, some (.revertOrder r.depth c.saved.length))
    else match c.saved with
      | [] => (c.use i r, none)
      | s :: rest => ({ c.use i r with current := s, saved := rest }, none)

end ExtensionScope

end EntryCode
