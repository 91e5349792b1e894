import EntryCode.Text.Quoted

/-!
Instruction-set extensions. A set is a word of flags; the ones named here gate instructions, and
two of them are only recorded.
-/

namespace EntryCode

structure Extensions where
  bits : BitVec 32
  deriving DecidableEq, Repr

namespace Extensions

def none : Extensions := ⟨0⟩

def d : Extensions := ⟨1⟩

def zba : Extensions := ⟨2⟩

def zbb : Extensions := ⟨4⟩

/-- Compressed instructions; recorded, never emitted. -/
def c : Extensions := ⟨8⟩

/-- Vectors; recorded, never emitted. -/
def v : Extensions := ⟨16⟩

def all : Extensions := ⟨31⟩

def known : List (String × Extensions) :=
  [("c", c), ("d", d), ("v", v), ("zba", zba), ("zbb", zbb)]

/-- Whether some extension of `e` is in the set. -/
def has (s e : Extensions) : Bool :=
  s.bits &&& e.bits ≠ 0

/-- Adds the extensions of `e`. -/
def insert (s e : Extensions) : Extensions :=
  ⟨s.bits ||| e.bits⟩

/-- Removes the extensions of `e`. -/
def erase (s e : Extensions) : Extensions :=
  ⟨s.bits &&& ~~~e.bits⟩

def names (s : Extensions) : List String :=
  (known.filter fun entry => s.has entry.2).map Prod.fst

def targetName (s : Extensions) : String :=
  "+".intercalate ("rv64i" :: s.names)

/-- The name of one extension, or the flags of what is none. -/
def flagName (s : Extensions) : String :=
  match known.find? fun entry => entry.2 = s with
  | some entry => entry.1
  | .none => s!"feature({Text.hex s.bits.toNat})"

/-- The name of an extension that is not known. -/
structure Unknown where
  name : String
  deriving DecidableEq, Repr

def Unknown.message (u : Unknown) : String :=
  s!"unknown extension {Text.quoted u.name}"

/-- The extension called `name`, whatever its case and the blanks around it. -/
def named? (name : String) : Option Extensions :=
  known.lookup (Text.lower (Text.trimBlanks name))

def ofNames (names : List String) : Except Unknown Extensions :=
  names.foldlM (fun s n => match named? n with
    | some e => .ok (s.insert e)
    | .none => .error ⟨n⟩) none

end Extensions

end EntryCode
