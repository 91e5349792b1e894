import EntryCode.Text.Quoted

/-!
Layouts of records that the surrounding runtime owns. Each field of a record has a configuration
name and an access width; a layout gives every field an offset. Offsets must be within reach of a
memory immediate and aligned to the width.
-/

namespace EntryCode

class RecordField (F : Type) where
  record : String
  all : List F
  name : F → String
  /-- The access width in bytes; one where only the offset is used. -/
  width : F → Nat

structure Layout (F : Type) where
  offset : F → Dword

namespace Layout

variable {F : Type} [RecordField F]

/-- The field called `name`. -/
def field? (name : String) : Option F :=
  (RecordField.all (F := F)).find? fun f => RecordField.name f = name

structure Unknown where
  name : String
  deriving DecidableEq, Repr

def Unknown.message (u : Unknown) : String :=
  s!"unknown field {Text.quoted u.name}"

def set [DecidableEq F] (l : Layout F) (f : F) (off : Dword) : Layout F :=
  ⟨fun g => if g = f then off else l.offset g⟩

/-- Moves the field called `name`. -/
def setNamed [DecidableEq F] (l : Layout F) (name : String) (off : Dword) :
    Except Unknown (Layout F) :=
  match field? name with
  | some f => .ok (l.set f off)
  | none => .error ⟨name⟩

def setAll [DecidableEq F] (l : Layout F) (moved : List (String × Dword)) :
    Except Unknown (Layout F) :=
  moved.foldlM (fun l e => setNamed l e.1 e.2) l

inductive Problem where
  | range (name : String) (off : Dword)
  | alignment (name : String) (off : Dword) (width : Nat)
  deriving DecidableEq, Repr

def Problem.message : Problem → String
  | .range name off => s!"{name} offset {Text.signed off} outside 0..2047"
  | .alignment name off width => s!"{name} offset {Text.signed off} not {width}-aligned"

def check (l : Layout F) (f : F) : Option Problem :=
  let off := l.offset f
  if off.toInt < 0 ∨ 2047 < off.toInt then some (.range (RecordField.name f) off)
  else if off.toNat % RecordField.width f ≠ 0 then
    some (.alignment (RecordField.name f) off (RecordField.width f))
  else none

def problem? (l : Layout F) : Option Problem :=
  (RecordField.all (F := F)).findSome? l.check

def report (F : Type) [RecordField F] (p : Problem) : String :=
  s!"{RecordField.record F} layout: {p.message}"

def fields (l : Layout F) : List (String × Dword × Nat) :=
  (RecordField.all (F := F)).map fun f => (RecordField.name f, l.offset f, RecordField.width f)

end Layout

end EntryCode
