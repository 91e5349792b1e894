import EntryCode.Database.Catalog
import EntryCode.Database.Function
import EntryCode.Database.Space

/-!
What a statement works on: the main database, one that is gone when the program ends, and others
that were added, each with its catalog.
-/

namespace EntryCode.Database

structure World where
  stores : List (Name × Store)
  changes : Nat
  totalChanges : Nat
  lastNumber : Int

/-- What stays the same while a statement is carried out. -/
structure Context where
  catalogs : List (Name × Catalog)
  encoding : Text.Encoding
  arguments : List Value
  now : Int

structure Halt where
  fault : Fault
  ending : Conflict

/-- A step of a statement. What it did before it was halted stays until someone undoes it. -/
abbrev Work := ReaderT Context (ExceptT Halt (StateM World))

namespace Work

def fail {α : Type} (f : Fault) : Work α :=
  throw ⟨f, .abort⟩

def invalid {α : Type} (reason : String) : Work α :=
  fail (.invalid reason)

def ofExcept {α : Type} : Except Fault α → Work α
  | .ok a => return a
  | .error f => fail f

def store (place : Name) : Work Store := do
  match (← get).stores.lookup place with
  | some s => return s
  | none => invalid s!"unknown database {place}"

def inStore {α : Type} (place : Name) (a : Store.Action α) : Work α := do
  match a.run (← store place) with
  | .ok (x, after) =>
    modify fun w => { w with
      stores := w.stores.map fun (n, s) => if n = place then (n, after) else (n, s) }
    return x
  | .error f => fail f

def look {α : Type} (place : Name) (a : Store.Action α) : Work α := do
  match a.run (← store place) with
  | .ok (x, _) => return x
  | .error f => fail f

end Work

inductive Found where
  | table (place : Name) (t : Table)
  | view (place : Name) (v : View)

namespace Context

variable (c : Context)

def catalog (place : Name) : Catalog :=
  (c.catalogs.lookup place).getD .empty

def searchOrder : List Name :=
  let all := c.catalogs.map Prod.fst
  all.filter (· = "temp") ++ all.filter (· ≠ "temp")

def places (place : Option Name) : List Name :=
  match place with
  | none => c.searchOrder
  | some p => c.searchOrder.filter (Name.same p)

def definitions? (place : Option Name) (name : Name) : Option Found :=
  let key := Name.key name
  let isTemporary := place.any fun p => Name.key p = "temp"
  let usual := ["sqlite_master", "sqlite_schema"].contains key
  let temporary := ["sqlite_temp_master", "sqlite_temp_schema"].contains key
  if (temporary && (place.isNone || isTemporary)) || (usual && isTemporary) then
    some (.table "temp" (.definitions "sqlite_temp_master"))
  else if usual then
    (match place with
      | none => some "main"
      | some p => (c.places (some p)).head?).map fun p => .table p (.definitions "sqlite_master")
  else none

def find? (r : Reference) : Option Found :=
  let known := (c.places r.place).findSome? fun p =>
    let catalog := c.catalog p
    ((catalog.table? r.name).map (Found.table p)) <|> ((catalog.view? r.name).map (Found.view p))
  known <|> c.definitions? r.place r.name

/-- The index with a name, its table, and the database they are in. -/
def index? (r : Reference) : Option (Name × Table × Index) :=
  (c.places r.place).findSome? fun p =>
    ((c.catalog p).index? r.name).map fun (t, i) => (p, t, i)

def compare (collation : Collation) (a b : Value) : Ordering :=
  Value.compareWith c.encoding collation a b

def less (collation : Collation) (a b : Value) : Bool :=
  c.compare collation a b = .lt

end Context

end EntryCode.Database
