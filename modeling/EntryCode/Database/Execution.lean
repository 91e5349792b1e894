import EntryCode.Database.Rebuild
import EntryCode.Database.Session

/-!
Carrying out statements in a session. First it is found out which databases a statement reads and
changes; then they are locked; and what it did is undone if it fails.
-/

namespace EntryCode.Database

/-- What a statement needs. -/
structure Footprint where
  reads : Bool
  writes : List Name
  deriving DecidableEq, Repr

namespace Execution

open Modification Definition

section Needs

def coreHasTables : Core → Bool
  | .values rows => rows.any fun r => r.any Expr.hasQuery
  | .select _ columns tables condition groups having =>
    !tables.isEmpty || columns.any (fun
      | .expr e _ _ => e.hasQuery
      | _ => true) ||
    (condition.toList ++ groups ++ having.toList).any Expr.hasQuery

def hasTables : Select → Bool
  | .mk commons first others order limit offset =>
    !commons.isEmpty || coreHasTables first || others.any (fun o => coreHasTables o.2) ||
      order.any (fun (.mk e _ _) => e.hasQuery) || (limit.toList ++ offset.toList).any Expr.hasQuery

def needsCatalog : Statement → Bool
  | .select q => hasTables q
  | _ => true

def changing (place : Name) : Footprint :=
  ⟨true, [place]⟩

def reading : Footprint :=
  ⟨true, []⟩

/-- The database of a table that rows are put into, changed in, or taken out of. -/
def targetPlace (t : Target) : Work Name := do
  match ← Evaluation.findTable .empty t.reference with
  | .table place _ | .view place _ => return place

def dropPlace (kind : Kind) (r : Reference) : Work (Option Name) := do
  let c ← read
  match kind with
  | .table | .view =>
    return (c.find? r).map fun
      | .table p _ => p
      | .view p _ => p
  | .index => return (c.index? r).map fun x => x.1
  | .trigger => return (c.places r.place).find? fun p => ((c.catalog p).trigger? r.name).isSome

/-- Finds out what a statement needs. -/
def prepare : Statement → Work Footprint
  | .select q => do
    let _ ← Evaluation.checkSelect Evaluation.mostLevels .empty q
    return ⟨hasTables q, []⟩
  | .insert commons c t columns rows upserts returning => do
    checkTop (.insert commons c t columns rows upserts returning)
    return changing (← targetPlace t)
  | .update commons c t sets tables condition returning => do
    checkTop (.update commons c t sets tables condition returning)
    return changing (← targetPlace t)
  | .delete commons t condition returning => do
    checkTop (.delete commons t condition returning)
    return changing (← targetPlace t)
  | .createTable h _ | .createTableAs h _ | .createView h _ _ => do
    let place ← placeOf h
    return if ← isDue h place then changing place else reading
  | .createIndex h _ table _ _ => do
    let c ← read
    match c.find? ⟨h.reference.place, table⟩ with
    | some (.table place _) =>
      let isThere := h.mayExist && ((c.catalog place).index? h.reference.name).isSome
      return if isThere then reading else changing place
    | _ => return reading
  | .createTrigger h _ _ table _ _ => return changing (← triggerPlace h table).1
  | .drop kind _ r => return (← dropPlace kind r).elim reading changing
  | .alter r _ => do
    match (← read).find? r with
    | some (.table place _) => return changing place
    | _ => return reading
  | .reindex r => return ⟨true, (← reindexed r).map Prod.fst⟩
  | .analyze _ => return changing "main"
  | _ => return reading

end Needs

/-- Carries out a statement. Gives the number of rows that it touched, if it is one on rows. -/
def perform : Statement → Work (Option Nat)
  | .createTable h t => do createTable h t; return none
  | .createTableAs h q => do createTableAs h q; return none
  | .createIndex h isUnique table key condition => do
    createIndex h isUnique table key condition
    return none
  | .createView h columns q => do createView h columns q; return none
  | .createTrigger h m _ table condition steps => do
    createTrigger h m table condition steps
    return none
  | .drop kind mayMiss r => do drop kind mayMiss r; return none
  | .alter r a => do alter r a; return none
  | .reindex r => do reindex r; return none
  | .analyze r => do analyze r; return none
  | .select q => do
    let _ ← Modification.perform 1000 .top (.select q)
    return none
  | s => return some (← Modification.perform 1000 .top s)

end Execution

namespace Session

open Execution

section Works

/-- What statements find in a session. Nothing is known of a database that was not looked at. -/
def context (arguments : List Value) : Step Context := do
  let s ← get
  let catalogOf (store : Store) : Step Catalog := match Catalog.ofStore store with
    | .ok c => return c
    | .error f => throw f
  let main ← match s.shelf.content with
    | .stored store => if s.isLoaded then catalogOf store else pure .empty
    | _ => pure .empty
  let others ← s.others.mapM fun (n, store) => return (n, ← catalogOf store)
  return ⟨("main", main) :: others, s.encoding, arguments, s.now⟩

/-- The databases of a session; the main one may be changed if `isChange`. -/
def world (isChange : Bool) : Step World := do
  let main ← store
  let s ← get
  return {
    stores := ("main", { main with isTouched := main.isTouched && isChange }) :: s.others
    changes := s.changes
    totalChanges := s.totalChanges
    lastNumber := s.lastNumber }

def look {α : Type} (c : Context) (w : Work α) : Step α := do
  match ((w.run c).run.run (← world false)).1 with
  | .ok a => return a
  | .error h => throw h.fault

def accept (w : World) (count : Option Nat) : Step Unit := do
  if let some main := w.stores.lookup "main" then
    if main.isTouched then
      keep
      put main
  modify fun s => { s with
    others := (w.stores.filter fun x => x.1 ≠ "main").map fun (n, store) =>
      (n, { store with isTouched := false })
    changes := count.getD s.changes
    totalChanges := s.totalChanges + count.getD 0
    lastNumber := w.lastNumber
    isEncodingFixed := s.isEncodingFixed || w.stores.any fun x => x.2.header.encoding ≠ 0 }

/-- Locks what a statement needs. -/
def take (f : Footprint) : Step Unit := do
  if f.writes.contains "main" then begin
  else
    if f.writes ≠ [] ∧ (← get).isReadOnly then throw .readOnly
    if f.reads then read

/-- Does something with the databases, and undoes it if it fails. -/
def work {α : Type} (c : Context) (f : Footprint) (w : Work α) (count : α → Option Nat) :
    Step α := do
  take f
  let (result, after) := (w.run c).run.run (← world (f.writes.contains "main"))
  match result with
  | .ok a =>
    accept after (count a)
    return a
  | .error h =>
    match h.ending with
    | .fail => accept after none
    | .rollback => if (← get).undo.isSome then endTransaction false
    | _ => if h.fault = .full ∧ f.writes.contains "main" then keep
    throw h.fault

def run (arguments : List Value) (s : Statement) : Step Unit := do
  if needsCatalog s then load
  let c ← context arguments
  let f ← look c (prepare s)
  let _ ← work c f (perform s) id

end Works

section Queries

def query (arguments : List Value) (q : Select) : Step (List (List Value)) := do
  load
  let c ← context arguments
  let f ← look c (prepare (.select q))
  let r ← work c f (Evaluation.select Evaluation.mostLevels .empty q) fun _ => none
  return r.rows

end Queries

section Others

/-- Writes the main database anew. -/
def vacuum (place : Option Name) : Step Unit := do
  load
  let c ← context []
  match (c.places (place <|> some "main")).head? with
  | none => invalid "unknown database"
  | some "temp" => return
  | some _ =>
    if (← get).undo.isSome then invalid "cannot VACUUM from within a transaction"
    let s ← get
    let current := (s.shelf.content.store s.paper)
    let isSize (n : Nat) : Bool := 512 ≤ n && n ≤ 65536 && n = 1 <<< n.log2
    let size := if s.mode = .wal then current.pageSize
      else (s.nextSize.filter isSize).getD current.pageSize
    let paper : Paper := ⟨size, s.nextVacuuming.getD current.vacuuming⟩
    work c (changing "main") (Definition.vacuum "main" paper) fun _ => none

/-- The name of a database that an expression gives; a name stands for itself. -/
def placeName (arguments : List Value) (name : Expr) : Step Name := do
  let e := match name with
    | .column [n] _ => .literal (.text (bytesOf n.toList))
    | e => e
  let v ← look (← context arguments) (Evaluation.eval Evaluation.mostLevels .empty e)
  return Name.key (String.ofList (charsOf v.bytes))

def attach (arguments : List Value) (name : Expr) : Step Unit := do
  let n ← placeName arguments name
  if n = "main" || (← get).others.any fun x => x.1 = n then
    invalid s!"database {n} is already in use"
  if 11 ≤ (← get).others.length then invalid "too many attached databases - max 10"
  modify fun s => { s with others := s.others ++ [(n, .new .default)] }

def detach (arguments : List Value) (name : Expr) : Step Unit := do
  let n ← placeName arguments name
  if n = "main" || n = "temp" || !(← get).others.any fun x => x.1 = n then
    invalid s!"no such database: {n}"
  modify fun s => { s with others := s.others.filter fun x => x.1 ≠ n }

end Others

end Session

end EntryCode.Database
