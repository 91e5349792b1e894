import EntryCode.Database.Evaluation

/-!
Rows that are put into a table, or taken out, together with their entries in its indexes; and the
rules that new rows have to keep.
-/

namespace EntryCode.Database.Change

open Evaluation

section Entries

/-- The columns at the end of an entry of an index, which lead to the row. -/
def leading (t : Table) (i : Index) : List KeyPart :=
  match t.clustered with
  | none => [⟨.number, .binary, false⟩]
  | some own => own.key.filter fun k =>
    !i.key.any fun x => x.part.same k.part && decide (x.collation = k.collation)

def scopeOf (place : Name) (t : Table) (number : Int) (values : List Value) : Scope :=
  Scope.empty.within [t.boundAt place t.name number values]

def partOf (place : Name) (t : Table) (number : Int) (values : List Value) (k : KeyPart) :
    Work Value := do
  match k.part with
  | .column i =>
    let v := (values[i]?).getD .null
    return match t.columns[i]? with
      | some c => if c.affinity = .real then v.prefer .real else v
      | none => v
  | .number => return .integer number
  | .expr e => eval mostLevels (scopeOf place t number values) e

def isIndexed (place : Name) (t : Table) (i : Index) (number : Int) (values : List Value) :
    Work Bool := do
  match i.condition with
  | none => return true
  | some e => return (← eval mostLevels (scopeOf place t number values) e).truth? = some true

def entryOf (place : Name) (t : Table) (i : Index) (number : Int) (values : List Value) :
    Work (List Value) :=
  (i.key ++ leading t i).mapM (partOf place t number values)

def compareEntries (c : Context) : List KeyPart → List Value → List Value → Ordering
  | k :: ks, a :: as, b :: bs =>
    let o := c.compare k.collation a b
    (if k.isDescending then o.swap else o).then (compareEntries c ks as bs)
  | _, _, _ => .eq

/-- Looks for an entry with a key, of which only the first values may be given. -/
def probe (c : Context) (key : List KeyPart) (entry : List Value) : Tree.Probe := fun cell => do
  match Record.decode? (← get).encoding (← Store.content cell) with
  | some found => return compareEntries c key found entry
  | none => throw .damaged

def findEntry? (place : Name) (root : Nat) (probe : Tree.Probe) : Work (Option (List Value)) :=
  Work.look place do
    match ← Tree.find? root probe with
    | none => return none
    | some cell =>
      match Record.decode? (← get).encoding (← Store.content cell) with
      | some found => return some found
      | none => throw .damaged

def putEntry (place : Name) (key : List KeyPart) (root : Nat) (entry : List Value) :
    Work Unit := do
  let c ← read
  Work.inStore place do
    let content := Record.encode (← get).format entry
    Tree.insert root (probe c key entry) 0 content

/-- Takes an entry out of an index. It has to be there. -/
def eraseEntry (place : Name) (key : List KeyPart) (root : Nat) (entry : List Value) :
    Work Unit := do
  let c ← read
  let p := probe c key entry
  if (← findEntry? place root p).isNone then Work.fail .unindexed
  Work.inStore place (Tree.erase root p)

end Entries

section Rows

def findRow? (place : Name) (t : Table) (number : Int) : Work (Option (List Value)) := do
  match ← findEntry? place t.root (Tree.row number) with
  | none => return none
  | some record =>
    return some (← computed mostLevels place t false number (t.rowOf number record))

def clusterKey (t : Table) : List KeyPart :=
  t.clustered.elim [] Index.key

def findClustered? (place : Name) (t : Table) (key : List Value) : Work (Option (List Value)) := do
  let c ← read
  match ← findEntry? place t.root (probe c (clusterKey t) key) with
  | none => return none
  | some record => return some (← computed mostLevels place t false 0 (t.rowOf 0 record))

def rowOfEntry? (place : Name) (t : Table) (i : Index) (entry : List Value) :
    Work (Option (Int × List Value)) := do
  let parts := i.key ++ leading t i
  if t.hasNumbers then
    let number := ((entry.drop i.key.length).head?.map Value.toInt).getD 0
    return (← findRow? place t number).map fun values => (number, values)
  let key := (clusterKey t).map fun k =>
    ((parts.zip entry).find? fun x => x.1.part.same k.part).elim .null Prod.snd
  return (← findClustered? place t key).map fun values => (0, values)

def eraseEntries (place : Name) (t : Table) (indexes : List Index) (number : Int)
    (values : List Value) : Work Unit := do
  for i in indexes do
    if ← isIndexed place t i number values then
      eraseEntry place (i.key ++ leading t i) i.root (← entryOf place t i number values)

def eraseRow (place : Name) (t : Table) (number : Int) (values : List Value) : Work Unit := do
  let c ← read
  match t.clustered with
  | none => Work.inStore place (Tree.erase t.root (Tree.row number))
  | some own =>
    let key ← own.key.mapM (partOf place t number values)
    Work.inStore place (Tree.erase t.root (probe c own.key key))

def putEntries (place : Name) (t : Table) (indexes : List Index) (number : Int)
    (values : List Value) : Work Unit := do
  for i in indexes do
    if ← isIndexed place t i number values then
      putEntry place (i.key ++ leading t i) i.root (← entryOf place t i number values)

def putRow (place : Name) (t : Table) (number : Int) (values : List Value) : Work Unit := do
  let record := t.recordOf values
  match t.clustered with
  | none => Work.inStore place do
      let content := Record.encode (← get).format record
      Tree.insert t.root (Tree.row number) number content
  | some own => putEntry place own.key t.root record

/-- The number of a new row: one more than the greatest. -/
def nextNumber (place : Name) (t : Table) : Work Int := do
  if !t.hasNumbers then return 0
  let last ← Work.look place (Tree.lastKey? t.root)
  match last with
  | none => return 1
  | some n => if n = 0x7fffffffffffffff then Work.fail .full else return n + 1

end Rows

section Rules

def columnPath (t : Table) (i : Nat) : String :=
  t.name ++ "." ++ (t.columns[i]?).elim "" Column.name

def sameKeyFault (t : Table) (i : Index) : Fault :=
  let isPlain := i.key.all fun k => match k.part with
    | .expr _ => false
    | _ => true
  let names := i.key.map fun k => match k.part with
    | .column n => columnPath t n
    | _ => t.numberColumn.elim (t.name ++ ".rowid") fun n => columnPath t n.1
  let what := if isPlain then ", ".intercalate names else s!"index '{i.name}'"
  .broken (if i.isPrimary then 1555 else 2067) s!"UNIQUE constraint failed: {what}"

def sameNumberFault (t : Table) : Fault :=
  match t.numberColumn with
  | some (i, _) => .broken 1555 ("UNIQUE constraint failed: " ++ columnPath t i)
  | none => .broken 2579 ("UNIQUE constraint failed: " ++ t.name ++ ".rowid")

def kindName : Value → String
  | .null => "NULL"
  | .integer _ => "INT"
  | .real _ => "REAL"
  | .text _ => "TEXT"
  | .blob _ => "BLOB"

/-- Brings a value to the kind of its column. In a strict table it has to be of it. -/
def fit (t : Table) (i : Nat) (v : Value) : Work Value := do
  let some c := t.columns[i]? | return v
  let type := String.ofList (c.type.map Char.toLower)
  if t.isStrict && type = "any" then return v
  let w := c.read (v.prefer c.affinity)
  let isFit := match type, w with
    | _, .null => true
    | "int", .integer _ | "integer", .integer _ | "real", .real _ | "text", .text _
    | "blob", .blob _ => true
    | _, _ => false
  if t.isStrict && !isFit then
    let kind := kindName w
    let name := String.ofList (c.type.map Char.toUpper)
    let path := columnPath t i
    Work.fail (.broken 3091 s!"cannot store {kind} value in {name} column {path}")
  return w

def numberOf (v : Value) : Work Int := do
  match v.prefer .integer with
  | .integer i => return i
  | _ => Work.fail .mismatch

/-- Ends the statement as a rule asks for, or leaves the row out. -/
def refuse (action : Conflict) (f : Fault) : Work Bool :=
  match action with
  | .ignore => return false
  | action => throw ⟨f, action⟩

def defaultOf (c : Column) : Work Value := do
  match c.default with
  | none => return .null
  | some e => eval mostLevels .empty e

/-- Checks the rules for each column. Gives the values to use, or none if the row is left out. -/
def checkColumns (t : Table) (override : Option Conflict) (values : List Value) :
    Work (Option (List Value)) := do
  let mut row := values
  for (c, i) in t.columns.zipIdx do
    if let some own := c.notNull then
      let isNumber := t.numberColumn.any fun n => n.1 = i
      if ((row[i]?).getD .null).isNull && !isNumber then
        let action := override.getD own
        let default ← if action = .replace then defaultOf c else pure .null
        if default.isNull then
          let fault := .broken 1299 ("NOT NULL constraint failed: " ++ columnPath t i)
          if !(← refuse (if action = .replace then .abort else action) fault) then return none
        else row := row.set i (← fit t i default)
  return some row

/-- Checks the rules for whole rows; false if the row is left out. -/
def checkRow (place : Name) (t : Table) (override : Option Conflict) (number : Int)
    (values : List Value) : Work Bool := do
  for (e, text) in t.checks do
    if (← eval mostLevels (scopeOf place t number values) e).truth? = some false then
      let action := match override with
        | some .replace | none => .abort
        | some a => a
      if !(← refuse action (.broken 275 ("CHECK constraint failed: " ++ text))) then return false
  return true

/-- The row whose key in an index is that of a new one, unless it is the row that is changed. -/
def rival? (place : Name) (t : Table) (i : Index) (old : Option (Int × List Value)) (number : Int)
    (values : List Value) : Work (Option (Int × List Value)) := do
  if !(← isIndexed place t i number values) then return none
  let key ← i.key.mapM (partOf place t number values)
  if key.any Value.isNull then return none
  let c ← read
  let root := if i.isPrimary && !t.hasNumbers then t.root else i.root
  let found ← findEntry? place root (probe c i.key key)
  match found with
  | none => return none
  | some entry =>
    let row ← if i.isPrimary && !t.hasNumbers then pure (some (0, t.rowOf 0 entry))
      else rowOfEntry? place t i entry
    match row, old with
    | some (n, vs), some (m, ws) =>
      let isSame ← if t.hasNumbers then pure (decide (n = m))
        else do
          let own := clusterKey t
          let a ← own.mapM (partOf place t n vs)
          let b ← own.mapM (partOf place t m ws)
          pure (decide (compareEntries c own a b = .eq))
      return if isSame then none else some (n, vs)
    | row, _ => return row

end Rules

end EntryCode.Database.Change
