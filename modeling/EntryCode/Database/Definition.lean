import EntryCode.Database.Modification

/-!
The statements that make, alter and remove tables, indexes, views and triggers, and those that write
their trees anew.
-/

namespace EntryCode.Database.Definition

open Evaluation Change

section Entries

def putDefinition (place : Name) (number : Int) (values : List Value) : Work Unit :=
  Work.inStore place do
    let content := Record.encode (← get).format values
    Tree.insert 1 (Tree.row number) number content

def addDefinition (place : Name) (values : List Value) : Work Int := do
  let number ← nextNumber place (.definitions "")
  putDefinition place number values
  return number

def textOf (text : List Char) : Value :=
  .text (bytesOf text)

def nameOf (name : Name) : Value :=
  textOf name.toList

def definition (kind : String) (name table : Name) (root : Nat) (text : Value) : List Value :=
  [textOf kind.toList, nameOf name, nameOf table, .integer root, text]

def renew (place : Name) : Work Unit :=
  Work.inStore place (Store.setHeader fun h => { h with cookie := (h.cookie + 1) % 0x100000000 })

/-- Chooses the format and the encoding of a database, unless they were chosen before. -/
def settle (place : Name) : Work Unit := do
  let code := match (← read).encoding with
    | .utf8 => 1
    | .utf16le => 2
    | .utf16be => 3
  Work.inStore place do
    if (← get).header.format = 0 then
      Store.setHeader fun h => { h with format := 4, encoding := code }

def updateDefinitions (place : Name) (f : Entry → Work (Option (List Value))) : Work Unit := do
  for e in ← Work.look place Entry.all do
    if let some values ← f e then putDefinition place e.number values

def eraseDefinitions (place : Name) (test : Entry → Bool) : Work Unit := do
  for e in ← Work.look place Entry.all do
    if test e then Work.inStore place (Tree.erase 1 (Tree.row e.number))

end Entries

section Names

def placeOf (h : Heading) : Work Name := do
  let c ← read
  match h.reference.place with
  | none => return if h.isTemporary then "temp" else "main"
  | some p =>
    if h.isTemporary && Name.key p ≠ "temp" then
      Work.invalid "temporary table name must be unqualified"
    match c.places (some p) with
    | place :: _ => return place
    | [] => Work.invalid s!"unknown database {p}"

def isReserved (name : Name) : Bool :=
  "sqlite_".toList.isPrefixOf (Name.key name).toList

def checkName (name : Name) : Work Unit := do
  if isReserved name then
    Work.invalid s!"object name reserved for internal use: {name}"

/-- Refuses a definition that mentions what is in another database than its own. -/
def checkMentioned (place name : Name) (mentioned : List Reference) : Work Unit := do
  if place ≠ "temp" then
    for r in mentioned do
      if let some p := r.place then
        if !Name.same p place then
          Work.invalid s!"{name} cannot reference objects in database {p}"

def checkLasting (s : Scope) (what : String) (e : Expr) : Work Unit := do
  check mostLevels s false e
  if e.hasQuery then Work.invalid s!"subqueries prohibited in {what}"
  let varies := e.any (fun
    | .call f _ _ arguments _ _ => Function.varies (Name.key f) arguments.length
    | .column [n] _ => (timeNames.lookup (Name.key n)).isSome
    | _ => false) Expr.mostLevels
  if varies then Work.invalid s!"non-deterministic functions prohibited in {what}"

/-- Whether a table can be made under a name. It need not if there is one and it may be there. -/
def isDue (h : Heading) (place : Name) : Work Bool := do
  let c := (← read).catalog place
  let name := h.reference.name
  checkName name
  if c.hasTable name then
    if h.mayExist then return false
    Work.invalid s!"table {name} already exists"
  if (c.index? name).isSome then Work.invalid s!"there is already an index named {name}"
  return true

def inQuotes (name : Name) : List Char :=
  '"' :: name.toList.flatMap (fun c => if c = '"' then [c, c] else [c]) ++ ['"']

end Names

section Tables

def makeTable (place : Name) (t : Table) (text : List Char) (fill : Nat → Work Unit) :
    Work Unit := do
  settle place
  let root ← Work.inStore place (Space.createRoot (!t.hasNumbers))
  let number ← addDefinition place (List.replicate 5 .null)
  for i in t.indexes do
    let own ← Work.inStore place (Space.createRoot true)
    let _ ← addDefinition place (definition "index" i.name t.name own .null)
  fill root
  putDefinition place number
    (definition "table" t.name t.name root (textOf ("CREATE TABLE ".toList ++ text)))
  renew place

def sequenceText : List Char :=
  "sqlite_sequence(name,seq)".toList

/-- Makes the table of the greatest numbers, unless there is one. -/
def makeSequence (place : Name) : Work Unit := do
  if (((← read).catalog place).table? "sqlite_sequence").isNone then
    makeTable place { Table.definitions "sqlite_sequence" with root := 0 } sequenceText
      fun _ => return

def createTable (h : Heading) (s : TableSpec) : Work Unit := do
  let place ← placeOf h
  let name := h.reference.name
  if ← isDue h place then
    let t ← Work.ofExcept (Table.ofSpec name s)
    let s := Scope.empty.within [t.bound place name]
    for (e, _) in t.checks do
      check mostLevels s false e
      if e.hasQuery then Work.invalid "subqueries prohibited in CHECK constraints"
    for c in t.columns do
      for (e, _) in c.computed.toList do checkLasting s "generated columns" e
    Modification.checkComputed t
    makeTable place t h.text fun _ => return
    if t.counts then makeSequence place

/-- The words that a name must not be without quotes. -/
def isPlain (name : Name) : Bool :=
  !name.isEmpty && !(name.toList.head?.any Char.isDigit) &&
    name.toList.all (fun c => c.isAlphanum || c = '_') && !Token.isReserved name.toList

def tableText (name : Name) (columns : List (Name × Affinity)) : List Char :=
  let put (n : Name) : List Char := if isPlain n then n.toList else inQuotes n
  let room := (columns.map Prod.fst ++ [name]).foldl (fun n c => n + (inQuotes c).length) 0 +
    5 * columns.length
  let (first, between, last) := if room < 50 then ("", ",", ")") else ("\n  ", ",\n  ", "\n)")
  let parts := columns.map fun (n, a) =>
    put n ++ (match a with
      | .none => ""
      | .text => " TEXT"
      | .numeric => " NUM"
      | .integer => " INT"
      | .real => " REAL").toList
  put name ++ '(' :: first.toList ++ between.toList.intercalate parts ++ last.toList

/-- Names without repeats; one that is there gets a number. -/
def freshNames : List Name → List Name → List Name
  | _, [] => []
  | used, n :: rest =>
    let taken (m : Name) := used.any (Name.same m)
    let fresh := if !taken n then n
      else (((List.range (used.length + 1)).map fun i => s!"{n}:{i + 1}").find? fun m =>
        !taken m).getD n
    fresh :: freshNames (fresh :: used) rest

def createTableAs (h : Heading) (q : Select) : Work Unit := do
  let place ← placeOf h
  let name := h.reference.name
  if ← isDue h place then
    let _ ← checkSelect mostLevels .empty q
    let found ← select mostLevels .empty q
    let names := freshNames [] (found.fields.map Field.name)
    let columns := names.zip (found.fields.map fun f => f.affinity.getD .none)
    let t : Table := { Table.definitions name with
      root := 0
      columns := columns.map fun (n, a) => ⟨n, [], a, .binary, none, none, none⟩
      isFixed := false }
    makeTable place t (tableText name columns) fun root => do
      for (values, i) in found.rows.zipIdx do
        let row := (values.zip columns).map fun (v, _, a) => v.prefer a
        putRow place { t with root } (i + 1) row

end Tables

section Indexes

def sortedEntries (place : Name) (t : Table) (i : Index) : Work (List (List Value)) := do
  let c ← read
  let parts := i.key ++ leading t i
  let entries ← (← tableRows mostLevels place t).filterMapM fun (number, values) => do
    if ← isIndexed place t i number values then
      return some (← entryOf place t i number values)
    else return none
  return entries.mergeSort fun a b => compareEntries c parts a b ≠ .gt

def isSame (c : Context) (i : Index) (a b : List Value) : Bool :=
  let n := i.key.length
  !(a.take n).any Value.isNull && compareEntries c i.key (a.take n) (b.take n) = .eq

def fillIndex (place : Name) (t : Table) (i : Index) : Work Unit := do
  let c ← read
  let entries ← sortedEntries place t i
  if i.unique.isSome then
    if (entries.zip (entries.drop 1)).any fun (a, b) => isSame c i a b then
      Work.fail (sameKeyFault t i)
  for e in entries do
    Work.inStore place do
      let content := Record.encode (← get).format e
      Tree.append true i.root 0 content

def createIndex (h : Heading) (isUnique : Bool) (table : Name) (key : List KeyTerm)
    (condition : Option Expr) : Work Unit := do
  let c ← read
  let name := h.reference.name
  let found := match h.reference.place with
    | some p => c.find? ⟨some p, table⟩
    | none => c.find? ⟨none, table⟩
  match found with
  | some (.table place t) =>
    if !(h.mayExist && ((c.catalog place).index? name).isSome) then
      checkName name
      if t.isFixed then Work.invalid s!"table {table} may not be indexed"
      if (c.catalog place).hasTable name || ((c.catalog place).index? name).isSome then
        Work.invalid s!"there is already an object named {name}"
      let i ← Work.ofExcept (Catalog.indexOf t name 0 isUnique key condition)
      let s := Scope.empty.within [t.bound place t.name]
      for k in i.key do
        if let .expr e := k.part then checkLasting s "index expressions" e
      for e in condition.toList do checkLasting s "partial index WHERE clauses" e
      let root ← Work.inStore place (Space.createRoot true)
      let head := if isUnique then "CREATE UNIQUE INDEX " else "CREATE INDEX "
      let _ ← addDefinition place
        (definition "index" name t.name root (textOf (head.toList ++ h.text)))
      fillIndex place t { i with root }
      renew place
  | some (.view _ _) => Work.invalid "views may not be indexed"
  | none => Work.invalid s!"no such table: {table}"

/-- Writes an index anew. -/
def refill (place : Name) (t : Table) (i : Index) : Work Unit := do
  Work.inStore place (Tree.clear i.root)
  fillIndex place t i

/-- The indexes to be written anew: all, those with a collation, those of a table, or one. -/
def reindexed (r : Option Reference) : Work (List (Name × Table × Index)) := do
  let c ← read
  let all := c.searchOrder.flatMap fun p =>
    (c.catalog p).tables.flatMap fun t => t.indexes.map fun i => (p, t, i)
  let some r := r | return all
  match if r.place.isNone then Collation.ofName? r.name.toList else none with
  | some x => return all.filter fun (_, _, i) => i.key.any fun k => k.collation = x
  | none =>
    match c.find? r, c.index? r with
    | some (.table p t), _ => return t.indexes.map fun i => (p, t, i)
    | some (.view _ _), _ => return []
    | none, some found => return [found]
    | none, none => Work.invalid "unable to identify the object to be reindexed"

def reindex (r : Option Reference) : Work Unit := do
  for (p, t, i) in ← reindexed r do refill p t i

end Indexes

section Others

def createView (h : Heading) (_columns : List Name) (q : Select) : Work Unit := do
  let place ← placeOf h
  let name := h.reference.name
  if ← isDue h place then
    checkMentioned place s!"view {name}" (Mention.ofStatement (.select q))
    settle place
    let number ← addDefinition place (List.replicate 5 .null)
    putDefinition place number
      (definition "view" name name 0 (textOf ("CREATE VIEW ".toList ++ h.text)))
    renew place

def triggerPlace (h : Heading) (table : Reference) : Work (Name × Found) := do
  if h.isTemporary && h.reference.place.isSome then
    Work.invalid "temporary trigger may not have qualified name"
  let c ← read
  let own ← placeOf h
  let place := match c.find? table with
    | some (.table "temp" _) | some (.view "temp" _) =>
      if h.reference.place.isNone then "temp" else own
    | _ => own
  let name := h.reference.name
  checkMentioned place s!"trigger {name}" [table]
  match c.find? (if place = "temp" then table else ⟨some place, table.name⟩) with
  | some found => return (place, found)
  | none => Work.invalid s!"no such table: {table.name}"

def createTrigger (h : Heading) (m : Moment) (table : Reference) (condition : Option Expr)
    (steps : List Statement) : Work Unit := do
  let name := h.reference.name
  let (place, target) ← triggerPlace h table
  let c := (← read).catalog place
  checkName name
  if (c.trigger? name).isSome then
    if !h.mayExist then Work.invalid s!"trigger {name} already exists"
  else
    let (isView, isOwn) := match target with
      | .table _ t => (false, t.isFixed || isReserved t.name)
      | .view _ _ => (true, false)
    if isOwn then Work.invalid "cannot create trigger on system table"
    if isView != (m = Moment.instead) then
      Work.invalid s!"cannot create such a trigger on {table.name}"
    checkMentioned place s!"trigger {name}" (steps.flatMap Mention.ofStatement ++
      condition.toList.flatMap (Mention.ofExpr Mention.mostLevels))
    let _ ← addDefinition place
      (definition "trigger" name table.name 0 (textOf ("CREATE TRIGGER ".toList ++ h.text)))
    renew place

end Others

section Removal

def destroyRoots (place : Name) (roots : List Nat) : Work Unit := do
  for root in roots.mergeSort (· ≥ ·) do
    if let some moved ← Work.inStore place (Space.destroyRoot root) then
      updateDefinitions place fun e =>
        return if e.root? = some moved then some { e with root := .integer root }.values else none

def isKind (e : Entry) (kind : String) : Bool :=
  Entry.isNamed e.kind kind

def forget (place : Name) (column : String) (name : Name) : Work Unit := do
  for table in ["sqlite_stat1", "sqlite_stat4"] do
    if let some t := ((← read).catalog place).table? table then
      let e := Expr.binary .eq (.column [column] false) (.literal (nameOf name))
      let _ ← Modification.delete 10 .top place t t.name (some e) false

/-- Takes a table or a view out of the definitions, with the triggers that wait for it. -/
def eraseTarget (place name : Name) : Work Unit := do
  eraseDefinitions place fun e => isKind e "trigger" && Entry.isNamed e.table name
  eraseDefinitions place fun e => Entry.isNamed e.table name
  if place ≠ "temp" then
    let waits (t : Trigger) : Bool :=
      Name.same t.table.name name && t.table.place.all (Name.same place)
    let gone := (((← read).catalog "temp").triggers.filter waits).map Trigger.name
    eraseDefinitions "temp" fun e => isKind e "trigger" && gone.any (Entry.isNamed e.name ·)

def drop (kind : Kind) (mayMiss : Bool) (r : Reference) : Work Unit := do
  let c ← read
  let missing (what : String) : Work Unit :=
    if mayMiss then return else Work.invalid s!"no such {what}: {r.name}"
  match kind with
  | .table =>
    match c.find? r with
    | some (.table place t) =>
      if t.isFixed || (Name.key t.name != "sqlite_stat1" && Name.key t.name != "sqlite_stat4" &&
          "sqlite_".toList.isPrefixOf (Name.key t.name).toList) then
        Work.invalid s!"table {r.name} may not be dropped"
      forget place "tbl" t.name
      if t.counts then
        if let some s := (c.catalog place).table? "sqlite_sequence" then
          let e := Expr.binary .eq (.column ["name"] false) (.literal (nameOf t.name))
          let _ ← Modification.delete 10 .top place s s.name (some e) false
      eraseTarget place t.name
      destroyRoots place (t.root :: t.indexes.map Index.root)
      renew place
    | some (.view _ _) => Work.invalid s!"use DROP VIEW to delete view {r.name}"
    | none => missing "table"
  | .view =>
    match c.find? r with
    | some (.view place v) =>
      eraseTarget place v.name
      renew place
    | some (.table _ _) => Work.invalid s!"use DROP TABLE to delete table {r.name}"
    | none => missing "view"
  | .index =>
    match c.index? r with
    | some (place, _, i) =>
      if i.isAutomatic then
        Work.invalid "index associated with UNIQUE or PRIMARY KEY constraint cannot be dropped"
      eraseDefinitions place fun e => isKind e "index" && Entry.isNamed e.name i.name
      forget place "idx" i.name
      renew place
      destroyRoots place [i.root]
    | none => missing "index"
  | .trigger =>
    match (c.places r.place).find? fun p => ((c.catalog p).trigger? r.name).isSome with
    | some place =>
      eraseDefinitions place fun e => isKind e "trigger" && Entry.isNamed e.name r.name
      renew place
    | none => missing "trigger"

end Removal

end EntryCode.Database.Definition
