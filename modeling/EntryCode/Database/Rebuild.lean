import EntryCode.Database.Alteration

/-!
Writing a database anew, so that no page of it is unused, and finding out how its indexes are
filled.
-/

namespace EntryCode.Database.Definition

open Evaluation Change

section Vacuum

/-- The entries of a tree as they are kept, each with its number. -/
def contents (place : Name) (root : Nat) : Work (List (Int × Bytes)) :=
  Work.look place do
    (← Tree.entries root).mapM fun c => return (c.key, ← Store.content c)

def appendAll (place : Name) (isIndex : Bool) (root : Nat) (all : List (Int × Bytes)) :
    Work Unit :=
  for (key, content) in all do Work.inStore place (Tree.append isIndex root key content)

/-- The text of a definition without the words in front of the name. -/
def bodyText (head : String) : Value → List Char
  | .text t => (charsOf t).drop head.length
  | _ => []

def remake (place : Name) (old : Catalog) (entries : List Entry) : Work Unit := do
  let mut hasSequence := false
  for e in entries do
    let name := String.ofList (charsOf e.name)
    if isKind e "table" && Name.key name != "sqlite_sequence" then
      if let some t := old.table? name then
        let own := t.indexes.filter Index.isAutomatic
        makeTable place { t with indexes := own } (bodyText "CREATE TABLE " e.text) fun _ => return
        if t.counts && !hasSequence then
          makeTable place { Table.definitions "sqlite_sequence" with root := 0 } sequenceText
            fun _ => return
          hasSequence := true
  for e in entries do
    if isKind e "index" && e.text ≠ .null then
      let root ← Work.inStore place (Space.createRoot true)
      let _ ← addDefinition place { e with root := .integer root }.values

/-- Writes a database anew on other paper. -/
def vacuum (place : Name) (paper : Paper) : Work Unit := do
  let before ← Work.store place
  let old := (← read).catalog place
  let entries ← Work.look place Entry.all
  let rows ← old.tables.mapM fun t => do
    let own ← contents place t.root
    let indexes ← t.indexes.mapM fun i => return (i.name, ← contents place i.root)
    return (t.name, own, indexes)
  let fresh := { Store.new paper with reserved := before.reserved, limit := Store.mostPages }
  let use (s : Store) : Work Unit := modify fun w => { w with
    stores := w.stores.map fun (n, x) => if n = place then (n, s) else (n, x) }
  use fresh
  settle place
  remake place old entries
  let new ← Work.ofExcept (Catalog.ofStore (← Work.store place))
  for t in new.tables do
    if let some (_, own, indexes) := rows.find? fun r => Name.same r.1 t.name then
      appendAll place (!t.hasNumbers) t.root own
      for i in t.indexes.reverse do
        if let some (_, all) := indexes.find? fun x => Name.same x.1 i.name then
          appendAll place true i.root all
  for e in entries do
    if isKind e "view" || isKind e "trigger" then
      let _ ← addDefinition place e.values
  let after ← Work.store place
  if before.limit < after.count then Work.fail .full
  use { after with
    limit := before.limit
    isTouched := true
    header := { before.header with
      cookie := (before.header.cookie + 1) % 0x100000000
      format := if before.header.format = 0 then 0 else after.header.format
      largestRoot := after.header.largestRoot
      incremental := after.header.incremental } }

end Vacuum

section Analysis

def statisticsText : List (Name × List Char) :=
  [("sqlite_stat1", "sqlite_stat1(tbl,idx,stat)".toList),
   ("sqlite_stat4", "sqlite_stat4(tbl,idx,neq,nlt,ndlt,sample)".toList)]

/-- The lengths of the runs of entries that agree in their first values. -/
def distinctCount (c : Context) (key : List KeyPart) (n : Nat) (entries : List (List Value)) :
    Nat :=
  1 + ((entries.zip (entries.drop 1)).filter fun (a, b) =>
    compareEntries c (key.take n) a b ≠ .eq).length

/-- What is found out about an index: the number of entries, and how many on average agree in the
first value, the first two values, and so on. -/
def statistics (c : Context) (i : Index) (entries : List (List Value)) : String :=
  let total := entries.length
  let averages := (List.range i.key.length).map fun n =>
    let d := distinctCount c i.key (n + 1) entries
    toString ((total + d - 1) / d)
  " ".intercalate (toString total :: averages)

def analyze (r : Option Reference) : Work Unit := do
  let c ← read
  let chosen := match r with
    | none => c.searchOrder.filter (· ≠ "temp") |>.map fun p => (p, (c.catalog p).tables)
    | some r =>
      if r.place.isNone && !(c.places (some r.name)).isEmpty then
        (c.places (some r.name)).map fun p => (p, (c.catalog p).tables)
      else match c.find? r, c.index? r with
        | some (.table p t), _ => [(p, [t])]
        | _, some (p, t, _) => [(p, [t])]
        | _, none => []
  if chosen.isEmpty then Work.invalid "no such table"
  for (place, tables) in chosen do
    for (name, text) in statisticsText do
      if ((c.catalog place).table? name).isNone then
        makeTable place { Table.definitions name with root := 0 } text fun _ => return
      else if r.isNone then
        if let some t := (c.catalog place).table? name then
          Work.inStore place (Tree.clear t.root)
    let after ← Work.ofExcept (Catalog.ofStore (← Work.store place))
    for t in tables do
      let isOwn := "sqlite_".toList.isPrefixOf (Name.key t.name).toList
      let rows ← tableRows mostLevels place t
      if !isOwn && !rows.isEmpty then
        if let some s := after.table? "sqlite_stat1" then
          let put (index : Value) (text : String) : Work Unit := do
            putRow place s (← nextNumber place s) [nameOf t.name, index, textOf text.toList]
          if t.indexes.isEmpty then put .null (toString rows.length)
          for i in t.indexes do
            put (nameOf i.name) (statistics c i (← sortedEntries place t i))
    renew place

end Analysis

end EntryCode.Database.Definition
