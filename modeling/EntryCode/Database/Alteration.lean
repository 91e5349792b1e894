import EntryCode.Database.Definition

/-!
The statement that alters a table. The texts of its definition and of those that belong to it are
edited, and rows are written anew where a column is gone.
-/

namespace EntryCode.Database.Definition

open Evaluation Change

section Texts

def edited (text : List Char) (new : Nat → Token → Option (List Char)) : List Char :=
  let all := (Token.all text).zipIdx
  let (done, rest) := all.foldl (fun (done, rest) (l, i) =>
    match new i l.token with
    | some t => (done ++ rest.take (rest.length - l.start.length) ++ t, l.rest)
    | none => (done, rest)) (([] : List Char), text)
  done ++ rest

def isNamed (name : Name) (t : Token) : Bool :=
  t.name?.any fun n => Name.same (String.ofList n) name

/-- The place of the table in the text of an index or a trigger. -/
def tablePlace (text : List Char) : Nat :=
  (((Token.all text).findIdx? fun l => l.token.isWord "on").getD 0) + 1

def tableWords : List String :=
  ["from", "join", "into", "update", "on", "in", "references"]

/-- Whether a token of a text is in a place where the name of a table can be. -/
def isTablePlace (tokens : Array Lexeme) (i : Nat) : Bool :=
  let isWordAt (k : Nat) (ws : List String) : Bool :=
    k ≤ i && (tokens[i - k]?).any fun l => ws.any l.token.isWord
  let isMarkAt (j : Nat) (m : String) : Bool := (tokens[j]?).any fun l => l.token = .mark m
  isWordAt 1 tableWords || isMarkAt (i + 1) "." ||
    (isWordAt 1 ["rollback", "abort", "replace", "fail", "ignore"] && isWordAt 2 ["or"]) ||
    (1 < i && isMarkAt (i - 1) "." && isWordAt 3 tableWords)

/-- The text of a definition with another name for its table, or for one that it mentions. -/
def renamedText (e : Entry) (before after : Name) (text : List Char) : List Char :=
  let tokens := (Token.all text).toArray
  let isOwn (i : Nat) : Bool :=
    (isKind e "table" && i = 2) || (isKind e "index" && i = tablePlace text)
  edited text fun i t =>
    if isNamed before t && (isOwn i || isTablePlace tokens i) then some (inQuotes after) else none

def renamedColumnText (e : Entry) (before after : Name) (text : List Char) : List Char :=
  let place := if isKind e "table" || isKind e "view" then 2 else tablePlace text
  edited text fun i t =>
    if (place < i || isKind e "trigger") && isNamed before t then
      some (match t with
        | .word _ => if isPlain after then after.toList else inQuotes after
        | _ => inQuotes after)
    else none

end Texts

/-- Checks that all views and triggers still make sense, in a database and in the one that is gone
when the program ends. -/
def checkDefinitions (place : Name) : Work Unit := do
  let mut catalogs : List (Name × Catalog) := []
  for (p, c) in (← read).catalogs do
    let own ← if p = place || p = "temp" then do
        Work.ofExcept (Catalog.ofStore (← Work.store p))
      else pure c
    catalogs := catalogs ++ [(p, own)]
  withReader (fun c => { c with catalogs }) do
    let c ← read
    for p in [place, "temp"].eraseDups do
      for v in (c.catalog p).views do
        let _ ← checkSelect mostLevels (Scope.empty.ofView p v.name) v.query
      for t in (c.catalog p).triggers do Modification.checkTrigger p t

def changeDefinitions (place : Name) (f : Work Unit) : Work Unit := do
  checkDefinitions place
  f
  checkDefinitions place

/-- Whether an entry describes a view or a trigger that may mention a table. -/
def mayMention (e : Entry) (table : Name) (text : List Char) : Bool :=
  (isKind e "view" || isKind e "trigger") &&
    (Token.all text).any fun l => isNamed table l.token

def editTexts (place : Name) (f : Entry → List Char → Option (List Char)) : Work Unit :=
  updateDefinitions place fun e =>
    match e.text with
    | .text t => return (f e (charsOf t)).map fun new => { e with text := textOf new }.values
    | _ => return none

/-- Gives a table another name. Indexes of its rules are named after it. -/
def rename (place : Name) (t : Table) (after : Name) : Work Unit := do
  let c := (← read).catalog place
  if c.hasTable after || (c.index? after).isSome then
    Work.invalid s!"there is already another table or index with this name: {after}"
  checkName after
  let automatic := "sqlite_autoindex_".toList
  updateDefinitions place fun e => do
    let text := match e.text with
      | .text x => textOf (renamedText e t.name after (charsOf x))
      | v => v
    if !Entry.isNamed e.table t.name || isKind e "view" then return some { e with text }.values
    let name := if isKind e "table" then bytesOf after.toList
      else if automatic.isPrefixOf (charsOf e.name) && isKind e "index" then
        bytesOf (automatic ++ after.toList ++
          (charsOf e.name).drop (automatic.length + t.name.length))
      else e.name
    return some { e with name, table := bytesOf after.toList, text }.values
  if place ≠ "temp" then
    updateDefinitions "temp" fun e => do
      let .text old := e.text | return none
      if !mayMention e t.name (charsOf old) then return none
      let table := if isKind e "trigger" && Entry.isNamed e.table t.name then bytesOf after.toList
        else e.table
      return some { e with table, text := textOf (renamedText e t.name after (charsOf old)) }.values
  renew place

/-- Whether a rule forbids that a column is added to a table, which may have rows. -/
def isForbidden (hasRows : Bool) : ColumnRule → Bool
  | .primaryKey _ _ _ | .unique _ => true
  | .computed _ isStored => isStored && hasRows
  | _ => false

def addColumn (place : Name) (t : Table) (s : ColumnSpec) (text : List Char) : Work Unit := do
  if (findColumn? t.columns s.name).isSome then
    Work.invalid s!"duplicate column name: {s.name}"
  let rows ← tableRows mostLevels place t
  if s.rules.any (isForbidden !rows.isEmpty) then Work.invalid "Cannot add such a column"
  let c ← Work.ofExcept (Column.ofSpec s)
  if t.isStrict then Work.ofExcept (Table.checkStrict t.name c)
  let default := c.default.elim .null Expr.constant
  if !rows.isEmpty && c.computed.isNone then
    if c.notNull.isSome && default.isNull then
      Work.invalid "Cannot add a NOT NULL column with default value NULL"
    if default.isNull && c.default.any (fun | .literal _ => false | _ => true) then
      Work.invalid "Cannot add a column with non-constant default"
  let after := { t with columns := t.columns ++ [c] }
  for (e, _) in c.computed.toList do
    checkLasting (Scope.empty.within [after.bound place t.name]) "generated columns" e
  let checks := s.rules.filterMap fun | .check e _ => some e | _ => none
  for e in checks do check mostLevels (Scope.empty.within [after.bound place t.name]) false e
  for (n, values) in rows do
    let _ ← fit after t.columns.length default
    let row ← computed mostLevels place after false n (values ++ [default])
    if c.notNull.isSome && (row.getLast?.getD .null).isNull then
      Work.invalid "NOT NULL constraint failed"
    for e in checks do
      if (← eval mostLevels (scopeOf place after n row) e).truth? = some false then
        Work.invalid "CHECK constraint failed"
  editTexts place fun e old =>
    if isKind e "table" && Entry.isNamed e.name t.name then
      match Parser.first? (Token.all old) with
      | some (some (.createTable _ spec), _) =>
        let n := 13 + spec.columnsText.length
        some (old.take n ++ ", ".toList ++ text ++ old.drop n)
      | _ => none
    else none
  renew place

def renameColumn (place : Name) (t : Table) (before after : Name) : Work Unit := do
  if (findColumn? t.columns before).isNone then Work.invalid s!"no such column: \"{before}\""
  if (findColumn? t.columns after).isSome && !Name.same before after then
    Work.invalid s!"duplicate column name: {after}"
  editTexts place fun e old =>
    let isOwn := (isKind e "table" || isKind e "index") && Entry.isNamed e.table t.name
    if isOwn || mayMention e t.name old then some (renamedColumnText e before after old) else none
  if place ≠ "temp" then
    editTexts "temp" fun e old =>
      if mayMention e t.name old then some (renamedColumnText e before after old) else none
  renew place

def withoutColumn (old : List Char) (i : Nat) : Option (List Char) := do
  let some (some (.createTable _ spec), _) := Parser.first? (Token.all old) | none
  let own ← spec.columns[i]?
  let start := old.length - own.text.length
  match spec.columns[i + 1]? with
  | some next => some (old.take start ++ next.text)
  | none =>
    let front := (old.take start).reverse.dropWhile (· ≠ ',')
    some ((front.drop 1).reverse ++ old.drop (13 + spec.columnsText.length))

def dropColumn (place : Name) (t : Table) (name : Name) : Work Unit := do
  let some i := findColumn? t.columns name | Work.invalid s!"no such column: \"{name}\""
  let mentions (e : Expr) : Bool := e.mentions name
  let uses (x : Index) : Bool := x.condition.any mentions || x.key.any fun k => match k.part with
    | .column n => n = i
    | .number => t.numberColumn.any fun n => n.1 = i
    | .expr e => mentions e
  if (t.numberColumn.any fun n => n.1 = i) || (t.clustered.toList ++ t.indexes).any uses then
    Work.invalid s!"cannot drop column \"{name}\""
  if t.columns.length < 2 then
    Work.invalid s!"cannot drop column \"{name}\": no other columns exist"
  let rows ← tableRows mostLevels place t
  editTexts place fun e old =>
    if isKind e "table" && Entry.isNamed e.name t.name then withoutColumn old i else none
  let after := { t with columns := t.columns.eraseIdx i }
  for e in t.checks.map Prod.fst ++ after.columns.filterMap (·.computed.map Prod.fst) do
    check mostLevels (Scope.empty.within [after.bound place t.name]) false e
  let places (k : KeyPart) : KeyPart := match k.part with
    | .column n => { k with part := .column (if i < n then n - 1 else n) }
    | _ => k
  let after := { after with
    numberColumn := t.numberColumn.map fun (n, x) => (if i < n then n - 1 else n, x)
    clustered := t.clustered.map fun x => { x with key := x.key.map places } }
  if !t.isVirtual i then
    for (n, values) in rows do putRow place after n (values.eraseIdx i)
  renew place

def alter (r : Reference) (a : Alteration) : Work Unit := do
  match (← read).find? r with
  | some (.table place t) =>
    if t.isFixed || "sqlite_".toList.isPrefixOf (Name.key t.name).toList then
      Work.invalid s!"table {t.name} may not be altered"
    match a with
    | .rename after => changeDefinitions place (rename place t after)
    | .addColumn c text => addColumn place t c text
    | .renameColumn before after => changeDefinitions place (renameColumn place t before after)
    | .dropColumn n => changeDefinitions place (dropColumn place t n)
  | some (.view _ v) => Work.invalid s!"view {v.name} may not be altered"
  | none => Work.invalid s!"no such table: {r.name}"

end EntryCode.Database.Definition
