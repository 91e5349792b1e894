import EntryCode.Database.Grammar
import EntryCode.Database.Tree

/-!
What a database consists of: tables with their indexes, views and triggers. The first tree of a
database has a row for each of them, with the text by which it was defined; the catalog is read from
these texts.
-/

namespace EntryCode.Database

structure Column where
  name : Name
  type : List Char
  affinity : Affinity
  collation : Collation
  /-- What happens when there would be no value, unless that is allowed. -/
  notNull : Option Conflict
  default : Option Expr
  /-- How it is computed from the other columns, and whether the result is kept. -/
  computed : Option (Expr × Bool)

inductive Part where
  | column (i : Nat)
  | number
  | expr (e : Expr)

structure KeyPart where
  part : Part
  collation : Collation
  isDescending : Bool

structure Index where
  name : Name
  /-- The page at which its tree begins; zero where it has none. -/
  root : Nat
  key : List KeyPart
  /-- What happens when two rows would have the same key, unless that is allowed. -/
  unique : Option Conflict
  /-- The rows that it has; all if nothing is said. -/
  condition : Option Expr
  isPrimary : Bool
  isAutomatic : Bool

structure Table where
  name : Name
  root : Nat
  columns : List Column
  /-- The column that is the number of the row, and what happens when that is taken. -/
  numberColumn : Option (Nat × Conflict)
  /-- Whether numbers are never used again. -/
  counts : Bool
  clustered : Option Index
  checks : List (Expr × String)
  foreignKeys : List ForeignKey
  isStrict : Bool
  indexes : List Index
  /-- Whether it must not be changed by statements. -/
  isFixed : Bool

structure View where
  name : Name
  columns : List Name
  query : Select

structure Trigger where
  name : Name
  table : Reference
  moment : Moment
  event : Event
  condition : Option Expr
  steps : List Statement

structure Catalog where
  tables : List Table
  views : List View
  triggers : List Trigger

section Columns

def ColumnSpec.last? {α : Type} (c : ColumnSpec) (f : ColumnRule → Option α) : Option α :=
  (c.rules.filterMap f).getLast?

def Column.ofSpec (c : ColumnSpec) : Except Fault Column := do
  let collation ← match c.last? fun | .collate n => some n | _ => none with
    | none => pure Collation.binary
    | some n => match Collation.ofName? n.toList with
      | some collation => pure collation
      | none => throw (.invalid s!"no such collation sequence: {n}")
  return {
    name := c.name
    type := c.type
    affinity := .ofType c.type
    collation
    notNull := c.last? fun | .notNull x => some x | _ => none
    default := c.last? fun | .default e => some e | _ => none
    computed := c.last? fun | .computed e isStored => some (e, isStored) | _ => none }

def findColumn? (columns : List Column) (name : Name) : Option Nat :=
  columns.findIdx? fun c => Name.same c.name name

def isNumberName (name : Name) : Bool :=
  ["rowid", "oid", "_rowid_"].contains (Name.key name)

end Columns

section Keys

/-- The part of a key that a term is; `mayCompute` if it may be an expression. -/
def keyPart (columns : List Column) (number : Option Nat) (mayCompute : Bool) (t : KeyTerm) :
    Except Fault KeyPart := do
  let (e, chosen) := match t.e with
    | .collate e n => (e, some n)
    | e => (e, none)
  let collation? ← chosen.mapM fun n => match Collation.ofName? n.toList with
    | some c => pure c
    | none => throw (Fault.invalid s!"no such collation sequence: {n}")
  let named (n : Name) : Except Fault KeyPart :=
    match findColumn? columns n with
    | some i =>
      let collation := (columns[i]?.map Column.collation).getD .binary
      return ⟨if some i = number then .number else .column i, collation?.getD collation,
        t.isDescending⟩
    | none => throw (.invalid s!"no such column: {n}")
  match e with
  | .column [n] _ => named n
  | .literal (.text n) => named (String.ofList (charsOf n))
  | e =>
    if mayCompute then return ⟨.expr e, collation?.getD .binary, t.isDescending⟩
    else throw (.invalid "expressions prohibited in PRIMARY KEY and UNIQUE constraints")

def Part.same : Part → Part → Bool
  | .column i, .column j => i = j
  | .number, .number => true
  | _, _ => false

/-- Whether two keys have the same parts, whatever their directions. -/
def sameKey (a b : List KeyPart) : Bool :=
  a.length = b.length && (a.zip b).all fun (x, y) =>
    x.part.same y.part && decide (x.collation = y.collation)

/-- A key without parts that are there already. -/
def withoutRepeats (key : List KeyPart) : List KeyPart :=
  key.foldl (fun kept k =>
    if kept.any fun x => x.part.same k.part && decide (x.collation = k.collation) then kept
    else kept ++ [k]) []

structure KeyRule where
  isPrimary : Bool
  terms : List KeyTerm
  conflict : Conflict
  counts : Bool
  /-- Whether it is written with a column that is said to be in falling order. -/
  isFalling : Bool

def TableSpec.keyRules (s : TableSpec) : List KeyRule :=
  let ofColumns := s.columns.flatMap fun c => c.rules.filterMap fun
    | .primaryKey isDescending x counts =>
      some ⟨true, [⟨.column [c.name] false, isDescending⟩], x, counts, isDescending⟩
    | .unique x => some ⟨false, [⟨.column [c.name] false, false⟩], x, false, false⟩
    | _ => none
  let ofTable := s.rules.filterMap fun
    | .primaryKey terms x counts => some ⟨true, terms, x, counts, false⟩
    | .unique terms x => some ⟨false, terms, x, false, false⟩
    | _ => none
  ofColumns ++ ofTable

def TableSpec.foreignKeys (s : TableSpec) (columns : List Column) :
    Except Fault (List ForeignKey) := do
  let ofColumns := s.columns.flatMap fun c => c.rules.filterMap fun
    | .references k => some k
    | _ => none
  for k in ofColumns do
    if 1 < k.targets.length then
      let names := ", ".intercalate k.columns
      throw (.invalid s!"foreign key on {names} should reference only one column")
  let ofTable := s.rules.filterMap fun
    | .foreignKey k => some k
    | _ => none
  for k in ofTable do
    if !k.targets.isEmpty ∧ k.targets.length ≠ k.columns.length then
      throw (.invalid ("number of columns in foreign key does not match the number of columns " ++
        "in the referenced table"))
    for n in k.columns do
      if (findColumn? columns n).isNone then
        throw (.invalid s!"unknown column \"{n}\" in foreign key definition")
  return ofColumns ++ ofTable

end Keys

namespace Table

def hasNumbers (t : Table) : Bool :=
  t.clustered.isNone

def automaticName (table : Name) (n : Nat) : Name :=
  s!"sqlite_autoindex_{table}_{n}"

/-- Adds the index of a rule, unless one of the table is the same. -/
def addKey (t : Table) (r : KeyRule) : Except Fault Table := do
  let key ← r.terms.mapM (keyPart t.columns (t.numberColumn.map Prod.fst) false)
  let known := t.clustered.toList ++ t.indexes
  if known.any (sameKey ·.key key) then
    let indexes := t.indexes.map fun i =>
      if sameKey i.key key then { i with isPrimary := i.isPrimary || r.isPrimary } else i
    return { t with indexes }
  let i : Index := {
    name := automaticName t.name (known.length + 1)
    root := 0
    key
    unique := some r.conflict
    condition := none
    isPrimary := r.isPrimary
    isAutomatic := true }
  return { t with indexes := t.indexes ++ [i] }

def numberOf? (columns : List Column) (r : KeyRule) : Option (Nat × Conflict) := do
  match r.terms with
  | [⟨.column [n] _, _⟩] =>
    let i ← findColumn? columns n
    let c ← columns[i]?
    if c.type.map Char.toLower = "integer".toList ∧ !r.isFalling then some (i, r.conflict) else none
  | _ => none

def cluster (t : Table) : Except Fault Table := do
  let some i := t.indexes.find? Index.isPrimary
    | throw (.invalid s!"PRIMARY KEY missing on table {t.name}")
  let key := withoutRepeats i.key
  let isPart (n : Nat) := key.any fun k => k.part.same (.column n)
  return { t with
    clustered := some { i with key }
    indexes := t.indexes.filter fun x => !x.isPrimary
    columns := t.columns.zipIdx.map fun (c, n) =>
      if isPart n && c.notNull.isNone then { c with notNull := some .abort } else c }

def isComputed (t : Table) : Part → Bool
  | .column i => (t.columns[i]?).any fun c => c.computed.isSome
  | _ => false

def strictTypes : List String :=
  ["any", "blob", "int", "integer", "real", "text"]

/-- Refuses a column of a strict table whose values could be of any kind. -/
def checkStrict (table : Name) (c : Column) : Except Fault Unit := do
  if !strictTypes.contains (String.ofList (c.type.map Char.toLower)) then
    throw (.invalid s!"unknown datatype for {table}.{c.name}")

/-- The table that a definition describes; its trees are not known yet. -/
def ofSpec (name : Name) (s : TableSpec) : Except Fault Table := do
  let columns ← s.columns.mapM Column.ofSpec
  for (c, i) in columns.zipIdx do
    if findColumn? columns c.name ≠ some i then
      throw (.invalid s!"duplicate column name: {c.name}")
    if c.computed.isSome && c.default.isSome then
      throw (.invalid "cannot use DEFAULT on a generated column")
    if c.default.any (!·.isFixed) then
      throw (.invalid s!"default value of column [{c.name}] is not constant")
    if s.isStrict then checkStrict name c
  if columns.all fun c => c.computed.isSome then
    throw (.invalid "must have at least one non-generated column")
  let foreignKeys ← s.foreignKeys columns
  let rules := s.keyRules
  let primary := rules.filter KeyRule.isPrimary
  if 1 < primary.length then
    throw (.invalid s!"table \"{name}\" has more than one primary key")
  let number := if s.hasNumbers then primary.head?.bind (numberOf? columns) else none
  if primary.any KeyRule.counts ∧ number.isNone then
    throw (.invalid "AUTOINCREMENT is only allowed on an INTEGER PRIMARY KEY")
  let checks := s.columns.flatMap (fun c => c.rules.filterMap fun
      | .check e text => some (e, text)
      | _ => none) ++
    s.rules.filterMap fun
      | .check e text => some (e, text)
      | _ => none
  let t : Table := {
    name
    root := 0
    columns
    numberColumn := number
    counts := primary.any KeyRule.counts
    clustered := none
    checks
    foreignKeys
    isStrict := s.isStrict
    indexes := []
    isFixed := false }
  if number.any fun n => (columns[n.1]?).any fun c => c.computed.isSome then
    throw (.invalid "generated columns cannot be part of the PRIMARY KEY")
  let t ← (rules.filter fun r => !(r.isPrimary && number.isSome)).foldlM addKey t
  if t.indexes.any fun i => i.isPrimary && i.key.any (t.isComputed ·.part) then
    throw (.invalid "generated columns cannot be part of the PRIMARY KEY")
  if s.hasNumbers then return t else t.cluster

/-- Columns that are computed, each after those that it depends on; without those that depend on
themselves. -/
def computedAmong : Nat → List (Column × Nat) → List Nat
  | 0, _ => []
  | fuel + 1, left =>
    let waits (c d : Column) : Bool := c.computed.any fun x => x.1.mentions d.name
    let (later, now) := left.partition fun c => left.any fun d => waits c.1 d.1
    if now.isEmpty then [] else now.map Prod.snd ++ computedAmong fuel later

/-- The columns that are computed, in the order in which they can be. -/
def computedOrder (t : Table) : List Nat :=
  computedAmong t.columns.length (t.columns.zipIdx.filter fun c => c.1.computed.isSome)

def isCircular (t : Table) : Bool :=
  t.computedOrder.length < (t.columns.filter fun c => c.computed.isSome).length

def definitions (name : Name) : Table :=
  let column (n type : String) : Column :=
    ⟨n, type.toList, .ofType type.toList, .binary, none, none, none⟩
  { name
    root := 1
    columns := [column "type" "text", column "name" "text", column "tbl_name" "text",
      column "rootpage" "int", column "sql" "text"]
    numberColumn := none
    counts := false
    clustered := none
    checks := []
    foreignKeys := []
    isStrict := false
    indexes := []
    isFixed := true }

end Table

structure Entry where
  number : Int
  kind : Bytes
  name : Bytes
  table : Bytes
  root : Value
  text : Value

namespace Entry

def ofValues (number : Int) (values : List Value) : Entry :=
  let field (i : Nat) : Value := (values[i]?).getD .null
  ⟨number, (field 0).bytes, (field 1).bytes, (field 2).bytes, field 3, field 4⟩

def values (e : Entry) : List Value :=
  [.text e.kind, .text e.name, .text e.table, e.root, e.text]

def isNamed (part : Bytes) (name : Name) : Bool :=
  Name.same (String.ofList (charsOf part)) name

def root? (e : Entry) : Option Nat :=
  match e.root with
  | .integer i => if 0 ≤ i then some i.toNat else none
  | _ => none

def all : Store.Action (List Entry) := do
  let cells ← Tree.entries 1
  let e := (← get).encoding
  cells.mapM fun c => do
    match Record.decode? e (← Store.content c) with
    | some values => return ofValues c.key values
    | none => throw .damaged

end Entry

namespace Catalog

def empty : Catalog :=
  ⟨[], [], []⟩

variable (c : Catalog)

def table? (name : Name) : Option Table :=
  c.tables.find? fun t => Name.same t.name name

def view? (name : Name) : Option View :=
  c.views.find? fun v => Name.same v.name name

def index? (name : Name) : Option (Table × Index) :=
  c.tables.findSome? fun t =>
    (t.indexes.find? fun i => Name.same i.name name).map fun i => (t, i)

def trigger? (name : Name) : Option Trigger :=
  c.triggers.find? fun t => Name.same t.name name

def hasTable (name : Name) : Bool :=
  (c.table? name).isSome || (c.view? name).isSome

def updateTable (name : Name) (f : Table → Table) : Catalog :=
  { c with tables := c.tables.map fun t => if Name.same t.name name then f t else t }

def indexOf (t : Table) (name : Name) (root : Nat) (isUnique : Bool) (terms : List KeyTerm)
    (condition : Option Expr) : Except Fault Index := do
  let key ← terms.mapM (keyPart t.columns (t.numberColumn.map Prod.fst) true)
  return ⟨name, root, key, if isUnique then some .abort else none, condition, false, false⟩

/-- Adds what a definition describes; its tree begins at `root`. -/
def add (root : Nat) : Statement → Except Fault Catalog
  | .createTable h s => do
    if c.hasTable h.reference.name then throw .damaged
    let t ← Table.ofSpec h.reference.name s
    return { c with tables := c.tables ++ [{ t with root }] }
  | .createIndex h isUnique table terms condition => do
    let some t := c.table? table | throw .damaged
    let i ← indexOf t h.reference.name root isUnique terms condition
    return c.updateTable table fun t => { t with indexes := t.indexes ++ [i] }
  | .createView h columns query => do
    if c.hasTable h.reference.name then throw .damaged
    return { c with views := c.views ++ [⟨h.reference.name, columns, query⟩] }
  | .createTrigger h moment event table condition steps =>
    return { c with
      triggers := c.triggers ++ [⟨h.reference.name, table, moment, event, condition, steps⟩] }
  | _ => throw .damaged

def naming : Statement → String × Name × Name
  | .createTable h _ => ("table", h.reference.name, h.reference.name)
  | .createView h _ _ => ("view", h.reference.name, h.reference.name)
  | .createIndex h _ table _ _ => ("index", h.reference.name, table)
  | .createTrigger h _ _ table _ _ => ("trigger", h.reference.name, table.name)
  | _ => ("", "", "")

/-- Adds what an entry describes. One without a text is the index of a rule. -/
def addEntry (pages : Nat) (e : Entry) : Except Fault Catalog := do
  let some root := e.root? | throw .damaged
  if pages < root then throw .damaged
  match e.text with
  | .text text =>
    if text.isEmpty then automatic root
    else
      let some (some s, _) := Parser.first? (Token.all (charsOf text)) | throw .damaged
      let (kind, name, table) := naming s
      if !(Entry.isNamed e.kind kind && Entry.isNamed e.name name && Entry.isNamed e.table table)
      then throw .damaged
      match c.add root s with
      | .ok c => return c
      | .error _ => throw .damaged
  | .null => automatic root
  | _ => throw .damaged
where
  automatic (root : Nat) : Except Fault Catalog := do
    let name := String.ofList (charsOf e.name)
    if (c.index? name).isNone || root < 2 then throw .damaged
    return { c with tables := c.tables.map fun t => { t with
      indexes := t.indexes.map fun i => if Name.same i.name name then { i with root } else i } }

def ofStore (s : Store) : Except Fault Catalog := do
  if 4 < s.header.format then throw (.invalid "unsupported file format")
  let (entries, _) ← Entry.all.run s
  entries.foldlM (addEntry · s.count) .empty

end Catalog

end EntryCode.Database
