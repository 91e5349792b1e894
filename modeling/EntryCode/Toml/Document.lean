import EntryCode.Toml.Reader

/-!
Documents: the tables that a list of statements builds. A key is defined once. A table that was
only mentioned, as a part of a longer key, can still be opened by a header of its own.
-/

namespace EntryCode.Toml

inductive Node where
  | string (s : String)
  | integer (i : Int)
  | boolean (b : Bool)
  | float
  | datetime
  | array (items : List Node)
  | table (entries : List (String × Node))
  /-- An array of tables that headers have opened; the last one is being filled. -/
  | tables (elements : List (List (String × Node)))
  deriving Repr

abbrev Entries := List (String × Node)

namespace Entries

/-- Puts a value in place of the one with the same key, or at the end. -/
def insert (k : String) (v : Node) : Entries → Entries
  | [] => [(k, v)]
  | e :: rest => if e.1 = k then (k, v) :: rest else e :: insert k v rest

/-- Changes the table at a path, on which arrays of tables stand for their last element. -/
def updateAt : Key → (Entries → Option Entries) → Entries → Option Entries
  | [], f, t => f t
  | k :: path, f, t => do
    match ← t.lookup k with
    | .table inner => return t.insert k (.table (← updateAt path f inner))
    | .tables elements =>
      let last ← updateAt path f (← elements.getLast?)
      return t.insert k (.tables (elements.dropLast ++ [last]))
    | _ => none

def tableAt? : Key → Entries → Option Entries
  | [], t => some t
  | k :: path, t => do
    match ← t.lookup k with
    | .table inner => tableAt? path inner
    | .tables elements => tableAt? path (← elements.getLast?)
    | _ => none

/-- Puts a value under a key of several parts, with tables in between. -/
def insertDeep : Key → String → Node → Entries → Option Entries
  | [], k, v, t => some (t.insert k v)
  | part :: path, k, v, t => do
    match (t.lookup part).getD (.table []) with
    | .table inner => return t.insert part (.table (← insertDeep path k v inner))
    | _ => none

end Entries

/-- A document while it is built. -/
structure Draft where
  root : Entries
  context : Key
  /-- Tables that were only mentioned. -/
  implicit : List Key
  arrays : List Key
  order : List Key

namespace Draft

def empty : Draft :=
  { root := [], context := [], implicit := [], arrays := [], order := [] }

/-- The key under which the kind of a value is kept; an empty key stands for its table. -/
def kindKey (d : Draft) (key : String) : Key :=
  if key ≠ "" then d.context ++ [key]
  else if d.context.isEmpty then [""]
  else d.context

def setKind (d : Draft) (key : String) (isArray : Bool) : Draft :=
  let k := d.kindKey key
  let others := d.arrays.filter (· ≠ k)
  { d with arrays := if isArray then k :: others else others }

def addImplicit (d : Draft) (k : Key) : Draft :=
  { d with implicit := k :: d.implicit.filter (· ≠ k) }

def removeImplicit (d : Draft) (k : Key) : Draft :=
  { d with implicit := d.implicit.filter (· ≠ k) }

def addOrder (d : Draft) (k : Key) : Draft :=
  { d with order := d.order ++ [k] }

/-- Defines a key of the current table. A key that is there already must only have been mentioned:
the value takes the place of an array that is being written, and a table stays as it is. -/
def setValue (d : Draft) (key : String) (value : Node) : Option Draft := do
  let full := d.context ++ [key]
  let t ← d.root.tableAt? d.context
  let put : Option Entries := d.root.updateAt d.context fun t => some (t.insert key value)
  if (t.lookup key).isNone then return { d with root := ← put }
  else if !d.implicit.contains full then none
  else if d.arrays.contains full then return { d.removeImplicit full with root := ← put }
  else return d.removeImplicit full

/-- Makes sure that there is a table, or an array of tables, under each part of a path. -/
def openParents (d : Draft) : Key → Key → Option Draft
  | _, [] => some d
  | done, part :: rest => do
    let full := done ++ [part]
    let t ← d.root.tableAt? done
    let d ← match t.lookup part with
      | some (.table _) | some (.tables _) => some d
      | some _ => none
      | none => do
        let root ← d.root.updateAt done fun t => some (t.insert part (.table []))
        some { d.addImplicit full with root }
    openParents d full rest

def appendTable (k : String) (t : Entries) : Option Entries :=
  match t.lookup k with
  | none => some (t.insert k (.tables [[]]))
  | some (.tables elements) => some (t.insert k (.tables (elements ++ [[]])))
  | some _ => none

/-- Makes a table, or one more table of an array, the current one. -/
def openTable (d : Draft) (k : Key) (inArray : Bool) : Option Draft := do
  let last ← k.getLast?
  let d ← d.openParents [] k.dropLast
  let d := { d with context := k.dropLast }
  let d ← if inArray then do
      let root ← d.root.updateAt d.context (appendTable last)
      some { d with root }
    else d.setValue last (.table [])
  return { d with context := k }

def openMentioned (d : Draft) : Key → Option Draft
  | [] => some d
  | part :: rest => do
    let k := d.context ++ [part]
    let d ← (d.addImplicit k).openTable k false
    openMentioned d rest

end Draft

def Node.isArray : Node → Bool
  | .array _ => true
  | _ => false

section Evaluation

mutual

/-- The value of a term under `key` of the current table. The keys of inline tables are defined in
the document while they are read. -/
def evalTerm (key : String) (inArray : Bool) (d : Draft) : Term → Option (Node × Draft)
  | .string s => some (.string s, d)
  | .integer i => some (.integer i, d)
  | .boolean b => some (.boolean b, d)
  | .float => some (.float, d)
  | .datetime => some (.datetime, d)
  | .array items => do
    let (nodes, d) ← evalItems key (d.setKind key true) items
    return (.array nodes, d)
  | .inlineTable entries => do
    let here := d.context ++ [key]
    let inner ← (d.addImplicit here).openTable here inArray
    let (top, inner) ← evalEntries here inner [] entries
    return (.table top, { inner with context := d.context })

def evalItems (key : String) (d : Draft) : List Term → Option (List Node × Draft)
  | [] => some ([], d)
  | item :: rest => do
    let (v, d) ← evalTerm key true d item
    let (vs, d) ← evalItems key d rest
    return (v :: vs, d)

/-- The entries of the inline table at `here`, of which those in `top` were read. -/
def evalEntries (here : Key) (d : Draft) (top : Entries) :
    List (Key × Term) → Option (Entries × Draft)
  | [] => some (top, d)
  | (k, v) :: rest => do
    let last ← k.getLast?
    let d ← d.openMentioned k.dropLast
    let (node, d) ← evalTerm last false (d.addOrder (d.context ++ [last])) v
    let d ← d.setValue last node
    let d := d.setKind last node.isArray
    let top ← top.insertDeep k.dropLast last node
    evalEntries here { d with context := here } top rest

end

def evalStatement (d : Draft) : Statement → Option Draft
  | .table k => do
    let d ← d.openTable k false
    return (d.setKind "" false).addOrder k
  | .arrayTable k => do
    let d ← d.openTable k true
    return (d.setKind "" false).addOrder k
  | .entry k v => do
    let last ← k.getLast?
    let inner ← d.openMentioned k.dropLast
    let (node, inner) ← evalTerm last false (inner.addOrder (inner.context ++ [last])) v
    let inner ← inner.setValue last node
    return { inner.setKind last node.isArray with context := d.context }

end Evaluation

/-- A document: its tables, and its keys and headers in the order of the text. -/
structure Document where
  root : Entries
  order : List Key

def Document.ofText? (text : String) : Option Document := do
  let statements ← Toml.ofText? text
  let d ← statements.foldlM evalStatement Draft.empty
  return { root := d.root, order := d.order }

end EntryCode.Toml
