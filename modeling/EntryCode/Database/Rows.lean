import EntryCode.Database.Scope

/-!
The rows of tables, as they are kept in trees. A row has the values of its columns, but for those
that are computed each time; where the number of a row is a column, the tree has it as key.
-/

namespace EntryCode.Database

def Expr.constant : Expr → Value
  | .literal v => v
  | .unary op (.literal v) => Value.unary op v
  | _ => .null

/-- The value of a column that is kept as `v`. Whole numbers save room in a column of doubles. -/
def Column.read (c : Column) (v : Value) : Value :=
  match c.affinity, v with
  | .real, .integer i => .real (Double.ofInt i)
  | _, v => v

namespace Table

variable (t : Table)

def isVirtual (i : Nat) : Bool :=
  (t.columns[i]?).any fun c => c.computed.any fun x => !x.2

def clusterColumns : List Nat :=
  (t.clustered.elim [] Index.key).filterMap fun k => match k.part with
    | .column i => some i
    | _ => none

def kept : List Nat :=
  let first := t.clusterColumns
  first ++ (List.range t.columns.length).filter fun i => !first.contains i && !t.isVirtual i

/-- The values of a row from what is kept of it. Columns that were added later have their default
values. -/
def rowOf (number : Int) (record : List Value) : List Value :=
  let places := t.kept
  t.columns.zipIdx.map fun (c, i) =>
    if t.numberColumn.any fun n => n.1 = i then .integer number
    else match (places.idxOf? i).bind (record[·]?) with
      | some v => c.read v
      | none => c.read ((c.default.elim .null Expr.constant).prefer c.affinity)

def recordOf (values : List Value) : List Value :=
  t.kept.map fun i =>
    if t.numberColumn.any fun n => n.1 = i then .null
    else
      let v := (values[i]?).getD .null
      match t.columns[i]? with
      | some c => if c.affinity = .real then v.prefer .real else v
      | none => v

/-- The number and the values of each row, in the order of the tree. -/
def rows (place : Name) : Work (List (Int × List Value)) :=
  Work.look place do
    let cells ← Tree.entries t.root
    let e := (← get).encoding
    cells.mapM fun c => do
      match Record.decode? e (← Store.content c) with
      | some record => return (c.key, t.rowOf c.key record)
      | none => throw .damaged

def fields : List Field :=
  t.columns.map fun c => ⟨c.name, some c.affinity, some c.collation⟩

def bound (place label : Name) : Bound where
  label := label
  place := some place
  fields := t.fields
  hasNumber := t.hasNumbers
  merged := []
  isApart := false
  number := .null
  values := t.columns.map fun _ => .null

def boundAt (place label : Name) (number : Int) (values : List Value) : Bound :=
  { t.bound place label with number := if t.hasNumbers then .integer number else .null, values }

end Table

end EntryCode.Database
