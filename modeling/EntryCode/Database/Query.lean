import EntryCode.Database.Rows

/-!
The values of expressions and the rows of queries. Each level of an expression or a query takes a
unit of `fuel`.
-/

namespace EntryCode.Database.Query

section Orders

/-- The order of rows by the values of some columns, each with its collation. -/
def compareRows (c : Context) : List Collation → List Value → List Value → Ordering
  | collations, a :: as, b :: bs =>
    (c.compare (collations.head?.getD .binary) a b).then (compareRows c (collations.drop 1) as bs)
  | _, _, _ => .eq

structure Direction where
  collation : Collation
  isDescending : Bool
  nullsFirst : Option Bool

def Direction.compare (c : Context) (d : Direction) (a b : Value) : Ordering :=
  let natural := c.compare d.collation a b
  let turned := if d.isDescending then natural.swap else natural
  match d.nullsFirst with
  | none => turned
  | some first =>
    if a.isNull = b.isNull then turned
    else if a.isNull = first then .lt else .gt

def compareKeys (c : Context) : List Direction → List Value → List Value → Ordering
  | d :: ds, a :: as, b :: bs => (d.compare c a b).then (compareKeys c ds as bs)
  | _, _, _ => .eq

def distinct (c : Context) (rows : List (List Value)) : List (List Value) :=
  rows.foldl (fun kept r =>
    if kept.any fun k => compareRows c [] k r = .eq then kept else kept ++ [r]) []

/-- Sorts rows by keys; those with equal keys keep their order. -/
def sortBy {α : Type} (c : Context) (directions : List Direction) (key : α → List Value)
    (rows : List α) : List α :=
  if directions.isEmpty then rows
  else rows.mergeSort fun a b => compareKeys c directions (key a) (key b) ≠ .gt

def runs (c : Context) (collations : List Collation) {α : Type} :
    List (List Value × α) → List (List α)
  | [] => []
  | (k, a) :: rest =>
    match runs c collations rest, rest with
    | group :: others, (next, _) :: _ =>
      if compareRows c collations k next = .eq then (a :: group) :: others
      else [a] :: group :: others
    | groups, _ => [a] :: groups

def combine (c : Context) (op : Compound) (a b : List (List Value)) : List (List Value) :=
  let has (rows : List (List Value)) (r : List Value) : Bool :=
    rows.any fun x => compareRows c [] x r = .eq
  let sorted (rows : List (List Value)) : List (List Value) :=
    (distinct c rows).mergeSort fun x y => compareRows c [] x y ≠ .gt
  match op with
  | .unionAll => a ++ b
  | .union => sorted (a ++ b)
  | .except => sorted (a.filter fun r => !has b r)
  | .intersect => sorted (a.filter (has b))

end Orders

section Columns

inductive Output where
  | expr (e : Expr) (name : Name) (isNamed : Bool)
  | cell (table column : Nat)

def cellsOf (b : Bound) (table : Nat) (mayMerge : Bool) : List Output :=
  (b.fields.zipIdx.filter fun (f, _) => !(mayMerge && b.merged.any (Name.same f.name))).map
    fun (_, i) => .cell table i

/-- Refuses a column that a table of the same name has as well. A column that both share under one
name is no such one. -/
def checkSingle (tables : List Bound) : Output → Except Fault Unit
  | .cell t i => do
    match tables[t]? with
    | none => return
    | some b =>
      let name := ((b.fields[i]?).map Field.name).getD ""
      let isOther (o : Bound) : Bool :=
        o.place.isSome && o.place = b.place && Name.same o.label b.label &&
          !o.merged.any (Name.same name) && (o.field? name).isSome
      if !b.merged.any (Name.same name) && 1 < (tables.filter isOther).length then
        throw (.invalid s!"ambiguous column name: {b.label}.{name}")
  | .expr _ _ _ => return

def outputs (tables : List Bound) (columns : List ResultColumn) : Except Fault (List Output) := do
  let parts ← columns.mapM fun
    | .expr e called text =>
      let name := called.getD (match e with
        | .column parts _ => parts.getLast?.getD ""
        | _ => String.ofList text)
      return [Output.expr e name called.isSome]
    | .all => do
      if tables.isEmpty then throw (Fault.invalid "no tables specified")
      return tables.zipIdx.flatMap fun (b, i) => cellsOf b i true
    | .allOf t => do
      match tables.zipIdx.find? fun (b, _) => Name.same b.label t with
      | some (b, i) => return cellsOf b i false
      | none => throw (.invalid s!"no such table: {t}")
  for o in parts.flatten do checkSingle tables o
  return parts.flatten

def aliases (outputs : List Output) : List (Name × Expr) :=
  outputs.filterMap fun
    | .expr e n true => some (n, e)
    | _ => none

/-- What a column of a result looks like to a query around it. -/
def field (s : Scope) (tables : List Bound) : Output → Field
  | .expr e n _ => ⟨n, e.affinity s Expr.mostLevels, e.collation? s⟩
  | .cell t i =>
    match (tables[t]?).bind fun b => b.fields[i]? with
    | some f => f
    | none => ⟨"", none, none⟩

/-- The number of a result that a term is; it may have a sign. -/
def position? : Nat → Expr → Option Int
  | 0, _ => none
  | fuel + 1, e =>
    match e with
    | .literal (.integer i) => if 0 ≤ i ∧ i < 0x80000000 then some i else none
    | .unary .plus e | .collate e _ => position? fuel e
    | .unary .negate e => (position? fuel e).map (- ·)
    | _ => none

def counted? (outputs : List Output) (e : Expr) : Option Nat := do
  let i ← position? Expr.mostLevels e
  if 0 < i ∧ i ≤ outputs.length then some (i.toNat - 1) else none

def outputOf? (outputs : List Output) (e : Expr) : Option Nat :=
  let bare := match e with
    | .collate e _ => e
    | e => e
  match bare with
  | .column [n] _ => outputs.findIdx? fun
    | .expr _ m isNamed => isNamed && Name.same n m
    | .cell _ _ => false
  | _ => counted? outputs e

def items : Expr → List Expr
  | .tuple items => items
  | e => [e]

end Columns

section Joins

def sharedNames (kind : JoinKind) (named : List Name) (left right : List Bound) : List Name :=
  if !kind.isNatural then named
  else (right.flatMap Bound.fields).filterMap fun f =>
    if left.any fun b => (b.field? f.name).isSome then some f.name else none

def merge (shared : List Name) (b : Bound) : Bound :=
  { b with merged := b.merged ++ shared }

def agree (c : Context) (shared : List Name) (left right : List Bound) : Bool :=
  shared.all fun n =>
    match left.findSome? (Bound.field? · n), right.findSome? (Bound.field? · n) with
    | some (f, v), some (g, w) =>
      let (v, w) := Value.aligned f.affinity g.affinity v w
      !v.isNull && !w.isNull && c.compare ((f.collation <|> g.collation).getD .binary) v w = .eq
    | _, _ => false

def namesTable (name : Name) : Nat → List Join → Bool
  | 0, _ => false
  | fuel + 1, joins => joins.any fun
    | .mk _ (.table r _ _) _ _ => r.place.isNone && Name.same r.name name
    | .mk _ (.group joins _) _ _ => namesTable name fuel joins
    | _ => false

/-- Whether one part of a query uses a table that has the name of the query itself. -/
def isRecursive (name : Name) : Core → Bool
  | .values _ => false
  | .select _ _ tables _ _ _ => namesTable name 100 tables

end Joins

section Paths

def conjuncts : Nat → Expr → List Expr
  | fuel + 1, .binary .and a b => conjuncts fuel a ++ conjuncts fuel b
  | _, e => [e]

def isColumn (b : Bound) (name : Name) : Expr → Bool
  | .column parts _ => b.isCalled parts.dropLast && (parts.getLast?).any (Name.same name)
  | _ => false

/-- Whether a condition limits a column, so that an index on it can be used. -/
def limits (b : Bound) (name : Name) : Expr → Bool
  | .binary op x y =>
    [Binary.eq, .lt, .le, .gt, .ge, .is].contains op && (isColumn b name x || isColumn b name y)
  | .between e _ _ | .among e _ | .amongRows e _ => isColumn b name e
  | .isNull e => isColumn b name e
  | _ => false

def usesOnly (b : Bound) (names : List Name) (e : Expr) : Bool :=
  !e.hasQuery && !e.any (fun
    | .column parts _ =>
      (match parts.getLast? with
        | some n => (b.field? n).isSome && !names.any (Name.same n)
        | none => false)
    | _ => false) Expr.mostLevels

def indexNames (t : Table) (i : Index) : List Name :=
  (i.key.filterMap fun k => match k.part with
    | .column n => (t.columns[n]?).map Column.name
    | _ => none) ++ (t.numberColumn.bind fun n => t.columns[n.1]?).toList.map Column.name

/-- The index in whose order the rows of a table are looked at: one whose first column is limited,
or one that has all columns that are used. -/
def path? (t : Table) (b : Bound) (condition : Option Expr) (used : Option (List Expr)) :
    Option Index :=
  let whole := t.indexes.filter fun i => i.condition.isNone
  let limited := whole.find? fun i =>
    match i.key.head?.map KeyPart.part with
    | some (.column n) =>
      (t.columns[n]?).any fun c =>
        condition.any fun e => (conjuncts 1000 e).any (limits b c.name)
    | _ => false
  limited <|> used.bind fun es => whole.find? fun i =>
    i.key.length < t.columns.length && es.all (usesOnly b (indexNames t i))

end Paths

/-- The texts of the time, which stands still while a statement is carried out. -/
def timeText (now : Int) : String → List Value → Value
  | "unixepoch", _ => .integer now
  | "julianday", _ => .ofDouble (Float.ofInt now / 86400 + 2440587.5)
  | _, _ => .text (Text.utf8 (toString now))

end EntryCode.Database.Query
