import EntryCode.Database.World

/-!
What the names in an expression stand for. A query has tables, each with its current row; inside a
query there may be others, which see the rows of those around them.
-/

namespace EntryCode.Database

structure Field where
  name : Name
  affinity : Option Affinity
  collation : Option Collation

structure Bound where
  label : Name
  place : Option Name
  fields : List Field
  hasNumber : Bool
  merged : List Name
  /-- Whether its columns are found only with its label. -/
  isApart : Bool
  number : Value
  values : List Value

/-- The tables of a query and what else can be named in it. -/
structure Level where
  tables : List Bound
  aliases : List (Name × Expr)
  group : Option (List (List Bound))

structure Relation where
  fields : List Field
  rows : List (List Value)

structure Scope where
  levels : List Level
  commons : List (Name × Relation)
  /-- The database in which names are looked for, if not in all. -/
  home : Option Name
  views : List (Name × Name)

namespace Scope

def empty : Scope :=
  ⟨[], [], none, []⟩

def ofView (s : Scope) (place view : Name) : Scope where
  levels := []
  commons := []
  home := if place = "temp" then none else some place
  views := (place, Name.key view) :: s.views

def push (s : Scope) (l : Level) : Scope :=
  { s with levels := l :: s.levels }

def within (s : Scope) (tables : List Bound) : Scope :=
  s.push ⟨tables, [], none⟩

end Scope

namespace Bound

def cleared (b : Bound) : Bound :=
  { b with number := .null, values := b.fields.map fun _ => .null }

/-- Whether it is the table that names in front of a column stand for. -/
def isCalled (b : Bound) : List Name → Bool
  | [] => !b.isApart
  | [t] => Name.same b.label t
  | [p, t] => Name.same b.label t && b.place.any (Name.same p)
  | _ => false

def field? (b : Bound) (name : Name) : Option (Field × Value) := do
  let i ← b.fields.findIdx? fun f => Name.same f.name name
  return (← b.fields[i]?, (b.values[i]?).getD .null)

end Bound

inductive Meaning where
  | cell (f : Field) (v : Value)
  /-- A result of the query, which is computed with the scope `s`. -/
  | result (e : Expr) (s : Scope)
  | constant (v : Value)

namespace Scope

def cells (tables : List Bound) (qualifier : List Name) (name : Name) : List (Field × Value) :=
  tables.filterMap fun b =>
    if b.isCalled qualifier && !(qualifier.isEmpty && b.merged.any (Name.same name)) then
      b.field? name
    else none

def numbers (tables : List Bound) (qualifier : List Name) (name : Name) : List (Field × Value) :=
  if !isNumberName name then []
  else tables.filterMap fun b =>
    if b.isCalled qualifier && b.hasNumber then
      some (⟨name, some .integer, none⟩, b.number)
    else none

def find (s : Scope) (qualifier : List Name) (name : Name) :
    List Level → Except Fault (Option Meaning)
  | [] => return none
  | l :: rest => do
    match cells l.tables qualifier name with
    | [(f, v)] => return some (.cell f v)
    | _ :: _ :: _ => throw (.invalid s!"ambiguous column name: {name}")
    | [] =>
      match numbers l.tables qualifier name with
      | [(f, v)] => return some (.cell f v)
      | _ =>
        let result := if qualifier.isEmpty then
            l.aliases.find? fun a => Name.same a.1 name
          else none
        match result with
        | some (_, e) =>
          return some (.result e { s with levels := { l with aliases := [] } :: rest })
        | none => find s qualifier name rest

def meaning (s : Scope) (parts : List Name) (mayBeText : Bool) : Except Fault Meaning := do
  let name := parts.getLast?.getD ""
  match ← s.find parts.dropLast name s.levels with
  | some m => return m
  | none =>
    if parts.length = 1 ∧ mayBeText then return .constant (.text (bytesOf name.toList))
    match if parts.length = 1 then Name.key name else "" with
    | "true" => return .constant (.integer 1)
    | "false" => return .constant (.integer 0)
    | key =>
      match timeNames.lookup key with
      | some f => return .result (.call f false false [] none false) s
      | none =>
        let path := ".".intercalate parts
        throw (.invalid s!"no such column: {path}")

end Scope

namespace Expr

def isGrouping (e : Expr) : Bool :=
  e.any (fun
    | .call f _ _ arguments _ isWindow =>
      !isWindow && Function.isAggregate (Name.key f) arguments.length
    | _ => false) mostLevels

def chosenCollation : Nat → Expr → Option Collation
  | 0, _ => none
  | _, .collate _ n => Collation.ofName? n.toList
  | fuel + 1, e =>
    match e with
    | .cast e _ | .unary _ e => chosenCollation fuel e
    | .binary _ a b => chosenCollation fuel a <|> chosenCollation fuel b
    | .call _ _ _ arguments _ _ => arguments.findSome? (chosenCollation fuel)
    | _ => none

def affinity (s : Scope) : Nat → Expr → Option Affinity
  | 0, _ => none
  | fuel + 1, e =>
    match e with
    | .column parts mayBeText =>
      match s.meaning parts mayBeText with
      | .ok (.cell f _) => f.affinity
      | .ok (.result e inner) => affinity inner fuel e
      | _ => none
    | .collate e _ => affinity s fuel e
    | .cast _ type => some (.ofType type)
    | _ => none

def columnCollation (s : Scope) : Nat → Expr → Option Collation
  | 0, _ => none
  | fuel + 1, e =>
    match e with
    | .column parts mayBeText =>
      match s.meaning parts mayBeText with
      | .ok (.cell f _) => f.collation
      | .ok (.result e inner) => chosenCollation fuel e <|> columnCollation inner fuel e
      | _ => none
    | .cast e _ | .unary .plus e => columnCollation s fuel e
    | _ => none

def collation? (s : Scope) (e : Expr) : Option Collation :=
  e.chosenCollation mostLevels <|> e.columnCollation s mostLevels

def commonCollation (s : Scope) (a b : Expr) : Collation :=
  (a.chosenCollation mostLevels <|> b.chosenCollation mostLevels <|>
    a.columnCollation s mostLevels <|> b.columnCollation s mostLevels).getD .binary

end Expr

end EntryCode.Database
