import EntryCode.Database.Value

/-!
Expressions, queries and the other parts of statements.
-/

namespace EntryCode.Database

/-- The name of something in a database. Case does not count. -/
abbrev Name := String

def Name.key (n : Name) : String :=
  n.map Char.toLower

def Name.same (a b : Name) : Bool :=
  Name.key a = Name.key b

/-- A name, perhaps with that of the database it is in. -/
structure Reference where
  place : Option Name
  name : Name
  deriving DecidableEq, Repr

inductive Conflict where
  | rollback
  | abort
  | fail
  | ignore
  | replace
  deriving DecidableEq, Repr

inductive Unary where
  | negate
  | plus
  | not
  | complement
  deriving DecidableEq, Repr

inductive Binary where
  | or
  | and
  | eq
  | ne
  | lt
  | le
  | gt
  | ge
  | is
  | isNot
  | bitAnd
  | bitOr
  | shiftLeft
  | shiftRight
  | add
  | subtract
  | multiply
  | divide
  | remainder
  | concat
  | extract
  deriving DecidableEq, Repr

inductive Compound where
  | union
  | unionAll
  | except
  | intersect
  deriving DecidableEq, Repr

structure JoinKind where
  isNatural : Bool
  keepsLeft : Bool
  keepsRight : Bool
  deriving DecidableEq, Repr

mutual

inductive Expr where
  | literal (v : Value)
  /-- A column, with the names of its table and database if given; `mayBeText` if it is a text where
  there is no such column. -/
  | column (parts : List Name) (mayBeText : Bool)
  | variable (n : Nat)
  | unary (op : Unary) (e : Expr)
  | binary (op : Binary) (a b : Expr)
  | isNull (e : Expr)
  | between (e low high : Expr)
  | collate (e : Expr) (collation : Name)
  | cast (e : Expr) (type : List Char)
  /-- A function of some arguments; `isStar` for a star in their place. -/
  | call (f : Name) (isDistinct isStar : Bool) (arguments : List Expr) (filter : Option Expr)
    (isWindow : Bool)
  | case (base : Option Expr) (arms : List (Expr × Expr)) (other : Option Expr)
  | among (e : Expr) (items : List Expr)
  | amongRows (e : Expr) (s : Select)
  | exists (s : Select)
  | single (s : Select)
  | tuple (items : List Expr)
  /-- Ends the statement of a trigger; none if the row is left out. -/
  | raise (kind : Conflict) (message : Option Expr)

inductive ResultColumn where
  | expr (e : Expr) (called : Option Name) (text : List Char)
  | all
  | allOf (table : Name)

inductive Source where
  /-- A table or view; `index` if one is to be used. -/
  | table (r : Reference) (called index : Option Name)
  | function (name : Name) (arguments : List Expr) (called : Option Name)
  | query (s : Select) (called : Option Name)
  | group (joins : List Join) (called : Option Name)

inductive Join where
  | mk (kind : JoinKind) (source : Source) (on : Option Expr) (shared : List Name)

inductive OrderTerm where
  | mk (e : Expr) (isDescending : Bool) (nullsFirst : Option Bool)

inductive Core where
  | values (rows : List (List Expr))
  | select (isDistinct : Bool) (columns : List ResultColumn) (tables : List Join)
    (condition : Option Expr) (groups : List Expr) (having : Option Expr)

inductive Common where
  | mk (name : Name) (columns : List Name) (s : Select)

inductive Select where
  | mk (commons : List Common) (first : Core) (others : List (Compound × Core))
    (order : List OrderTerm) (limit offset : Option Expr)

end

instance : Inhabited Expr := ⟨.literal .null⟩
instance : Inhabited Select := ⟨.mk [] (.values []) [] [] none none⟩

/-- The times that have names of their own, with the functions that give them. -/
def timeNames : List (String × String) :=
  [("current_timestamp", "datetime"), ("current_date", "date"), ("current_time", "time")]

namespace Expr

/-- The expressions that an expression consists of, without those of queries in it. -/
def children : Expr → List Expr
  | .literal _ | .column _ _ | .variable _ | .exists _ | .single _ => []
  | .unary _ e | .isNull e | .collate e _ | .cast e _ | .amongRows e _ => [e]
  | .binary _ a b => [a, b]
  | .between e low high => [e, low, high]
  | .call _ _ _ arguments filter _ => arguments ++ filter.toList
  | .case base arms other =>
    base.toList ++ arms.flatMap (fun (a, b) => [a, b]) ++ other.toList
  | .among e items => e :: items
  | .tuple items => items
  | .raise _ message => message.toList

/-- Whether a part of an expression passes a test; at most `fuel` levels are looked at. -/
def any (test : Expr → Bool) : Nat → Expr → Bool
  | 0, _ => false
  | fuel + 1, e => test e || e.children.any (any test fuel)

/-- More levels than an expression may have. -/
def mostLevels : Nat := 1000

def hasQuery (e : Expr) : Bool :=
  e.any (fun
    | .exists _ | .single _ | .amongRows _ _ => true
    | _ => false) mostLevels

def mentions (e : Expr) (name : Name) : Bool :=
  e.any (fun
    | .column parts _ => parts.getLast?.any (Name.same name)
    | _ => false) mostLevels

/-- Whether an expression has no column, no variable and no query in it. -/
def isFixed (e : Expr) : Bool :=
  !e.hasQuery && !e.any (fun
    | .column [n] _ =>
      !(["true", "false"].contains (Name.key n)) && (timeNames.lookup (Name.key n)).isNone
    | .column _ _ | .variable _ => true
    | _ => false) mostLevels

end Expr

end EntryCode.Database
