import EntryCode.Database.Syntax

/-!
Statements: queries, changes of rows, and changes of what a database consists of.
-/

namespace EntryCode.Database

structure Setting where
  text : List Char
  number? : Option (List Char)
  deriving DecidableEq, Repr

/-- A pragma: a name with or without a value, such as `query_only(1)`. -/
structure Pragma where
  place : Option Name
  name : String
  value : Option Setting
  deriving DecidableEq, Repr

section Tables

/-- A part of a key: what it is, how it is compared, and in which direction. -/
structure KeyTerm where
  e : Expr
  isDescending : Bool

/-- What becomes of rows when the row that they refer to is gone or has another key. -/
inductive ForeignAction where
  | none
  | restrict
  | setNull
  | setDefault
  | cascade
  deriving DecidableEq, Repr

structure ForeignKey where
  columns : List Name
  table : Name
  /-- The columns of that table; its primary key if none are named. -/
  targets : List Name
  onDelete : ForeignAction
  onUpdate : ForeignAction
  /-- Whether it need not hold before a transaction is completed. -/
  isDeferred : Bool

inductive ColumnRule where
  | primaryKey (isDescending : Bool) (c : Conflict) (counts : Bool)
  | notNull (c : Conflict)
  | unique (c : Conflict)
  | check (e : Expr) (text : String)
  | default (e : Expr)
  | collate (collation : Name)
  /-- The column is computed from others; `isStored` if the result is kept. -/
  | computed (e : Expr) (isStored : Bool)
  | references (k : ForeignKey)

structure ColumnSpec where
  name : Name
  type : List Char
  rules : List ColumnRule
  text : List Char

inductive TableRule where
  | primaryKey (key : List KeyTerm) (c : Conflict) (counts : Bool)
  | unique (key : List KeyTerm) (c : Conflict)
  | check (e : Expr) (text : String)
  | foreignKey (k : ForeignKey)

structure TableSpec where
  columns : List ColumnSpec
  rules : List TableRule
  hasNumbers : Bool
  /-- Whether values must be of the types of their columns. -/
  isStrict : Bool
  /-- What stands from the name of the table to the end of the last column. -/
  columnsText : List Char

end Tables

inductive Event where
  | insert
  | delete
  /-- A change of some columns; of any if none is named. -/
  | update (columns : List Name)
  deriving DecidableEq, Repr

inductive Moment where
  | before
  | after
  | instead
  deriving DecidableEq, Repr

inductive NewRows where
  | defaults
  | query (s : Select)

/-- What happens to a row that is in the way of a new one. -/
structure Upsert where
  /-- The key that is in the way; any if none is named. -/
  key : List KeyTerm
  /-- The columns that are set; none if the new row is left out. -/
  sets : Option (List (List Name × Expr))
  condition : Option Expr

structure Target where
  reference : Reference
  called : Option Name
  index : Option Name

def Target.label (t : Target) : Name :=
  t.called.getD t.reference.name

inductive Alteration where
  | rename (name : Name)
  | renameColumn (before after : Name)
  /-- Adds a column, which is written as `text`. -/
  | addColumn (c : ColumnSpec) (text : List Char)
  | dropColumn (name : Name)

inductive Kind where
  | table
  | view
  | index
  | trigger
  deriving DecidableEq, Repr

structure Heading where
  isTemporary : Bool
  /-- Whether it may be there already. -/
  mayExist : Bool
  reference : Reference
  text : List Char

inductive Beginning where
  | deferred
  | immediate
  | exclusive
  deriving DecidableEq, Repr

inductive Statement where
  | pragma (p : Pragma)
  | select (s : Select)
  | insert (commons : List Common) (c : Option Conflict) (target : Target) (columns : List Name)
    (rows : NewRows) (upserts : List Upsert) (returning : List ResultColumn)
  | update (commons : List Common) (c : Option Conflict) (target : Target)
    (sets : List (List Name × Expr)) (tables : List Join) (condition : Option Expr)
    (returning : List ResultColumn)
  | delete (commons : List Common) (target : Target) (condition : Option Expr)
    (returning : List ResultColumn)
  | createTable (h : Heading) (t : TableSpec)
  | createTableAs (h : Heading) (s : Select)
  | createIndex (h : Heading) (isUnique : Bool) (table : Name) (key : List KeyTerm)
    (condition : Option Expr)
  | createView (h : Heading) (columns : List Name) (s : Select)
  | createTrigger (h : Heading) (moment : Moment) (event : Event) (table : Reference)
    (condition : Option Expr) (steps : List Statement)
  | drop (kind : Kind) (mayMiss : Bool) (r : Reference)
  | alter (r : Reference) (a : Alteration)
  | begin (b : Beginning)
  | commit
  | rollback
  | savepoint (name : Name)
  | release (name : Name)
  | rollbackTo (name : Name)
  | vacuum (place : Option Name) (target : Option Expr)
  | reindex (r : Option Reference)
  | analyze (r : Option Reference)
  | attach (file name : Expr)
  | detach (name : Expr)
  | explain (s : Statement)

instance : Inhabited Statement := ⟨.commit⟩

end EntryCode.Database
