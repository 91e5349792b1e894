import EntryCode.Database.Evaluation

/-!
What is found out about a statement on rows before it is carried out: that its names stand for
something, that its values fit its columns, and the same of the triggers that it can set off.
-/

namespace EntryCode.Database.Modification

open Evaluation

section Triggers

def apart (label : Name) (fields : List Field) (hasNumber : Bool) (number : Int)
    (values : List Value) : Bound where
  label := label
  place := none
  fields := fields
  hasNumber := hasNumber
  merged := []
  isApart := true
  number := .integer number
  values := values

def newRow (t : Table) (number : Int) (values : List Value) : Bound :=
  apart "new" t.fields t.hasNumbers number values

def oldRow (t : Table) (number : Int) (values : List Value) : Bound :=
  apart "old" t.fields t.hasNumbers number values

/-- The triggers for a table, each with the database it is in. The youngest come first. -/
def triggersOf (c : Context) (place table : Name) (m : Moment) (test : Event → Bool) :
    List (Name × Trigger) :=
  c.searchOrder.flatMap fun p =>
    ((c.catalog p).triggers.reverse.filter fun t =>
      Name.same t.table.name table && decide (t.moment = m) && test t.event &&
        (p = place || (p = "temp" && t.table.place.all (Name.same place)))).map fun t => (p, t)

def isInsert : Event → Bool
  | .insert => true
  | _ => false

def isDelete : Event → Bool
  | .delete => true
  | _ => false

def isUpdate (changed : List Name) : Event → Bool
  | .update [] => true
  | .update columns => columns.any fun n => changed.any (Name.same n)
  | _ => false

def hasTriggers (c : Context) (place table : Name) (test : Event → Bool) : Bool :=
  [Moment.before, .after, .instead].any fun m => !(triggersOf c place table m test).isEmpty

/-- The names in a trigger: those of the changed row, and what its database holds. -/
def triggerScope (home : Name) (bounds : List Bound) : Scope :=
  { Scope.empty.within bounds with home := if home = "temp" then none else some home }

end Triggers

section Targets

def changeable (t : Table) : Work Unit := do
  if t.isFixed then Work.invalid s!"table {t.name} may not be modified"

/-- A view can be changed if triggers act instead. -/
def changeableView (place : Name) (v : View) (test : Event → Bool) : Work Unit := do
  if (triggersOf (← read) place v.name .instead test).isEmpty then
    Work.invalid s!"cannot modify {v.name} because it is a view"

/-- The column of a new row that a name stands for; none for the number of the row. -/
def targetOf (t : Table) (name : Name) : Work (Option Nat) := do
  match findColumn? t.columns name with
  | some i =>
    if (t.columns[i]?).any fun c => c.computed.isSome then
      Work.invalid s!"cannot INSERT into generated column \"{name}\""
    return some i
  | none =>
    if isNumberName name && t.hasNumbers then return none
    Work.invalid s!"table {t.name} has no column named {name}"

def targetsOf (t : Table) (columns : List Name) : Work (List (Option Nat)) := do
  if columns.isEmpty then
    return (t.columns.zipIdx.filter fun (c, _) => c.computed.isNone).map fun (_, i) => some i
  columns.mapM (targetOf t)

end Targets

section Checks

/-- Refuses a table whose columns cannot be computed. -/
def checkComputed (t : Table) : Work Unit := do
  if t.isCircular then Work.invalid s!"generated column loop in {t.name}"

def checkSets (s : Scope) (t : Table) (sets : List (List Name × Expr)) : Work Unit := do
  for (columns, e) in sets do
    let n ← width mostLevels s false e
    if n ≠ columns.length then Work.invalid s!"{columns.length} columns assigned {n} values"
    for n in columns do
      if (findColumn? t.columns n).isNone && !(isNumberName n && t.hasNumbers) then
        Work.invalid s!"no such column: {n}"
      let _ ← targetOf t n

/-- The key that a rule for rows that are in the way is about. -/
def keyOfRule? (t : Table) (u : Upsert) : Option (List KeyPart) :=
  u.key.mapM fun k =>
    match k.e, (keyPart t.columns (t.numberColumn.map Prod.fst) true k).toOption with
    | .column [n] _, none =>
      if isNumberName n && t.hasNumbers then some ⟨.number, .binary, false⟩ else none
    | _, part => part

/-- Whether a rule for rows that are in the way is about an index; none for the numbers of rows. -/
def isAbout (t : Table) (u : Upsert) (i : Option Index) : Bool :=
  match keyOfRule? t u, i with
  | some key, some i =>
    i.unique.isSome && key.length = i.key.length &&
      key.all fun k => i.key.any fun x => x.part.same k.part
  | some key, none => key.length = 1 && key.all fun k => k.part.same .number
  | none, _ => false

/-- Whether rows can be in the way as a rule says. Numbers that are chosen anew are not taken. -/
def canApply (t : Table) (targets : List (Option Nat)) (u : Upsert) : Bool :=
  let givesNumber := targets.any fun i =>
    i.all fun i => t.numberColumn.any fun n => n.1 = i
  let isAny := u.key.isEmpty
  (givesNumber && t.hasNumbers && (isAny || isAbout t u none)) ||
    (t.clustered.toList ++ t.indexes).any fun i =>
      i.unique.isSome && (isAny || isAbout t u (some i))

def checkUpsert (s : Scope) (place : Name) (t : Table) (label : Name)
    (targets : List (Option Nat)) (u : Upsert) : Work Unit := do
  let own := t.bound place label
  for k in u.key do check mostLevels (Scope.empty.within [own]) false k.e
  let indexes := none :: (t.clustered.toList ++ t.indexes).map some
  if !u.key.isEmpty && !indexes.any (isAbout t u) then
    Work.invalid "ON CONFLICT clause does not match any PRIMARY KEY or UNIQUE constraint"
  if canApply t targets u then
    let inner := s.within [own, apart "excluded" t.fields t.hasNumbers 0 own.values]
    checkSets inner t (u.sets.getD [])
    for e in u.condition.toList do check mostLevels inner false e

/-- Checks the rows that come back. Their table is known by its own name only. -/
def checkReturning (s : Scope) (name : Name) (b : Bound) (returning : List ResultColumn) :
    Work Unit := do
  let b := { b with label := name, place := none }
  for o in ← Work.ofExcept (Query.outputs [b] returning) do
    if let .expr e _ _ := o then check mostLevels (s.within [b]) false e

def viewFields (place : Name) (v : View) : Work (List Field) := do
  let fields ← checkSelect mostLevels (Scope.empty.ofView place v.name) v.query
  if v.columns.isEmpty then return fields
  return v.columns.zipIdx.map fun (n, i) =>
    { (fields[i]?).getD ⟨n, none, none⟩ with name := n }

/-- Refuses a number of values that is not that of the columns. -/
def checkWidth (table : Name) (columns : List Name) (width given : Nat) : Work Unit := do
  if given ≠ width then
    if columns.isEmpty then
      Work.invalid s!"table {table} has {width} columns but {given} values were supplied"
    else Work.invalid s!"{given} values for {width} columns"

def withCommons (commons : List Common) : Select → Select
  | .mk own first others order limit offset =>
    .mk (commons ++ own) first others order limit offset

mutual

def checkStatement : Nat → Scope → List (Name × Name) → Statement → Work Unit
  | 0, _, _, _ => Work.invalid "too many levels of trigger recursion"
  | fuel + 1, s, active, statement => do
    match statement with
    | .select q =>
      let _ ← checkSelect mostLevels s q
    | .insert commons _ target columns rows upserts returning =>
      let width : Work (Option Nat) := do
        let .query q := rows | return none
        return some (← checkSelect mostLevels s (withCommons commons q)).length
      match ← findTable s target.reference with
      | .table place t =>
        changeable t
        checkComputed t
        let targets ← targetsOf t columns
        if let some n ← width then checkWidth t.name columns targets.length n
        for u in upserts do checkUpsert s place t target.label targets u
        let b := t.bound place target.label
        for u in upserts do
          if let (true, some sets) := (canApply t targets u, u.sets) then
            checkTriggers fuel active place t.name (isUpdate (sets.flatMap Prod.fst))
              [oldRow t 0 b.values, newRow t 0 b.values]
        checkTriggers fuel active place t.name isInsert [newRow t 0 b.values]
        checkReturning s t.name b returning
      | .view place v =>
        let fields ← viewFields place v
        changeableView place v isInsert
        for n in columns do
          if !fields.any fun f => Name.same f.name n then
            Work.invalid s!"table {v.name} has no column named {n}"
        if let some n ← width then
          checkWidth v.name columns (if columns.isEmpty then fields.length else columns.length) n
        if !upserts.isEmpty then Work.invalid "cannot UPSERT a view"
        let values := fields.map fun _ => Value.null
        checkTriggers fuel active place v.name isInsert [apart "new" fields false 0 values]
        checkReturning s v.name (boundOf v.name fields) returning
    | .update commons _ target sets tables condition returning =>
      let s ← checkCommons mostLevels s (Mention.used commons (Mention.ofStatement statement))
      let test := isUpdate (sets.flatMap Prod.fst)
      match ← findTable s target.reference with
      | .table place t =>
        changeable t
        checkIndex (t.clustered.toList ++ t.indexes) target.index
        let b := t.bound place target.label
        let inner := s.within (b :: (← shapes mostLevels s tables))
        checkSets inner t sets
        checkComputed t
        for e in condition.toList do check mostLevels inner false e
        checkTriggers fuel active place t.name test [oldRow t 0 b.values, newRow t 0 b.values]
        checkReturning s t.name b returning
      | .view place v =>
        let fields ← viewFields place v
        changeableView place v test
        checkIndex [] target.index
        let b := boundOf target.label fields
        let inner := s.within (b :: (← shapes mostLevels s tables))
        for (columns, e) in sets do
          let n ← width mostLevels inner false e
          if n ≠ columns.length then Work.invalid s!"{columns.length} columns assigned {n} values"
          for n in columns do
            if !fields.any fun f => Name.same f.name n then Work.invalid s!"no such column: {n}"
        for e in condition.toList do check mostLevels inner false e
        checkTriggers fuel active place v.name test
          [apart "old" fields false 0 b.values, apart "new" fields false 0 b.values]
        checkReturning s v.name b returning
    | .delete commons target condition returning =>
      let s ← checkCommons mostLevels s (Mention.used commons (Mention.ofStatement statement))
      match ← findTable s target.reference with
      | .table place t =>
        changeable t
        checkIndex (t.clustered.toList ++ t.indexes) target.index
        let b := t.bound place target.label
        for e in condition.toList do check mostLevels (s.within [b]) false e
        checkTriggers fuel active place t.name isDelete [oldRow t 0 b.values]
        checkReturning s t.name b returning
      | .view place v =>
        let fields ← viewFields place v
        changeableView place v isDelete
        checkIndex [] target.index
        let b := boundOf target.label fields
        for e in condition.toList do check mostLevels (s.within [b]) false e
        checkTriggers fuel active place v.name isDelete [apart "old" fields false 0 b.values]
        checkReturning s v.name b returning
    | _ => Work.invalid "not a statement on rows"

def checkTriggers : Nat → List (Name × Name) → Name → Name → (Event → Bool) → List Bound →
    Work Unit
  | 0, _, _, _, _, _ => Work.invalid "too many levels of trigger recursion"
  | fuel + 1, active, place, table, test, bounds => do
    let c ← read
    for m in [Moment.before, .after, .instead] do
      for (home, t) in triggersOf c place table m test do
        if !active.contains (home, t.name) then
          let s := triggerScope home bounds
          for e in t.condition.toList do check mostLevels s false e
          for step in t.steps do checkStatement fuel s ((home, t.name) :: active) step

end

/-- Checks that the names in a step of a trigger stand for something, wherever its values go. -/
def checkNames (s : Scope) (statement : Statement) : Work Unit := do
  let boundOfTarget (target : Target) : Work Bound := do
    match ← findTable s target.reference with
    | .table place t => return t.bound place target.label
    | .view place v => return boundOf target.label (← viewFields place v)
  let checkValues (inner : Scope) (sets : List (List Name × Expr)) (condition : Option Expr) :
      Work Unit := do
    for e in sets.map Prod.snd do
      let _ ← width mostLevels inner false e
    for e in condition.toList do check mostLevels inner false e
  match statement with
  | .select q =>
    let _ ← checkSelect mostLevels s q
  | .insert commons _ target _ rows upserts _ =>
    if let .query q := rows then
      let _ ← checkSelect mostLevels s (withCommons commons q)
    let own ← boundOfTarget target
    for u in upserts do
      for k in u.key do check mostLevels (Scope.empty.within [own]) false k.e
      let excluded := { own with label := "excluded", place := none, isApart := true }
      checkValues (s.within [own, excluded]) (u.sets.getD []) u.condition
  | .update commons _ target sets tables condition _ =>
    let s ← checkCommons mostLevels s (Mention.used commons (Mention.ofStatement statement))
    let own ← boundOfTarget target
    checkValues (s.within (own :: (← shapes mostLevels s tables))) sets condition
  | .delete commons target condition _ =>
    let s ← checkCommons mostLevels s (Mention.used commons (Mention.ofStatement statement))
    checkValues (s.within [← boundOfTarget target]) [] condition
  | _ => return

def checkTrigger (home : Name) (t : Trigger) : Work Unit := do
  let place := t.table.place <|> (if home = "temp" then none else some home)
  let bounds ← match ← findTable .empty ⟨place, t.table.name⟩ with
    | .table _ own =>
      let b := own.bound home own.name
      pure (newRow own 0 b.values, oldRow own 0 b.values)
    | .view p v =>
      let fields ← viewFields p v
      let values := fields.map fun _ => Value.null
      pure (apart "new" fields false 0 values, apart "old" fields false 0 values)
  let shown := match t.event with
    | .insert => [bounds.1]
    | .delete => [bounds.2]
    | .update _ => [bounds.1, bounds.2]
  let s := triggerScope home shown
  for e in t.condition.toList do check mostLevels s false e
  for step in t.steps do checkNames s step

def checkTop (s : Statement) : Work Unit :=
  checkStatement 1000 .empty [] s

end Checks

end EntryCode.Database.Modification
