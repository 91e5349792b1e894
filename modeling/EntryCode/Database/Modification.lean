import EntryCode.Database.Change
import EntryCode.Database.Preparation

/-!
The statements that put rows in, change them or take them out, and the triggers that wait for that.
-/

namespace EntryCode.Database.Modification

open Evaluation Change

structure Frame where
  scope : Scope
  /-- What happens to broken rules, whatever the statement says. -/
  override : Option Conflict
  /-- The triggers that are being carried out, each with the database it is in. -/
  active : List (Name × Name)

def Frame.top : Frame :=
  ⟨.empty, none, []⟩

section Values

def assigned (s : Scope) (t : Table) (sets : List (List Name × Expr)) :
    Work (List (Option Nat × Value)) := do
  let parts ← sets.mapM fun (columns, e) => do
    let targets ← columns.mapM (targetOf t)
    let values ← rowOf mostLevels s e
    if values.length ≠ targets.length then
      Work.invalid s!"{targets.length} columns assigned {values.length} values"
    return targets.zip values
  return parts.flatten

def dependsOn (changed : List Nat) (i : Index) : Bool :=
  i.condition.isSome || i.key.any fun k => match k.part with
    | .column n => changed.contains n
    | .number => false
    | .expr _ => true

/-- The rule for a row that is in the way in an index. -/
def upsertFor? (t : Table) (i : Option Index) (upserts : List Upsert) : Option Upsert :=
  upserts.find? fun u => u.key.isEmpty || isAbout t u i

end Values

section Counting

/-- The greatest number that a table ever had, with the row that says so. -/
def sequence? (place : Name) (t : Table) : Work (Option (Table × Option (Int × Int))) := do
  let c ← read
  match if t.counts then (c.catalog place).table? "sqlite_sequence" else none with
  | none => return none
  | some s =>
    let own := (← s.rows place).find? fun (_, values) =>
      values.head? = some (.text (bytesOf t.name.toList))
    return some (s, own.map fun (n, values) => (n, ((values[1]?).getD Value.null).toInt))

def freshNumber (place : Name) (t : Table) : Work Int := do
  let next ← nextNumber place t
  match ← sequence? place t with
  | some (_, some (_, last)) =>
    if last = 0x7fffffffffffffff then Work.fail .full
    return max next (last + 1)
  | _ => return next

def noteNumber (place : Name) (t : Table) (number : Int) : Work Unit := do
  match ← sequence? place t with
  | none => return
  | some (s, own) =>
    let last := (own.map Prod.snd).getD 0
    let row ← match own with
      | some (n, _) => pure n
      | none => nextNumber place s
    putRow place s row [.text (bytesOf t.name.toList), .integer (max last number)]

end Counting

def orSkip (w : Work Bool) : Work Bool :=
  tryCatch w fun h => if h.ending = .ignore then return false else throw h

/-- What follows a change that is done. It cannot leave the row out any more. -/
def settled (w : Work Unit) : Work Unit := do
  let _ ← orSkip (do w; return true)

def removeRow (place : Name) (t : Table) (number : Int) (values : List Value) : Work Unit := do
  eraseEntries place t t.indexes.reverse number values
  eraseRow place t number values

mutual

def fire : Nat → Frame → Name → Name → Moment → (Event → Bool) → List Bound → Work Unit
  | 0, _, _, _, _, _, _ => Work.invalid "too many levels of trigger recursion"
  | fuel + 1, frame, place, table, moment, test, bounds => do
    for (home, t) in triggersOf (← read) place table moment test do
      if !frame.active.contains (home, t.name) then
        let scope := triggerScope home bounds
        let isDue ← match t.condition with
          | none => pure true
          | some e => pure (decide ((← eval mostLevels scope e).truth? = some true))
        if isDue then
          for s in t.steps do
            let _ ← perform fuel ⟨scope, frame.override, (home, t.name) :: frame.active⟩ s

/-- Carries out a statement on rows and gives the number of rows that it touched. -/
def perform : Nat → Frame → Statement → Work Nat
  | 0, _, _ => Work.invalid "too many levels of trigger recursion"
  | fuel + 1, frame, statement => do
    match statement with
    | .select q =>
      let _ ← select mostLevels frame.scope q
      return 0
    | .insert commons c target columns rows upserts _ =>
      let frame := { frame with override := frame.override <|> c }
      let found ← match rows with
        | .defaults => pure none
        | .query q => pure (some (← select mostLevels frame.scope (withCommons commons q)))
      match ← findTable frame.scope target.reference with
      | .table place t => insert fuel frame place t target.label columns found upserts
      | .view place v => insertView fuel frame place v columns found
    | .update commons c target sets tables condition _ =>
      let used := Mention.used commons (Mention.ofStatement statement)
      let scope ← define mostLevels frame.scope used
      let frame := { frame with override := frame.override <|> c, scope }
      match ← findTable scope target.reference with
      | .table place t => update fuel frame place t target.label sets tables condition
      | .view place v => changeView fuel frame place v target.label (some sets) condition
    | .delete commons target condition returning =>
      let used := Mention.used commons (Mention.ofStatement statement)
      let scope ← define mostLevels frame.scope used
      let frame := { frame with scope }
      match ← findTable scope target.reference with
      | .table place t =>
        delete fuel frame place t target.label condition (!returning.isEmpty)
      | .view place v => changeView fuel frame place v target.label none condition
    | _ => Work.invalid "not a statement on rows"

def insert : Nat → Frame → Name → Table → Name → List Name → Option Relation → List Upsert →
    Work Nat
  | 0, _, _, _, _, _, _, _ => Work.invalid "too many levels of trigger recursion"
  | fuel + 1, frame, place, t, label, columns, rows, upserts => do
    let targets ← targetsOf t columns
    let mut count := 0
    for row in rows.elim [[]] Relation.rows do
      let given := if rows.isSome then targets.zip row else []
      if ← orSkip (insertOne fuel frame place t label upserts given) then count := count + 1
    return count

/-- Puts a row with the given values into a table; false if it is left out. -/
def insertOne : Nat → Frame → Name → Table → Name → List Upsert → List (Option Nat × Value) →
    Work Bool
  | 0, _, _, _, _, _, _ => Work.invalid "too many levels of trigger recursion"
  | fuel + 1, frame, place, t, label, upserts, given => do
    let values ← t.columns.zipIdx.mapM fun (c, i) =>
      match given.find? fun g => g.1 = some i with
      | some (_, v) => pure v
      | none => defaultOf c
    let asked := match t.numberColumn with
      | some (i, _) => (values[i]?).getD .null
      | none => ((given.find? fun g => g.1.isNone).map Prod.snd).getD .null
    let early ← if asked.isNull then pure (-1) else numberOf asked
    let fitted ← values.zipIdx.mapM fun (v, i) =>
      if t.numberColumn.any fun n => n.1 = i then pure (.integer early) else fit t i v
    fire fuel frame place t.name .before isInsert [newRow t early fitted]
    let number ← if asked.isNull then freshNumber place t else pure early
    let fitted := t.numberColumn.elim fitted fun n => fitted.set n.1 (.integer number)
    let fitted ← computed mostLevels place t true number fitted
    let some fitted ← checkColumns t frame.override fitted | return false
    if !(← checkRow place t frame.override number fitted) then return false
    let mut overwritten := false
    if t.hasNumbers then
      if let some old ← findRow? place t number then
        if let some u := upsertFor? t none upserts then
          return ← upsert fuel frame place t label u (number, old) (number, fitted)
        let own := t.numberColumn.elim Conflict.abort Prod.snd
        let action := frame.override.getD own
        if action = .replace then
          eraseEntries place t t.indexes.reverse number old
          overwritten := true
        else return ← refuse action (sameNumberFault t)
    for i in t.clustered.toList ++ t.indexes.reverse do
      if let some own := i.unique then
        if let some rival ← rival? place t i none number fitted then
          if let some u := upsertFor? t (some i) upserts then
            return ← upsert fuel frame place t label u rival (number, fitted)
          let action := frame.override.getD own
          if action = .replace then removeRow place t rival.1 rival.2
          else return ← refuse action (sameKeyFault t i)
    putEntries place t t.indexes.reverse number fitted
    putRow place t number fitted
    noteNumber place t number
    if t.hasNumbers then modify fun w => { w with lastNumber := number }
    settled (fire fuel frame place t.name .after isInsert [newRow t number fitted])
    return true

def upsert : Nat → Frame → Name → Table → Name → Upsert → Int × List Value →
    Int × List Value → Work Bool
  | 0, _, _, _, _, _, _, _ => Work.invalid "too many levels of trigger recursion"
  | fuel + 1, frame, place, t, label, u, (number, old), (newNumber, new) => do
    match u.sets with
    | none => return false
    | some sets =>
      let bounds := [t.boundAt place label number old,
        apart "excluded" t.fields t.hasNumbers newNumber new]
      let s := frame.scope.within bounds
      let isDue ← match u.condition with
        | none => pure true
        | some e => pure (decide ((← eval mostLevels s e).truth? = some true))
      if !isDue then return false
      let changes ← assigned s t sets
      updateOne fuel { frame with override := none } place t number old changes

def update : Nat → Frame → Name → Table → Name → List (List Name × Expr) → List Join →
    Option Expr → Work Nat
  | 0, _, _, _, _, _, _, _ => Work.invalid "too many levels of trigger recursion"
  | fuel + 1, frame, place, t, label, sets, tables, condition => do
    let (_, joinedRows) ← joined mostLevels frame.scope tables none none
    let rows ← tableRows mostLevels place t
    let b := t.bound place label
    let c ← read
    let rows := match Query.path? t b condition none with
      | some i => inOrder c i rows
      | none => rows
    let found ← rows.filterMapM fun (number, values) => do
      let own := t.boundAt place label number values
      let hit ← joinedRows.findM? fun others => do
        match condition with
        | none => return true
        | some e =>
          return (← eval mostLevels (frame.scope.within (own :: others)) e).truth? = some true
      return hit.map fun others => (number, values, others)
    let mut count := 0
    for (number, values, others) in found do
      let current ← if t.hasNumbers then findRow? place t number else pure (some values)
      if let some values := current then
        let own := t.boundAt place label number values
        let changes ← assigned (frame.scope.within (own :: others)) t sets
        if ← orSkip (updateOne fuel frame place t number values changes) then count := count + 1
    return count

/-- Changes one row; false if it is left as it is. -/
def updateOne : Nat → Frame → Name → Table → Int → List Value → List (Option Nat × Value) →
    Work Bool
  | 0, _, _, _, _, _, _ => Work.invalid "too many levels of trigger recursion"
  | fuel + 1, frame, place, t, number, old, changes => do
    let isNumber (target : Option Nat) : Bool :=
      target.all fun i => t.numberColumn.any fun n => n.1 = i
    let changed := changes.filterMap Prod.fst
    let names := changed.filterMap fun i => (t.columns[i]?).map Column.name
    let after ← match changes.reverse.find? fun x => isNumber x.1 with
      | some (_, v) => numberOf v
      | none => pure number
    let values ← old.zipIdx.mapM fun (v, i) => do
      if t.numberColumn.any fun n => n.1 = i then return .integer after
      match changes.reverse.find? fun x => x.1 = some i with
      | some (_, w) => fit t i w
      | none => return v
    fire fuel frame place t.name .before (isUpdate names)
      [oldRow t number old, newRow t after values]
    let values ← computed mostLevels place t true after values
    let some values ← checkColumns t frame.override values | return false
    if !(← checkRow place t frame.override after values) then return false
    if t.hasNumbers && after ≠ number then
      if let some rival ← findRow? place t after then
        let action := frame.override.getD (t.numberColumn.elim .abort Prod.snd)
        if action = .replace then removeRow place t after rival
        else return ← refuse action (sameNumberFault t)
    let isMoved := after ≠ number || (t.clusterColumns.any fun i => changed.contains i)
    let affected := t.indexes.reverse.filter fun i => isMoved || dependsOn changed i
    for i in t.clustered.toList.filter (fun _ => isMoved) ++ affected do
      if let some own := i.unique then
        if let some rival ← rival? place t i (some (number, old)) after values then
          let action := frame.override.getD own
          if action = .replace then removeRow place t rival.1 rival.2
          else return ← refuse action (sameKeyFault t i)
    eraseEntries place t affected number old
    if isMoved then eraseRow place t number old
    putEntries place t affected after values
    putRow place t after values
    settled (fire fuel frame place t.name .after (isUpdate names)
      [oldRow t number old, newRow t after values])
    return true

/-- Takes rows out of a table. If it is all of them, and they need not come back, their trees are
cleared. -/
def delete : Nat → Frame → Name → Table → Name → Option Expr → Bool → Work Nat
  | 0, _, _, _, _, _, _ => Work.invalid "too many levels of trigger recursion"
  | fuel + 1, frame, place, t, label, condition, comesBack => do
    let b := t.bound place label
    let c ← read
    let rows ← tableRows mostLevels place t
    if condition.isNone && !comesBack && !hasTriggers c place t.name isDelete then
      Work.inStore place do
        Tree.clear t.root
        for i in t.indexes.reverse do Tree.clear i.root
      return rows.length
    let rows := match Query.path? t b condition none with
      | some i => inOrder c i rows
      | none => rows
    let found ← rows.filterM fun (number, values) => do
      match condition with
      | none => return true
      | some e =>
        let own := t.boundAt place label number values
        return (← eval mostLevels (frame.scope.within [own]) e).truth? = some true
    let mut count := 0
    for (number, values) in found do
      let isGone ← orSkip do
        fire fuel frame place t.name .before isDelete [oldRow t number values]
        let current ← if t.hasNumbers then findRow? place t number else pure (some values)
        match current with
        | none => return false
        | some values =>
          removeRow place t number values
          settled (fire fuel frame place t.name .after isDelete [oldRow t number values])
          return true
      if isGone then count := count + 1
    return count

def insertView : Nat → Frame → Name → View → List Name → Option Relation → Work Nat
  | 0, _, _, _, _, _ => Work.invalid "too many levels of trigger recursion"
  | fuel + 1, frame, place, v, columns, rows => do
    let fields ← viewFields place v
    let names := if columns.isEmpty then fields.map Field.name else columns
    let all := rows.elim [names.map fun _ => .null] Relation.rows
    for row in all do
      let values := fields.map fun f =>
        ((names.zip row).find? fun x => Name.same x.1 f.name).elim .null Prod.snd
      let _ ← orSkip do
        fire fuel frame place v.name .instead isInsert [apart "new" fields false 0 values]
        return true
    return all.length

/-- Lets triggers change rows of a view, or take them out if nothing is set. -/
def changeView : Nat → Frame → Name → View → Name → Option (List (List Name × Expr)) →
    Option Expr → Work Nat
  | 0, _, _, _, _, _, _ => Work.invalid "too many levels of trigger recursion"
  | fuel + 1, frame, place, v, label, sets, condition => do
    let names := (sets.getD []).flatMap Prod.fst
    let test := if sets.isSome then isUpdate names else isDelete
    let found ← select mostLevels (Scope.empty.ofView place v.name) v.query
    let fields ← renamed v.name v.columns found.fields
    let mut count := 0
    for values in found.rows do
      let s := frame.scope.within [{ boundOf label fields with values }]
      let isHit ← match condition with
        | none => pure true
        | some e => pure (decide ((← eval mostLevels s e).truth? = some true))
      if isHit then
        let changes ← (sets.getD []).mapM fun (columns, e) => do
          return columns.zip (← rowOf mostLevels s e)
        let after := fields.zip values |>.map fun (f, w) =>
          (changes.flatten.reverse.find? fun x => Name.same x.1 f.name).elim w Prod.snd
        let old := apart "old" fields false 0 values
        let _ ← orSkip do
          fire fuel frame place v.name .instead test
            (if sets.isSome then [old, apart "new" fields false 0 after] else [old])
          return true
        count := count + 1
    return count

end

end EntryCode.Database.Modification
