import EntryCode.Database.Mention
import EntryCode.Database.Query

/-!
The values of expressions and the rows of queries. Each level of an expression or a query takes a
unit of `fuel`.
-/

namespace EntryCode.Database

open Query

def Query.comparedOne (op : Binary) (a b : Value) (o : Ordering) : Value :=
  match op with
  | .is | .isNot => .ofBool (Value.holds op o)
  | _ => if a.isNull || b.isNull then .null else .ofBool (Value.holds op o)

def Query.comparedAll (op : Binary) : List (Value × Value × Ordering) → Value
  | [] => .ofBool (Value.holds op .eq)
  | [(a, b, o)] => comparedOne op a b o
  | (a, b, o) :: rest =>
    match op with
    | .is | .eq =>
      .ofTruth (Value.and (comparedOne op a b o).truth? (comparedAll op rest).truth?)
    | .isNot | .ne =>
      .ofTruth (Value.or (comparedOne op a b o).truth? (comparedAll op rest).truth?)
    | _ =>
      if a.isNull || b.isNull then .null
      else if o = .eq then comparedAll op rest
      else .ofBool (Value.holds op o)

namespace Evaluation

/-- More levels than statements may have. -/
def mostLevels : Nat := 1500

def findTable (s : Scope) (r : Reference) : Work Found := do
  let place := r.place <|> s.home
  match (← read).find? ⟨place, r.name⟩ with
  | some f => return f
  | none =>
    let name := place.elim r.name (· ++ "." ++ r.name)
    Work.invalid s!"no such table: {name}"

def checkIndex (indexes : List Index) (index : Option Name) : Work Unit := do
  if let some n := index then
    if !indexes.any fun i => Name.same i.name n then Work.invalid s!"no such index: {n}"

def usedCommons : Select → List Common
  | .mk commons first others order limit offset =>
    Mention.used commons (Mention.ofSelect Mention.mostLevels
      (.mk [] first others order limit offset))

def renamed (name : Name) (columns : List Name) (fields : List Field) : Work (List Field) := do
  if columns.isEmpty then return fields
  if columns.length ≠ fields.length then
    Work.invalid s!"expected {columns.length} columns for '{name}' but got {fields.length}"
  return (fields.zip columns).map fun (f, n) => { f with name := n }

def boundOf (label : Name) (fields : List Field) : Bound where
  label := label
  place := none
  fields := fields
  hasNumber := false
  merged := []
  isApart := false
  number := .null
  values := fields.map fun _ => .null

section Checks

/-- Whether a term is a result of a query with several parts, by its number or its name. -/
def isResult (width : Nat) (known : List Field) (e : Expr) : Bool :=
  match position? Expr.mostLevels e with
  | some i => 1 ≤ i && i ≤ width
  | none =>
    match e with
    | .column parts _ | .collate (.column parts _) _ =>
      known.any fun f => parts.getLast?.any (Name.same f.name)
    | _ => false

def isLikelihood : Expr → Bool
  | .literal (.real b) => Double.toFloat b ≤ 1.0
  | _ => false

def checkPosition (clause : String) (outs : List Output) (e : Expr) : Work Unit := do
  if (position? Expr.mostLevels e).isSome && (counted? outs e).isNone then
    Work.invalid s!"{clause} term out of range - should be between 1 and {outs.length}"

mutual

/-- Checks that all names in an expression with one value stand for something; `mayGroup` if rows may
be taken together. -/
def check : Nat → Scope → Bool → Expr → Work Unit
  | 0, _, _, _ => Work.invalid "Expression tree is too large"
  | fuel + 1, s, mayGroup, e => do
    if (← width fuel s mayGroup e) ≠ 1 then Work.invalid "row value misused"

def width : Nat → Scope → Bool → Expr → Work Nat
  | 0, _, _, _ => Work.invalid "Expression tree is too large"
  | fuel + 1, s, mayGroup, e => do
    let agree (es : List Expr) : Work Nat := do
      let widths ← es.mapM (width fuel s mayGroup)
      if widths.any fun n => some n ≠ widths.head? then Work.invalid "row value misused"
      return 1
    let mut inside := mayGroup
    match e with
    | .binary op a b => if Value.isComparison op then return ← agree [a, b]
    | .between e low high => return ← agree [e, low, high]
    | .single q => return (← checkSelect fuel s q).length
    | .column parts mayBeText =>
      let _ ← Work.ofExcept (s.meaning parts mayBeText)
    | .collate _ n =>
      if (Collation.ofName? n.toList).isNone then
        Work.invalid s!"no such collation sequence: {n}"
    | .call f _ _ arguments _ isWindow =>
      let key := Name.key f
      if isWindow || !Function.isKnown key arguments.length then
        Work.invalid s!"no such function: {f}"
      if Function.isAggregate key arguments.length then
        let isScalar := (key = "max" ∨ key = "min") ∧ arguments.length ≠ 1
        if !mayGroup && !isScalar then
          Work.invalid s!"misuse of aggregate function {f}()"
        inside := false
      if key = "likelihood" && !(arguments[1]?).any isLikelihood then
        Work.invalid ("second argument to likelihood() must be a constant between 0.0 and 1.0")
    | .exists q =>
      let _ ← checkSelect fuel s q
    | .amongRows x q =>
      let fields ← checkSelect fuel s q
      let n ← width fuel s mayGroup x
      if fields.length ≠ n then
        Work.invalid s!"sub-select returns {fields.length} columns - expected {n}"
      return 1
    | _ => pure ()
    for x in e.children do check fuel s inside x
    match e with
    | .tuple items => return items.length
    | _ => return 1

def checkSelect : Nat → Scope → Select → Work (List Field)
  | 0, _, _ => Work.invalid "Expression tree is too large"
  | fuel + 1, s, .mk commons first others order limit offset => do
    let s ← checkCommons fuel s (usedCommons (.mk commons first others order limit offset))
    let fields ← checkCore fuel s first (if others.isEmpty then order else [])
    let mut known := fields
    for (_, c) in others do
      let more ← checkCore fuel s c []
      if more.length ≠ fields.length then
        Work.invalid "SELECTs do not have the same number of result columns"
      known := known ++ more
    if !others.isEmpty then
      for .mk e _ _ in order do
        if !isResult fields.length known e then
          Work.invalid "ORDER BY term does not match any column in the result set"
    for e in limit.toList ++ offset.toList do check fuel { s with levels := [] } false e
    return fields

def checkCommons : Nat → Scope → List Common → Work Scope
  | 0, _, _ => Work.invalid "Expression tree is too large"
  | _, s, [] => return s
  | fuel + 1, s, .mk name columns (.mk inner first others order limit offset) :: rest => do
    let own ← checkCommons fuel s inner
    let fields ← renamed name columns (← checkCore fuel own first [])
    let s := { s with commons := (name, ⟨fields, []⟩) :: s.commons }
    let own := { own with commons := (name, ⟨fields, []⟩) :: own.commons }
    let _ ← checkSelect fuel own (.mk [] first others order limit offset)
    checkCommons fuel s rest

def checkCore : Nat → Scope → Core → List OrderTerm → Work (List Field)
  | 0, _, _, _ => Work.invalid "Expression tree is too large"
  | fuel + 1, s, .values rows, _ => do
    let width := (rows.head?.map List.length).getD 0
    for row in rows do
      if row.length ≠ width then Work.invalid "all VALUES must have the same number of terms"
      for e in row do check fuel s false e
    return (List.range width).map fun i => ⟨s!"column{i + 1}", none, none⟩
  | fuel + 1, s, .select _ columns tables condition groups having, order => do
    let shape ← shapes fuel s tables
    let outs ← Work.ofExcept (outputs shape columns)
    let inner := s.push ⟨shape, aliases outs, none⟩
    let plain := s.push ⟨shape, [], none⟩
    for o in outs do
      if let .expr e _ _ := o then check fuel plain true e
    for e in condition.toList do check fuel inner false e
    for e in groups do
      checkPosition "GROUP BY" outs e
      if let some (.expr result _ _) := (counted? outs e).bind (outs[·]?) then
        if result.isGrouping then
          Work.invalid "aggregate functions are not allowed in the GROUP BY clause"
      check fuel inner false e
    for e in having.toList do check fuel inner true e
    for .mk e _ _ in order do
      checkPosition "ORDER BY" outs e
      if (outputOf? outs e).isNone then check fuel inner true e
    return outs.map (field plain shape)

def shapes : Nat → Scope → List Join → Work (List Bound)
  | 0, _, _ => Work.invalid "Expression tree is too large"
  | fuel + 1, s, joins => do
    let mut all : List Bound := []
    for .mk kind src on shared in joins do
      if kind.isNatural && (on.isSome || !shared.isEmpty) then
        Work.invalid "a NATURAL join may not have an ON or USING clause"
      let right ← shape fuel s src
      let names := sharedNames kind shared all right
      for n in names do
        if (all.findSome? (Bound.field? · n)).isNone || (right.findSome? (Bound.field? · n)).isNone
        then Work.invalid s!"cannot join using column {n}"
      all := all ++ right.map (merge names)
      for e in on.toList do check fuel (s.within all) false e
    return all

def shape : Nat → Scope → Source → Work (List Bound)
  | 0, _, _ => Work.invalid "Expression tree is too large"
  | fuel + 1, s, src => do
    match src with
    | .table r called index =>
      let label := called.getD r.name
      match if r.place.isNone then s.commons.find? fun c => Name.same c.1 r.name else none with
      | some (_, relation) =>
        checkIndex [] index
        return [boundOf label relation.fields]
      | none =>
        match ← findTable s r with
        | .table place t =>
          checkIndex (t.clustered.toList ++ t.indexes) index
          return [t.bound place label]
        | .view place v =>
          if s.views.contains (place, Name.key v.name) then
            Work.invalid s!"view {v.name} is circularly defined"
          checkIndex [] index
          let fields ← checkSelect fuel (s.ofView place v.name) v.query
          return [{ boundOf label (← renamed v.name v.columns fields) with place := some place }]
    | .function name _ _ => Work.invalid s!"no such table: {name}"
    | .query q called => return [boundOf (called.getD "") (← checkSelect fuel s q)]
    | .group joins _ => shapes fuel s joins

end

end Checks

section Values

def isAmong (v : Value) (tests : List Value) : Value :=
  if tests.any fun t => t.truth? = some true then .integer 1
  else if tests.isEmpty then .integer 0
  else if v.isNull || tests.any Value.isNull then .null
  else .integer 0

def placeOf (fields : List Field) : OrderTerm → Nat
  | .mk e _ _ =>
    match position? Expr.mostLevels e with
    | some i => i.toNat - 1
    | none =>
      match e with
      | .column parts _ | .collate (.column parts _) _ =>
        (fields.findIdx? fun (f : Field) => parts.getLast?.any (Name.same f.name)).getD 0
      | _ => 0

def keyOf (i : Index) (number : Int) (values : List Value) : List Value :=
  (i.key.map fun k => match k.part with
    | .column n => (values[n]?).getD .null
    | _ => Value.integer number) ++ [Value.integer number]

def inOrder (c : Context) (i : Index) (rows : List (Int × List Value)) : List (Int × List Value) :=
  let directions := i.key.map fun k => (⟨k.collation, k.isDescending, none⟩ : Direction)
  sortBy c (directions ++ [⟨.binary, false, none⟩]) (fun (n, vs) => keyOf i n vs) rows

/-- The greatest or least value that an expression asks for, as a function and its argument. -/
def extremeIn? : Nat → Expr → Option (Bool × Expr)
  | 0, _ => none
  | fuel + 1, e =>
    let here := match e with
      | .call f _ _ [x] none false =>
        match Name.key f with
        | "max" => some (true, x)
        | "min" => some (false, x)
        | _ => none
      | _ => none
    here <|> e.children.findSome? (extremeIn? fuel)

mutual

def eval : Nat → Scope → Expr → Work Value
  | 0, _, _ => Work.invalid "Expression tree is too large"
  | fuel + 1, s, e => do
    match e with
    | .literal v => return v
    | .variable n => return ((← read).arguments[n - 1]?).getD .null
    | .column parts mayBeText =>
      match ← Work.ofExcept (s.meaning parts mayBeText) with
      | .cell _ v | .constant v => return v
      | .result e inner => eval fuel inner e
    | .unary op e => return Value.unary op (← eval fuel s e)
    | .binary op a b =>
      if Value.isComparison op then compare fuel s op a b
      else
        let x ← eval fuel s a
        if (op = .and ∧ x.truth? = some false) ∨ (op = .or ∧ x.truth? = some true) then
          return .ofTruth x.truth?
        return Value.binary op x (← eval fuel s b)
    | .isNull e => return .ofBool (← eval fuel s e).isNull
    | .between e low high =>
      let x ← compare fuel s .ge e low
      return Value.binary .and x (← compare fuel s .le e high)
    | .collate e _ => eval fuel s e
    | .cast e type => return Value.cast (.ofType type) (← eval fuel s e)
    | .call f isDistinct _ arguments filter _ =>
      call fuel s (Name.key f) isDistinct arguments filter
    | .case base arms other => choose fuel s base other arms
    | .among e items =>
      let v ← eval fuel s e
      let kind := e.affinity s Expr.mostLevels
      let values ← items.mapM (eval fuel s)
      let c ← read
      let collation := (e.collation? s).getD .binary
      return isAmong v (values.map fun w =>
        let (x, y) := Value.aligned kind none v w
        Value.compared c.encoding collation .eq x y)
    | .amongRows e q =>
      let row ← rowOf fuel s e
      let found ← select fuel s q
      let c ← read
      let es := items e
      let tests := found.rows.map fun r =>
        comparedAll .eq ((row.zip r).zipIdx.map fun ((v, w), i) =>
          let left := es.getD i e
          let right := (found.fields[i]?).bind Field.affinity
          let (x, y) := Value.aligned (left.affinity s Expr.mostLevels) right v w
          let collation := left.collation? s <|> (found.fields[i]?).bind Field.collation
          (x, y, c.compare (collation.getD .binary) x y))
      return isAmong (row.head?.getD .null) tests
    | .exists q => return .ofBool !(← select fuel s q).rows.isEmpty
    | .single q => return (((← select fuel s q).rows.head?).bind List.head?).getD .null
    | .tuple items => return (← items.mapM (eval fuel s)).head?.getD .null
    | .raise kind message =>
      let text ← match message with
        | some e => eval fuel s e
        | none => pure .null
      throw ⟨.broken 1811 (String.ofList (charsOf text.bytes)), kind⟩

def rowOf : Nat → Scope → Expr → Work (List Value)
  | 0, _, _ => Work.invalid "Expression tree is too large"
  | fuel + 1, s, e => do
    match e with
    | .tuple items => items.mapM (eval fuel s)
    | .single q =>
      let found ← select fuel s q
      return found.rows.head?.getD (found.fields.map fun _ => .null)
    | e => return [← eval fuel s e]

def compare : Nat → Scope → Binary → Expr → Expr → Work Value
  | 0, _, _, _, _ => Work.invalid "Expression tree is too large"
  | fuel + 1, s, op, a, b => do
    let xs ← rowOf fuel s a
    let ys ← rowOf fuel s b
    if xs.length ≠ ys.length then Work.invalid "row value misused"
    let c ← read
    let pairs := (xs.zip ys).zipIdx.map fun ((v, w), i) =>
      let left := (items a).getD i a
      let right := (items b).getD i b
      let (x, y) := Value.aligned (left.affinity s Expr.mostLevels)
        (right.affinity s Expr.mostLevels) v w
      (x, y, c.compare (Expr.commonCollation s left right) x y)
    return comparedAll op pairs

def choose : Nat → Scope → Option Expr → Option Expr → List (Expr × Expr) → Work Value
  | 0, _, _, _, _ => Work.invalid "Expression tree is too large"
  | fuel + 1, s, base, other, arms => do
    match arms with
    | [] => match other with
      | some e => eval fuel s e
      | none => return .null
    | (condition, e) :: rest =>
      let test ← match base with
        | some b => compare fuel s .eq b condition
        | none => eval fuel s condition
      if test.truth? = some true then eval fuel s e else choose fuel s base other rest

def firstValue : Nat → Scope → List Expr → Work Value
  | 0, _, _ => Work.invalid "Expression tree is too large"
  | _, _, [] => return .null
  | fuel + 1, s, e :: rest => do
    let v ← eval fuel s e
    if v.isNull then firstValue fuel s rest else return v

def call : Nat → Scope → String → Bool → List Expr → Option Expr → Work Value
  | 0, _, _, _, _, _ => Work.invalid "Expression tree is too large"
  | fuel + 1, s, f, isDistinct, arguments, filter => do
    let c ← read
    let collation := (arguments.findSome? (Expr.collation? s)).getD .binary
    let group := s.levels.head?.bind Level.group
    match if Function.isAggregate f arguments.length then group else none with
    | some rows =>
      let results ← rows.filterMapM fun tables => do
        let inner := { s with levels := (match s.levels with
          | l :: rest => { l with tables, group := none } :: rest
          | [] => []) }
        let isIn ← match filter with
          | some e => pure (decide ((← eval fuel inner e).truth? = some true))
          | none => pure true
        if isIn then return some (← arguments.mapM (eval fuel inner)) else return none
      let results := if isDistinct then distinct c results else results
      Work.ofExcept (Function.aggregate (c.less collation) f results)
    | none =>
      match f, arguments with
      | "coalesce", es | "ifnull", es => firstValue fuel s es
      | "iif", es | "if", es => conditional fuel s es
      | "changes", [] => return .integer (← get).changes
      | "total_changes", [] => return .integer (← get).totalChanges
      | "last_insert_rowid", [] => return .integer (← get).lastNumber
      | f, es =>
        let values ← es.mapM (eval fuel s)
        if ["unixepoch", "strftime", "julianday", "date", "time", "datetime"].contains f then
          return timeText c.now f values
        Work.ofExcept (Function.apply (c.less collation) f values)

def conditional : Nat → Scope → List Expr → Work Value
  | 0, _, _ => Work.invalid "Expression tree is too large"
  | _, _, [] => return .null
  | fuel + 1, s, [e] => eval fuel s e
  | fuel + 1, s, condition :: e :: rest => do
    if (← eval fuel s condition).truth? = some true then eval fuel s e
    else conditional fuel s rest

def select : Nat → Scope → Select → Work Relation
  | 0, _, _ => Work.invalid "Expression tree is too large"
  | fuel + 1, s, .mk commons first others order limit offset => do
    let s ← define fuel s (usedCommons (.mk commons first others order limit offset))
    let c ← read
    let start ← core fuel s first (if others.isEmpty then order else [])
    let rows ← others.foldlM (fun rows (op, next) => do
      return combine c op rows (← core fuel s next []).rows) start.rows
    let rows := if others.isEmpty then rows
      else
        let directions := order.map fun (.mk e isDescending nulls) =>
          (⟨(e.chosenCollation Expr.mostLevels).getD .binary, isDescending, nulls⟩ : Direction)
        let places := order.map (placeOf start.fields)
        sortBy c directions (fun r => places.map fun i => (r[i]?).getD .null) rows
    let count (e : Option Expr) (default : Int) : Work Int := do
      let some e := e | return default
      match (← eval fuel { s with levels := [] } e).prefer .integer with
      | .integer i => return i
      | _ => Work.fail .mismatch
    let skipped ← count offset 0
    let most ← count limit (-1)
    let rows := rows.drop skipped.toNat
    return ⟨start.fields, if most < 0 then rows else rows.take most.toNat⟩

/-- Adds queries with names to a scope. One that names itself goes on until it gives no more
rows. -/
def define : Nat → Scope → List Common → Work Scope
  | 0, _, _ => Work.invalid "Expression tree is too large"
  | _, s, [] => return s
  | fuel + 1, s, .mk name columns (.mk inner first others order limit offset) :: rest => do
    let named (r : Relation) : Work Relation := do return ⟨← renamed name columns r.fields, r.rows⟩
    let isOwn := others.any fun o => isRecursive name o.2
    let relation ← if !isOwn then do
        named (← select fuel s (.mk inner first others order limit offset))
      else do
        let own ← define fuel s inner
        let plain := others.filter fun o => !isRecursive name o.2
        let start ← named (← select fuel own (.mk [] first plain [] none none))
        let most ← match limit with
          | some e => pure (← eval fuel own e).toInt
          | none => pure (-1)
        let again := others.filter fun o => isRecursive name o.2
        let rows ← repeated fuel own name start.fields again most.toNat start.rows start.rows
        pure ⟨start.fields, if most < 0 then rows else rows.take most.toNat⟩
    define fuel { s with commons := (name, relation) :: s.commons } rest

/-- Goes on with a query that names itself, row by row; `most` is the number of rows that are
needed, if not zero. -/
def repeated : Nat → Scope → Name → List Field → List (Compound × Core) → Nat →
    List (List Value) → List (List Value) → Work (List (List Value))
  | 0, _, _, _, _, _, rows, _ => return rows
  | _, _, _, _, _, _, rows, [] => return rows
  | fuel + 1, s, name, fields, cores, most, rows, row :: queue => do
    if 0 < most ∧ most ≤ rows.length then return rows
    let c ← read
    let inner := { s with commons := (name, ⟨fields, [row]⟩) :: s.commons }
    let more ← cores.mapM fun (op, next) => do return (op, (← core fuel inner next []).rows)
    let fresh := more.flatMap fun (op, found) =>
      if op = .unionAll then found
      else found.filter fun r => !rows.any fun x => compareRows c [] x r = .eq
    repeated fuel s name fields cores most (rows ++ fresh) (queue ++ fresh)

def core : Nat → Scope → Core → List OrderTerm → Work Relation
  | 0, _, _, _ => Work.invalid "Expression tree is too large"
  | fuel + 1, s, .values rows, order => do
    let c ← read
    let values ← rows.mapM fun row => row.mapM (eval fuel s)
    let width := (rows.head?.map List.length).getD 0
    let fields := (List.range width).map fun i => (⟨s!"column{i + 1}", none, none⟩ : Field)
    let directions := order.map fun (.mk _ isDescending nulls) =>
      (⟨.binary, isDescending, nulls⟩ : Direction)
    let places := order.map (placeOf fields)
    return ⟨fields, sortBy c directions (fun r => places.map fun i => (r[i]?).getD .null) values⟩
  | fuel + 1, s, .select isDistinct columns tables condition groups having, order => do
    let c ← read
    let used := columns.mapM fun
      | .expr e _ _ => some e
      | _ => none
    let wanted := used.map (· ++ condition.toList ++ groups ++ having.toList ++
      order.map fun (.mk e _ _) => e)
    let (shape, all) ← joined fuel s tables condition wanted
    let outs ← Work.ofExcept (outputs shape columns)
    let names := aliases outs
    let rows ← match condition with
      | none => pure all
      | some e => all.filterM fun r => do
        return (← eval fuel (s.push ⟨r, names, none⟩) e).truth? = some true
    let terms := groups.map fun e => match counted? outs e with
      | some i => match outs[i]? with
        | some (.expr e _ _) => e
        | _ => e
      | none => e
    let isGrouped := !groups.isEmpty || having.isSome ||
      outs.any (fun | .expr e _ _ => e.isGrouping | _ => false) ||
      order.any fun (.mk e _ _) => e.isGrouping
    let levels ← if !isGrouped then pure (rows.map fun r => (⟨r, names, none⟩ : Level))
      else grouped fuel s names shape terms (!groups.isEmpty) outs rows
    let levels ← match having with
      | none => pure levels
      | some e => levels.filterM fun l => do return (← eval fuel (s.push l) e).truth? = some true
    let plain := s.push ⟨shape, names, none⟩
    let results ← levels.mapM fun l => do
      let inner := s.push { l with aliases := [] }
      let values ← outs.mapM fun
        | .expr e _ _ => eval fuel inner e
        | .cell t i => return ((l.tables[t]?).bind fun b => b.values[i]?).getD .null
      let keys ← order.mapM fun (.mk e _ _) => match outputOf? outs e with
        | some i => return (values[i]?).getD .null
        | none => eval fuel (s.push l) e
      return (values, keys)
    let directions := order.map fun (.mk e isDescending nulls) =>
      let collation := match outputOf? outs e with
        | some i => e.chosenCollation Expr.mostLevels <|>
          (outs[i]?).bind fun o => (field plain shape o).collation
        | none => e.collation? plain
      (⟨collation.getD .binary, isDescending, nulls⟩ : Direction)
    let results := if !isDistinct then results
      else results.foldl (fun kept r =>
        if kept.any fun k => compareRows c [] k.1 r.1 = .eq then kept else kept ++ [r]) []
    let sorted := sortBy c directions Prod.snd results
    return ⟨outs.map (field plain shape), sorted.map Prod.fst⟩

/-- Takes rows together that agree in some terms. What else is named is taken from the first row of
a group, or from the one that has its greatest or least value. -/
def grouped : Nat → Scope → List (Name × Expr) → List Bound → List Expr → Bool → List Output →
    List (List Bound) → Work (List Level)
  | 0, _, _, _, _, _, _, _ => Work.invalid "Expression tree is too large"
  | fuel + 1, s, names, shape, terms, hasTerms, outs, rows => do
    let c ← read
    let keyed ← rows.mapM fun r => do
      return (← terms.mapM (eval fuel (s.push ⟨r, names, none⟩)), r)
    let plain := s.push ⟨shape, names, none⟩
    let collations := terms.map fun e => (e.collation? plain).getD .binary
    let directions := collations.map fun x => (⟨x, false, none⟩ : Direction)
    let groups := if hasTerms then runs c collations (sortBy c directions Prod.fst keyed)
      else [rows]
    let extreme := outs.findSome? fun
      | .expr e _ _ => extremeIn? Expr.mostLevels e
      | _ => none
    groups.mapM fun group => do
      let chosen ← match extreme with
        | none => pure group.head?
        | some (isMost, e) =>
          let valued ← group.mapM fun r => do
            return (← eval fuel (s.push ⟨r, names, none⟩) e, r)
          let collation := (e.collation? plain).getD .binary
          let known := valued.filter fun x => !x.1.isNull
          let better (v w : Value) : Bool := if isMost then c.less collation w v
            else c.less collation v w
          pure (match known with
            | [] => group.head?
            | first :: rest =>
              some (rest.foldl (fun best x => if better x.1 best.1 then x else best) first).2)
      return ⟨chosen.getD (shape.map Bound.cleared), names, some group⟩

/-- The rows of the tables of a query, and these tables without rows. -/
def joined : Nat → Scope → List Join → Option Expr → Option (List Expr) →
    Work (List Bound × List (List Bound))
  | 0, _, _, _, _ => Work.invalid "Expression tree is too large"
  | fuel + 1, s, joins, condition, wanted => do
    let c ← read
    let isSingle := joins.length = 1
    let mut shape : List Bound := []
    let mut rows : List (List Bound) := [[]]
    for .mk kind src on shared in joins do
      let (right, found) ← source fuel s src (if isSingle then condition else none)
        (if isSingle then wanted else none)
      let names := sharedNames kind shared shape right
      let right := right.map (merge names)
      let found := found.map fun r => r.map (merge names)
      let pairs ← rows.mapM fun l => do
        let hits ← found.zipIdx.filterM fun (r, _) => do
          if !agree c names l r then return false
          match on with
          | none => return true
          | some e => return (← eval fuel (s.within (l ++ r)) e).truth? = some true
        return (l, hits)
      let kept := pairs.flatMap fun (l, hits) =>
        if hits.isEmpty && kind.keepsLeft then [l ++ right.map Bound.cleared]
        else hits.map fun (r, _) => l ++ r
      let taken := pairs.flatMap fun (_, hits) => hits.map Prod.snd
      let alone := if !kind.keepsRight then []
        else (found.zipIdx.filter fun (_, i) => !taken.contains i).map fun (r, _) =>
          shape.map Bound.cleared ++ r
      rows := kept ++ alone
      shape := shape ++ right
    return (shape, rows)

/-- The rows of a table of a query, and the table without rows. -/
def source : Nat → Scope → Source → Option Expr → Option (List Expr) →
    Work (List Bound × List (List Bound))
  | 0, _, _, _, _ => Work.invalid "Expression tree is too large"
  | fuel + 1, s, src, condition, wanted => do
    let relation (label : Name) (place : Option Name) (r : Relation) :
        List Bound × List (List Bound) :=
      let b := { boundOf label r.fields with place }
      ([b], r.rows.map fun values => [{ b with values }])
    match src with
    | .table r called _ =>
      let label := called.getD r.name
      match if r.place.isNone then s.commons.find? fun c => Name.same c.1 r.name else none with
      | some (_, found) => return relation label none found
      | none =>
        match ← findTable s r with
        | .table place t =>
          let b := t.bound place label
          let rows ← tableRows fuel place t
          let c ← read
          let rows := match path? t b condition wanted with
            | some i => inOrder c i rows
            | none => rows
          return ([b], rows.map fun (n, values) => [t.boundAt place label n values])
        | .view place v =>
          let found ← select fuel (s.ofView place v.name) v.query
          return relation label (some place) ⟨← renamed v.name v.columns found.fields, found.rows⟩
    | .function name _ _ => Work.invalid s!"no such table: {name}"
    | .query q called => return relation (called.getD "") none (← select fuel s q)
    | .group joins _ => joined fuel s joins none none

/-- The rows of a table with the columns that are computed each time. -/
def tableRows : Nat → Name → Table → Work (List (Int × List Value))
  | 0, _, _ => Work.invalid "Expression tree is too large"
  | fuel + 1, place, t => do
    let rows ← t.rows place
    if (List.range t.columns.length).any t.isVirtual then
      rows.mapM fun (n, values) => return (n, ← computed fuel place t false n values)
    else return rows

/-- The values of a row with those that are computed from others; `mayKeep` if those that are kept
are computed too. -/
def computed : Nat → Name → Table → Bool → Int → List Value → Work (List Value)
  | 0, _, _, _, _, _ => Work.invalid "Expression tree is too large"
  | fuel + 1, place, t, mayKeep, number, values => do
    let mut row := values
    for i in t.computedOrder do
      if let some c := t.columns[i]? then
        if let some (e, isStored) := c.computed then
          if mayKeep || !isStored then
            let s := Scope.empty.within [t.boundAt place t.name number row]
            row := row.set i ((← eval fuel s e).prefer c.affinity)
    return row

end

end Values

end Evaluation

end EntryCode.Database
