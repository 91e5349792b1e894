import EntryCode.Database.Statement

/-!
The tables that a query mentions anywhere in it. Each level of a query takes a unit of `fuel`.
-/

namespace EntryCode.Database.Mention

mutual

def ofExpr : Nat → Expr → List Reference
  | 0, _ => []
  | fuel + 1, e =>
    let all (es : List Expr) := es.flatMap (ofExpr fuel)
    match e with
    | .literal _ | .column _ _ | .variable _ => []
    | .unary _ e | .isNull e | .collate e _ | .cast e _ => ofExpr fuel e
    | .binary _ a b => all [a, b]
    | .between e low high => all [e, low, high]
    | .call _ _ _ arguments filter _ => all (arguments ++ filter.toList)
    | .case base arms other =>
      all (base.toList ++ arms.flatMap (fun (a, b) => [a, b]) ++ other.toList)
    | .among e items => all (e :: items)
    | .amongRows e q => ofExpr fuel e ++ ofSelect fuel q
    | .exists q | .single q => ofSelect fuel q
    | .tuple items => all items
    | .raise _ message => all message.toList

def ofSelect : Nat → Select → List Reference
  | 0, _ => []
  | fuel + 1, .mk commons first others order limit offset =>
    let terms := order.map fun | .mk e _ _ => e
    commons.flatMap (fun | .mk _ _ q => ofSelect fuel q) ++
      (first :: others.map Prod.snd).flatMap (ofCore fuel) ++
      (terms ++ limit.toList ++ offset.toList).flatMap (ofExpr fuel)

def ofCore : Nat → Core → List Reference
  | 0, _ => []
  | fuel + 1, .values rows => rows.flatten.flatMap (ofExpr fuel)
  | fuel + 1, .select _ columns tables condition groups having =>
    columns.flatMap (ofColumn fuel) ++ tables.flatMap (ofJoin fuel) ++
      (condition.toList ++ groups ++ having.toList).flatMap (ofExpr fuel)

def ofColumn : Nat → ResultColumn → List Reference
  | fuel + 1, .expr e _ _ => ofExpr fuel e
  | _, _ => []

def ofJoin : Nat → Join → List Reference
  | 0, _ => []
  | fuel + 1, .mk _ source on _ =>
    on.toList.flatMap (ofExpr fuel) ++ match source with
      | .table r _ _ => [r]
      | .function _ arguments _ => arguments.flatMap (ofExpr fuel)
      | .query q _ => ofSelect fuel q
      | .group joins _ => joins.flatMap (ofJoin fuel)

end

/-- More levels than a query has. -/
def mostLevels : Nat := 5000

/-- The tables that a statement on rows mentions, apart from the one that it changes and from its
queries with names. -/
def ofStatement : Statement → List Reference
  | .select q => ofSelect mostLevels q
  | .insert _ _ _ _ rows upserts returning =>
    (match rows with
      | .defaults => []
      | .query q => ofSelect mostLevels q) ++
    upserts.flatMap (fun u =>
      ((u.sets.getD []).map Prod.snd ++ u.condition.toList).flatMap (ofExpr mostLevels)) ++
    returning.flatMap (ofColumn mostLevels)
  | .update _ _ _ sets tables condition returning =>
    (sets.map Prod.snd ++ condition.toList).flatMap (ofExpr mostLevels) ++
      tables.flatMap (ofJoin mostLevels) ++ returning.flatMap (ofColumn mostLevels)
  | .delete _ _ condition returning =>
    condition.toList.flatMap (ofExpr mostLevels) ++ returning.flatMap (ofColumn mostLevels)
  | _ => []

/-- The queries with names that are used, given the tables that are mentioned. A query may use those
before it. -/
def used (commons : List Common) (mentioned : List Reference) : List Common :=
  let add : Common → List Common × List Reference → List Common × List Reference
    | .mk n columns q, (kept, mentioned) =>
      if mentioned.any fun r => r.place.isNone && Name.same r.name n then
        (.mk n columns q :: kept, ofSelect mostLevels q ++ mentioned)
      else (kept, mentioned)
  (commons.foldr add ([], mentioned)).1

end EntryCode.Database.Mention
