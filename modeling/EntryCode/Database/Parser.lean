import EntryCode.Database.Syntax
import EntryCode.Database.Token

/-!
Reading expressions and queries. Operators that bind more strongly are read first; `least` is the
strength from which on they belong to the expression that is being read.
-/

namespace EntryCode.Database

/-- What is left to be read, and the number of variables so far. -/
structure Input where
  tokens : List Lexeme
  parameters : Nat

abbrev Parser := StateT Input Option

namespace Parser

section Tokens

def peek : Parser (Option Token) :=
  return (← get).tokens.head?.map Lexeme.token

def peekSecond : Parser (Option Token) :=
  return (← get).tokens[1]?.map Lexeme.token

def next : Parser Lexeme := do
  match (← get).tokens with
  | [] => failure
  | t :: tokens =>
    modify fun i => { i with tokens }
    return t

def isWord (w : String) : Parser Bool :=
  return (← peek).any (Token.isWord w)

def tryWord (w : String) : Parser Bool := do
  if ← isWord w then
    let _ ← next
    return true
  else return false

def word (w : String) : Parser Unit := do
  if !(← tryWord w) then failure

def tryWords (ws : List String) : Parser Bool := do
  let tokens := (← get).tokens.take ws.length
  if tokens.length = ws.length ∧ (tokens.zip ws).all fun (t, w) => t.token.isWord w then
    modify fun i => { i with tokens := i.tokens.drop ws.length }
    return true
  else return false

def isMark (m : String) : Parser Bool :=
  return (← peek) = some (.mark m)

def tryMark (m : String) : Parser Bool := do
  if ← isMark m then
    let _ ← next
    return true
  else return false

def mark (m : String) : Parser Unit := do
  if !(← tryMark m) then failure

def name : Parser Name := do
  match (← next).token.name? with
  | some text => return String.ofList text
  | none => failure

/-- A name with that of the database it is in, if that is given. -/
def reference : Parser Reference := do
  let first ← name
  if ← tryMark "." then return ⟨some first, ← name⟩ else return ⟨none, first⟩

def commasFrom {α : Type} (p : Parser α) : Nat → Parser (List α)
  | 0 => failure
  | n + 1 => do
    let a ← p
    if ← tryMark "," then return a :: (← commasFrom p n) else return [a]

def commas {α : Type} (p : Parser α) : Parser (List α) := do
  commasFrom p ((← get).tokens.length + 1)

def inBrackets {α : Type} (p : Parser α) : Parser α := do
  mark "("
  let a ← p
  mark ")"
  return a

def names : Parser (List Name) :=
  inBrackets (commas name)

def afterWord? {α : Type} (w : String) (p : Parser α) : Parser (Option α) := do
  if ← tryWord w then return some (← p) else return none

/-- Words that do not stand for another name without the word `as`. -/
def notAliases : List String :=
  ["cross", "full", "inner", "left", "natural", "outer", "right", "indexed", "window"]

def alias? : Parser (Option Name) := do
  if ← tryWord "as" then return some (← name)
  match ← peek with
  | some (.word text) =>
    if Token.isReserved text || notAliases.contains (String.ofList (Token.lower text)) then
      return none
    else return some (← name)
  | some (.name _ _) | some (.string _) => return some (← name)
  | _ => return none

def indexHint : Parser (Option Name) := do
  if ← tryWords ["indexed", "by"] then return some (← name)
  let _ ← tryWords ["not", "indexed"]
  return none

def typeWords : Nat → Parser (List (List Char))
  | 0 => return []
  | n + 1 => do
    match ← peek with
    | some (.word text) =>
      if Token.isReserved text || ["generated", "always"].contains (String.ofList (Token.lower text))
      then return []
      else
        let _ ← next
        return text :: (← typeWords n)
    | some (.name _ text) | some (.string text) =>
      let _ ← next
      return text :: (← typeWords n)
    | _ => return []

def signedNumber : Parser Unit := do
  if !(← tryMark "-") then
    let _ ← tryMark "+"
  match (← next).token with
  | .number _ => return
  | _ => failure

/-- A type, which may be missing. -/
def typeName : Parser (List Char) := do
  let words ← typeWords (← get).tokens.length
  if words ≠ [] ∧ (← isMark "(") then
    mark "("
    signedNumber
    if ← tryMark "," then signedNumber
    mark ")"
  return (" ".toList).intercalate words

end Tokens

section Literals

def numberValue? (text : List Char) : Option Value :=
  match text with
  | '0' :: x :: digits =>
    if x = 'x' ∨ x = 'X' then do
      let n ← Text.natural? ('0' :: 'x' :: digits)
      if 0x10000000000000000 ≤ n then none
      some (.integer (signed64 n))
    else decimal text
  | _ => decimal text
where
  decimal (text : List Char) : Option Value := (Numeral.scan? text).map Numeral.toValue
  signed64 (n : Nat) : Int := (BitVec.ofNat 64 n).toInt

/-- The smallest number, which is written as the negation of one that is out of range. -/
def negated : Expr → Expr
  | .literal (.real b) =>
    if b = 0x43e0000000000000 then .literal (.integer (-0x8000000000000000))
    else .unary .negate (.literal (.real b))
  | e => .unary .negate e

end Literals

section Operators

def operator? : Token → Option (Nat × Binary)
  | .mark m => [("=", (4, .eq)), ("==", (4, .eq)), ("<>", (4, .ne)), ("!=", (4, .ne)),
      ("<", (5, .lt)), ("<=", (5, .le)), (">", (5, .gt)), (">=", (5, .ge)), ("&", (7, .bitAnd)),
      ("|", (7, .bitOr)), ("<<", (7, .shiftLeft)), (">>", (7, .shiftRight)), ("+", (8, .add)),
      ("-", (8, .subtract)), ("*", (9, .multiply)), ("/", (9, .divide)), ("%", (9, .remainder)),
      ("||", (10, .concat)), ("->", (10, .extract)), ("->>", (10, .extract))].lookup m
  | .word text => [("or", (1, .or)), ("and", (2, .and))].lookup (String.ofList (Token.lower text))
  | _ => none

def matching : List String :=
  ["like", "glob", "match", "regexp"]

def notIf (isNegated : Bool) (e : Expr) : Expr :=
  if isNegated then .unary .not e else e

end Operators

def compound? : Parser (Option Compound) := do
  if ← tryWords ["union", "all"] then return some .unionAll
  if ← tryWord "union" then return some .union
  if ← tryWord "except" then return some .except
  if ← tryWord "intersect" then return some .intersect
  return none

/-- What stands between two tables; none where no table follows. -/
def joinKind? : Parser (Option JoinKind) := do
  if ← tryMark "," then return some ⟨false, false, false⟩
  let isNatural ← tryWord "natural"
  let left ← tryWord "left"
  let right ← if left then pure false else tryWord "right"
  let full ← if left || right then pure false else tryWord "full"
  let hasSide := left || right || full
  if hasSide then
    let _ ← tryWord "outer"
  else if !(← tryWord "inner") then
    let _ ← tryWord "cross"
  if ← tryWord "join" then return some ⟨isNatural, left || full, right || full⟩
  if isNatural || hasSide then failure
  return none

mutual

def expr : Nat → Nat → Parser Expr
  | 0, _ => failure
  | fuel + 1, least => do
    let first ← operand fuel
    more fuel fuel least first

def more : Nat → Nat → Nat → Expr → Parser Expr
  | 0, _, _, _ => failure
  | _, 0, _, e => return e
  | fuel + 1, left + 1, least, e => do
    match ← peek with
    | none => return e
    | some t =>
      if let some (strength, op) := operator? t then
        if strength < least then return e
        let _ ← next
        let b ← expr fuel (strength + 1)
        more fuel left least (.binary op e b)
      else if t.isWord "collate" then
        let _ ← next
        more fuel left least (.collate e (← name))
      else if 4 < least then return e
      else if t.isWord "isnull" then
        let _ ← next
        more fuel left least (.isNull e)
      else if t.isWord "notnull" then
        let _ ← next
        more fuel left least (.unary .not (.isNull e))
      else if t.isWord "is" then
        let _ ← next
        let isNegated ← tryWord "not"
        let isDistinct ← tryWords ["distinct", "from"]
        let b ← expr fuel 5
        more fuel left least (.binary (if isNegated = isDistinct then .is else .isNot) e b)
      else
        let isNegated ← tryWord "not"
        match ← test? fuel e with
        | some tested => more fuel left least (notIf isNegated tested)
        | none =>
          if !isNegated then return e
          word "null"
          more fuel left least (.unary .not (.isNull e))

def test? : Nat → Expr → Parser (Option Expr)
  | 0, _ => failure
  | fuel + 1, e => do
    if ← tryWord "between" then
      let low ← expr fuel 4
      word "and"
      return some (.between e low (← expr fuel 5))
    if ← tryWord "in" then
      if ← tryMark "(" then
        if ← tryMark ")" then return some (.literal (.integer 0))
        if (← isWord "select") || (← isWord "values") || (← isWord "with") then
          let s ← select fuel
          mark ")"
          return some (.amongRows e s)
        let items ← commas (expr fuel 0)
        mark ")"
        return some (.among e items)
      let r ← reference
      return some (.amongRows e (.mk [] (.select false [.all]
        [.mk ⟨false, false, false⟩ (.table r none none) none []] none [] none) [] [] none none))
    match ← peek with
    | some (.word text) =>
      let f := String.ofList (Token.lower text)
      if matching.contains f then
        let _ ← next
        let pattern ← expr fuel 5
        let escape ← afterWord? "escape" (expr fuel 7)
        return some (.call f false false ([pattern, e] ++ escape.toList) none false)
      else return none
    | _ => return none

def operand : Nat → Parser Expr
  | 0 => failure
  | fuel + 1 => do
    if ← tryWord "not" then
      if ← isWord "exists" then return .unary .not (← operand fuel)
      return .unary .not (← expr fuel 3)
    if ← tryMark "-" then return negated (← expr fuel 12)
    if ← tryMark "+" then return .unary .plus (← expr fuel 12)
    if ← tryMark "~" then return .unary .complement (← expr fuel 12)
    if ← isMark "(" then
      mark "("
      if (← isWord "select") || (← isWord "values") || (← isWord "with") then
        let s ← select fuel
        mark ")"
        return .single s
      let items ← commas (expr fuel 0)
      mark ")"
      match items with
      | [e] => return e
      | items => return .tuple items
    if ← tryWord "exists" then return .exists (← inBrackets (select fuel))
    if ← tryWord "null" then return .literal .null
    if ← tryWord "case" then
      let base ← if ← isWord "when" then pure none else pure (some (← expr fuel 0))
      let arms ← whens fuel fuel
      let other ← afterWord? "else" (expr fuel 0)
      word "end"
      return .case base arms other
    if (← isWord "cast") && (← peekSecond) = some (.mark "(") then
      word "cast"
      mark "("
      let e ← expr fuel 0
      word "as"
      let type ← typeName
      mark ")"
      return .cast e type
    if (← isWord "raise") && (← peekSecond) = some (.mark "(") then
      word "raise"
      mark "("
      if ← tryWord "ignore" then
        mark ")"
        return .raise .ignore none
      let kind ← if ← tryWord "rollback" then pure Conflict.rollback
        else if ← tryWord "abort" then pure .abort
        else do
          word "fail"
          pure .fail
      mark ","
      let message ← expr fuel 0
      mark ")"
      return .raise kind (some message)
    match (← get).tokens with
    | ⟨.number text, _, _⟩ :: _ | ⟨.grouped text, _, _⟩ :: _ =>
      let _ ← next
      match numberValue? (text.filter (· ≠ '_')) with
      | some v => return .literal v
      | none => failure
    | ⟨.string text, _, _⟩ :: ⟨t, _, _⟩ :: _ =>
      if t = .mark "." then path fuel
      else
        let _ ← next
        return .literal (.text (bytesOf text))
    | [⟨.string text, _, _⟩] =>
      let _ ← next
      return .literal (.text (bytesOf text))
    | ⟨.blob b, _, _⟩ :: _ =>
      let _ ← next
      return .literal (.blob b)
    | ⟨.variable text, _, _⟩ :: _ =>
      let _ ← next
      modify fun i => { i with parameters := i.parameters + 1 }
      match Text.natural? text with
      | some n => return .variable n
      | none => return .variable (← get).parameters
    | ⟨.word _, _, _⟩ :: ⟨.mark "(", _, _⟩ :: _ | ⟨.name _ _, _, _⟩ :: ⟨.mark "(", _, _⟩ :: _ =>
      function fuel
    | _ => path fuel

/-- A column, perhaps with its table and database. -/
def path : Nat → Parser Expr
  | 0 => failure
  | _ + 1 => do
    let mayBeText := match ← peek with
      | some (.name '"' _) => true
      | _ => false
    let a ← name
    if !(← tryMark ".") then return .column [a] mayBeText
    let b ← name
    if !(← tryMark ".") then return .column [a, b] false
    return .column [a, b, ← name] false

def whens : Nat → Nat → Parser (List (Expr × Expr))
  | 0, _ => failure
  | _, 0 => failure
  | fuel + 1, left + 1 => do
    word "when"
    let condition ← expr fuel 0
    word "then"
    let arm := (condition, ← expr fuel 0)
    if ← isWord "when" then return arm :: (← whens fuel left) else return [arm]

def function : Nat → Parser Expr
  | 0 => failure
  | fuel + 1 => do
    let f ← name
    mark "("
    let isStar ← tryMark "*"
    let isDistinct ← tryWord "distinct"
    let _ ← tryWord "all"
    let hasNone := isStar || (← isMark ")")
    let arguments ← if hasNone then pure [] else commas (expr fuel 0)
    if ← tryWords ["order", "by"] then
      let _ ← commas (orderTerm fuel)
    mark ")"
    let filter ← if (← isWord "filter") && (← peekSecond) = some (.mark "(") then do
        word "filter"
        mark "("
        word "where"
        let e ← expr fuel 0
        mark ")"
        pure (some e)
      else pure none
    let isWindow ← isWord "over"
    if isWindow then
      word "over"
      if ← isMark "(" then window fuel
      else
        let _ ← name
    return .call f isDistinct isStar arguments filter isWindow

/-- The rows that a function looks at. Their order and bounds are read and left aside. -/
def window : Nat → Parser Unit
  | 0 => failure
  | fuel + 1 => do
    mark "("
    if ← tryWords ["partition", "by"] then
      let _ ← commas (expr fuel 0)
    if ← tryWords ["order", "by"] then
      let _ ← commas (orderTerm fuel)
    if (← isWord "rows") || (← isWord "range") || (← isWord "groups") then
      let depth := (← get).tokens.takeWhile fun t => t.token ≠ .mark ")"
      modify fun i => { i with tokens := i.tokens.drop depth.length }
    mark ")"

def orderTerm : Nat → Parser OrderTerm
  | 0 => failure
  | fuel + 1 => do
    let e ← expr fuel 0
    let isDescending ← if ← tryWord "asc" then pure false else tryWord "desc"
    let nullsFirst ← if ← tryWords ["nulls", "first"] then pure (some true)
      else if ← tryWords ["nulls", "last"] then pure (some false)
      else pure none
    return .mk e isDescending nullsFirst

def resultColumn : Nat → Parser ResultColumn
  | 0 => failure
  | fuel + 1 => do
    if ← tryMark "*" then return .all
    match (← get).tokens with
    | first :: ⟨.mark ".", _, _⟩ :: ⟨.mark "*", _, _⟩ :: rest =>
      match first.token.name? with
      | some n =>
        modify fun i => { i with tokens := rest }
        return .allOf (String.ofList n)
      | none => failure
    | tokens =>
      let start := (tokens.head?.map Lexeme.start).getD []
      let e ← expr fuel 0
      let used := tokens.take (tokens.length - (← get).tokens.length)
      let stop := (used.getLast?.map Lexeme.rest).getD []
      return .expr e (← alias?) (start.take (start.length - stop.length))

/-- A table of a query, with how it is joined to those before it. -/
def source : Nat → JoinKind → Parser Join
  | 0, _ => failure
  | fuel + 1, kind => do
    let s ← if ← isMark "(" then do
        mark "("
        if (← isWord "select") || (← isWord "values") || (← isWord "with") then
          let s ← select fuel
          mark ")"
          pure (Source.query s (← alias?))
        else
          let joins ← sources fuel fuel ⟨false, false, false⟩
          mark ")"
          pure (Source.group joins (← alias?))
      else do
        let r ← reference
        if ← tryMark "(" then
          let arguments ← if ← isMark ")" then pure [] else commas (expr fuel 0)
          mark ")"
          pure (Source.function r.name arguments (← alias?))
        else
          let a ← alias?
          pure (Source.table r a (← indexHint))
    let on ← afterWord? "on" (expr fuel 0)
    let shared ← afterWord? "using" names
    return .mk kind s on (shared.getD [])

def sources : Nat → Nat → JoinKind → Parser (List Join)
  | 0, _, _ => failure
  | _, 0, _ => failure
  | fuel + 1, left + 1, kind => do
    let first ← source fuel kind
    match ← joinKind? with
    | some kind => return first :: (← sources fuel left kind)
    | none => return [first]

def core : Nat → Parser Core
  | 0 => failure
  | fuel + 1 => do
    if ← tryWord "values" then
      return .values (← commas (inBrackets (commas (expr fuel 0))))
    word "select"
    let isDistinct ← tryWord "distinct"
    let _ ← if isDistinct then pure false else tryWord "all"
    let columns ← commas (resultColumn fuel)
    let tables ← if ← tryWord "from" then sources fuel fuel ⟨false, false, false⟩ else pure []
    let condition ← afterWord? "where" (expr fuel 0)
    let groups ← if ← tryWords ["group", "by"] then commas (expr fuel 0) else pure []
    let having ← afterWord? "having" (expr fuel 0)
    if ← tryWord "window" then
      let _ ← commas do
        let _ ← name
        word "as"
        window fuel
    return .select isDistinct columns tables condition groups having

def compounds : Nat → Nat → Parser (List (Compound × Core))
  | 0, _ => failure
  | _, 0 => failure
  | fuel + 1, left + 1 => do
    match ← compound? with
    | some c => return (c, ← core fuel) :: (← compounds fuel left)
    | none => return []

def commons : Nat → Parser (List Common)
  | 0 => failure
  | fuel + 1 => do
    if !(← tryWord "with") then return []
    let _ ← tryWord "recursive"
    commas do
      let n ← name
      let columns ← if ← isMark "(" then names else pure []
      word "as"
      if !(← tryWord "materialized") then
        let _ ← tryWords ["not", "materialized"]
      return .mk n columns (← inBrackets (select fuel))

def select : Nat → Parser Select
  | 0 => failure
  | fuel + 1 => do
    let commons ← commons fuel
    let first ← core fuel
    let others ← compounds fuel fuel
    if let .values _ := (others.getLast?.map Prod.snd).getD first then
      return .mk commons first others [] none none
    let order ← if ← tryWords ["order", "by"] then commas (orderTerm fuel) else pure []
    let limit ← afterWord? "limit" (expr fuel 0)
    if limit.isNone then return .mk commons first others order none none
    if ← tryMark "," then return .mk commons first others order (some (← expr fuel 0)) limit
    let offset ← afterWord? "offset" (expr fuel 0)
    return .mk commons first others order limit offset

end

def fuel : Parser Nat :=
  return 8 * (← get).tokens.length + 32

def expression : Parser Expr := do
  expr (← fuel) 0

def query : Parser Select := do
  select (← fuel)

end Parser

end EntryCode.Database
