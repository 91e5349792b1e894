import EntryCode.Database.Parser
import EntryCode.Database.Statement

/-!
Reading statements. The text of a definition is kept from the name on, since it becomes part of the
database.
-/

namespace EntryCode.Database.Parser

section Texts

/-- What a part is read as, with the text that it was read from. -/
def spanned {α : Type} (p : Parser α) : Parser (α × List Char) := do
  let before := (← get).tokens
  let a ← p
  let used := before.take (before.length - (← get).tokens.length)
  let start := (before.head?.map Lexeme.start).getD []
  let stop := (used.getLast?.map Lexeme.rest).getD []
  return (a, start.take (start.length - stop.length))

/-- What a part is read as, with the text up to the next token. -/
def spannedToNext {α : Type} (p : Parser α) : Parser (α × List Char) := do
  let start := ((← get).tokens.head?.map Lexeme.start).getD []
  let a ← p
  let stop := ((← get).tokens.head?.map Lexeme.start).getD []
  return (a, start.take (start.length - stop.length))

end Texts

section Parts

def conflict : Parser Conflict := do
  if ← tryWord "rollback" then return .rollback
  if ← tryWord "abort" then return .abort
  if ← tryWord "fail" then return .fail
  if ← tryWord "ignore" then return .ignore
  word "replace"
  return .replace

def onConflict : Parser Conflict := do
  if ← tryWords ["on", "conflict"] then conflict else return .abort

def keyTerm : Parser KeyTerm := do
  let .mk e isDescending nulls ← orderTerm (← fuel)
  if nulls.isSome then failure
  return ⟨e, isDescending⟩

def key : Parser (List KeyTerm) :=
  commas keyTerm

/-- Columns that are set together, and to what. A list of columns takes as many values. -/
def assignment : Parser (List Name × Expr) := do
  let columns? ← if ← isMark "(" then some <$> names else pure none
  match columns? with
  | none =>
    let n ← name
    mark "="
    return ([n], ← expression)
  | some columns =>
    mark "="
    let e ← expression
    let fits := match e with
      | .tuple items => decide (items.length = columns.length)
      | .single _ => true
      | _ => decide (columns.length = 1)
    if !fits then failure
    return (columns, e)

def returning : Parser (List ResultColumn) := do
  if ← tryWord "returning" then commas (resultColumn (← fuel)) else return []

def target : Parser Target := do
  let r ← reference
  let a ← afterWord? "as" name
  return ⟨r, a, ← indexHint⟩

end Parts

section Rows

def upserts : Nat → Parser (List Upsert)
  | 0 => failure
  | n + 1 => do
    if !(← tryWords ["on", "conflict"]) then return []
    let terms ← if ← isMark "(" then inBrackets key else pure []
    if terms ≠ [] then
      let _ ← afterWord? "where" expression
    word "do"
    let u ← if ← tryWord "nothing" then pure (⟨terms, none, none⟩ : Upsert)
      else do
        word "update"
        word "set"
        let sets ← commas assignment
        pure ⟨terms, some sets, ← afterWord? "where" expression⟩
    return u :: (← upserts n)

def insertion (commons : List Common) (c : Option Conflict) : Parser Statement := do
  word "into"
  let t : Target := ⟨← reference, ← afterWord? "as" name, none⟩
  let columns ← if ← isMark "(" then names else pure []
  if ← tryWords ["default", "values"] then
    return .insert commons c t columns .defaults [] (← returning)
  let rows ← query
  let us ← upserts (← get).tokens.length.succ
  return .insert commons c t columns (.query rows) us (← returning)

def changing (commons : List Common) : Parser Statement := do
  let c ← afterWord? "or" conflict
  let t ← target
  word "set"
  let sets ← commas assignment
  let f ← fuel
  let tables ← if ← tryWord "from" then sources f f ⟨false, false, false⟩ else pure []
  let condition ← afterWord? "where" expression
  return .update commons c t sets tables condition (← returning)

def removal (commons : List Common) : Parser Statement := do
  word "from"
  let t ← target
  let condition ← afterWord? "where" expression
  return .delete commons t condition (← returning)

def onRows : Parser Statement := do
  let before ← get
  let commons ← commons (← fuel)
  if ← tryWord "insert" then insertion commons (← afterWord? "or" conflict)
  else if ← tryWord "replace" then insertion commons (some .replace)
  else if ← tryWord "update" then changing commons
  else if ← tryWord "delete" then removal commons
  else
    set before
    return .select (← query)

end Rows

section Tables

/-- A check, with its name or else its text. -/
def checkOf (label : Option Name) : Parser (Expr × String) := do
  mark "("
  let (e, text) ← spanned expression
  mark ")"
  return (e, label.getD (String.ofList text))

def defaultValue : Expr → Expr
  | .column [n] _ =>
    match Name.key n with
    | "true" => .literal (.integer 1)
    | "false" => .literal (.integer 0)
    | "current_time" | "current_date" | "current_timestamp" => .column [n] false
    | _ => .literal (.text (bytesOf n.toList))
  | e => e

def foreignAction : Parser ForeignAction := do
  if ← tryWords ["set", "null"] then return .setNull
  if ← tryWords ["set", "default"] then return .setDefault
  if ← tryWord "cascade" then return .cascade
  if ← tryWord "restrict" then return .restrict
  word "no"
  word "action"
  return .none

def foreignRules : Nat → ForeignKey → Parser ForeignKey
  | 0, _ => failure
  | n + 1, k => do
    if ← tryWord "match" then
      let _ ← name
      foreignRules n k
    else if ← tryWords ["on", "delete"] then
      foreignRules n { k with onDelete := ← foreignAction }
    else if ← tryWords ["on", "update"] then
      foreignRules n { k with onUpdate := ← foreignAction }
    else if ← tryWords ["on", "insert"] then
      let _ ← foreignAction
      foreignRules n k
    else
      let isNever ← tryWords ["not", "deferrable"]
      let isDeferrable ← if isNever then pure true else tryWord "deferrable"
      if !isDeferrable then return k
      let isLate ← if ← tryWord "initially" then do
          let isLate ← tryWord "deferred"
          if !isLate then word "immediate"
          pure isLate
        else pure false
      foreignRules n { k with isDeferred := isLate && !isNever }

def foreignKey (columns : List Name) : Parser ForeignKey := do
  let table ← name
  let targets ← if ← isMark "(" then names else pure []
  foreignRules (← get).tokens.length.succ ⟨columns, table, targets, .none, .none, false⟩

/-- The rules for the column `own`. -/
def columnRules (own : Name) : Nat → Option Name → Parser (List ColumnRule)
  | 0, _ => failure
  | n + 1, label => do
    let rest (r : ColumnRule) : Parser (List ColumnRule) := do
      return r :: (← columnRules own n none)
    if ← tryWord "constraint" then columnRules own n (some (← name))
    else if ← tryWord "default" then
      if ← isMark "(" then rest (.default (← inBrackets expression))
      else rest (.default (defaultValue (← expr (← fuel) 12)))
    else if ← tryWord "null" then
      let _ ← onConflict
      columnRules own n none
    else if ← tryWords ["not", "null"] then rest (.notNull (← onConflict))
    else if ← tryWords ["primary", "key"] then
      let isDescending ← if ← tryWord "asc" then pure false else tryWord "desc"
      let c ← onConflict
      rest (.primaryKey isDescending c (← tryWord "autoincrement"))
    else if ← tryWord "unique" then rest (.unique (← onConflict))
    else if ← tryWord "check" then
      let (e, text) ← checkOf label
      rest (.check e text)
    else if ← tryWord "references" then
      rest (.references (← foreignKey [own]))
    else if ← tryWord "collate" then rest (.collate (← name))
    else if (← tryWords ["generated", "always", "as"]) || (← tryWord "as") then
      let e ← inBrackets expression
      let isStored ← tryWord "stored"
      let _ ← if isStored then pure false else tryWord "virtual"
      rest (.computed e isStored)
    else return []

def column : Parser ColumnSpec := do
  let text := ((← get).tokens.head?.map Lexeme.start).getD []
  let n ← name
  let type ← typeName
  return ⟨n, type, ← columnRules n (← get).tokens.length.succ none, text⟩

def tableRules : Nat → Option Name → Parser (List TableRule)
  | 0, _ => failure
  | n + 1, label => do
    let rest (r : TableRule) : Parser (List TableRule) := do
      let _ ← tryMark ","
      return r :: (← tableRules n none)
    if ← tryWord "constraint" then
      let label ← name
      let _ ← tryMark ","
      tableRules n (some label)
    else if ← tryWords ["primary", "key"] then
      mark "("
      let terms ← key
      let counts ← tryWord "autoincrement"
      mark ")"
      rest (.primaryKey terms (← onConflict) counts)
    else if ← tryWord "unique" then
      let terms ← inBrackets key
      rest (.unique terms (← onConflict))
    else if ← tryWord "check" then
      let (e, text) ← checkOf label
      let _ ← onConflict
      rest (.check e text)
    else if ← tryWords ["foreign", "key"] then
      let columns ← names
      word "references"
      rest (.foreignKey (← foreignKey columns))
    else return []

/-- The columns of a table, up to the first rule for the whole table. -/
def columns : Nat → Parser (List ColumnSpec)
  | 0 => failure
  | n + 1 => do
    let c ← column
    match (← get).tokens with
    | ⟨.mark ",", _, _⟩ :: ⟨t, _, _⟩ :: _ =>
      if ["constraint", "primary", "unique", "check", "foreign"].any t.isWord then return [c]
      mark ","
      return c :: (← columns n)
    | _ => return [c]

/-- The words behind the columns of a table: whether rows have numbers, and types are strict. -/
def tableOptions : Nat → Bool × Bool → Parser (Bool × Bool)
  | 0, _ => failure
  | n + 1, (hasNumbers, isStrict) => do
    let o ← if ← tryWords ["without", "rowid"] then pure (false, isStrict)
      else do
        word "strict"
        pure (hasNumbers, true)
    if ← tryMark "," then tableOptions n o else return o

end Tables

section Definitions

/-- A definition: its head, the text up to the next token, and what it defines. The text that the
head keeps ends with the last token. -/
structure Definition (α : Type) where
  heading : Heading
  textToNext : List Char
  body : α

/-- Reads a definition. The body is read with the text from the name on. -/
def define {α : Type} (isTemporary : Bool) (body : List Char → Parser α) :
    Parser (Definition α) := do
  let mayExist ← tryWords ["if", "not", "exists"]
  let place ← if (← peekSecond) = some (.mark ".") then do
      let p ← name
      mark "."
      pure (some p)
    else pure none
  let start := ((← get).tokens.head?.map Lexeme.start).getD []
  let (((n, a), text), textToNext) ← spannedToNext (spanned do
    let n ← name
    return (n, ← body start))
  return ⟨⟨isTemporary, mayExist, ⟨place, n⟩, text⟩, textToNext, a⟩

def tableSpec (start : List Char) : Parser TableSpec := do
  mark "("
  let cs ← columns (← get).tokens.length
  let stop := ((← get).tokens.head?.map Lexeme.start).getD []
  let hasRules ← tryMark ","
  let rules ← if hasRules then tableRules (← get).tokens.length.succ none else pure []
  if hasRules && rules.isEmpty then failure
  mark ")"
  let hasOptions := (← isWord "without") || (← isWord "strict")
  let (hasNumbers, isStrict) ← if hasOptions then
      tableOptions (← get).tokens.length (true, false)
    else pure (true, false)
  return ⟨cs, rules, hasNumbers, isStrict, start.take (start.length - stop.length)⟩

def createTable (isTemporary : Bool) : Parser Statement := do
  let d ← define isTemporary fun start => do
    if ← tryWord "as" then return Sum.inl (← query) else return Sum.inr (← tableSpec start)
  match d.body with
  | .inl s => return .createTableAs d.heading s
  | .inr t =>
    let text := if t.hasNumbers && !t.isStrict then d.heading.text else d.textToNext
    return .createTable { d.heading with text } t

def createIndex (isUnique : Bool) : Parser Statement := do
  let d ← define false fun _ => do
    word "on"
    let table ← name
    let terms ← inBrackets key
    return (table, terms, ← afterWord? "where" expression)
  let (table, terms, condition) := d.body
  return .createIndex { d.heading with text := d.textToNext } isUnique table terms condition

def createView (isTemporary : Bool) : Parser Statement := do
  let d ← define isTemporary fun _ => do
    let columns ← if ← isMark "(" then names else pure []
    word "as"
    return (columns, ← query)
  let text := (d.textToNext.reverse.dropWhile isBlank).reverse
  return .createView { d.heading with text } d.body.1 d.body.2

/-- When a trigger acts: before the change, if it does not say. -/
def moment : Parser Moment := do
  if ← tryWord "after" then return .after
  if ← tryWords ["instead", "of"] then return .instead
  let _ ← tryWord "before"
  return .before

def event : Parser Event := do
  if ← tryWord "insert" then return .insert
  if ← tryWord "delete" then return .delete
  word "update"
  if ← tryWord "of" then return .update (← commas name) else return .update []

/-- Whether a statement can be one of a trigger. Its table has one name, and no rows come back. -/
def isStep : Statement → Bool
  | .insert _ _ _ _ .defaults _ _ => false
  | .insert commons _ t _ _ _ returning | .update commons _ t _ _ _ returning
  | .delete commons t _ returning =>
    commons.isEmpty && t.reference.place.isNone && t.called.isNone && t.index.isNone &&
      returning.isEmpty
  | _ => true

def steps : Nat → Parser (List Statement)
  | 0 => failure
  | n + 1 => do
    let s ← onRows
    if !isStep s then failure
    mark ";"
    if ← tryWord "end" then return [s] else return s :: (← steps n)

def createTrigger (isTemporary : Bool) : Parser Statement := do
  let d ← define isTemporary fun _ => do
    let m ← moment
    let e ← event
    word "on"
    let table ← reference
    let _ ← tryWords ["for", "each", "row"]
    let condition ← afterWord? "when" expression
    word "begin"
    return (m, e, table, condition, ← steps (← get).tokens.length)
  let (m, e, table, condition, ss) := d.body
  return .createTrigger d.heading m e table condition ss

def create : Parser Statement := do
  if ← tryWord "unique" then
    word "index"
    createIndex true
  else if ← tryWord "index" then createIndex false
  else
    let isTemporary ← if ← tryWord "temp" then pure true else tryWord "temporary"
    if ← tryWord "table" then createTable isTemporary
    else if ← tryWord "view" then createView isTemporary
    else
      word "trigger"
      createTrigger isTemporary

def drop : Parser Statement := do
  let kind ← if ← tryWord "table" then pure Kind.table
    else if ← tryWord "view" then pure .view
    else if ← tryWord "index" then pure .index
    else do
      word "trigger"
      pure .trigger
  let mayMiss ← tryWords ["if", "exists"]
  return .drop kind mayMiss (← reference)

def alter : Parser Statement := do
  word "table"
  let r ← reference
  if ← tryWord "add" then
    let _ ← tryWord "column"
    let (c, text) ← spannedToNext column
    return .alter r (.addColumn c (text.reverse.dropWhile isBlank).reverse)
  else if ← tryWord "drop" then
    let _ ← tryWord "column"
    return .alter r (.dropColumn (← name))
  else
    word "rename"
    if ← tryWord "to" then return .alter r (.rename (← name))
    let _ ← tryWord "column"
    let before ← name
    word "to"
    return .alter r (.renameColumn before (← name))

end Definitions

section Others

/-- The word and the name that may follow one that begins or ends a transaction. -/
def transaction : Parser Unit := do
  if ← tryWord "transaction" then
    if !(← isWord "to") && (← peek).any fun t => t.name?.isSome then
      let _ ← name

def begin : Parser Statement := do
  let b ← if ← tryWord "immediate" then pure Beginning.immediate
    else if ← tryWord "exclusive" then pure .exclusive
    else do
      let _ ← tryWord "deferred"
      pure .deferred
  transaction
  return .begin b

/-- The name of a savepoint, perhaps after a word that says so. -/
def savepointName : Parser Name := do
  if (← isWord "savepoint") && (← peekSecond).any fun t => t.name?.isSome then
    word "savepoint"
  name

def rollback : Parser Statement := do
  transaction
  if ← tryWord "to" then return .rollbackTo (← savepointName) else return .rollback

def pragmaNumber (sign : List Char) : Parser Setting := do
  match (← next).token with
  | .number text => return ⟨sign ++ text, some text⟩
  | _ => failure

/-- The value of a pragma: a name, one of three words that are no names, or a number. A plus before
a number is left out. -/
def setting : Parser Setting := do
  if ← tryMark "+" then pragmaNumber []
  else if ← tryMark "-" then pragmaNumber ['-']
  else match ← peek with
    | some (.number _) => pragmaNumber []
    | some (.word text) =>
      if ["on", "delete", "default"].contains (String.ofList (Token.lower text)) then
        let _ ← next
        return ⟨text, none⟩
      else return ⟨(← name).toList, none⟩
    | _ => return ⟨(← name).toList, none⟩

def pragma : Parser Pragma := do
  let r ← reference
  let value ← if ← isMark "(" then do
      let v ← inBrackets setting
      pure (some v)
    else if (← tryMark "=") || (← tryMark "==") then do
      let v ← setting
      pure (some v)
    else pure none
  return ⟨r.place, Name.key r.name, value⟩

/-- A name that need not be there. -/
def reference? : Parser (Option Reference) := do
  if (← peek).any fun t => t.name?.isSome then return some (← reference) else return none

def ofWord (first : String) : Parser Statement := do
  match first with
  | "pragma" => return .pragma (← pragma)
  | "create" => create
  | "drop" => drop
  | "alter" => alter
  | "begin" => begin
  | "commit" | "end" =>
    transaction
    return .commit
  | "rollback" => rollback
  | "savepoint" => return .savepoint (← name)
  | "release" => return .release (← savepointName)
  | "vacuum" =>
    let place ← if (← peek).any fun t => t.name?.isSome ∧ !t.isWord "into" then do
        let n ← name
        pure (some n)
      else pure none
    return .vacuum place (← afterWord? "into" expression)
  | "reindex" => return .reindex (← reference?)
  | "analyze" => return .analyze (← reference?)
  | "attach" =>
    let _ ← tryWord "database"
    let file ← expression
    word "as"
    return .attach file (← expression)
  | "detach" =>
    let _ ← tryWord "database"
    return .detach (← expression)
  | _ => failure

def plain : Parser Statement := do
  match ← peek with
  | some (.word text) =>
    let first := String.ofList (Token.lower text)
    if ["select", "values", "with", "insert", "replace", "update", "delete"].contains first then
      onRows
    else
      let _ ← next
      ofWord first
  | _ => failure

def statement : Parser Statement := do
  if ← tryWord "explain" then
    let _ ← tryWords ["query", "plan"]
    return .explain (← plain)
  plain

end Others

/-- The first statement of some tokens, and those behind it. Semicolons in front are left out. -/
def first? : List Lexeme → Option (Option Statement × Nat × List Lexeme)
  | [] => some (none, 0, [])
  | ⟨.mark ";", _, _⟩ :: tokens => first? tokens
  | tokens => do
    let (s, rest) ← statement.run ⟨tokens, 0⟩
    match rest.tokens with
    | [] => some (some s, rest.parameters, [])
    | ⟨.mark ";", _, _⟩ :: tokens => some (some s, rest.parameters, tokens)
    | _ => none

end EntryCode.Database.Parser
