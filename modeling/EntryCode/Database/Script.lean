import EntryCode.Database.Configuration

/-!
Texts with statements. Each one is read only after those before it were carried out.
-/

namespace EntryCode.Database

namespace Script

/-- The tokens of a text, of which nothing after a NUL is read. -/
def tokens (text : Bytes) : List Lexeme :=
  Token.all (charsOf (text.takeWhile (· ≠ 0)))

/-- The statements of a text up to the first one that cannot be read. -/
def statementsFrom : Nat → List Lexeme → List Statement
  | 0, _ => []
  | fuel + 1, tokens =>
    match Parser.first? tokens with
    | some (some s, _, rest) => s :: statementsFrom fuel rest
    | _ => []

def statements (text : Bytes) : List Statement :=
  let all := tokens text
  statementsFrom (all.length + 1) all

end Script

namespace Session

def explain (s : Statement) : Step Unit := do
  match s with
  | .pragma p => p.prepare
  | .select _ | .insert .. | .update .. | .delete .. | .createTable .. | .createTableAs ..
  | .createIndex .. | .createView .. | .createTrigger .. | .drop .. | .alter .. =>
    if Execution.needsCatalog s then load
    let _ ← look (← context []) (Execution.prepare s)
  | _ => return

def execute (arguments : List Value) (s : Statement) : Step Unit := do
  match s with
  | .pragma p => p.run
  | .begin b => beginTransaction (b ≠ .deferred)
  | .commit => endTransaction true
  | .rollback => endTransaction false
  | .savepoint n => setMark n
  | .release n => releaseMark n
  | .rollbackTo n => returnToMark n
  | .vacuum place _ => vacuum place
  | .attach _ n => attach arguments n
  | .detach n => detach arguments n
  | .explain s => explain s
  | s => run arguments s

/-- Carries out statements one after the other. Their variables have to have values. -/
def executeFrom (arguments : List Value) : Nat → List Lexeme → Step Unit
  | 0, _ => return
  | fuel + 1, tokens => do
    match Parser.first? tokens with
    | none => invalid "syntax error"
    | some (none, _, _) => return
    | some (some s, parameters, rest) =>
      if arguments.length < parameters then invalid "missing argument"
      execute arguments s
      executeFrom arguments fuel rest

def executeAll (arguments : List Value) (text : Bytes) : Step Unit :=
  let all := Script.tokens text
  executeFrom arguments (all.length + 1) all

def rows (arguments : List Value) (text : String) : Step (List (List Value)) := do
  match Parser.first? (Script.tokens (Text.utf8 text)) with
  | some (some (.select q), _, _) => query arguments q
  | _ => invalid "not a query"

end Session

end EntryCode.Database
