import EntryCode.Database.Execution

/-!
What each pragma does to a session. Most change nothing that can be seen; some look at what the
database holds, and so fail where it cannot be read; and a few change the database or how it is
used. Some of this is done when the statement is read, the rest when it is carried out.
-/

namespace EntryCode.Database

namespace Setting

variable (v : Setting)

def int32? (text : List Char) : Option Int :=
  let hex (c : Char) : Bool := (Text.hexValue? c).isSome
  match text with
  | '0' :: 'x' :: d :: rest | '0' :: 'X' :: d :: rest =>
    if hex d then bounded 0x7fffffff (Text.natural? ('0' :: 'x' :: (d :: rest).takeWhile hex))
    else some 0
  | '-' :: rest => (bounded 0x80000000 (Text.natural? (rest.takeWhile Char.isDigit))).map (- ·)
  | '+' :: rest | rest => bounded 0x7fffffff (Text.natural? (rest.takeWhile Char.isDigit))
where
  bounded (most : Nat) (n : Option Nat) : Option Int := (n.filter (· ≤ most)).map Int.ofNat

/-- The whole number that a text is; zero where it is none. -/
def int32 (text : List Char) : Int :=
  (int32? text).getD 0

/-- The whole number of sixty-four bits that a text is, blanks around it aside. -/
def int64? (text : List Char) : Option Int :=
  match text with
  | '0' :: 'x' :: digits | '0' :: 'X' :: digits => do
    let n ← if digits.isEmpty then some 0 else Text.natural? ('0' :: 'x' :: digits)
    if n < 0x10000000000000000 then some (BitVec.ofNat 64 n).toInt else none
  | text => do
    let text := text.dropWhile isBlank
    let text := (text.reverse.dropWhile isBlank).reverse
    let i ← match text with
      | '-' :: digits => (Text.natural? digits).map fun n => -(n : Int)
      | '+' :: digits | digits => (Text.natural? digits).map Int.ofNat
    if isInt64 i ∧ (text.all fun c => c.toLower ≠ 'x') then some i else none

/-- Whether it means yes. Of a number only the low eight bits count. -/
def isYes : Bool :=
  if v.text.head?.any Char.isDigit then int32 v.text % 256 ≠ 0
  else ["on", "yes", "true"].contains (String.ofList (Token.lower v.text))

/-- Whether it is a word, in whatever case. -/
def isWord (word : String) : Bool :=
  Token.lower v.text = word.toList

def encoding? : Option Text.Encoding :=
  [("utf8", .utf8), ("utf-8", .utf8), ("utf-16le", .utf16le), ("utf-16be", .utf16be),
   ("utf16le", .utf16le), ("utf16be", .utf16be), ("utf-16", .utf16le), ("utf16", .utf16le)].lookup
    (String.ofList (Token.lower v.text))

/-- The mode whose name begins with it; the first one if it is empty. -/
def journalMode? : Option JournalMode :=
  ([("delete", .delete), ("persist", .persist), ("off", .off), ("truncate", .truncate),
    ("memory", .memory), ("wal", .wal)].find? fun m : String × JournalMode =>
      (Token.lower v.text).isPrefixOf m.1.toList).map Prod.snd

def vacuuming : Vacuuming :=
  if v.isWord "full" then .always
  else if v.isWord "incremental" then .onRequest
  else if v.isWord "none" then .never
  else match int32 v.text with
    | 1 => .always
    | 2 => .onRequest
    | _ => .never

end Setting

namespace Pragma

open Session

section Effects

/-- Chooses the encoding of a database that is made. Nothing is chosen once there is one. -/
def chooseEncoding (v : Setting) : Step Unit := do
  let s ← get
  if !s.isEncodingFixed then
    match v.encoding? with
    | some encoding => set { s with encoding }
    | none => invalid "unsupported encoding"

def setVersions (n : Nat) : Step Unit := do
  let s ← get
  let store := s.shelf.content.store s.paper
  put { store with header.writeVersion := n, header.readVersion := n }

/-- Goes over to a log, or back to a journal, unless a change is under way. -/
def chooseMode (mode : JournalMode) : Step Unit := do
  let s ← get
  let canLog := s.isExclusive || s.medium.canLog
  if mode = s.mode ∨ s.hasChanged ∨ (mode = .wal ∧ !canLog) then pure ()
  else if s.undo.isSome ∧ (mode = .wal ∨ s.mode = .wal) then
    invalid "cannot change into wal mode from within a transaction"
  else if mode = .wal then
    let keepsNone := s.mode = JournalMode.off ∨ s.mode = JournalMode.memory
    modify fun s => { s with mode := if keepsNone then .off else .delete }
    read
    keep
    setVersions 2
    modify fun s => { s with mode := .wal }
  else if s.mode = .wal then
    if !s.isLogging then settleLog
    let t ← get
    if t.isLogging && t.isStuck then throw .readOnly
    set { t with shelf := t.close, isLogging := false, mode }
    if (← get).shelf.content.logsAhead then
      keep
      setVersions 1
  else
    set { s with mode }
    if !s.isExclusive ∧ (s.mode = .persist ∨ s.mode = .truncate) ∧
        mode ≠ .persist ∧ mode ≠ .truncate then
      if s.shelf.journal.canBeFile then setJournal .absent

/-- Chooses when a database that is made gives unused pages back. In one that is there, this can
change only for those that give pages back at all. -/
def chooseVacuuming (v : Setting) : Step Unit :=
  modify fun s => { s with
    nextVacuuming := some v.vacuuming
    paper := if s.shelf.content = .blank then { s.paper with vacuuming := v.vacuuming }
      else s.paper }

def noteVacuuming (v : Setting) : Step Unit := do
  let s ← get
  let hasMap : Bool := match s.shelf.content with
    | .stored store => store.hasMap
    | _ => true
  if v.vacuuming ≠ .never ∧ hasMap then
    change do
      if (← get).hasMap then
        Store.setHeader fun h => { h with
          incremental := if v.vacuuming = .onRequest then 1 else 0 }

/-- Chooses the size of the pages of a database that is made or written anew. -/
def choosePageSize (v : Setting) : Step Unit := do
  let size := (Setting.int32 v.text).toNat
  let isSize := 512 ≤ size ∧ size ≤ 65536 ∧ size = 1 <<< size.log2
  modify fun s => { s with
    nextSize := some size
    paper := if isSize ∧ s.shelf.content = .blank then { s.paper with size } else s.paper }

/-- Limits the number of pages, but not below those that there are. -/
def limitPages (v : Setting) : Step Unit := do
  let s ← get
  let pages := match s.shelf.content with
    | .stored store => store.count
    | _ => 0
  match Setting.int64? v.text with
  | some n =>
    if 0 < n then
      set { s with pageLimit := max pages (min n.toNat Store.mostPages) }
  | none => return

/-- Whether there is a table with a name in some place, or in any. -/
def isTable (place : Option Name) (name : List Char) : Step Bool := do
  let c ← context []
  return (c.find? ⟨place, String.ofList name⟩).isSome

def checkTable (place : Option Name) (table : Option (List Char)) : Step Unit := do
  match table with
  | none => return
  | some t =>
    if !(← isTable place t) then
      read
      invalid "no such table"

end Effects

section Names

def loading : List String :=
  ["auto_vacuum", "cache_size", "default_cache_size", "foreign_key_check", "foreign_key_list",
   "incremental_vacuum", "index_info", "index_list", "index_xinfo", "integrity_check",
   "journal_mode", "max_page_count", "optimize", "page_count", "quick_check", "synchronous",
   "table_info", "table_list", "table_xinfo", "wal_checkpoint"]

def numbers : List String :=
  ["application_id", "default_cache_size", "schema_version", "user_version"]

def reading : List String :=
  ["data_version", "freelist_count", "max_page_count", "page_count", "table_list"]

end Names

def setNumber (name : String) (n : Int) (h : Header) : Header :=
  let value := (n % 0x100000000).toNat
  match name with
  | "application_id" => { h with applicationId := value }
  | "default_cache_size" => { h with cacheSize := value }
  | "schema_version" => { h with cookie := value }
  | "user_version" => { h with userVersion := value }
  | _ => h

/-- The table that is to be checked; a number is none. -/
def checked? (p : Pragma) : Option (List Char) :=
  p.value.bind fun v =>
    if p.name ≠ "foreign_key_check" ∧ (v.number?.bind Setting.int32?).isSome then none
    else some v.text

variable (p : Pragma)

/-- Whether it is for the database that is gone when the program ends, or one that was added. -/
def isElsewhere : Bool :=
  p.place.any fun n => Name.key n ≠ "main"

def prepare : Step Unit := do
  if let some n := p.place then
    if Name.key n ≠ "main" ∧ !(← get).others.any fun x => x.1 = Name.key n then
      invalid s!"unknown database {n}"
  if loading.contains p.name ∨ (p.name = "encoding" ∧ p.value.isNone) then load
  match p.name, p.value with
  | "query_only", some v => modify fun s => { s with isReadOnly := v.isYes }
  | "count_changes", some v => modify fun s => { s with givesCounts := v.isYes }
  | "encoding", some v => chooseEncoding v
  | "temp_store_directory", some v =>
    let s ← get
    if v.text ≠ [] ∧ (s.medium = .memory ∨ !s.reachable.contains (String.ofList v.text)) then
      invalid "not a writable directory"
  | "integrity_check", _ | "quick_check", _ | "foreign_key_check", _ =>
    checkTable p.place p.checked?
  | name, some v =>
    if !p.isElsewhere then
      match name with
      | "locking_mode" =>
        if v.isWord "exclusive" then modify fun s => { s with isExclusive := true }
        else if v.isWord "normal" then modify fun s => { s with isExclusive := false }
      | "page_size" => choosePageSize v
      | "auto_vacuum" => chooseVacuuming v
      | "synchronous" =>
        if (← get).undo.isSome then
          invalid "Safety level may not be changed inside a transaction"
      | _ => pure ()
  | _, none => pure ()

def perform : Step Unit := do
  if numbers.contains p.name then
    match p.value with
    | some v => change (Store.setHeader (setNumber p.name (Setting.int32 v.text)))
    | none => read
  else if reading.contains p.name then read
  match p.name, p.value with
  | "integrity_check", _ | "quick_check", _ | "foreign_key_check", _ => read
  | "journal_mode", some v => v.journalMode?.forM chooseMode
  | "max_page_count", some v => limitPages v
  | "auto_vacuum", some v => noteVacuuming v
  | "wal_checkpoint", _ => do
    let s ← get
    if s.undo.isSome && s.isLocked then throw .busy
    if s.mode = .wal then
      read
      if (← get).isStuck then throw .readOnly
  | "incremental_vacuum", _ => do
    begin
    let content := (← get).shelf.content
    let isDue := match content with
      | .stored store => store.hasMap && !store.free.isEmpty
      | _ => true
    if isDue then change Space.giveOneBack
  | _, _ => pure ()

def performElsewhere : Step Unit := do
  let changes := p.name = "incremental_vacuum" ∨ (numbers.contains p.name ∧ p.value.isSome) ∨
    (p.name = "auto_vacuum" ∧ p.value.any fun v => v.vacuuming ≠ .never)
  if changes ∧ (← get).isReadOnly then throw .readOnly

def run : Step Unit := do
  p.prepare
  if p.isElsewhere then p.performElsewhere else p.perform

end Pragma

end EntryCode.Database
