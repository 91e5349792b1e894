import EntryCode.Database.Script
import EntryCode.Image.Cache

/-!
The image cache in a database: a table with a row for each image.
-/

namespace EntryCode.CacheDatabase

open Database Session

section Statements

def creation : String :=
  "CREATE TABLE IF NOT EXISTS images (\n" ++
  "\t\tfingerprint TEXT PRIMARY KEY,\n" ++
  "\t\tid TEXT NOT NULL,\n" ++
  "\t\tcreated INTEGER NOT NULL,\n" ++
  "\t\tdata BLOB NOT NULL\n" ++
  "\t)"

def insertion : String :=
  "INSERT OR REPLACE INTO images (fingerprint, id, created, data) VALUES (?, ?, ?, ?)"

def lookup : String :=
  "SELECT data FROM images WHERE fingerprint = ?"

def listing : String :=
  "SELECT fingerprint, id, created, length(data) FROM images " ++
  "ORDER BY created DESC, fingerprint"

def removal : String :=
  "DELETE FROM images WHERE fingerprint = ?"

end Statements

section Values

/-- An image in a list. Its texts need not be well-formed. -/
structure Listed where
  fingerprint : Bytes
  id : Bytes
  created : Int
  size : Int
  deriving DecidableEq, Repr

/-- The text of a value; nothing has none. -/
def textOf? : Value → Option Bytes
  | .null => none
  | .real b => some (bytesOf (Double.shortest b))
  | v => some v.bytes

def integerOf? : Value → Option Int
  | .integer i => some i
  | v => do
    let i ← match charsOf (← textOf? v) with
      | '-' :: digits => (decimal? digits).map fun n => -(n : Int)
      | '+' :: digits | digits => (decimal? digits).map Int.ofNat
    if isInt64 i then some i else none
where
  decimal? (digits : List Char) : Option Nat :=
    if !digits.isEmpty && digits.all Char.isDigit then some (decimal digits) else none

def listed? : List Value → Option Listed
  | [fingerprint, id, created, size] => do
    return ⟨← textOf? fingerprint, ← textOf? id, ← integerOf? created, ← integerOf? size⟩
  | _ => none

def textValue (text : String) : Value :=
  .text (Text.utf8 text)

end Values

/-- Makes the table, unless there is one. -/
def make : Step Unit :=
  executeAll [] (Text.utf8 creation)

def save (i : Image) : Step Unit :=
  executeAll [textValue i.fingerprint, textValue i.id.text, .integer i.created.toInt,
    .blob i.encode] (Text.utf8 insertion)

def find? (fingerprint : String) : Step (Option Bytes) := do
  let found ← rows [textValue fingerprint] lookup
  return (found.head?.bind List.head?).map fun v => (textOf? v).getD []

def image? (fingerprint : String) : Step (Option Image) := do
  return (← find? fingerprint).bind fun data => (Image.decode data).toOption

def list : Step (List Listed) := do
  match (← rows [] listing).mapM listed? with
  | some all => return all
  | none => invalid "a value cannot be read"

/-- Removes an image; false if there was none. Where changes give counts, that of the removed rows
comes too late to be seen. -/
def remove (fingerprint : String) : Step Bool := do
  let before ← get
  executeAll [textValue fingerprint] (Text.utf8 removal)
  let after ← get
  return (if before.givesCounts then before.changes else after.changes) ≠ 0

end EntryCode.CacheDatabase
