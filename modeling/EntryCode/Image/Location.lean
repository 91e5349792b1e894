import EntryCode.Database.Script
import EntryCode.Order.Quicksort
import EntryCode.Path
import EntryCode.Text.Lowercase
import EntryCode.Text.Query
import EntryCode.Text.Quoted

/-!
Where an image cache is kept: the path of a file, after which fields with settings may follow
behind a question mark.
-/

namespace EntryCode

open Database

namespace Database.Medium

/-- The medium that fields ask for. A name that was given is not replaced by another one. -/
def ofFields? (fields : List Text.Query.Field) : Option Medium := do
  let name ← (Text.Query.values "vfs" fields).foldlM
    (fun name next => if name ≠ [] ∧ name ≠ next then none else some next) []
  if name = [] then return locked else ofBytes? name

end Database.Medium

structure Location where
  file : String
  medium : Medium
  fields : List Text.Query.Field
  deriving DecidableEq, Repr

namespace Location

def cut : List Char → List Char × List Char
  | [] => ([], [])
  | c :: rest =>
    if c = '?' then (c :: rest, [])
    else
      let (file, rest) := rest.span (· ≠ '?')
      (c :: file, rest.drop 1)

/-- The location that a path describes; the name of the file ends before a NUL. -/
def ofPath? (path : String) : Option Location := do
  let (file, query) := cut path.toList
  let fields ← Text.Query.fields? query
  return {
    file := Path.clean (String.ofList (file.takeWhile (· ≠ '\x00')))
    medium := ← Medium.ofFields? fields
    fields }

section Settings

/-- The text in some bytes, in lower case. -/
def lowered (bytes : Bytes) : String :=
  Text.lowercase (String.ofList (Text.charsOfUtf8 bytes))

def sortKey (setting : Bytes) : String :=
  Text.trimBlanks (lowered setting)

/-- Whether a setting is carried out before another one, by their keys. Those of the time to wait
come first. -/
def precedes (a b : String) : Bool :=
  if a.startsWith "busy_timeout" then true
  else if b.startsWith "busy_timeout" then false
  else a < b

variable (l : Location)

/-- The texts with pragmas among the fields, in the order in which they are carried out. -/
def settings : List Bytes :=
  let keyed := (Text.Query.values "_pragma" l.fields).map fun v => (sortKey v, v)
  (Quicksort.sort (fun a b => precedes a.1 b.1) keyed.toArray).toList.map fun (_, v) =>
    Text.utf8 "pragma " ++ v

def paths : List String :=
  (l.settings.flatMap Script.statements).filterMap fun
    | .pragma p =>
      if p.name = "temp_store_directory" then p.value.map fun v => String.ofList v.text else none
    | _ => none

/-- The value of the first field with a name; an empty one counts as none. -/
def setting? (name : String) : Option Bytes :=
  (Text.Query.values name l.fields).head?.filter (· ≠ [])

def timeFormats : List String :=
  ["sqlite"]

def lockModes : List String :=
  ["deferred", "immediate", "exclusive"]

/-- Whether the format for times and the kind of locks are known, where they are given. -/
def formatsOk : Bool :=
  (l.setting? "_time_format").all (fun format => timeFormats.any fun f => Text.utf8 f = format) &&
    (l.setting? "_txlock").all (fun mode => lockModes.contains (lowered mode))

def configure : Session.Step Unit := do
  l.settings.forM (Session.executeAll [])
  if !l.formatsOk then Session.invalid "unknown format"

end Settings

/-- The most bytes that the path of a cache may have, from the root. -/
def longestPath : Nat := 504

end Location

end EntryCode
