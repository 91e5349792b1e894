import EntryCode.Database.Fault
import EntryCode.Image.Codec

/-!
The image cache: encoded images by fingerprint. Looking an image up decodes it, so an entry that
was damaged is noticed then. A cache that was closed refuses everything.
-/

namespace EntryCode

namespace ImageCache

structure Row where
  fingerprint : String
  id : Uuid
  created : Dword
  data : Bytes
  deriving DecidableEq, Repr

def rowOf (i : Image) : Row :=
  ⟨i.fingerprint, i.id, i.created, i.encode⟩

end ImageCache

structure ImageCache where
  rows : List ImageCache.Row
  isOpen : Bool
  deriving DecidableEq, Repr

namespace ImageCache

def empty : ImageCache :=
  ⟨[], true⟩

inductive Error where
  | notFound
  | noFingerprint (id : Uuid)
  | damaged (fingerprint : String) (e : Image.DecodeError)
  /-- The cache is closed; `doing` says what was tried. -/
  | closed (doing : String)
  /-- The database of the cache is at fault; `doing` says what was tried. -/
  | fault (doing : String) (f : Database.Fault)
  deriving DecidableEq, Repr

def Error.message : Error → String
  | .notFound => "image not found"
  | .noFingerprint id => s!"saving image {id.text}: no fingerprint"
  | .damaged fingerprint e => s!"cached image {fingerprint}: {e.message}"
  | .closed doing => s!"{doing}: sql: database is closed"
  | .fault doing f => s!"{doing}: {f.text}"

variable (c : ImageCache)

def row? (fingerprint : String) : Option Row :=
  c.rows.find? fun r => r.fingerprint = fingerprint

def without (fingerprint : String) : List Row :=
  c.rows.filter fun r => r.fingerprint ≠ fingerprint

def check (doing : String) : Except Error Unit :=
  if c.isOpen then .ok () else .error (.closed doing)

def put (i : Image) : Except Error ImageCache := do
  if i.fingerprint = "" then throw (.noFingerprint i.id)
  c.check s!"saving image {i.id.text}"
  return { c with rows := rowOf i :: c.without i.fingerprint }

def get (fingerprint : String) : Except Error Image := do
  c.check "querying image"
  match c.row? fingerprint with
  | none => throw .notFound
  | some r => (Image.decode r.data).mapError (.damaged fingerprint)

def delete (fingerprint : String) : Except Error ImageCache := do
  c.check "deleting image"
  if (c.row? fingerprint).isNone then throw .notFound
  return { c with rows := c.without fingerprint }

/-- Whether a row comes before another in a list: newer ones first, then by fingerprint. -/
def precedes (a b : Row) : Bool :=
  b.created.toInt < a.created.toInt || (a.created = b.created && a.fingerprint ≤ b.fingerprint)

def list : Except Error (List Row) := do
  c.check "listing images"
  return c.rows.mergeSort precedes

def close : ImageCache :=
  { c with isOpen := false }

def reopen : ImageCache :=
  { c with isOpen := true }

/-- Replaces the bytes of an entry, whatever they are. -/
def overwrite (fingerprint : String) (data : Bytes) : ImageCache :=
  { c with rows := c.rows.map fun r => if r.fingerprint = fingerprint then { r with data } else r }

end ImageCache

end EntryCode
