import EntryCode.Cbor.Shape
import EntryCode.Image.Basic

/-!
Images as bytes: one canonical CBOR map with an entry for each part.
-/

namespace EntryCode

namespace ImageRoutine

def toCbor (r : ImageRoutine) : Cbor :=
  .map [(.text "name", .text r.name), (.text "offset", .integer r.offset.toInt),
    (.text "size", .integer r.size.toInt)]

def ofCbor : Cbor.Reading ImageRoutine := fun item => do
  let fields ← Cbor.asRecord ["name", "offset", "size"] item
  return some {
    name := ← Cbor.field fields "name" "" Cbor.asText
    offset := ← Cbor.field fields "offset" 0 Cbor.asSigned
    size := ← Cbor.field fields "size" 0 Cbor.asSigned }

end ImageRoutine

namespace Image

section Encoding

def texts (xs : List String) : Cbor :=
  .array (xs.map .text)

def offsetTable (t : Table String Dword) : Cbor :=
  .map (t.map fun e => (.text e.1, .integer e.2.toInt))

/-- Notes are left out where there are none. -/
def toCbor (i : Image) : Cbor :=
  .map ([(Cbor.text "version", Cbor.integer i.version.toInt), (.text "id", .bytes i.id.bytes),
    (.text "fingerprint", .text i.fingerprint), (.text "created", .integer i.created.toInt),
    (.text "features", .optional texts i.features), (.text "base", .unsigned i.base.toNat),
    (.text "code", .optional .bytes i.code),
    (.text "routines", .optional (fun rs => .array (rs.map ImageRoutine.toCbor)) i.routines),
    (.text "entries", .optional offsetTable i.entries),
    (.text "result_handlers", .optional offsetTable i.resultHandlers)] ++
    if i.notes.isEmpty then []
    else [(Cbor.text "notes",
      Cbor.map (i.notes.map fun n => (.integer n.1, .optional texts n.2)))])

def encode (i : Image) : Bytes :=
  i.toCbor.encode

end Encoding

section Decoding

/-- An identifier is sixteen bytes. As a list of numbers it may be of any length: it is cut or
filled with zeros. -/
def idOfCbor : Cbor.Reading Uuid := fun item => do
  match ← item.untagged? with
  | .bytes b | .tagged _ (.bytes b) => return some (← Uuid.ofBytes? b)
  | .array items =>
    let b ← (items.take 16).mapM fun n => do return (← Cbor.asByte n).getD 0
    return some (← Uuid.ofBytes? (b ++ List.replicate (16 - b.length) 0))
  | other => Cbor.asNull other

def offsetsOfCbor : Cbor.Reading (Table String Dword) := fun item => do
  return (← Cbor.asMap ("", 0) Cbor.asText Cbor.asSigned item).map Table.ofEntries

/-- The notes at a position; null is a reading of its own here. -/
def noteTexts : Cbor.Reading (Option (List String)) := fun item => do
  return some (← Cbor.asList "" Cbor.asText item)

def notesOfCbor : Cbor.Reading (Table Int (Option (List String))) := fun item => do
  let position : Cbor.Reading Int := Cbor.asIntegerWithin (-0x8000000000000000) 0x8000000000000000
  return (← Cbor.asMap (0, none) position noteTexts item).map Table.ofEntries

def fieldNames : List String :=
  ["version", "id", "fingerprint", "created", "features", "base", "code", "routines", "entries",
   "result_handlers", "notes"]

/-- The image that an item describes. Parts that are missing or null are left empty. -/
def ofCbor? (item : Cbor) : Option Image := do
  let fields ← Cbor.asRecord fieldNames item
  return {
    version := ← Cbor.field fields "version" 0 Cbor.asSigned
    id := ← Cbor.field fields "id" .zero idOfCbor
    fingerprint := ← Cbor.field fields "fingerprint" "" Cbor.asText
    created := ← Cbor.field fields "created" 0 Cbor.asSigned
    features := ← Cbor.field? fields "features" (Cbor.asList "" Cbor.asText)
    base := ← Cbor.field fields "base" 0 Cbor.asUnsigned
    code := ← Cbor.field? fields "code" Cbor.asBytes
    routines := ← Cbor.field? fields "routines" (Cbor.asList ⟨"", 0, 0⟩ ImageRoutine.ofCbor)
    entries := ← Cbor.field? fields "entries" offsetsOfCbor
    resultHandlers := ← Cbor.field? fields "result_handlers" offsetsOfCbor
    notes := ← Cbor.field fields "notes" [] notesOfCbor }

inductive DecodeError where
  | malformed
  | invalid (p : Problem)
  deriving DecidableEq, Repr

def DecodeError.message : DecodeError → String
  | .malformed => "image: unmarshal"
  | .invalid p => p.message

/-- The image in the given bytes, if nothing is wrong with it. -/
def decode (bs : Bytes) : Except DecodeError Image :=
  match (Cbor.decode? bs).bind ofCbor? with
  | none => .error .malformed
  | some i =>
    match i.problem? with
    | some p => .error (.invalid p)
    | none => .ok i

end Decoding

end Image

end EntryCode
