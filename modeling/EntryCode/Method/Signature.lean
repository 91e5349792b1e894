import EntryCode.Method.BasicType
import EntryCode.Text.Quoted
import EntryCode.Text.Utf8

/-!
Method descriptors such as `(IJLjava/lang/String;)V`, read byte by byte. A class name runs up to
the next semicolon and may hold any other byte.
-/

namespace EntryCode

structure Signature where
  params : List BasicType
  result : BasicType
  deriving DecidableEq, Repr

namespace Signature

/-- Why a descriptor is not one. Positions count the bytes left, from the fault to the end. -/
inductive Fault where
  | missingOpen
  | missingClose
  | voidParameter (left : Nat)
  | truncated
  | openClass (left : Nat)
  | voidArray
  | unexpected (b : Byte) (left : Nat)
  | trailing
  deriving DecidableEq, Repr

/-- A descriptor that is not one. -/
structure Error where
  descriptor : String
  fault : Fault
  deriving DecidableEq, Repr

def Error.message (e : Error) : String :=
  let size := e.descriptor.utf8ByteSize
  let cause := match e.fault with
    | .missingOpen => "missing '('"
    | .missingClose => "missing ')'"
    | .voidParameter left => s!"void parameter at {size - left}"
    | .truncated => "truncated"
    | .openClass left => s!"unterminated class name at {size - left}"
    | .voidArray => "array of void"
    | .unexpected b left => s!"unexpected {Text.quotedByte b} at {size - left}"
    | .trailing => "trailing characters"
  s!"signature {Text.quoted e.descriptor}: {cause}"

section Reading

def byteOf (c : Char) : Byte := BitVec.ofNat 8 c.toNat

def afterClass? : Bytes → Option Bytes
  | [] => none
  | b :: rest => if b = byteOf ';' then some rest else afterClass? rest

/-- The type that a single letter stands for; classes have names as well. -/
def letterType? (b : Byte) : Option BasicType :=
  (BasicType.all.erase .object).find? fun t => byteOf t.letter = b

def element : Bytes → Except Fault (BasicType × Bytes)
  | [] => .error .truncated
  | b :: rest =>
    if b = byteOf 'L' then
      match afterClass? rest with
      | some after => .ok (.object, after)
      | none => .error (.openClass (rest.length + 1))
    else match letterType? b with
      | some t => .ok (t, rest)
      | none => .error (.unexpected b (rest.length + 1))

def field (s : Bytes) : Except Fault (BasicType × Bytes) :=
  match s with
  | [] => .error .truncated
  | b :: rest =>
    if b = byteOf '[' then
      match element (rest.dropWhile (· = byteOf '[')) with
      | .ok (.void, _) => .error .voidArray
      | .ok (_, after) => .ok (.object, after)
      | .error e => .error e
    else element (b :: rest)

theorem afterClass?_length {s r : Bytes} (h : afterClass? s = some r) : r.length < s.length := by
  induction s with
  | nil => simp [afterClass?] at h
  | cons b rest ih =>
    unfold afterClass? at h
    split at h
    · cases h; simp
    · have := ih h; simp only [List.length_cons]; omega

theorem element_length {s r : Bytes} {t : BasicType} (h : element s = .ok (t, r)) :
    r.length < s.length := by
  cases s with
  | nil => simp [element] at h
  | cons b rest =>
    simp only [element] at h
    split at h
    · split at h
      · rename_i after found
        cases h
        have := afterClass?_length found
        simp only [List.length_cons]; omega
      · cases h
    · split at h
      · cases h; simp
      · cases h

theorem field_length {s r : Bytes} {t : BasicType} (h : field s = .ok (t, r)) :
    r.length < s.length := by
  cases s with
  | nil => simp [field] at h
  | cons b rest =>
    simp only [field] at h
    split at h
    · have shorter := (List.dropWhile_suffix (l := rest) (· = byteOf '[')).length_le
      split at h
      · cases h
      · rename_i found
        cases h
        have := element_length found
        simp only [List.length_cons]; omega
      · cases h
    · exact element_length h

def parameters (s : Bytes) : Except Fault (List BasicType × Bytes) :=
  match s with
  | [] => .error .missingClose
  | b :: rest =>
    if b = byteOf ')' then .ok ([], rest)
    else match h : field (b :: rest) with
      | .error e => .error e
      | .ok (.void, _) => .error (.voidParameter (rest.length + 1))
      | .ok (t, after) =>
        match parameters after with
        | .ok (ts, tail) => .ok (t :: ts, tail)
        | .error e => .error e
termination_by s.length
decreasing_by exact field_length h

def parse (s : Bytes) : Except Fault Signature :=
  match s with
  | [] => .error .missingOpen
  | b :: rest =>
    if b ≠ byteOf '(' then .error .missingOpen
    else do
      let (params, tail) ← parameters rest
      let (result, after) ← field tail
      if after.isEmpty then return { params, result } else throw .trailing

end Reading

def ofDescriptor (descriptor : String) : Except Error Signature :=
  (parse (Text.utf8 descriptor)).mapError (⟨descriptor, ·⟩)

def slots (s : Signature) : Nat :=
  s.params.foldr (fun t n => t.slots + n) 0

/-- The signature without class names, and whether there is a receiver. Methods with equal keys
share one argument handler. -/
def key (s : Signature) (static : Bool) : String :=
  String.ofList ((if static then 'S' else 'I') :: '(' :: s.params.map BasicType.letter ++
    [')', s.result.letter])

end Signature

end EntryCode
