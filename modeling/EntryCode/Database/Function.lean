import EntryCode.Database.Fault
import EntryCode.Database.Operation
import EntryCode.Text.Number

/-!
The functions that can be called in expressions: those of the values of one row, and those of all
rows of a group.
-/

namespace EntryCode.Database.Function

section Characters

/-- The bytes of each character of a text. A byte that begins one takes those with it that go on. -/
def characters : Bytes → List Bytes
  | [] => []
  | b :: rest =>
    let more := if 0xc0 ≤ b.toNat then rest.takeWhile fun c => c.toNat &&& 0xc0 = 0x80 else []
    (b :: more) :: characters (rest.drop more.length)
termination_by bytes => bytes.length
decreasing_by simp only [List.length_drop, List.length_cons]; omega

def codeOf (character : Bytes) : Nat :=
  ((Text.charsOfUtf8 character).head?.map Char.toNat).getD 0

def lowered (t : Bytes) : Bytes :=
  bytesOf ((charsOf t).map Char.toLower)

def uppered (t : Bytes) : Bytes :=
  bytesOf ((charsOf t).map Char.toUpper)

/-- The place of a part in a list, from one on; zero if it is not there. -/
def place {α : Type} [BEq α] (part : List α) : Nat → List α → Nat
  | n, [] => if part.isEmpty then n else 0
  | n, a :: rest => if part.isPrefixOf (a :: rest) then n else place part (n + 1) rest

def replaced (part new : Bytes) : Nat → Bytes → Bytes
  | 0, t => t
  | _, [] => []
  | fuel + 1, b :: rest =>
    if part.isPrefixOf (b :: rest) then new ++ replaced part new fuel ((b :: rest).drop part.length)
    else b :: replaced part new fuel rest

end Characters

section Patterns

/-- Whether characters match a pattern with a mark for any text and one for any character. -/
def like (escape : Option Nat) : Nat → List Nat → List Nat → Bool
  | 0, _, _ => false
  | _, [], t => t.isEmpty
  | fuel + 1, p :: ps, t =>
    if some p = escape then
      match ps, t with
      | q :: ps, c :: t => fold q = fold c && like escape fuel ps t
      | _, _ => false
    else if p = '%'.toNat then
      like escape fuel ps t || (match t with
        | _ :: rest => like escape fuel (p :: ps) rest
        | [] => false)
    else match t with
      | c :: t => (p = '_'.toNat || fold p = fold c) && like escape fuel ps t
      | [] => false
where
  fold (n : Nat) : Nat := if 65 ≤ n && n ≤ 90 then n + 32 else n

/-- The characters of a set in a pattern after its bracket, and what follows it. -/
def set? (isFirst : Bool) : List Nat → Option (List (Nat × Nat) × List Nat)
  | [] => none
  | [c] => if c = ']'.toNat ∧ !isFirst then some ([], []) else none
  | [c, d] =>
    if c = ']'.toNat ∧ !isFirst then some ([], [d])
    else if d = ']'.toNat then some ([(c, c)], [])
    else none
  | c :: d :: e :: rest =>
    if c = ']'.toNat ∧ !isFirst then some ([], d :: e :: rest)
    else if d = '-'.toNat ∧ e ≠ ']'.toNat then
      (set? false rest).map fun (s, r) => ((c, e) :: s, r)
    else (set? false (d :: e :: rest)).map fun (s, r) => ((c, c) :: s, r)

def glob : Nat → List Nat → List Nat → Bool
  | 0, _, _ => false
  | _, [], t => t.isEmpty
  | fuel + 1, p :: ps, t =>
    if p = '*'.toNat then
      glob fuel ps t || (match t with
        | _ :: rest => glob fuel (p :: ps) rest
        | [] => false)
    else match t with
      | [] => false
      | c :: t =>
        if p = '?'.toNat then glob fuel ps t
        else if p = '['.toNat then
          let isInverted := ps.head? = some '^'.toNat
          match set? true (if isInverted then ps.drop 1 else ps) with
          | some (s, rest) =>
            (s.any fun (a, b) => a ≤ c && c ≤ b) != isInverted && glob fuel rest t
          | none => false
        else p = c && glob fuel ps t

def codes (v : Value) : List Nat :=
  (characters v.bytes).map codeOf

def isBlob : Value → Bool
  | .blob _ => true
  | _ => false

/-- Whether a value matches a pattern. Bytes match none. -/
def matched (test : List Nat → List Nat → Bool) (pattern v : Value) : Value :=
  if pattern.isNull || v.isNull then .null
  else if isBlob pattern || isBlob v then .integer 0
  else .ofBool (test (codes pattern) (codes v))

end Patterns

section Parts

/-- The part of a list from a place on; places count from one, or from the end if negative, and a
negative length counts to the left. -/
def part {α : Type} (items : List α) (start : Int) (length : Option Int) : List α :=
  let size : Int := items.length
  let first : Int := if start < 0 then start + size + 1 else start
  let (low, high) : Int × Int := match length with
    | none => (first, size + 1)
    | some n =>
      if n < 0 then (first + n, first)
      else (first, first + n)
  let low' := max low 1
  let high' := min high (size + 1)
  if high' ≤ low' then [] else (items.drop (low' - 1).toNat).take (high' - low').toNat

def substring (v start : Value) (length : Option Value) : Value :=
  if v.isNull || start.isNull || length.any Value.isNull then .null
  else
    match v with
    | .blob b => .blob (part b start.toInt (length.map Value.toInt))
    | v => .text (part (characters v.bytes) start.toInt (length.map Value.toInt)).flatten

def trimmed (atStart atEnd : Bool) (v : Value) (set : Value) : Value :=
  if v.isNull || set.isNull then .null
  else
    let drop := characters set.bytes
    let strip (cs : List Bytes) := cs.dropWhile drop.contains
    let cs := characters v.bytes
    let cs := if atStart then strip cs else cs
    let cs := if atEnd then (strip cs.reverse).reverse else cs
    .text cs.flatten

end Parts

section Texts

def hex (bytes : Bytes) : Bytes :=
  bytesOf ((Text.hexBytes bytes).toList.map Char.toUpper)

def quoted : Value → Bytes
  | .null => Text.utf8 "NULL"
  | .text t => Text.utf8 "'" ++ t.flatMap (fun b => if b = 0x27 then [b, b] else [b]) ++
      Text.utf8 "'"
  | .blob b => Text.utf8 "X'" ++ hex b ++ Text.utf8 "'"
  | v => v.bytes

def unhex (v ignored : Value) : Value :=
  if v.isNull || ignored.isNull then .null
  else
    match Text.bytesOfHex? ((charsOf v.bytes).filter fun c => !(charsOf ignored.bytes).contains c) with
    | some b => .blob b
    | none => .null

def typeName : Value → String
  | .null => "null"
  | .integer _ => "integer"
  | .real _ => "real"
  | .text _ => "text"
  | .blob _ => "blob"

/-- The number of characters of a text before a NUL, or of bytes. -/
def length : Value → Value
  | .null => .null
  | .blob b => .integer b.length
  | v => .integer (characters (v.bytes.takeWhile (· ≠ 0))).length

def round (v : Value) (places : Int) : Value :=
  match v.number with
  | .null => .null
  | .integer i => .real (Double.ofInt i)
  | n =>
    let b := n.toDouble
    if !Double.isFinite b then .real b
    else
      let (num, den) := Double.quotient b
      let p := (min places 30).toNat
      let scaled := num.natAbs * Nat.pow 10 p
      let digits := (2 * scaled + den) / (2 * den)
      .real (Double.ofDecimal (num < 0) digits (-(p : Int)))

def padded (isLeft isZero : Bool) (width : Nat) (t : Bytes) : Bytes :=
  let fill := List.replicate (width - (characters t).length) (if isZero then 0x30 else 0x20)
  if isLeft then t ++ List.replicate (width - (characters t).length) 0x20
  else match t with
    | s :: rest => if isZero && (s = 0x2d || s = 0x2b) then s :: fill ++ rest else fill ++ t
    | [] => fill

def formatted : Nat → List Char → List Value → Bytes
  | 0, _, _ => []
  | _, [], _ => []
  | fuel + 1, '%' :: rest, values =>
    let (flags, rest) := rest.span fun c => "-+ 0#!,".contains c
    let (star, rest) := if rest.head? = some '*' then (true, rest.drop 1) else (false, rest)
    let width := if star then ((values.head?.map Value.toInt).getD 0).natAbs else 0
    let values := if star then values.drop 1 else values
    let (digits, rest) := rest.span Char.isDigit
    let width := if star then width else decimal digits
    let (hasPlaces, rest) := if rest.head? = some '.' then (true, rest.drop 1) else (false, rest)
    let (places, rest) := if hasPlaces then rest.span Char.isDigit else ([], rest)
    let rest := rest.dropWhile (· = 'l')
    match rest with
    | [] => [0x25]
    | kind :: rest =>
      let v := values.head?.getD .null
      let put (t : Bytes) :=
        padded (flags.contains '-') (flags.contains '0') width t ++
          formatted fuel rest (values.drop 1)
      let signed (t : Bytes) (isNegative : Bool) :=
        if isNegative then t
        else if flags.contains '+' then 0x2b :: t
        else if flags.contains ' ' then 0x20 :: t
        else t
      let cut (t : Bytes) := if hasPlaces then
        ((characters t).take (decimal places)).flatten else t
      match kind with
      | '%' => 0x25 :: formatted fuel rest values
      | 'd' | 'i' => put (signed (Text.utf8 (toString v.toInt)) (v.toInt < 0))
      | 'u' => put (Text.utf8 (toString (BitVec.ofInt 64 v.toInt).toNat))
      | 'x' => put (Text.utf8 (Text.hexDigits (BitVec.ofInt 64 v.toInt).toNat))
      | 'X' => put (uppered (Text.utf8 (Text.hexDigits (BitVec.ofInt 64 v.toInt).toNat)))
      | 'o' => put (bytesOf (Nat.toDigits 8 (BitVec.ofInt 64 v.toInt).toNat))
      | 's' | 'z' => put (cut v.bytes)
      | 'c' => put ((characters v.bytes).head?.getD [])
      | 'q' => put (v.bytes.flatMap fun b => if b = 0x27 then [b, b] else [b])
      | 'w' => put (v.bytes.flatMap fun b => if b = 0x22 then [b, b] else [b])
      | 'Q' => put (if v.isNull then Text.utf8 "NULL" else quoted (.text v.bytes))
      | 'f' =>
        let p := if hasPlaces then decimal places else 6
        let (num, den) := Double.quotient v.toDouble
        let all := Nat.toDigits 10 ((2 * num.natAbs * Nat.pow 10 p + den) / (2 * den))
        let all := List.replicate (p + 1 - all.length) '0' ++ all
        let whole := all.take (all.length - p)
        let behind := all.drop (all.length - p)
        let text := (if num < 0 then ['-'] else []) ++ whole ++
          if p = 0 then [] else '.' :: behind
        put (signed (bytesOf text) (num < 0))
      | 'g' | 'e' | 'E' | 'G' => put (bytesOf (Double.shortest v.toDouble))
      | _ => []
  | fuel + 1, c :: rest, values => bytesOf [c] ++ formatted fuel rest values

end Texts

section Scalars

/-- The numbers of arguments of a function; none for the greatest if there may be any number. -/
structure Arity where
  least : Nat
  most : Option Nat

def arities : List (String × Arity) :=
  [("abs", ⟨1, some 1⟩), ("char", ⟨0, none⟩), ("coalesce", ⟨2, none⟩), ("concat", ⟨1, none⟩),
   ("concat_ws", ⟨2, none⟩), ("format", ⟨0, none⟩), ("printf", ⟨0, none⟩), ("glob", ⟨2, some 2⟩),
   ("hex", ⟨1, some 1⟩), ("ifnull", ⟨2, some 2⟩), ("iif", ⟨2, none⟩), ("if", ⟨2, none⟩),
   ("instr", ⟨2, some 2⟩), ("length", ⟨1, some 1⟩), ("like", ⟨2, some 3⟩),
   ("likelihood", ⟨2, some 2⟩), ("likely", ⟨1, some 1⟩), ("unlikely", ⟨1, some 1⟩),
   ("lower", ⟨1, some 1⟩), ("ltrim", ⟨1, some 2⟩), ("max", ⟨1, none⟩), ("min", ⟨1, none⟩),
   ("nullif", ⟨2, some 2⟩), ("octet_length", ⟨1, some 1⟩), ("quote", ⟨1, some 1⟩),
   ("random", ⟨0, some 0⟩), ("randomblob", ⟨1, some 1⟩), ("replace", ⟨3, some 3⟩),
   ("round", ⟨1, some 2⟩), ("rtrim", ⟨1, some 2⟩), ("sign", ⟨1, some 1⟩),
   ("sqlite_version", ⟨0, some 0⟩), ("sqlite_source_id", ⟨0, some 0⟩),
   ("substr", ⟨2, some 3⟩), ("substring", ⟨2, some 3⟩),
   ("trim", ⟨1, some 2⟩), ("typeof", ⟨1, some 1⟩), ("unhex", ⟨1, some 2⟩),
   ("unicode", ⟨1, some 1⟩), ("upper", ⟨1, some 1⟩), ("zeroblob", ⟨1, some 1⟩),
   ("changes", ⟨0, some 0⟩), ("total_changes", ⟨0, some 0⟩), ("last_insert_rowid", ⟨0, some 0⟩),
   ("ceil", ⟨1, some 1⟩), ("ceiling", ⟨1, some 1⟩), ("floor", ⟨1, some 1⟩),
   ("trunc", ⟨1, some 1⟩), ("sqrt", ⟨1, some 1⟩), ("exp", ⟨1, some 1⟩), ("ln", ⟨1, some 1⟩),
   ("pow", ⟨2, some 2⟩), ("power", ⟨2, some 2⟩), ("mod", ⟨2, some 2⟩), ("pi", ⟨0, some 0⟩),
   ("unixepoch", ⟨0, none⟩), ("strftime", ⟨0, none⟩), ("julianday", ⟨0, none⟩),
   ("date", ⟨0, none⟩), ("time", ⟨0, none⟩), ("datetime", ⟨0, none⟩)]

def varies (name : String) (arguments : Nat) : Bool :=
  ["random", "randomblob", "changes", "total_changes", "last_insert_rowid"].contains name ||
    (arguments = 0 && ["date", "time", "datetime", "julianday", "unixepoch"].contains name)

def ofNumber (f : Float → Float) (v : Value) : Value :=
  match v.number with
  | .null => .null
  | n => .ofDouble (f (Double.toFloat n.toDouble))

def ofFraction (f : Float → Float) (v : Value) : Value :=
  match v.number with
  | .integer i => .integer i
  | n => ofNumber f n

/-- The greatest of some values, or the least, by a test of two. -/
def extreme (isBetter : Value → Value → Bool) : List Value → Value
  | [] => .null
  | v :: rest => rest.foldl (fun best w => if isBetter w best then w else best) v

def absolute (v : Value) : Except Fault Value :=
  match v.number with
  | .integer i =>
    if i = -0x8000000000000000 then throw (.invalid "integer overflow") else return .integer i.natAbs
  | .real b => return .real (b &&& 0x7fffffffffffffff)
  | n => return n

/-- The text of a character; one that is none stands for U+FFFD. -/
def character (v : Value) : Bytes :=
  let n := v.toInt
  Text.utf8 (if 0 ≤ n ∧ n < 0x110000 then (Char.ofNat n.toNat).toString else "\ufffd")

/-- The result of a function of some values, which are compared as `less` says. -/
def apply (less : Value → Value → Bool) (name : String) (values : List Value) :
    Except Fault Value := do
  match name, values with
  | "abs", [v] => absolute v
  | "char", vs => return .text (vs.flatMap character)
  | "concat", vs => return .text (vs.flatMap Value.bytes)
  | "concat_ws", s :: vs =>
    if s.isNull then return .null
    return .text (((vs.filter fun v => !v.isNull).map Value.bytes).intersperse s.bytes).flatten
  | "format", f :: vs | "printf", f :: vs =>
    if f.isNull then return .null
    let chars := charsOf f.bytes
    return .text (formatted (chars.length + 1) chars vs)
  | "glob", [p, v] => return matched (fun p t => glob (p.length + t.length + 1) p t) p v
  | "like", [p, v] => return matched (fun p t => like none (p.length + t.length + 1) p t) p v
  | "like", [p, v, e] =>
    if e.isNull then return .null
    let [c] := codes e | throw (.invalid "ESCAPE expression must be a single character")
    return matched (fun p t => like (some c) (p.length + t.length + 1) p t) p v
  | "hex", [v] => return .text (hex v.bytes)
  | "instr", [v, w] =>
    if v.isNull || w.isNull then return .null
    if isBlob v && isBlob w then return .integer (place w.bytes 1 v.bytes)
    return .integer (place (characters w.bytes) 1 (characters v.bytes))
  | "length", [v] => return length v
  | "likelihood", [v, _] | "likely", [v] | "unlikely", [v] => return v
  | "lower", [v] => return if v.isNull then .null else .text (lowered v.bytes)
  | "upper", [v] => return if v.isNull then .null else .text (uppered v.bytes)
  | "trim", v :: vs => return trimmed true true v (vs.head?.getD (.text [0x20]))
  | "ltrim", v :: vs => return trimmed true false v (vs.head?.getD (.text [0x20]))
  | "rtrim", v :: vs => return trimmed false true v (vs.head?.getD (.text [0x20]))
  | "max", vs =>
    return if vs.any Value.isNull then .null else extreme (fun a b => less b a) vs
  | "min", vs => return if vs.any Value.isNull then .null else extreme less vs
  | "nullif", [v, w] =>
    return if !v.isNull && !w.isNull && !less v w && !less w v then .null else v
  | "octet_length", [v] => return if v.isNull then .null else .integer v.bytes.length
  | "quote", [v] => return .text (quoted v)
  | "random", [] => return .integer 1
  | "randomblob", [v] => return .blob (List.replicate (max 1 v.toInt).toNat 0)
  | "zeroblob", [v] => return .blob (List.replicate v.toInt.toNat 0)
  | "replace", [v, p, w] =>
    if v.isNull || p.isNull || w.isNull then return .null
    if p.bytes.isEmpty then return .text v.bytes
    return .text (replaced p.bytes w.bytes (v.bytes.length + 1) v.bytes)
  | "round", [v] => return round v 0
  | "round", [v, p] => return if p.isNull then .null else round v p.toInt
  | "sign", [v] =>
    match v with
    | .integer i => return .integer i.sign
    | .real b =>
      let x := Double.toFloat b
      return .integer (if x < 0 then -1 else if 0 < x then 1 else 0)
    | .text t =>
      match Value.numericText t with
      | .text _ => return .null
      | n => return .integer (if less n (.integer 0) then -1 else if less (.integer 0) n then 1 else 0)
    | _ => return .null
  | "sqlite_version", [] => return .text (Text.utf8 "3.49.1")
  | "sqlite_source_id", [] => return .text (Text.utf8 "2025-02-18 13:38:58")
  | "substr", [v, s] | "substring", [v, s] => return substring v s none
  | "substr", [v, s, n] | "substring", [v, s, n] => return substring v s (some n)
  | "typeof", [v] => return .text (Text.utf8 (typeName v))
  | "unhex", v :: vs => return unhex v (vs.head?.getD (.text []))
  | "unicode", [v] =>
    return match characters v.bytes with
      | c :: _ => if v.isNull then .null else .integer (codeOf c)
      | [] => .null
  | "ceil", [v] | "ceiling", [v] => return ofFraction Float.ceil v
  | "floor", [v] => return ofFraction Float.floor v
  | "trunc", [v] => return ofFraction (fun x => if x < 0 then x.ceil else x.floor) v
  | "sqrt", [v] => return ofNumber Float.sqrt v
  | "exp", [v] => return ofNumber Float.exp v
  | "ln", [v] => return ofNumber Float.log v
  | "pow", [v, w] | "power", [v, w] =>
    return if v.isNull || w.isNull then .null
      else .ofDouble (Float.pow (Double.toFloat v.toDouble) (Double.toFloat w.toDouble))
  | "mod", [v, w] => return .remainder v w
  | "pi", [] => return .ofDouble 3.141592653589793
  | _, _ => return .null

end Scalars

section Aggregates

def aggregates : List (String × Arity) :=
  [("avg", ⟨1, some 1⟩), ("count", ⟨0, some 1⟩), ("group_concat", ⟨1, some 2⟩),
   ("string_agg", ⟨2, some 2⟩), ("max", ⟨1, some 1⟩), ("min", ⟨1, some 1⟩), ("sum", ⟨1, some 1⟩),
   ("total", ⟨1, some 1⟩)]

def Arity.allows (a : Arity) (n : Nat) : Bool :=
  a.least ≤ n && a.most.all (n ≤ ·)

def isAggregate (name : String) (n : Nat) : Bool :=
  (aggregates.lookup name).any fun a => a.allows n

def total (values : List Value) : Float :=
  values.foldl (fun x v => x + Double.toFloat v.toDouble) 0

/-- The result of a function of a group; each row gives its arguments. -/
def aggregate (less : Value → Value → Bool) (name : String) (rows : List (List Value)) :
    Except Fault Value := do
  let values := (rows.filterMap List.head?).filter fun v => !v.isNull
  match name with
  | "count" =>
    return .integer (if rows.all List.isEmpty then rows.length else values.length)
  | "sum" =>
    if values.isEmpty then return .null
    let numbers := values.map Value.number
    if numbers.all fun | .integer _ => true | _ => false then
      let sum := numbers.foldl (fun n v => n + v.toInt) (0 : Int)
      if isInt64 sum then return .integer sum else throw (.invalid "integer overflow")
    return .ofDouble (total values)
  | "total" => return .ofDouble (total values)
  | "avg" =>
    if values.isEmpty then return .null
    return .ofDouble (total values / Float.ofNat values.length)
  | "max" => return extreme (fun a b => less b a) values
  | "min" => return extreme less values
  | "group_concat" | "string_agg" =>
    let kept := rows.filter fun r => !(r.head?.getD .null).isNull
    if kept.isEmpty then return .null
    let texts := kept.zipIdx.flatMap fun (r, i) =>
      let separator := match r with
        | [_, s] => s.bytes
        | _ => Text.utf8 ","
      (if i = 0 then [] else separator) ++ (r.head?.getD .null).bytes
    return .text texts
  | _ => return .null

end Aggregates

/-- Whether there is a function with a name and a number of arguments. -/
def isKnown (name : String) (n : Nat) : Bool :=
  isAggregate name n || (arities.lookup name).any fun a => a.allows n

end EntryCode.Database.Function
