import EntryCode.Proofs.Isa.Encoding
import EntryCode.Proofs.Method.Descriptor
import Mathlib

/-!
The language of method descriptors. A descriptor is made up of its parts in one way only, although
a class name may hold any byte that stands for something elsewhere. Parsing finds that way, and a
parameter takes one slot more where it is one of the two long letters.
-/

namespace EntryCode.Signature

section Language

/-- The letters of the values that are neither classes nor arrays. -/
def primitives : List (Char × BasicType) :=
  [('Z', .boolean), ('C', .char), ('B', .byte), ('S', .short), ('I', .int), ('J', .long),
    ('F', .float), ('D', .double)]

/-- The bytes of a value that is no array. -/
inductive Plain : Bytes → BasicType → Prop where
  | primitive {c : Char} {t : BasicType} (known : (c, t) ∈ primitives) : Plain [byteOf c] t
  | object {name : Bytes} (absent : byteOf ';' ∉ name) :
      Plain (byteOf 'L' :: (name ++ [byteOf ';'])) .object

inductive Parameter : Bytes → BasicType → Prop where
  | plain {p : Bytes} {t : BasicType} (plain : Plain p t) : Parameter p t
  | array {p : Bytes} {t : BasicType} (depth : Nat) (plain : Plain p t) :
      Parameter (List.replicate (depth + 1) (byteOf '[') ++ p) .object

inductive Result : Bytes → BasicType → Prop where
  | value {p : Bytes} {t : BasicType} (value : Parameter p t) : Result p t
  | void : Result [byteOf 'V'] .void

/-- `parts` are the parameters in `s` and `last` is its result; `sig` has their types. -/
structure Derives (s : Bytes) (parts : List Bytes) (last : Bytes) (sig : Signature) : Prop where
  whole : s = byteOf '(' :: (parts.flatten ++ byteOf ')' :: last)
  params : List.Forall₂ Parameter parts sig.params
  result : Result last sig.result

end Language

section Elements
variable {s p after : Bytes} {t : BasicType}

theorem after_class_ok :
    afterClass? s = some after ↔ ∃ name, s = name ++ byteOf ';' :: after ∧ byteOf ';' ∉ name := by
  induction s with
  | nil => simp [afterClass?]
  | cons b rest ih =>
      rw [afterClass?]
      by_cases last : b = byteOf ';'
      · rw [if_pos last]
        constructor
        · rintro ⟨⟩
          exact ⟨[], by rw [last]; rfl, List.not_mem_nil⟩
        · rintro ⟨name, whole, absent⟩
          cases name with
          | nil => rw [(List.cons.inj whole).2]
          | cons c name =>
              -- The name would begin with the semicolon.
              obtain ⟨rfl, -⟩ := List.cons.inj whole
              exact absurd (List.mem_cons.mpr (.inl last.symm)) absent
      · rw [if_neg last, ih]
        constructor
        · rintro ⟨name, rfl, absent⟩
          exact ⟨b :: name, rfl, by simp [absent, Ne.symm last]⟩
        · rintro ⟨name, whole, absent⟩
          cases name with
          | nil => exact absurd (List.cons.inj whole).1 last
          | cons c name =>
              obtain ⟨rfl, rest⟩ := List.cons.inj whole
              exact ⟨name, rest, fun inside => absent (List.mem_cons_of_mem _ inside)⟩

theorem letter_type_ok {b : Byte} :
    letterType? b = some t ↔ t ≠ .object ∧ b = byteOf t.letter := by
  constructor
  · intro found
    have letter := List.find?_some found
    have other := List.mem_of_find?_eq_some found
    constructor
    · rintro rfl
      revert other
      decide
    · simpa using (of_decide_eq_true letter).symm
  · rintro ⟨other, rfl⟩
    revert other
    cases t <;> decide

theorem mem_primitives {c : Char} :
    (c, t) ∈ primitives ↔ t ≠ .object ∧ t ≠ .void ∧ c = t.letter := by
  cases t <;> simp [primitives, BasicType.letter]

/-- A type that is no array begins with none of the marks that end or open something. -/
theorem Plain.head (plain : Plain p t) :
    ∃ b rest, p = b :: rest ∧ b ≠ byteOf '[' ∧ b ≠ byteOf ')' := by
  cases plain with
  | primitive known =>
      refine ⟨_, _, rfl, ?_⟩
      obtain ⟨other, value, rfl⟩ := mem_primitives.mp known
      revert other value
      cases t <;> decide
  | object absent => exact ⟨_, _, rfl, by decide⟩

theorem Plain.value (plain : Plain p t) : t ≠ .void := by
  cases plain with
  | primitive known => exact (mem_primitives.mp known).2.1
  | object => decide

theorem Parameter.value (parameter : Parameter p t) : t ≠ .void := by
  cases parameter with
  | plain plain => exact plain.value
  | array => decide

theorem element_letter (other : t ≠ .object) :
    element (byteOf t.letter :: after) = .ok (t, after) := by
  have unnamed : byteOf t.letter ≠ byteOf 'L' := by
    revert other
    cases t <;> decide
  rw [element, if_neg unnamed, letter_type_ok.mpr ⟨other, rfl⟩]

theorem Plain.element_eq (plain : Plain p t) (after : Bytes) :
    element (p ++ after) = .ok (t, after) := by
  cases plain with
  | primitive known =>
      obtain ⟨other, -, rfl⟩ := mem_primitives.mp known
      exact element_letter other
  | @object name absent =>
      have found : afterClass? (name ++ [byteOf ';'] ++ after) = some after :=
        after_class_ok.mpr ⟨name, by simp, absent⟩
      rw [List.cons_append, element, if_pos rfl, found]

theorem element_read (read : element s = .ok (t, after)) :
    ∃ p, s = p ++ after ∧ (Plain p t ∨ p = [byteOf 'V'] ∧ t = .void) := by
  cases s with
  | nil => cases read
  | cons b rest =>
      rw [element] at read
      by_cases named : b = byteOf 'L'
      · rw [if_pos named] at read
        cases found : afterClass? rest with
        | none =>
            rw [found] at read
            cases read
        | some tail =>
            rw [found] at read
            cases read
            obtain ⟨name, rfl, absent⟩ := after_class_ok.mp found
            subst named
            exact ⟨_, by simp, .inl (.object absent)⟩
      · rw [if_neg named] at read
        cases found : letterType? b with
        | none =>
            rw [found] at read
            cases read
        | some t' =>
            rw [found] at read
            cases read
            obtain ⟨other, rfl⟩ := letter_type_ok.mp found
            refine ⟨[byteOf t.letter], rfl, ?_⟩
            by_cases void : t = .void
            · exact .inr ⟨by rw [void]; rfl, void⟩
            · exact .inl (.primitive (mem_primitives.mpr ⟨other, void, rfl⟩))

/-- A run of brackets is passed as a whole, wherever in it one starts. -/
theorem drop_brackets (depth : Nat) (plain : Plain p t) :
    (List.replicate depth (byteOf '[') ++ p ++ after).dropWhile (· = byteOf '[') = p ++ after := by
  obtain ⟨b, rest, rfl, other, -⟩ := plain.head
  induction depth with
  | zero => simp [other]
  | succ depth ih =>
      rw [List.replicate_succ]
      simpa [List.dropWhile] using ih

theorem brackets_dropped (s : Bytes) : ∃ depth,
    s = List.replicate depth (byteOf '[') ++ s.dropWhile (· = byteOf '[') := by
  refine ⟨(s.takeWhile (· = byteOf '[')).length, ?_⟩
  have run : s.takeWhile (· = byteOf '[') =
      List.replicate (s.takeWhile (· = byteOf '[')).length (byteOf '[') := by
    rw [List.eq_replicate_iff]
    exact ⟨rfl, fun c inside => by simpa using List.mem_takeWhile_imp inside⟩
  rw [← run, List.takeWhile_append_dropWhile]

theorem Result.field_eq (result : Result p t) (after : Bytes) :
    field (p ++ after) = .ok (t, after) := by
  cases result with
  | value value =>
      cases value with
      | plain plain =>
          have read := plain.element_eq after
          obtain ⟨b, rest, rfl, other, -⟩ := plain.head
          rw [List.cons_append] at read ⊢
          rw [field, if_neg other, read]
      | @array p t' depth plain =>
          have value := plain.value
          rw [List.replicate_succ, List.cons_append, List.cons_append, field, if_pos rfl,
            drop_brackets depth plain, plain.element_eq after]
          cases t' <;> simp_all
  | void => rfl

theorem field_read (read : field s = .ok (t, after)) : ∃ p, s = p ++ after ∧ Result p t := by
  cases s with
  | nil => cases read
  | cons b rest =>
      rw [field] at read
      by_cases bracket : b = byteOf '['
      · rw [if_pos bracket] at read
        subst bracket
        obtain ⟨depth, whole⟩ := brackets_dropped rest
        split at read
        · cases read
        · next t' tail value found =>
            cases read
            obtain ⟨p, split, plain | ⟨-, void⟩⟩ := element_read found
            · refine ⟨_, ?_, .value (.array depth plain)⟩
              rw [split, ← List.append_assoc] at whole
              rw [List.replicate_succ, List.cons_append, List.cons_append, ← whole]
            · exact absurd void value
        · cases read
      · rw [if_neg bracket] at read
        obtain ⟨p, whole, plain | ⟨rfl, rfl⟩⟩ := element_read read
        · exact ⟨p, whole, .value (.plain plain)⟩
        · exact ⟨_, whole, .void⟩

theorem Result.prefix_unique {p' after' : Bytes} {t' : BasicType} (first : Result p t)
    (second : Result p' t') (same : p ++ after = p' ++ after') :
    p = p' ∧ t = t' ∧ after = after' := by
  have read := first.field_eq after
  rw [same, second.field_eq after'] at read
  cases read
  exact ⟨List.append_cancel_right same, rfl, rfl⟩

end Elements

section Descriptors
variable {s tail : Bytes} {ts : List BasicType} {sig : Signature}

theorem Parameter.head {p : Bytes} {t : BasicType} (parameter : Parameter p t) :
    ∃ b rest, p = b :: rest ∧ b ≠ byteOf ')' := by
  cases parameter with
  | plain plain =>
      obtain ⟨b, rest, whole, -, other⟩ := plain.head
      exact ⟨b, rest, whole, other⟩
  | array depth => exact ⟨_, _, rfl, by decide⟩

theorem parameters_step {b : Byte} (rest : Bytes) (other : b ≠ byteOf ')') :
    parameters (b :: rest) = match field (b :: rest) with
      | .error e => .error e
      | .ok (t, after) =>
        if t = .void then .error (.voidParameter (rest.length + 1))
        else (parameters after).map fun (ts, tail) => (t :: ts, tail) := by
  rw [parameters, if_neg other]
  split
  · next failed => rw [failed]
  · next found => rw [found]; rfl
  · next t after value found =>
      rw [found]
      dsimp only
      rw [if_neg value]
      cases parameters after <;> rfl

theorem parameters_eq {parts : List Bytes} (params : List.Forall₂ Parameter parts ts)
    (tail : Bytes) : parameters (parts.flatten ++ byteOf ')' :: tail) = .ok (ts, tail) := by
  induction params with
  | nil => rw [List.flatten_nil, List.nil_append, parameters, if_pos rfl]
  | @cons p t parts ts parameter _ ih =>
      have read := (Result.value parameter).field_eq (parts.flatten ++ byteOf ')' :: tail)
      obtain ⟨b, rest, rfl, other⟩ := parameter.head
      -- The bytes that follow are those of the other parameters, so the rest is read by induction.
      rw [List.cons_append] at read
      rw [List.flatten_cons, List.append_assoc, List.cons_append, parameters_step _ other, read]
      dsimp only
      rw [if_neg parameter.value, ih]
      rfl

theorem parameters_parts (read : parameters s = .ok (ts, tail)) : ∃ parts : List Bytes,
    s = parts.flatten ++ byteOf ')' :: tail ∧ List.Forall₂ Parameter parts ts := by
  fun_induction parameters s generalizing ts with
  | case1 => cases read
  | case2 rest =>
      cases read
      exact ⟨[], rfl, .nil⟩
  | case3 => cases read
  | case4 => cases read
  | case5 b rest _ t after value found ts' tail' later ih =>
      cases read
      obtain ⟨parts, rfl, params⟩ := ih later
      obtain ⟨p, whole, result⟩ := field_read found
      cases result with
      | value parameter =>
          refine ⟨p :: parts, ?_, .cons parameter params⟩
          rw [whole, List.flatten_cons, List.append_assoc]
      | void => exact absurd rfl value
  | case6 => cases read

theorem parts_unique {parts parts' : List Bytes} {ts' : List BasicType} {tail' : Bytes}
    (first : List.Forall₂ Parameter parts ts) (second : List.Forall₂ Parameter parts' ts')
    (same : parts.flatten ++ byteOf ')' :: tail = parts'.flatten ++ byteOf ')' :: tail') :
    parts = parts' := by
  -- Where one list ends and the other does not, a parameter would begin with the parenthesis.
  induction first generalizing parts' ts' with
  | nil =>
      cases second with
      | nil => rfl
      | cons parameter =>
          obtain ⟨b, rest, rfl, other⟩ := parameter.head
          exact absurd (List.cons.inj same).1.symm other
  | cons parameter _ ih =>
      cases second with
      | nil =>
          obtain ⟨b, rest, rfl, other⟩ := parameter.head
          exact absurd (List.cons.inj same).1 other
      | cons parameter' second =>
          rw [List.flatten_cons, List.flatten_cons, List.append_assoc, List.append_assoc] at same
          obtain ⟨rfl, -, later⟩ := Result.prefix_unique (.value parameter) (.value parameter') same
          rw [ih second later]

theorem parse_ok : parse s = .ok sig ↔ ∃ parts last, Derives s parts last sig := by
  constructor
  · intro read
    cases s with
    | nil => cases read
    | cons b rest =>
        rw [parse] at read
        by_cases opens : b = byteOf '('
        · rw [if_neg (not_not.mpr opens)] at read
          obtain ⟨⟨ts, tail⟩, found, read⟩ := bind_ok.mp read
          obtain ⟨⟨t, after⟩, ended, read⟩ := bind_ok.mp read
          obtain ⟨parts, whole, params⟩ := parameters_parts found
          obtain ⟨last, split, result⟩ := field_read ended
          cases after with
          | nil =>
              cases read
              rw [List.append_nil] at split
              exact ⟨parts, last, by rw [opens, whole, split], params, result⟩
          | cons => cases read
        · rw [if_pos opens] at read
          cases read
  · rintro ⟨parts, last, rfl, params, result⟩
    have read := result.field_eq []
    rw [List.append_nil] at read
    rw [parse, if_neg (not_not.mpr rfl), parameters_eq params last]
    dsimp only [bind, Except.bind]
    rw [read]
    rfl

end Descriptors

section Slots
variable {parts : List Bytes} {ts : List BasicType}

theorem Parameter.slots {p : Bytes} {t : BasicType} (parameter : Parameter p t) :
    t.slots = 1 + (if p = [byteOf 'J'] then 1 else 0) + if p = [byteOf 'D'] then 1 else 0 := by
  cases parameter with
  | plain plain =>
      cases plain with
      | primitive known =>
          obtain ⟨other, value, rfl⟩ := mem_primitives.mp known
          revert other value
          cases t <;> decide
      | object =>
          rw [if_neg (by simp), if_neg (by simp)]
          rfl
  | array depth =>
      have long : byteOf '[' ≠ byteOf 'J' := by decide
      have double : byteOf '[' ≠ byteOf 'D' := by decide
      rw [List.replicate_succ, List.cons_append, if_neg (by simp [long]), if_neg (by simp [double])]
      rfl

theorem slots_of_parts (params : List.Forall₂ Parameter parts ts) :
    (ts.map BasicType.slots).sum =
      parts.length + parts.count [byteOf 'J'] + parts.count [byteOf 'D'] := by
  induction params with
  | nil => rfl
  | cons parameter _ ih =>
      rw [List.map_cons, List.sum_cons, ih, parameter.slots, List.length_cons, List.count_cons,
        List.count_cons]
      simp only [beq_iff_eq]
      omega

end Slots

end EntryCode.Signature
