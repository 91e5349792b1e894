import EntryCode.Proofs.Method.Grammar

/-!
Descriptors read by position. A position stands for what is left of the descriptor from there on.
Every read comes after the check that it lies inside, so that reading by position ends as parsing
does, with a descriptor's derivation or with a fault.
-/

namespace EntryCode.Signature

/-- Why a reader by position ends early. A read that lies outside is an end of its own. -/
inductive Halt where
  | fault (f : Fault)
  | outside (i : Nat)
  deriving DecidableEq, Repr

section Positions
variable (s : Bytes)

def byteAt (i : Nat) : Except Halt Byte :=
  if inside : i < s.length then .ok s[i] else .error (.outside i)

def suffixAt (i : Nat) : Except Halt Bytes :=
  if i ≤ s.length then .ok (s.drop i) else .error (.outside i)

/-- A type that is no array, and the position behind it. -/
def elementAt (i : Nat) : Except Halt (BasicType × Nat) :=
  if s.length ≤ i then .error (.fault .truncated)
  else do
    let b ← byteAt s i
    if b = byteOf 'L' then
      let named ← suffixAt s i
      match named.findIdx? (· = byteOf ';') with
      | some k => return (.object, i + k + 1)
      | none => throw (.fault (.openClass (s.length - i)))
    else match letterType? b with
      | some t => return (t, i + 1)
      | none => throw (.fault (.unexpected b (s.length - i)))

/-- The first position from `i` on that holds no bracket. -/
def bracketsAt (i : Nat) : Except Halt Nat :=
  if _inside : i < s.length then do
    let b ← byteAt s i
    if b = byteOf '[' then bracketsAt (i + 1) else return i
  else return i
termination_by s.length - i

def fieldAt (i : Nat) : Except Halt (BasicType × Nat) :=
  if s.length ≤ i then .error (.fault .truncated)
  else do
    let b ← byteAt s i
    if b = byteOf '[' then
      let (t, n) ← elementAt s (← bracketsAt s i)
      if t = .void then throw (.fault .voidArray) else return (.object, n)
    else elementAt s i

/-- An end of reading by what is left, in terms of positions. -/
def located {α : Type} : Except Fault (α × Bytes) → Except Halt (α × Nat)
  | .ok (a, after) => .ok (a, s.length - after.length)
  | .error f => .error (.fault f)

end Positions

section Agreement
variable {s : Bytes} {i : Nat}

/-- What is left of a descriptor is everything from a position on. -/
theorem drop_located {p after : Bytes} (whole : s.drop i = p ++ after) :
    s.drop (s.length - after.length) = after := by
  have suffix : after <:+ s :=
    (List.suffix_append p after).trans (whole ▸ List.drop_suffix i s)
  exact (List.suffix_iff_eq_drop.mp suffix).symm

theorem byte_at_eq {b : Byte} {rest : Bytes} (left : s.drop i = b :: rest) :
    byteAt s i = .ok b ∧ s.drop (i + 1) = rest ∧ rest.length + 1 = s.length - i ∧ i < s.length := by
  have length := congrArg List.length left
  rw [List.length_drop, List.length_cons] at length
  have inside : i < s.length := by omega
  rw [List.drop_eq_getElem_cons inside, List.cons.injEq] at left
  refine ⟨?_, left.2, length.symm, inside⟩
  rw [byteAt, dif_pos inside, left.1]

theorem after_class_eq (s : Bytes) :
    afterClass? s = (s.findIdx? (· = byteOf ';')).map fun k => s.drop (k + 1) := by
  induction s with
  | nil => rfl
  | cons b rest ih =>
      rw [afterClass?, List.findIdx?_cons]
      by_cases last : b = byteOf ';'
      · simp [last]
      · simp [last, ih]
        rfl

/-- The semicolon is looked for behind the letter, or from the letter on. -/
theorem find_semicolon {b : Byte} (rest : Bytes) (other : b ≠ byteOf ';') :
    (b :: rest).findIdx? (· = byteOf ';') =
      (rest.findIdx? (· = byteOf ';')).map (· + 1) := by
  simp [List.findIdx?_cons, other]

theorem element_at_eq (s : Bytes) (i : Nat) :
    elementAt s i = located s (element (s.drop i)) := by
  cases left : s.drop i with
  | nil =>
      rw [elementAt, if_pos (List.drop_eq_nil_iff.mp left)]
      rfl
  | cons b rest =>
      obtain ⟨read, -, length, inside⟩ := byte_at_eq left
      rw [elementAt, if_neg (Nat.not_le.mpr inside), read, element]
      dsimp only [bind, Except.bind]
      by_cases named : b = byteOf 'L'
      · have other : b ≠ byteOf ';' := by
          rw [named]
          decide
        rw [if_pos named, if_pos named, suffixAt, if_pos inside.le, left, after_class_eq]
        dsimp only
        rw [find_semicolon rest other]
        cases found : rest.findIdx? (· = byteOf ';') with
        | none =>
            rw [length]
            rfl
        | some k =>
            have short : k < rest.length := (List.findIdx?_eq_some_iff_getElem.mp found).1
            have position : i + (k + 1) + 1 = s.length - (rest.drop (k + 1)).length := by
              rw [List.length_drop]
              omega
            simp only [Option.map_some, located, position]
            rfl
      · rw [if_neg named, if_neg named]
        cases letterType? b with
        | none =>
            rw [length]
            rfl
        | some t =>
            have position : i + 1 = s.length - rest.length := by omega
            rw [position]
            rfl

theorem brackets_at_eq (s : Bytes) (i : Nat) :
    ∃ n, bracketsAt s i = .ok n ∧ s.drop n = (s.drop i).dropWhile (· = byteOf '[') := by
  fun_induction bracketsAt s i with
  | case1 i inside ih =>
      have left := List.drop_eq_getElem_cons inside
      obtain ⟨read, -, -, -⟩ := byte_at_eq left
      rw [read]
      dsimp only [bind, Except.bind]
      by_cases bracket : s[i] = byteOf '['
      · obtain ⟨n, passed, rest⟩ := ih
        refine ⟨n, by rw [if_pos bracket, passed], ?_⟩
        rw [rest, left]
        simp [bracket]
      · refine ⟨i, by rw [if_neg bracket]; rfl, ?_⟩
        rw [left, List.dropWhile_cons_of_neg (by simpa using bracket)]
  | case2 i past =>
      refine ⟨i, rfl, ?_⟩
      rw [List.drop_eq_nil_iff.mpr (Nat.le_of_not_lt past)]
      rfl

theorem field_at_eq (s : Bytes) (i : Nat) :
    fieldAt s i = located s (field (s.drop i)) := by
  cases left : s.drop i with
  | nil =>
      rw [fieldAt, if_pos (List.drop_eq_nil_iff.mp left)]
      rfl
  | cons b rest =>
      obtain ⟨read, -, -, inside⟩ := byte_at_eq left
      rw [fieldAt, if_neg (Nat.not_le.mpr inside), read, field]
      dsimp only [bind, Except.bind]
      by_cases bracket : b = byteOf '['
      · obtain ⟨n, passed, behind⟩ := brackets_at_eq s i
        rw [left, List.dropWhile_cons_of_pos (by simpa using bracket)] at behind
        rw [if_pos bracket, if_pos bracket, passed]
        dsimp only
        rw [element_at_eq, behind]
        rcases element (rest.dropWhile (· = byteOf '[')) with f | ⟨t, after⟩
        · rfl
        · cases t <;> rfl
      · rw [if_neg bracket, if_neg bracket, element_at_eq, left]

theorem field_at_lt {t : BasicType} {n : Nat} (inside : i < s.length)
    (read : fieldAt s i = .ok (t, n)) : i < n := by
  rw [field_at_eq] at read
  rcases found : field (s.drop i) with f | ⟨t', after⟩
  · rw [found] at read
    cases read
  · rw [found] at read
    cases read
    have shorter := field_length found
    rw [List.length_drop] at shorter
    omega

end Agreement

section Whole
variable (s : Bytes)

/-- The parameters up to the closing parenthesis, and the position behind it. -/
def parametersAt (i : Nat) : Except Halt (List BasicType × Nat) :=
  if _inside : i < s.length then do
    let b ← byteAt s i
    if b = byteOf ')' then return ([], i + 1)
    else match _read : fieldAt s i with
      | .error e => throw e
      | .ok (.void, _) => throw (.fault (.voidParameter (s.length - i)))
      | .ok (t, n) =>
        let (ts, last) ← parametersAt n
        return (t :: ts, last)
  else .error (.fault .missingClose)
termination_by s.length - i
decreasing_by
  have := field_at_lt _inside _read
  omega

def parseAt : Except Halt Signature :=
  if s.take 1 = [byteOf '('] then do
    let (params, i) ← parametersAt s 1
    let (result, n) ← fieldAt s i
    if n = s.length then return { params, result } else throw (.fault .trailing)
  else .error (.fault .missingOpen)

theorem parameters_at_step {i : Nat} {b : Byte} (inside : i < s.length)
    (read : byteAt s i = .ok b) (other : b ≠ byteOf ')') :
    parametersAt s i = match fieldAt s i with
      | .error e => .error e
      | .ok (t, n) =>
        if t = .void then .error (.fault (.voidParameter (s.length - i)))
        else (parametersAt s n).map fun (ts, last) => (t :: ts, last) := by
  rw [parametersAt, dif_pos inside, read]
  dsimp only [bind, Except.bind]
  rw [if_neg other]
  split
  · next failed => rw [failed]; rfl
  · next found => rw [found]; rfl
  · next t after value found =>
      rw [found]
      dsimp only
      rw [if_neg value]
      cases parametersAt s after <;> rfl

theorem parameters_at_eq (i : Nat) :
    parametersAt s i = located s (parameters (s.drop i)) := by
  induction i using parametersAt.induct s with
  | case1 i inside ih =>
      have left := List.drop_eq_getElem_cons inside
      obtain ⟨read, -, length, -⟩ := byte_at_eq left
      by_cases close : s[i] = byteOf ')'
      · rw [parametersAt, dif_pos inside, read, left, parameters, if_pos close, located]
        dsimp only [bind, Except.bind]
        have position : i + 1 = s.length - (s.drop (i + 1)).length := by omega
        rw [if_pos close, ← position]
        rfl
      · have same := field_at_eq s i
        rw [parameters_at_step s inside read close, left, parameters_step _ close, ← left]
        rcases found : field (s.drop i) with f | ⟨t, after⟩
        · rw [same, found]
          rfl
        obtain ⟨p, whole, -⟩ := field_read found
        rw [found, located] at same
        rw [same, ← length]
        dsimp only
        by_cases void : t = .void
        · rw [if_pos void, if_pos void]
          rfl
        · -- The reader goes on at the position of what is left behind the parameter.
          rw [if_neg void, if_neg void, ih t _ same, drop_located whole]
          rcases parameters after with f | ⟨ts, tail⟩ <;> rfl
  | case2 i past =>
      rw [parametersAt, dif_neg past, List.drop_eq_nil_iff.mpr (Nat.le_of_not_lt past), parameters]
      rfl

theorem at_end_iff {b : Byte} (rest after : Bytes) :
    (b :: rest).length - after.length = (b :: rest).length ↔ after = [] := by
  cases after with
  | nil => simp
  | cons c after =>
      simp only [List.length_cons, reduceCtorEq, iff_false]
      omega

theorem parse_at_eq : parseAt s = (parse s).mapError .fault := by
  cases s with
  | nil => rfl
  | cons b rest =>
      rw [parseAt, parse]
      by_cases opens : b = byteOf '('
      · rw [if_pos (by rw [opens]; rfl), if_neg (not_not.mpr opens), parameters_at_eq]
        rw [List.drop_succ_cons, List.drop_zero]
        rcases found : parameters rest with f | ⟨ts, tail⟩
        · rfl
        obtain ⟨parts, whole, -⟩ := parameters_parts found
        have behind : (b :: rest).drop ((b :: rest).length - tail.length) = tail := by
          apply drop_located (i := 1) (p := parts.flatten ++ [byteOf ')'])
          rw [List.drop_succ_cons, List.drop_zero, whole, List.append_assoc]
          rfl
        dsimp only [bind, Except.bind, located]
        rw [field_at_eq, behind]
        rcases field tail with f | ⟨t, after⟩
        · rfl
        dsimp only [located]
        by_cases done : after = []
        · rw [if_pos ((at_end_iff rest after).mpr done), done]
          rfl
        · rw [if_neg (mt (at_end_iff rest after).mp done), if_neg (by simpa using done)]
          rfl
      · rw [if_neg (by simpa using opens), if_pos opens]
        rfl

end Whole

/-- Parsing accepts the language of descriptors. Every descriptor is made up in one way, which gives
the signature and counts its slots; reading by position ends as reading from the front does, so
that no read lies outside, whether a descriptor is accepted or not. -/
theorem descriptors_are_derived (s : Bytes) :
    (∀ sig, parse s = .ok sig ↔ ∃ parts last, Derives s parts last sig) ∧
    (∀ parts last sig parts' last' sig', Derives s parts last sig → Derives s parts' last' sig' →
      parts = parts' ∧ last = last' ∧ sig = sig') ∧
    (∀ parts last sig, Derives s parts last sig →
      sig.slots = parts.length + parts.count [byteOf 'J'] + parts.count [byteOf 'D'] ∧
        .void ∉ sig.params) ∧
    parseAt s = (parse s).mapError .fault ∧ ∀ i, parseAt s ≠ .error (.outside i) := by
  refine ⟨fun sig => parse_ok, ?_, ?_, parse_at_eq s, ?_⟩
  · intro parts last sig parts' last' sig' first second
    have same := (List.cons.inj (first.whole.symm.trans second.whole)).2
    obtain rfl := parts_unique first.params second.params same
    have tails := (List.cons.inj (List.append_cancel_left same)).2
    have read := parse_ok.mpr ⟨parts, last, first⟩
    rw [parse_ok.mpr ⟨parts, last', second⟩] at read
    cases read
    exact ⟨rfl, tails, rfl⟩
  · intro parts last sig derives
    constructor
    · rw [slots_eq, slots_of_parts derives.params]
    · intro void
      exact (parse_read (parse_ok.mpr ⟨parts, last, derives⟩)).1 _ void rfl
  · intro i outside
    rw [parse_at_eq] at outside
    rcases read : parse s with f | sig
    · rw [read] at outside
      cases outside
    · rw [read] at outside
      cases outside

/-- A name that is made of marks ends where the semicolon is, and not where it seems to. -/
theorem name_of_marks :
    ∃ sig, sig = ⟨[.object, .object, .long], .void⟩ ∧
      Derives ("(L)([I;[[JJ)V".toList.map byteOf)
        (["L)([I;", "[[J", "J"].map (·.toList.map byteOf)) [byteOf 'V'] sig ∧
      parse ("(L)([I;[[JJ)V".toList.map byteOf) = .ok sig ∧ sig.slots = 4 := by
  have derives : Derives ("(L)([I;[[JJ)V".toList.map byteOf)
      (["L)([I;", "[[J", "J"].map (·.toList.map byteOf)) [byteOf 'V']
      ⟨[.object, .object, .long], .void⟩ := by
    constructor
    · decide
    · have named : Plain (byteOf 'L' :: ([')', '(', '[', 'I'].map byteOf ++ [byteOf ';'])) .object :=
        .object (by decide)
      have long : Plain [byteOf 'J'] .long := .primitive (by decide)
      exact .cons (.plain named) (.cons (.array 1 long) (.cons (.plain long) .nil))
    · exact .void
  obtain ⟨accepts, -, counts, -⟩ := descriptors_are_derived ("(L)([I;[[JJ)V".toList.map byteOf)
  exact ⟨_, rfl, derives, (accepts _).mpr ⟨_, _, derives⟩, (counts _ _ _ derives).1⟩

end EntryCode.Signature
