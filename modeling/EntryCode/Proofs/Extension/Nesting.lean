import EntryCode.Extension.Scope
import Mathlib

/-!
Overrides of an extension set nest like scopes. A revert knows its override only by a depth; over
any history of calls it takes effect at most once, only while its own override is the innermost one
that is left, and what it pops is the entry that this override pushed.
-/

namespace EntryCode

/-- A call on a scope, or of one of the reverts that it handed out. -/
inductive ScopeCall where
  | override (s : Extensions)
  | allowAll
  | revert (i : Nat)
  deriving DecidableEq, Repr

namespace ScopeCall

def installs : ScopeCall → Bool
  | override _ | allowAll => true
  | revert _ => false

def run (c : ExtensionScope) : ScopeCall → ExtensionScope
  | override s => c.override s
  | allowAll => c.allowAll
  | revert i => (c.revert i).1

theorem shape (call : ScopeCall) :
    (∃ s, (∀ c, call.run c = c.override s) ∧ call.installs = true ∧ ∀ i, call ≠ revert i) ∨
      ∃ i, call = revert i := by
  cases call with
  | override s => exact .inl ⟨s, fun _ => rfl, rfl, nofun⟩
  | allowAll => exact .inl ⟨.all, fun _ => rfl, rfl, nofun⟩
  | revert i => exact .inr ⟨i, rfl⟩

end ScopeCall

namespace ExtensionScope

section History
variable (initial : Extensions) (history : List ScopeCall) (i : Nat)

/-- How many overrides were made. Each has as its number how many came before it. -/
def overrides : Nat :=
  history.countP ScopeCall.installs

def after : ExtensionScope :=
  history.foldl ScopeCall.run (new initial)

/-- A call of revert `i` takes effect on a scope: the saved sets change. -/
def Pops (c : ExtensionScope) (i : Nat) : Prop :=
  (c.revert i).1.saved ≠ c.saved

instance (c : ExtensionScope) : Decidable (c.Pops i) :=
  inferInstanceAs (Decidable (_ ≠ _))

/-- Revert `i` was called, after it was handed out. -/
def Called : Prop :=
  ∃ earlier later, history = earlier ++ .revert i :: later ∧ i < overrides earlier

/-- A call of revert `i` took effect. -/
def Reverted : Prop :=
  ∃ earlier later, history = earlier ++ .revert i :: later ∧ (after initial earlier).Pops i

/-- Override `i` was made and is not reverted yet. -/
def Open : Prop :=
  i < overrides history ∧ ¬Reverted initial history i

def Innermost : Prop :=
  Open initial history i ∧ ∀ j, Open initial history j → j ≤ i

/-- `earlier` is what came before override `i`. -/
def Precedes (earlier : List ScopeCall) : Prop :=
  ∃ call later, history = earlier ++ call :: later ∧ call.installs = true ∧ overrides earlier = i

end History

section Step
variable (c : ExtensionScope) (i : Nat)

/-- What a revert can come to. -/
inductive Outcome : ExtensionScope × Option Violation → Prop
  /-- There is no such revert, or it was used before. -/
  | silent (spent : ∀ r, c.reverts[i]? = some r → r.used = true) : Outcome (c, none)
  | refused {r : Revert} (found : c.reverts[i]? = some r) (unused : r.used = false)
      (apart : c.saved.length ≠ r.depth) :
      Outcome (c.use i r, some (.revertOrder r.depth c.saved.length))
  | popped {r : Revert} {s : Extensions} {rest : List Extensions}
      (found : c.reverts[i]? = some r) (unused : r.used = false) (saved : c.saved = s :: rest)
      (depth : rest.length + 1 = r.depth) :
      Outcome ({ c.use i r with current := s, saved := rest }, none)

variable {c i}

theorem revert_outcome (deep : ∀ r ∈ c.reverts, r.depth ≠ 0) : Outcome c i (c.revert i) := by
  unfold revert
  split
  · next missing => exact .silent fun r found => by rw [missing] at found; cases found
  · next r found =>
      split
      · next used =>
          refine .silent fun q same => ?_
          rw [found] at same
          cases same
          exact used
      · next unused =>
          rw [Bool.not_eq_true] at unused
          split
          · next apart => exact .refused found unused apart
          · next depth =>
              rw [not_not] at depth
              split
              · next empty =>
                  rw [empty] at depth
                  exact absurd depth.symm (deep r (List.mem_of_getElem? found))
              · next s rest saved =>
                  rw [saved] at depth
                  exact .popped found unused saved depth

/-- A call of a revert uses it up, whatever else it does. -/
theorem reverts_revert :
    (c.revert i).1.reverts = c.reverts.modify i fun r => { r with used := true } := by
  have spends : ∀ r, c.reverts[i]? = some r →
      c.reverts.set i { r with used := true } =
        c.reverts.modify i fun r => { r with used := true } := by
    intro r found
    rw [List.modify_eq_set_getElem?, found]
    rfl
  unfold revert
  split
  · next missing =>
      rw [List.modify_eq_self (List.getElem?_eq_none_iff.mp missing)]
  · next r found =>
      rw [← spends r found]
      split
      · next used =>
          have same : { r with used := true } = r := by rw [← used]
          obtain ⟨inside, here⟩ := List.getElem?_eq_some_iff.mp found
          rw [same, ← here, List.set_getElem_self]
      · split
        · rfl
        · split <;> rfl

end Step

section Handed
variable {initial : Extensions} {history : List ScopeCall} {c : ExtensionScope}

def depths (c : ExtensionScope) : List Nat :=
  c.reverts.map Revert.depth

theorem after_append (later : List ScopeCall) :
    after initial (history ++ later) = later.foldl ScopeCall.run (after initial history) :=
  List.foldl_append

theorem after_snoc (call : ScopeCall) :
    after initial (history ++ [call]) = call.run (after initial history) :=
  after_append [call]

theorem overrides_append (later : List ScopeCall) :
    overrides (history ++ later) = overrides history + overrides later :=
  List.countP_append

theorem overrides_revert (i : Nat) :
    overrides (history ++ [ScopeCall.revert i]) = overrides history :=
  overrides_append _

/-- An override hands out a revert; a revert leaves all depths as they are. -/
theorem depths_run (call : ScopeCall) : depths (call.run c) =
    depths c ++ if call.installs then [c.saved.length + 1] else [] := by
  cases call with
  | override | allowAll => exact List.map_append
  | revert i =>
      have kept : ∀ r : Revert, { r with used := true }.depth = r.depth := fun _ => rfl
      rw [depths, ScopeCall.run, reverts_revert, ScopeCall.installs, depths]
      simp only [Bool.false_eq_true, if_false, List.append_nil]
      apply List.ext_getElem?
      intro k
      rw [List.getElem?_map, List.getElem?_modify, List.getElem?_map]
      cases c.reverts[k]? with
      | none => rfl
      | some r => by_cases here : i = k <;> simp [here]

theorem depths_prefix (later : List ScopeCall) :
    depths c <+: depths (later.foldl ScopeCall.run c) := by
  induction later generalizing c with
  | nil => exact List.prefix_refl _
  | cons call rest ih =>
      have first : depths c <+: depths (call.run c) := by
        rw [depths_run]
        exact List.prefix_append ..
      exact first.trans ih

variable (initial history) in
theorem length_depths : (depths (after initial history)).length = overrides history := by
  induction history using List.reverseRecOn with
  | nil => rfl
  | append_singleton earlier call ih =>
      rw [after_snoc, depths_run, List.length_append, ih, overrides_append]
      cases call <;> rfl

variable (initial history) in
theorem length_reverts : (after initial history).reverts.length = overrides history := by
  rw [← length_depths initial history, depths, List.length_map]

theorem made_of_found {i : Nat} {r : Revert}
    (found : (after initial history).reverts[i]? = some r) : i < overrides history := by
  rw [← length_reverts initial history]
  exact (List.getElem?_eq_some_iff.mp found).1

theorem depth_of_precedes {earlier : List ScopeCall} {i : Nat}
    (precedes : Precedes history i earlier) :
    (depths (after initial history))[i]? = some ((after initial earlier).saved.length + 1) := by
  obtain ⟨call, later, rfl, installs, rfl⟩ := precedes
  have made : depths (after initial (earlier ++ [call])) =
      depths (after initial earlier) ++ [(after initial earlier).saved.length + 1] := by
    rw [after_snoc, depths_run, if_pos installs]
  have kept : depths (after initial (earlier ++ [call])) <+:
      depths (after initial (earlier ++ call :: later)) := by
    rw [List.append_cons earlier call later, after_append later]
    exact depths_prefix later
  rw [made] at kept
  obtain ⟨more, split⟩ := kept
  rw [← split, ← length_depths initial earlier, List.append_assoc,
    List.getElem?_append_right le_rfl, Nat.sub_self]
  rfl

theorem depth_positive : ∀ r ∈ (after initial history).reverts, r.depth ≠ 0 := by
  have positive : ∀ d ∈ depths (after initial history), d ≠ 0 := by
    induction history using List.reverseRecOn with
    | nil => nofun
    | append_singleton earlier call ih =>
        intro d member
        rw [after_snoc, depths_run, List.mem_append] at member
        rcases member with old | fresh
        · exact ih d old
        · split at fresh
          · rw [List.mem_singleton.mp fresh]
            exact Nat.succ_ne_zero _
          · cases fresh
  intro r member
  exact positive r.depth (List.mem_map_of_mem member)

variable (initial history) in
theorem outcome (i : Nat) :
    Outcome (after initial history) i ((after initial history).revert i) :=
  revert_outcome depth_positive

end Handed

section Calls
variable {initial : Extensions} {history : List ScopeCall} {i : Nat}

/-- The last call of a history is apart from those before it. -/
theorem split_snoc {P : List ScopeCall → Prop} {x y : ScopeCall} :
    (∃ earlier later, history ++ [x] = earlier ++ y :: later ∧ P earlier) ↔
      (∃ earlier later, history = earlier ++ y :: later ∧ P earlier) ∨ x = y ∧ P history := by
  constructor
  · rintro ⟨earlier, later, same, holds⟩
    rcases List.eq_nil_or_concat' later with rfl | ⟨init, last, rfl⟩
    · obtain ⟨rfl, rest⟩ := List.append_inj' same rfl
      exact .inr ⟨(List.cons.inj rest).1, holds⟩
    · rw [← List.cons_append, ← List.append_assoc] at same
      obtain ⟨rfl, -⟩ := List.append_inj' same rfl
      exact .inl ⟨earlier, init, rfl, holds⟩
  · rintro (⟨earlier, later, rfl, holds⟩ | ⟨rfl, holds⟩)
    · exact ⟨earlier, later ++ [x], by rw [List.append_assoc, List.cons_append], holds⟩
    · exact ⟨history, [], rfl, holds⟩

theorem called_snoc {call : ScopeCall} : Called (history ++ [call]) i ↔
    Called history i ∨ call = .revert i ∧ i < overrides history :=
  split_snoc

theorem reverted_snoc {call : ScopeCall} : Reverted initial (history ++ [call]) i ↔
    Reverted initial history i ∨ call = .revert i ∧ (after initial history).Pops i :=
  split_snoc

theorem Called.made (called : Called history i) : i < overrides history := by
  obtain ⟨earlier, later, rfl, made⟩ := called
  rw [overrides_append]
  exact Nat.lt_add_right _ made

/-- Exactly the reverts that were called are used. -/
theorem used_iff {r : Revert} (found : (after initial history).reverts[i]? = some r) :
    r.used = true ↔ Called history i := by
  induction history using List.reverseRecOn generalizing r with
  | nil => cases found
  | append_singleton earlier call ih =>
      rw [called_snoc]
      rw [after_snoc] at found
      rcases call.shape with ⟨s, runs, -, other⟩ | ⟨k, rfl⟩
      · rw [runs] at found
        rw [or_iff_left fun last => other i last.1]
        by_cases old : i < overrides earlier
        · rw [← length_reverts initial earlier] at old
          exact ih (by rwa [override, List.getElem?_append_left old] at found)
        · have fresh : r.used = false := by
            rw [← length_reverts initial earlier, Nat.not_lt] at old
            rw [override, List.getElem?_append_right old] at found
            rw [List.mem_singleton.mp (List.mem_of_getElem? found)]
          rw [fresh]
          exact ⟨nofun, fun called => absurd called.made old⟩
      · rw [ScopeCall.run, reverts_revert, List.getElem?_modify] at found
        obtain ⟨q, before, rfl⟩ := Option.map_eq_some_iff.mp found
        by_cases here : k = i
        · simp [here, made_of_found before]
        · have other : ScopeCall.revert k ≠ .revert i := fun same =>
            here (ScopeCall.revert.inj same)
          simp [here, other, ih before]

theorem Pops.unused {c : ExtensionScope} (pops : c.Pops i)
    (deep : ∀ r ∈ c.reverts, r.depth ≠ 0) :
    ∃ r s rest, c.reverts[i]? = some r ∧ r.used = false ∧ c.saved = s :: rest ∧
      rest.length + 1 = r.depth ∧
      c.revert i = ({ c.use i r with current := s, saved := rest }, none) := by
  have came := revert_outcome (i := i) deep
  rw [Pops] at pops
  generalize same : c.revert i = result at came pops
  cases came with
  | silent | refused => exact absurd rfl pops
  | popped found unused saved depth => exact ⟨_, _, _, found, unused, saved, depth, rfl⟩

theorem Reverted.called (reverted : Reverted initial history i) : Called history i := by
  obtain ⟨earlier, later, same, pops⟩ := reverted
  obtain ⟨r, _, _, found, -⟩ := pops.unused depth_positive
  exact ⟨earlier, later, same, made_of_found found⟩

theorem open_of_uncalled (made : i < overrides history) (uncalled : ¬Called history i) :
    Open initial history i :=
  ⟨made, fun reverted => uncalled reverted.called⟩

end Calls

section Stack
variable {initial : Extensions} {history : List ScopeCall} {i : Nat} {s : Extensions}
  {rest saved : List Extensions} {below owners : List Nat}

/-- Override `i` was made over the set `s` and the saved sets `rest`. The entry that it pushed has
been there ever since. -/
def Pushed (initial : Extensions) (history : List ScopeCall) (i : Nat) (s : Extensions)
    (rest : List Extensions) : Prop :=
  ∃ earlier call later, history = earlier ++ call :: later ∧ call.installs = true ∧
    overrides earlier = i ∧ (after initial earlier).current = s ∧
    (after initial earlier).saved = rest ∧
    ∀ mid, mid <+: later → s :: rest <:+ (after initial (earlier ++ call :: mid)).saved

/-- Each saved set belongs to an override, an inner one to a later override. -/
inductive Owned (initial : Extensions) (history : List ScopeCall) :
    List Extensions → List Nat → Prop
  | nil : Owned initial history [] []
  | cons {s : Extensions} {rest : List Extensions} {i : Nat} {below : List Nat}
      (pushed : Pushed initial history i s rest) (later : ∀ j ∈ below, j < i)
      (owned : Owned initial history rest below) :
      Owned initial history (s :: rest) (i :: below)

theorem Pushed.depth (pushed : Pushed initial history i s rest) :
    (depths (after initial history))[i]? = some (rest.length + 1) := by
  obtain ⟨earlier, call, later, same, installs, number, -, rfl, -⟩ := pushed
  exact depth_of_precedes ⟨call, later, same, installs, number⟩

theorem Pushed.snoc (pushed : Pushed initial history i s rest) (call : ScopeCall)
    (kept : s :: rest <:+ (after initial (history ++ [call])).saved) :
    Pushed initial (history ++ [call]) i s rest := by
  obtain ⟨earlier, first, later, rfl, installs, number, current, below, stays⟩ := pushed
  refine ⟨earlier, first, later ++ [call], by rw [List.append_assoc, List.cons_append], installs,
    number, current, below, fun mid part => ?_⟩
  rcases List.prefix_concat_iff.mp part with whole | part
  · rw [whole, ← List.cons_append, ← List.append_assoc]
    exact kept
  · exact stays mid part

theorem Owned.snoc (owned : Owned initial history saved owners) (call : ScopeCall)
    (kept : saved <:+ (after initial (history ++ [call])).saved) :
    Owned initial (history ++ [call]) saved owners := by
  induction owned with
  | nil => exact .nil
  | cons pushed later owned ih =>
      exact .cons (pushed.snoc call kept) later (ih ((List.suffix_cons ..).trans kept))

/-- The revert of an override that owns an entry has the entry's depth. -/
theorem Owned.depth (owned : Owned initial history saved owners) (member : i ∈ owners) :
    ∃ d, (depths (after initial history))[i]? = some d ∧ d ≤ saved.length := by
  induction owned with
  | nil => cases member
  | cons pushed later owned ih =>
      rw [List.length_cons]
      rcases List.mem_cons.mp member with rfl | deeper
      · exact ⟨_, pushed.depth, le_rfl⟩
      · obtain ⟨d, depth, bound⟩ := ih deeper
        exact ⟨d, depth, by omega⟩

/-- The saved sets belong to the overrides that are open. -/
structure Stacked (initial : Extensions) (history : List ScopeCall) (owners : List Nat) :
    Prop where
  owned : Owned initial history (after initial history).saved owners
  opens : ∀ j, j ∈ owners ↔ Open initial history j

/-- A revert that takes effect is that of the override on top. -/
theorem Stacked.top (stacked : Stacked initial history owners)
    (pops : (after initial history).Pops i) :
    ∃ s rest below, (after initial history).saved = s :: rest ∧ owners = i :: below ∧
      Pushed initial history i s rest ∧ (∀ j ∈ below, j < i) ∧
        Owned initial history rest below := by
  obtain ⟨owned, opens⟩ := stacked
  obtain ⟨r, s, rest, found, unused, saved, depth, -⟩ := pops.unused depth_positive
  have uncalled : ¬Called history i := by
    rw [← used_iff found, unused]
    exact Bool.false_ne_true
  have member := (opens i).mpr (open_of_uncalled (made_of_found found) uncalled)
  rw [saved] at owned ⊢
  cases owned with
  | cons pushed later owned =>
      rcases List.mem_cons.mp member with rfl | deeper
      · exact ⟨s, rest, _, rfl, rfl, pushed, later, owned⟩
      · -- Below the top every revert has a smaller depth than the stack.
        obtain ⟨d, at_depth, bound⟩ := owned.depth deeper
        rw [depths, List.getElem?_map, found, Option.map_some, Option.some.injEq] at at_depth
        omega

theorem open_snoc (call : ScopeCall) {j : Nat} : Open initial (history ++ [call]) j ↔
    j < overrides (history ++ [call]) ∧ ¬Reverted initial history j ∧
      ¬(call = .revert j ∧ (after initial history).Pops j) := by
  rw [Open, reverted_snoc, not_or]

/-- A new override is later than all others and lies on top of them. -/
theorem Stacked.install (stacked : Stacked initial history owners) {call : ScopeCall}
    (runs : ∀ c, call.run c = c.override s) (installs : call.installs = true)
    (other : ∀ j, call ≠ .revert j) :
    Stacked initial (history ++ [call]) (overrides history :: owners) := by
  obtain ⟨owned, opens⟩ := stacked
  have saved : (after initial (history ++ [call])).saved =
      (after initial history).current :: (after initial history).saved := by
    rw [after_snoc, runs]
    rfl
  have number : overrides (history ++ [call]) = overrides history + 1 := by
    rw [overrides_append, overrides, overrides, List.countP_singleton, if_pos installs]
  constructor
  · rw [saved]
    refine .cons ⟨history, call, [], rfl, installs, rfl, rfl, rfl, ?_⟩ ?_ ?_
    · intro mid part
      rw [List.prefix_nil.mp part, saved]
    · intro j member
      exact ((opens j).mp member).1
    · refine owned.snoc call ?_
      rw [saved]
      exact List.suffix_cons ..
  · intro j
    rw [open_snoc, number, List.mem_cons, opens, Open]
    constructor
    · rintro (rfl | ⟨made, unreverted⟩)
      · exact ⟨Nat.lt_succ_self _, fun reverted => (Nat.lt_irrefl _ reverted.called.made),
          fun last => other _ last.1⟩
      · exact ⟨Nat.lt_succ_of_lt made, unreverted, fun last => other _ last.1⟩
    · rintro ⟨made, unreverted, -⟩
      rcases Nat.lt_succ_iff_lt_or_eq.mp made with made | last
      · exact .inr ⟨made, unreverted⟩
      · exact .inl last

theorem Stacked.pop (stacked : Stacked initial history owners)
    (pops : (after initial history).Pops i) :
    ∃ below, Stacked initial (history ++ [ScopeCall.revert i]) below := by
  obtain ⟨s, rest, below, saved, rfl, -, later, deeper⟩ := stacked.top pops
  have left : (after initial (history ++ [ScopeCall.revert i])).saved = rest := by
    obtain ⟨r, t, more, -, -, same, -, result⟩ := pops.unused depth_positive
    rw [saved] at same
    rw [after_snoc, ScopeCall.run, result, (List.cons.inj same).2]
  refine ⟨below, ?_, fun j => ?_⟩
  · rw [left]
    refine deeper.snoc _ ?_
    rw [left]
  · have others : j ∈ below ↔ j ∈ i :: below ∧ j ≠ i := by
      rw [List.mem_cons]
      constructor
      · intro member
        exact ⟨.inr member, (later j member).ne⟩
      · rintro ⟨rfl | member, apart⟩
        · exact absurd rfl apart
        · exact member
    rw [others, stacked.opens, open_snoc, overrides_revert, Open, and_assoc]
    refine and_congr_right fun _ => and_congr_right fun _ => not_congr ?_
    constructor
    · rintro rfl
      exact ⟨rfl, pops⟩
    · rintro ⟨same, -⟩
      exact (ScopeCall.revert.inj same).symm

/-- Any other call of a revert leaves all saved sets where they are. -/
theorem Stacked.idle (stacked : Stacked initial history owners)
    (idle : ¬(after initial history).Pops i) :
    Stacked initial (history ++ [ScopeCall.revert i]) owners := by
  have kept : (after initial (history ++ [ScopeCall.revert i])).saved =
      (after initial history).saved := by
    rw [after_snoc]
    exact not_not.mp idle
  constructor
  · rw [kept]
    refine stacked.owned.snoc _ ?_
    rw [kept]
  · intro j
    rw [stacked.opens, open_snoc, overrides_revert, Open]
    refine and_congr_right fun _ => (and_iff_left ?_).symm
    rintro ⟨same, pops⟩
    exact idle (ScopeCall.revert.inj same ▸ pops)

/-- After any history the saved sets belong to the overrides that are open. -/
theorem exists_stacked (initial : Extensions) (history : List ScopeCall) :
    ∃ owners, Stacked initial history owners := by
  induction history using List.reverseRecOn with
  | nil =>
      exact ⟨[], .nil, fun j => ⟨nofun, fun opened => absurd opened.1 (Nat.not_lt_zero j)⟩⟩
  | append_singleton history call ih =>
      obtain ⟨owners, stacked⟩ := ih
      rcases call.shape with ⟨s, runs, installs, other⟩ | ⟨k, rfl⟩
      · exact ⟨_, stacked.install runs installs other⟩
      · by_cases pops : (after initial history).Pops k
        · exact stacked.pop pops
        · exact ⟨owners, stacked.idle pops⟩

end Stack

section Nesting
variable (initial : Extensions) (history : List ScopeCall) (i : Nat)

/-- A revert takes effect exactly at its first call, if that comes while its override is the
innermost one. -/
theorem pops_iff : (after initial history).Pops i ↔
    ¬Called history i ∧ Innermost initial history i := by
  obtain ⟨owners, stacked⟩ := exists_stacked initial history
  constructor
  · intro pops
    obtain ⟨r, -, -, found, unused, -⟩ := pops.unused depth_positive
    obtain ⟨-, -, below, -, rfl, -, later, -⟩ := stacked.top pops
    refine ⟨?_, (stacked.opens i).mp List.mem_cons_self, ?_⟩
    · rw [← used_iff found, unused]
      exact Bool.false_ne_true
    · intro j opened
      rcases List.mem_cons.mp ((stacked.opens j).mpr opened) with rfl | deeper
      · exact le_rfl
      · exact (later j deeper).le
  · rintro ⟨uncalled, opened, inner⟩
    obtain ⟨owned, opens⟩ := stacked
    have inside := opened.1
    rw [← length_reverts initial history] at inside
    have found := List.getElem?_eq_getElem inside
    generalize (after initial history).reverts[i] = r at found
    have unused : r.used = false := by
      rw [← Bool.not_eq_true, used_iff found]
      exact uncalled
    -- The innermost override owns the top of the stack, and was made at its depth.
    have deepest : r.depth = (after initial history).saved.length := by
      have member := (opens i).mpr opened
      generalize (after initial history).saved = saved at owned
      cases owned with
      | nil => cases member
      | @cons s rest top below pushed later owned =>
          obtain rfl : i = top := by
            rcases List.mem_cons.mp member with here | deeper
            · exact here
            · have above := later i deeper
              have below := inner top ((opens top).mp List.mem_cons_self)
              omega
          have depth := pushed.depth
          rw [depths, List.getElem?_map, found] at depth
          exact Option.some.inj depth
    have came := outcome initial history i
    rw [Pops]
    generalize (after initial history).revert i = result at came
    cases came with
    | silent spent => exact absurd (spent r found) (by rw [unused]; exact Bool.false_ne_true)
    | refused there _ apart =>
        rw [found] at there
        cases there
        exact absurd deepest.symm apart
    | popped _ _ there =>
        rw [there]
        exact fun same => List.cons_ne_self _ _ same.symm

/-- Reverts that fail or come again leave the scope as it is. -/
theorem kept_of_not_pops {c : ExtensionScope} (deep : ∀ r ∈ c.reverts, r.depth ≠ 0)
    (idle : ¬c.Pops i) : (c.revert i).1.current = c.current ∧ (c.revert i).1.saved = c.saved := by
  have came := revert_outcome (i := i) deep
  rw [Pops] at idle
  generalize c.revert i = result at came idle
  cases came with
  | silent | refused => exact ⟨rfl, rfl⟩
  | popped _ _ saved =>
      rw [saved, not_not] at idle
      exact absurd idle.symm (List.cons_ne_self _ _)

/-- An error comes exactly at the first call of a revert whose override is not the innermost one;
it names the depth of this override and that of the stack. -/
theorem refused_iff (v : Violation) : ((after initial history).revert i).2 = some v ↔
    (i < overrides history ∧ ¬Called history i ∧ ¬Innermost initial history i) ∧
      ∃ depth, (depths (after initial history))[i]? = some depth ∧
        v = .revertOrder depth (after initial history).saved.length := by
  have takes := pops_iff initial history i
  have came := outcome initial history i
  rw [Pops] at takes
  have known : ∀ r, (after initial history).reverts[i]? = some r → i < overrides history :=
    fun _ => made_of_found
  generalize (after initial history).revert i = result at came takes
  cases came with
  | silent spent =>
      refine ⟨nofun, ?_⟩
      rintro ⟨⟨made, uncalled, -⟩, -⟩
      rw [← length_reverts initial history] at made
      have found := List.getElem?_eq_getElem made
      exact absurd ((used_iff found).mp (spent _ found)) uncalled
  | refused found unused apart =>
      have uncalled : ¬Called history i := by
        rw [← used_iff found, unused]
        exact Bool.false_ne_true
      have outer : ¬Innermost initial history i := fun inner =>
        takes.mpr ⟨uncalled, inner⟩ rfl
      rw [and_iff_right ⟨known _ found, uncalled, outer⟩, depths, List.getElem?_map, found]
      simp only [Option.map_some, Option.some.injEq, exists_eq_left', @eq_comm _ v]
  | popped found unused saved depth =>
      refine ⟨nofun, ?_⟩
      rintro ⟨⟨-, uncalled, outer⟩, -⟩
      have inner : ¬Called history i ∧ Innermost initial history i := by
        rw [← takes, saved]
        exact fun same => List.cons_ne_self _ _ same.symm
      exact absurd inner.2 outer

/-- Overrides nest like scopes. -/
theorem overrides_nest :
    let c := after initial history
    (c.Pops i ↔ ¬Called history i ∧ Innermost initial history i) ∧
    (c.Pops i → ∃ s rest, Pushed initial history i s rest ∧ c.saved = s :: rest ∧
      (c.revert i).1.current = s ∧ (c.revert i).1.saved = rest ∧ (c.revert i).2 = none) ∧
    (¬c.Pops i → (c.revert i).1.current = c.current ∧ (c.revert i).1.saved = c.saved) ∧
    (∀ v, (c.revert i).2 = some v ↔
      (i < overrides history ∧ ¬Called history i ∧ ¬Innermost initial history i) ∧
        ∃ depth, (depths c)[i]? = some depth ∧ v = .revertOrder depth c.saved.length) ∧
    (i < overrides history →
      ∀ more, ¬(after initial (history ++ .revert i :: more)).Pops i) := by
  refine ⟨pops_iff initial history i, ?_, kept_of_not_pops i depth_positive,
    refused_iff initial history i, ?_⟩
  · intro pops
    obtain ⟨owners, stacked⟩ := exists_stacked initial history
    obtain ⟨s, rest, -, saved, -, pushed, -, -⟩ := stacked.top pops
    obtain ⟨r, t, more, -, -, same, -, result⟩ := pops.unused depth_positive
    rw [saved] at same
    cases same
    exact ⟨s, rest, pushed, saved, by rw [result], by rw [result], by rw [result]⟩
  · intro made more pops
    exact ((pops_iff initial _ i).mp pops).1 ⟨history, more, rfl, made⟩

/-- After a call out of order and a revert, an override is made again at the depth of the one that
was reverted. Its own revert takes it back, once. -/
theorem override_made_again_is_reverted :
    let history := [.allowAll, .override .none, .revert 0, .revert 1, .override .zba]
    2 < overrides history ∧ (after .d history).Pops 2 ∧
      ((after .d history).revert 2).1.current = .all ∧
      ¬(after .d (history ++ [.revert 2])).Pops 2 := by
  intro history
  have made : 2 < overrides history := by decide
  have pops : (after .d history).Pops 2 := by decide
  obtain ⟨-, taken, -, -, once⟩ := overrides_nest .d history 2
  obtain ⟨s, rest, -, saved, current, -⟩ := taken pops
  have there : (after .d history).saved = [.all, .d] := by decide
  rw [there] at saved
  refine ⟨made, pops, ?_, once made []⟩
  rw [current, ← (List.cons.inj saved).1]

end Nesting

end ExtensionScope
end EntryCode
