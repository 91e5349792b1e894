import EntryCode.Table
import Mathlib.Data.List.Nodup
import Mathlib.Data.List.Perm.Basic

/-!
What a table holds. Entries with keys of their own all stay in it, in whatever order they came, and
each is found under its key.
-/

namespace EntryCode.Table

variable {κ ν : Type}

section Search
variable {α β : Type} [DecidableEq β] {key : α → β} {xs : List α} {x : α}

/-- An element with a key that no other has is found under it. -/
theorem find_alone (member : x ∈ xs) (alone : ∀ y ∈ xs, key y = key x → y = x) :
    (xs.find? fun y => key y = key x) = some x := by
  have some : (xs.find? fun y => key y = key x).isSome :=
    List.find?_isSome.mpr ⟨x, member, decide_eq_true rfl⟩
  obtain ⟨found, same⟩ := Option.isSome_iff_exists.mp some
  have there : key found = key x := by simpa using List.find?_some same
  rw [same, alone found (List.mem_of_find?_eq_some same) there]

theorem find_keyed {k : β} (distinct : (xs.map key).Nodup) (member : x ∈ xs) (named : key x = k) :
    (xs.find? fun y => key y = k) = some x := by
  subst named
  exact find_alone member fun y among same =>
    List.inj_on_of_nodup_map distinct among member same

end Search

section Lookup
variable [BEq κ] [LawfulBEq κ] {t : List (κ × ν)} {k : κ} {v : ν}

/-- Where keys are distinct, exactly the entries are found. -/
theorem lookup_iff_mem (distinct : (t.map Prod.fst).Nodup) : t.lookup k = some v ↔ (k, v) ∈ t := by
  have among : ∀ {w}, t.lookup k = some w → (k, w) ∈ t := by
    intro w found
    obtain ⟨before, after, split, -⟩ := List.lookup_eq_some_iff.mp found
    rw [split]
    exact List.mem_append_right _ List.mem_cons_self
  constructor
  · exact among
  · intro member
    cases found : t.lookup k with
    | none =>
        have absent := List.lookup_eq_none_iff.mp found _ member
        simp at absent
    | some w => rw [(Prod.mk.inj (List.inj_on_of_nodup_map distinct member (among found) rfl)).2]

end Lookup

section Entries
variable [LT κ] [DecidableLT κ] [DecidableEq κ] {t entries : List (κ × ν)} {k : κ} {v : ν}

theorem insert_perm (fresh : k ∉ t.map Prod.fst) : (insert k v t).Perm ((k, v) :: t) := by
  induction t with
  | nil => exact .refl _
  | cons e rest ih =>
      rw [List.map_cons, List.mem_cons, not_or] at fresh
      rw [insert, if_neg fresh.1]
      split
      · exact .refl _
      · exact (List.Perm.cons e (ih fresh.2)).trans (List.Perm.swap _ _ _)

theorem fold_perm (distinct : (entries.map Prod.fst).Nodup)
    (apart : ∀ e ∈ entries, e.1 ∉ t.map Prod.fst) :
    (entries.foldl (fun t e => insert e.1 e.2 t) t).Perm (entries ++ t) := by
  induction entries generalizing t with
  | nil => exact .refl _
  | cons e rest ih =>
      rw [List.map_cons, List.nodup_cons] at distinct
      rw [List.forall_mem_cons] at apart
      have inserted : (insert e.1 e.2 t).Perm (e :: t) := insert_perm apart.1
      have later : ∀ e' ∈ rest, e'.1 ∉ (insert e.1 e.2 t).map Prod.fst := by
        intro e' member
        rw [(inserted.map Prod.fst).mem_iff, List.map_cons, List.mem_cons, not_or]
        constructor
        · intro same
          exact distinct.1 (same ▸ List.mem_map_of_mem member)
        · exact apart.2 e' member
      exact (ih distinct.2 later).trans ((inserted.append_left rest).trans List.perm_middle)

theorem of_entries_perm (distinct : (entries.map Prod.fst).Nodup) :
    (ofEntries entries).Perm entries := by
  have folded := fold_perm (t := []) distinct fun _ _ => List.not_mem_nil
  rwa [List.append_nil] at folded

theorem lookup_of_entries (distinct : (entries.map Prod.fst).Nodup) :
    (ofEntries entries).lookup k = some v ↔ (k, v) ∈ entries := by
  have perm := of_entries_perm distinct
  rw [lookup_iff_mem ((perm.map Prod.fst).nodup_iff.mpr distinct), perm.mem_iff]

end Entries

section Order
variable [LT κ] [DecidableLT κ] [DecidableEq κ] {t entries : List (κ × ν)} {k : κ} {v : ν}

def Ascending (t : List (κ × ν)) : Prop :=
  t.Pairwise fun a b => a.1 < b.1

theorem mem_insert {e : κ × ν} (member : e ∈ insert k v t) : e = (k, v) ∨ e ∈ t := by
  induction t with
  | nil => exact .inl (List.mem_singleton.mp member)
  | cons first rest ih =>
      rw [insert] at member
      split at member
      · rcases List.mem_cons.mp member with here | later
        · exact .inl here
        · exact .inr (List.mem_cons_of_mem _ later)
      · split at member
        · exact List.mem_cons.mp member
        · rcases List.mem_cons.mp member with rfl | later
          · exact .inr List.mem_cons_self
          · exact (ih later).imp_right (List.mem_cons_of_mem _)

theorem length_insert_le : (insert k v t).length ≤ t.length + 1 := by
  induction t with
  | nil => exact Nat.le_refl _
  | cons first rest ih =>
      rw [insert]
      split
      · exact Nat.le_succ _
      · split
        · exact Nat.le_refl _
        · exact Nat.succ_le_succ ih

/-- A table has no more entries than it was made of. -/
theorem length_of_entries_le : (ofEntries entries).length ≤ entries.length := by
  have folded : ∀ t : List (κ × ν), (entries.foldl (fun t e => insert e.1 e.2 t) t).length ≤
      entries.length + t.length := by
    induction entries with
    | nil => exact fun t => Nat.le_add_left ..
    | cons e rest ih =>
        intro t
        have first := length_insert_le (t := t) (k := e.1) (v := e.2)
        have later := ih (insert e.1 e.2 t)
        rw [List.foldl_cons, List.length_cons]
        omega
  exact folded []

theorem mem_of_entries {e : κ × ν} (member : e ∈ ofEntries entries) : e ∈ entries := by
  have folded : ∀ es t : List (κ × ν), e ∈ es.foldl (fun t e => insert e.1 e.2 t) t →
      e ∈ es ∨ e ∈ t := by
    intro es
    induction es with
    | nil => exact fun _ => .inr
    | cons first rest ih =>
        intro t among
        rcases ih _ among with later | inserted
        · exact .inl (List.mem_cons_of_mem _ later)
        · rcases mem_insert inserted with rfl | before
          · exact .inl List.mem_cons_self
          · exact .inr before
  exact (folded entries [] member).resolve_right List.not_mem_nil

variable [Trans (fun a b : κ => a < b) (fun a b : κ => a < b) (fun a b : κ => a < b)]
  [Std.Trichotomous fun a b : κ => a < b]

theorem insert_ascending (ascending : Ascending t) : Ascending (insert k v t) := by
  induction t with
  | nil => exact List.pairwise_singleton ..
  | cons first rest ih =>
      obtain ⟨least, later⟩ := List.pairwise_cons.mp ascending
      rw [insert]
      split
      · next same => exact List.pairwise_cons.mpr ⟨fun e member => same ▸ least e member, later⟩
      · next other =>
          split
          · next before =>
              refine List.pairwise_cons.mpr ⟨fun e member => ?_, ascending⟩
              rcases List.mem_cons.mp member with rfl | member
              · exact before
              · exact Std.lt_trans before (least e member)
          · next after =>
              refine List.pairwise_cons.mpr ⟨fun e member => ?_, ih later⟩
              rcases mem_insert member with rfl | member
              · exact Classical.byContradiction fun behind =>
                  other (Std.Trichotomous.trichotomous k first.1 after behind)
              · exact least e member

theorem of_entries_ascending : Ascending (ofEntries entries) := by
  have folded : ∀ t : List (κ × ν), Ascending t →
      Ascending (entries.foldl (fun t e => insert e.1 e.2 t) t) := by
    induction entries with
    | nil => exact fun _ ascending => ascending
    | cons e rest ih => exact fun t ascending => ih _ (insert_ascending ascending)
  exact folded [] .nil

variable [Std.Asymm fun a b : κ => a < b]

/-- A table in order is what its entries give, whatever order they come in. -/
theorem of_entries_of_perm (ascending : Ascending t) (perm : entries.Perm t) :
    ofEntries entries = t := by
  have distinct : (t.map Prod.fst).Nodup := by
    rw [List.Nodup, List.pairwise_map]
    refine ascending.imp ?_
    intro a b before same
    rw [same] at before
    exact Std.Asymm.asymm _ _ before before
  have there := (of_entries_perm ((perm.map Prod.fst).nodup_iff.mpr distinct)).trans perm
  refine there.eq_of_pairwise ?_ of_entries_ascending ascending
  intro a b _ _ before behind
  exact absurd behind (Std.Asymm.asymm _ _ before)

theorem of_entries_congr {others : List (κ × ν)} (distinct : (entries.map Prod.fst).Nodup)
    (perm : entries.Perm others) : ofEntries entries = ofEntries others := by
  have apart : (others.map Prod.fst).Nodup := (perm.map Prod.fst).nodup_iff.mp distinct
  exact of_entries_of_perm of_entries_ascending (perm.trans (of_entries_perm apart).symm)

end Order

end EntryCode.Table
