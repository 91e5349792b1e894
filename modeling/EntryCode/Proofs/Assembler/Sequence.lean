import EntryCode.Proofs.Assembler.Constant
import EntryCode.Proofs.Assembler.Emission

/-!
What the sequences behind pseudo-instructions are made of. Whatever a sequence does, it does with
integer instructions, loads and stores of the base set; it neither branches nor jumps to a position.
-/

namespace EntryCode

/-- The instructions of the base set that carry no displacement from their own position. -/
def Instruction.isBasic : Instruction → Bool
  | .immediate .. | .shift .. | .upper .. | .load .. | .store .. => true
  | .arithmetic op .. => op ≠ .sh3add
  | _ => false

theorem Instruction.ungated_of_basic {i : Instruction} (basic : i.isBasic = true) :
    i.requirement? = none := by
  cases i with
  | arithmetic op =>
      cases op with
      | sh3add => cases basic
      | _ => rfl
  | immediate | shift | upper | load | store => rfl
  | _ => cases basic

def Op.sequence? : Op → Option (Except Violation (List Instruction))
  | .constant rd v => some (Constant.load rd v)
  | .callAddress addr tmp => some (Pseudo.callAddress addr tmp)
  | .jumpAddress addr tmp => some (Pseudo.jumpAddress addr tmp)
  | .addConstant rd rs v tmp => some (Pseudo.addConstant rd rs v tmp)
  | .load op rd base offset tmp => some (Pseudo.load op rd base offset tmp)
  | .store op src base offset tmp => some (Pseudo.store op src base offset tmp)
  | _ => none

def AllBasic (is : List Instruction) : Prop :=
  ∀ i ∈ is, i.isBasic = true

section Sequences
variable {is li : List Instruction}

theorem all_basic_append : AllBasic (li ++ is) ↔ AllBasic li ∧ AllBasic is :=
  List.forall_mem_append

theorem all_basic_singleton {i : Instruction} : AllBasic [i] ↔ i.isBasic = true :=
  List.forall_mem_singleton

theorem load_basic {rd : Register} {v : Dword} (loaded : Constant.load rd v = .ok li) :
    AllBasic li := by
  rw [Constant.load] at loaded
  split at loaded
  · cases loaded
  · cases loaded
    intro i member
    obtain ⟨step, -, rfl⟩ := List.mem_map.mp member
    cases step <;> rfl

theorem after_load_basic {rd : Register} {v : Dword} {last : Instruction}
    (made : (do let li ← Constant.load rd v; return li ++ [last]) = Except.ok is)
    (basic : last.isBasic = true) : AllBasic is := by
  obtain ⟨li, loaded, rest⟩ := bind_ok.mp made
  cases rest
  exact all_basic_append.mpr ⟨load_basic loaded, all_basic_singleton.mpr basic⟩

theorem resolve_basic {a : Access} {tmp r : Register} {isStore : Bool} {off : Dword}
    (resolved : Pseudo.resolve a tmp isStore = .ok (li, r, off)) : AllBasic li := by
  obtain ⟨target, -, built⟩ := bind_ok.mp resolved
  cases offset : a.offset with
  | register x =>
      simp only [offset] at built
      cases built
      exact all_basic_singleton.mpr rfl
  | constant v =>
      simp only [offset] at built
      obtain ⟨constant, loaded, rest⟩ := bind_ok.mp built
      cases rest
      exact all_basic_append.mpr ⟨load_basic loaded, all_basic_singleton.mpr rfl⟩

theorem address_basic {a : Access} {tmp r : Register} {isStore : Bool} {off : Dword}
    (found : Pseudo.address a tmp isStore = .ok (li, r, off)) : AllBasic li := by
  rw [Pseudo.address] at found
  split at found
  · split at found
    · cases found
      nofun
    · exact resolve_basic found
  · exact resolve_basic found

theorem Op.sequence_basic {op : Op} (made : op.sequence? = some (.ok is)) : AllBasic is := by
  cases op with
  | constant rd v => exact load_basic (Option.some.inj made)
  | callAddress | jumpAddress => exact after_load_basic (Option.some.inj made) rfl
  | addConstant rd rs v tmp =>
      have added := Option.some.inj made
      rw [Pseudo.addConstant] at added
      split at added
      · cases added
        exact all_basic_singleton.mpr rfl
      · split at added
        · cases added
        · exact after_load_basic added rfl
  | load | store =>
      obtain ⟨⟨before, r, off⟩, found, rest⟩ := bind_ok.mp (Option.some.inj made)
      cases rest
      exact all_basic_append.mpr ⟨address_basic found, all_basic_singleton.mpr rfl⟩
  | _ => cases made

end Sequences

end EntryCode
