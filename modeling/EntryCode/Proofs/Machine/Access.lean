import EntryCode.Proofs.Machine.Linked

/-!
The data that a machine reads and writes. A word has at most one access: what is executed depends
on no bytes of memory but those that the access reads, and changes none but those that it writes.
The words themselves are fetched and are no data.
-/

namespace EntryCode

/-- Bytes of memory that are read or written at once. -/
structure DataAccess where
  writes : Bool
  addr : Dword
  size : Nat
  deriving DecidableEq, Repr

namespace Machine

/-- The access that executing a word makes, if it makes one. -/
def access? (m : Machine) (w : Word) : Option DataAccess :=
  let a := m.x.get (Format.rs1 w)
  let size := 1 <<< ((Format.funct3 w).toNat % 4)
  match (Format.opcode w).toNat with
  | 0x03 | 0x07 => some ⟨false, a + Format.immediate w, size⟩
  | 0x23 | 0x27 => some ⟨true, a + Format.storeOffset w, size⟩
  | _ => none

section Words
variable {m : Machine} {w : Word} {mem : Memory} {addr : Dword}

theorem load_covers {n : Nat} (short : n ≤ 8)
    (same : ∀ c, Memory.Covers addr n c → mem.byte c = m.memory.byte c) :
    mem.load addr n = m.memory.load addr n :=
  Memory.load_congr _ _ fun k inside =>
    same _ ((Memory.covers_iff (by omega)).mpr ⟨k, inside, rfl⟩)

theorem load_value_congr
    (same : ∀ c, Memory.Covers addr (1 <<< ((Format.funct3 w).toNat % 4)) c →
      mem.byte c = m.memory.byte c) :
    loadValue mem w addr = loadValue m.memory w addr ∧
      loadFloatValue mem w addr = loadFloatValue m.memory w addr := by
  generalize width : (Format.funct3 w).toNat = f3 at same
  simp only [loadValue, loadFloatValue, width]
  constructor
  · split
    case h_8 => rfl
    all_goals
      simp only [Nat.reduceMod, Nat.reduceShiftLeft] at same
      rw [load_covers (by decide) same]
  · split
    case h_3 => rfl
    all_goals
      simp only [Nat.reduceMod, Nat.reduceShiftLeft] at same
      rw [load_covers (by decide) same]

theorem access_reads (opcode : (Format.opcode w).toNat = 0x03 ∨ (Format.opcode w).toNat = 0x07) :
    m.access? w = some ⟨false, m.x.get (Format.rs1 w) + Format.immediate w,
      1 <<< ((Format.funct3 w).toNat % 4)⟩ := by
  rcases opcode with opcode | opcode <;> simp only [access?, opcode]

/-- Of memory, a word depends on no bytes but those of an access that reads. -/
theorem transition_congr
    (same : ∀ a, m.access? w = some a → a.writes = false →
      ∀ c, Memory.Covers a.addr a.size c → mem.byte c = m.memory.byte c) :
    { m with memory := mem }.transition w = m.transition w := by
  unfold transition
  simp only
  split
  case h_7 opcode =>
    rw [(load_value_congr (same _ (access_reads (.inl opcode)) rfl)).1]
  case h_9 opcode =>
    rw [(load_value_congr (same _ (access_reads (.inr opcode)) rfl)).2]
  all_goals rfl

theorem float_effect_hidden {e : Effect} (done : m.floatEffect w = .ok e) (addr : Dword)
    (size : Nat) (v : Dword) : e ≠ .store addr size v := by
  rintro rfl
  unfold floatEffect at done
  simp only at done
  split at done
  case h_2 => split at done <;> cases done
  case h_5 => cases done
  all_goals split at done <;> cases done

/-- The bytes that a word stores to are those of an access that writes. -/
theorem stores_iff {t : Transition} (done : m.transition w = .ok t) (addr : Dword) (size : Nat) :
    (∃ v, t.effect = .store addr size v) ↔ m.access? w = some ⟨true, addr, size⟩ := by
  unfold transition at done
  simp only at done
  split at done
  case h_1 opcode | h_2 opcode | h_13 opcode | h_14 opcode | h_15 opcode =>
    cases done
    simp [access?, opcode]
  case h_3 opcode | h_5 opcode | h_7 opcode | h_9 opcode | h_12 opcode =>
    obtain ⟨_, _, made⟩ := bind_ok.mp done
    cases made
    simp [access?, opcode]
  case h_4 opcode | h_6 opcode =>
    split at done <;> cases done
    simp [access?, opcode]
  case h_8 opcode =>
    split at done
    case isFalse => cases done
    case isTrue small =>
      have width : (Format.funct3 w).toNat % 4 = (Format.funct3 w).toNat :=
        Nat.mod_eq_of_lt (Nat.lt_succ_of_le (BitVec.le_def.mp small))
      cases done
      simp [access?, opcode, width]
  case h_10 opcode =>
    split at done
    case h_3 => cases done
    all_goals
      rename_i width
      cases done
      simp [access?, opcode, width]
  case h_11 opcode =>
    obtain ⟨e, effect, made⟩ := bind_ok.mp done
    cases made
    simp [access?, opcode, float_effect_hidden effect]
  case h_16 | h_17 => cases done

theorem access_size {a : DataAccess} (found : m.access? w = some a) : a.size ≤ 8 := by
  have small : ∀ n < 4, 1 <<< n ≤ 8 := by decide
  have f3 : (Format.funct3 w).toNat % 4 < 4 := Nat.mod_lt _ (by decide)
  unfold access? at found
  split at found <;> cases found <;> exact small _ f3

end Words

section Runs
variable {m k : Machine} {n : Nat}

/-- The accesses of `n` words, one after the other. -/
def accesses : Nat → Machine → List DataAccess
  | 0, _ => []
  | n + 1, m =>
    match m.advance with
    | .ok (k, _) => (m.access? m.fetch).toList ++ k.accesses n
    | .error _ => []

theorem accesses_step {e : Effect} (advanced : m.advance = .ok (k, e)) :
    m.accesses (n + 1) = (m.access? m.fetch).toList ++ k.accesses n := by
  rw [accesses, advanced]

theorem after_step {e : Effect} (advanced : m.advance = .ok (k, e)) :
    m.after (n + 1) = k.after n := by
  rw [after, advanced]
  rfl

theorem after_ok {last : Machine} : m.after (n + 1) = .ok last ↔
    ∃ k e, m.advance = .ok (k, e) ∧ k.after n = .ok last := by
  rw [after, bind_ok]
  constructor
  · rintro ⟨⟨k, e⟩, advanced, later⟩
    exact ⟨k, e, advanced, later⟩
  · rintro ⟨k, e, advanced, later⟩
    exact ⟨(k, e), advanced, later⟩

theorem after_add (reached : m.after n = .ok k) (n' : Nat) : m.after (n + n') = k.after n' := by
  induction n generalizing m with
  | zero =>
      cases reached
      rw [Nat.zero_add]
  | succ n ih =>
      obtain ⟨mid, e, advanced, later⟩ := after_ok.mp reached
      rw [Nat.add_right_comm, after_step advanced, ih later]

theorem accesses_add (reached : m.after n = .ok k) (n' : Nat) :
    m.accesses (n + n') = m.accesses n ++ k.accesses n' := by
  induction n generalizing m with
  | zero =>
      cases reached
      rw [Nat.zero_add, accesses, List.nil_append]
  | succ n ih =>
      obtain ⟨mid, e, advanced, later⟩ := after_ok.mp reached
      rw [Nat.add_right_comm, accesses_step advanced, accesses_step advanced, ih later,
        List.append_assoc]

theorem byte_advance {e : Effect} {c : Dword} (advanced : m.advance = .ok (k, e))
    (spared : ∀ a ∈ m.access? m.fetch, a.writes = true → ¬Memory.Covers a.addr a.size c) :
    k.memory.byte c = m.memory.byte c := by
  rw [advance, step] at advanced
  split at advanced
  case isTrue => cases advanced
  case isFalse =>
    split at advanced
    case h_2 => cases advanced
    case h_1 t done =>
      cases advanced
      show (m.apply t.effect).memory.byte c = m.memory.byte c
      cases effect : t.effect with
      | store addr size v =>
          have access := (stores_iff done addr size).mp ⟨v, effect⟩
          have short := access_size access
          rw [apply, Memory.byte_store _ _ _ _ _ (by simp only at short; omega),
            if_neg (spared _ access rfl)]
      | _ => rfl

theorem byte_after {c : Dword} (reached : m.after n = .ok k)
    (spared : ∀ a ∈ m.accesses n, a.writes = true → ¬Memory.Covers a.addr a.size c) :
    k.memory.byte c = m.memory.byte c := by
  induction n generalizing m with
  | zero =>
      cases reached
      rfl
  | succ n ih =>
      obtain ⟨mid, e, advanced, later⟩ := after_ok.mp reached
      rw [accesses_step advanced, List.forall_mem_append] at spared
      obtain ⟨here, rest⟩ := spared
      rw [ih later rest]
      exact byte_advance advanced fun a found => here a (Option.mem_toList.mpr found)

end Runs

end Machine

def LoadOp.size : LoadOp → Nat
  | .lb | .lbu => 1
  | .lh | .lhu => 2
  | .lw | .lwu => 4
  | .ld => 8

def FloatWidth.size : FloatWidth → Nat
  | .single => 4
  | .double => 8

/-- The access that an instruction makes, if it makes one. -/
def Instruction.access? (m : Machine) : Instruction → Option DataAccess
  | .load op _ base off => some ⟨false, m.reg base + off, op.size⟩
  | .store op _ base off => some ⟨true, m.reg base + off, op.size⟩
  | .loadFloat width _ base off => some ⟨false, m.reg base + off, width.size⟩
  | .storeFloat width _ base off => some ⟨true, m.reg base + off, width.size⟩
  | _ => none

theorem Machine.access_word (m : Machine) (i : Instruction) (encodable : i.Encodable) :
    m.access? i.word = i.access? m := by
  cases i with
  | load op rd base off =>
      obtain ⟨-, -, fits⟩ := encodable
      cases op <;>
        simp [access?, Instruction.access?, Instruction.word, Format.opLoad, LoadOp.funct3,
          LoadOp.size, Format.immediate_short, fits, reg]
  | store op src base off =>
      obtain ⟨-, -, fits⟩ := encodable
      cases op <;>
        simp [access?, Instruction.access?, Instruction.word, Format.opStore, StoreOp.funct3,
          StoreOp.size, Format.offset_store, fits, reg]
  | loadFloat width fd base off =>
      obtain ⟨-, -, fits⟩ := encodable
      cases width <;>
        simp [access?, Instruction.access?, Instruction.word, Format.opLoadFloat,
          FloatWidth.funct3, FloatWidth.size, Format.immediate_short, fits, reg]
  | storeFloat width fs base off =>
      obtain ⟨-, -, fits⟩ := encodable
      cases width <;>
        simp [access?, Instruction.access?, Instruction.word, Format.opStoreFloat,
          FloatWidth.funct3, FloatWidth.size, Format.offset_store, fits, reg]
  | immediate op | upper op | extend op =>
      cases op <;>
        simp [access?, Instruction.access?, Instruction.word, ImmediateOp.opcode,
          UpperOp.opcode, ExtendOp.format, Format.opImmediate, Format.opImmediate32,
          Format.opJumpRegister, Format.opLui, Format.opAuipc, Format.opRegister32]
  | ebreak => rfl
  | _ =>
      simp [access?, Instruction.access?, Instruction.word, Format.opImmediate,
        Format.opRegister, Format.opFloat, Format.opBranch, Format.opJump, Format.opFence]

end EntryCode
