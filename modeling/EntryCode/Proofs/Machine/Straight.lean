import EntryCode.Proofs.Machine.Access
import EntryCode.Proofs.Machine.Stepping

/-!
Straight pieces of programs, executed at once. Performing a piece gives the machine after it as an
expression in the machine before; what it holds in a register is found by simplification, and what
it leaves alone is read off the piece.
-/

namespace EntryCode

namespace Instruction

/-- Whether the instruction that follows is executed next, with no fence between. -/
def falls : Instruction → Bool
  | .immediate .jalr .. | .branch .. | .jump .. | .ebreak | .fence .. => false
  | _ => true

def silent : Instruction → Bool
  | .store .. | .storeFloat .. => false
  | _ => true

/-- Whether of all registers only some integer registers are written. -/
def writes (rs : List Register) : Instruction → Bool
  | .immediate _ rd .. | .shift _ rd .. | .upper _ rd _ | .arithmetic _ rd .. | .extend _ rd _
  | .load _ rd .. | .moveBits rd _ | .jump rd _ => rd ∈ rs
  | .loadFloat .. | .sqrt .. | .signXor .. => false
  | .store .. | .storeFloat .. | .fence .. | .ebreak | .branch .. => true

variable (i : Instruction) (m : Machine)

theorem next_of_falls (falls : i.falls = true) : i.next m = m.pc + 4 := by
  cases i with
  | immediate op rd rs imm =>
      cases op with
      | jalr => cases falls
      | _ => rfl
  | branch | jump | ebreak | fence => cases falls
  | _ => rfl

/-- A fence aside, only stores can be noticed. -/
theorem unseen_of_falls (watched : Dword → Bool) (falls : i.falls = true)
    (stores : ∀ addr size v, i.effect m = .store addr size v →
      (Effect.store addr size v).noticed watched = false) :
    (i.effect m).noticed watched = false := by
  cases effect : i.effect m with
  | store addr size v => exact stores addr size v effect
  | fence =>
      cases i with
      | fence => cases falls
      | immediate op => cases op <;> cases effect
      | storeFloat width => cases width <;> cases effect
      | _ => cases effect
  | _ => rfl

theorem silent_effect (silent : i.silent = true) (addr : Dword) (size : Nat) (v : Dword) :
    i.effect m ≠ .store addr size v := by
  cases i with
  | store | storeFloat => cases silent
  | immediate op =>
      cases op with
      | _ => exact fun same => nomatch same
  | _ => exact fun same => nomatch same

theorem store_size {addr v : Dword} {size : Nat} (effect : i.effect m = .store addr size v) :
    size ≤ 2 ^ 64 := by
  cases i with
  | store op src base off =>
      cases effect
      cases op <;> decide
  | storeFloat width fs base off => cases width <;> cases effect <;> decide
  | immediate op rd rs imm => cases op <;> cases effect
  | _ => cases effect

end Instruction

namespace Op

/-- Whether an operation is one instruction that is followed by the next, or a note. -/
def falls : Op → Bool
  | .instruction i => i.falls
  | .comment _ => true
  | _ => false

def silent : Op → Bool
  | .instruction i => i.silent
  | _ => true

def writes (rs : List Register) : Op → Bool
  | .instruction i => i.writes rs
  | _ => true

def perform (m : Machine) : Op → Machine
  | .instruction i => m.exec i
  | _ => m

/-- Whether everything that an operation stores to is in `area`. -/
def Touches (area : Dword → Prop) (m : Machine) : Op → Prop
  | .instruction i => ∀ addr size v, i.effect m = .store addr size v →
    ∀ x, Memory.Covers addr size x → area x
  | _ => True

end Op

namespace Machine

def performs (m : Machine) : Program → Machine
  | [] => m
  | op :: rest => (op.perform m).performs rest

/-- Whether everything that a piece stores to is in `area`. -/
def Touches (area : Dword → Prop) (m : Machine) : Program → Prop
  | [] => True
  | op :: rest => op.Touches area m ∧ (op.perform m).Touches area rest

def accessed (m : Machine) : Program → List DataAccess
  | [] => []
  | .instruction i :: rest => (i.access? m).toList ++ (m.exec i).accessed rest
  | op :: rest => (op.perform m).accessed rest

section Performs
variable {area : Dword → Prop} {m : Machine}

theorem performs_nil : m.performs [] = m := rfl

theorem performs_comment (text : String) (rest : Program) :
    m.performs (.comment text :: rest) = m.performs rest := rfl

theorem performs_instruction (i : Instruction) (rest : Program) :
    m.performs (.instruction i :: rest) = (m.exec i).performs rest := rfl

theorem touches_nil : m.Touches area [] ↔ True := Iff.rfl

theorem touches_silent (i : Instruction) (rest : Program) (silent : i.silent = true) :
    m.Touches area (.instruction i :: rest) ↔ (m.exec i).Touches area rest :=
  ⟨fun touches => touches.2, fun touches =>
    ⟨fun addr size v effect => absurd effect (i.silent_effect m silent addr size v), touches⟩⟩

theorem touches_store (op : StoreOp) (src base : Register) (off : Dword) (rest : Program) :
    m.Touches area (.instruction (.store op src base off) :: rest) ↔
      (∀ x, Memory.Covers (m.reg base + off) op.size x → area x) ∧
        (m.exec (.store op src base off)).Touches area rest := by
  constructor
  · rintro ⟨first, later⟩
    exact ⟨first _ _ _ rfl, later⟩
  · rintro ⟨first, later⟩
    refine ⟨?_, later⟩
    rintro addr size v ⟨⟩
    exact first

theorem touches_store_double (fs : FloatRegister) (base : Register) (off : Dword)
    (rest : Program) :
    m.Touches area (.instruction (.storeFloat .double fs base off) :: rest) ↔
      (∀ x, Memory.Covers (m.reg base + off) 8 x → area x) ∧
        (m.exec (.storeFloat .double fs base off)).Touches area rest := by
  constructor
  · rintro ⟨first, later⟩
    exact ⟨first _ _ _ rfl, later⟩
  · rintro ⟨first, later⟩
    refine ⟨?_, later⟩
    rintro addr size v ⟨⟩
    exact first

theorem byte_perform (op : Op) (touches : op.Touches area m) (x : Dword) (outside : ¬area x) :
    (op.perform m).memory.byte x = m.memory.byte x := by
  cases op with
  | instruction i =>
      rw [Op.perform, exec]
      cases effect : i.effect m with
      | store addr size v =>
          have apart : ¬Memory.Covers addr size x := fun covered =>
            outside (touches addr size v effect x covered)
          rw [memory_goto, memory_poke, Memory.byte_store _ _ _ _ _ (i.store_size m effect),
            if_neg apart]
      | _ => rfl
  | _ => rfl

/-- What a piece does not touch stays as it is. -/
theorem byte_performs (p : Program) (touches : m.Touches area p) (x : Dword) (outside : ¬area x) :
    (m.performs p).memory.byte x = m.memory.byte x := by
  induction p generalizing m with
  | nil => rfl
  | cons op rest ih =>
      obtain ⟨first, later⟩ := touches
      exact (ih later).trans (byte_perform op first x outside)

theorem memory_performs (p : Program) (silent : p.all Op.silent = true) :
    (m.performs p).memory = m.memory := by
  induction p generalizing m with
  | nil => rfl
  | cons op rest ih =>
      rw [List.all_cons, Bool.and_eq_true] at silent
      refine (ih silent.2).trans ?_
      cases op with
      | instruction i =>
          rw [Op.perform, exec]
          cases effect : i.effect m with
          | store addr size v => exact absurd effect (i.silent_effect m silent.1 addr size v)
          | _ => rfl
      | _ => rfl

theorem touches_of_silent (p : Program) (silent : p.all Op.silent = true) :
    m.Touches area p := by
  induction p generalizing m with
  | nil => trivial
  | cons op rest ih =>
      rw [List.all_cons, Bool.and_eq_true] at silent
      refine ⟨?_, ih silent.2⟩
      cases op with
      | instruction i =>
          exact fun addr size v effect =>
            absurd effect (i.silent_effect m silent.1 addr size v)
      | _ => trivial

theorem keeps_exec (rs : List Register) (i : Instruction) (writes : i.writes rs = true) :
    Keeps rs m (m.exec i) := by
  have put : ∀ (rd : Register) (v pc : Dword), decide (rd ∈ rs) = true →
      Keeps rs m ((m.put rd v).goto pc) := by
    intro rd v pc member
    exact ((Keeps.refl rs m).put (of_decide_eq_true member) v).goto pc
  cases i with
  | immediate op rd rs1 imm =>
      cases op with
      | jalr => exact put rd (m.pc + 4) _ writes
      | _ =>
          rw [exec_immediate _ _ _ _ _ (by simp)]
          exact put rd _ _ writes
  | shift op rd rs1 amount => exact put rd (op.value (m.reg rs1) amount.toNat) _ writes
  | upper op rd imm => exact put rd (op.value m.pc imm) _ writes
  | arithmetic op rd rs1 rs2 => exact put rd (op.value (m.reg rs1) (m.reg rs2)) _ writes
  | extend op rd rs1 => exact put rd (op.value (m.reg rs1)) _ writes
  | load op rd base off => exact put rd (op.value m.memory (m.reg base + off)) _ writes
  | moveBits rd fs => exact put rd (m.freg fs) _ writes
  | jump rd disp => exact put rd (m.pc + 4) _ writes
  | store op src base off =>
      rw [exec_store]
      exact ((Keeps.refl rs m).poke _ _ _).goto _
  | storeFloat width fs base off =>
      rw [exec]
      cases width with
      | _ => exact ((Keeps.refl rs m).poke _ _ _).goto _
  | fence | ebreak | branch => exact (Keeps.refl rs m).goto _
  | loadFloat | sqrt | signXor => cases writes

/-- The registers that a piece does not write stay as they are. -/
theorem keeps_performs (rs : List Register) (p : Program) (writes : p.all (Op.writes rs) = true) :
    Keeps rs m (m.performs p) := by
  induction p generalizing m with
  | nil => exact .refl rs m
  | cons op rest ih =>
      rw [List.all_cons, Bool.and_eq_true] at writes
      cases op with
      | instruction i => exact (keeps_exec rs i writes.1).trans (ih writes.2)
      | _ => exact ih writes.2

end Performs

theorem zeroed_exec {m : Machine} (cleared : m.Zeroed) (i : Instruction) : (m.exec i).Zeroed := by
  rw [exec]
  cases i.effect m with
  | setRegister rd v =>
      simp only [Zeroed, RegisterFile.get_write]
      rw [if_neg fun same => same.2 same.1.symm]
      exact cleared
  | _ => exact cleared

end Machine

namespace Linked

variable {c : Linked} {m : Machine} {rest : Program}

/-- A straight piece that does not touch the code. -/
theorem Stands.performs (p : Program) (stands : c.Stands m (p ++ rest))
    (falls : p.all Op.falls = true) {area : Dword → Prop} (touches : m.Touches area p)
    (apart : ∀ x, area x → ¬c.Covers x) : c.Comes m (m.performs p) rest := by
  induction p generalizing m with
  | nil => exact ⟨.refl m, stands⟩
  | cons op p ih =>
      rw [List.all_cons, Bool.and_eq_true] at falls
      obtain ⟨first, later⟩ := touches
      cases op with
      | instruction i =>
          obtain ⟨lies, next⟩ := has_instruction.mp stands.placed
          have unseen := i.unseen_of_falls m c.watched falls.1 fun addr size v effect =>
            store_unseen (i.store_size m effect) fun x covered =>
              apart x (first addr size v effect x covered)
          have runs := runs_unseen stands.cleared stands.here lies
            (by rintro rfl; cases falls.1) unseen
          have kept : c.InMemory (m.exec i).memory :=
            stands.here.congr fun x covered =>
              Machine.byte_perform (.instruction i) first x fun inside =>
                apart x inside (.inl covered)
          have there : c.Stands (m.exec i) (p ++ rest) := by
            refine ⟨Machine.zeroed_exec stands.cleared i, kept, ?_⟩
            rw [m.pc_exec, i.next_of_falls m falls.1]
            exact next
          exact Comes.trans ⟨⟨1, runs⟩, there⟩ fun stands => ih stands falls.2 later
      | comment text => exact ih stands.comment falls.2 later
      | _ => cases falls.1

/-- The instructions of a straight piece without stores access what the piece does. -/
theorem Stands.accesses (p : Program) (stands : c.Stands m (p ++ rest))
    (falls : p.all Op.falls = true) (silent : p.all Op.silent = true) :
    ∃ n, m.after n = .ok (m.performs p) ∧ m.accesses n = m.accessed p := by
  induction p generalizing m with
  | nil => exact ⟨0, rfl, rfl⟩
  | cons op p ih =>
      rw [List.all_cons, Bool.and_eq_true] at falls silent
      cases op with
      | instruction i =>
          obtain ⟨lies, next⟩ := has_instruction.mp stands.placed
          obtain ⟨encodable, fetched⟩ := stands.here m.pc i lies
          have advanced := advances stands.cleared stands.here lies (by rintro rfl; cases falls.1)
          have memory : (m.exec i).memory = m.memory :=
            Machine.memory_performs [.instruction i] (by simpa using silent.1)
          have there : c.Stands (m.exec i) (p ++ rest) := by
            refine ⟨Machine.zeroed_exec stands.cleared i, by rw [memory]; exact stands.here, ?_⟩
            rw [m.pc_exec, i.next_of_falls m falls.1]
            exact next
          obtain ⟨n, reached, accesses⟩ := ih there falls.2 silent.2
          refine ⟨n + 1, (Machine.after_step advanced).trans reached, ?_⟩
          rw [Machine.accesses_step advanced, accesses, show m.fetch = i.word from fetched,
            m.access_word i encodable]
          rfl
      | comment text => exact ih stands.comment falls.2 silent.2
      | _ => cases falls.1

theorem Stands.cut {p : Program} (n : Nat) (stands : c.Stands m (p ++ rest)) :
    c.Stands m (p.take n ++ (p.drop n ++ rest)) := by
  rwa [← List.append_assoc, List.take_append_drop]

theorem Stands.computes (p : Program) (rs : List Register) (stands : c.Stands m (p ++ rest))
    (falls : p.all Op.falls = true) (silent : p.all Op.silent = true)
    (writes : p.all (Op.writes rs) = true) :
    c.Comes m (m.performs p) rest ∧ Machine.Keeps rs m (m.performs p) ∧
      (m.performs p).memory = m.memory :=
  ⟨stands.performs p falls (Machine.touches_of_silent p silent) (fun _ => False.elim),
    Machine.keeps_performs rs p writes, Machine.memory_performs p silent⟩

end Linked

end EntryCode
