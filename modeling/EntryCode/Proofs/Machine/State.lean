import EntryCode.Proofs.Machine.Semantics

/-!
Machines by what their registers hold. The zero register holds zero between instructions, so a
write to it changes nothing; every instruction comes to one write and a new program counter.
-/

namespace EntryCode

namespace RegisterFile

variable (r : RegisterFile) (i j : BitVec 5) (v : Dword)

theorem get_eq : r.get i = r.values[i.toNat] := rfl

theorem get_set : (r.set i v).get j = if j = i then v else r.get j := by
  simp only [get_eq, set, Vector.getElem_set, BitVec.toNat_eq, @eq_comm _ j.toNat]

theorem ext_get {r s : RegisterFile} (same : ∀ i, r.get i = s.get i) : r = s := by
  cases r with
  | mk a =>
      cases s with
      | mk b =>
          congr 1
          apply Vector.ext
          intro i inside
          exact same (BitVec.ofFin ⟨i, inside⟩)

/-- A write to a register other than the zero register. -/
def write : RegisterFile :=
  if i = 0 then r else r.set i v

theorem get_write : (r.write i v).get j = if j = i ∧ i ≠ 0 then v else r.get j := by
  by_cases zero : i = 0
  · rw [write, if_pos zero, if_neg fun same => same.2 zero]
  · rw [write, if_neg zero, get_set]
    simp only [ne_eq, zero, not_false_eq_true, and_true]

/-- After an instruction the zero register is cleared, which undoes a write to it. -/
theorem set_cleared (cleared : r.get 0 = 0) : (r.set i v).set 0 0 = r.write i v := by
  apply ext_get
  intro j
  rw [get_write, get_set, get_set]
  grind

theorem clear_cleared (cleared : r.get 0 = 0) : r.set 0 0 = r := by
  apply ext_get
  intro j
  rw [get_set]
  grind

theorem write_write (u : Dword) : (r.write i u).write i v = r.write i v := by
  apply ext_get
  intro j
  simp only [get_write]
  grind

theorem write_get : r.write i (r.get i) = r := by
  apply ext_get
  intro j
  rw [get_write]
  grind

end RegisterFile

namespace Machine

/-- The zero register holds zero. -/
def Zeroed (m : Machine) : Prop := m.x.get 0 = 0

def put (m : Machine) (r : Register) (v : Dword) : Machine :=
  { m with x := m.x.write r.code v }

def putFloat (m : Machine) (r : FloatRegister) (v : Dword) : Machine :=
  { m with f := m.f.set r.code v }

def poke (m : Machine) (addr : Dword) (size : Nat) (v : Dword) : Machine :=
  { m with memory := m.memory.store addr size v }

def goto (m : Machine) (pc : Dword) : Machine :=
  { m with pc }

section Registers
variable (m : Machine) (r s : Register) (g h : FloatRegister) (v pc addr : Dword) (size : Nat)

theorem reg_put : (m.put r v).reg s = if s.code = r.code ∧ r.code ≠ 0 then v else m.reg s :=
  m.x.get_write r.code s.code v

theorem reg_put_self (writable : r.code ≠ 0) : (m.put r v).reg r = v := by
  rw [reg_put, if_pos ⟨rfl, writable⟩]

theorem reg_put_ne (apart : s.code ≠ r.code) : (m.put r v).reg s = m.reg s := by
  rw [reg_put, if_neg fun same => apart same.1]

@[simp] theorem reg_put_float : (m.putFloat g v).reg r = m.reg r := rfl
@[simp] theorem reg_poke : (m.poke addr size v).reg r = m.reg r := rfl
@[simp] theorem reg_goto : (m.goto pc).reg r = m.reg r := rfl

theorem freg_put_float : (m.putFloat g v).freg h = if h.code = g.code then v else m.freg h :=
  m.f.get_set g.code h.code v

@[simp] theorem freg_put : (m.put r v).freg g = m.freg g := rfl
@[simp] theorem freg_poke : (m.poke addr size v).freg g = m.freg g := rfl
@[simp] theorem freg_goto : (m.goto pc).freg g = m.freg g := rfl

@[simp] theorem memory_put : (m.put r v).memory = m.memory := rfl
@[simp] theorem memory_put_float : (m.putFloat g v).memory = m.memory := rfl
@[simp] theorem memory_poke : (m.poke addr size v).memory = m.memory.store addr size v := rfl
@[simp] theorem memory_goto : (m.goto pc).memory = m.memory := rfl

@[simp] theorem pc_put : (m.put r v).pc = m.pc := rfl
@[simp] theorem pc_put_float : (m.putFloat g v).pc = m.pc := rfl
@[simp] theorem pc_poke : (m.poke addr size v).pc = m.pc := rfl
@[simp] theorem pc_goto : (m.goto pc).pc = pc := rfl

theorem put_put (u : Dword) : (m.put r u).put r v = m.put r v := by
  simp only [put, RegisterFile.write_write]

theorem put_reg : m.put r (m.reg r) = m := by
  simp only [put, reg, RegisterFile.write_get]

@[simp] theorem goto_goto (u : Dword) : (m.goto u).goto pc = m.goto pc := rfl
@[simp] theorem put_goto : (m.goto pc).put r v = (m.put r v).goto pc := rfl
@[simp] theorem put_float_goto : (m.goto pc).putFloat g v = (m.putFloat g v).goto pc := rfl
@[simp] theorem poke_goto : (m.goto pc).poke addr size v = (m.poke addr size v).goto pc := rfl

end Registers

/-- The registers of `k` are those of `m`, but for some of the integer registers. -/
structure Keeps (rs : List Register) (m k : Machine) : Prop where
  registers : ∀ r : Register, (∀ s ∈ rs, r.code ≠ s.code) → k.reg r = m.reg r
  floats : k.f = m.f

section Keeps
variable {rs : List Register} {m k last : Machine}

theorem Keeps.refl (rs : List Register) (m : Machine) : Keeps rs m m := ⟨fun _ _ => rfl, rfl⟩

theorem Keeps.put (keeps : Keeps rs m k) {r : Register} (member : r ∈ rs) (v : Dword) :
    Keeps rs m (k.put r v) := by
  refine ⟨fun s apart => ?_, keeps.floats⟩
  rw [reg_put_ne _ _ _ _ (apart r member)]
  exact keeps.registers s apart

theorem Keeps.goto (keeps : Keeps rs m k) (pc : Dword) : Keeps rs m (k.goto pc) :=
  ⟨keeps.registers, keeps.floats⟩

theorem Keeps.poke (keeps : Keeps rs m k) (addr : Dword) (size : Nat) (v : Dword) :
    Keeps rs m (k.poke addr size v) :=
  ⟨keeps.registers, keeps.floats⟩

theorem Keeps.trans (first : Keeps rs m k) (second : Keeps rs k last) : Keeps rs m last :=
  ⟨fun r apart => (second.registers r apart).trans (first.registers r apart),
    second.floats.trans first.floats⟩

theorem Keeps.mono {qs : List Register} (keeps : Keeps qs m k) (more : ∀ r ∈ qs, r ∈ rs) :
    Keeps rs m k :=
  ⟨fun r apart => keeps.registers r fun s member => apart s (more s member), keeps.floats⟩

end Keeps

section Zero
variable {m : Machine} (cleared : m.Zeroed)
include cleared

theorem reg_zero : m.reg .zero = 0 := cleared

omit cleared in
theorem put_zero (v : Dword) : m.put .zero v = m := by
  rw [put, RegisterFile.write, if_pos (by decide)]

theorem zeroed_put (r : Register) (v : Dword) : (m.put r v).Zeroed := by
  rw [Zeroed, put, RegisterFile.get_write, if_neg fun same => same.2 same.1.symm]
  exact cleared

end Zero

def exec (m : Machine) (i : Instruction) : Machine :=
  match i.effect m with
  | .none | .fence .. => m.goto (i.next m)
  | .setRegister rd v => { m with x := m.x.write rd v, pc := i.next m }
  | .setFloat fd v => { m with f := m.f.set fd v, pc := i.next m }
  | .store addr size v => (m.poke addr size v).goto (i.next m)

theorem word_running (i : Instruction) (running : i ≠ .ebreak) : i.word ≠ 0x00100073 := by
  intro same
  have code := congrArg Format.opcode same
  cases i with
  | ebreak => exact running rfl
  | immediate op | upper op | extend op =>
      revert code
      cases op <;> simp [Instruction.word, ExtendOp.format] <;> decide
  | _ =>
      revert code
      simp [Instruction.word]
      decide

theorem advance_exec (m : Machine) (cleared : m.Zeroed) (i : Instruction) (encodable : i.Encodable)
    (running : i ≠ .ebreak) (fetched : m.fetch = i.word) :
    m.advance = .ok (m.exec i, i.effect m) := by
  rw [advance, fetched, step, if_neg (word_running i running),
    m.transition_word i encodable running]
  simp only [Except.map, exec]
  cases i.effect m with
  | none | fence | setFloat | store =>
      simp only [apply, goto, poke, m.x.clear_cleared cleared]
  | setRegister rd v =>
      simp only [apply, m.x.set_cleared rd v cleared]

/-- Clearing the lowest bit of an even address. -/
theorem even_address {v : Dword} (even : v &&& 1 = 0) : v &&& ~~~1 = v := by
  have split : (v &&& 1) ||| (v &&& ~~~1) = v := by
    rw [← BitVec.and_or_distrib_left, BitVec.or_not_self, BitVec.and_allOnes]
  rwa [even, show 0 ||| (v &&& ~~~1) = v &&& ~~~1 from BitVec.zero_or] at split

section Exec
variable (m : Machine)

theorem pc_exec (i : Instruction) : (m.exec i).pc = i.next m := by
  rw [exec]
  cases i.effect m <;> rfl

theorem exec_immediate (op : ImmediateOp) (rd rs : Register) (imm : Dword) (value : op ≠ .jalr) :
    m.exec (.immediate op rd rs imm) = (m.put rd (op.value (m.reg rs) imm)).goto (m.pc + 4) := by
  cases op with
  | jalr => exact absurd rfl value
  | _ => rfl

theorem exec_shift (op : ShiftOp) (rd rs : Register) (amount : Dword) :
    m.exec (.shift op rd rs amount) =
      (m.put rd (op.value (m.reg rs) amount.toNat)).goto (m.pc + 4) := rfl

theorem exec_upper (op : UpperOp) (rd : Register) (imm : Dword) :
    m.exec (.upper op rd imm) = (m.put rd (op.value m.pc imm)).goto (m.pc + 4) := rfl

theorem exec_arithmetic (op : RegisterOp) (rd rs1 rs2 : Register) :
    m.exec (.arithmetic op rd rs1 rs2) =
      (m.put rd (op.value (m.reg rs1) (m.reg rs2))).goto (m.pc + 4) := rfl

theorem exec_load (op : LoadOp) (rd base : Register) (off : Dword) :
    m.exec (.load op rd base off) =
      (m.put rd (op.value m.memory (m.reg base + off))).goto (m.pc + 4) := rfl

theorem exec_store (op : StoreOp) (src base : Register) (off : Dword) :
    m.exec (.store op src base off) =
      (m.poke (m.reg base + off) op.size (m.reg src)).goto (m.pc + 4) := rfl

theorem exec_store_double (fs : FloatRegister) (base : Register) (off : Dword) :
    m.exec (.storeFloat .double fs base off) =
      (m.poke (m.reg base + off) 8 (m.freg fs)).goto (m.pc + 4) := rfl

theorem exec_load_float (width : FloatWidth) (fd : FloatRegister) (base : Register)
    (off : Dword) :
    m.exec (.loadFloat width fd base off) =
      (m.putFloat fd (width.value m.memory (m.reg base + off))).goto (m.pc + 4) := rfl

theorem exec_branch (c : Condition) (rs1 rs2 : Register) (disp : Dword) :
    m.exec (.branch c rs1 rs2 disp) =
      m.goto (m.pc + if c.holds (m.reg rs1) (m.reg rs2) then disp else 4) := rfl

theorem exec_jump (rd : Register) (disp : Dword) :
    m.exec (.jump rd disp) = (m.put rd (m.pc + 4)).goto (m.pc + disp) := rfl

theorem exec_jump_register (rd rs : Register) (imm : Dword) :
    m.exec (.immediate .jalr rd rs imm) =
      (m.put rd (m.pc + 4)).goto ((m.reg rs + imm) &&& ~~~1) := rfl

end Exec

end Machine

end EntryCode
