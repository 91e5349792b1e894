import EntryCode.Proofs.Interpreter.Callout
import EntryCode.Proofs.Interpreter.Frame

/-!
Where the frame of a method comes to lie. All of it is between the lowest address that the method
needs and the end of the parameters, so every place is given by its distance from that lowest
address.
-/

namespace EntryCode

open EntryCode.Frame Pinned Fragment Machine

/-- A method and the machine at its entry. -/
structure Invocation where
  cfg : Config
  method : Method
  native : Bool
  synchronized : Bool
  start : Machine

namespace Invocation

variable (a : Invocation)

def lastParameter : Dword := a.start.reg stack

def record : Dword := a.start.reg Pinned.method

def current : Dword := a.start.reg thread

def parameters : Nat := a.method.parameterSlots.toNat

def extra : Nat := if a.native then 0 else a.method.extraLocals.toNat

def room : Nat := if a.native then 0 else a.method.maxStack.toNat

/-- The bytes that the check of the stack asks for below the last parameter. -/
def asked : Nat :=
  wordSize * (a.room + a.extra + (fixedWords + monitorWords + stackAlignment / wordSize))

/-- The bytes that are used below the frame: by an exit, and for the arguments of a native
function. -/
def reserve : Nat :=
  2 * stackAlignment + if a.native then wordSize * (a.parameters + 3) else 0

def need : Nat := a.asked + a.reserve

def floor : Dword := a.lastParameter - BitVec.ofNat 64 a.need

/-- The stack between the lowest address and the end of the parameters. -/
def Owns (x : Dword) : Prop :=
  Memory.Covers a.floor (a.need + wordSize * a.parameters) x

def Granted (x : Dword) : Prop :=
  Memory.Covers (a.lastParameter - BitVec.ofNat 64 a.asked) a.asked x

def localZero : Dword :=
  a.lastParameter + BitVec.ofNat 64 (wordSize * a.parameters) - BitVec.ofNat 64 wordSize

def lastLocal : Dword := a.lastParameter - BitVec.ofNat 64 (wordSize * a.extra)

def fp : Dword := alignDown a.lastLocal

def top : Dword := emptyStack a.synchronized a.fp

def sp : Dword := alignDown (a.top - BitVec.ofNat 64 (wordSize * a.room))

def bytecode : Dword :=
  if a.native then 0 else a.method.constMethod + a.cfg.method.offset .codes

theorem align_down_eq (v : Dword) :
    alignDown v = v - BitVec.ofNat 64 (v.toNat % stackAlignment) := by
  have split : (v &&& 15#64) ||| (v &&& ~~~15#64) = v := by
    rw [← BitVec.and_or_distrib_left, BitVec.or_not_self, BitVec.and_allOnes]
  have apart : (v &&& 15#64) &&& (v &&& ~~~15#64) = 0#64 := by
    rw [BitVec.and_assoc, ← BitVec.and_assoc 15#64, BitVec.and_comm 15#64, BitVec.and_assoc v,
      BitVec.and_not_self]
    simp
  have low : v &&& 15#64 = BitVec.ofNat 64 (v.toNat % stackAlignment) := by
    apply BitVec.eq_of_toNat_eq
    have mask : v.toNat &&& 15 = v.toNat % 16 := Nat.and_two_pow_sub_one_eq_mod v.toNat 4
    rw [BitVec.toNat_and, BitVec.toNat_ofNat, BitVec.toNat_ofNat, stackAlignment,
      show 15 % 2 ^ 64 = 15 from rfl, mask]
    omega
  rw [← BitVec.add_eq_or_of_and_eq_zero _ _ apart] at split
  rw [← low]
  have : alignDown v = v &&& ~~~15#64 := rfl
  bv_omega

theorem align_down_aligned (v : Dword) : (alignDown v).toNat % stackAlignment = 0 := by
  rw [align_down_eq]
  simp only [stackAlignment]
  have bound := v.isLt
  have low : (BitVec.ofNat 64 (v.toNat % 16)).toNat = v.toNat % 16 := by
    rw [BitVec.toNat_ofNat]
    omega
  generalize BitVec.ofNat 64 (v.toNat % 16) = d at low
  bv_omega

theorem align_down_at {v base : Dword} {n : Nat} (place : v = base + BitVec.ofNat 64 n)
    (words : v.toNat % wordSize = 0) (above : wordSize ≤ n) :
    ∃ k, alignDown v = base + BitVec.ofNat 64 k ∧ k ≤ n ∧ n ≤ k + wordSize := by
  have rest : v.toNat % stackAlignment = 0 ∨ v.toNat % stackAlignment = wordSize := by
    simp only [stackAlignment, wordSize] at words ⊢
    omega
  rcases rest with rest | rest
  · refine ⟨n, ?_, le_rfl, by omega⟩
    rw [align_down_eq, rest, BitVec.sub_zero, place]
  · refine ⟨n - wordSize, ?_, by omega, by omega⟩
    have split : BitVec.ofNat 64 n = BitVec.ofNat 64 (n - wordSize) + BitVec.ofNat 64 wordSize := by
      rw [← BitVec.ofNat_add, Nat.sub_add_cancel above]
    rw [align_down_eq, rest, place, split, ← BitVec.add_assoc, BitVec.add_sub_cancel]

theorem sub_at {base : Dword} {n k : Nat} (above : k ≤ n) :
    base + BitVec.ofNat 64 n - BitVec.ofNat 64 k = base + BitVec.ofNat 64 (n - k) := by
  have split : BitVec.ofNat 64 n = BitVec.ofNat 64 (n - k) + BitVec.ofNat 64 k := by
    rw [← BitVec.ofNat_add, Nat.sub_add_cancel above]
  rw [split, ← BitVec.add_assoc, BitVec.add_sub_cancel]

theorem distance {base : Dword} {n k : Nat} (above : k ≤ n) (short : n < 2 ^ 64) :
    (base + BitVec.ofNat 64 n - (base + BitVec.ofNat 64 k)).toNat = n - k := by
  have split : BitVec.ofNat 64 n = BitVec.ofNat 64 (n - k) + BitVec.ofNat 64 k := by
    rw [← BitVec.ofNat_add, Nat.sub_add_cancel above]
  have value : (BitVec.ofNat 64 (n - k)).toNat = n - k := by
    rw [BitVec.toNat_ofNat]
    omega
  rw [split]
  generalize BitVec.ofNat 64 (n - k) = d at value
  bv_omega

theorem words_sub {v : Dword} (words : v.toNat % wordSize = 0) (n : Nat) :
    (v - BitVec.ofNat 64 (wordSize * n)).toNat % wordSize = 0 := by
  simp only [wordSize] at words ⊢
  rw [BitVec.toNat_sub, BitVec.toNat_ofNat]
  omega

/-- The bytes of the fixed part and of the monitor, if there is one. -/
def fixed : Nat := if a.synchronized then fixedSize + monitorSize else fixedSize

theorem top_eq : a.top = a.fp - BitVec.ofNat 64 a.fixed := by
  rw [top, emptyStack, fixed, BitVec.sub_eq_add_neg]
  cases a.synchronized <;> rfl

theorem need_eq : a.need = 8 * a.room + 8 * a.extra + 144 + a.reserve := by
  simp only [need, asked, wordSize, fixedWords, monitorWords, stackAlignment]
  omega

theorem reserve_ge : 32 ≤ a.reserve := by
  simp only [reserve, stackAlignment]
  omega

theorem fixed_words :
    a.fixed = wordSize * if a.synchronized then fixedWords + monitorWords else fixedWords := by
  rw [fixed]
  split <;> rfl

theorem fixed_le : a.fixed ≤ 128 := by
  rw [fixed]
  split <;> decide

theorem fixed_ge : 112 ≤ a.fixed := by
  rw [fixed]
  split <;> decide

/-- The frame pointer and the stack pointer by their distances from the lowest address. -/
structure Placed (f s : Nat) : Prop where
  fp : a.fp = a.floor + BitVec.ofNat 64 f
  sp : a.sp = a.floor + BitVec.ofNat 64 s
  above : s + a.fixed + 8 * a.room ≤ f
  below : f ≤ 8 * a.room + 144 + a.reserve
  close : 8 * a.room + 136 + a.reserve ≤ f
  least : a.reserve ≤ s
  small : a.need + 8 * a.parameters < 2 ^ 32

theorem last_parameter_at : a.lastParameter = a.floor + BitVec.ofNat 64 a.need := by
  rw [floor, BitVec.sub_add_cancel]

theorem last_local_at :
    a.lastLocal = a.floor + BitVec.ofNat 64 (8 * a.room + 144 + a.reserve) := by
  have size := a.need_eq
  rw [lastLocal, last_parameter_at, sub_at (by simp only [wordSize]; omega)]
  congr 2
  simp only [wordSize]
  omega

theorem short_counts (counted : a.method.Counted) :
    a.parameters < 2 ^ 16 ∧ a.extra < 2 ^ 16 ∧ a.room < 2 ^ 16 := by
  have enough := counted.parameters
  have many := counted.locals
  have deep := counted.stack
  have bound := a.method.maxLocals.isLt
  refine ⟨by rw [parameters]; omega, ?_, ?_⟩
  · rw [extra, Method.extraLocals, BitVec.toNat_sub]
    split <;> omega
  · rw [room]
    split <;> omega

theorem placed (counted : a.method.Counted) (aligned : a.lastParameter.toNat % wordSize = 0) :
    ∃ f s, a.Placed f s := by
  have size := a.need_eq
  obtain ⟨few, many, deep⟩ := a.short_counts counted
  have fixed := a.fixed_le
  have spare : a.reserve ≤ 32 + 8 * (a.parameters + 3) := by
    simp only [reserve, stackAlignment, wordSize]
    split <;> omega
  have words : a.lastLocal.toNat % wordSize = 0 := words_sub aligned a.extra
  obtain ⟨f, fp, below, close⟩ := align_down_at a.last_local_at words (by
    simp only [wordSize]
    omega)
  have fp : a.fp = a.floor + BitVec.ofNat 64 f := fp
  simp only [wordSize] at close
  have low : a.top - BitVec.ofNat 64 (wordSize * a.room) =
      a.floor + BitVec.ofNat 64 (f - a.fixed - wordSize * a.room) := by
    simp only [wordSize]
    rw [a.top_eq, fp, sub_at (by omega), sub_at (by omega)]
  have whole : a.fp.toNat % stackAlignment = 0 := align_down_aligned a.lastLocal
  have words : (a.top - BitVec.ofNat 64 (wordSize * a.room)).toNat % wordSize = 0 := by
    have whole : a.fp.toNat % wordSize = 0 := by
      simp only [stackAlignment, wordSize] at whole ⊢
      omega
    rw [a.top_eq, a.fixed_words]
    exact words_sub (words_sub whole _) _
  simp only [wordSize] at low
  obtain ⟨s, sp, under, near⟩ := align_down_at low words (by
    simp only [wordSize]
    omega)
  simp only [wordSize] at near
  exact ⟨f, s, fp, sp, by omega, below, by omega, by omega, by omega⟩

def stackEnd : Dword := a.lastParameter + BitVec.ofNat 64 (wordSize * a.parameters)

def Monitor (x : Dword) : Prop :=
  Memory.Covers (a.fp + firstMonitor) monitorSize x

def Live (x : Dword) : Prop :=
  Memory.Covers a.top (a.stackEnd - a.top).toNat x ∧ ¬a.Monitor x

def Under (sp : Dword) : Prop :=
  (sp - a.floor).toNat ≤ (a.top - a.floor).toNat

/-- A stack pointer below the frame that leaves room for an exit. -/
def Below (sp : Dword) : Prop :=
  2 * stackAlignment ≤ (sp - a.floor).toNat ∧ a.Under sp

section Places
variable {a} {f s : Nat} (laid : a.Placed f s) {x : Dword}
include laid

theorem Placed.word {n : Nat} (below : n ≤ f) : a.fp + -BitVec.ofNat 64 n =
    a.floor + BitVec.ofNat 64 (f - n) := by
  rw [← BitVec.sub_eq_add_neg, laid.fp, sub_at below]

theorem Placed.bounded : f < 2 ^ 32 := by
  have small := laid.small
  have close := laid.below
  have size := a.need_eq
  omega

theorem Placed.covers_word {n size : Nat} (below : n ≤ f) (short : size ≤ n) :
    Memory.Covers (a.fp + -BitVec.ofNat 64 n) size x ↔
      f - n ≤ (x - a.floor).toNat ∧ (x - a.floor).toNat < f - n + size := by
  have bounded := laid.bounded
  rw [laid.word below, Memory.covers_at (by omega)]

theorem Placed.frame_area :
    frameArea a.fp x ↔ f - 128 ≤ (x - a.floor).toNat ∧ (x - a.floor).toNat < f := by
  have close := laid.close
  have covers : frameArea a.fp x ↔
      f - 128 ≤ (x - a.floor).toNat ∧ (x - a.floor).toNat < f - 128 + 128 :=
    laid.covers_word (n := 128) (by omega) le_rfl
  rwa [Nat.sub_add_cancel (by omega)] at covers

theorem Placed.monitor :
    a.Monitor x ↔ f - 128 ≤ (x - a.floor).toNat ∧ (x - a.floor).toNat < f - 112 := by
  have close := laid.close
  have covers : a.Monitor x ↔
      f - 128 ≤ (x - a.floor).toNat ∧ (x - a.floor).toNat < f - 128 + 16 :=
    laid.covers_word (n := 128) (by omega) (by decide)
  rwa [show f - 128 + 16 = f - 112 by omega] at covers

theorem Placed.top_at : a.top = a.floor + BitVec.ofNat 64 (f - a.fixed) := by
  have close := laid.close
  have most := a.fixed_le
  rw [a.top_eq, laid.fp, sub_at (by omega)]

theorem Placed.top_distance : (a.top - a.floor).toNat = f - a.fixed := by
  have bounded := laid.bounded
  have zero : a.floor = a.floor + BitVec.ofNat 64 0 := (BitVec.add_zero _).symm
  rw [laid.top_at]
  nth_rewrite 2 [zero]
  exact distance (by omega) (by omega)

theorem Placed.covers_above {n : Nat} (below : n ≤ a.need + 8 * a.parameters) :
    Memory.Covers (a.floor + BitVec.ofNat 64 n)
      (a.stackEnd - (a.floor + BitVec.ofNat 64 n)).toNat x ↔
        n ≤ (x - a.floor).toNat ∧ (x - a.floor).toNat < a.need + 8 * a.parameters := by
  have small := laid.small
  have length : (a.stackEnd - (a.floor + BitVec.ofNat 64 n)).toNat =
      a.need + 8 * a.parameters - n := by
    rw [stackEnd, a.last_parameter_at, BitVec.add_assoc, ← BitVec.ofNat_add, wordSize,
      distance below (by omega)]
  rw [length, Memory.covers_at (by omega), Nat.add_sub_cancel' below]

theorem Placed.live : a.Live x ↔ (f - a.fixed ≤ (x - a.floor).toNat ∧
    (x - a.floor).toNat < a.need + 8 * a.parameters) ∧
      ¬(f - 128 ≤ (x - a.floor).toNat ∧ (x - a.floor).toNat < f - 112) := by
  have below := laid.below
  have size := a.need_eq
  rw [Live, laid.monitor, laid.top_at, laid.covers_above (by omega)]

theorem Placed.below_sp : a.Below a.sp := by
  have bounded := laid.bounded
  have above := laid.above
  have least := laid.least
  have spare := a.reserve_ge
  have zero : a.floor = a.floor + BitVec.ofNat 64 0 := (BitVec.add_zero _).symm
  have height : (a.sp - a.floor).toNat = s := by
    rw [laid.sp]
    nth_rewrite 2 [zero]
    exact distance (by omega) (by omega)
  rw [Below, Under, height, laid.top_distance, stackAlignment]
  omega

theorem Placed.covers_extra : Memory.Covers a.lastLocal (wordSize * a.extra) x ↔
    8 * a.room + 144 + a.reserve ≤ (x - a.floor).toNat ∧ (x - a.floor).toNat < a.need := by
  have small := laid.small
  have size := a.need_eq
  rw [wordSize, a.last_local_at, Memory.covers_at (by omega),
    show 8 * a.room + 144 + a.reserve + 8 * a.extra = a.need by omega]

theorem Placed.covers_parameters :
    Memory.Covers a.lastParameter (wordSize * a.parameters) x ↔
      a.need ≤ (x - a.floor).toNat ∧ (x - a.floor).toNat < a.need + 8 * a.parameters := by
  have small := laid.small
  rw [wordSize, a.last_parameter_at, Memory.covers_at (by omega)]

theorem Placed.granted :
    a.Granted x ↔ a.reserve ≤ (x - a.floor).toNat ∧ (x - a.floor).toNat < a.need := by
  have small := laid.small
  have size : a.need = a.asked + a.reserve := rfl
  rw [Granted, last_parameter_at, sub_at (by omega), Memory.covers_at (by omega)]
  omega

theorem Placed.granted_owned (x : Dword) (granted : a.Granted x) : a.Owns x := by
  rw [laid.granted] at granted
  rw [Owns, Memory.Covers]
  omega

theorem Placed.extra_granted (x : Dword)
    (inside : Memory.Covers a.lastLocal (wordSize * a.extra) x) : a.Granted x := by
  rw [laid.covers_extra] at inside
  rw [laid.granted]
  omega

theorem Placed.frame_granted (x : Dword) (inside : frameArea a.fp x) : a.Granted x := by
  have below := laid.below
  have close := laid.close
  have size := a.need_eq
  rw [laid.frame_area] at inside
  rw [laid.granted]
  omega

theorem Placed.frame_owned (x : Dword) (inside : frameArea a.fp x) : a.Owns x :=
  laid.granted_owned x (laid.frame_granted x inside)

theorem Placed.live_owned (x : Dword) (live : a.Live x) : a.Owns x := by
  rw [laid.live] at live
  exact live.1.2

end Places

section Framed

/-- The saved registers of a frame, with the stack pointer as it is. -/
def registers (sp : Dword) : List (Register × Dword) :=
  [(.fp, a.fp), (.sp, sp), (thread, a.current), (locals, a.localZero), (stack, a.top),
   (senderSp, a.start.reg senderSp), (Pinned.bytecode, a.bytecode)]

/-- What changes in a frame while its method runs. -/
structure Contents where
  cell : Dword
  result : Dword
  temp : Dword
  object : Dword

def changingSlots : List Slot :=
  [.profileCell, .resultHandler, .oopTemp]

def Contents.set (w : Contents) (t : Slot) (v : Dword) : Contents where
  cell := if t = .profileCell then v else w.cell
  result := if t = .resultHandler then v else w.result
  temp := if t = .oopTemp then v else w.temp
  object := w.object

theorem Contents.set_cell (w : Contents) (v : Dword) :
    w.set .profileCell v = { w with cell := v } := rfl

theorem Contents.set_result (w : Contents) (v : Dword) :
    w.set .resultHandler v = { w with result := v } := rfl

theorem Contents.set_temp (w : Contents) (v : Dword) :
    w.set .oopTemp v = { w with temp := v } := rfl

def firstContents (cell : Dword) : Contents := ⟨cell, 0, 0, 0⟩

def slots (w : Contents) : List (Slot × Dword) :=
  [(.returnAddress, a.start.reg .ra), (.savedFp, a.start.reg .fp),
   (.senderSp, a.start.reg senderSp), (.lastSp, 0), (.method, a.record),
   (.mirror, a.method.mirror), (.profileCell, w.cell), (.cpCache, a.method.cpCache),
   (.locals, a.localZero), (.bytecode, a.bytecode), (.monitorTop, a.top),
   (.resultHandler, w.result), (.oopTemp, w.temp), (.padding, 0)]

def words (w : Contents) : List (Dword × Dword) :=
  (a.slots w).map fun v => (slot v.1, v.2)

def objectAddress : Dword := a.fp + (firstMonitor + monitorObject)

def Field (f : MethodField) (x : Dword) : Prop :=
  Memory.Covers (a.record + a.cfg.method.offset f) f.width x

/-- The frame of the method stands, with the locals above it. -/
structure Framed (sp : Dword) (w : Contents) (k : Machine) : Prop where
  registers : ∀ v ∈ a.registers sp, k.reg v.1 = v.2
  frame : k.memory.Holds a.fp (a.words w)
  object : a.synchronized = true → k.memory.load a.objectAddress 8 = w.object
  zeroed : ∀ i, a.parameters ≤ i → i < a.parameters + a.extra →
    k.memory.load (a.localZero - BitVec.ofNat 64 (wordSize * i)) 8 = 0
  parameters : Memory.Agree (Memory.Covers a.lastParameter (wordSize * a.parameters))
    a.start.memory k.memory
  flags : Memory.Agree (a.Field .accessFlags) a.start.memory k.memory

variable {a} {f s : Nat} (laid : a.Placed f s) {x sp : Dword} {w : Contents} {k j : Machine}

section Registers
variable (framed : a.Framed sp w k)
include framed

theorem Framed.at_fp : k.reg .fp = a.fp :=
  framed.registers (.fp, a.fp) (by simp [Invocation.registers])

theorem Framed.at_sp : k.reg .sp = sp :=
  framed.registers (.sp, sp) (by simp [Invocation.registers])

theorem Framed.at_thread : k.reg thread = a.current :=
  framed.registers (thread, a.current) (by simp [Invocation.registers])

theorem Framed.at_locals : k.reg locals = a.localZero :=
  framed.registers (locals, a.localZero) (by simp [Invocation.registers])

theorem Framed.at_stack : k.reg stack = a.top :=
  framed.registers (stack, a.top) (by simp [Invocation.registers])

theorem Framed.at_bytecode : k.reg Pinned.bytecode = a.bytecode :=
  framed.registers (Pinned.bytecode, a.bytecode) (by simp [Invocation.registers])

theorem Framed.reads (t : Slot) (v : Dword) (member : (t, v) ∈ a.slots w) :
    k.memory.load (a.fp + slot t) 8 = v :=
  framed.frame (slot t, v) (List.mem_map.mpr ⟨_, member, rfl⟩)

end Registers

theorem slot_offsets : ∀ v ∈ a.slots w, ∃ n, slot v.1 = -BitVec.ofNat 64 n ∧ 8 ≤ n ∧ n ≤ 112 := by
  have bounds : ∀ v ∈ a.slots w, 8 ≤ (-slot v.1).toNat ∧ (-slot v.1).toNat ≤ 112 := by
    simp only [slots, List.forall_mem_cons]
    decide
  intro v member
  refine ⟨(-slot v.1).toNat, ?_, bounds v member⟩
  rw [BitVec.ofNat_toNat, BitVec.setWidth_eq, BitVec.neg_neg]

theorem slots_apart : ∀ t ∈ Slot.named.map Prod.fst, ∀ u ∈ Slot.named.map Prod.fst, t ≠ u →
    Memory.Apart (slot t) 8 (slot u) 8 := by
  decide

theorem slots_named : (a.slots w).map Prod.fst = Slot.named.map Prod.fst := rfl

theorem local_at {i : Nat} (inside : i < a.parameters + a.extra) :
    a.localZero - BitVec.ofNat 64 (wordSize * i) =
      a.floor + BitVec.ofNat 64 (a.need + 8 * a.parameters - 8 - 8 * i) := by
  have size := a.need_eq
  rw [localZero, a.last_parameter_at, BitVec.add_assoc, ← BitVec.ofNat_add, wordSize,
    sub_at (by omega), sub_at (by omega)]

include laid

theorem Placed.slots_live (v : Slot × Dword) (member : v ∈ a.slots w) (x : Dword)
    (covered : Memory.Covers (a.fp + slot v.1) 8 x) : a.Live x := by
  have below := laid.below
  have close := laid.close
  have size := a.need_eq
  have least := a.fixed_ge
  obtain ⟨n, place, low, high⟩ := slot_offsets v member
  rw [place, laid.covers_word (by omega) low] at covered
  rw [laid.live]
  omega

theorem Placed.object_covers : Memory.Covers a.objectAddress 8 x ↔
    f - 120 ≤ (x - a.floor).toNat ∧ (x - a.floor).toNat < f - 112 := by
  have close := laid.close
  have covers : Memory.Covers a.objectAddress 8 x ↔
      f - 120 ≤ (x - a.floor).toNat ∧ (x - a.floor).toNat < f - 120 + 8 :=
    laid.covers_word (n := 120) (by omega) (by omega)
  rwa [show f - 120 + 8 = f - 112 by omega] at covers

theorem Placed.object_monitor (x : Dword) (covered : Memory.Covers a.objectAddress 8 x) :
    a.Monitor x := by
  rw [laid.object_covers] at covered
  rw [laid.monitor]
  omega

theorem Placed.covers_local {i : Nat} (inside : i < a.parameters + a.extra) :
    Memory.Covers (a.localZero - BitVec.ofNat 64 (wordSize * i)) 8 x ↔
      a.need + 8 * a.parameters - 8 - 8 * i ≤ (x - a.floor).toNat ∧
        (x - a.floor).toNat < a.need + 8 * a.parameters - 8 * i := by
  have size := a.need_eq
  have small := laid.small
  rw [local_at inside, Memory.covers_at (by omega)]
  omega

/-- Local zero is part of the frame or lies above it. -/
theorem Placed.local_zero_live (x : Dword) (covered : Memory.Covers a.localZero 8 x) :
    a.Live x := by
  have below := laid.below
  have close := laid.close
  have small := laid.small
  have least := a.fixed_ge
  have size := a.need_eq
  have place : a.localZero = a.floor + BitVec.ofNat 64 (a.need + 8 * a.parameters - 8) := by
    rw [localZero, a.last_parameter_at, BitVec.add_assoc, ← BitVec.ofNat_add, wordSize,
      sub_at (by omega)]
  rw [place, Memory.covers_at (by omega)] at covered
  rw [laid.live]
  omega

/-- The frame stands as long as its registers and its part of the stack stay, but for what the
monitor holds. -/
theorem Framed.congr {o : Dword} (framed : a.Framed sp w k) {sp' : Dword}
    (registers : ∀ v ∈ a.registers sp', j.reg v.1 = v.2)
    (live : Memory.Agree a.Live k.memory j.memory)
    (flags : Memory.Agree (a.Field .accessFlags) k.memory j.memory)
    (object : a.synchronized = true → j.memory.load a.objectAddress 8 = o) :
    a.Framed sp' { w with object := o } j := by
  have below := laid.below
  have close := laid.close
  have least := a.fixed_ge
  have size := a.need_eq
  refine ⟨registers, ?_, object, ?_, ?_, framed.flags.trans flags⟩
  · refine live.holds framed.frame fun v member x covered => ?_
    obtain ⟨u, inside, rfl⟩ := List.mem_map.mp member
    exact laid.slots_live u inside x covered
  · intro i first last
    rw [live.load (by decide), framed.zeroed i first last]
    intro x covered
    rw [laid.covers_local last] at covered
    rw [laid.live]
    omega
  · refine framed.parameters.trans (live.mono fun x covered => ?_)
    rw [laid.covers_parameters] at covered
    rw [laid.live]
    omega

theorem Framed.set_slot (framed : a.Framed sp w k) {t : Slot} {v : Dword} {w' : Contents}
    (same : w'.object = w.object)
    (others : ∀ u ∈ a.slots w', u = (t, v) ∨ t ≠ u.1 ∧ u ∈ a.slots w)
    (placed : (t, v) ∈ a.slots w')
    (registers : ∀ u ∈ a.registers sp, j.reg u.1 = k.reg u.1)
    (free : ∀ x, frameArea a.fp x → ¬a.Field .accessFlags x)
    (memory : j.memory = k.memory.store (a.fp + slot t) 8 v) : a.Framed sp w' j := by
  have below := laid.below
  have close := laid.close
  have size := a.need_eq
  obtain ⟨n, place, low, high⟩ := slot_offsets _ placed
  have inside : ∀ x, Memory.Covers (a.fp + slot t) 8 x →
      f - 112 ≤ (x - a.floor).toNat ∧ (x - a.floor).toNat < f := by
    intro x covered
    rw [place, laid.covers_word (by omega) low] at covered
    omega
  -- What is set is one of the fourteen words below the frame pointer.
  have agree : Memory.Agree
      (fun x => ¬(f - 112 ≤ (x - a.floor).toNat ∧ (x - a.floor).toNat < f)) k.memory j.memory := by
    rw [memory]
    exact (Memory.agree_store _ _ _ (by decide)).mono fun x free covered => free (inside x covered)
  refine ⟨fun u member => (registers u member).trans (framed.registers u member), ?_, ?_, ?_, ?_, ?_⟩
  · intro u member
    obtain ⟨u, there, rfl⟩ := List.mem_map.mp member
    rw [memory]
    rcases others u there with rfl | ⟨other, earlier⟩
    · exact Memory.load_store_word _ _
    · have apart := slots_apart t (slots_named ▸ List.mem_map_of_mem placed) u.1
        (slots_named ▸ List.mem_map_of_mem there) other
      rw [Memory.load_store_apart _ _ _ (by decide) _ _ (apart.add a.fp)]
      exact framed.reads u.1 u.2 earlier
  · intro locked
    rw [agree.load (by decide), framed.object locked, same]
    intro x covered
    rw [laid.object_covers] at covered
    omega
  · intro i first last
    rw [agree.load (by decide), framed.zeroed i first last]
    intro x covered
    rw [laid.covers_local last] at covered
    omega
  · refine framed.parameters.trans (agree.mono fun x covered => ?_)
    rw [laid.covers_parameters] at covered
    omega
  · refine framed.flags.trans (agree.mono fun x there within => free x ?_ there)
    rw [laid.frame_area]
    omega

omit laid in
theorem slots_set {t : Slot} (changes : t ∈ changingSlots) (v : Dword) :
    a.slots (w.set t v) = (a.slots w).map fun u => if u.1 = t then (t, v) else u := by
  simp only [changingSlots, List.mem_cons, List.not_mem_nil, or_false] at changes
  rcases changes with rfl | rfl | rfl <;> rfl

/-- A word that changes while the method runs is set. -/
theorem Framed.set_word (framed : a.Framed sp w k) {t : Slot} {v : Dword}
    (changes : t ∈ changingSlots)
    (registers : ∀ u ∈ a.registers sp, j.reg u.1 = k.reg u.1)
    (free : ∀ x, frameArea a.fp x → ¬a.Field .accessFlags x)
    (memory : j.memory = k.memory.store (a.fp + slot t) 8 v) : a.Framed sp (w.set t v) j := by
  refine framed.set_slot laid rfl ?_ ?_ registers free memory
  · intro u member
    rw [slots_set changes] at member
    obtain ⟨u, there, rfl⟩ := List.mem_map.mp member
    split
    · exact .inl rfl
    · next other => exact .inr ⟨Ne.symm other, there⟩
  · have named : ∀ t ∈ changingSlots, t ∈ Slot.named.map Prod.fst := by decide
    have member := named t changes
    rw [← slots_named (a := a) (w := w)] at member
    obtain ⟨u, there, same⟩ := List.mem_map.mp member
    rw [slots_set changes]
    exact List.mem_map.mpr ⟨u, there, if_pos same⟩

end Framed

end Invocation

end EntryCode
