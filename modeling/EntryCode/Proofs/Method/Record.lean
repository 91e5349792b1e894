import EntryCode.Method.Basic
import EntryCode.Proofs.Machine.Memory

/-!
Method records in memory. Where the fields of a layout do not overlap, every field of an encoded
record reads back what was written to it.
-/

namespace EntryCode

theorem Bytes.get_overwrite (bytes patch : Bytes) (off i : Nat)
    (fits : off + patch.length ≤ bytes.length) :
    (overwrite bytes off patch)[i]? =
      if off ≤ i ∧ i < off + patch.length then patch[i - off]? else bytes[i]? := by
  have front : (bytes.take off).length = off := by
    rw [List.length_take]
    omega
  rw [overwrite, List.append_assoc]
  by_cases before : i < off
  · rw [List.getElem?_append_left (by omega), List.getElem?_take_of_lt before,
      if_neg (by omega)]
  · rw [List.getElem?_append_right (by omega), front]
    by_cases inside : i < off + patch.length
    · rw [List.getElem?_append_left (by omega), if_pos ⟨by omega, inside⟩]
    · rw [List.getElem?_append_right (by omega), List.getElem?_drop, if_neg (by omega)]
      congr 1
      omega

theorem Bytes.length_overwrite (bytes patch : Bytes) (off : Nat)
    (fits : off + patch.length ≤ bytes.length) :
    (overwrite bytes off patch).length = bytes.length := by
  simp only [overwrite, List.length_append, List.length_take, List.length_drop]
  omega

namespace Layout

def Separate {F : Type} [RecordField F] (l : Layout F) (fields : List F) : Prop :=
  fields.Pairwise fun f g =>
    (l.offset f).toNat + RecordField.width f ≤ (l.offset g).toNat ∨
      (l.offset g).toNat + RecordField.width g ≤ (l.offset f).toNat

/-- No two of the fields have an address in common, wherever the record lies. -/
def Parted {F : Type} [RecordField F] (l : Layout F) (fields : List F) : Prop :=
  fields.Pairwise fun f g =>
    Memory.Apart (l.offset f) (RecordField.width f) (l.offset g) (RecordField.width g)

section Parted
variable {F : Type} [RecordField F] {l : Layout F} {fields : List F} {f g : F}

theorem Parted.apart (parted : l.Parted fields) (one : f ∈ fields) (two : g ∈ fields)
    (other : f ≠ g) :
    Memory.Apart (l.offset f) (RecordField.width f) (l.offset g) (RecordField.width g) :=
  have : Std.Symm fun f g : F =>
      Memory.Apart (l.offset f) (RecordField.width f) (l.offset g) (RecordField.width g) :=
    ⟨fun _ _ apart => And.symm apart⟩
  List.Pairwise.forall parted one two other

theorem Parted.disjoint (parted : l.Parted fields) (one : f ∈ fields) (two : g ∈ fields)
    (other : f ≠ g) (small : RecordField.width g ≤ 2 ^ 64) (base x : Dword)
    (covered : Memory.Covers (base + l.offset g) (RecordField.width g) x) :
    ¬Memory.Covers (base + l.offset f) (RecordField.width f) x := by
  obtain ⟨k, inside, rfl⟩ := (Memory.covers_iff small).mp covered
  exact ((parted.apart one two other).add base).not_covers k inside

/-- Offsets within reach do not wrap, so fields that do not overlap lie apart. -/
theorem Separate.parted (separate : l.Separate fields)
    (small : ∀ f ∈ fields,
      0 < RecordField.width f ∧ (l.offset f).toNat + RecordField.width f < 2 ^ 63) :
    l.Parted fields := by
  refine List.Pairwise.imp_of_mem ?_ separate
  intro f g one two apart
  have first := small f one
  have second := small g two
  generalize RecordField.width f = s at *
  generalize RecordField.width g = t at *
  generalize l.offset f = a at *
  generalize l.offset g = b at *
  have bound := a.isLt
  have bound' := b.isLt
  rw [Memory.Apart, BitVec.toNat_sub, BitVec.toNat_sub]
  omega

end Parted

variable (l : Layout MethodField)

def writeField (size : Nat) (record : Bytes) (w : MethodField × Dword) : Option Bytes :=
  if (l.offset w.1).toNat + w.1.width ≤ size then
    some (Bytes.overwrite record (l.offset w.1).toNat (Bytes.ofBits w.1.width w.2))
  else none

theorem encode_eq (m : Method) :
    l.encode m = if sizeLimit < l.size.toNat then none
      else (MethodField.contents m).foldlM (l.writeField l.size.toNat)
        (List.replicate l.size.toNat 0) := rfl

def FieldHolds (record : Bytes) (w : MethodField × Dword) : Prop :=
  ∀ k < w.1.width, record[(l.offset w.1).toNat + k]? = (Bytes.ofBits w.1.width w.2)[k]?

theorem write_field_holds {size : Nat} {record bytes : Bytes} {w : MethodField × Dword}
    (length : record.length = size) (written : l.writeField size record w = some bytes) :
    bytes.length = size ∧ l.FieldHolds bytes w ∧ ∀ i, i < (l.offset w.1).toNat ∨
      (l.offset w.1).toNat + w.1.width ≤ i → bytes[i]? = record[i]? := by
  rw [writeField, Option.ite_none_right_eq_some] at written
  obtain ⟨fits, same⟩ := written
  rw [Option.some.injEq] at same
  subst same
  have fits : (l.offset w.1).toNat + (Bytes.ofBits w.1.width w.2).length ≤ record.length := by
    rw [Bytes.length_ofBits, length]
    exact fits
  refine ⟨(Bytes.length_overwrite _ _ _ fits).trans length, ?_, ?_⟩
  · intro k inside
    rw [Bytes.get_overwrite _ _ _ _ fits, if_pos (by rw [Bytes.length_ofBits]; omega)]
    congr 1
    omega
  · intro i outside
    rw [Bytes.get_overwrite _ _ _ _ fits, if_neg (by rw [Bytes.length_ofBits]; omega)]

/-- Every field that was written holds what was written to it last. -/
theorem written_holds {size : Nat} {record bytes : Bytes} (writes : List (MethodField × Dword))
    (separate : l.Separate (writes.map Prod.fst)) (length : record.length = size)
    (written : writes.foldlM (l.writeField size) record = some bytes) :
    bytes.length = size ∧ (∀ w ∈ writes, l.FieldHolds bytes w) ∧
      ∀ i, (∀ w ∈ writes, i < (l.offset w.1).toNat ∨ (l.offset w.1).toNat + w.1.width ≤ i) →
        bytes[i]? = record[i]? := by
  induction writes generalizing record with
  | nil =>
      cases written
      exact ⟨length, nofun, fun _ _ => rfl⟩
  | cons w rest ih =>
      rw [List.foldlM_cons] at written
      obtain ⟨mid, first, later⟩ := Option.bind_eq_some_iff.mp written
      obtain ⟨length, here, outside⟩ := l.write_field_holds length first
      rw [Separate, List.map_cons, List.pairwise_cons] at separate
      obtain ⟨apart, separate⟩ := separate
      obtain ⟨length, others, kept⟩ := ih separate length later
      refine ⟨length, ?_, ?_⟩
      · rw [List.forall_mem_cons]
        refine ⟨fun k inside => ?_, others⟩
        rw [kept, here k inside]
        intro v member
        have := apart v.1 (List.mem_map_of_mem member)
        have same : ∀ f : MethodField, RecordField.width f = f.width := fun _ => rfl
        simp only [same] at this
        omega
      · intro i free
        rw [List.forall_mem_cons] at free
        rw [kept i free.2, outside i free.1]

theorem last_end (fields : List MethodField) (last : Dword) (low : last.toNat ≤ 2056)
    (near : ∀ f ∈ fields, (l.offset f).toNat < 2048) :
    let size := fields.foldl (fun last f =>
      if last.slt (l.fieldEnd f) then l.fieldEnd f else last) last
    last.toNat ≤ size.toNat ∧ size.toNat ≤ 2056 ∧
      ∀ f ∈ fields, (l.offset f).toNat + f.width ≤ size.toNat := by
  induction fields generalizing last with
  | nil => exact ⟨le_rfl, low, nofun⟩
  | cons f rest ih =>
      rw [List.forall_mem_cons] at near
      have wide : f.width ≤ 8 := by cases f <;> decide
      have stop : (l.fieldEnd f).toNat = (l.offset f).toNat + f.width := by
        rw [fieldEnd, BitVec.toNat_add, BitVec.toNat_ofNat]
        omega
      -- No end is negative, so the larger one is the later one.
      have order : last.slt (l.fieldEnd f) = true ↔ last.toNat < (l.fieldEnd f).toNat := by
        have value := last.toInt_eq_toNat_cond
        have value' := (l.fieldEnd f).toInt_eq_toNat_cond
        rw [BitVec.slt, decide_eq_true_eq]
        split at value <;> split at value' <;> omega
      have next : (if last.slt (l.fieldEnd f) then l.fieldEnd f else last).toNat =
          max last.toNat (l.fieldEnd f).toNat := by
        split
        · next later => exact (max_eq_right (order.mp later).le).symm
        · next early => exact (max_eq_left (Nat.le_of_not_lt (mt order.mpr early))).symm
      obtain ⟨later, bound, others⟩ := ih _ (by rw [next]; omega) near.2
      rw [next] at later
      rw [List.foldl_cons]
      exact ⟨by omega, bound, List.forall_mem_cons.mpr ⟨by omega, others⟩⟩

theorem writes_fitting {size : Nat} (writes : List (MethodField × Dword)) (record : Bytes)
    (length : record.length = size)
    (fits : ∀ w ∈ writes, (l.offset w.1).toNat + w.1.width ≤ size) :
    ∃ bytes, writes.foldlM (l.writeField size) record = some bytes ∧ bytes.length = size := by
  induction writes generalizing record with
  | nil => exact ⟨record, rfl, length⟩
  | cons w rest ih =>
      rw [List.forall_mem_cons] at fits
      have written : l.writeField size record w = some (Bytes.overwrite record
          (l.offset w.1).toNat (Bytes.ofBits w.1.width w.2)) := if_pos fits.1
      obtain ⟨bytes, made, same⟩ := ih _ (l.write_field_holds length written).1 fits.2
      exact ⟨bytes, by rw [List.foldlM_cons, written]; exact made, same⟩

/-- Where all offsets are small, every method has a record, which is short. -/
theorem encode_of_near (m : Method) (near : ∀ f, (l.offset f).toNat < 2048) :
    ∃ bytes, l.encode m = some bytes ∧ bytes.length ≤ 2056 := by
  obtain ⟨-, short, ends⟩ := l.last_end MethodField.inRecord 0 (by decide) fun f _ => near f
  obtain ⟨bytes, made, length⟩ := l.writes_fitting (MethodField.contents m)
    (List.replicate l.size.toNat 0) (List.length_replicate ..) fun w member =>
      ends w.1 (List.mem_map_of_mem (f := Prod.fst) member)
  have limit : ¬sizeLimit < l.size.toNat := by
    have short : l.size.toNat ≤ 2056 := short
    rw [sizeLimit]
    omega
  refine ⟨bytes, ?_, length ▸ short⟩
  rw [encode_eq, if_neg limit]
  exact made

theorem read_of_holds {mem : Memory} {base : Dword} {bytes : Bytes} {w : MethodField × Dword}
    (record : mem.read base bytes.length = bytes) (holds : l.FieldHolds bytes w) :
    mem.read (base + l.offset w.1) w.1.width = Bytes.ofBits w.1.width w.2 := by
  apply List.ext_getElem?
  intro k
  by_cases inside : k < w.1.width
  · have held := holds k inside
    have there : (Bytes.ofBits w.1.width w.2)[k]?.isSome := by
      rw [Bytes.get_of_bits _ _ _ inside]
      rfl
    rw [← held] at there
    have early : (l.offset w.1).toNat + k < bytes.length := by
      obtain ⟨b, found⟩ := Option.isSome_iff_exists.mp there
      exact (List.getElem?_eq_some_iff.mp found).1
    have found := Memory.get_read (m := mem) base bytes.length _ early
    rw [record, held] at found
    rw [Memory.get_read _ _ _ inside, found, BitVec.ofNat_add, BitVec.ofNat_toNat,
      BitVec.setWidth_eq, BitVec.add_assoc]
  · rw [List.getElem?_eq_none (by rw [Memory.length_read]; omega),
      List.getElem?_eq_none (by rw [Bytes.length_ofBits]; omega)]

/-- Every field of a record in memory reads back what the method says. -/
theorem encoded_field {m : Method} {mem : Memory} {base : Dword} {bytes : Bytes}
    (separate : l.Separate MethodField.inRecord) (made : l.encode m = some bytes)
    (record : mem.read base bytes.length = bytes) (w : MethodField × Dword)
    (member : w ∈ MethodField.contents m) (small : w.2.toNat < 256 ^ w.1.width) :
    mem.load (base + l.offset w.1) w.1.width = w.2 := by
  rw [encode_eq, Option.ite_none_left_eq_some] at made
  obtain ⟨-, holds, -⟩ := l.written_holds (MethodField.contents m) separate
    (List.length_replicate ..) made.2
  rw [Memory.load, l.read_of_holds record (holds w member), Bytes.to_nat_of_bits,
    Nat.mod_eq_of_lt small, BitVec.ofNat_toNat, BitVec.setWidth_eq]

end Layout

theorem AccessFlags.wide_none (f flag : AccessFlags) :
    f.bits.setWidth 64 &&& flag.bits.setWidth 64 = 0 ↔ f.has flag = false := by
  rw [← BitVec.setWidth_and, has, decide_eq_false_iff_not, not_not]
  constructor
  · intro none
    have value := congrArg BitVec.toNat none
    have bound := (f.bits &&& flag.bits).isLt
    rw [BitVec.toNat_setWidth, Nat.mod_eq_of_lt (by omega)] at value
    exact BitVec.eq_of_toNat_eq value
  · intro none
    rw [none]
    rfl

namespace Method

/-- The counts of an accepted method are short, and its parameters are locals. -/
structure Counted (m : Method) : Prop where
  parameters : m.parameterSlots.toNat ≤ m.maxLocals.toNat
  locals : m.maxLocals.toNat < 2 ^ 16
  stack : m.maxStack.toNat < 2 ^ 16

theorem to_nat_of_short {v : Dword} (short : ¬(v.toInt < 0 ∨ 0xffff < v.toInt)) :
    v.toInt = v.toNat ∧ v.toNat < 2 ^ 16 := by
  have value := v.toInt_eq_toNat_cond
  have bound := v.isLt
  split at value <;> omega

theorem counted_of_accepted {m : Method} (accepted : m.problem? = none) : m.Counted := by
  simp only [problem?] at accepted
  split at accepted
  · cases accepted
  · next fine =>
      rw [List.find?_eq_none] at fine
      simp only [List.forall_mem_cons, decide_eq_true_eq] at fine
      obtain ⟨parameters, locals, stack, -⟩ := fine
      obtain ⟨parameters, -⟩ := to_nat_of_short parameters
      obtain ⟨value, locals⟩ := to_nat_of_short locals
      refine ⟨?_, locals, (to_nat_of_short stack).2⟩
      split at accepted
      · cases accepted
      · next enough =>
          rw [BitVec.slt, decide_eq_true_eq, parameters, value] at enough
          omega

end Method

end EntryCode
