import EntryCode.Proofs.Interpreter.Generation
import EntryCode.Proofs.Method.Record

/-!
What a record holds under any accepted layout. Nothing keeps the fields of a layout apart, so a
field that is written later may overwrite an earlier one; each byte of the record is that of the
last field that covers it.
-/

namespace EntryCode

/-- The fields of a record that are written after a field. -/
def MethodField.later (f : MethodField) : List MethodField :=
  (inRecord.dropWhile (· ≠ f)).tail

/-- The fields of a record, each with its width and the value of the method that it is for. -/
structure Method.Fields (m : Method) (holds : MethodField → Nat → Nat → Prop) : Prop where
  flags : holds .accessFlags 4 m.flags.bits.toNat
  invocationCount : holds .invocationCounter 4 m.invocationCount.toNat
  parameterSlots : holds .parameterSlots 2 m.parameterSlots.toNat
  maxLocals : holds .maxLocals 2 m.maxLocals.toNat
  maxStack : holds .maxStack 2 m.maxStack.toNat
  constMethod : holds .constMethod 8 m.constMethod.toNat
  mirror : holds .mirror 8 m.mirror.toNat
  methodData : holds .methodData 8 m.methodData.toNat
  cpCache : holds .cpCache 8 m.cpCache.toNat
  nativeFunction : holds .nativeFunction 8 m.nativeFunction.toNat
  signatureHandler : holds .signatureHandler 8 m.signatureHandler.toNat

namespace Layout

variable (l : Layout MethodField)

def covers (f : MethodField) (i : Nat) : Bool :=
  (l.offset f).toNat ≤ i ∧ i < (l.offset f).toNat + f.width

/-- The byte that a write puts at an index it covers. -/
def writtenByte (w : MethodField × Dword) (i : Nat) : Byte :=
  (w.2 >>> (8 * (i - (l.offset w.1).toNat))).setWidth 8

def lastWrite (writes : List (MethodField × Dword)) (i : Nat) : Option (MethodField × Dword) :=
  writes.reverse.find? fun w => l.covers w.1 i

def number (record : Bytes) (f : MethodField) (width : Nat) : Nat :=
  Bytes.toNat ((record.drop (l.offset f).toNat).take width)

def Clear (f g : MethodField) : Prop :=
  ∀ i, l.covers f i = true → l.covers g i = false

/-- A record holds a value at a field: each byte of it that no later field covers, and the whole
value where there is no other byte. -/
structure Holds (record : Bytes) (f : MethodField) (width v : Nat) : Prop where
  bytes : ∀ k < width, (∀ g ∈ f.later, l.covers g ((l.offset f).toNat + k) = false) →
    record[(l.offset f).toNat + k]? = some (BitVec.ofNat 8 (v >>> (8 * k)))
  whole : (∀ g ∈ f.later, l.Clear f g) → l.number record f width = v

instance (f g : MethodField) : Decidable (l.Clear f g) :=
  decidable_of_iff ((l.offset f).toNat + f.width ≤ (l.offset g).toNat ∨
      (l.offset g).toNat + g.width ≤ (l.offset f).toNat) <| by
    have one : 0 < f.width := by cases f <;> decide
    have two : 0 < g.width := by cases g <;> decide
    simp only [Clear, covers, decide_eq_true_eq, decide_eq_false_iff_not]
    constructor
    · intro apart i inside
      omega
    · intro clear
      -- The later of the two beginnings is a byte of both, if they meet at all.
      have first := clear (l.offset f).toNat
      have second := clear (l.offset g).toNat
      omega

variable {l}

theorem write_field_byte {size : Nat} {record bytes : Bytes} {w : MethodField × Dword}
    (length : record.length = size) (written : l.writeField size record w = some bytes) (i : Nat) :
    bytes[i]? = if l.covers w.1 i then some (l.writtenByte w i) else record[i]? := by
  obtain ⟨-, holds, outside⟩ := l.write_field_holds length written
  split
  · next inside =>
      rw [covers, decide_eq_true_eq] at inside
      have there := holds (i - (l.offset w.1).toNat) (by omega)
      rw [Nat.add_sub_cancel' inside.1, Bytes.get_of_bits _ _ _ (by omega)] at there
      exact there
  · next away =>
      rw [covers, decide_eq_true_eq] at away
      exact outside i (by omega)

/-- After any writes, each byte is that of the last write that covers it. -/
theorem writes_bytes {size : Nat} (writes : List (MethodField × Dword)) {record bytes : Bytes}
    (length : record.length = size)
    (written : writes.foldlM (l.writeField size) record = some bytes) (i : Nat) :
    bytes[i]? = match l.lastWrite writes i with
      | some w => some (l.writtenByte w i)
      | none => record[i]? := by
  induction writes generalizing record with
  | nil =>
      cases written
      rfl
  | cons w rest ih =>
      rw [List.foldlM_cons] at written
      obtain ⟨mid, first, later⟩ := Option.bind_eq_some_iff.mp written
      rw [ih (l.write_field_holds length first).1 later, lastWrite, lastWrite, List.reverse_cons,
        List.find?_append]
      cases rest.reverse.find? fun w => l.covers w.1 i with
      | some v => rfl
      | none =>
          rw [write_field_byte length first i]
          cases covered : l.covers w.1 i <;> simp [covered]

section Written
variable {m : Method} {record : Bytes} {n : Nat} {f : MethodField} {v : Dword}
  (written : ∀ i w, l.lastWrite (MethodField.contents m) i = some w →
    record[i]? = some (l.writtenByte w i))
  (listed : (MethodField.contents m)[n]? = some (f, v))
  (after : f.later = ((MethodField.contents m).drop (n + 1)).map Prod.fst)
include listed after

/-- A byte that no later field covers is that of the field. -/
theorem last_write_of_clear {i : Nat} (inside : l.covers f i = true)
    (clear : ∀ g ∈ f.later, l.covers g i = false) :
    l.lastWrite (MethodField.contents m) i = some (f, v) := by
  have split : MethodField.contents m =
      (MethodField.contents m).take n ++ (f, v) :: (MethodField.contents m).drop (n + 1) := by
    obtain ⟨short, here⟩ := List.getElem?_eq_some_iff.mp listed
    rw [← here, List.cons_getElem_drop_succ, List.take_append_drop]
  have none_later :
      (((MethodField.contents m).drop (n + 1)).reverse.find? fun w => l.covers w.1 i) = none := by
    rw [List.find?_eq_none]
    intro w member
    rw [clear w.1 (after ▸ List.mem_map_of_mem (List.mem_reverse.mp member))]
    exact Bool.false_ne_true
  rw [lastWrite, split, List.reverse_append, List.reverse_cons, List.find?_append,
    List.find?_append, none_later, List.find?_singleton, if_pos inside]
  rfl

include written in
/-- A field holds what was written to it, as far as no later field covers it. -/
theorem holds_of_written {width value : Nat} (size : f.width = width) (same : v.toNat = value)
    (small : value < 256 ^ width) : l.Holds record f width value := by
  subst size same
  have covered : ∀ k < f.width, l.covers f ((l.offset f).toNat + k) = true := by
    intro k few
    rw [covers, decide_eq_true_eq]
    omega
  have bytes : ∀ k < f.width, (∀ g ∈ f.later, l.covers g ((l.offset f).toNat + k) = false) →
      record[(l.offset f).toNat + k]? = some ((v >>> (8 * k)).setWidth 8) := by
    intro k few clear
    rw [written _ _ (last_write_of_clear listed after (covered k few) clear), writtenByte,
      Nat.add_sub_cancel_left]
  refine ⟨fun k few clear => ?_, fun clear => ?_⟩
  · rw [bytes k few clear, ← BitVec.toNat_ushiftRight, BitVec.ofNat_toNat]
  · have same : (record.drop (l.offset f).toNat).take f.width = Bytes.ofBits f.width v := by
      apply List.ext_getElem?
      intro k
      by_cases few : k < f.width
      · rw [List.getElem?_take_of_lt few, List.getElem?_drop,
          bytes k few fun g member => clear g member _ (covered k few), Bytes.get_of_bits _ _ _ few]
      · rw [List.getElem?_eq_none (by rw [List.length_take]; omega),
          List.getElem?_eq_none (by rw [Bytes.length_ofBits]; omega)]
    rw [number, same, Bytes.to_nat_of_bits, Nat.mod_eq_of_lt small]

end Written

end Layout

/-- Under an accepted layout every accepted method has a record. Each byte of it is that of the
last field that covers it, so a field reads back unless a later one shares a byte with it. -/
theorem records_keep_last_fields (l : Layout MethodField) (m : Method)
    (layout : l.problem? = none) (method : m.problem? = none) :
    ∃ record, l.encode m = some record ∧ record.length = l.size.toNat ∧
      m.Fields (l.Holds record) ∧
      ∀ i < record.length, (∀ f ∈ MethodField.inRecord, l.covers f i = false) →
        record[i]? = some 0 := by
  have near f := (Layout.offset_of_accepted layout (MethodField.mem_all f)).1
  obtain ⟨record, made, -⟩ := l.encode_of_near m near
  have unfolded := made
  rw [Layout.encode_eq, Option.ite_none_left_eq_some] at unfolded
  obtain ⟨-, filled⟩ := unfolded
  have blank : (List.replicate l.size.toNat (0 : Byte)).length = l.size.toNat :=
    List.length_replicate ..
  obtain ⟨-, -, ends⟩ := l.last_end MethodField.inRecord 0 (by decide) fun f _ => near f
  have length : record.length = l.size.toNat := by
    obtain ⟨bytes, made, length⟩ := l.writes_fitting (MethodField.contents m) _ blank fun w member =>
      ends w.1 (List.mem_map_of_mem (f := Prod.fst) member)
    rw [filled, Option.some.injEq] at made
    rw [made, length]
  have each := Layout.writes_bytes (MethodField.contents m) blank filled
  have written : ∀ i w, l.lastWrite (MethodField.contents m) i = some w →
      record[i]? = some (l.writtenByte w i) := by
    intro i w last
    rw [each i, last]
  refine ⟨record, made, length, ?fields, ?blank⟩
  case fields =>
    have counted := Method.counted_of_accepted method
    have wide : ∀ v : Dword, v.toNat < 256 ^ 8 := BitVec.isLt
    exact {
      flags := Layout.holds_of_written written (n := 0) rfl rfl rfl
        (BitVec.toNat_setWidth_of_le (by decide)) m.flags.bits.isLt
      invocationCount := Layout.holds_of_written written (n := 1) rfl rfl rfl
        (BitVec.toNat_setWidth_of_le (by decide)) m.invocationCount.isLt
      parameterSlots := Layout.holds_of_written written (n := 2) rfl rfl rfl rfl
        (Nat.lt_of_le_of_lt counted.parameters counted.locals)
      maxLocals := Layout.holds_of_written written (n := 3) rfl rfl rfl rfl counted.locals
      maxStack := Layout.holds_of_written written (n := 4) rfl rfl rfl rfl counted.stack
      constMethod := Layout.holds_of_written written (n := 5) rfl rfl rfl rfl (wide _)
      mirror := Layout.holds_of_written written (n := 6) rfl rfl rfl rfl (wide _)
      methodData := Layout.holds_of_written written (n := 7) rfl rfl rfl rfl (wide _)
      cpCache := Layout.holds_of_written written (n := 8) rfl rfl rfl rfl (wide _)
      nativeFunction := Layout.holds_of_written written (n := 9) rfl rfl rfl rfl (wide _)
      signatureHandler := Layout.holds_of_written written (n := 10) rfl rfl rfl rfl (wide _) }
  case blank =>
    intro i inside free
    have none : l.lastWrite (MethodField.contents m) i = none := by
      rw [Layout.lastWrite, List.find?_eq_none]
      intro w member
      rw [free w.1 (List.mem_map_of_mem (f := Prod.fst) (List.mem_reverse.mp member))]
      exact Bool.false_ne_true
    rw [each i, none]
    exact List.getElem?_replicate_of_lt (length ▸ inside)

/-- The reference layout with the constant pool cache moved onto the native function. -/
def MethodField.shared : Layout MethodField :=
  reference.set .cpCache 48

def Method.resolved : Method where
  name := "nat"
  descriptor := "()V"
  flags := ⟨0x108⟩
  parameterSlots := 0
  maxLocals := 0
  maxStack := 0
  cpCache := 0xcc
  nativeFunction := 0x5000

/-- The field that is written last is read back, also where it shares its bytes. -/
theorem shared_record_keeps_native_function :
    MethodField.shared.problem? = none ∧ Method.resolved.problem? = none ∧
      ∃ record, MethodField.shared.encode Method.resolved = some record ∧
        MethodField.shared.number record .nativeFunction 8 = 0x5000 := by
  have layout : MethodField.shared.problem? = none := by decide
  have method : Method.resolved.problem? = none := by decide
  obtain ⟨record, made, -, fields, -⟩ :=
    records_keep_last_fields MethodField.shared Method.resolved layout method
  exact ⟨layout, method, record, made, fields.nativeFunction.whole (by decide)⟩

/-- The one that was written before it is not. -/
theorem shared_record_loses_cp_cache :
    MethodField.shared.problem? = none ∧ Method.resolved.problem? = none ∧
      ¬∃ record, MethodField.shared.encode Method.resolved = some record ∧
        Method.resolved.Fields fun f width v =>
          MethodField.shared.number record f width = v := by
  refine ⟨by decide, by decide, ?_⟩
  rintro ⟨record, -, fields⟩
  -- Both fields are the same eight bytes.
  have same : MethodField.shared.number record .cpCache 8 =
      MethodField.shared.number record .nativeFunction 8 := rfl
  rw [fields.cpCache, fields.nativeFunction] at same
  exact absurd same (by decide)

end EntryCode
