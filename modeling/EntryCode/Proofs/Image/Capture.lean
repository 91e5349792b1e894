import EntryCode.Image.Handler
import EntryCode.Proofs.Interpreter.Enclosure
import EntryCode.Proofs.Method.Descriptor
import EntryCode.Proofs.Native.Delivery
import EntryCode.Proofs.Native.Library
import EntryCode.Proofs.Table

/-!
Images of interpreters. Addresses become offsets and are found again, whatever the base; names
become keys and no two of them are the same; and what an image generates is what its interpreter
does.
-/

namespace EntryCode

section Names

theorem EntryKind.mem_all (k : EntryKind) : k ∈ EntryKind.all := by
  cases k with
  | math m => cases m <;> decide
  | _ => decide

theorem EntryKind.names_nodup : (EntryKind.all.map EntryKind.name).Nodup := by
  decide +kernel

theorem EntryKind.name_inj {k k' : EntryKind} : k.name = k'.name ↔ k = k' :=
  ⟨List.inj_on_of_nodup_map names_nodup k.mem_all k'.mem_all, fun same => same ▸ rfl⟩

theorem BasicType.mem_all (t : BasicType) : t ∈ BasicType.all := by
  cases t <;> decide

theorem BasicType.names_nodup : (BasicType.all.map BasicType.name).Nodup := by
  decide

namespace Extensions
variable {e : Extensions}

/-- A set in which nothing is but known extensions is read back from its names. -/
theorem of_names_names (known : all.insert e = all) : ofNames e.names = .ok e := by
  have each : ∀ n < 32, ofNames (names ⟨BitVec.ofNat 32 n⟩) = .ok ⟨BitVec.ofNat 32 n⟩ := by
    decide +kernel
  have small : e.bits.toNat < 32 := by
    have or := congrArg (fun s : Extensions => s.bits.toNat) known
    simp only [insert, BitVec.toNat_or] at or
    have le : e.bits.toNat ≤ all.bits.toNat ||| e.bits.toNat := Nat.right_le_or
    rw [or] at le
    exact Nat.lt_succ_of_le le
  have same := each _ small
  rwa [BitVec.ofNat_toNat, BitVec.setWidth_eq] at same

end Extensions

end Names

namespace Interpreter

section Order
variable {cfg : Config} {e : Extensions} {b : Blob} {es : List Emission} {a : Assembler}
  (laid : Laid cfg e b es a)
include laid

/-- Looking for all routines in turn gives those that there are, in the order of the code. -/
theorem Laid.in_order (base : Dword) :
    Routine.all.filterMap (b.installed e base).placed? = b.routines := by
  have named : b.routines.map PlacedRoutine.routine =
      Routine.all.filter fun r => ((b.installed e base).placed? r).isSome := by
    rw [laid.routines, programs_listed]
    congr
    funext r
    rw [Bool.eq_iff_iff]
    exact (laid.placed_iff base r).symm
  have kept : Routine.all.filterMap (b.installed e base).placed? =
      (b.routines.map PlacedRoutine.routine).filterMap (b.installed e base).placed? := by
    rw [named, List.filterMap_filter]
    congr
    funext r
    cases (b.installed e base).placed? r <;> rfl
  rw [kept, List.filterMap_map]
  calc b.routines.filterMap ((b.installed e base).placed? ∘ PlacedRoutine.routine)
      = b.routines.filterMap some := List.filterMap_congr fun r member => laid.placed member base
    _ = b.routines := List.filterMap_some

/-- Every routine starts at an instruction of the code and ends in it. -/
theorem Laid.inside {r : PlacedRoutine} (member : r ∈ b.routines) :
    r.offset % instructionSize = 0 ∧ r.offset < b.code.length ∧
      r.offset + r.size ≤ b.code.length := by
  obtain ⟨p, made, before, after, whole, here, size⟩ := laid.lies r member
  obtain ⟨-, stop⟩ := laid.tiles.inside r member
  have filled := laid.filled member
  refine ⟨?_, by omega, stop⟩
  rw [here, Nat.mul_mod_right]

theorem Laid.length_words_code : b.code.length % instructionSize = 0 := by
  rw [laid.code, laid.emitted.code_length, Nat.mul_mod_right]

theorem Laid.ascending : b.routines.Pairwise fun r s => r.offset < s.offset := by
  apply laid.tiles.apart.imp_of_mem
  intro r s member _ apart
  have filled := laid.filled member
  omega

theorem Laid.entries_ascend (base : Dword) : EntryKind.all.Pairwise fun k k' =>
    ∀ r, (b.installed e base).placed? (.entry k) = some r →
      ∀ s, (b.installed e base).placed? (.entry k') = some s → r.offset < s.offset := by
  -- Entries come in the order of their kinds, so they inherit the order of the code.
  have among : (EntryKind.all.map Routine.entry).Sublist Routine.all := by
    decide
  have ordered := laid.ascending
  rw [← laid.in_order base] at ordered
  have some := ordered.sublist (among.filterMap (b.installed e base).placed?)
  rwa [List.pairwise_filterMap, List.pairwise_map] at some

theorem Laid.entry_behind (base : Dword) {k : EntryKind} {r : PlacedRoutine}
    (found : (b.installed e base).placed? (.entry k) = some r) : 0 < r.offset := by
  have among : (.forwardException :: EntryKind.all.map Routine.entry).Sublist Routine.all := by
    decide
  have ordered := laid.ascending
  rw [← laid.in_order base] at ordered
  have some := ordered.sublist (among.filterMap (b.installed e base).placed?)
  rw [List.pairwise_filterMap, List.pairwise_cons] at some
  obtain ⟨s, start⟩ := Option.isSome_iff_exists.mp
    ((laid.placed_iff base .forwardException).mpr rfl)
  have behind := some.1 (.entry k) (List.mem_map_of_mem k.mem_all) s start r found
  omega

end Order

end Interpreter

namespace Image

section Offsets
variable (i : Interpreter)

/-- The offsets of the entries by name, in the order of the code. -/
def entryOffsets : List (String × Dword) :=
  EntryKind.all.filterMap fun k => (i.placed? (.entry k)).map fun r =>
    (k.name, BitVec.ofNat 64 r.offset)

/-- An offset is what it was before the base was added, even where the sum wraps around. -/
theorem address_sub_base (r : PlacedRoutine) : i.address r - i.base = BitVec.ofNat 64 r.offset := by
  rw [Interpreter.address, BitVec.add_comm, BitVec.add_sub_cancel]

variable (fingerprint : String) (id : Uuid) (created : Dword)

theorem entry_table : (ofInterpreter i fingerprint id created).entryTable =
    Table.ofEntries (entryOffsets i) := by
  have same : (fun k : EntryKind => (i.entry? k).map fun addr => (k.name, addr - i.base)) =
      fun k => (i.placed? (.entry k)).map fun r => (k.name, BitVec.ofNat 64 r.offset) := by
    funext k
    unfold Interpreter.entry?
    cases i.placed? (.entry k) with
    | none => rfl
    | some r => exact congrArg (fun off => some (k.name, off)) (address_sub_base i r)
  rw [entryTable, ofInterpreter, same]
  rfl

variable {i}

theorem entry_offsets_pairwise {R : String × Dword → String × Dword → Prop}
    (related : EntryKind.all.Pairwise fun k k' => ∀ r, i.placed? (.entry k) = some r →
      ∀ s, i.placed? (.entry k') = some s →
        R (k.name, BitVec.ofNat 64 r.offset) (k'.name, BitVec.ofNat 64 s.offset)) :
    (entryOffsets i).Pairwise R := by
  rw [entryOffsets, List.pairwise_filterMap]
  refine related.imp ?_
  intro k k' both x first y second
  obtain ⟨r, found, rfl⟩ := Option.map_eq_some_iff.mp first
  obtain ⟨s, found', rfl⟩ := Option.map_eq_some_iff.mp second
  exact both r found s found'

theorem entry_offsets_nodup : ((entryOffsets i).map Prod.fst).Nodup := by
  rw [List.Nodup, List.pairwise_map]
  apply entry_offsets_pairwise
  have apart := EntryKind.names_nodup
  rw [List.Nodup, List.pairwise_map] at apart
  exact apart.imp fun other _ _ _ _ => other

theorem mem_entry_offsets {name : String} {off : Dword} : (name, off) ∈ entryOffsets i ↔
    ∃ k r, i.placed? (.entry k) = some r ∧ k.name = name ∧ BitVec.ofNat 64 r.offset = off := by
  simp [entryOffsets, EntryKind.mem_all]

theorem entry_captured (k : EntryKind) :
    Image.entry? (ofInterpreter i fingerprint id created) k.name = i.entry? k := by
  have looked : (Table.ofEntries (entryOffsets i)).lookup k.name =
      (i.placed? (.entry k)).map fun r => BitVec.ofNat 64 r.offset := by
    apply Option.ext
    intro off
    rw [Table.lookup_of_entries entry_offsets_nodup, mem_entry_offsets, Option.map_eq_some_iff]
    constructor
    · rintro ⟨k', r, found, same, rfl⟩
      rw [EntryKind.name_inj] at same
      exact ⟨r, same ▸ found, rfl⟩
    · rintro ⟨r, found, rfl⟩
      exact ⟨k, r, found, rfl, rfl⟩
  unfold Image.entry? Interpreter.entry?
  rw [entry_table, looked, Option.map_map]
  rfl

def handlerOffsets (i : Interpreter) : List (String × Dword) :=
  BasicType.all.map fun t => (t.name, i.resultHandler t - i.base)

theorem handler_table : (ofInterpreter i fingerprint id created).handlerTable =
    Table.ofEntries (handlerOffsets i) := by
  rw [handlerTable, ofInterpreter, handlerOffsets, Option.getD_some]

theorem handler_offsets_nodup : ((handlerOffsets i).map Prod.fst).Nodup := by
  rw [handlerOffsets, List.map_map]
  exact BasicType.names_nodup

theorem handler_captured (t : BasicType) :
    (ofInterpreter i fingerprint id created).resultHandler? t = some (i.resultHandler t) := by
  have found : (Table.ofEntries (handlerOffsets i)).lookup t.name =
      some (i.resultHandler t - i.base) := by
    rw [Table.lookup_of_entries handler_offsets_nodup]
    exact List.mem_map.mpr ⟨t, t.mem_all, rfl⟩
  have measured : i.base + (i.resultHandler t - i.base) = i.resultHandler t := by
    rw [BitVec.add_comm, BitVec.sub_add_cancel]
  rw [resultHandler?, handler_table, found]
  exact congrArg some measured

/-- What an image generates for a signature is what its interpreter asks for. -/
theorem signature_handler_captured (sig : Signature) (static : Bool)
    (known : Extensions.all.insert i.extensions = .all) :
    (ofInterpreter i fingerprint id created).signatureHandler sig static =
      (Handler.generate sig static (i.resultHandler sig.result) i.extensions).mapError
        .generator := by
  have features : (ofInterpreter i fingerprint id created).features.getD [] =
      i.extensions.names := by
    rw [ofInterpreter]
    cases i.extensions.names <;> rfl
  rw [signatureHandler, handler_captured, features, Extensions.of_names_names known]
  rfl

end Offsets

section Laid
open Interpreter

variable {cfg : Config} {e : Extensions} {b : Blob} {es : List Emission} {a : Assembler}
  (laid : Laid cfg e b es a) (short : b.code.length < 2 ^ 63)

theorem offset_to_int {n : Nat} (small : n < 2 ^ 63) : (BitVec.ofNat 64 n).toInt = n := by
  rw [BitVec.toInt_eq_toNat_cond, BitVec.toNat_ofNat]
  omega

include laid short

theorem entries_ascending (base : Dword) :
    (entryOffsets (b.installed e base)).Pairwise fun x y => x.2.toInt < y.2.toInt := by
  apply entry_offsets_pairwise
  refine (laid.entries_ascend base).imp ?_
  intro k k' before r found s found'
  have earlier := before r found s found'
  obtain ⟨-, first, -⟩ := laid.inside (List.mem_of_find?_eq_some found)
  obtain ⟨-, second, -⟩ := laid.inside (List.mem_of_find?_eq_some found')
  rw [offset_to_int (by omega), offset_to_int (by omega)]
  exact_mod_cast earlier

theorem in_code {r : PlacedRoutine} (member : r ∈ b.routines) :
    inCode b.code.length (BitVec.ofNat 64 r.offset) = true := by
  obtain ⟨whole, start, -⟩ := laid.inside member
  have same := offset_to_int (show r.offset < 2 ^ 63 by omega)
  simp only [inCode, same, Bool.and_eq_true, decide_eq_true_eq]
  exact ⟨⟨by omega, by omega⟩, by omega⟩

variable (base : Dword) (fingerprint : String) (id : Uuid) (created : Dword)

theorem entries_sorted :
    (ofInterpreter (b.installed e base) fingerprint id created).entryTable.mergeSort
      (fun x y => x.2.sle y.2) = entryOffsets (b.installed e base) := by
  have ascending := entries_ascending laid short base
  have distinct : ((entryOffsets (b.installed e base)).map Prod.snd).Nodup := by
    rw [List.Nodup, List.pairwise_map]
    refine ascending.imp ?_
    intro x y less same
    rw [same] at less
    exact lt_irrefl _ less
  rw [entry_table]
  -- The table and the offsets hold the same entries, and both lists that are compared are sorted.
  -- Sorting leaves no choice, since no two entries have the same offset.
  have perm := (List.mergeSort_perm _ fun x y : String × Dword => x.2.sle y.2).trans
    (Table.of_entries_perm (entry_offsets_nodup (i := b.installed e base)))
  refine perm.eq_of_pairwise ?_ (List.pairwise_mergeSort ?_ ?_ _) ?_
  · intro x y first second forth back
    rw [perm.mem_iff] at first
    rw [BitVec.sle_iff_toInt_le] at forth back
    exact List.inj_on_of_nodup_map distinct first second
      (BitVec.eq_of_toInt_eq (le_antisymm forth back))
  · intro x y z forth on
    rw [BitVec.sle_iff_toInt_le] at forth on ⊢
    exact forth.trans on
  · intro x y
    rw [Bool.or_eq_true, BitVec.sle_iff_toInt_le, BitVec.sle_iff_toInt_le]
    exact le_total _ _
  · refine ascending.imp ?_
    intro x y less
    rw [BitVec.sle_iff_toInt_le]
    exact less.le

theorem names_captured :
    (ofInterpreter (b.installed e base) fingerprint id created).entryNames =
      (EntryKind.all.filter fun k => (Interpreter.entry? (b.installed e base) k).isSome).map
        EntryKind.name := by
  rw [entryNames, entries_sorted laid short, entryOffsets, List.map_filterMap,
    ← List.filterMap_eq_filter, List.map_filterMap]
  congr
  funext k
  cases found : (b.installed e base).placed? (.entry k) <;>
    simp [Option.guard, Interpreter.entry?, found]

theorem image_valid :
    (ofInterpreter (b.installed e base) fingerprint id created).problem? = none := by
  have whole : ¬b.code.length % instructionSize ≠ 0 := not_not.mpr laid.length_words_code
  have entries : ∀ x ∈ (ofInterpreter (b.installed e base) fingerprint id created).entryTable,
      inCode b.code.length x.2 = true := by
    rintro ⟨name, off⟩ member
    rw [entry_table, (Table.of_entries_perm entry_offsets_nodup).mem_iff, mem_entry_offsets]
      at member
    obtain ⟨k, r, found, -, rfl⟩ := member
    exact in_code laid short (List.mem_of_find?_eq_some found)
  have handlers : ∀ x ∈ (ofInterpreter (b.installed e base) fingerprint id created).handlerTable,
      inCode b.code.length x.2 = true := by
    rintro x member
    rw [handler_table, (Table.of_entries_perm handler_offsets_nodup).mem_iff, handlerOffsets,
      List.mem_map] at member
    obtain ⟨t, -, rfl⟩ := member
    obtain ⟨r, among, found, -⟩ := laid.handler_start base t
    have offset : (b.installed e base).resultHandler t - base = BitVec.ofNat 64 r.offset := by
      rw [resultHandler, found]
      exact address_sub_base _ r
    show inCode _ ((b.installed e base).resultHandler t - base) = true
    rw [offset]
    exact in_code laid short among
  have routines : ∀ r ∈ b.routines, routineProblem? b.code.length
      ⟨r.routine.name, BitVec.ofNat 64 r.offset, BitVec.ofNat 64 r.size⟩ = none := by
    intro r member
    obtain ⟨-, -, stop⟩ := laid.inside member
    have same := offset_to_int (show r.offset + r.size < 2 ^ 63 by omega)
    rw [BitVec.ofNat_add] at same
    have fits : (r.offset : Int) + r.size ≤ b.code.length := by
      exact_mod_cast stop
    simpa [routineProblem?, in_code laid short member, same] using fits
  rw [problem?]
  refine (if_neg (not_not.mpr rfl)).trans ((if_neg whole).trans ?_)
  rw [Option.or_eq_none_iff, Option.or_eq_none_iff, List.findSome?_eq_none_iff,
    List.findSome?_eq_none_iff, List.findSome?_eq_none_iff]
  refine ⟨?_, ?_, ?_⟩
  · intro x member
    obtain ⟨r, among, rfl⟩ := List.mem_map.mp member
    exact routines r among
  · intro x member
    exact if_pos (entries x member)
  · intro x member
    exact if_pos (handlers x member)

end Laid

end Image

open HandlerLibrary in
/-- Images capture interpreters. The image of whatever was generated is valid; it has the entries of
the interpreter, present or not, and names them in the order of the code; and for every signature
it generates the handler that the library of the interpreter installs and keeps. -/
theorem images_capture_interpreters {R : Type}
    {emit : (Dword → Except Violation Bytes) → Region.Work Violation R Dword}
    {cfg : Config} {e : Extensions} {i : Interpreter} {before after : R}
    (made : (Interpreter.generateInto emit cfg e).run before = .ok i after)
    (known : Extensions.all.insert e = .all) (fingerprint : String) (id : Uuid) (created : Dword) :
    let image := Image.ofInterpreter i fingerprint id created
    image.problem? = none ∧
    (∀ k, image.entry? k.name = i.entry? k) ∧
    image.entryNames =
      (EntryKind.all.filter fun k => (i.entry? k).isSome).map EntryKind.name ∧
    (image.entryNames.Pairwise fun m n => ∀ x, image.entryTable.lookup m = some x →
      ∀ y, image.entryTable.lookup n = some y → x.toInt < y.toInt) ∧
    ∀ descriptor sig static, Signature.ofDescriptor descriptor = .ok sig →
      ∃ code, image.signatureHandler sig static = .ok code ∧
        (∀ (l : HandlerLibrary) (h : Heap), l.interpreter = i →
          l.handlers.lookup (sig.key static) = none → h.Room code.length →
            ∃ l', (lookup sig static).run (l, h) = .ok h.nextAddress (l', h.install code)) ∧
        ∀ {ε : Type} (base capacity : Dword) (rs : List (Request ε)),
          let s := (Session.start i base capacity).run rs
          ∀ x ∈ s.answers, x.signature = sig → x.static = static →
            (s.heap.bytes.drop (x.address - base).toNat).take code.length = code := by
  obtain ⟨accepted, b, blobbed, installed⟩ := Interpreter.generate_into_ok made
  obtain ⟨es, a, laid⟩ := Interpreter.blob_laid accepted blobbed
  have short : b.code.length < 2 ^ 63 := by
    have few := Interpreter.blob_short accepted blobbed
    simp only [instructionSize] at few
    omega
  -- The interpreter is its blob at some base, and nothing below asks which.
  generalize i.base = at_ at installed
  subst installed
  refine ⟨Image.image_valid laid short at_ fingerprint id created,
    Image.entry_captured fingerprint id created,
    Image.names_captured laid short at_ fingerprint id created, ?_, ?_⟩
  · rw [Image.entryNames, Image.entries_sorted laid short, List.pairwise_map, Image.entry_table]
    apply (Image.entries_ascending laid short at_).imp_of_mem
    intro x y first second less o found p found'
    have distinct := Image.entry_offsets_nodup (i := b.installed e at_)
    rw [(Table.lookup_of_entries distinct).mpr first] at found
    rw [(Table.lookup_of_entries distinct).mpr second] at found'
    rwa [Option.some.inj found, Option.some.inj found'] at less
  · intro descriptor sig static read
    obtain ⟨values, -⟩ := Signature.of_descriptor_read read
    obtain ⟨-, c, -, -, -, generated⟩ := Handler.generates_values static
      ((b.installed e at_).resultHandler sig.result) e values
    refine ⟨c.code, ?_, ?_, ?_⟩
    · rw [Image.signature_handler_captured fingerprint id created sig static known]
      exact congrArg _ generated
    · intro l h same absent room
      exact ⟨_, lookup_absent absent (same ▸ generated) room⟩
    · intro ε base capacity rs s x member same kind
      have sound : s.Sound _ base capacity := Session.start_sound.run rs
      obtain ⟨code, kept⟩ := sound.kept x member
      have held := kept.held
      rw [sound.base] at held
      have again := kept.made
      rw [same, kind] at again
      obtain rfl : c.code = code := Except.ok.inj (generated.symm.trans again)
      exact held

/-- An interpreter that starts at the last instruction of the address space: all of its entries wrap
around. -/
theorem wrapped_interpreter_is_captured : ∃ i h,
    (Interpreter.generate .reference .all).run (.new 0xfffffffffffffffc 0x20000) = .ok i h ∧
      Extensions.all.insert .all = .all ∧ (∀ k, ∃ x, i.entry? k = some x ∧ x < i.base) ∧
      let image := Image.ofInterpreter i "fingerprint" .zero 0
      image.problem? = none ∧ (∀ k, image.entry? k.name = i.entry? k) ∧
      image.entryNames = EntryKind.all.map EntryKind.name ∧
      ∃ code, image.signatureHandler ⟨[], .int⟩ true = .ok code ∧
        ∃ l, (HandlerLibrary.lookup ⟨[], .int⟩ true).run (.new i, .new 0x50000000 code.length) =
          .ok 0x50000000 (l, Heap.install (.new 0x50000000 code.length) code) := by
  have accepted : Config.reference.problem? = none := by decide
  obtain ⟨b, blobbed, made⟩ := Interpreter.generate_in_room accepted .all
    (.new 0xfffffffffffffffc 0x20000) (by decide)
  have known : Extensions.all.insert .all = .all := by decide
  have start : (Heap.new 0xfffffffffffffffc 0x20000).nextAddress = 0xfffffffffffffffc := by decide
  rw [start] at made
  obtain ⟨es, a, laid⟩ := Interpreter.blob_laid accepted blobbed
  obtain ⟨valid, entries, names, -, handlers⟩ :=
    images_capture_interpreters made known "fingerprint" .zero 0
  have whole : ∀ k, (Interpreter.entry? (b.installed .all 0xfffffffffffffffc) k).isSome = true := by
    intro k
    rw [Interpreter.entry?, Option.isSome_map, laid.placed_iff]
    cases k with
    | math m => cases m <;> rfl
    | _ => rfl
  obtain ⟨code, generated, installs, -⟩ := handlers "()I" ⟨[], .int⟩ true (by cbv)
  have next : (Heap.new 0x50000000 code.length).nextAddress = 0x50000000 :=
    show 0x50000000 + BitVec.ofNat 64 (Region.alignUp 0) = (0x50000000 : Dword) by decide
  obtain ⟨l, looked⟩ := installs (.new _) (.new 0x50000000 code.length) rfl rfl (by
    show (code.length : Int) ≤ code.length - (Region.alignUp 0 : Nat)
    rw [Region.alignUp, Region.alignment]
    omega)
  rw [next] at looked
  refine ⟨_, _, made, known, ?_, valid, entries, ?_, code, generated, l, looked⟩
  · intro k
    obtain ⟨x, found⟩ := Option.isSome_iff_exists.mp (whole k)
    obtain ⟨r, placed, rfl⟩ := Option.map_eq_some_iff.mp found
    obtain ⟨even, short, -⟩ := laid.inside (List.mem_of_find?_eq_some placed)
    have behind := laid.entry_behind _ placed
    have few := Interpreter.blob_short accepted blobbed
    refine ⟨_, found, ?_⟩
    rw [BitVec.lt_def, Interpreter.address, BitVec.toNat_add, BitVec.toNat_ofNat]
    rw [instructionSize] at even few
    show (0xfffffffffffffffc + r.offset % 2 ^ 64) % 2 ^ 64 < 0xfffffffffffffffc
    omega
  · rw [names, List.filter_eq_self.mpr fun k _ => whole k]

end EntryCode
