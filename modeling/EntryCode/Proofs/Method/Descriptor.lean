import EntryCode.Method.Basic
import EntryCode.Native.Handler
import Mathlib

/-!
What a descriptor says about a method. No parameter is void, and a method that was made from its
descriptor counts a slot for every word of its arguments.
-/

namespace EntryCode

namespace Signature

/-- Every parameter is a value, and takes at least one byte of the descriptor. -/
theorem parameters_read {s tail : Bytes} {ts : List BasicType}
    (read : parameters s = .ok (ts, tail)) :
    (∀ t ∈ ts, t ≠ .void) ∧ ts.length + tail.length < s.length := by
  fun_induction parameters s generalizing ts with
  | case1 => cases read
  | case2 =>
      cases read
      simp
  | case3 => cases read
  | case4 => cases read
  | case5 b rest _ t after value found ts' tail' later ih =>
      cases read
      obtain ⟨values, fewer⟩ := ih later
      have shorter := field_length found
      refine ⟨List.forall_mem_cons.mpr ⟨fun void => value (by rw [void]), values⟩, ?_⟩
      rw [List.length_cons]
      omega
  | case6 => cases read

theorem parse_read {s : Bytes} {sig : Signature} (read : parse s = .ok sig) :
    (∀ t ∈ sig.params, t ≠ .void) ∧ sig.params.length + 1 < s.length := by
  cases s with
  | nil => cases read
  | cons b rest =>
      rw [parse] at read
      split at read
      · cases read
      cases found : parameters rest with
      | error _ =>
          rw [found] at read
          cases read
      | ok found' =>
          obtain ⟨ts, tail⟩ := found'
          rw [found] at read
          obtain ⟨values, fewer⟩ := parameters_read found
          -- The result type does not change the parameters.
          have same : sig.params = ts := by
            simp only [bind, Except.bind] at read
            split at read
            · cases read
            · split at read
              · cases read
                rfl
              · cases read
          rw [same, List.length_cons]
          exact ⟨values, by omega⟩

theorem of_descriptor_read {descriptor : String} {sig : Signature}
    (read : ofDescriptor descriptor = .ok sig) :
    (∀ t ∈ sig.params, t ≠ .void) ∧ sig.params.length + 1 < descriptor.utf8ByteSize := by
  rw [ofDescriptor] at read
  cases parsed : parse (Text.utf8 descriptor) with
  | error _ =>
      rw [parsed] at read
      cases read
  | ok _ =>
      rw [parsed] at read
      cases read
      have length : (Text.utf8 descriptor).length = descriptor.utf8ByteSize := by
        simp [Text.utf8]
      rw [← length]
      exact parse_read parsed

theorem slots_eq (sig : Signature) : sig.slots = (sig.params.map BasicType.slots).sum := by
  rw [slots]
  induction sig.params with
  | nil => rfl
  | cons t ts ih => rw [List.foldr_cons, ih, List.map_cons, List.sum_cons]

theorem slots_le (sig : Signature) : sig.slots ≤ 2 * sig.params.length := by
  rw [slots]
  induction sig.params with
  | nil => simp
  | cons t ts ih =>
      have two : t.slots ≤ 2 := by cases t <;> decide
      rw [List.foldr_cons, List.length_cons]
      omega

end Signature

/-- A method with the signature `sig` that was made from its descriptor; the rest of it may have
been filled in since. No text is longer than the address space. -/
structure Method.Declares (m : Method) (sig : Signature) : Prop where
  signature : m.signature = .ok sig
  made : ∃ locals built, new m.name m.descriptor m.flags locals m.maxStack = .ok built ∧
    m.parameterSlots = built.parameterSlots ∧ m.maxLocals = built.maxLocals
  short : m.descriptor.utf8ByteSize < 2 ^ 63

namespace Method.Declares

variable {m : Method} {sig : Signature} (declares : m.Declares sig)
include declares

theorem values : ∀ t ∈ sig.params, t ≠ .void :=
  (Signature.of_descriptor_read declares.signature).1

theorem parameters : ((Handler.argumentTypes sig m.flags.isStatic).map BasicType.slots).sum =
    m.parameterSlots.toNat := by
  have few := (Signature.of_descriptor_read declares.signature).2
  have short := declares.short
  have most := sig.slots_le
  obtain ⟨locals, built, made, same, -⟩ := declares.made
  have found : Signature.ofDescriptor m.descriptor = .ok sig := declares.signature
  rw [new, found] at made
  cases made
  rw [same, Handler.argumentTypes, BitVec.toNat_ofNat]
  cases m.flags.isStatic with
  | true =>
      rw [if_pos rfl, if_pos rfl, ← sig.slots_eq]
      omega
  | false =>
      have receiver : BasicType.slots .object = 1 := rfl
      rw [if_neg (by decide), if_neg (by decide), List.map_cons, List.sum_cons, ← sig.slots_eq,
        receiver]
      omega

end Method.Declares

end EntryCode
