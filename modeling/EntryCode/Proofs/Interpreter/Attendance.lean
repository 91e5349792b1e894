import EntryCode.Proofs.Interpreter.Launch

/-!
A runtime that obliges. The runtime that was put around a method does all that an invocation asks for
on its way: its routines leave the counter alone, and what binds a native function installs a handler
that comes back.
-/

namespace EntryCode

open EntryCode.Frame Pinned Fragment Machine

/-- Only the interpreter need count as code. -/
theorem Invocation.Lodged.lessen {a : Invocation} {i : Interpreter} {code : Dword → Prop} {σ : Type}
    {env : Environment σ} (lodged : a.Lodged i code env) : a.Lodged i i.Covers env where
  cleared := lodged.cleared
  loaded := lodged.loaded
  even := lodged.even
  within _ inside := inside
  quiet := lodged.quiet
  thread_code x thread inside := lodged.thread_code x thread (lodged.within x inside)
  entry := lodged.entry
  stack_code x owned inside := lodged.stack_code x owned (lodged.within x inside)
  record_code x record inside := lodged.record_code x record (lodged.within x inside)
  stack_record := lodged.stack_record
  stack_thread := lodged.stack_thread
  record_thread := lodged.record_thread

namespace Surroundings

variable {o : Surroundings} {a : Invocation} {b : Invocation.Binding} {code kept : Dword → Prop}
  {fields : List MethodField} {mem : Memory} {p : Progress Unit}

section Hosted
variable (hosting : o.Hosting a b code kept)
include hosting

theorem Hosting.method_word_owned (x : Dword) (word : a.MethodWord x) : a.Owns x := by
  obtain ⟨f, s, laid⟩ := a.placed hosting.entered.counted hosting.entered.aligned
  exact laid.frame_owned x (frame_area_word (by decide) x word)

/-- Nothing that a routine must leave alone is in the thread. -/
theorem Hosting.intact_thread (x : Dword) (intact : a.Intact kept a.InRecord fields x) :
    ¬a.InThread x := by
  have entered := hosting.entered
  rcases intact with within | counter | word | ⟨record, -⟩
  · exact fun thread => entered.thread_code x thread (hosting.part x within)
  · exact entered.record_thread x ⟨_, by decide, counter⟩
  · exact entered.stack_thread x (hosting.method_word_owned x word)
  · exact entered.record_thread x record

/-- A routine whose work leaves alone what it must returns without an exception. -/
theorem Hosting.benign {callee : Callee} {m : Machine} (none : o.exception = 0)
    (agree : Memory.Agree (a.Intact kept a.InRecord callee.fills) m.memory mem) :
    a.Benign kept a.InRecord callee m (m.returning (o.leaves a mem)) :=
  ⟨returning_returned (agree.trans (leaves_outside.mono hosting.intact_thread)),
    pending_leaves.trans none⟩

/-- The handler and the two fields that are filled in lie apart from everything else. -/
theorem Hosting.binds_intact : Memory.Agree
    (a.Intact kept a.InRecord Callee.prepareNativeCall.fills) mem (binds a b mem) := by
  have entered := hosting.entered
  refine hosting.binds_agree.mono fun x intact => ?_
  rcases intact with within | counter | word | ⟨record, free⟩
  · have coded := hosting.part x within
    exact ⟨fun there => (hosting.handler x there).2 within,
      fun there => entered.record_code x ⟨_, by decide, there⟩ coded,
      fun there => entered.record_code x ⟨_, by decide, there⟩ coded⟩
  · exact ⟨fun there => entered.record_code x ⟨_, by decide, counter⟩ (hosting.handler x there).1,
      hosting.field_apart (by decide) (by decide) (by decide) x counter,
      hosting.field_apart (by decide) (by decide) (by decide) x counter⟩
  · have owned := hosting.method_word_owned x word
    exact ⟨fun there => entered.stack_code x owned (hosting.handler x there).1,
      fun there => entered.stack_record x owned ⟨_, by decide, there⟩,
      fun there => entered.stack_record x owned ⟨_, by decide, there⟩⟩
  · exact ⟨fun there => entered.record_code x record (hosting.handler x there).1,
      free .nativeFunction (by simp [Callee.fills]), free .signatureHandler (by simp [Callee.fills])⟩

theorem Hosting.obliges (housing : Housing a b code) (none : o.exception = 0)
    (even : ∀ callee, a.cfg.callees.address callee &&& 1 = 0) :
    a.Obliging kept a.InRecord (o.environment a b) p := by
  have answers : ∀ callee, some callee ∈ parties → isLeaf (some callee) = false →
      (∀ mem, Memory.Agree (a.Intact kept a.InRecord callee.fills) mem
        (o.task a b (some callee) mem)) →
      (o.environment a b).Answers a.unwritten p (a.cfg.callees.address callee)
        (a.Calling kept callee) (a.Benign kept a.InRecord callee) := by
    intro callee listed plain agree
    refine housing.answers listed fun m _ => ?_
    rw [work, plain, Bool.false_and, if_neg (by decide)]
    exact hosting.benign none (agree m.memory)
  refine ⟨even, ?_⟩
  simp only [Invocation.routines, List.forall_mem_cons]
  refine ⟨answers _ (by decide) rfl fun mem => .refl _ mem,
    answers _ (by decide) rfl fun mem => .refl _ mem,
    answers _ (by decide) rfl fun mem => ?_,
    answers _ (by decide) rfl fun mem => hosting.binds_intact, List.forall_mem_nil _⟩
  rw [task, if_pos none]
  exact .refl _ mem

/-- The fields that nothing fills in stay as they are. -/
theorem Hosting.lasting {f : MethodField} (member : f ∈ MethodField.inRecord)
    (other : .invocationCounter ≠ f) (free : f ∉ fields)
    (listed : ∀ g ∈ fields, g ∈ MethodField.inRecord) (x : Dword) (field : a.Field f x) :
    a.Lasting a.InRecord fields x := by
  have entered := hosting.entered
  have record : a.InRecord x := ⟨f, member, field⟩
  obtain ⟨g, s, laid⟩ := a.placed entered.counted entered.aligned
  refine ⟨record, fun granted => entered.stack_record x (laid.granted_owned x granted) record,
    entered.record_thread x record, hosting.field_apart member (by decide) other.symm x field,
    fun h filled => hosting.field_apart member (listed h filled) ?_ x field⟩
  rintro rfl
  exact free filled

variable {h : Linked} {s : Progress Unit} {v : Dword} {calls : List (Callee × Call)}

/-- Once the handler is called it is bound, for it was not when the method was entered. -/
theorem Hosting.bound_summoned (housing : Housing a b code)
    (unbound : a.start.memory.load (a.record + a.cfg.method.offset .signatureHandler) 8 = 0)
    (summoned : a.Summoned kept a.InRecord (o.environment a b) p v calls s) :
    a.Bound b s.machine.memory := by
  have entered := hosting.entered
  rcases summoned.found with ⟨unprepared, known⟩ | ⟨earlier, call, made, agree⟩
  · -- Without the call the handler would have to be known from the start.
    have filled : ∀ g ∈ Invocation.filled calls, g = .methodData := by
      intro g filled
      obtain ⟨⟨callee, call⟩, member, fills⟩ := List.mem_flatMap.mp filled
      have other : callee ≠ .prepareNativeCall := unprepared _ member
      cases callee with
      | profileMethod => exact List.mem_singleton.mp fills
      | prepareNativeCall => exact absurd rfl other
      | _ => cases fills
    have same : s.machine.memory.load (a.record + a.cfg.method.offset .signatureHandler) 8 =
        a.start.memory.load (a.record + a.cfg.method.offset .signatureHandler) 8 :=
      summoned.memory.lasting.load (by decide) (hosting.lasting (by decide) (by decide)
        (fun member => by cases filled _ member) fun g member => filled g member ▸ by decide)
    have found := known.1
    rw [field, summoned.method] at found
    exact (found (same.trans unbound)).elim
  · have contract : (o.environment a b).Answers a.unwritten p
        (a.cfg.callees.address .prepareNativeCall) (a.Calling kept .prepareNativeCall)
        fun m k => k.memory = o.leaves a (binds a b m.memory) :=
      housing.answers (q := some .prepareNativeCall) (by decide) fun m _ => rfl
    -- The call was the last one, so what it has bound can only be lost to the code after it.
    have member : (Callee.prepareNativeCall, call) ∈ calls := by simp [made]
    have calling := summoned.asked _ member
    have after := summoned.goes.related contract
      (List.mem_map.mpr ⟨_, member, rfl⟩) calling.routine calling
    have bound : a.Bound b call.after.memory := by
      rw [after]
      exact hosting.bound
    obtain ⟨f, d, laid⟩ := a.placed entered.counted entered.aligned
    refine bound.kept (agree.mono fun x there => ?_)
    have apart : ¬a.Owns x ∧ ¬a.InThread x := by
      rcases there with handler | function | handler
      · have coded := (hosting.handler x handler).1
        exact ⟨fun owned => entered.stack_code x owned coded,
          fun thread => entered.thread_code x thread coded⟩
      · have record : a.InRecord x := ⟨_, by decide, function⟩
        exact ⟨fun owned => entered.stack_record x owned record, entered.record_thread x record⟩
      · have record : a.InRecord x := ⟨_, by decide, handler⟩
        exact ⟨fun owned => entered.stack_record x owned record, entered.record_thread x record⟩
    rintro (⟨granted, -⟩ | thread)
    · exact apart.1 (laid.granted_owned x granted)
    · exact apart.2 thread

theorem Hosting.handles (housing : Housing a b code) (native : a.native = true)
    (declared : a.Declared b h) (quiet : h.Quiet (o.environment a b))
    (unbound : a.start.memory.load (a.record + a.cfg.method.offset .signatureHandler) 8 = 0) :
    a.Handles kept a.InRecord (o.environment a b) p := by
  intro v calls s summoned
  have entered := hosting.entered
  have bound := hosting.bound_summoned housing unbound summoned
  obtain ⟨f, d, laid⟩ := a.placed entered.counted entered.aligned
  have listed := Invocation.filled_listed calls
  have sp : s.machine.reg .sp = a.outgoing := by
    have others : ∀ g ∈ [MethodField.methodData, .nativeFunction, .signatureHandler],
        g ∈ MethodField.inRecord ∧ g ≠ .parameterSlots := by decide
    exact summoned.room (hosting.lasting (by decide) (by decide)
      (fun member => (others _ (listed _ member)).2 rfl)
      fun g member => (others g (listed g member)).1)
  -- The word that was found in the record is where the handler has been put.
  have place : field a.cfg s.machine .signatureHandler = b.handler := by
    rw [field, summoned.method]
    exact bound.handler
  have called : s.machine.pc = b.handler := by
    rw [summoned.routine, place]
    exact Machine.even_address declared.even
  have fits := declared.fits
  have room := laid.outgoing_fits native
  have area : ∀ x, Memory.Covers (s.machine.reg .sp)
      (Handler.outgoing b.signature a.method.flags.isStatic) x → a.Arguments x := by
    intro x covered
    rw [sp, Memory.Covers] at covered
    rw [Invocation.Arguments, Memory.Covers]
    omega
  have short : Handler.outgoing b.signature a.method.flags.isStatic ≤ 2 ^ 64 := by
    have small := laid.small
    omega
  have zero : s.machine.reg locals = a.localZero :=
    summoned.pinned (locals, a.localZero) (by simp [Invocation.pins])
  have stands : (h.watching a.unwritten).Stands s.machine (Handler.body (Handler.arguments 0
      (Handler.counted (Handler.reserved a.method.flags.isStatic) 0)
        (Handler.argumentTypes b.signature a.method.flags.isStatic)) b.result) := by
    refine ⟨summoned.cleared, declared.loaded _ bound.loaded, ?_⟩
    rw [called]
    exact Linked.has_watching _ declared.placed
  obtain ⟨k, leads, passed⟩ := Handler.body_delivers b.result declared.values summoned.even short
    stands
    (by
      rintro x covered (inside | seen)
      · exact entered.stack_code x (laid.arguments_owned native x (area x covered))
          (hosting.handler x (declared.inside x inside)).1
      · exact (of_decide_eq_true seen) (.inr (.inr (.inr ⟨native, .inl (area x covered)⟩))))
    (by
      intro i few x covered
      rw [zero]
      exact laid.arguments_local native x (area x covered) (declared.slots ▸ few))
  obtain ⟨t, goes, rfl⟩ := (Goes.done s).leads (c := h.watching a.unwritten) quiet
    (fun _ seen => seen) leads
  refine ⟨[], t, goes, ?_, passed.returned, ?_, ?_⟩
  · intro zeroed
    exact (passed.registers .zero (by decide)).trans zeroed
  · exact fun r member => passed.registers r (by revert r; decide)
  · intro x intact
    refine passed.memory x fun covered => ?_
    have inside := area x covered
    have owned := laid.arguments_owned native x inside
    rcases intact with within | counter | word | ⟨record, -⟩
    · exact entered.stack_code x owned (hosting.part x within)
    · exact entered.stack_record x owned ⟨_, by decide, counter⟩
    · exact laid.arguments_whole native x inside
        (laid.slots_live (w := Invocation.firstContents 0) (.method, a.record)
          (by simp [Invocation.slots]) x word).1
    · exact entered.stack_record x owned record

end Hosted

end Surroundings

namespace Stage

variable {s : Stage} {sig : Signature}

theorem Ready.held (ready : s.Ready) (w : MethodField × Dword)
    (member : w ∈ MethodField.contents s.method) :
    s.invocation.start.memory.load (s.invocation.record + s.cfg.method.offset w.1) w.1.width = w.2 :=
  ready.entered.record w member

/-- Every entry that builds a frame is called with a runtime that obliges. -/
theorem Attended.presented (attended : s.Attended sig) (limit : s.stackLimit = 0) :
    s.invocation.Presented s.interpreter.Covers s.invocation.InRecord (s.environment sig 0 false)
      s.progress s.interpreter := by
  have entered := attended.entered
  have entrance : s.invocation.Entrance s.interpreter code (s.environment sig 0 false) :=
    attended.entrance
  have hosting : Surroundings.Hosting ⟨0, false, handlesBase⟩ s.invocation (s.binding sig) code
    s.interpreter.Covers := attended.hosting attended.declares
  have housing : Surroundings.Housing s.invocation (s.binding sig) code := attended.addressed.housing
  refine ⟨entrance.toLodged.lessen, entered.sized, rfl, fun _ => attended.fits limit,
    hosting.obliges housing rfl attended.addressed.even, fun native => ?_⟩
  obtain ⟨made, generated, images⟩ := Interpreter.blob_image attended.sound.accepted s.extensions
  obtain rfl := Except.ok.inj (attended.made.symm.trans generated)
  obtain ⟨c, image⟩ := images codeBase
  obtain ⟨h, bridged⟩ := attended.supplied.bridged entrance.toLodged image native
  refine hosting.handles housing native bridged.declared bridged.handled ?_
  exact (attended.held (.signatureHandler, _) (by simp [MethodField.contents])).trans attended.unbound

section Sample
variable {cfg : Config} {blob : Interpreter.Blob} {flags : AccessFlags} {kind : EntryKind}
  {count : BitVec 32}

/-- The sample method with its counter at some value, about to be entered. -/
def sampleAt (cfg : Config) (blob : Interpreter.Blob) (flags : AccessFlags) (kind : EntryKind)
    (count : BitVec 32) : Stage :=
  ⟨cfg, .all, blob, { sampleMethod flags with invocationCount := count }, kind, 0⟩

theorem sample_at_attended (sound : cfg.Sound) (addressed : Addressed cfg)
    (made : Interpreter.blob cfg .all = .ok blob) (accepted : (sampleMethod flags).problem? = none)
    (framed : kind ∈ [.normal, .normalSynchronized, .native, .nativeSynchronized])
    (suits : flags.isSynchronized = decide (kind ∈ [.normalSynchronized, .nativeSynchronized])) :
    (sampleAt cfg blob flags kind count).Attended sampleSignature :=
  have declares : (sampleMethod flags).Declares sampleSignature := sample_declares
  ⟨⟨sound, made, accepted⟩, addressed, framed, suits,
    ⟨declares.signature, declares.made, declares.short⟩, rfl⟩

theorem sample_at_count (attended : (sampleAt cfg blob flags kind count).Attended sampleSignature) :
    (sampleAt cfg blob flags kind count).invocation.count
      (sampleAt cfg blob flags kind count).invocation.start.memory = count.setWidth 64 :=
  attended.held (.invocationCounter, _) (List.mem_cons_of_mem _ List.mem_cons_self)

theorem sample_at_data (attended : (sampleAt cfg blob flags kind count).Attended sampleSignature) :
    (sampleAt cfg blob flags kind count).invocation.data
      (sampleAt cfg blob flags kind count).invocation.start.memory = 0 :=
  attended.held (.methodData, 0) (by simp [MethodField.contents, sampleAt, sampleMethod])

end Sample

end Stage

end EntryCode
