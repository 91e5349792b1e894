import EntryCode.Proofs.Interpreter.Tally

/-!
From an entry to where the method goes on. An interpreted method comes to its first bytecode; a
native one comes to its function, past the handler of its signature, of which only is known that it
comes back. Either way the counter has been counted up once, and it is known who was called.
-/

namespace EntryCode

open EntryCode.Frame Pinned Fragment Machine

namespace Invocation

section Contracts
variable (a : Invocation) (code other : Dword → Prop) {σ : Type} (env : Environment σ)
  (p : Progress σ)

/-- Control has come to the native function, and the state of the thread says so. -/
structure Launched (m : Machine) : Prop where
  pinned : ∀ w ∈ a.pins, m.reg w.1 = w.2
  method : m.reg Pinned.method = a.record
  there : m.pc = field a.cfg m .nativeFunction &&& ~~~1
  back : code (m.reg .ra)
  state : a.InState .inNative m.memory

/-- The native function is known: it has been all the time, or the last call was made to find it. -/
def Found (calls : List (Callee × Call)) (m : Machine) : Prop :=
  ((∀ call ∈ calls, call.1 ≠ .prepareNativeCall) ∧ resolved a.cfg m) ∨
    ∃ earlier call, calls = earlier ++ [(Callee.prepareNativeCall, call)] ∧
      Memory.Agree (fun x => ¬a.Loose x) call.after.memory m.memory

/-- The handler of the signature is called, with room for the arguments below the frame. -/
structure Summoned (v : Dword) (calls : List (Callee × Call)) (s : Progress σ) : Prop where
  goes : Goes env a.unwritten p (events calls) s
  asked : ∀ call ∈ calls, a.Calling code call.1 call.2.before
  cleared : s.machine.Zeroed
  pinned : ∀ w ∈ a.pins, s.machine.reg w.1 = w.2
  method : s.machine.reg Pinned.method = a.record
  memory : a.Remembers other v (filled calls) s.machine.memory
  routine : s.machine.pc = field a.cfg s.machine .signatureHandler &&& ~~~1
  back : code (s.machine.reg .ra)
  even : s.machine.reg .ra &&& 1 = 0
  room : (∀ x, a.Field .parameterSlots x → a.Lasting other (filled calls) x) →
    s.machine.reg .sp = a.outgoing
  found : a.Found calls s.machine

/-- The handler comes back, whatever it does on its way, and leaves alone what it must. -/
def Handles : Prop :=
  ∀ v calls s, a.Summoned code other env p v calls s →
    ∃ more t, Goes env a.unwritten s more t ∧
      Returned (a.Intact code other []) s.machine t.machine

/-- An invocation from its entry to its first bytecode or to its native function: which routines it
calls, each if there is a reason to, and what it leaves in memory. Of the record only the counter may
be stored to, and only where invocations are counted. -/
structure Passage (calls : List (Callee × Call)) (q : Progress σ) : Prop where
  spared : ∀ x, a.InRecord x → a.Written x →
    a.cfg.counts = true ∧ a.Field .invocationCounter x
  asked : ∀ call ∈ calls, a.Calling code call.1 call.2.before
  memory : a.Remembers other (a.cfg.countUp (a.count a.start.memory)) (filled calls) q.machine.memory
  called : ∃ data prepare, calls.map Prod.fst =
      a.cfg.overflowing (a.cfg.countUp (a.count a.start.memory)) ++
        (if a.native then [] else a.cfg.asking data (a.cfg.countUp (a.count a.start.memory))) ++
          (if a.synchronized then [Callee.monitorEnter] else []) ++ prepare ∧
    ((∀ x, a.Field .methodData x → a.Lasting other [] x) → data = a.data a.start.memory) ∧
    (prepare = [] ∨ a.native = true ∧ prepare = [Callee.prepareNativeCall])
  interpreted : a.native = false → Goes env a.unwritten p (events calls) q ∧ a.Poised q.machine
  crossed : a.native = true → ∃ s more t,
    a.Summoned code other env p (a.cfg.countUp (a.count a.start.memory)) calls s ∧
      Goes env a.unwritten s more t ∧ Goes env a.unwritten t [.effect (.fence .rw .w)] q ∧
        a.Launched code q.machine

variable (i : Interpreter)

/-- An entry is called that will not be refused the stack, with routines that neither throw nor
write the counter. -/
structure Presented : Prop extends a.Lodged i code env, a.Sized where
  here : p.machine = a.start
  fits : a.native = false → a.overflows = false
  obliging : a.Obliging code other env p
  handles : a.native = true → a.Handles code other env p

end Contracts

variable {a : Invocation} {code other : Dword → Prop} {c : Linked} {m k : Machine} {rest : Program}
  {σ : Type} {env : Environment σ} {p q : Progress σ} {v : Dword} {past : List (Callee × Call)}
  {fields : List MethodField}

theorem unprepared (called : past.map Prod.fst =
    a.cfg.overflowing v ++ (if a.synchronized then [Callee.monitorEnter] else [])) :
    ∀ call ∈ past, call.1 ≠ .prepareNativeCall := by
  intro call member same
  have listed : call.1 ∈ past.map Prod.fst := List.mem_map_of_mem member
  rw [called, same, Config.overflowing] at listed
  revert listed
  split <;> split <;> decide

section Native
variable (afoot : a.Afoot code env c)
include afoot

theorem Tallied.makes_room
    (tallied : a.Tallied code other env p c (outgoingArea a.cfg ++ rest) v past q) :
    ∃ r, a.Tallied code other env p c rest v past r ∧
      ((∀ x, a.Field .parameterSlots x → a.Lasting other (filled past) x) →
        r.machine.reg .sp = a.outgoing) := by
  obtain ⟨k, comes, keeps, memory, sp⟩ := outgoing_area_runs a.cfg tallied.stands
  have top : q.machine.reg stack = a.top := tallied.pinned (stack, a.top) (by simp [pins])
  rw [top] at sp
  obtain ⟨r, rfl, tallied⟩ := tallied.computes afoot comes keeps (by decide) memory
  refine ⟨r, tallied, fun lasting => ?_⟩
  have slots : field a.cfg q.machine .parameterSlots = a.method.parameterSlots :=
    afoot.sited.reads ((keeps.registers _ (by decide)).symm.trans tallied.method)
      (.parameterSlots, _) (by
        rw [← memory]
        exact tallied.memory.lasting.mono lasting) (by simp [sizes])
  rw [sp, slots]
  rfl

theorem Tallied.resolves {spot : Spot → Label} (obliging : a.Obliging code other env p)
    (unprepared : ∀ call ∈ past, call.1 ≠ .prepareNativeCall)
    (tallied : a.Tallied code other env p c (resolve a.cfg spot ++ rest) v past q) :
    ∃ r made, a.Tallied code other env p c rest v (past ++ made) r ∧
      (made.map Prod.fst = if resolved a.cfg q.machine then [] else [.prepareNativeCall]) ∧
      a.Found (past ++ made) r.machine ∧ r.machine.reg .sp = q.machine.reg .sp := by
  obtain ⟨k, comes, keeps, memory⟩ := resolve_runs a.cfg tallied.stands
  have named := tallied.method
  obtain ⟨r, same, tallied⟩ := tallied.computes afoot comes keeps (by decide) memory
  have sp : r.machine.reg .sp = q.machine.reg .sp := by
    rw [same]
    exact keeps.registers _ (by decide)
  by_cases known : resolved a.cfg q.machine
  · -- The test itself leaves the record alone.
    rw [if_pos known] at tallied ⊢
    refine ⟨r, [], by rwa [List.append_nil], rfl, .inl ⟨by rwa [List.append_nil], ?_⟩, sp⟩
    rw [same]
    have record : k.reg Pinned.method = q.machine.reg Pinned.method := keeps.registers _ (by decide)
    rwa [resolved, field_congr a.cfg _ record memory, field_congr a.cfg _ record memory]
  · rw [if_neg known] at tallied ⊢
    obtain ⟨r₁, same', tallied⟩ := tallied.computes afoot
      (Linked.Stands.immediate tallied.stands (by simp))
      (((Keeps.refl [.a1] _).put (r := .a1) (by decide) _).goto _) (by decide) rfl
    obtain ⟨r₂, call, tallied, agree, sp'⟩ := tallied.calls afoot obliging (by decide) (by simp)
    obtain ⟨r₃, same'', tallied⟩ := tallied.computes afoot
      ⟨.refl _, (Linked.Stands.bind tallied.stands).2⟩ (.refl [] _) (by decide) rfl
    refine ⟨r₃, _, tallied, rfl, .inr ⟨past, call, rfl, by rwa [same'']⟩, ?_⟩
    rw [same'', sp', same', reg_goto, reg_put_ne _ _ _ _ (by decide), sp]

/-- With room for the arguments and the function at hand, the handler can be called. -/
theorem Tallied.readies {spot : Spot → Label} (obliging : a.Obliging code other env p)
    (unprepared : ∀ call ∈ past, call.1 ≠ .prepareNativeCall)
    (tallied : a.Tallied code other env p c
      (outgoingArea a.cfg ++ (resolve a.cfg spot ++ rest)) v past q) :
    ∃ r made, a.Tallied code other env p c rest v (past ++ made) r ∧
      (made.map Prod.fst = [] ∨ made.map Prod.fst = [.prepareNativeCall]) ∧
      a.Found (past ++ made) r.machine ∧
      ((∀ x, a.Field .parameterSlots x → a.Lasting other (filled (past ++ made)) x) →
        r.machine.reg .sp = a.outgoing) := by
  obtain ⟨q₁, tallied, room⟩ := tallied.makes_room afoot
  obtain ⟨r, made, tallied, prepare, found, sp⟩ := tallied.resolves afoot obliging unprepared
  refine ⟨r, made, tallied, ?_, found, fun lasting => sp.trans (room fun x slots => ?_)⟩
  · rw [prepare]
    split
    · exact .inl rfl
    · exact .inr rfl
  · obtain ⟨kept, stack, thread, counter, free⟩ := lasting x slots
    rw [filled_append, List.forall_mem_append] at free
    exact ⟨kept, stack, thread, counter, free.1⟩

theorem Tallied.summons (found : a.Found past q.machine)
    (room : (∀ x, a.Field .parameterSlots x → a.Lasting other (filled past) x) →
      q.machine.reg .sp = a.outgoing)
    (tallied : a.Tallied code other env p c (callHandler a.cfg ++ (keepHandler ++ rest)) v past q) :
    ∃ s, a.Summoned code other env p v past s ∧ c.Has (s.machine.reg .ra) (keepHandler ++ rest) ∧
      c.InMemory s.machine.memory := by
  obtain ⟨k, comes, keeps, memory, handler⟩ : ∃ k,
      c.Comes q.machine k (.callRegister .t0 :: (keepHandler ++ rest)) ∧ Keeps [.t0] q.machine k ∧
      k.memory = q.machine.memory ∧ k.reg .t0 = field a.cfg q.machine .signatureHandler :=
    ⟨_, Linked.Stands.load (Linked.Stands.comment tallied.stands),
      ((Keeps.refl _ _).put (by decide) _).goto _, rfl, reg_put_self _ _ _ (by decide)⟩
  obtain ⟨r, rfl, tallied⟩ := tallied.computes afoot comes keeps (by decide) memory
  obtain ⟨leads, back⟩ := Linked.Stands.jump_register tallied.stands
  obtain ⟨s, goes, same⟩ := afoot.leads tallied.goes leads
  have keeps' : Keeps [.ra] r.machine s.machine := by
    rw [same]
    exact ((Keeps.refl _ _).put (by decide) _).goto _
  have memory' : s.machine.memory = r.machine.memory := by rw [same]; rfl
  have link : s.machine.reg .ra = r.machine.pc + 4 := by
    rw [same, reg_goto, reg_put_self _ _ _ (by decide)]
  have record : s.machine.reg Pinned.method = r.machine.reg Pinned.method :=
    keeps'.registers _ (by decide)
  have earlier : r.machine.reg Pinned.method = q.machine.reg Pinned.method :=
    keeps.registers _ (by decide)
  have fields : ∀ f, field a.cfg s.machine f = field a.cfg q.machine f := fun f =>
    field_congr a.cfg f (record.trans earlier) (memory'.trans memory)
  rw [← link] at back
  refine ⟨s, ⟨goes, tallied.asked, ?_, pins_kept tallied.pinned keeps' (by decide),
    record.trans tallied.method, by rw [memory']; exact tallied.memory, ?_,
    afoot.inside _ (Linked.has_in_code back), afoot.even.has back, fun lasting => ?_, ?_⟩, back, ?_⟩
  · exact (keeps'.registers .zero (by decide)).trans tallied.stands.cleared
  · rw [fields, ← handler, same]
    rfl
  · rw [keeps'.registers _ (by decide), keeps.registers _ (by decide), room lasting]
  · rwa [Found, resolved, fields, fields, memory', memory]
  · rw [memory']
    exact tallied.stands.here

/-- What the handler has returned is kept, and the method is known again. -/
theorem Summoned.resumes {s t : Progress σ} (summoned : a.Summoned code other env p v past s)
    (back : c.Has (s.machine.reg .ra) (keepHandler ++ rest)) (here : c.InMemory s.machine.memory)
    (returned : Returned (a.Intact code other []) s.machine t.machine) :
    ∃ k, c.Leads t.machine k ∧ a.Seated other c rest v (filled past) k := by
  have pinned := pins_returned summoned.pinned returned
  have frame : t.machine.reg .fp = a.fp := pinned (.fp, a.fp) (by simp [pins])
  have memory := summoned.memory.returned returned.memory
  rw [List.append_nil] at memory
  have stands := afoot.stands_returned summoned.cleared here back returned
  obtain ⟨k, ⟨leads, stands⟩, keeps, stored, named⟩ := keep_handler_runs stands (by
    rw [frame]
    exact afoot.word_free (by decide))
  rw [frame] at stored named
  refine ⟨k, leads, pins_kept pinned keeps (by decide), named.trans memory.held, ?_, stands⟩
  rw [stored]
  exact memory.loosened afoot (afoot.store_agrees (by decide) (by decide))

theorem Seated.passes_mirror {spot : Spot → Label}
    (seated : a.Seated other c (passMirror a.cfg spot ++ rest) v fields m) :
    ∃ k, c.Leads m k ∧ a.Seated other c rest v fields k := by
  obtain ⟨k, ⟨leads, stands⟩, keeps, static, plain⟩ := pass_mirror_runs a.cfg seated.stands (by
    rw [seated.fp]
    exact afoot.word_free (by decide))
  refine ⟨k, leads, seated.moves afoot stands keeps (by decide)
    ((keeps.registers _ (by decide)).trans seated.method) ?_⟩
  by_cases flag : isStatic a.cfg m
  · rw [(static flag).2, seated.fp]
    exact afoot.store_agrees (by decide) (by decide)
  · rw [(plain flag).2]
    exact .refl _ _

theorem Seated.approaches (seated : a.Seated other c (approach a.cfg ++ rest) v fields m) :
    ∃ k, c.Leads m k ∧ a.Seated other c rest v fields k ∧
      k.reg .t1 = field a.cfg k .nativeFunction := by
  obtain ⟨k, ⟨first, stands⟩, keeps, agree⟩ : ∃ k, c.Comes m k
      (.ld .t1 Pinned.method (a.cfg.method.offset .nativeFunction) ::
        .comment "thread state in_native" :: rest) ∧ Keeps [.a0, .t0] m k ∧
      Memory.Agree (fun x => ¬anchor a.cfg a.current x) m.memory k.memory := by
    have stands := seated.stands
    simp only [approach, List.append_assoc, List.cons_append, List.nil_append] at stands
    obtain ⟨first, stands⟩ := stands.immediate (by simp)
    obtain ⟨⟨second, stands⟩, keeps, agree⟩ := publish_anchor_reaches a.cfg stands (by
      simp (disch := decide) only [reg_goto, reg_put_ne, seated.thread]
      exact afoot.anchor_free)
    refine ⟨_, ⟨first.trans second, stands⟩,
      (((Keeps.refl _ m).put (by decide) _).goto _).trans (keeps.mono (by decide)), ?_⟩
    simp (disch := decide) only [reg_goto, reg_put_ne, memory_goto, memory_put, seated.thread] at agree
    rwa [seated.thread]
  obtain ⟨second, stands⟩ := stands.load
  have keeps : Keeps [.a0, .t0, .t1] m k := keeps.mono (by decide)
  have kept := fun w pc => (keeps.put (r := .t1) (by decide) w).goto pc
  refine ⟨_, first.trans second, seated.moves afoot stands.comment (kept _ _) (by decide)
    (((kept _ _).registers _ (by decide)).trans seated.method) ?_, ?_⟩
  · exact agree.mono fun x fixed anchored => fixed (.inr (.of_anchor anchored))
  · simp (disch := decide) only [reg_goto, reg_put_self, field, reg_put_ne, memory_goto, memory_put]
    rfl

theorem Seated.publishes (native : a.native = true)
    (seated : a.Seated other c (publishState a.cfg .inNative true ++ rest) v fields m)
    {t : Progress σ} (here : t.machine = m) :
    ∃ r, Goes env a.unwritten t [.effect (.fence .rw .w)] r ∧
      a.Seated other c rest v fields r.machine ∧ a.InState .inNative r.machine.memory ∧
      (∀ f ∈ MethodField.inRecord, field a.cfg r.machine f = field a.cfg m f) ∧
      r.machine.reg .t1 = m.reg .t1 := by
  subst here
  have stands := seated.stands
  simp only [publishState, List.flatten_cons, List.flatten_nil, if_true, List.cons_append,
    List.nil_append] at stands
  obtain ⟨pc, first, stands⟩ := stands.constant (by decide)
  obtain ⟨q, goes, same⟩ := afoot.leads (.done t) first
  rw [← same] at stands
  obtain ⟨q', goes, same'⟩ := goes.notices afoot.quiet stands (by simp) rfl
  -- The fence changes nothing but the place in the code.
  have fenced : q'.machine = q.machine.goto (q.machine.pc + 4) := same'
  have stands : c.Stands q'.machine (.sw .t0 Pinned.thread (a.cfg.thread.offset .state) :: rest) := by
    rw [fenced]
    exact ⟨stands.cleared, stands.here, (Linked.has_instruction.mp stands.placed).2⟩
  have keeps : Keeps [.t0] t.machine q'.machine := by
    rw [fenced, same]
    exact (((Keeps.refl _ _).put (by decide) _).goto _).goto _
  have value : q'.machine.reg .t0 = ThreadState.inNative.code.setWidth 64 := by
    rw [fenced, same, reg_goto, reg_goto, reg_put_self _ _ _ (by decide)]
  have memory : q'.machine.memory = t.machine.memory := by rw [fenced, same]; rfl
  have holder : q'.machine.reg Pinned.thread = a.current :=
    (keeps.registers _ (by decide)).trans seated.thread
  obtain ⟨last, stands⟩ := stands.store (by
    rw [holder]
    exact afoot.state_free native)
  rw [holder, value] at last stands
  obtain ⟨r, goes, stored⟩ := afoot.leads goes last
  rw [← stored] at stands
  have kept : Keeps [.t0] t.machine r.machine := by
    rw [stored]
    exact (keeps.poke _ _ _).goto _
  have state : r.machine.memory = t.machine.memory.store (a.current + a.cfg.thread.offset .state) 4
      (ThreadState.inNative.code.setWidth 64) := by
    rw [stored, ← memory]
    rfl
  have agree : Memory.Agree (fun x => ¬a.InThread x) t.machine.memory r.machine.memory := by
    rw [state]
    exact (Memory.agree_store _ _ _ (by decide)).mono fun x free covered =>
      free ⟨.state, by decide, covered⟩
  have named := kept.registers Pinned.method (by decide)
  refine ⟨r, goes, seated.moves afoot stands kept (by decide) (named.trans seated.method)
    (agree.mono fun x fixed inside => fixed (.inr inside)), ?_, fun f member => ?_,
      kept.registers _ (by decide)⟩
  · rw [InState, state, Memory.load_store_same _ _ _ (by decide)]
    decide
  · have short : f.width ≤ 2 ^ 64 := by cases f <;> decide
    rw [field, field, named, seated.method]
    exact agree.load short fun x inside => afoot.record_thread x ⟨f, member, inside⟩

theorem Summoned.launches {s t : Progress σ} {spot : Spot → Label} (native : a.native = true)
    (summoned : a.Summoned code other env p v past s)
    (back : c.Has (s.machine.reg .ra) (keepHandler ++ (passMirror a.cfg spot ++ (approach a.cfg ++
      (publishState a.cfg .inNative true ++ (.callRegister .t1 :: (comeBack a.cfg spot ++ rest)))))))
    (here : c.InMemory s.machine.memory)
    (returned : Returned (a.Intact code other []) s.machine t.machine) :
    ∃ r, Goes env a.unwritten t [.effect (.fence .rw .w)] r ∧ a.Launched code r.machine ∧
      a.Remembers other v (filled past) r.machine.memory := by
  obtain ⟨k₁, first, seated⟩ := summoned.resumes afoot back here returned
  obtain ⟨k₂, second, seated⟩ := seated.passes_mirror afoot
  obtain ⟨k₃, third, seated, function⟩ := seated.approaches afoot
  obtain ⟨t', goes, rfl⟩ := afoot.leads (.done t) ((first.trans second).trans third)
  obtain ⟨t'', more, seated, state, fields, same⟩ := seated.publishes afoot native rfl
  rw [function, ← fields _ (by decide)] at same
  obtain ⟨leads, there⟩ := Linked.Stands.jump_register seated.stands
  obtain ⟨r, goes, jumped⟩ := afoot.leads (goes.trans more) leads
  have keeps : Keeps [.ra] t''.machine r.machine := by
    rw [jumped]
    exact ((Keeps.refl _ _).put (by decide) _).goto _
  -- The jump stores nothing, so the state that was published is still there.
  have memory : r.machine.memory = t''.machine.memory := by rw [jumped]; rfl
  have named := (keeps.registers Pinned.method (by decide)).trans seated.method
  have link : r.machine.reg .ra = t''.machine.pc + 4 := by
    rw [jumped, reg_goto, reg_put_self _ _ _ (by decide)]
  refine ⟨r, goes, ⟨pins_kept seated.pinned keeps (by decide), named, ?_, ?_, by rwa [memory]⟩, ?_⟩
  · have held : field a.cfg r.machine .nativeFunction = field a.cfg t''.machine .nativeFunction :=
      field_congr a.cfg _ (keeps.registers _ (by decide)) memory
    rw [held, ← same, jumped]
    rfl
  · rw [link]
    exact afoot.inside _ (Linked.has_in_code there)
  · rw [memory]
    exact seated.memory

end Native

section Presented
variable {i : Interpreter} (image : Interpreter.Image a.cfg i c)
include image

/-- The code of an entry that is called notices every store that it must not make. -/
theorem Presented.afoot (presented : a.Presented code other env p i) :
    a.Afoot code env (c.watching a.unwritten) := by
  have image := image.watching a.unwritten
  -- Code that watches all other addresses covers only itself where it may store.
  have free : ∀ x, a.Written x → ¬code x → ¬(c.watching a.unwritten).Covers x := fun x written =>
    presented.uncovered image (decide_eq_false (not_not.mpr written))
  obtain ⟨f, s, laid⟩ := a.placed presented.counted presented.aligned
  have owned : ∀ x, a.Granted x → a.Owns x := laid.granted_owned
  exact {
    sited := ⟨presented.toSized, fun x granted =>
      free x (.inl granted) (presented.stack_code x (owned x granted)),
        fun x granted => presented.stack_record x (owned x granted)⟩
    inside := presented.inside image
    quiet := presented.quiet_code image
    even := image.even presented.even
    watched := rfl
    anchor_free := fun x anchored =>
      free x (.inr (.inl anchored)) (presented.thread_code x (.of_anchor anchored))
    counter_free := fun counts x counter =>
      free x (.inr (.inr (.inl ⟨counts, counter⟩))) (presented.record_code x ⟨_, by decide, counter⟩)
    state_free := fun native x state => free x (.inr (.inr (.inr ⟨native, .inr state⟩)))
      (presented.thread_code x ⟨_, by decide, state⟩)
    away := (Shared.of_image image).exceptional
    stack_thread := fun x granted => presented.stack_thread x (owned x granted)
    record_thread := presented.record_thread }

omit image in
theorem Presented.spares (presented : a.Presented code other env p i) (x : Dword)
    (record : a.InRecord x) (written : a.Written x) :
    a.cfg.counts = true ∧ a.Field .invocationCounter x := by
  obtain ⟨f, s, laid⟩ := a.placed presented.counted presented.aligned
  rcases written with granted | anchored | counter | ⟨native, arguments | state⟩
  · exact (presented.stack_record x (laid.granted_owned x granted) record).elim
  · exact (presented.record_thread x record (.of_anchor anchored)).elim
  · exact counter
  · exact (presented.stack_record x (laid.arguments_owned native x arguments) record).elim
  · exact (presented.record_thread x record ⟨.state, by decide, state⟩).elim

theorem Presented.starts (presented : a.Presented code other env p i) (interpreted : a.native = false) :
    ∃ calls q, a.Passage code other env p calls q := by
  have afoot := presented.afoot image
  have image := image.watching a.unwritten
  have shared : a.Shared (c.watching a.unwritten) := .of_image image
  have stands := presented.stands_interpreted image interpreted
  have obliging := presented.obliging
  rw [interpreted_eq] at stands
  obtain ⟨q₁, tallied⟩ := afoot.opens other presented.here interpreted
    (presented.fits interpreted) stands shared.overflow
  obtain ⟨q₂, first, tallied, overflow⟩ := tallied.counts afoot obliging
  rw [List.append_assoc] at tallied
  -- When the data is looked at, nothing but an overflow has been reported since the start.
  have data := tallied.memory.lasting
  obtain ⟨q₃, second, tallied, profile⟩ := tallied.profiles afoot obliging
  rw [List.append_assoc] at tallied
  obtain ⟨q₄, third, tallied, lock⟩ := tallied.locks afoot obliging
  obtain ⟨q, goes, poised, memory⟩ := tallied.dispatches afoot
  refine ⟨_, q, presented.spares, tallied.asked, by rw [memory]; exact tallied.memory, ?_,
    fun _ => ⟨goes, poised⟩, fun native => by rw [interpreted] at native; cases native⟩
  refine ⟨a.data q₂.machine.memory, [], ?_, fun lasting => ?_, .inl rfl⟩
  · rw [interpreted, if_neg (by decide), List.map_append, List.map_append, overflow, profile, lock,
      List.append_nil]
  · rw [filled_none overflow] at data
    exact data.load (by decide) lasting

theorem Presented.crosses (presented : a.Presented code other env p i) (native : a.native = true) :
    ∃ calls q, a.Passage code other env p calls q := by
  have afoot := presented.afoot image
  have image := image.watching a.unwritten
  have stands := presented.stands_native image native
  have obliging := presented.obliging
  rw [native_eq] at stands
  obtain ⟨q₁, tallied⟩ := afoot.opens_native other presented.here native stands
  obtain ⟨q₂, first, tallied, overflow⟩ := tallied.counts afoot obliging
  rw [List.append_assoc] at tallied
  obtain ⟨q₃, second, tallied, lock⟩ := tallied.locks afoot obliging
  have listed : (first ++ second).map Prod.fst =
      a.cfg.overflowing (a.cfg.countUp (a.count a.start.memory)) ++
        (if a.synchronized then [Callee.monitorEnter] else []) := by
    rw [List.map_append, overflow, lock]
  rw [crossing] at tallied
  simp only [List.append_assoc] at tallied
  obtain ⟨q₄, third, tallied, prepare, found, room⟩ :=
    tallied.readies afoot obliging (unprepared listed)
  obtain ⟨s, summoned, back, here⟩ := tallied.summons afoot found room
  -- Of the handler no more is known than that it comes back.
  obtain ⟨more, t, handled, returned⟩ := presented.handles native _ _ s summoned
  obtain ⟨q, crossed, launched, memory⟩ := summoned.launches afoot native back here returned
  refine ⟨_, q, presented.spares, summoned.asked, memory, ⟨a.data a.start.memory, third.map Prod.fst,
    ?_, fun _ => rfl, prepare.imp_right fun prepared => ⟨native, prepared⟩⟩, fun interpreted => ?_,
      fun _ => ⟨s, more, t, summoned, handled, crossed, launched⟩⟩
  · rw [native, if_pos rfl, List.append_nil, List.map_append, listed]
  · rw [native] at interpreted
    cases interpreted

theorem Presented.passes (presented : a.Presented code other env p i) :
    ∃ calls q, a.Passage code other env p calls q := by
  cases native : a.native with
  | false => exact presented.starts image native
  | true => exact presented.crosses image native

end Presented

end Invocation

end EntryCode
