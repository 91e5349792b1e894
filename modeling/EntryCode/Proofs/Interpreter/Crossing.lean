import EntryCode.Proofs.Interpreter.Outgoing
import EntryCode.Proofs.Interpreter.Result
import EntryCode.Proofs.Interpreter.Unwinding

/-!
Into a native function and back. The state of the thread says where it is, and each change of the
state is ordered by fences; on the way back the thread stops where it is asked to, and nothing of
the result is lost.
-/

namespace EntryCode

open EntryCode.Frame Pinned Fragment Machine

namespace Invocation

section Protocol
variable (a : Invocation) (code : Dword → Prop) (b : Binding)

def published (state : ThreadState) (fenced : Bool) : List Event :=
  (if fenced then [Event.effect (.fence .rw .w)] else []) ++
    [Event.effect (.store (a.current + a.cfg.thread.offset .state) 4 (state.code.setWidth 64))]

/-- What is noticed from the way into a native function to the way out. -/
def protocol (native : Call) (special : Option Call) : List Event :=
  a.published .inNative true ++ (.call native :: (a.published .inNativeTrans false ++
    (.effect (.fence .rw .rw) :: (made special ++ a.published .inJava true))))

def InState (state : ThreadState) (mem : Memory) : Prop :=
  mem.load (a.current + a.cfg.thread.offset .state) 4 = state.code.setWidth 64

def HandleTop (mem : Memory) (x : Dword) : Prop :=
  Memory.Covers (mem.load (a.current + a.cfg.thread.offset .activeHandles) 8 +
    a.cfg.thread.offset .handleTop) 4 x

/-- The handles lie apart from everything else. -/
def Blocked (mem : Memory) : Prop :=
  ∀ x, a.HandleTop mem x → ¬code x ∧ ¬a.Owns x ∧ ¬a.InRecord x ∧ ¬a.InThread x

/-- A native function, or the routine that stops a thread. -/
structure Serves (lent : Dword → Prop) (m k : Machine) : Prop where
  follows : a.Follows code lent [.accessFlags] m k
  blocked : a.Blocked code k.memory

/-- A native function is entered. -/
structure Entering (w : Contents) (m : Machine) : Prop where
  routine : m.pc = b.function
  environment : m.reg .a0 = a.current + a.cfg.thread.offset .environment
  mirror : a.method.flags.isStatic = true →
    m.reg .a1 = a.fp + slot .oopTemp ∧ w.temp = a.method.mirror
  arguments :
    Handler.Arrived b.signature a.method.flags.isStatic a.localZero a.start.memory m
  framed : a.Framed a.outgoing w m
  inside : a.Inside code m
  state : a.InState .inNative m.memory
  anchored : ∃ pc, code pc ∧ m.memory.Holds a.current (anchorWords a.cfg a.outgoing a.fp pc)

/-- The stack pointer while a result is kept. -/
def resultBelow : Dword := a.outgoing - BitVec.ofNat 64 stackAlignment

def Stash (x : Dword) : Prop :=
  Memory.Covers a.resultBelow stackAlignment x

/-- A thread stops after `native` has returned. -/
structure Stopping (w : Contents) (native : Call) (m : Machine) : Prop where
  routine : m.pc = a.cfg.callees.address .checkSpecialCondition
  thread : m.reg .a0 = a.current
  framed : a.Framed a.resultBelow w m
  inside : a.Inside code m
  state : a.InState .inNativeTrans m.memory
  memory : Memory.Agree (fun x => ¬a.Stash x ∧ ¬a.ThreadWord .state x) native.after.memory m.memory

/-- The thread is back from `native`. -/
structure Crossed (w : Contents) (native : Call) (special : Option Call) (k : Machine) : Prop where
  framed : a.Framed a.outgoing w k
  result : k.reg .a0 = native.after.reg .a0
  float : k.freg .fa0 = native.after.freg .fa0
  state : a.InState .inJava k.memory
  idle : a.Idle k.memory
  pending : pending a.cfg a.current k.memory = a.thrown (some (special.getD native))
  memory : Memory.Agree (fun x => ¬a.Stash x ∧ ¬a.InThread x ∧
    ¬a.HandleTop (special.getD native).after.memory x) (special.getD native).after.memory k.memory

variable {σ : Type} (env : Environment σ)

/-- What is noticed from the way into a native function to the fence after its return. -/
def fenced (native : Call) : List Event :=
  a.published .inNative true ++ (.call native :: (a.published .inNativeTrans false ++
    [.effect (.fence .rw .rw)]))

def Request (x : Dword) : Prop :=
  a.ThreadWord .pollingWord x ∨ a.ThreadWord .suspendFlags x

/-- A thread goes on to the routine that stops it, or back to its own state. -/
def Heeds (stop : Prop) (s : Progress σ) : Prop :=
  ∃ u, stop ∧ Goes env a.watches s [] u ∧
      u.machine.pc = a.cfg.callees.address .checkSpecialCondition ∧ u.machine.reg .a0 = a.current ∨
    ¬stop ∧ Goes env a.watches s (a.published .inJava true) u

/-- From `s` on, and no sooner, a thread that is back from `native` looks whether it is asked to
stop: the first data that it accesses are the two words, before anything is noticed, and whatever
they hold by then decides. -/
structure Polls (native : Call) (special : Option Call) (s : Progress σ) (events : List Event)
    (r : Progress σ) : Prop where
  memory : Memory.Agree (fun x => ¬a.Stash x ∧ ¬a.ThreadWord .state x) native.after.memory
    s.machine.memory
  asked : special.isSome = true ↔ polled a.cfg a.current s.machine.memory
  loads : ∃ t n, Goes env a.watches s [] t ∧ s.machine.after n = .ok t.machine ∧
    s.machine.accesses n = requests a.cfg a.current ∧ Goes env a.watches t events r
  fresh : ∀ mem, Memory.Agree (fun x => ¬a.Request x) s.machine.memory mem →
    a.Heeds env (polled a.cfg a.current mem)
      { s with machine := { s.machine with memory := mem } }

end Protocol

variable {a : Invocation} {b : Binding} {code : Dword → Prop} {c : Linked} {f s : Nat}
  {sp : Dword} {w : Contents} {m k : Machine}

section Kept
variable (laid : a.Placed f s) (native : a.native = true)
include laid native

theorem Placed.result_distance : ∃ n, (a.resultBelow - a.floor).toNat = n ∧ 24 ≤ n ∧
    n + 16 + 8 * (a.parameters + 2) ≤ f - a.fixed := by
  obtain ⟨n, place, least, most⟩ := laid.outgoing_at native
  have bounded := laid.bounded
  have zero : a.floor = a.floor + BitVec.ofNat 64 0 := (BitVec.add_zero _).symm
  refine ⟨n - 16, ?_, by omega, by omega⟩
  rw [resultBelow, place, stackAlignment, sub_at (by omega)]
  nth_rewrite 2 [zero]
  exact distance (by omega) (by omega)

theorem Placed.under_result : a.Under a.resultBelow := by
  obtain ⟨n, height, -, most⟩ := laid.result_distance native
  rw [Under, height, laid.top_distance]
  omega

theorem Placed.covers_result {x : Dword}
    (covered : Memory.Covers a.resultBelow stackAlignment x) :
    (a.resultBelow - a.floor).toNat ≤ (x - a.floor).toNat ∧ (x - a.floor).toNat < f - a.fixed := by
  obtain ⟨n, height, -, most⟩ := laid.result_distance native
  have bounded := laid.bounded
  rw [Memory.Covers, stackAlignment] at covered
  generalize a.resultBelow = d at *
  generalize a.floor = e at *
  bv_omega

theorem Placed.result_owned (x : Dword)
    (covered : Memory.Covers a.resultBelow stackAlignment x) : a.Owns x := by
  have inside := laid.covers_result native covered
  have below := laid.below
  have size := a.need_eq
  rw [Owns, Memory.Covers, wordSize]
  omega

end Kept

def Meanwhile (a : Invocation) (x : Dword) : Prop :=
  a.ThreadWord .state x ∨ anchor a.cfg a.current x

theorem Meanwhile.in_thread {x : Dword} (meanwhile : a.Meanwhile x) : a.InThread x :=
  meanwhile.elim (fun word => ⟨.state, by decide, word⟩) .of_anchor

/-- Other fields of the thread are left alone on the way back. -/
theorem Entered.word_kept (entered : a.Entered code) (native : a.native = true) {g : ThreadField}
    (member : g ∈ ThreadField.inRecord)
    (other : ∀ f ∈ [ThreadField.state, .lastSp, .lastFp, .lastPc], f ≠ g) (x : Dword)
    (word : a.ThreadWord g x) : ¬a.Stash x ∧ ¬a.Meanwhile x := by
  obtain ⟨f, d, laid⟩ := a.placed entered.counted entered.aligned
  rw [List.forall_mem_cons] at other
  refine ⟨fun kept =>
    entered.stack_thread x (laid.result_owned native x kept) ⟨g, member, word⟩, ?_⟩
  rintro (state | anchored)
  · exact words_apart entered.words member (by decide) (Ne.symm other.1) x word state
  · exact entered.anchor_apart member other.2 x word anchored

/-- The frame stands, and the result of a native function is kept below it. Otherwise memory is
`mem`, but for what is written in the thread. -/
structure Back (a : Invocation) (v g : Dword) (mem : Memory) (w : Contents) (k : Machine) :
    Prop where
  framed : a.Framed a.resultBelow w k
  saved : k.memory.Holds a.resultBelow (resultWords v g)
  memory : Memory.Agree (fun x => ¬a.Stash x ∧ ¬a.Meanwhile x) mem k.memory

theorem result_words_inside {v g : Dword} (u : Dword × Dword) (member : u ∈ resultWords v g)
    (x : Dword) (covered : Memory.Covers (a.resultBelow + u.1) 8 x) :
    Memory.Covers a.resultBelow stackAlignment x := by
  have offsets : ∀ u ∈ resultWords v g, ∃ n, n + 8 ≤ stackAlignment ∧ u.1 = BitVec.ofNat 64 n := by
    simp only [resultWords, List.forall_mem_cons]
    exact ⟨⟨8, by decide, rfl⟩, ⟨0, by decide, rfl⟩, List.forall_mem_nil _⟩
  obtain ⟨n, short, place⟩ := offsets u member
  rw [place] at covered
  exact covered.within short (by decide)

theorem Back.kept {rs : List Register} {v g : Dword} {mem : Memory} (laid : a.Placed f s)
    (native : a.native = true) (entered : a.Entered code) (back : a.Back v g mem w k)
    (keeps : Keeps rs k m)
    (apart : ∀ r ∈ frameRegisters, ∀ t ∈ rs, r.code ≠ t.code)
    (agree : Memory.Agree (fun x => ¬a.Meanwhile x) k.memory m.memory) :
    a.Back v g mem w m := by
  have listed : ∀ r ∈ registerNames, r ∈ frameRegisters := by decide
  have stack : Memory.Agree a.Owns k.memory m.memory := agree.mono fun x owned meanwhile =>
    entered.stack_thread x owned meanwhile.in_thread
  refine ⟨?_, ?_, back.memory.trans (agree.mono fun x free => free.2)⟩
  · exact back.framed.kept laid keeps (fun r member => apart r (listed r member)) stack
      (agree.mono fun x field meanwhile =>
        entered.record_thread x ⟨_, by decide, field⟩ meanwhile.in_thread)
  · exact stack.holds back.saved fun u member x covered =>
      laid.result_owned native x (result_words_inside u member x covered)

section Polls
variable {σ : Type} {env : Environment σ} {s r u : Progress σ} {events more : List Event}
  {native : Call} {special : Option Call} (polls : a.Polls env native special s events r)
include polls

theorem Polls.goes : Goes env a.watches s events r := by
  obtain ⟨t, n, loaded, -, -, later⟩ := polls.loads
  exact loaded.trans later

theorem Polls.onward (goes : Goes env a.watches r more u) :
    a.Polls env native special s (events ++ more) u := by
  obtain ⟨t, n, loaded, reached, accesses, later⟩ := polls.loads
  exact ⟨polls.memory, polls.asked, ⟨t, n, loaded, reached, accesses, later.trans goes⟩, polls.fresh⟩

theorem Polls.asked_at_return (entered : a.Entered code) (kind : a.native = true) :
    special.isSome = true ↔ polled a.cfg a.current native.after.memory := by
  have kept : ∀ {g : ThreadField}, g ∈ ThreadField.inRecord →
      (∀ f ∈ [ThreadField.state, .lastSp, .lastFp, .lastPc], f ≠ g) → ∀ x, a.ThreadWord g x →
        ¬a.Stash x ∧ ¬a.ThreadWord .state x := fun member other x word =>
    (entered.word_kept kind member other x word).imp_right fun free state => free (.inl state)
  have first : s.machine.memory.load (a.current + a.cfg.thread.offset .pollingWord) 8 =
      native.after.memory.load (a.current + a.cfg.thread.offset .pollingWord) 8 :=
    polls.memory.load (by decide) (kept (g := .pollingWord) (by decide) (by decide))
  have second : s.machine.memory.load (a.current + a.cfg.thread.offset .suspendFlags) 4 =
      native.after.memory.load (a.current + a.cfg.thread.offset .suspendFlags) 4 :=
    polls.memory.load (by decide) (kept (g := .suspendFlags) (by decide) (by decide))
  rw [polls.asked, polled, polled, first, second]

end Polls

theorem protocol_eq (native : Call) (special : Option Call) : a.protocol native special =
    a.fenced native ++ (made special ++ a.published .inJava true) := by
  simp only [protocol, fenced, List.append_assoc, List.cons_append, List.nil_append]

section Runs
variable {σ : Type} {env : Environment σ} {p q : Progress σ} {events : List Event}
  {rest away : Program} (around : a.Around code c env away)
  (goes : Goes env a.watches p events q)
include around goes

theorem Around.fences {before after : FenceSet}
    (stands : c.Stands q.machine (.fence before after :: rest)) :
    ∃ r, Goes env a.watches p (events ++ [Event.effect (.fence before.low after.low)]) r ∧
      c.Stands r.machine rest ∧ Keeps [] q.machine r.machine ∧
      r.machine.memory = q.machine.memory := by
  obtain ⟨r, goes, same⟩ := goes.notices around.quiet stands (by simp) rfl
  refine ⟨r, goes, ?_, ?_, ?_⟩
  · rw [same]
    exact ⟨stands.cleared, stands.here, (Linked.has_instruction.mp stands.placed).2⟩
  · rw [same]
    exact (Keeps.refl _ _).goto _
  · rw [same]
    rfl

theorem Around.stores_state (current : q.machine.reg thread = a.current)
    (stands : c.Stands q.machine (.sw .t0 thread (a.cfg.thread.offset .state) :: rest)) :
    ∃ r, Goes env a.watches p (events ++
        [Event.effect (.store (a.current + a.cfg.thread.offset .state) 4 (q.machine.reg .t0))]) r ∧
      c.Stands r.machine rest ∧ Keeps [.t0] q.machine r.machine ∧
      r.machine.memory = q.machine.memory.store (a.current + a.cfg.thread.offset .state) 4
        (q.machine.reg .t0) := by
  have effect : (Instruction.store .sw .t0 thread (a.cfg.thread.offset .state)).effect q.machine =
      .store (a.current + a.cfg.thread.offset .state) 4 (q.machine.reg .t0) := by
    rw [← current]
    rfl
  obtain ⟨r, goes, same⟩ := goes.notices around.quiet stands (by simp) (by
    rw [effect, Effect.noticed, List.any_eq_true]
    refine ⟨0, by decide, ?_⟩
    rw [watches, decide_eq_true_eq, Memory.Covers, BitVec.add_zero, BitVec.sub_self]
    decide)
  rw [effect] at goes
  rw [exec_store, current] at same
  have memory : r.machine.memory = q.machine.memory.store
      (a.current + a.cfg.thread.offset .state) 4 (q.machine.reg .t0) := by
    rw [same]
    rfl
  have keeps : Keeps [.t0] q.machine r.machine := by
    rw [same]
    exact ((Keeps.refl _ _).poke _ _ _).goto _
  refine ⟨r, goes, ⟨(keeps.registers .zero (by decide)).trans stands.cleared, ?_, ?_⟩, keeps,
    memory⟩
  · refine stands.here.congr fun x inside => ?_
    rw [memory, Memory.byte_store _ _ _ _ _ (by decide), if_neg]
    exact fun covered => around.housed.entered.thread_code x ⟨.state, by decide, covered⟩
      (around.housed.inside x inside)
  · rw [same]
    exact (Linked.has_instruction.mp stands.placed).2

theorem Around.publishes {state : ThreadState} {fenced : Bool}
    (current : q.machine.reg thread = a.current)
    (stands : c.Stands q.machine (publishState a.cfg state fenced ++ rest)) :
    ∃ r, Goes env a.watches p (events ++ a.published state fenced) r ∧
      c.Stands r.machine rest ∧ Keeps [.t0] q.machine r.machine ∧
      a.InState state r.machine.memory ∧
      Memory.Agree (fun x => ¬a.ThreadWord .state x) q.machine.memory r.machine.memory := by
  obtain ⟨k, ⟨leads, stands⟩, keeps, memory, value⟩ :
      ∃ k, c.Comes q.machine k ((if fenced then [Op.fence .rw .w] else []) ++
          .sw .t0 thread (a.cfg.thread.offset .state) :: rest) ∧ Keeps [.t0] q.machine k ∧
        k.memory = q.machine.memory ∧ k.reg .t0 = state.code.setWidth 64 := by
    simp only [publishState, List.flatten_cons, List.flatten_nil, List.append_assoc,
      List.cons_append, List.nil_append] at stands
    obtain ⟨pc, comes⟩ := stands.constant (by decide)
    exact ⟨_, comes, ((Keeps.refl _ _).put (by decide) _).goto _, rfl,
      reg_put_self _ _ _ (by decide)⟩
  obtain ⟨q₁, goes, rfl⟩ := around.leads goes leads
  obtain ⟨q₂, goes, stands, keeps', memory'⟩ :
      ∃ r, Goes env a.watches p (events ++ if fenced then [Event.effect (.fence .rw .w)] else []) r ∧
        c.Stands r.machine (.sw .t0 thread (a.cfg.thread.offset .state) :: rest) ∧
        Keeps [] q₁.machine r.machine ∧ r.machine.memory = q₁.machine.memory := by
    cases fenced with
    | false => exact ⟨q₁, by simpa using goes, stands, .refl _ _, rfl⟩
    | true => exact around.fences goes stands
  obtain ⟨r, goes, stands, keeps'', stored⟩ := around.stores_state goes
    ((keeps'.registers _ (by decide)).trans ((keeps.registers _ (by decide)).trans current)) stands
  rw [keeps'.registers .t0 (by decide), value] at goes stored
  rw [memory', memory] at stored
  refine ⟨r, ?_, stands, (keeps.trans (keeps'.mono (by simp))).trans keeps'', ?_, ?_⟩
  · rw [published, ← List.append_assoc]
    exact goes
  · have short := state.code.isLt
    rw [InState, stored, Memory.load_store_same _ _ _ (by decide), BitVec.toNat_setWidth,
      Nat.mod_eq_of_lt (by omega), Nat.mod_eq_of_lt (by omega)]
    exact BitVec.ofNat_toNat 64 state.code
  · rw [stored]
    exact Memory.agree_store _ _ _ (by decide)

section Inward
variable {h : Linked} (native : a.native = true) (declared : a.Declared b h)
  (arrived : Handler.Arrived b.signature a.method.flags.isStatic a.localZero a.start.memory
    q.machine)
include native declared arrived

/-- What the frame keeps for the mirror of a static method. -/
def mirrorTemp (a : Invocation) (w : Contents) : Contents :=
  if a.method.flags.isStatic then { w with temp := a.method.mirror } else w

theorem At.passes_mirror {spot : Spot → Label}
    (ready : a.At c a.outgoing w (passMirror a.cfg spot ++ rest) q.machine) :
    ∃ r, Goes env a.watches p events r ∧ a.At c a.outgoing (a.mirrorTemp w) rest r.machine ∧
      (a.method.flags.isStatic = true → r.machine.reg .a1 = a.fp + slot .oopTemp) ∧
      Handler.Arrived b.signature a.method.flags.isStatic a.localZero a.start.memory r.machine ∧
      Memory.Agree (fun x => ¬a.Owns x) q.machine.memory r.machine.memory := by
  have entered := around.housed.entered
  obtain ⟨f, d, laid⟩ := a.placed entered.counted entered.aligned
  have live : ∀ x, Memory.Covers (a.fp + slot .oopTemp) 8 x → a.Live x :=
    laid.slots_live (w := w) (.oopTemp, w.temp) (by simp [slots])
  have flags : field a.cfg q.machine .accessFlags = a.method.flags.bits.setWidth 64 := by
    rw [field, ready.method]
    exact entered.reads_flags ready.framed
  have test : isStatic a.cfg q.machine ↔ a.method.flags.isStatic = true := by
    rw [isStatic, flags, ne_eq, a.method.flags.wide_none .static, Bool.not_eq_false]
    rfl
  obtain ⟨k, ⟨leads, stands⟩, keeps, passed, left⟩ := pass_mirror_runs a.cfg ready.stands (by
    rw [ready.framed.at_fp]
    exact fun x covered => around.housed.stack_free x (laid.live_owned x (live x covered)))
  rw [ready.framed.at_fp, ready.framed.reads .mirror a.method.mirror (by simp [slots])] at passed
  obtain ⟨r, goes, rfl⟩ := around.leads goes leads
  have method := (keeps.registers _ (by decide)).trans ready.method
  refine ⟨r, goes, ?_⟩
  -- Only for a static method is the mirror kept in the frame and passed on.
  rw [mirrorTemp]
  cases static : a.method.flags.isStatic with
  | true =>
      obtain ⟨argument, stored⟩ := passed (test.mpr static)
      have agree : Memory.Agree (fun x => ¬a.Live x) q.machine.memory r.machine.memory := by
        rw [stored]
        exact (Memory.agree_store _ _ _ (by decide)).mono fun x free covered =>
          free (live x covered)
      have stood := ready.framed.sets laid entered (by decide) keeps (by decide) stored
      rw [Contents.set_temp] at stood
      rw [static] at arrived
      refine ⟨⟨stands, stood, method⟩, fun _ => argument, ?_, ?_⟩
      · refine arrived.kept (static ▸ declared.short around) keeps (by decide) (by decide)
          (agree.mono fun x covered inside => ?_)
        exact laid.arguments_whole native x
          (declared.area around native ready.framed x (static ▸ covered)) inside.1
      · exact agree.mono fun x free inside => free (laid.live_owned x inside)
  | false =>
      obtain ⟨keeps', same⟩ := left fun other => by simp [test, static] at other
      have stood := ready.framed.kept laid keeps (by decide) (by rw [same]; exact .refl _ _)
        (by rw [same]; exact .refl _ _)
      rw [static] at arrived
      refine ⟨⟨stands, stood, method⟩, by simp, ?_, by rw [same]; exact .refl _ _⟩
      exact arrived.kept (static ▸ declared.short around) keeps' (by decide) (by decide)
        (by rw [same]; exact .refl _ _)

theorem At.approaches (known : q.machine.memory.load
      (a.record + a.cfg.method.offset .nativeFunction) 8 = b.function)
    (ready : a.At c a.outgoing w (approach a.cfg ++ rest) q.machine) :
    ∃ r pc, Goes env a.watches p events r ∧ a.At c a.outgoing w rest r.machine ∧ code pc ∧
      r.machine.reg .a0 = a.current + a.cfg.thread.offset .environment ∧
      r.machine.reg .a1 = q.machine.reg .a1 ∧ r.machine.reg .t1 = b.function ∧
      Handler.Arrived b.signature a.method.flags.isStatic a.localZero a.start.memory r.machine ∧
      r.machine.memory.Holds a.current (anchorWords a.cfg a.outgoing a.fp pc) := by
  have entered := around.housed.entered
  obtain ⟨f, d, laid⟩ := a.placed entered.counted entered.aligned
  have current := ready.framed.at_thread
  obtain ⟨k, pc, comes, keeps, inside, environment, function, held, agree⟩ :=
    approach_runs a.cfg ready.stands entered.words
      (by rw [current]; exact around.housed.anchor_free)
      (by
        rw [current, ready.method]
        exact fun x covered => entered.record_anchor x ⟨.nativeFunction, by decide, covered⟩)
  rw [current] at environment held agree
  rw [ready.framed.at_sp, ready.framed.at_fp] at held
  rw [field, ready.method] at function
  obtain ⟨r, goes, rfl, stood⟩ := ready.moves around goes comes keeps (by decide)
    (agree.mono entered.stack_anchor)
    (agree.mono fun x field => entered.record_anchor x ⟨_, by decide, field⟩)
  refine ⟨r, pc, goes, stood, around.housed.inside pc inside, environment,
    keeps.registers _ (by decide), function.trans known, ?_, held⟩
  refine arrived.kept (declared.short around) keeps ?_ (by decide) (agree.mono fun x covered => ?_)
  · cases a.method.flags.isStatic <;> decide
  · exact entered.stack_anchor x (laid.arguments_owned native x
      (declared.area around native ready.framed x covered))

theorem At.enters {spot : Spot → Label} (even : b.function &&& 1 = 0)
    (known : q.machine.memory.load (a.record + a.cfg.method.offset .nativeFunction) 8 = b.function)
    (ready : a.At c a.outgoing w (passMirror a.cfg spot ++ (approach a.cfg ++
      (publishState a.cfg .inNative true ++ (.callRegister .t1 :: (saveResult ++ rest))))) q.machine) :
    ∃ r, Goes env a.watches p (events ++ a.published .inNative true) r ∧
      a.Entering code b (a.mirrorTemp w) r.machine ∧ r.machine.Zeroed ∧
      c.InMemory r.machine.memory ∧ c.Has (r.machine.reg .ra) (saveResult ++ rest) := by
  have entered := around.housed.entered
  obtain ⟨f, d, laid⟩ := a.placed entered.counted entered.aligned
  obtain ⟨q₁, goes, ready, mirror, arrived, agree⟩ :=
    ready.passes_mirror around goes native declared arrived
  have known : q₁.machine.memory.load (a.record + a.cfg.method.offset .nativeFunction) 8 =
      b.function := by
    rw [← known]
    exact agree.load (by decide) fun x covered owned =>
      entered.stack_record x owned ⟨.nativeFunction, by decide, covered⟩
  obtain ⟨q₂, pc, goes, ready, within, environment, first, function, arrived, anchored⟩ :=
    ready.approaches around goes native declared arrived known
  obtain ⟨q₃, goes, stands, keeps, state, agree⟩ :=
    around.publishes goes ready.framed.at_thread ready.stands
  -- The state lies in the thread, apart from the frame, the record and the arguments.
  have framed : a.Framed a.outgoing (a.mirrorTemp w) q₃.machine := by
    refine ready.framed.kept laid keeps (by decide) (agree.mono fun x owned word => ?_)
      (agree.mono fun x field word => ?_)
    · exact entered.stack_thread x owned ⟨.state, by decide, word⟩
    · exact entered.record_thread x ⟨_, by decide, field⟩ ⟨.state, by decide, word⟩
  have arrived : Handler.Arrived b.signature a.method.flags.isStatic a.localZero a.start.memory
      q₃.machine := by
    refine arrived.kept (declared.short around) keeps ?_ (by decide)
      (agree.mono fun x covered word => ?_)
    · cases a.method.flags.isStatic <;> decide
    · exact entered.stack_thread x (laid.arguments_owned native x
        (declared.area around native ready.framed x covered)) ⟨.state, by decide, word⟩
  have anchored : q₃.machine.memory.Holds a.current (anchorWords a.cfg a.outgoing a.fp pc) := by
    refine agree.holds anchored fun v member x covered word => ?_
    exact entered.anchor_apart (by decide) (by decide) x word
      (anchor_words_inside v member x covered)
  have target : q₃.machine.reg .t1 = b.function := (keeps.registers _ (by decide)).trans function
  obtain ⟨leads, back⟩ := stands.call_register (by rw [target]; exact even)
  obtain ⟨r, goes, last⟩ := around.leads goes leads
  -- The call changes the link and nothing else.
  have keeps' : Keeps [.ra] q₃.machine r.machine := by
    rw [last]
    exact ((Keeps.refl _ _).put (by decide) _).goto _
  have same : r.machine.memory = q₃.machine.memory := by rw [last]; rfl
  have link : c.Has (r.machine.reg .ra) (saveResult ++ rest) := by
    rw [last, reg_goto, reg_put_self _ _ _ (by decide)]
    exact back
  have stood : a.Framed a.outgoing (a.mirrorTemp w) r.machine :=
    framed.kept laid keeps' (by decide) (by rw [same]; exact .refl _ _)
      (by rw [same]; exact .refl _ _)
  have others : ∀ r' ∈ [Register.a0, .a1], r.machine.reg r' = q₂.machine.reg r' := by
    intro r' member
    rw [keeps'.registers r' (by revert r'; decide), keeps.registers r' (by revert r'; decide)]
  refine ⟨r, goes, ⟨?_, ?_, ?_, ?_, stood, ⟨?_, stood.at_fp, stood.at_thread, ?_⟩, ?_, pc, within, ?_⟩,
    ?_, ?_, link⟩
  · rw [last, pc_goto, target]
  · rw [others _ (by decide), environment]
  · intro static
    rw [others _ (by decide), first, mirror static, mirrorTemp, if_pos static]
    exact ⟨rfl, rfl⟩
  · refine arrived.kept (declared.short around) keeps' ?_ (by decide) (by rw [same]; exact .refl _ _)
    cases a.method.flags.isStatic <;> decide
  · exact around.housed.inside _ (Linked.has_in_code link)
  · rw [stood.at_sp]
    exact (laid.below_outgoing native).2
  · rw [same]
    exact state
  · rw [same]
    exact anchored
  · exact (keeps'.registers .zero (by decide)).trans stands.cleared
  · rw [same]
    exact stands.here

end Inward

section Outward
variable {v g : Dword} {mem : Memory} (native : a.native = true)
include native

theorem Framed.saves_result (framed : a.Framed a.outgoing w q.machine)
    (stands : c.Stands q.machine (saveResult ++ rest)) :
    ∃ r, Goes env a.watches p events r ∧ c.Stands r.machine rest ∧
      a.Back (q.machine.reg .a0) (q.machine.freg .fa0) q.machine.memory w r.machine ∧
      Memory.Agree (fun x => ¬a.Stash x) q.machine.memory r.machine.memory := by
  have entered := around.housed.entered
  obtain ⟨f, d, laid⟩ := a.placed entered.counted entered.aligned
  obtain ⟨k, ⟨leads, stands⟩, keeps, place, saved, agree⟩ := save_result_runs stands (by
    rw [framed.at_sp]
    exact fun x covered => around.housed.stack_free x (laid.result_owned native x covered))
  rw [framed.at_sp] at place saved agree
  obtain ⟨r, goes, rfl⟩ := around.leads goes leads
  have stashed : Memory.Agree (fun x => ¬a.Stash x) q.machine.memory r.machine.memory := agree
  refine ⟨r, goes, stands, ⟨?_, saved, stashed.mono fun x free => free.1⟩, stashed⟩
  refine framed.shifts laid keeps.registers (by decide) place (agree.mono fun x whole covered => ?_)
    (agree.mono fun x field covered =>
      entered.stack_record x (laid.result_owned native x covered) ⟨_, by decide, field⟩)
  have low := laid.covers_result native covered
  rw [laid.whole] at whole
  omega

omit around goes native in
theorem java_in_code {addr : Dword} {fenced : Bool}
    (placed : c.Has addr (publishState a.cfg .inJava fenced ++ rest)) : c.InCode addr := by
  have first : Constant.instructions .t0 (ThreadState.inJava.code.setWidth 64) =
      [.immediate .addi .t0 .zero 8] := rfl
  have emits : ∀ pos, Op.emissions pos (.constant .t0 (ThreadState.inJava.code.setWidth 64)) =
      planned (.ok (Constant.instructions .t0 (ThreadState.inJava.code.setWidth 64))) := fun _ => by
    rw [Op.emissions, Constant.load_ok _ _ (by decide)]
  have placed := (Linked.has_planned emits (by simp)).mp placed
  rw [first] at placed
  exact Linked.has_in_code placed

omit native in
theorem Around.asks (current : q.machine.reg thread = a.current)
    (even : a.cfg.callees.address .checkSpecialCondition &&& 1 = 0)
    (stands : c.Stands q.machine (.mv .a0 thread ::
      (callLeaf a.cfg .checkSpecialCondition "check_special_condition" ++ rest))) :
    ∃ r, Goes env a.watches p events r ∧
      r.machine.pc = a.cfg.callees.address .checkSpecialCondition ∧
      r.machine.reg .a0 = a.current ∧ Keeps [.a0, .t0, .ra] q.machine r.machine ∧
      r.machine.memory = q.machine.memory ∧ c.Has (r.machine.reg .ra) rest := by
  obtain ⟨first, stood⟩ := stands.immediate (by simp)
  obtain ⟨link, second, placed⟩ := Linked.Stands.call_address (Linked.Stands.comment stood)
    (by decide) even
  obtain ⟨r, goes, here⟩ := around.leads goes (first.trans second)
  refine ⟨r, goes, ?_, ?_, ?_, ?_, ?_⟩
  · rw [here]
    rfl
  · rw [← current, here]
    simp (disch := decide) only [reg_goto, reg_put_ne, reg_put_self, ImmediateOp.value]
    exact BitVec.add_zero _
  · rw [here]
    exact ((((((Keeps.refl _ _).put (by decide) _).goto _).put (by decide) _).put (by decide) _).goto
      _)
  · rw [here]
    rfl
  · rw [here, reg_goto, reg_put_self _ _ _ (by decide)]
    exact placed

theorem Back.checks {l : Label} {text : String} {fenced : Bool} {call : Call}
    (back : a.Back v g mem w q.machine)
    (state : a.InState .inNativeTrans q.machine.memory)
    (same : Memory.Agree (fun x => ¬a.Stash x ∧ ¬a.ThreadWord .state x) call.after.memory
      q.machine.memory)
    (contract : env.Answers a.watches p (a.cfg.callees.address .checkSpecialCondition)
      (a.Inside code) (a.Serves code nothing))
    (even : a.cfg.callees.address .checkSpecialCondition &&& 1 = 0)
    (stands : c.Stands q.machine (.mv .a0 thread ::
      (callLeaf a.cfg .checkSpecialCondition "check_special_condition" ++
        .bind l :: .comment text :: (publishState a.cfg .inJava fenced ++ rest)))) :
    ∃ r stop, Goes env a.watches p (events ++ [Event.call stop]) r ∧
      c.Stands r.machine (publishState a.cfg .inJava fenced ++ rest) ∧
      a.Back v g stop.after.memory w r.machine ∧ a.Blocked code stop.after.memory ∧
      a.Stopping code w call stop.before := by
  have entered := around.housed.entered
  obtain ⟨f, d, laid⟩ := a.placed entered.counted entered.aligned
  obtain ⟨q₁, goes, there, argument, keeps, memory, placed⟩ :=
    around.asks goes back.framed.at_thread even stands
  have placed := Linked.has_comment.mp (Linked.has_bind.mp placed).2
  have back := back.kept laid native entered keeps (by decide) (by rw [memory]; exact .refl _ _)
  have stopping : a.Stopping code w call q₁.machine := by
    refine ⟨there, argument, back.framed, ⟨?_, back.framed.at_fp,
      back.framed.at_thread, ?_⟩, by rwa [memory], by rwa [memory]⟩
    · exact around.housed.inside _ (java_in_code placed)
    · rw [back.framed.at_sp]
      exact laid.under_result native
  obtain ⟨r, goes, serves⟩ := goes.answered contract stopping.routine stopping.inside
  have follows := serves.follows
  refine ⟨r, ⟨q₁.machine, r.machine⟩, goes, ?_, ⟨?_, ?_, .refl _ _⟩, serves.blocked, stopping⟩
  · refine ⟨follows.cleared ((keeps.registers .zero (by decide)).trans stands.cleared), ?_, ?_⟩
    · have here : c.InMemory q₁.machine.memory := by rw [memory]; exact stands.here
      exact here.congr fun x inside => follows.memory x (.inl (around.housed.inside x inside))
    · rw [follows.back]
      exact placed
  · exact back.framed.returned laid (laid.under_result native) follows (fun _ none => none.elim)
      (by simp) fun locked => back.framed.object_kept laid (laid.under_result native) follows
        (fun _ none => none.elim) locked
  · refine follows.memory.holds back.saved fun u member x covered => .inr (.inl ⟨?_, not_false⟩)
    have inside := laid.covers_result native (result_words_inside u member x covered)
    have below := laid.below
    have size := a.need_eq
    rw [back.framed.at_sp, laid.covers_stack (laid.under_result native)]
    omega

section Poll
variable {spot : Spot → Label} {text : String} (current : q.machine.reg thread = a.current)
  (even : a.cfg.callees.address .checkSpecialCondition &&& 1 = 0)
  (stands : c.Stands q.machine (poll a.cfg ++ (checkSpecial a.cfg spot ++
    (.comment text :: (publishState a.cfg .inJava true ++ rest)))))
include current even stands

omit goes native in
theorem Around.heeds : a.Heeds env (polled a.cfg a.current q.machine.memory) q := by
  obtain ⟨k, ⟨first, stands⟩, keeps, memory, reason, -⟩ := poll_runs a.cfg stands
  obtain ⟨k', ⟨second, stands⟩, keeps', memory'⟩ := check_special_runs a.cfg stands
  obtain ⟨s, goes, rfl⟩ := around.leads (.done q) (first.trans second)
  have still : s.machine.reg thread = a.current :=
    (keeps'.registers _ (by decide)).trans ((keeps.registers _ (by decide)).trans current)
  rw [current] at reason
  by_cases stop : polled a.cfg a.current q.machine.memory
  · rw [if_pos (reason.mpr stop)] at stands
    obtain ⟨r, goes, there, argument, -⟩ := around.asks goes still even stands
    exact ⟨r, .inl ⟨stop, goes, there, argument⟩⟩
  · rw [if_neg fun some => stop (reason.mp some)] at stands
    obtain ⟨r, goes, -⟩ := around.publishes goes still stands.comment
    exact ⟨r, .inr ⟨stop, goes⟩⟩

omit goes native in
/-- Another thread may write the words until they are loaded. -/
theorem Around.heeds_anew (mem : Memory)
    (same : Memory.Agree (fun x => ¬a.Request x) q.machine.memory mem) :
    a.Heeds env (polled a.cfg a.current mem)
      { q with machine := { q.machine with memory := mem } } := by
  refine around.heeds (q := ⟨{ q.machine with memory := mem }, q.steps, q.memo⟩) current even
    ⟨stands.cleared, stands.here.congr fun x inside => same x ?_, stands.placed⟩
  have apart := around.housed.entered.thread_code x
  rintro (word | word)
  · exact apart ⟨.pollingWord, by decide, word⟩ (around.housed.inside x inside)
  · exact apart ⟨.suspendFlags, by decide, word⟩ (around.housed.inside x inside)

end Poll

omit goes in
theorem Back.stops {spot : Spot → Label} {text : String} {call : Call}
    (back : a.Back v g call.after.memory w q.machine)
    (state : a.InState .inNativeTrans q.machine.memory)
    (same : Memory.Agree (fun x => ¬a.Stash x ∧ ¬a.ThreadWord .state x) call.after.memory
      q.machine.memory)
    (blocked : a.Blocked code call.after.memory)
    (contract : env.Answers a.watches q (a.cfg.callees.address .checkSpecialCondition)
      (a.Inside code) (a.Serves code nothing))
    (even : a.cfg.callees.address .checkSpecialCondition &&& 1 = 0)
    (stands : c.Stands q.machine (poll a.cfg ++ (checkSpecial a.cfg spot ++
      (.comment text :: (publishState a.cfg .inJava true ++ rest))))) :
    ∃ r, ∃ special : Option Call, a.Polls env call special q (made special) r ∧
      c.Stands r.machine (publishState a.cfg .inJava true ++ rest) ∧
      a.Back v g (special.getD call).after.memory w r.machine ∧
      a.Blocked code (special.getD call).after.memory ∧
      ∀ stop ∈ special, a.Stopping code w call stop.before := by
  have entered := around.housed.entered
  obtain ⟨f, d, laid⟩ := a.placed entered.counted entered.aligned
  have current := back.framed.at_thread
  have fresh := around.heeds_anew current even stands
  obtain ⟨k, ⟨leads, stands⟩, keeps, memory, reason, n, reached, accesses⟩ :=
    poll_runs a.cfg stands
  rw [current] at reason accesses
  obtain ⟨t, loaded, rfl⟩ := around.leads (.done q) leads
  have back := back.kept laid native entered keeps (by decide) (by rw [memory]; exact .refl _ _)
  obtain ⟨k, ⟨leads, stands⟩, keeps, unchanged⟩ := check_special_runs a.cfg stands
  obtain ⟨q₁, goes, rfl⟩ := around.leads (.done t) leads
  have back := back.kept laid native entered keeps (by decide) (by rw [unchanged]; exact .refl _ _)
  have memory := unchanged.trans memory
  by_cases stop : polled a.cfg a.current q.machine.memory
  · rw [if_pos (reason.mpr stop)] at stands
    obtain ⟨r, special, goes, stands, back, blocked, stopping⟩ := back.checks around goes native
      (by rwa [memory]) (by rwa [memory]) (contract.since loaded) even stands
    refine ⟨r, some special,
      ⟨same, by simpa using stop, ⟨t, n, loaded, reached, accesses, goes⟩, fresh⟩, stands, back,
      blocked, ?_⟩
    rintro _ ⟨⟩
    exact stopping
  · rw [if_neg fun some => stop (reason.mp some)] at stands
    exact ⟨q₁, none, ⟨same, by simpa using stop, ⟨t, n, loaded, reached, accesses, goes⟩, fresh⟩,
      stands.comment, back, blocked, unmade⟩

/-- The handles are given up and the result is taken from the stack. -/
theorem Back.restores (back : a.Back v g mem w q.machine) (blocked : a.Blocked code mem)
    (stands : c.Stands q.machine (dropHandles a.cfg ++ (restoreResult ++ rest))) :
    ∃ r, Goes env a.watches p events r ∧ c.Stands r.machine rest ∧ a.Framed a.outgoing w r.machine ∧
      r.machine.reg .a0 = v ∧ r.machine.freg .fa0 = g ∧
      Memory.Agree (fun x => ¬a.HandleTop mem x) q.machine.memory r.machine.memory := by
  have entered := around.housed.entered
  obtain ⟨f, d, laid⟩ := a.placed entered.counted entered.aligned
  have block : q.machine.memory.load (q.machine.reg thread + a.cfg.thread.offset .activeHandles) 8 =
      mem.load (a.current + a.cfg.thread.offset .activeHandles) 8 := by
    rw [back.framed.at_thread]
    exact back.memory.load (by decide)
      (entered.word_kept native (g := .activeHandles) (by decide) (by decide))
  obtain ⟨k, ⟨first, stands⟩, keeps, dropped⟩ := drop_handles_runs a.cfg stands (by
    rw [block]
    exact fun x top => around.housed.free x (blocked x top).1 fun state =>
      (blocked x top).2.2.2 ⟨.state, by decide, state⟩)
  rw [block] at dropped
  have agree : Memory.Agree (fun x => ¬a.HandleTop mem x) q.machine.memory k.memory := by
    rw [dropped]
    exact Memory.agree_store _ _ _ (by decide)
  obtain ⟨k', ⟨second, stands⟩, memory, registers, stack, result, float⟩ :=
    restore_result_runs stands
  obtain ⟨r, goes, rfl⟩ := around.leads goes (first.trans second)
  -- The handle block lies apart from the stack, so the result is still there.
  have saved : k.memory.Holds a.resultBelow (resultWords v g) :=
    agree.holds back.saved fun u member x covered top => (blocked x top).2.1
      (laid.result_owned native x (result_words_inside u member x covered))
  have place : k.reg .sp = a.resultBelow := (keeps.registers _ (by decide)).trans back.framed.at_sp
  rw [place] at stack result float
  refine ⟨r, goes, stands, ?_, ?_, ?_, by rwa [memory]⟩
  · have others : ∀ t : Register, (∀ u ∈ [Register.a0, .sp, .t0], t.code ≠ u.code) →
        r.machine.reg t = q.machine.reg t := by
      intro t apart
      simp only [List.forall_mem_cons] at apart
      rw [registers t (by simpa using ⟨apart.1, apart.2.1⟩),
        keeps.registers t (by simpa using apart.2.2.1)]
    refine back.framed.shifts laid others (by decide) ?_ ?_ ?_
    · rw [stack, resultBelow, BitVec.sub_add_cancel]
    · rw [memory]
      exact agree.mono fun x whole top => (blocked x top).2.1 (laid.whole_owned x whole)
    · rw [memory]
      exact agree.mono fun x field top => (blocked x top).2.2.1 ⟨_, by decide, field⟩
  · rw [result]
    exact saved (0, v) (by simp [resultWords])
  · rw [float]
    exact saved (Fragment.words 1, g) (by simp [resultWords])

/-- The thread is back, whatever happened meanwhile. -/
theorem Back.arrives (back : a.Back v g mem w q.machine) (blocked : a.Blocked code mem)
    (stands : c.Stands q.machine (publishState a.cfg .inJava true ++
      (clearAnchor a.cfg ++ (dropHandles a.cfg ++ (restoreResult ++ rest))))) :
    ∃ r, Goes env a.watches p (events ++ a.published .inJava true) r ∧
      c.Stands r.machine rest ∧ a.Framed a.outgoing w r.machine ∧
      r.machine.reg .a0 = v ∧ r.machine.freg .fa0 = g ∧
      a.InState .inJava r.machine.memory ∧ a.Idle r.machine.memory ∧
      Memory.Agree (fun x => ¬a.Stash x ∧ ¬a.Meanwhile x ∧ ¬a.HandleTop mem x) mem
        r.machine.memory := by
  have entered := around.housed.entered
  obtain ⟨f, d, laid⟩ := a.placed entered.counted entered.aligned
  obtain ⟨q₁, goes, stands, keeps, state, agree⟩ :=
    around.publishes goes back.framed.at_thread stands
  have back := back.kept laid native entered keeps (by decide)
    (agree.mono fun x free word => free (.inl word))
  have current := back.framed.at_thread
  obtain ⟨k, ⟨leads, stands⟩, keeps, idle, agree⟩ := clear_anchor_runs a.cfg entered.words stands
    (by rw [current]; exact around.housed.anchor_free)
  rw [current] at idle agree
  obtain ⟨q₂, goes, rfl⟩ := around.leads goes leads
  have back := back.kept laid native entered keeps (by decide)
    (agree.mono fun x free anchored => free (.inr anchored))
  have state : a.InState .inJava q₂.machine.memory :=
    (agree.load (by decide) (entered.anchor_apart (g := .state) (by decide) (by decide))).trans state
  obtain ⟨r, goes, stands, framed, result, float, agree⟩ :=
    back.restores around goes native blocked stands
  refine ⟨r, goes, stands, framed, result, float, ?_, ?_, ?_⟩
  · refine Eq.trans (agree.load (by decide) fun x word top => ?_) state
    exact (blocked x top).2.2.2 ⟨.state, by decide, word⟩
  · exact Idle.kept idle (agree.mono fun x inside top => (blocked x top).2.2.2 inside)
  · exact (back.memory.mono fun x free => ⟨free.1, free.2.1⟩).trans
      (agree.mono fun x free => free.2.2)

theorem Framed.comes_back {spot : Spot → Label} {call : Call} (here : q.machine = call.after)
    (framed : a.Framed a.outgoing w q.machine) (blocked : a.Blocked code call.after.memory)
    (contract : env.Answers a.watches p (a.cfg.callees.address .checkSpecialCondition)
      (a.Inside code) (a.Serves code nothing))
    (even : a.cfg.callees.address .checkSpecialCondition &&& 1 = 0)
    (stands : c.Stands q.machine (comeBack a.cfg spot ++ rest)) :
    ∃ s r, ∃ special : Option Call, Goes env a.watches p (events ++
        (a.published .inNativeTrans false ++ [Event.effect (.fence .rw .rw)])) s ∧
      a.Polls env call special s (made special ++ a.published .inJava true) r ∧
      c.Stands r.machine rest ∧ a.Crossed w call special r.machine ∧
      ∀ stop ∈ special, a.Stopping code w call stop.before := by
  have entered := around.housed.entered
  obtain ⟨f, d, laid⟩ := a.placed entered.counted entered.aligned
  simp only [comeBack, List.append_assoc, List.cons_append] at stands
  obtain ⟨q₁, goes, stands, back, stashed⟩ := framed.saves_result around goes native stands
  rw [here] at back stashed
  obtain ⟨q₂, goes, stands, keeps, state, agree⟩ :=
    around.publishes goes back.framed.at_thread stands.comment
  have back := back.kept laid native entered keeps (by decide)
    (agree.mono fun x free word => free (.inl word))
  have same : Memory.Agree (fun x => ¬a.Stash x ∧ ¬a.ThreadWord .state x) call.after.memory
      q₂.machine.memory :=
    (stashed.mono fun x free => free.1).trans (agree.mono fun x free => free.2)
  obtain ⟨q₃, goes, stands, keeps, memory⟩ := around.fences goes stands
  have back := back.kept laid native entered keeps (by decide) (by rw [memory]; exact .refl _ _)
  rw [← memory] at state same
  -- From here on, behind the fence, the thread looks whether it is to stop.
  obtain ⟨q₄, special, polls, stands, back, blocked, stopping⟩ :=
    back.stops around native state same blocked (contract.since goes) even stands
  obtain ⟨r, later, stands, stood, result, float, state, idle, agree⟩ :=
    back.arrives around (.done q₄) native blocked stands
  refine ⟨q₃, r, special, ?_, polls.onward later, stands,
    ⟨stood, result, float, state, idle, ?_, ?_⟩, stopping⟩
  · simpa only [List.append_assoc, FenceSet.low_rw] using goes
  · refine agree.load (by decide) fun x word => ?_
    obtain ⟨free, other⟩ :=
      entered.word_kept native (g := .pendingException) (by decide) (by decide) x word
    exact ⟨free, other, fun top =>
      (blocked x top).2.2.2 ⟨.pendingException, by decide, word⟩⟩
  · exact agree.mono fun x free =>
      ⟨free.1, fun meanwhile => free.2.1 meanwhile.in_thread, free.2.2⟩

theorem At.crosses {h : Linked} {spot : Spot → Label} (declared : a.Declared b h)
    (arrived : Handler.Arrived b.signature a.method.flags.isStatic a.localZero a.start.memory
      q.machine)
    (known : q.machine.memory.load (a.record + a.cfg.method.offset .nativeFunction) 8 = b.function)
    (contract : env.Answers a.watches p b.function (a.Inside code) (a.Serves code a.Arguments))
    (even : b.function &&& 1 = 0)
    (contract' : env.Answers a.watches p (a.cfg.callees.address .checkSpecialCondition)
      (a.Inside code) (a.Serves code nothing))
    (even' : a.cfg.callees.address .checkSpecialCondition &&& 1 = 0)
    (ready : a.At c a.outgoing w (passMirror a.cfg spot ++ (approach a.cfg ++
      (publishState a.cfg .inNative true ++ (.callRegister .t1 :: (comeBack a.cfg spot ++ rest)))))
        q.machine) :
    ∃ s r call, ∃ special : Option Call, Goes env a.watches p (events ++ a.fenced call) s ∧
      a.Polls env call special s (made special ++ a.published .inJava true) r ∧
      c.Stands r.machine rest ∧ a.Entering code b (a.mirrorTemp w) call.before ∧
      a.Crossed (a.mirrorTemp w) call special r.machine ∧
      ∀ stop ∈ special, a.Stopping code (a.mirrorTemp w) call stop.before := by
  have entered := around.housed.entered
  obtain ⟨f, d, laid⟩ := a.placed entered.counted entered.aligned
  have spared : ∀ x, a.Arguments x → ¬a.Whole x := laid.arguments_whole native
  rw [comeBack, List.append_assoc] at ready
  obtain ⟨q₁, goes, entering, cleared, here, back⟩ :=
    ready.enters around goes native declared arrived even known
  obtain ⟨q₂, goes, serves⟩ := goes.answered contract entering.routine entering.inside
  have follows := serves.follows
  have under := (laid.below_outgoing native).2
  -- The function may use its arguments, which lie below all that the frame needs.
  have framed : a.Framed a.outgoing (a.mirrorTemp w) q₂.machine := by
    refine entering.framed.returned laid under follows (fun x lent live => spared x lent live.1)
      (by simp) fun locked => entering.framed.object_kept laid under follows ?_ locked
    intro x lent monitor
    have low := (laid.covers_arguments native).mp lent
    have fixed : a.fixed = 128 := by rw [fixed, if_pos locked]; rfl
    rw [laid.monitor] at monitor
    omega
  have stands : c.Stands q₂.machine (comeBack a.cfg spot ++ rest) := by
    refine ⟨follows.cleared cleared, here.congr fun x inside =>
      follows.memory x (.inl (around.housed.inside x inside)), ?_⟩
    rw [follows.back, comeBack, List.append_assoc]
    exact back
  obtain ⟨s, r, special, goes, polls, stands, crossed, stopping⟩ := framed.comes_back around goes
    native (show q₂.machine = (⟨q₁.machine, q₂.machine⟩ : Call).after from rfl) serves.blocked
    contract' even' stands
  refine ⟨s, r, ⟨q₁.machine, q₂.machine⟩, special, ?_, polls, stands, entering, crossed, stopping⟩
  simpa only [fenced, List.append_assoc, List.cons_append, List.nil_append] using goes

omit around goes native in
theorem finish_runs {e : Extensions} {t : BasicType} {prog : Program} (even : c.Even)
    (stands : c.Stands m (finish ++ rest))
    (handler : m.memory.load (m.reg .fp + slot .resultHandler) 8 = v) (aligned : v &&& 1 = 0)
    (converts : c.Has v (Exit.resultHandler e t))
    (there : c.Has (c.target (Routine.removeActivation.label .start)) prog) :
    ∃ k, c.Comes m k prog ∧ Keeps [.t0, .ra, .a0] m k ∧ k.memory = m.memory ∧
      k.reg .a0 = Exit.converted m.memory (m.reg .a0) t := by
  obtain ⟨k, ⟨first, stands⟩, keeps, memory, loaded⟩ :
      ∃ k, c.Comes m k (.callRegister .t0 :: .j (Routine.removeActivation.label .start) :: rest) ∧
        Keeps [.t0] m k ∧ k.memory = m.memory ∧ k.reg .t0 = v := by
    refine ⟨_, Linked.Stands.load stands, ((Keeps.refl _ m).put (by decide) _).goto _, rfl, ?_⟩
    rw [reg_goto, reg_put_self _ _ _ (by decide), ← handler]
    rfl
  obtain ⟨second, back⟩ := stands.call_register (by rw [loaded]; exact aligned)
  obtain ⟨k₁, leads, here, keeps₁, same, link⟩ :
      ∃ k₁, c.Leads m k₁ ∧ k₁.pc = v ∧ Keeps [.ra] k k₁ ∧ k₁.memory = k.memory ∧
        c.Has (k₁.reg .ra) (.j (Routine.removeActivation.label .start) :: rest) := by
    refine ⟨_, first.trans second, loaded, ((Keeps.refl _ _).put (by decide) _).goto _, rfl, ?_⟩
    rw [reg_goto, reg_put_self _ _ _ (by decide)]
    exact back
  have stood : c.Stands k₁ (Exit.resultHandler e t ++ []) := by
    refine ⟨(keeps₁.registers .zero (by decide)).trans stands.cleared, by rw [same]; exact stands.here,
      ?_⟩
    rw [here, List.append_nil]
    exact converts
  obtain ⟨k₂, third, there₂, keeps₂, same₂, result⟩ :=
    Exit.result_handler_runs e t stood (even _ _ (Linked.has_jump.mp link).1)
  have stands₂ : c.Stands k₂ (.j (Routine.removeActivation.label .start) :: rest) := by
    refine ⟨(keeps₂.registers .zero (by decide)).trans stood.cleared, ?_, by rw [there₂]; exact link⟩
    rw [same₂]
    exact stood.here
  obtain ⟨fourth, last⟩ := stands₂.jump there
  refine ⟨_, ⟨(leads.trans third).trans fourth, last⟩, ?_, same₂.trans (same.trans memory), ?_⟩
  · exact ((keeps.mono (by decide)).trans ((keeps₁.mono (by decide)).trans
      (keeps₂.mono (by decide)))).goto _
  · rw [reg_goto, result, same, memory, keeps₁.registers .a0 (by decide),
      keeps.registers .a0 (by decide)]

omit native in
theorem Framed.finishes {e : Extensions} {l : Label} (shared : a.Shared c) (even : c.Even)
    (converts : c.Has b.result (Exit.resultHandler e b.signature.result))
    (aligned : b.result &&& 1 = 0) (handler : w.result = b.result)
    (framed : a.Framed a.outgoing w q.machine)
    (stands : c.Stands q.machine (checkPending a.cfg l ++ (finish ++ rest))) :
    ∃ r, Goes env a.watches p events r ∧ a.Leaving a.outgoing w.object r.machine ∧
      c.Stands r.machine (if pending a.cfg a.current q.machine.memory = 0
        then Exit.removeActivation a.cfg else away) ∧
      r.machine.memory = q.machine.memory ∧ r.machine.freg .fa0 = q.machine.freg .fa0 ∧
      (pending a.cfg a.current q.machine.memory = 0 → r.machine.reg .a0 =
        Exit.converted q.machine.memory (q.machine.reg .a0) b.signature.result) := by
  have entered := around.housed.entered
  obtain ⟨f, d, laid⟩ := a.placed entered.counted entered.aligned
  obtain ⟨k, ⟨first, stands⟩, keeps, memory⟩ := check_pending_runs a.cfg stands around.there
  rw [framed.at_thread] at stands
  have leaving := framed.leaving.kept keeps (by decide) memory
  have float : k.freg .fa0 = q.machine.freg .fa0 := by
    rw [freg, keeps.floats]
    rfl
  by_cases calm : pending a.cfg a.current q.machine.memory = 0
  swap
  · rw [if_neg calm] at stands
    obtain ⟨r, goes, rfl⟩ := around.leads goes first
    rw [if_neg calm]
    exact ⟨r, goes, leaving, stands, memory, float, fun none => (calm none).elim⟩
  rw [if_pos calm] at stands
  obtain ⟨k', ⟨second, stands⟩, keeps', memory', result⟩ := finish_runs even stands (by
    rw [memory, leaving.fp]
    exact (framed.reads .resultHandler w.result (by simp [slots])).trans handler) aligned converts
    shared.removal
  obtain ⟨r, goes, rfl⟩ := around.leads goes (first.trans second)
  rw [if_pos calm]
  refine ⟨r, goes, leaving.kept keeps' (by decide) memory', stands, memory'.trans memory, ?_,
    fun _ => ?_⟩
  · rw [freg, keeps'.floats]
    exact float
  · rw [result, memory, keeps.registers .a0 (by decide)]

end Outward

end Runs

end Invocation

end EntryCode
