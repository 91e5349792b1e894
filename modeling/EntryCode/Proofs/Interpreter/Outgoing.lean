import EntryCode.Proofs.Interpreter.Activation
import EntryCode.Proofs.Interpreter.Passage
import EntryCode.Proofs.Native.Delivery

/-!
How the arguments of a native function come to their places. The function and the handler of its
signature are found first, if they are not known; the handler then works below the frame, in an
area that is large enough for every list of arguments.
-/

namespace EntryCode.Handler

open Pinned Machine

/-- Whether an argument is in its place in `k`, where local zero is at `base` in `mem`. -/
def Argument.Arrives (x : Argument) (base : Dword) (mem : Memory) (k : Machine) : Prop :=
  let addr := base + x.offset
  let w := mem.load addr Frame.wordSize
  match x.location with
  | .integer r => k.reg r = carried w addr x.type
  | .float f => k.freg f = boxed w x.type
  | .stack off => k.memory.load (k.reg .sp + off) Frame.wordSize = carried w addr x.type

def Arrived (sig : Signature) (static : Bool) (base : Dword) (mem : Memory) (k : Machine) : Prop :=
  ∀ i t, (argumentTypes sig static)[i]? = some t → (argument sig static i t).Arrives base mem k

variable {sig : Signature} {static : Bool} {base rh : Dword} {mem other : Memory} {m k : Machine}

theorem Passed.arrived (passed : Passed sig static rh m k) :
    Arrived sig static (m.reg locals) m.memory k := by
  intro i t found
  have delivered := passed.delivered i t found
  rw [Argument.Delivered] at delivered
  rw [Argument.Arrives, passed.registers .sp (by decide)]
  exact delivered

/-- Only the locals of the arguments matter. -/
theorem Arrived.since (arrived : Arrived sig static base mem k)
    (values : ∀ t ∈ sig.params, t ≠ .void)
    (same : ∀ i < ((argumentTypes sig static).map BasicType.slots).sum,
      other.load (base - BitVec.ofNat 64 (i * Frame.wordSize)) Frame.wordSize =
        mem.load (base - BitVec.ofNat 64 (i * Frame.wordSize)) Frame.wordSize) :
    Arrived sig static base other k := by
  intro i t found
  have arrives := arrived i t found
  obtain ⟨n, low, offset⟩ := arguments_local 0 _ _ (types_values values) _
    (argument_mem i t found)
  have word := same n (by omega)
  rw [BitVec.sub_eq_add_neg, ← offset] at word
  rw [Argument.Arrives, word]
  exact arrives

/-- Arguments stay in their places as long as these are left alone. -/
theorem Arrived.kept {rs : List Register} (arrived : Arrived sig static base mem m)
    (short : outgoing sig static ≤ 2 ^ 64) (keeps : Keeps rs m k)
    (free : ∀ n < 8, reserved static ≤ n →
      ∀ s ∈ rs, (⟨BitVec.ofNat 8 (10 + n)⟩ : Register).code ≠ s.code)
    (stack : ∀ s ∈ rs, Register.sp.code ≠ s.code)
    (area : Memory.Agree (Memory.Covers (m.reg .sp) (outgoing sig static)) m.memory k.memory) :
    Arrived sig static base mem k := by
  intro i t found
  have member := argument_mem i t found
  have counts := arguments_from 0 (reserved static) 0 _ (by omega) _ member
  have arrives := arrived i t found
  rw [Argument.Arrives] at arrives ⊢
  cases place : (argument sig static i t).location with
  | integer r =>
      rw [place] at counts
      simp only [place] at arrives ⊢
      obtain ⟨n, low, high, rfl⟩ := counts
      exact (keeps.registers _ (free n high low)).trans arrives
  | float f =>
      simp only [place] at arrives ⊢
      rw [freg, keeps.floats]
      exact arrives
  | stack off =>
      simp only [place] at arrives ⊢
      rw [keeps.registers .sp stack, area.load (by decide), arrives]
      exact fun x inside => stack_inside short member place inside

end EntryCode.Handler

namespace EntryCode

open EntryCode.Frame Pinned Fragment Machine

namespace Invocation

section Area
variable (a : Invocation)

/-- The stack pointer while a native function is called. -/
def outgoing : Dword := argumentsBelow a.top a.method.parameterSlots

/-- The stack between the arguments of a native function and the frame. -/
def Arguments (x : Dword) : Prop :=
  Memory.Covers a.outgoing (a.top - a.outgoing).toNat x

/-- The stack from the monitor on, or from the fixed part on where there is no monitor. -/
def Whole (x : Dword) : Prop :=
  Memory.Covers a.top (a.stackEnd - a.top).toNat x

variable {a} {f s : Nat} (laid : a.Placed f s) (native : a.native = true) {x sp : Dword}
include laid

theorem Placed.whole : a.Whole x ↔ f - a.fixed ≤ (x - a.floor).toNat ∧
    (x - a.floor).toNat < a.need + 8 * a.parameters := by
  have below := laid.below
  have size := a.need_eq
  rw [Whole, laid.top_at, laid.covers_above (by omega)]

theorem Placed.object_whole (locked : a.synchronized = true)
    (covered : Memory.Covers a.objectAddress 8 x) : a.Whole x := by
  have fixed : a.fixed = 128 := by rw [fixed, if_pos locked]; rfl
  have close := laid.below
  have size := a.need_eq
  rw [laid.object_covers] at covered
  rw [laid.whole]
  omega

theorem Placed.whole_owned (x : Dword) (whole : a.Whole x) : a.Owns x :=
  (laid.whole.mp whole).2

include native

theorem Placed.outgoing_at : ∃ n, a.outgoing = a.floor + BitVec.ofNat 64 n ∧ 40 ≤ n ∧
    n + 8 * (a.parameters + 2) ≤ f - a.fixed := by
  have close := laid.close
  have most := a.fixed_le
  have spare : a.reserve = 32 + 8 * (a.parameters + 3) := by rw [reserve, native]; rfl
  have few : a.parameters < 2 ^ 32 := by
    have small := laid.small
    omega
  have total : (a.method.parameterSlots + 2).toNat = a.parameters + 2 := by
    have few : a.method.parameterSlots.toNat < 2 ^ 32 := few
    rw [BitVec.toNat_add, show (2 : Dword).toNat = 2 from rfl, Nat.mod_eq_of_lt (by omega)]
    rfl
  have place : a.top - (a.method.parameterSlots + 2) <<< 3 =
      a.floor + BitVec.ofNat 64 (f - a.fixed - 8 * (a.parameters + 2)) := by
    rw [shift_words, total, wordSize, laid.top_at, sub_at (by omega)]
  have words : (a.top - (a.method.parameterSlots + 2) <<< 3).toNat % wordSize = 0 := by
    have whole : a.fp.toNat % stackAlignment = 0 := align_down_aligned a.lastLocal
    have whole : a.fp.toNat % wordSize = 0 := by
      simp only [stackAlignment, wordSize] at whole ⊢
      omega
    rw [shift_words, a.top_eq, a.fixed_words]
    exact words_sub (words_sub whole _) _
  obtain ⟨n, found, below, near⟩ := align_down_at place words (by simp only [wordSize]; omega)
  simp only [wordSize] at near
  exact ⟨n, found, by omega, by omega⟩

theorem Placed.outgoing_distance : ∃ n, (a.outgoing - a.floor).toNat = n ∧ 40 ≤ n ∧
    n + 8 * (a.parameters + 2) ≤ f - a.fixed := by
  obtain ⟨n, place, least, most⟩ := laid.outgoing_at native
  have bounded := laid.bounded
  have zero : a.floor = a.floor + BitVec.ofNat 64 0 := (BitVec.add_zero _).symm
  refine ⟨n, ?_, least, most⟩
  rw [place]
  nth_rewrite 2 [zero]
  exact distance (by omega) (by omega)

theorem Placed.below_outgoing : a.Below a.outgoing := by
  obtain ⟨n, height, least, most⟩ := laid.outgoing_distance native
  rw [Below, Under, height, laid.top_distance, stackAlignment]
  omega

theorem Placed.covers_arguments : a.Arguments x ↔
    (a.outgoing - a.floor).toNat ≤ (x - a.floor).toNat ∧ (x - a.floor).toNat < f - a.fixed := by
  obtain ⟨n, place, least, most⟩ := laid.outgoing_at native
  have bounded := laid.bounded
  have zero : a.floor = a.floor + BitVec.ofNat 64 0 := (BitVec.add_zero _).symm
  have height : (a.outgoing - a.floor).toNat = n := by
    rw [place]
    nth_rewrite 2 [zero]
    exact distance (by omega) (by omega)
  rw [Arguments, height, laid.top_at, place, distance (by omega) (by omega),
    Memory.covers_at (by omega)]
  omega

/-- The arguments take no more than the area below the frame. -/
theorem Placed.outgoing_fits : 8 * (a.parameters + 2) ≤ (a.top - a.outgoing).toNat := by
  obtain ⟨n, place, -, most⟩ := laid.outgoing_at native
  have bounded := laid.bounded
  rw [laid.top_at, place, distance (by omega) (by omega)]
  omega

theorem Placed.arguments_owned (x : Dword) (inside : a.Arguments x) : a.Owns x := by
  have below := laid.below
  have size := a.need_eq
  have inside := (laid.covers_arguments native).mp inside
  rw [Owns, Memory.Covers, wordSize]
  omega

theorem Placed.arguments_whole (x : Dword) (inside : a.Arguments x) : ¬a.Whole x := by
  have inside := (laid.covers_arguments native).mp inside
  rw [laid.whole]
  omega

theorem Placed.arguments_local (x : Dword) (inside : a.Arguments x) {i : Nat}
    (few : i < a.parameters) :
    ¬Memory.Covers (a.localZero - BitVec.ofNat 64 (i * wordSize)) wordSize x := by
  have inside := (laid.covers_arguments native).mp inside
  have below := laid.below
  have size := a.need_eq
  intro covered
  rw [Nat.mul_comm] at covered
  have covered := (laid.covers_local (by omega)).mp covered
  omega

end Area

/-- A native function, and the handler that places its arguments and returns the address of the
result handler. -/
structure Binding where
  signature : Signature
  function : Dword
  handler : Dword
  code : Bytes
  result : Dword

section Contracts
variable (a : Invocation) (b : Binding)

def Binding.Covers (x : Dword) : Prop :=
  Memory.Covers b.handler b.code.length x

/-- The method record names the function and the handler, which is in memory. -/
structure Bound (mem : Memory) : Prop where
  function : mem.load (a.record + a.cfg.method.offset .nativeFunction) 8 = b.function
  handler : mem.load (a.record + a.cfg.method.offset .signatureHandler) 8 = b.handler
  loaded : mem.read b.handler b.code.length = b.code

/-- The routine that finds a native function enters it in the method record, unless it throws. -/
structure Prepares (kept : Dword → Prop) (m k : Machine) : Prop where
  follows : a.Follows kept nothing [.accessFlags] m k
  bound : pending a.cfg a.current k.memory = 0 → a.Bound b k.memory

/-- The method has the signature of the function, and the handler is the one for it. -/
structure Declared (h : Linked) : Prop where
  values : ∀ t ∈ b.signature.params, t ≠ .void
  slots : ((Handler.argumentTypes b.signature a.method.flags.isStatic).map BasicType.slots).sum =
    a.parameters
  even : b.handler &&& 1 = 0
  watched : h.watched = a.watches
  inside : ∀ x, h.InCode x → b.Covers x
  loaded : ∀ mem : Memory, mem.read b.handler b.code.length = b.code → h.InMemory mem
  placed : h.Has b.handler (Handler.body (Handler.arguments 0
    (Handler.counted (Handler.reserved a.method.flags.isStatic) 0)
      (Handler.argumentTypes b.signature a.method.flags.isStatic)) b.result)

/-- The addresses that a handler must not store to. -/
def strays (x : Dword) : Bool :=
  ¬Memory.Covers a.outgoing (a.top - a.outgoing).toNat x

/-- From `s` to `t` the handler places the arguments. It stores to the stack below the frame
only. -/
structure Marshals {σ : Type} (env : Environment σ) (w : Contents) (s t : Progress σ) : Prop where
  called : s.machine.pc = b.handler
  framed : a.Framed a.outgoing w s.machine
  goes : Goes env a.strays s [] t
  passed : Handler.Passed b.signature a.method.flags.isStatic b.result s.machine t.machine
  memory : Memory.Agree (fun x => ¬a.Arguments x) s.machine.memory t.machine.memory

end Contracts

variable {a : Invocation} {b : Binding} {code : Dword → Prop} {c h : Linked} {f s : Nat}
  {sp : Dword} {w : Contents} {m k : Machine}

theorem Declared.fits (declared : a.Declared b h) :
    Handler.outgoing b.signature a.method.flags.isStatic ≤ 8 * a.parameters := by
  have slots := declared.slots
  have each : ∀ ts : List BasicType, (∀ t ∈ ts, t ≠ .void) →
      ts.length ≤ (ts.map BasicType.slots).sum := by
    intro ts values
    induction ts with
    | nil => exact le_rfl
    | cons t rest ih =>
        rw [List.forall_mem_cons] at values
        have some : 1 ≤ t.slots := by
          have first := values.1
          cases t <;> simp_all [BasicType.slots]
        have later := ih values.2
        rw [List.length_cons, List.map_cons, List.sum_cons]
        omega
  have values : ∀ t ∈ Handler.argumentTypes b.signature a.method.flags.isStatic, t ≠ .void :=
    Handler.types_values declared.values
  have many := each _ values
  have first : Handler.reserved a.method.flags.isStatic ≤ 2 := by
    rw [Handler.reserved]
    split <;> omega
  rw [Handler.outgoing, Handler.taken, wordSize]
  omega

/-- The frame stands with another stack pointer, as long as nothing of it changes. -/
theorem Framed.shifts (laid : a.Placed f s) {rs : List Register} {sp' : Dword}
    (framed : a.Framed sp w m) (keeps : ∀ r : Register, (∀ t ∈ rs, r.code ≠ t.code) →
      k.reg r = m.reg r)
    (apart : ∀ r ∈ [Register.fp, thread, locals, stack, senderSp, Pinned.bytecode],
      ∀ t ∈ rs, r.code ≠ t.code)
    (moved : k.reg .sp = sp') (whole : Memory.Agree a.Whole m.memory k.memory)
    (flags : Memory.Agree (a.Field .accessFlags) m.memory k.memory) : a.Framed sp' w k := by
  refine framed.congr laid ?_ (whole.mono fun x live => ?_) flags fun locked => ?_
  · have same : ∀ r ∈ [Register.fp, thread, locals, stack, senderSp, Pinned.bytecode],
        k.reg r = m.reg r := fun r member => keeps r (apart r member)
    have was := framed.registers
    simp only [Invocation.registers, List.forall_mem_cons] at was ⊢
    obtain ⟨one, -, three, four, five, six, seven, -⟩ := was
    exact ⟨(same _ (by decide)).trans one, moved, (same _ (by decide)).trans three,
      (same _ (by decide)).trans four, (same _ (by decide)).trans five,
      (same _ (by decide)).trans six, (same _ (by decide)).trans seven, List.forall_mem_nil _⟩
  · exact live.1
  · rw [whole.load (by decide) fun x covered => laid.object_whole locked covered,
      framed.object locked]

/-- What is bound stays bound as long as the handler and the record say so. -/
theorem Bound.kept {mem other : Memory} (bound : a.Bound b mem)
    (agree : Memory.Agree (fun x => b.Covers x ∨ a.Field .nativeFunction x ∨
      a.Field .signatureHandler x) mem other) : a.Bound b other := by
  refine ⟨?_, ?_, ?_⟩
  · exact (agree.load (by decide) fun x covered => .inr (.inl covered)).trans bound.function
  · exact (agree.load (by decide) fun x covered => .inr (.inr covered)).trans bound.handler
  · refine (Memory.read_congr _ _ fun k inside => agree _ (.inl ?_)).trans bound.loaded
    rw [Binding.Covers, Memory.Covers, BitVec.add_comm, BitVec.add_sub_cancel, BitVec.toNat_ofNat]
    exact Nat.lt_of_le_of_lt (Nat.mod_le _ _) inside

/-- Less may count as code, as long as the code itself does. -/
theorem Entered.lessen {kept : Dword → Prop} (entered : a.Entered code)
    (part : ∀ x, kept x → code x) : a.Entered kept where
  toRecorded := entered.toRecorded
  counting := entered.counting
  words := entered.words
  stack_code x owned within := entered.stack_code x owned (part x within)
  record_code x inside within := entered.record_code x inside (part x within)
  thread_code x inside within := entered.thread_code x inside (part x within)
  stack_record := entered.stack_record
  stack_thread := entered.stack_thread
  record_thread := entered.record_thread

section Runs
variable {σ : Type} {env : Environment σ} {p q : Progress σ} {events : List Event}
  {rest away : Program} {kept : Dword → Prop}

theorem Around.lessen (around : a.Around code c env away) (part : ∀ x, kept x → code x)
    (inside : ∀ x, c.InCode x → kept x) : a.Around kept c env away :=
  ⟨⟨around.housed.entered.lessen part, inside, around.housed.watched⟩, around.quiet, around.there⟩

variable (around : a.Around code c env away) (goes : Goes env a.watches p events q)
  (native : a.native = true)
include around goes native

theorem At.makes_room (ready : a.At c sp w (outgoingArea a.cfg ++ rest) q.machine)
    (steady : Memory.Agree (a.Steady code) a.start.memory q.machine.memory) :
    ∃ r, Goes env a.watches p events r ∧ a.At c a.outgoing w rest r.machine ∧
      r.machine.memory = q.machine.memory := by
  have entered := around.housed.entered
  obtain ⟨f, s, laid⟩ := a.placed entered.counted entered.aligned
  have fixed : .parameterSlots ∈ a.fixedFields := by rw [fixedFields, native]; decide
  have slots : field a.cfg q.machine .parameterSlots = a.method.parameterSlots :=
    entered.reads ready.method (.parameterSlots, _)
      (steady.mono fun x field => .inr ⟨_, fixed, field⟩) (by simp [MethodField.contents])
  obtain ⟨k, ⟨leads, stands⟩, keeps, memory, place⟩ := outgoing_area_runs a.cfg ready.stands
  rw [slots, ready.framed.at_stack] at place
  obtain ⟨r, goes, rfl⟩ := around.leads goes leads
  refine ⟨r, goes, ⟨stands, ?_, (keeps.registers _ (by decide)).trans ready.method⟩, memory⟩
  exact ready.framed.shifts laid keeps.registers (by decide) place (by rw [memory]; exact .refl _ _)
    (by rw [memory]; exact .refl _ _)

/-- The function is found, if it is not known. -/
theorem At.resolves {spot : Spot → Label}
    (contract : env.Answers a.watches p (a.cfg.callees.address .prepareNativeCall) (a.Inside kept)
      (a.Prepares b kept))
    (even : a.cfg.callees.address .prepareNativeCall &&& 1 = 0)
    (part : ∀ x, kept x → code x) (inside : ∀ x, c.InCode x → kept x)
    (handler : ∀ x, b.Covers x → code x)
    (known : a.method.signatureHandler ≠ 0 → a.method.nativeFunction ≠ 0 →
      a.Bound b a.start.memory)
    (ready : a.At c a.outgoing w (resolve a.cfg spot ++ rest) q.machine)
    (steady : Memory.Agree (a.Steady code) a.start.memory q.machine.memory) :
    ∃ r, ∃ called : Option Call, Goes env a.watches p (events ++ made called) r ∧
      a.At c a.outgoing w (if a.thrown called = 0 then rest else away) r.machine ∧
      (called = none ↔ a.method.signatureHandler ≠ 0 ∧ a.method.nativeFunction ≠ 0) ∧
      (∀ call ∈ called, a.Made kept .prepareNativeCall a.outgoing w call ∧
        call.before.reg .a1 = a.record ∧ a.Idle r.machine.memory ∧
        a.thrown (some call) = pending a.cfg a.current r.machine.memory) ∧
      (a.thrown called = 0 → a.Bound b r.machine.memory) := by
  have entered := around.housed.entered
  obtain ⟨f, s, laid⟩ := a.placed entered.counted entered.aligned
  have fixed : ∀ g ∈ [MethodField.signatureHandler, .nativeFunction], g ∈ a.fixedFields := by
    rw [fixedFields, native]
    decide
  have held : ∀ g ∈ [MethodField.signatureHandler, .nativeFunction],
      Memory.Agree (a.Field g) a.start.memory q.machine.memory :=
    fun g member => steady.mono fun x field => .inr ⟨g, fixed g member, field⟩
  have first : field a.cfg q.machine .signatureHandler = a.method.signatureHandler :=
    entered.reads ready.method (.signatureHandler, _) (held .signatureHandler (by decide))
      (by simp [MethodField.contents])
  have second : field a.cfg q.machine .nativeFunction = a.method.nativeFunction :=
    entered.reads ready.method (.nativeFunction, _) (held .nativeFunction (by decide))
      (by simp [MethodField.contents])
  have meaning : resolved a.cfg q.machine ↔
      a.method.signatureHandler ≠ 0 ∧ a.method.nativeFunction ≠ 0 := by
    rw [resolved, first, second]
  obtain ⟨k, comes, keeps, memory⟩ := resolve_runs a.cfg ready.stands
  obtain ⟨r, goes, rfl, ready⟩ := ready.moves around goes comes keeps (by decide)
    (by rw [memory]; exact .refl _ _) (by rw [memory]; exact .refl _ _)
  split at ready
  · next found =>
      -- Both addresses are there, and what was bound at first still is.
      refine ⟨r, none, by simpa [made] using goes, ready, by simpa using meaning.mp found, unmade,
        fun _ => ?_⟩
      rw [memory]
      refine (known (meaning.mp found).1 (meaning.mp found).2).kept ?_
      refine steady.mono fun x within => ?_
      rcases within with within | field | field
      · exact .inl (handler x within)
      · exact .inr ⟨_, fixed _ (by decide), field⟩
      · exact .inr ⟨_, fixed _ (by decide), field⟩
  · next unknown =>
      have method := ready.method
      obtain ⟨r₁, goes, same, ready⟩ := ready.moves around goes
        (Linked.Stands.immediate ready.stands (by simp))
        (((Keeps.refl [.a1] _).put (r := .a1) (by decide) _).goto _) (by decide) (.refl _ _)
        (.refl _ _)
      have argument : r₁.machine.reg .a1 = a.record := by
        rw [same, reg_goto, reg_put_self _ _ _ (by decide), method]
        exact BitVec.add_zero _
      obtain ⟨r₂, call, goes, made', called, prepares, stood⟩ :=
        ready.framed.calls (around.lessen part inside) contract (fun _ _ rel => rel.follows) even
          goes (laid.below_outgoing native).2 ready.stands (fun _ none => none.elim) (by simp)
      have ready := stood w.object fun locked => made'.framed.object_kept laid
        (laid.below_outgoing native).2 prepares.follows (fun _ none => none.elim) locked
      -- Nothing is stored after the return, so these hold wherever control is by then.
      have facts : ∀ {k : Machine}, k.memory = r₂.machine.memory →
          (∀ v ∈ some call, a.Made kept .prepareNativeCall a.outgoing w v ∧
            v.before.reg .a1 = a.record ∧ a.Idle k.memory ∧
            a.thrown (some v) = pending a.cfg a.current k.memory) ∧
          (a.thrown (some call) = 0 → a.Bound b k.memory) := by
        intro k memory
        rw [memory]
        refine ⟨?_, fun calm => ?_⟩
        · rintro _ ⟨⟩
          exact ⟨made', called.argument.trans argument, called.idle, (called.pending entered).symm⟩
        · refine (prepares.bound calm).kept (called.after.mono fun x within => ?_)
          rcases within with within | field | field
          · exact fun anchored => entered.thread_code x (.of_anchor anchored) (handler x within)
          · exact entered.record_anchor x ⟨_, by decide, field⟩
          · exact entered.record_anchor x ⟨_, by decide, field⟩
      have unresolved : (some call = none ↔
          a.method.signatureHandler ≠ 0 ∧ a.method.nativeFunction ≠ 0) :=
        ⟨by simp, fun known => (unknown (meaning.mpr known)).elim⟩
      by_cases calm : a.thrown (some call) = 0
      · rw [if_pos calm] at ready
        obtain ⟨r₃, goes, same, ready⟩ := ready.moves around goes
          ⟨.refl _, ready.stands.bind.2⟩ (.refl [] _) (by decide) (.refl _ _) (.refl _ _)
        obtain ⟨calls, bound⟩ := facts (congrArg Machine.memory same)
        exact ⟨r₃, some call, goes, by rwa [if_pos calm], unresolved, calls, bound⟩
      · rw [if_neg calm] at ready
        obtain ⟨calls, bound⟩ := facts (k := r₂.machine) rfl
        exact ⟨r₂, some call, goes, by rwa [if_neg calm], unresolved, calls, bound⟩

section Handlers
variable (declared : a.Declared b h) (handler : ∀ x, b.Covers x → code x)
include declared

omit goes in
theorem Declared.area (framed : a.Framed a.outgoing w m) (x : Dword)
    (covered : Memory.Covers (m.reg .sp)
      (Handler.outgoing b.signature a.method.flags.isStatic) x) : a.Arguments x := by
  obtain ⟨f, t, laid⟩ := a.placed around.housed.entered.counted around.housed.entered.aligned
  have fits := declared.fits
  have room := laid.outgoing_fits native
  rw [framed.at_sp, Memory.Covers] at covered
  rw [Arguments, Memory.Covers]
  omega

omit goes native in
theorem Declared.short : Handler.outgoing b.signature a.method.flags.isStatic ≤ 2 ^ 64 := by
  obtain ⟨f, t, laid⟩ := a.placed around.housed.entered.counted around.housed.entered.aligned
  have small := laid.small
  exact declared.fits.trans (by omega)

include handler

omit goes in
theorem Declared.passes {s : Progress σ} (handled : h.Quiet env) (cleared : s.machine.Zeroed)
    (bound : a.Bound b s.machine.memory) (framed : a.Framed a.outgoing w s.machine)
    (called : s.machine.pc = b.handler) (even : s.machine.reg .ra &&& 1 = 0) :
    ∃ t, a.Marshals b env w s t := by
  have entered := around.housed.entered
  obtain ⟨f, t, laid⟩ := a.placed entered.counted entered.aligned
  have area := fun x => declared.area around native framed x
  -- Everything but the area is watched while the handler runs.
  have stands : (h.watching a.strays).Stands s.machine (Handler.body (Handler.arguments 0
      (Handler.counted (Handler.reserved a.method.flags.isStatic) 0)
        (Handler.argumentTypes b.signature a.method.flags.isStatic)) b.result) := by
    refine ⟨cleared, declared.loaded _ bound.loaded, ?_⟩
    rw [called]
    exact Linked.has_watching _ declared.placed
  obtain ⟨k, leads, passed⟩ := Handler.body_delivers b.result declared.values even
    (declared.short around) stands (by
      rintro x covered (inside | stray)
      · exact entered.stack_code x (laid.arguments_owned native x (area x covered))
          (handler x (declared.inside x inside))
      · exact (of_decide_eq_true stray) (area x covered)) (by
      intro i few x covered
      rw [framed.at_locals]
      exact laid.arguments_local native x (area x covered) (declared.slots ▸ few))
  obtain ⟨t, goes, rfl⟩ :=
    (Goes.done s).leads (c := h.watching a.strays) handled (fun _ seen => seen) leads
  exact ⟨t, called, framed, goes, passed, fun x free => passed.memory x fun covered =>
    free (area x covered)⟩

/-- The handler of the signature is called, and what it returns is kept. -/
theorem At.marshals (handled : h.Quiet env) (even : c.Even)
    (bound : a.Bound b q.machine.memory)
    (ready : a.At c a.outgoing w (callHandler a.cfg ++ (keepHandler ++ rest)) q.machine) :
    ∃ s t r, Goes env a.watches p events s ∧ a.Marshals b env w s t ∧
      Goes env a.watches t [] r ∧ a.At c a.outgoing { w with result := b.result } rest r.machine ∧
      Handler.Arrived b.signature a.method.flags.isStatic a.localZero a.start.memory r.machine ∧
      Memory.Agree (fun x => ¬a.Owns x) q.machine.memory r.machine.memory := by
  have entered := around.housed.entered
  obtain ⟨f, d, laid⟩ := a.placed entered.counted entered.aligned
  have place : field a.cfg q.machine .signatureHandler = b.handler := by
    rw [field, ready.method]
    exact bound.handler
  obtain ⟨k, leads, called, keeps, memory, back⟩ := call_handler_runs a.cfg ready.stands (by
    rw [place]
    exact declared.even)
  rw [place] at called
  obtain ⟨s, goes, rfl⟩ := around.leads goes leads
  have framed : a.Framed a.outgoing w s.machine :=
    ready.framed.shifts laid keeps.registers (by decide)
      ((keeps.registers _ (by decide)).trans ready.framed.at_sp)
      (by rw [memory]; exact .refl _ _) (by rw [memory]; exact .refl _ _)
  obtain ⟨t, marshals⟩ := declared.passes around native handler handled
    ((keeps.registers .zero (by decide)).trans ready.stands.cleared) (by rwa [memory]) framed
    called (even.has back)
  have passed := marshals.passed
  have outside := marshals.memory
  have unowned : Memory.Agree (fun x => ¬a.Owns x) s.machine.memory t.machine.memory :=
    outside.mono fun x free inside => free (laid.arguments_owned native x inside)
  have framed : a.Framed a.outgoing w t.machine :=
    framed.shifts laid passed.registers (by decide)
      ((passed.registers _ (by decide)).trans framed.at_sp)
      (outside.mono fun x whole inside => laid.arguments_whole native x inside whole)
      (unowned.mono fun x field owned => entered.stack_record x owned ⟨_, by decide, field⟩)
  have stands : c.Stands t.machine (keepHandler ++ rest) := by
    refine ⟨?_, ?_, by rw [passed.returned]; exact back⟩
    · exact (passed.registers .zero (by decide)).trans
        ((keeps.registers .zero (by decide)).trans ready.stands.cleared)
    · have here : c.InMemory s.machine.memory := by rw [memory]; exact ready.stands.here
      exact here.congr fun x inside => unowned x fun owned =>
        entered.stack_code x owned (around.housed.inside x inside)
  -- The handler returns the address of the result handler, which is kept in the frame.
  have live : ∀ x, Memory.Covers (a.fp + slot .resultHandler) 8 x → a.Live x :=
    laid.slots_live (w := w) (.resultHandler, w.result) (by simp [slots])
  have owned := fun x covered => laid.live_owned x (live x covered)
  obtain ⟨k, ⟨leads, stands⟩, keeps', stored, method⟩ := keep_handler_runs stands (by
    rw [framed.at_fp]
    exact fun x covered => around.housed.stack_free x (owned x covered))
  rw [framed.at_fp] at stored method
  rw [passed.result] at stored
  rw [framed.reads .method a.record (by simp [slots])] at method
  obtain ⟨r, last, rfl⟩ := around.leads (Goes.done t) leads
  have agree : Memory.Agree (fun x => ¬a.Live x) t.machine.memory r.machine.memory := by
    rw [stored]
    exact (Memory.agree_store _ _ _ (by decide)).mono fun x free covered => free (live x covered)
  refine ⟨s, t, r, goes, marshals, last, ⟨stands, ?_, method⟩, ?_, ?_⟩
  · have stood := framed.sets laid entered (by decide) keeps' (by decide) stored
    rwa [Contents.set_result] at stood
  · have arrived := passed.arrived
    rw [marshals.framed.at_locals] at arrived
    refine (arrived.since declared.values fun i few => ?_).kept (declared.short around) keeps'
      ?_ (by decide) (agree.mono fun x covered inside => ?_)
    · refine (marshals.framed.parameters.load (by decide) fun x covered => ?_).symm
      rw [Nat.mul_comm] at covered
      rw [declared.slots] at few
      have covered := (laid.covers_local (i := i) (by omega)).mp covered
      rw [laid.covers_parameters]
      omega
    · cases a.method.flags.isStatic <;> decide
    · exact laid.arguments_whole native x (declared.area around native framed x covered) inside.1
  · rw [← memory]
    exact unowned.trans (agree.mono fun x free inside => free (laid.live_owned x inside))

end Handlers

end Runs

end Invocation

end EntryCode
