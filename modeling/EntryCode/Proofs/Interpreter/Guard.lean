import EntryCode.Proofs.Interpreter.Exceptions
import EntryCode.Proofs.Interpreter.Footprint

/-!
The check of the stack. It is taken exactly where a frame could come to lie below the limit: where it
passes, the entry stays above the limit whatever is called on the way; where it fails, nothing is
written but the return address of the caller and the exception that is handed over.
-/

namespace EntryCode

open EntryCode.Frame Pinned Fragment Machine

/-- The bytes below the last parameter that a frame may need: the locals that are no parameters, the
expression stack, the fixed part, one monitor, and two words that rounding may take. -/
def Method.frameNeed (m : Method) : Nat :=
  8 * (m.maxLocals.toNat - m.parameterSlots.toNat + m.maxStack.toNat + 18)

section Sender

def Instruction.takesSender : Instruction → Bool
  | .immediate _ rd rs _ | .shift _ rd rs _ | .extend _ rd rs =>
    rd.code = Register.sp.code ∧ rs.code = senderSp.code
  | _ => false

/-- Nothing else has the word of the move that takes it. -/
theorem Instruction.takes_sender {i : Instruction}
    (same : i.word = (Pseudo.mv .sp senderSp).word) : i.takesSender = true := by
  have op := congrArg Format.opcode same
  have rd := congrArg Format.rd same
  have rs := congrArg Format.rs1 same
  cases i with
  | immediate | shift =>
      simp only [word, Pseudo.mv, Format.rd_short_immediate, Format.rs1_short_immediate] at rd rs
      exact decide_eq_true ⟨rd, rs⟩
  | extend ext =>
      cases ext <;>
        simp only [word, Pseudo.mv, ExtendOp.format, Format.rd_short_immediate,
          Format.rs1_short_immediate, Format.rd_three_register, Format.rs1_three_register] at rd rs <;>
        exact decide_eq_true ⟨rd, rs⟩
  | upper up =>
      simp only [word, Pseudo.mv, Format.opcode_upper_immediate, Format.opcode_short_immediate] at op
      cases up <;> exact absurd op (by decide)
  | ebreak => exact absurd op (by decide)
  | _ =>
      simp only [word, Pseudo.mv, Format.opcode_short_immediate, Format.opcode_three_register,
        Format.opcode_store_format, Format.opcode_branch_format, Format.opcode_jump_format] at op
      exact absurd op (by decide)

/-- Whether an operation is an instruction that leaves the caller's stack pointer alone, or goes to
a label. -/
def Op.keepsSender : Op → Bool
  | .instruction i => !i.takesSender
  | .branch .. | .jump .. | .bind _ | .comment _ => true
  | _ => false

theorem Op.keeps_sender {op : Op} (keeps : op.keepsSender = true) (pos : Nat) :
    ∀ e ∈ op.emissions pos, ∀ disp, (e.instruction disp).takesSender = false := by
  cases op with
  | instruction i =>
      intro e member disp
      obtain rfl := List.mem_singleton.mp member
      exact (Bool.not_eq_true' _).mp keeps
  | branch | jump =>
      intro e member disp
      obtain rfl := List.mem_singleton.mp member
      rfl
  | bind | comment => nofun
  | _ => cases keeps

end Sender

namespace Invocation

section Contracts
variable (a : Invocation) (i : Interpreter) (code : Dword → Prop) {σ : Type}
  (env : Environment σ) (p : Progress σ)

/-- The entry of an interpreted method is called. Below the last parameter there are as many
addresses as a frame may need, and code, records and stack lie apart. -/
structure Guarded : Prop extends a.Installed i code env, a.Sized where
  interpreted : a.native = false
  entry : i.entry? a.kind = some a.start.pc
  enough : a.method.frameNeed ≤ a.lastParameter.toNat
  stack_code : ∀ x, a.Granted x → ¬code x
  record_code : ∀ x, a.InRecord x → ¬code x
  stack_record : ∀ x, a.Granted x → ¬a.InRecord x
  link_code : ∀ x, Exit.linkWord a.start x → ¬code x

instance (m : Machine) : DecidablePred (Exit.linkWord m) :=
  fun x => inferInstanceAs (Decidable (Memory.Covers (Exit.linkAddress m) 8 x))

instance (f : ThreadField) : DecidablePred (a.ThreadWord f) :=
  fun x => inferInstanceAs
    (Decidable (Memory.Covers (a.current + a.cfg.thread.offset f) f.width x))

/-- All stores are noticed but those to the word below the caller's stack pointer and to the pending
exception. -/
def beside (x : Dword) : Bool :=
  ¬(Exit.linkWord a.start x ∨ a.ThreadWord .pendingException x)

/-- The routine that throws follows the calling convention and leaves an exception. -/
structure Throwing : Prop where
  even : ∀ callee, a.cfg.callees.address callee &&& 1 = 0
  throws : env.Answers a.beside p (a.cfg.callees.address .throwStackOverflow)
    (a.Thrower code .throwStackOverflow)
    fun m k => a.Throws code m k ∧ pending a.cfg a.current k.memory ≠ 0

/-- The check has passed. The entry has come to its first bytecode, or to the exit where a routine has
left an exception, and nothing of its stack is below the limit. -/
structure Passed (calls : List Call) (r : Progress σ) : Prop where
  goes : Goes env a.elsewhere p (calls.map .call) r
  stores : ∀ x, a.Granted x → a.limit.toNat ≤ x.toNat
  sp : a.limit.toNat ≤ (r.machine.reg .sp).toNat
  outward : ∀ call ∈ calls, ∃ callee ∈ callouts, a.Outward code callee call.before
  ends : a.Started r ∨ pending a.cfg a.current r.machine.memory ≠ 0 ∧
    (i.placed? .removeActivationException).map i.address = some r.machine.pc

/-- The check has failed. The routine that throws was called with the return address of the caller
saved, and its exception was handed to the dispatch of the caller; nothing else happened. -/
structure Refused (call : Call) (r : Progress σ) : Prop where
  goes : Goes env a.beside p [.call call] r
  thrower : a.Thrower code .throwStackOverflow call.before
  saved : call.before.memory = Exit.linked a.start
  unwound : a.Unwound (pending a.cfg a.current call.after.memory) r.machine
  dropped : r.machine.memory = a.dropped call.after.memory

end Contracts

variable {a : Invocation} {i : Interpreter} {code : Dword → Prop} {c : Linked} {σ : Type}
  {env : Environment σ} {p : Progress σ}

section Need

/-- The check asks for what a frame may need. -/
theorem asked_eq (interpreted : a.native = false) (counted : a.method.Counted) :
    a.asked = a.method.frameNeed := by
  have more : a.extra = a.method.maxLocals.toNat - a.method.parameterSlots.toNat := by
    have enough := counted.parameters
    have bound := a.method.maxLocals.isLt
    rw [extra, interpreted, if_neg (by decide), Method.extraLocals, BitVec.toNat_sub]
    omega
  have words : a.room = a.method.maxStack.toNat := by rw [room, interpreted]; rfl
  simp only [asked, Method.frameNeed, more, words, wordSize, fixedWords, monitorWords, stackAlignment]
  omega

variable (guarded : a.Guarded i code env)
include guarded

theorem Guarded.asked_le : a.asked ≤ a.lastParameter.toNat := by
  rw [asked_eq guarded.interpreted guarded.counted]
  exact guarded.enough

theorem Guarded.lowest : (a.lastParameter - BitVec.ofNat 64 a.asked).toNat =
    a.lastParameter.toNat - a.asked := by
  have enough := guarded.asked_le
  have bound := a.lastParameter.isLt
  have size : (BitVec.ofNat 64 a.asked).toNat = a.asked := by
    rw [BitVec.toNat_ofNat]
    omega
  rw [BitVec.toNat_sub, size]
  omega

/-- The check fails exactly where a frame could come to lie below the limit. -/
theorem Guarded.overflows_iff : a.overflows = true ↔
    a.lastParameter.toNat - a.method.frameNeed < a.limit.toNat := by
  rw [← asked_eq guarded.interpreted guarded.counted, ← guarded.lowest, overflows, limit, BitVec.ult,
    decide_eq_true_eq]

/-- Where it passes, the stack that was granted is above the limit. -/
theorem Guarded.above (fits : a.overflows = false) (x : Dword) (granted : a.Granted x) :
    a.limit.toNat ≤ x.toNat := by
  have lowest := guarded.lowest
  have enough := guarded.asked_le
  have bound := a.lastParameter.isLt
  have bound' := x.isLt
  rw [overflows, ← limit, BitVec.ult, decide_eq_false_iff_not] at fits
  rw [Granted, Memory.Covers, BitVec.toNat_sub] at granted
  omega

theorem Guarded.sp_granted : a.Granted a.sp := by
  obtain ⟨f, s, laid⟩ := a.placed guarded.counted guarded.aligned
  have above := laid.above
  have below := laid.below
  have least := laid.least
  have fixed := a.fixed_ge
  have small := laid.small
  have size := a.need_eq
  have zero : a.floor = a.floor + BitVec.ofNat 64 0 := (BitVec.add_zero _).symm
  have height : (a.sp - a.floor).toNat = s := by
    rw [laid.sp]
    nth_rewrite 2 [zero]
    exact distance (by omega) (by omega)
  rw [laid.granted, height]
  omega

end Need

section Branch
variable {e : Extensions} {spot : Spot → Label} {cfg : Config}

/-- Up to its first store an entry leaves the stack pointer of the caller alone. -/
theorem clear_locals_keeps :
    (a.clearLocals e spot ++ (frameHead a.cfg).take 3).all Op.keepsSender = true := by
  rw [clearLocals, findLocals, scaledAdd]
  split <;> rfl

theorem Sized.comes_to_store (sized : a.Sized) (interpreted : a.native = false)
    (fits : a.overflows = false)
    (stands : c.Stands a.start (a.clearLocals e spot ++ (frameHead a.cfg).take 3)) :
    ∃ k src base off rest, c.Leads a.start k ∧ c.Stands k (.sd src base off :: rest) := by
  -- Where the check fails does not matter here, and no program is asked for at its target.
  have nothing : c.Has (c.target (Routine.throwStackOverflow.label .start)) [] := trivial
  obtain ⟨k, ⟨first, stands⟩, -, -, -, -⟩ := sized.checks_stack e interpreted stands nothing
  rw [fits, if_neg (by decide)] at stands
  simp only [zeroExtra, List.cons_append, List.append_assoc, List.nil_append] at stands
  have stands := stands.comment
  by_cases none : Condition.eq.holds (k.reg .t0) (k.reg .zero) = true
  · obtain ⟨pc, second, stands⟩ := Linked.Stands.branch_over
      (.bind (spot .loop) :: (zeroWords (spot .zeroed) (spot .loop)).take 4) stands none
    obtain ⟨third, stands⟩ := stands.immediate (by simp)
    obtain ⟨fourth, stands⟩ := stands.comment.immediate (by simp)
    exact ⟨_, _, _, _, _, ((first.trans second).trans third).trans fourth, stands⟩
  · obtain ⟨second, stands⟩ := Linked.Stands.branch_past stands (Bool.eq_false_iff.mpr none)
    obtain ⟨third, stands⟩ := stands.bind.2.immediate (by simp)
    exact ⟨_, _, _, _, _, (first.trans second).trans third, stands⟩

variable (image : Interpreter.Image a.cfg i c)

section Runs
variable (guarded : a.Guarded i code env)
include image guarded

theorem Guarded.stands : c.Stands a.start (Entry.interpreted a.cfg i.extensions a.synchronized) := by
  refine guarded.toInstalled.stands image guarded.entry ?_
  rw [kind, guarded.interpreted]
  cases a.synchronized <;> rfl

/-- Where the check passes, the first store is reached by code that leaves the caller's stack pointer
alone. -/
theorem Guarded.reaches_store (fits : a.overflows = false) :
    ∃ k src base off rest, (c.only fun j => j.takesSender = false).Leads a.start k ∧
      (c.only fun j => j.takesSender = false).Stands k (.sd src base off :: rest) := by
  have stands := guarded.stands image
  have whole := List.take_append_drop 3 (frameHead a.cfg)
  rw [interpreted_eq, fixed_frame_eq, ← whole, List.append_assoc, List.append_assoc,
    ← List.append_assoc] at stands
  refine guarded.comes_to_store guarded.interpreted fits
    ⟨stands.cleared, stands.here.only _, Linked.has_only (Linked.has_append stands.placed).1 ?_⟩
  intro op member pos
  exact Op.keeps_sender (List.all_eq_true.mp clear_locals_keeps op member) pos

/-- Before anything is stored or called, the entry goes to the routine that throws if, and only if,
the check fails. -/
theorem Guarded.branches (here : p.machine = a.start) :
    (∃ q, Goes env (fun _ => true) p [] q ∧
      (i.placed? .throwStackOverflow).map i.address = some q.machine.pc) ↔ a.overflows = true := by
  have image := image.watching fun _ => true
  have quiet := guarded.quiet_code image
  have shared : a.Shared (c.watching fun _ => true) := .of_image image
  have found := image.found (r := .throwStackOverflow) rfl
  have loaded := (guarded.stands image).here
  have watched : (c.watching fun _ => true).watched = fun _ => true := rfl
  generalize c.watching (fun _ => true) = c at *
  constructor
  · -- A run without stores stays on the way to the first store, which the routine is not on.
    rintro ⟨q, goes, there⟩
    by_contra fits
    have fits := Bool.eq_false_iff.mpr fits
    obtain ⟨k, src, base, off, rest, ⟨n, runs⟩, reached⟩ := guarded.reaches_store image fits
    obtain ⟨lies, -⟩ := Linked.has_instruction.mp reached.placed
    have advanced := Linked.advances reached.cleared reached.here lies (by simp)
    obtain ⟨j, ⟨first, keeps⟩⟩ := runs.passes lies advanced (by rfl) here goes rfl
    -- The routine that throws begins with an instruction that takes it.
    have second : c.lies q.machine.pc (Pseudo.mv .sp senderSp) := by
      have throws := shared.overflow
      rw [Option.some.inj (found.symm.trans there)] at throws
      exact (Linked.has_instruction.mp (Linked.has_bind.mp throws).2).1
    have takes := Instruction.takes_sender
      ((loaded _ _ first).2.symm.trans (loaded _ _ second).2)
    rw [keeps] at takes
    cases takes
  · intro full
    obtain ⟨k, ⟨leads, stands⟩, -, -⟩ :=
      guarded.toSized.overflows guarded.interpreted full shared (guarded.stands image)
    rw [Exit.throw_stack_overflow_eq] at stands
    obtain ⟨q, goes, rfl⟩ := (Goes.done p).leads quiet (fun _ _ => by rw [watched]) (here ▸ leads)
    exact ⟨q, goes, found.trans (congrArg some stands.bind.1)⟩

/-- The check passes, whatever is called afterwards. -/
theorem Guarded.passes (here : p.machine = a.start) (fits : a.overflows = false)
    (conventional : a.Conventional code env p) : ∃ calls r, a.Passed i code env p calls r := by
  have image := image.watching a.elsewhere
  have found := image.found (r := .removeActivationException) rfl
  have shared : a.Shared (c.watching a.elsewhere) := .of_image image
  have free : ∀ x, a.Stored x → ¬code x → ¬(c.watching a.elsewhere).Covers x := fun x stored =>
    guarded.uncovered image (decide_eq_false (not_not.mpr stored))
  have footing : a.Footing code env (c.watching a.elsewhere) := {
    sited := ⟨guarded.toSized, fun x granted => free x (.inl granted) (guarded.stack_code x granted),
      guarded.stack_record⟩
    inside := guarded.inside image
    quiet := guarded.quiet_code image
    watched := rfl
    anchor_free := fun x anchored =>
      free x (.inr (.inl anchored)) (guarded.thread_code x (.of_anchor anchored))
    counter_free := fun x field =>
      free x (.inr (.inr field)) (guarded.record_code x ⟨_, by decide, field⟩)
    away := shared.exceptional }
  obtain ⟨r, calls, goes, outward, ends⟩ := footing.starts conventional here guarded.interpreted fits
    (guarded.stands image) shared.overflow
  have sp : r.machine.reg .sp = a.sp := ends.elim (·.sp) (·.based.sp)
  refine ⟨calls, r, goes, guarded.above fits, ?_, outward, ends.imp_right fun broken => ?_⟩
  · rw [sp]
    exact guarded.above fits _ guarded.sp_granted
  · exact ⟨broken.raised, found.trans (congrArg some broken.stands.bind.1)⟩

theorem Guarded.refuses (here : p.machine = a.start) (full : a.overflows = true)
    (throwing : a.Throwing code env p) : ∃ call r, a.Refused code env p call r := by
  have image := image.watching a.beside
  have shared : a.Shared (c.watching a.beside) := .of_image image
  have quiet := guarded.quiet_code image
  have free : ∀ x, Exit.linkWord a.start x ∨ a.ThreadWord .pendingException x → ¬code x →
      ¬(c.watching a.beside).Covers x := fun x written =>
    guarded.uncovered image (decide_eq_false (not_not.mpr written))
  have unframed : a.Unframed code (c.watching a.beside) := {
    inside := guarded.inside image
    link_free := fun x link => free x (.inl link) (guarded.link_code x link)
    pending_free := fun x word =>
      free x (.inr word) (guarded.thread_code x ⟨_, by decide, word⟩) }
  obtain ⟨k, ⟨leads, stands⟩, keeps, memory⟩ :=
    guarded.toSized.overflows guarded.interpreted full shared (guarded.stands image)
  rw [Exit.throw_stack_overflow_eq] at stands
  have begins : Goes env a.beside p [] p := .done p
  obtain ⟨q, goes, rfl⟩ := begins.leads quiet (fun _ => id) (here ▸ leads)
  obtain ⟨r, call, goes, thrower, saved, unwound⟩ := unframed.throws quiet (fun _ => id) shared goes
    stands.bind.2 rfl rfl rfl (fun r member => keeps.registers r (by revert r; decide))
    (throwing.throws.mono fun _ _ => And.left) (throwing.even _) (throwing.even _)
  have present := (goes.related throwing.throws (c := call) (by simp) thrower.routine thrower).2
  obtain ⟨unwound, dropped⟩ := unwound present
  refine ⟨call, r, goes, thrower, ?_, unwound, dropped⟩
  rw [saved, Exit.linked, Exit.linked, Exit.linkAddress, Exit.linkAddress, memory,
    keeps.registers senderSp (by decide), keeps.registers .ra (by decide)]

end Runs

end Branch

end Invocation

namespace Stage

variable {s : Stage} {sig : Signature} {exception : Dword} {leaf : Bool}

section Attended
variable (attended : s.Attended sig)
include attended

/-- Every interpreted method has the stack that its frame may need. -/
theorem Attended.guarded (interpreted : s.invocation.native = false) :
    s.invocation.Guarded s.interpreter code (s.environment sig exception leaf) := by
  have entered := attended.entered
  have counted := entered.counted
  obtain ⟨f, d, laid⟩ := s.invocation.placed counted entered.aligned
  refine ⟨attended.installed attended.addressed.housing.quiet, entered.sized, interpreted,
    attended.entry, ?_, fun x granted => entered.stack_code x (laid.granted_owned x granted),
    entered.record_code, fun x granted => entered.stack_record x (laid.granted_owned x granted),
    fun x link => attended.spared.spare_code x (Exit.link_spare x link)⟩
  have many := counted.locals
  have deep := counted.stack
  rw [last_parameter, Method.frameNeed, show stackBase.toNat = 0x60000000 by decide]
  omega

theorem Attended.conventional {p : Progress Unit} :
    s.invocation.Conventional code (s.environment sig exception leaf) p := by
  have hosting : Surroundings.Hosting ⟨exception, leaf, handlesBase⟩ s.invocation (s.binding sig) code
    s.interpreter.Covers := attended.hosting attended.declares
  have entered := attended.entered
  obtain ⟨f, d, laid⟩ := s.invocation.placed entered.counted entered.aligned
  have inside : ∀ callee m, s.invocation.Outward code callee m → s.invocation.Inside code m := by
    intro callee m outward
    refine ⟨outward.back, outward.fp, outward.thread, ?_⟩
    rw [outward.sp]
    exact laid.below_sp.2
  have follows : ∀ m, s.invocation.Inside code m → s.invocation.Follows code Invocation.nothing
      s.invocation.fixedFields m (m.returning
        (Surroundings.leaves ⟨exception, leaf, handlesBase⟩ s.invocation m.memory)) :=
    fun m inside => hosting.follows inside Invocation.fixed_in_record
  refine ⟨attended.addressed.even, ?_⟩
  simp only [Invocation.callouts, List.forall_mem_cons]
  refine ⟨?_, ?_, ?_, List.forall_mem_nil _⟩
  · exact attended.addressed.housing.answers (q := some .counterOverflow) (by decide)
      fun m outward => (follows m (inside _ m outward)).mono fun _ => .inl
  · exact attended.addressed.housing.answers (q := some .profileMethod) (by decide)
      fun m outward => (follows m (inside _ m outward)).mono fun _ => .inl
  · exact attended.addressed.housing.answers (q := some .monitorEnter) (by decide)
      fun m outward => (hosting.enters (inside _ m outward)).follows.mono fun _ => .inl

theorem Attended.throwing {p : Progress Unit} (raised : exception ≠ 0) :
    s.invocation.Throwing code (s.environment sig exception leaf) p where
  even := attended.addressed.even
  throws := (attended.addressed.housing.throws attended.spared attended.entered.thread_code
    (.inl rfl)).mono fun _ _ throws => ⟨throws.1, throws.2 ▸ raised⟩

end Attended

end Stage

/-- The check of the stack is exact and safe, for every configuration that is accepted, every set of
extensions, and every method with enough locals. -/
theorem stack_guard_is_exact {cfg : Config} (accepted : cfg.problem? = none) (e : Extensions) :
    ∃ made, Interpreter.blob cfg e = .ok made ∧
      ∀ (a : Invocation) (base : Dword) (code : Dword → Prop) {σ : Type} (env : Environment σ)
        (p : Progress σ), a.cfg = cfg → p.machine = a.start →
        let i := made.installed e base
        let lowest := a.lastParameter.toNat - a.method.frameNeed
        a.Guarded i code env →
        ((∃ q, Goes env (fun _ => true) p [] q ∧
            (i.placed? .throwStackOverflow).map i.address = some q.machine.pc) ↔
          lowest < a.limit.toNat) ∧
        (a.limit.toNat ≤ lowest → a.Conventional code env p →
          ∃ calls r, a.Passed i code env p calls r) ∧
        (lowest < a.limit.toNat → a.Throwing code env p →
          ∃ call r, a.Refused code env p call r) := by
  obtain ⟨made, generated, placed⟩ := Interpreter.blob_image accepted e
  refine ⟨made, generated, ?_⟩
  rintro a base code σ env p rfl here i lowest guarded
  obtain ⟨c, image⟩ := placed base
  have full := guarded.overflows_iff
  refine ⟨(guarded.branches image here).trans full, fun room conventional => ?_,
    fun short throwing => guarded.refuses image here (full.mpr short) throwing⟩
  have fits : a.overflows = false := by
    by_contra exceeds
    exact Nat.not_lt_of_le room (full.mp (Bool.not_eq_false _ ▸ exceeds))
  exact guarded.passes image here fits conventional

/-- A synchronized method of the reference runtime whose frame fits to the byte, and one that lacks a
byte. -/
theorem sample_stack_guard_is_exact : ∃ blob, Interpreter.blob .reference .all = .ok blob ∧
    (let s := Stage.sample blob ⟨0x28⟩ .normalSynchronized (Stage.stackBase - 192)
      ∃ calls r, s.invocation.Passed s.interpreter Stage.code
        (s.environment Stage.sampleSignature 0 false) s.progress calls r) ∧
    (let s := Stage.sample blob ⟨0x28⟩ .normalSynchronized (Stage.stackBase - 191)
      ∃ call r, s.invocation.Refused Stage.code (s.environment Stage.sampleSignature 0xabc0 true)
        s.progress call r) := by
  obtain ⟨blob, made, guards⟩ :=
    stack_guard_is_exact (show Config.reference.problem? = none by decide) .all
  have attended : ∀ limit, (Stage.sample blob ⟨0x28⟩ .normalSynchronized limit).Attended
      Stage.sampleSignature :=
    fun limit => Stage.sample_attended made (by decide) (by decide) (by decide)
  refine ⟨blob, made, ?fits, ?lacks⟩
  case fits =>
    have attended := attended (Stage.stackBase - 192)
    refine (guards _ Stage.codeBase _ _ (Stage.progress _) rfl rfl (attended.guarded rfl)).2.1 ?_
      attended.conventional
    rw [attended.limit_eq, Stage.last_parameter]
    exact (show (Stage.stackBase - 192).toNat ≤
      Stage.stackBase.toNat - (Stage.sampleMethod ⟨0x28⟩).frameNeed by decide)
  case lacks =>
    have attended := attended (Stage.stackBase - 191)
    refine (guards _ Stage.codeBase _ _ (Stage.progress _) rfl rfl (attended.guarded rfl)).2.2 ?_
      (attended.throwing (by decide))
    rw [attended.limit_eq, Stage.last_parameter]
    exact (show Stage.stackBase.toNat - (Stage.sampleMethod ⟨0x28⟩).frameNeed <
      (Stage.stackBase - 191).toNat by decide)

end EntryCode
