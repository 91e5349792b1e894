import EntryCode.Proofs.Interpreter.Surroundings

/-!
Where a run can start. Code, records and stack are put far apart, so every accepted method can be
entered, through every entry, with a runtime that keeps its contracts.
-/

namespace EntryCode

open EntryCode.Frame Pinned Fragment Machine

/-- A method that is about to be entered. -/
structure Stage where
  cfg : Config
  extensions : Extensions
  blob : Interpreter.Blob
  method : Method
  kind : EntryKind
  stackLimit : Dword

namespace Stage

def codeBase : Dword := 0x40000000
def handlerBase : Dword := 0x48000000
def recordBase : Dword := 0x50000000
def threadBase : Dword := 0x58000000
def stackBase : Dword := 0x60000000
def handlesBase : Dword := 0x68000000
def functionBase : Dword := 0x70000000

def link : Dword := 0x78000000

/-- No part is longer than this. -/
def reach : Nat := 0x2000000

def code (x : Dword) : Prop :=
  Memory.Covers codeBase reach x ∨ Memory.Covers handlerBase reach x

section Definitions
variable (s : Stage)

def interpreter : Interpreter := s.blob.installed s.extensions codeBase

def record : Bytes := (s.cfg.method.encode s.method).getD []

def memory : Memory :=
  ((Memory.empty.write recordBase s.record).store (threadBase + s.cfg.thread.offset .stackLimit) 8
    s.stackLimit).write codeBase s.blob.code

def entry : Dword := (s.interpreter.entry? s.kind).getD 0

def start : Machine :=
  ((((((⟨.zeros, .zeros, s.entry, s.memory⟩ : Machine).put .ra link).put .fp
    (stackBase + 0x1000000)).put thread threadBase).put Pinned.method recordBase).put stack
      stackBase).put senderSp (stackBase + 0x800000)

def invocation : Invocation where
  cfg := s.cfg
  method := s.method
  native := s.kind ∈ [.native, .nativeSynchronized]
  synchronized := s.kind ∈ [.normalSynchronized, .nativeSynchronized]
  start := s.start

/-- The code of the interpreter was generated for the configuration, and the method is accepted. -/
structure Ready : Prop where
  sound : s.cfg.Sound
  made : Interpreter.blob s.cfg s.extensions = .ok s.blob
  accepted : s.method.problem? = none

def handler (sig : Signature) : Bytes :=
  match Handler.generate sig s.method.flags.isStatic (s.interpreter.resultHandler sig.result)
      s.extensions with
  | .ok code => code
  | .error _ => []

/-- The native function of the method, with the handler for its signature. -/
def binding (sig : Signature) : Invocation.Binding :=
  ⟨sig, functionBase, handlerBase, s.handler sig, s.interpreter.resultHandler sig.result⟩

/-- A runtime around the method, with the exception that its routines leave. -/
def environment (sig : Signature) (exception : Dword) (leaf : Bool) : Environment Unit :=
  Surroundings.environment ⟨exception, leaf, handlesBase⟩ s.invocation (s.binding sig)

def progress : Progress Unit := ⟨s.start, 0, ()⟩

end Definitions

variable {s : Stage}

section Registers

theorem reg_stack : s.start.reg stack = stackBase := by
  simp (disch := decide) only [start, reg_put_ne, reg_put_self]

theorem reg_method : s.start.reg Pinned.method = recordBase := by
  simp (disch := decide) only [start, reg_put_ne, reg_put_self]

theorem reg_thread : s.start.reg thread = threadBase := by
  simp (disch := decide) only [start, reg_put_ne, reg_put_self]

theorem reg_sender : s.start.reg senderSp = stackBase + 0x800000 := by
  simp (disch := decide) only [start, reg_put_self]

theorem reg_link : s.start.reg .ra = link := by
  simp (disch := decide) only [start, reg_put_ne, reg_put_self]

theorem last_parameter : s.invocation.lastParameter = stackBase := reg_stack

theorem record_eq : s.invocation.record = recordBase := reg_method

theorem current_eq : s.invocation.current = threadBase := reg_thread

theorem linked : s.start.reg .ra &&& 1 = 0 := by
  rw [reg_link]
  decide

theorem cleared : s.start.Zeroed := by
  have zero : s.start.reg .zero = 0 := by
    simp (disch := decide) only [start, reg_put_ne]
    rfl
  exact zero

end Registers

section Apart
variable {x : Dword}

/-- Two parts that begin far from each other have no address in common. -/
theorem apart {c d : Dword} (far : Memory.Apart d reach c reach) (inside : Memory.Covers c reach x) :
    ¬Memory.Covers d reach x := by
  obtain ⟨k, few, rfl⟩ := (Memory.covers_iff (by decide)).mp inside
  exact far.not_covers k few

/-- The part of the memory that the stack is in. -/
def Stacked (x : Dword) : Prop :=
  Memory.Covers (stackBase - 0x1000000) reach x

/-- What lies at a small offset from the beginning of a part is in it. -/
theorem field_covers {base off : Dword} {width : Nat} (near : off.toNat < 2048) (short : width ≤ 8)
    (covered : Memory.Covers (base + off) width x) : Memory.Covers base reach x := by
  rw [Memory.Covers] at covered ⊢
  have size : reach = 0x2000000 := rfl
  bv_omega

variable (ready : s.Ready)
include ready

theorem Ready.in_record (inside : s.invocation.InRecord x) : Memory.Covers recordBase reach x := by
  obtain ⟨f, -, field⟩ := inside
  have near := (Layout.offset_of_accepted (Config.layouts_of_accepted ready.sound.accepted).1
    f.mem_all).1
  rw [Invocation.Field, record_eq] at field
  exact field_covers near (by cases f <;> decide) field

theorem Ready.in_thread (inside : s.invocation.InThread x) : Memory.Covers threadBase reach x := by
  obtain ⟨f, -, word⟩ := inside
  have near := (Layout.offset_of_accepted (Config.layouts_of_accepted ready.sound.accepted).2
    f.mem_all).1
  rw [Invocation.ThreadWord, current_eq] at word
  exact field_covers near (by cases f <;> decide) word

theorem Ready.owned (owns : s.invocation.Owns x) : Stacked x := by
  have counted := Method.counted_of_accepted ready.accepted
  obtain ⟨few, many, deep⟩ := s.invocation.short_counts counted
  have need := s.invocation.need_eq
  have spare : s.invocation.reserve ≤ 32 + 8 * (s.invocation.parameters + 3) := by
    simp only [Invocation.reserve, stackAlignment, wordSize]
    split <;> omega
  have size : (BitVec.ofNat 64 s.invocation.need).toNat = s.invocation.need := by
    rw [BitVec.toNat_ofNat]
    omega
  rw [Invocation.Owns, Invocation.floor, last_parameter, Memory.Covers, wordSize] at owns
  rw [Stacked, Memory.Covers]
  have whole : reach = 0x2000000 := rfl
  generalize BitVec.ofNat 64 s.invocation.need = d at *
  rw [stackBase] at *
  bv_omega

omit ready in
theorem coded_apart {c : Dword} (first : Memory.Apart codeBase reach c reach)
    (second : Memory.Apart handlerBase reach c reach) (inside : Memory.Covers c reach x) :
    ¬code x :=
  fun coded => coded.elim (apart first inside) (apart second inside)

end Apart

section Entered
variable (ready : s.Ready)
include ready

theorem Ready.code_short : s.blob.code.length ≤ reach :=
  (Interpreter.blob_short ready.sound.accepted ready.made).trans (by decide)

theorem Ready.within (x : Dword) (inside : s.interpreter.Covers x) :
    Memory.Covers codeBase reach x :=
  Nat.lt_of_lt_of_le inside ready.code_short

theorem Ready.recorded : s.cfg.method.encode s.method = some s.record ∧ s.record.length ≤ reach := by
  have near := fun f => (Layout.offset_of_accepted
    (Config.layouts_of_accepted ready.sound.accepted).1 (MethodField.mem_all f)).1
  obtain ⟨bytes, made, short⟩ := s.cfg.method.encode_of_near s.method near
  rw [record, made]
  exact ⟨rfl, short.trans (by decide)⟩

theorem Ready.limit_in_thread (x : Dword)
    (covered : Memory.Covers (threadBase + s.cfg.thread.offset .stackLimit) 8 x) :
    Memory.Covers threadBase reach x :=
  field_covers (Layout.offset_of_accepted (Config.layouts_of_accepted ready.sound.accepted).2
    (ThreadField.mem_all .stackLimit)).1 (by decide) covered

/-- Nothing but the code is written after the record and the limit. -/
theorem Ready.outside_code {c : Dword} (far : Memory.Apart codeBase reach c reach) :
    Memory.Agree (Memory.Covers c reach) ((Memory.empty.write recordBase s.record).store
      (threadBase + s.cfg.thread.offset .stackLimit) 8 s.stackLimit) s.memory :=
  (Memory.Agree.refl _ _).write (ready.code_short.trans (by decide)) fun _ covered inside =>
    apart far inside (ready.within _ covered)

theorem Ready.record_read : s.memory.read recordBase s.record.length = s.record := by
  have small : reach ≤ 2 ^ 64 := by decide
  obtain ⟨-, short⟩ := ready.recorded
  have agree : Memory.Agree (Memory.Covers recordBase reach)
      (Memory.empty.write recordBase s.record) s.memory :=
    ((Memory.Agree.refl _ _).store _ (by decide) fun x covered =>
      apart (by decide) (ready.limit_in_thread x covered)).trans (ready.outside_code (by decide))
  refine (Memory.read_congr _ _ fun k few => agree _ ?_).trans
    (Memory.read_write_same recordBase s.record (short.trans small))
  exact (Memory.covers_iff small).mpr ⟨k, Nat.lt_of_lt_of_le few short, rfl⟩

theorem Ready.limit_eq : s.invocation.limit = s.stackLimit := by
  rw [Invocation.limit, current_eq]
  exact ((ready.outside_code (by decide)).load (by decide) ready.limit_in_thread).trans
    (Memory.load_store_word _ _)

theorem Ready.overflows_iff : s.invocation.overflows =
    (stackBase - BitVec.ofNat 64 s.invocation.asked).ult s.stackLimit := by
  rw [← ready.limit_eq, ← last_parameter]
  rfl

theorem Ready.fits (limit : s.stackLimit = 0) : s.invocation.overflows = false := by
  rw [ready.overflows_iff, limit, BitVec.ult, decide_eq_false_iff_not]
  exact Nat.not_lt_zero _

theorem Ready.full (limit : s.stackLimit = BitVec.allOnes 64) : s.invocation.overflows = true := by
  obtain ⟨-, many, deep⟩ := s.invocation.short_counts (Method.counted_of_accepted ready.accepted)
  have asked : s.invocation.asked < 2 ^ 21 := by
    simp only [Invocation.asked, wordSize, fixedWords, monitorWords, stackAlignment]
    omega
  have size : (BitVec.ofNat 64 s.invocation.asked).toNat = s.invocation.asked := by
    rw [BitVec.toNat_ofNat]
    omega
  rw [ready.overflows_iff, limit, BitVec.ult, decide_eq_true_eq, BitVec.toNat_allOnes,
    BitVec.toNat_sub, size]
  rw [show stackBase.toNat = 0x60000000 by decide]
  omega

theorem Ready.described : s.invocation.Described where
  accepted := ready.accepted
  record := ⟨s.record, ready.recorded.1, by
    rw [record_eq]
    exact ready.record_read⟩
  aligned := by
    rw [last_parameter]
    decide

theorem Ready.installed {env : Environment Unit}
    (quiet : ∀ x, code x → env.trap x = none) : s.invocation.Installed s.interpreter code env where
  cleared := cleared
  loaded := Memory.read_write_same _ _ (ready.code_short.trans (by decide))
  even := show codeBase &&& 1 = 0 by decide
  within x inside := .inl (ready.within x inside)
  quiet x inside := quiet x (.inl (ready.within x inside))
  thread_code x thread := coded_apart (by decide) (by decide) (ready.in_thread thread)

theorem Ready.entered : s.invocation.Entered code where
  toRecorded := ready.described.recorded ready.sound
  counting := Invocation.counting_of_sound ready.sound
  words := ready.sound.parted
  stack_code x owned := coded_apart (by decide) (by decide) (ready.owned owned)
  record_code x inside := coded_apart (by decide) (by decide) (ready.in_record inside)
  thread_code x thread := coded_apart (by decide) (by decide) (ready.in_thread thread)
  stack_record x owned inside := apart (by decide) (ready.owned owned) (ready.in_record inside)
  stack_thread x owned thread := apart (by decide) (ready.owned owned) (ready.in_thread thread)
  record_thread x inside thread := apart (by decide) (ready.in_record inside) (ready.in_thread thread)

theorem Ready.placed {p : Program} (made : Entry.program? s.cfg s.extensions s.kind = some p) :
    s.interpreter.entry? s.kind = some s.invocation.start.pc := by
  obtain ⟨b, generated, images⟩ := Interpreter.blob_image ready.sound.accepted s.extensions
  obtain rfl := Except.ok.inj (ready.made.symm.trans generated)
  obtain ⟨c, image⟩ := images codeBase
  obtain ⟨q, found, -⟩ := image.routines (.entry s.kind) p made
  have entry : s.interpreter.entry? s.kind = some _ := congrArg (Option.map _) found
  rw [entry]
  exact congrArg some (congrArg (Option.getD · 0) entry).symm

theorem Ready.spared : s.invocation.Spared code := by
  have inside : ∀ x, Exit.spare s.invocation.start x → Stacked x := by
    intro x spare
    have place : s.invocation.start.reg senderSp = stackBase + 0x800000 := reg_sender
    rw [Exit.spare, place, Memory.Covers] at spare
    rw [Stacked, Memory.Covers]
    have whole : reach = 0x2000000 := rfl
    simp only [stackAlignment, stackBase] at *
    bv_omega
  exact ⟨fun x spare => coded_apart (by decide) (by decide) (inside x spare),
    fun x spare thread => apart (by decide) (inside x spare) (ready.in_thread thread)⟩

variable {sig : Signature} (declares : s.method.Declares sig)
include declares

theorem Ready.handled : Handler.generate sig s.method.flags.isStatic
    (s.interpreter.resultHandler sig.result) s.extensions = .ok (s.handler sig) ∧
      (s.handler sig).length ≤ reach := by
  obtain ⟨few, -, -⟩ := s.invocation.short_counts (Method.counted_of_accepted ready.accepted)
  obtain ⟨-, c, -, -, -, made⟩ := Handler.generates_values s.method.flags.isStatic
    (s.interpreter.resultHandler sig.result) s.extensions declares.values
  have short := Handler.generate_short declares.values made
  have slots : ((Handler.argumentTypes sig s.method.flags.isStatic).map BasicType.slots).sum =
      s.invocation.parameters := declares.parameters
  have each : ∀ t ∈ Handler.argumentTypes sig s.method.flags.isStatic, 1 ≤ t.slots := by
    intro t member
    have value := Handler.types_values declares.values t member
    cases t <;> first | decide | exact (value rfl).elim
  have many : (Handler.argumentTypes sig s.method.flags.isStatic).length ≤
      s.invocation.parameters := by
    rw [← slots]
    simpa using List.length_le_sum_of_one_le _ (List.forall_mem_map.mpr each)
  have found : s.handler sig = c.code := by rw [handler, made]
  rw [found]
  refine ⟨made, short.trans ?_⟩
  simp only [instructionSize, reach]
  omega

theorem Ready.covered (x : Dword) (covered : (s.binding sig).Covers x) :
    Memory.Covers handlerBase reach x :=
  Nat.lt_of_lt_of_le covered (ready.handled declares).2

theorem Ready.supplied {env : Environment Unit} (quiet : ∀ x, code x → env.trap x = none)
    (unbound : s.method.signatureHandler = 0) :
    s.invocation.Supplied s.interpreter code env (s.binding sig) where
  declares := declares
  result := rfl
  made := (ready.handled declares).1
  even := show handlerBase &&& 1 = 0 by decide
  within x covered := .inr (ready.covered declares x covered)
  quiet x covered := quiet x (.inr (ready.covered declares x covered))
  known bound := (bound unbound).elim

theorem Ready.hosting {exception : Dword} {leaf : Bool} :
    Surroundings.Hosting ⟨exception, leaf, handlesBase⟩ s.invocation (s.binding sig) code
      s.interpreter.Covers := by
  have near := (Layout.offset_of_accepted (Config.layouts_of_accepted ready.sound.accepted).2
    (ThreadField.mem_all .handleTop)).1
  refine ⟨ready.entered, Config.fields_parted ready.sound.accepted ready.sound.fields,
    fun x inside => .inl (ready.within x inside), fun x covered => ?_,
    (ready.handled declares).2.trans (by decide), fun x top => ?_⟩
  · have covered := ready.covered declares x covered
    exact ⟨.inr covered, fun inside => apart (by decide) covered (ready.within x inside)⟩
  · have top : Memory.Covers handlesBase reach x := field_covers near (by decide) top
    exact ⟨coded_apart (by decide) (by decide) top,
      fun owned => apart (by decide) top (ready.owned owned),
      fun inside => apart (by decide) top (ready.in_record inside),
      fun thread => apart (by decide) top (ready.in_thread thread)⟩

end Entered

/-- The routines of the runtime have addresses of their own, outside of the code. -/
structure Addressed (cfg : Config) : Prop where
  distinct : (functionBase :: (Callee.all.filter Callee.required).map cfg.callees.address).Nodup
  outside : ∀ addr ∈ functionBase :: (Callee.all.filter Callee.required).map cfg.callees.address,
    ¬code addr
  even : ∀ callee, cfg.callees.address callee &&& 1 = 0

/-- An entry that builds a frame is called, with a runtime around it. -/
structure Attended (s : Stage) (sig : Signature) : Prop extends s.Ready where
  addressed : Addressed s.cfg
  framed : s.kind ∈ [.normal, .normalSynchronized, .native, .nativeSynchronized]
  suits : s.method.flags.isSynchronized = s.invocation.synchronized
  declares : s.method.Declares sig
  unbound : s.method.signatureHandler = 0

section Hosted
variable {sig : Signature} {exception : Dword} {leaf : Bool}

theorem Addressed.housing (addressed : Addressed s.cfg) :
    Surroundings.Housing s.invocation (s.binding sig) code := by
  have places : Surroundings.parties.map (Surroundings.place s.invocation (s.binding sig)) =
      functionBase :: (Callee.all.filter Callee.required).map s.cfg.callees.address := by
    rw [Surroundings.parties, List.map_cons, List.map_map]
    rfl
  refine ⟨places ▸ addressed.distinct, fun q member => addressed.outside _ ?_⟩
  rw [← places]
  exact List.mem_map_of_mem member

variable (attended : s.Attended sig)
include attended

theorem Attended.kind_eq : s.invocation.kind = s.kind := by
  have framed := attended.framed
  rw [Invocation.kind, invocation]
  cases kind : s.kind with
  | abstract | math => simp [kind] at framed
  | _ => rfl

theorem Attended.entry : s.interpreter.entry? s.invocation.kind = some s.invocation.start.pc := by
  obtain ⟨p, made⟩ : ∃ p, Entry.program? s.cfg s.extensions s.kind = some p := by
    have framed := attended.framed
    cases kind : s.kind with
    | abstract | math => simp [kind] at framed
    | _ => exact ⟨_, rfl⟩
  rw [attended.kind_eq]
  exact attended.placed made

theorem Attended.entrance :
    s.invocation.Entrance s.interpreter code (s.environment sig exception leaf) := by
  have entered := attended.entered
  exact ⟨⟨attended.installed attended.addressed.housing.quiet, attended.entry, entered.stack_code,
    entered.record_code, entered.stack_record, entered.stack_thread, entered.record_thread⟩,
    attended.described⟩

theorem Attended.runtime {p : Progress Unit} :
    s.invocation.Runtime code (s.environment sig exception leaf) p :=
  (attended.hosting attended.declares).runtime attended.addressed.housing attended.addressed.even

theorem Attended.supplied : s.invocation.Supplied s.interpreter code (s.environment sig exception leaf)
    (s.binding sig) :=
  attended.toReady.supplied attended.declares attended.addressed.housing.quiet attended.unbound

theorem Attended.services {p : Progress Unit} : s.invocation.Services code
    (s.environment sig exception leaf) p (s.binding sig) s.interpreter.Covers :=
  (attended.hosting attended.declares).services attended.addressed.housing
    (show functionBase &&& 1 = 0 by decide)

theorem Attended.releases {p : Progress Unit} {words : List ThreadField}
    (listed : ∀ f ∈ words, f ∈ ThreadField.inRecord) (free : ∀ f ∈ Surroundings.handed, f ∉ words)
    (kept : leaf = true ∨ .pendingException ∉ words) :
    s.invocation.Releases code (s.environment sig exception leaf) p words :=
  (attended.hosting attended.declares).releases attended.addressed.housing
    attended.suits listed free kept

theorem Attended.calms {p : Progress Unit} :
    s.invocation.Calms code (s.environment sig exception true) p :=
  (attended.hosting attended.declares).calms attended.addressed.housing rfl

theorem Attended.discreet {p : Progress Unit} :
    s.invocation.Discreet code (s.environment sig exception leaf) p (s.binding sig) :=
  (attended.hosting attended.declares).discreet attended.addressed.housing

theorem Attended.requests {p : Progress Unit} {watched : Dword → Bool} :
    (s.environment sig exception leaf).Answers watched p functionBase (fun _ => True)
      fun _ k => polled s.cfg s.invocation.current k.memory :=
  (attended.hosting attended.declares).requests attended.addressed.housing

theorem Attended.thrown_eq {x : Invocation.Activity} {events : List Event} {r : Progress Unit}
    (regular : s.invocation.Regular code x)
    (native : ∀ call ∈ x.native, call.before.pc = functionBase)
    (goes : Goes (s.environment sig exception leaf) s.invocation.watches s.progress events r)
    (noticed : ∀ e ∈ s.invocation.trace x, e ∈ events) :
    ∀ call ∈ x.throwing, s.invocation.thrown (some call) = exception := by
  intro call member
  have called := noticed _ (s.invocation.throwing_noticed member)
  obtain ⟨party, listed, plain, there⟩ : ∃ q ∈ Surroundings.parties,
      Surroundings.isLeaf q = false ∧
        call.before.pc = Surroundings.place s.invocation (s.binding sig) q := by
    simp only [Invocation.Activity.throwing, List.mem_append, Option.mem_toList] at member
    rcases member with (((overflow | profile) | enter) | prepare) | served
    · obtain ⟨_, _, made⟩ := regular.overflow call overflow
      exact ⟨some .counterOverflow, by decide, rfl, made.routine⟩
    · obtain ⟨_, _, made⟩ := regular.profile call profile
      exact ⟨some .profileMethod, by decide, rfl, made.routine⟩
    · obtain ⟨_, _, made⟩ := (regular.enter call enter).invoked
      exact ⟨some .monitorEnter, by decide, rfl, made.routine⟩
    · obtain ⟨_, _, made⟩ := regular.prepare call prepare
      exact ⟨some .prepareNativeCall, by decide, rfl, made.routine⟩
    · exact ⟨none, by decide, rfl, native call served⟩
  exact attended.addressed.housing.thrown_eq listed plain goes called there

end Hosted

section Sample

theorem reference_sound : Config.reference.Sound := by
  refine ⟨by decide, ?_, ?_⟩
  all_goals
    rw [Layout.Separate]
    decide

theorem reference_addressed : Addressed .reference := by
  have callee_outside : ∀ callee, ¬code (Config.reference.callees.address callee) := by
    intro callee
    have far : reach ≤ (Config.reference.callees.address callee - codeBase).toNat ∧
        reach ≤ (Config.reference.callees.address callee - handlerBase).toNat := by
      cases callee <;> decide
    exact fun coded => coded.elim (Nat.not_lt_of_le far.1) (Nat.not_lt_of_le far.2)
  have function_outside : ¬code functionBase := by
    rw [code, Memory.Covers, Memory.Covers]
    decide
  refine ⟨by decide, List.forall_mem_cons.mpr ⟨function_outside, List.forall_mem_map.mpr ?_⟩,
    fun callee => by cases callee <;> decide⟩
  exact fun callee _ => callee_outside callee

def sampleMethod (flags : AccessFlags) : Method where
  name := "mix"
  descriptor := "(IDLjava/lang/Object;)J"
  flags := flags
  parameterSlots := BitVec.ofNat 64 (4 + if flags.isStatic then 0 else 1)
  maxLocals := 7
  maxStack := 3
  mirror := 0x9000

/-- A method of the reference runtime, about to be entered. -/
def sample (blob : Interpreter.Blob) (flags : AccessFlags) (kind : EntryKind) (limit : Dword) :
    Stage :=
  ⟨.reference, .all, blob, sampleMethod flags, kind, limit⟩

def sampleSignature : Signature := ⟨[.int, .double, .object], .long⟩

variable {blob : Interpreter.Blob} {flags : AccessFlags} {kind : EntryKind} {limit : Dword}

theorem sample_declares : (sampleMethod flags).Declares sampleSignature := by
  have read : Signature.ofDescriptor "(IDLjava/lang/Object;)J" = .ok sampleSignature := by cbv
  have built : ∃ built, Method.new "mix" "(IDLjava/lang/Object;)J" flags 7 3 = .ok built ∧
      BitVec.ofNat 64 (4 + if flags.isStatic then 0 else 1) = built.parameterSlots ∧
      7 = built.maxLocals := by
    rw [Method.new, read]
    refine ⟨_, rfl, rfl, ?_⟩
    cases flags.isStatic <;> rfl
  exact ⟨read, ⟨7, built⟩, show "(IDLjava/lang/Object;)J".utf8ByteSize < 2 ^ 63 by decide⟩

theorem sample_attended (made : Interpreter.blob .reference .all = .ok blob)
    (accepted : (sampleMethod flags).problem? = none)
    (framed : kind ∈ [.normal, .normalSynchronized, .native, .nativeSynchronized])
    (suits : flags.isSynchronized = decide (kind ∈ [.normalSynchronized, .nativeSynchronized])) :
    (sample blob flags kind limit).Attended sampleSignature :=
  ⟨⟨reference_sound, made, accepted⟩, reference_addressed, framed, suits, sample_declares, rfl⟩

end Sample

end Stage

end EntryCode
