import EntryCode.Proofs.Interpreter.Blob
import EntryCode.Proofs.Interpreter.Course
import EntryCode.Proofs.Method.Descriptor

/-!
What the caller of an entry provides. The interpreter and the record of the method are in memory,
and code, records and stack lie apart; everything that the proofs about a run ask for follows from
that.
-/

namespace EntryCode

open EntryCode.Frame Pinned Fragment Machine

/-- An accepted configuration whose records have no overlapping fields. -/
structure Config.Sound (cfg : Config) : Prop where
  accepted : cfg.problem? = none
  fields : cfg.method.Separate MethodField.inRecord
  words : cfg.thread.Separate ThreadField.inRecord

/-- Fields of an accepted layout lie apart where they do not overlap. -/
theorem Layout.Separate.parted_of_accepted {F : Type} [RecordField F] {l : Layout F} {fields : List F}
    (separate : l.Separate fields) (accepted : l.problem? = none)
    (listed : ∀ f ∈ fields, f ∈ RecordField.all ∧ 0 < RecordField.width f ∧ RecordField.width f ≤ 8) :
    l.Parted fields := by
  refine separate.parted fun f member => ?_
  obtain ⟨listed, wide, short⟩ := listed f member
  have near := (offset_of_accepted accepted listed).1
  omega

theorem Config.fields_parted {cfg : Config} (accepted : cfg.problem? = none)
    (separate : cfg.method.Separate MethodField.inRecord) :
    cfg.method.Parted MethodField.inRecord :=
  separate.parted_of_accepted (layouts_of_accepted accepted).1 fun f _ =>
    ⟨f.mem_all, by cases f <;> decide⟩

theorem Config.words_parted {cfg : Config} (accepted : cfg.problem? = none)
    (separate : cfg.thread.Separate ThreadField.inRecord) :
    cfg.thread.Parted ThreadField.inRecord :=
  separate.parted_of_accepted (layouts_of_accepted accepted).2 fun f _ =>
    ⟨f.mem_all, by cases f <;> decide⟩

theorem Config.Sound.parted {cfg : Config} (sound : cfg.Sound) :
    cfg.thread.Parted ThreadField.inRecord :=
  Config.words_parted sound.accepted sound.words

namespace Interpreter

def Covers (i : Interpreter) (x : Dword) : Prop :=
  Memory.Covers i.base i.code.length x

variable {cfg : Config} {i : Interpreter} {c : Linked}

/-- A routine that begins with a label lies at the address of the label. -/
theorem Image.at_label (image : Image cfg i c) {r : Routine} {l : Label} {p : Program}
    (made : program? cfg i.extensions r = some (.bind l :: p)) :
    c.Has (c.target l) (.bind l :: p) := by
  obtain ⟨q, -, placed⟩ := image.routines r _ made
  obtain ⟨target, -⟩ := Linked.has_bind.mp placed
  rwa [target]

theorem Image.found (image : Image cfg i c) {r : Routine} {l : Label} {p : Program}
    (made : program? cfg i.extensions r = some (.bind l :: p)) :
    (i.placed? r).map i.address = some (c.target l) := by
  obtain ⟨q, found, placed⟩ := image.routines r _ made
  rw [found, (Linked.has_bind.mp placed).1]
  rfl

theorem Image.placed (image : Image cfg i c) {r : Routine} {p : Program}
    (made : program? cfg i.extensions r = some p) {addr : Dword}
    (there : (i.placed? r).map i.address = some addr) : c.Has addr p := by
  obtain ⟨q, found, placed⟩ := image.routines r p made
  rw [found] at there
  exact Option.some.inj there ▸ placed

theorem Image.watching (image : Image cfg i c) (watched : Dword → Bool) :
    Image cfg i (c.watching watched) where
  loaded := image.loaded
  inside := image.inside
  routines r p made := by
    obtain ⟨q, found, placed⟩ := image.routines r p made
    exact ⟨q, found, Linked.has_watching watched placed⟩
  even := image.even

theorem Image.converts (image : Image cfg i c) (t : BasicType) :
    c.Has (i.resultHandler t) (Exit.resultHandler i.extensions t) := by
  obtain ⟨q, found, placed⟩ := image.routines (.resultHandler t) _ rfl
  rw [resultHandler, found]
  exact placed

end Interpreter

theorem Handler.image {sig : Signature} {static : Bool} {rh : Dword} {e : Extensions} {code : Bytes}
    (values : ∀ t ∈ sig.params, t ≠ .void) (made : generate sig static rh e = .ok code)
    (base : Dword) :
    ∃ h : Linked, (∀ mem : Memory, mem.read base code.length = code → h.InMemory mem) ∧
      (∀ x, h.InCode x → Memory.Covers base code.length x) ∧
      h.Has base (body (arguments 0 (counted (reserved static) 0) (argumentTypes sig static)) rh) := by
  obtain ⟨a, b, start, ran, clear, same⟩ := generates_values static rh e values
  obtain rfl : code = b.code := Except.ok.inj (made.symm.trans same)
  obtain ⟨inv, -⟩ := Program.emitted start _ ran
  have placed := Linked.of_has base inv clear _ [] [] start ran (by simp) fun _ _ same => same
  have origin : base + BitVec.ofNat 64 a.pos = base := by
    rw [start.pos]
    exact BitVec.add_zero _
  rw [origin] at placed
  exact ⟨_, fun mem => Linked.of_in_memory base inv,
    fun x inside => Linked.of_covers base inv (.inl inside), placed⟩

theorem Handler.arguments_length (slot : Nat) (x : Assignment) (ts : List BasicType) :
    (arguments slot x ts).length = ts.length := by
  induction ts generalizing slot x with
  | nil => rfl
  | cons t ts ih => rw [arguments, List.length_cons, ih, List.length_cons]

theorem Handler.body_extent (args : List Argument) (rh : Dword) :
    (body args rh).extent ≤ 40 * args.length + 12 := by
  have fetched : ∀ (t : BasicType) (rd : Register) (off : Dword) (l : Label),
      (fetched t rd off l).extent ≤ 27 := by
    intro t rd off l
    rw [Handler.fetched]
    split <;> simp [Program.extent, handle, Op.extent, Op.bnez, Op.mv]
  have moved : ∀ (x : Argument) (l : Label), (moved x l).extent ≤ 40 := by
    intro x l
    rw [Handler.moved]
    split
    · rw [loadFloat]
      split <;> simp [Program.extent, Op.extent]
    · exact (fetched ..).trans (by omega)
    · rw [Program.extent_append]
      exact Nat.add_le_add (fetched ..) (le_refl 13)
  have moves : ∀ n, (moves n args).extent ≤ 40 * args.length := by
    induction args with
    | nil => exact fun _ => le_rfl
    | cons x rest ih =>
        intro n
        have here := moved x ⟨(n + 1 : Nat)⟩
        have later := ih (n + 1)
        rw [Handler.moves, Program.extent_append, List.length_cons]
        omega
  rw [body, Program.extent_append]
  exact Nat.add_le_add (moves 0) (le_refl 12)

/-- The code of a handler is short where its arguments are few. -/
theorem Handler.generate_short {sig : Signature} {static : Bool} {rh : Dword} {e : Extensions}
    {code : Bytes} (values : ∀ t ∈ sig.params, t ≠ .void)
    (made : generate sig static rh e = .ok code) :
    code.length ≤ instructionSize * (40 * (argumentTypes sig static).length + 12) := by
  obtain ⟨a, b, start, ran, -, same⟩ := generates_values static rh e values
  obtain rfl : code = b.code := Except.ok.inj (made.symm.trans same)
  obtain ⟨inv, -⟩ := Program.emitted start _ ran
  have extent := body_extent (arguments 0 (counted (reserved static) 0) (argumentTypes sig static)) rh
  rw [arguments_length] at extent
  rw [inv.code_length, List.nil_append]
  exact Nat.mul_le_mul_left _ ((Program.emissions_extent _ _).trans extent)

theorem Linked.Even.start {c : Linked} (even : c.Even) {addr : Dword} {p : Program}
    (placed : c.Has addr p) {i : Instruction} (member : .instruction i ∈ p) : addr &&& 1 = 0 := by
  induction p generalizing addr with
  | nil => cases member
  | cons op p ih =>
      obtain ⟨lines, -, later⟩ := placed
      cases emitted : op.emissions (addr - c.origin).toNat with
      | cons e es =>
          rw [emitted] at lines
          exact even addr _ lines.1
      | nil =>
          rw [emitted, List.length_nil, Nat.mul_zero, BitVec.add_zero] at later
          rcases List.mem_cons.mp member with rfl | member
          · cases emitted
          · exact ih later member

namespace Invocation

section Contracts
variable (a : Invocation) (i : Interpreter) (code : Dword → Prop) {σ : Type}
  (env : Environment σ)

def kind : EntryKind :=
  if a.native then if a.synchronized then .nativeSynchronized else .native
  else if a.synchronized then .normalSynchronized else .normal

/-- The interpreter is in memory, and the environment leaves it alone. -/
structure Installed : Prop where
  cleared : a.start.Zeroed
  loaded : a.start.memory.read i.base i.code.length = i.code
  even : i.base &&& 1 = 0
  within : ∀ x, i.Covers x → code x
  quiet : ∀ x, i.Covers x → env.trap x = none
  thread_code : ∀ x, a.InThread x → ¬code x

/-- The record of an accepted method is in memory, and the last parameter is a word. -/
structure Described : Prop where
  accepted : a.method.problem? = none
  record : ∃ bytes, a.cfg.method.encode a.method = some bytes ∧
    a.start.memory.read a.record bytes.length = bytes
  aligned : a.lastParameter.toNat % wordSize = 0

/-- An entry is called that builds a frame: code, records and stack lie apart. -/
structure Lodged : Prop extends a.Installed i code env where
  entry : i.entry? a.kind = some a.start.pc
  stack_code : ∀ x, a.Owns x → ¬code x
  record_code : ∀ x, a.InRecord x → ¬code x
  stack_record : ∀ x, a.Owns x → ¬a.InRecord x
  stack_thread : ∀ x, a.Owns x → ¬a.InThread x
  record_thread : ∀ x, a.InRecord x → ¬a.InThread x

/-- An entry is called with the record of an accepted method. -/
structure Entrance : Prop extends a.Lodged i code env, a.Described

/-- An entry is called with a record that can be read, also after the invocation was counted. -/
structure Admitted : Prop extends a.Lodged i code env, a.Recorded where
  counting : a.Counting

variable (b : Binding)

/-- A native method is bound, from the start or later, to a function and to the handler that the
library makes for its signature. -/
structure Supplied : Prop where
  declares : a.method.Declares b.signature
  result : b.result = i.resultHandler b.signature.result
  made : Handler.generate b.signature a.method.flags.isStatic b.result i.extensions = .ok b.code
  even : b.handler &&& 1 = 0
  within : ∀ x, b.Covers x → code x
  quiet : ∀ x, b.Covers x → env.trap x = none
  known : a.method.signatureHandler ≠ 0 → a.method.nativeFunction ≠ 0 → a.Bound b a.start.memory

end Contracts

variable {a : Invocation} {i : Interpreter} {code : Dword → Prop} {c : Linked} {b : Binding}
  {σ : Type} {env : Environment σ}

theorem Described.recorded (described : a.Described) (sound : a.cfg.Sound) : a.Recorded := by
  have counted := Method.counted_of_accepted described.accepted
  have fewer := counted.parameters
  have locals := counted.locals
  have stack := counted.stack
  refine ⟨counted, fun w member => ?_, described.aligned⟩
  obtain ⟨bytes, made, held⟩ := described.record
  refine a.cfg.method.encoded_field sound.fields made held w member ?_
  have flags : (a.method.flags.bits.setWidth 64).toNat < 256 ^ 4 := by
    rw [BitVec.toNat_setWidth]
    omega
  have count : (a.method.invocationCount.setWidth 64).toNat < 256 ^ 4 := by
    rw [BitVec.toNat_setWidth]
    omega
  have word : ∀ v : Dword, v.toNat < 256 ^ 8 := fun v => v.isLt
  revert w
  simp only [MethodField.contents, List.forall_mem_cons]
  refine ⟨flags, count, ?_, ?_, ?_, word _, word _, word _, word _, word _, word _,
    List.forall_mem_nil _⟩
  all_goals
    simp only [MethodField.width]
    omega

/-- The fields of a sound record do not overlap, so the count is apart from all others. -/
theorem counting_of_sound (sound : a.cfg.Sound) : a.Counting := by
  have others : ∀ g ∈ a.fixedFields, MethodField.invocationCounter ≠ g := by
    rw [fixedFields]
    split <;> decide
  intro _ g member x field
  have parted := Config.fields_parted sound.accepted sound.fields
  exact parted.disjoint (fixed_in_record g member) (by decide) (others g member).symm (by decide)
    a.record x field

theorem Entrance.admitted (entrance : a.Entrance i code env) (sound : a.cfg.Sound) :
    a.Admitted i code env where
  toLodged := entrance.toLodged
  toRecorded := entrance.toDescribed.recorded sound
  counting := counting_of_sound sound

theorem Admitted.entered (admitted : a.Admitted i code env)
    (words : a.cfg.thread.Parted ThreadField.inRecord) : a.Entered code where
  toRecorded := admitted.toRecorded
  counting := admitted.counting
  words := words
  stack_code := admitted.stack_code
  record_code := admitted.record_code
  thread_code := admitted.thread_code
  stack_record := admitted.stack_record
  stack_thread := admitted.stack_thread
  record_thread := admitted.record_thread

section Installed
variable (installed : a.Installed i code env) (image : Interpreter.Image a.cfg i c)
include installed image

theorem Installed.quiet_code : c.Quiet env := fun addr _ lies =>
  installed.quiet addr (image.inside addr ⟨addr, _, lies, 0, by omega, (BitVec.add_zero _).symm⟩)

omit installed in
theorem Shared.of_image : a.Shared c where
  forward := image.at_label (r := .forwardException) rfl
  exceptional := image.at_label (r := .removeActivationException) rfl
  removal := image.at_label (r := .removeActivation) rfl
  overflow := image.at_label (r := .throwStackOverflow) rfl

theorem Installed.stands {k : EntryKind} {p : Program} (entry : i.entry? k = some a.start.pc)
    (made : Entry.program? a.cfg i.extensions k = some p) : c.Stands a.start p := by
  exact ⟨installed.cleared, image.loaded _ installed.loaded, image.placed (r := .entry k) made entry⟩

theorem Installed.inside (x : Dword) (there : c.InCode x) : code x :=
  installed.within x (image.inside x there)

/-- What lies apart from the code, and is not watched, may be stored to unnoticed. -/
theorem Installed.uncovered {x : Dword} (unseen : c.watched x = false) (apart : ¬code x) :
    ¬c.Covers x := by
  rintro (there | seen)
  · exact apart (installed.inside image x there)
  · exact Bool.noConfusion (unseen.symm.trans seen)

theorem Installed.bare (sound : a.cfg.Sound) (watched : c.watched = a.watches)
    (spared : a.Spared code) : a.Bare code c :=
  ⟨spared, installed.inside image, watched, sound.parted, installed.thread_code⟩

end Installed

section Entrance
variable (lodged : a.Lodged i code env) (image : Interpreter.Image a.cfg i c)
include image

theorem Admitted.around (admitted : a.Admitted i code env)
    (words : a.cfg.thread.Parted ThreadField.inRecord) (watched : c.watched = a.watches) :
    a.Around code c env Exit.removeActivationException where
  housed := ⟨admitted.entered words, fun x inside => admitted.within x (image.inside x inside),
    watched⟩
  quiet := admitted.quiet_code image
  there := (Shared.of_image image).exceptional

theorem Entrance.around (entrance : a.Entrance i code env) (sound : a.cfg.Sound)
    (watched : c.watched = a.watches) : a.Around code c env Exit.removeActivationException :=
  (entrance.admitted sound).around image sound.parted watched

include lodged

theorem Lodged.stands_interpreted (interpreted : a.native = false) :
    c.Stands a.start (Entry.interpreted a.cfg i.extensions a.synchronized) := by
  refine lodged.stands image lodged.entry ?_
  rw [kind, interpreted]
  cases a.synchronized <;> rfl

theorem Lodged.stands_native (native : a.native = true) :
    c.Stands a.start (Entry.native a.cfg i.extensions a.synchronized) := by
  refine lodged.stands image lodged.entry ?_
  rw [kind, native]
  cases a.synchronized <;> rfl

theorem Supplied.bridged (supplied : a.Supplied i code env b) (native : a.native = true) :
    ∃ h, a.Bridged code env c b i.Covers h i.extensions := by
  obtain ⟨h, loaded, inside, placed⟩ := Handler.image supplied.declares.values supplied.made b.handler
  have even := image.even lodged.even
  have converts := image.converts b.signature.result
  rw [← supplied.result] at converts
  refine ⟨h.watching a.watches, native, lodged.within, image.inside, supplied.within,
    supplied.known, ⟨supplied.declares.values, supplied.declares.parameters, supplied.even, rfl,
      inside, loaded, Linked.has_watching _ placed⟩, ?_, even, converts, ?_⟩
  · intro addr j lies
    exact supplied.quiet addr (inside addr ⟨addr, j, lies, 0, by omega, (BitVec.add_zero _).symm⟩)
  · exact even.start converts (i := Pseudo.ret) (by simp [Exit.resultHandler, Op.ret])

end Entrance

end Invocation

end EntryCode
