import EntryCode.Proofs.Assembler.Extent
import EntryCode.Proofs.Assembler.Pseudo
import EntryCode.Proofs.Native.Arguments

/-!
Handlers can be generated for every signature. Each argument is moved by a program that stays
inside itself and takes one label at most, so the whole handler does too.
-/

namespace EntryCode.Handler

open Pinned

def access : BasicType → LoadOp
  | .boolean => .lbu
  | .byte => .lb
  | .char => .lhu
  | .short => .lh
  | .int => .lw
  | .float => .lwu
  | _ => .ld

/-- Passes an object: the address of its local, or null. -/
def handle (rd : Register) (off : Dword) (notNull : Label) : Program :=
  [Op.load .ld .t1 locals (.constant off) .t2, .addConstant rd locals off .t2] ++
    [Op.bnez .t1 notNull, .mv rd .zero, .bind notNull]

def fetched (t : BasicType) (rd : Register) (off : Dword) (notNull : Label) : Program :=
  if t = .object then handle rd off notNull
  else [.load (access t) rd locals (.constant off) .t2]

def moved (a : Argument) (notNull : Label) : Program :=
  match a.location with
  | .float fd => loadFloat (if a.type = .float then .single else .double) fd a.offset
  | .integer rd => fetched a.type rd a.offset notNull
  | .stack off => fetched a.type .t0 a.offset notNull ++ [Op.store .sd .t0 .sp (.constant off) .t1]

theorem load_integer_ok (t : BasicType) (rd : Register) (off : Dword) (l : Label)
    (value : t ≠ .void) : loadInteger t rd off l = .ok (fetched t rd off l) := by
  cases t with
  | void => exact absurd rfl value
  | _ => rfl

theorem pass_ok (a : Argument) (l : Label) (value : a.type ≠ .void) :
    pass a l = .ok (moved a l) := by
  rw [pass, moved]
  cases a.location with
  | float fd => rfl
  | integer rd => exact load_integer_ok a.type rd a.offset l value
  | stack off =>
      simp only [load_integer_ok a.type .t0 a.offset l value]
      rfl

/-- Moves arguments, of which the first has number `n`. -/
def moves (n : Nat) : List Argument → Program
  | [] => []
  | a :: rest => moved a ⟨(n + 1 : Nat)⟩ ++ moves (n + 1) rest

theorem moves_ok (args : List Argument) (n : Nat) (values : ∀ a ∈ args, a.type ≠ .void) :
    ∃ parts, (args.mapIdx fun i a => (a, i + n)).mapM
      (fun (a, i) => pass a ⟨(i + 1 : Nat)⟩) = .ok parts ∧ parts.flatten = moves n args := by
  induction args generalizing n with
  | nil => exact ⟨[], rfl, rfl⟩
  | cons a rest ih =>
      rw [List.forall_mem_cons] at values
      obtain ⟨parts, passed, flat⟩ := ih (n + 1) values.2
      refine ⟨moved a ⟨(n + 1 : Nat)⟩ :: parts, ?_, by rw [List.flatten_cons, flat, moves]⟩
      have shift : (fun (i : Nat) (b : Argument) => (b, i + 1 + n)) = fun i b => (b, i + (n + 1)) := by
        funext i b
        rw [Nat.add_assoc, Nat.add_comm 1 n]
      rw [List.mapIdx_cons, List.mapM_cons, Nat.zero_add, shift, passed]
      simp only [pass_ok a _ values.1]
      rfl

def body (args : List Argument) (resultHandler : Dword) : Program :=
  moves 0 args ++ [Op.constant .a0 resultHandler, .ret]

theorem program_ok (sig : Signature) (static : Bool) (resultHandler : Dword)
    {args : List Argument} (typed : ∀ a ∈ args, a.type ≠ .void)
    (assigned : arguments 0 (.initial static) (argumentTypes sig static) = args) :
    program sig static resultHandler = .ok (.comment s!"signature handler {sig.key static}" ::
      (List.replicate args.length Op.newLabel ++ body args resultHandler)) := by
  obtain ⟨parts, passed, flat⟩ := moves_ok args 0 typed
  simp only [Nat.add_zero] at passed
  simp only [program, assigned, passed, bind, Except.bind, pure, Except.pure, flat, body,
    List.append_assoc, List.cons_append, List.nil_append]

/-- An argument with a place of the calling convention. -/
structure Argument.Fine (a : Argument) : Prop where
  value : a.type ≠ .void
  integer : ∀ r, a.location = .integer r → r ∈ Register.arguments
  float : ∀ f, a.location = .float f → f ∈ FloatRegister.arguments ∧ a.type.isFloating = true

theorem spot_fine (t : BasicType) (off : Dword) (q j : Nat) (value : t ≠ .void) :
    Argument.Fine ⟨t, off, spot t q j⟩ := by
  have integers : ∀ i < 8, (⟨BitVec.ofNat 8 (10 + i)⟩ : Register) ∈ Register.arguments := by decide
  have floats : ∀ i < 8, (⟨BitVec.ofNat 8 (10 + i)⟩ : FloatRegister) ∈ FloatRegister.arguments := by
    decide
  refine ⟨value, ?_, ?_⟩
  · intro r place
    simp only [spot] at place
    split at place
    · cases place
    · split at place
      · cases place
        exact integers q ‹_›
      · cases place
  · intro f place
    simp only [spot] at place
    split at place
    · rename_i takes
      cases place
      simp only [takesFloat, Bool.and_eq_true, decide_eq_true_eq] at takes
      exact ⟨floats j takes.2, takes.1⟩
    · split at place <;> cases place

theorem arguments_fine (slot q j : Nat) (ts : List BasicType) (values : ∀ t ∈ ts, t ≠ .void) :
    ∀ a ∈ arguments slot (counted q j) ts, a.Fine := by
  induction ts generalizing slot q j with
  | nil => simp [arguments]
  | cons t rest ih =>
      rw [List.forall_mem_cons] at values
      rw [arguments_cons, List.forall_mem_cons]
      refine ⟨spot_fine t _ q j values.1, ?_⟩
      split
      · exact ih _ _ _ values.2
      · exact ih _ _ _ values.2

def targets : List Register :=
  .t0 :: Register.arguments

theorem targets_usable : ∀ rd ∈ targets, rd.isValid = true ∧ rd.code ≠ 0 ∧
    Register.distinct [rd, locals, .t2] = true ∧ rd.code ≠ Register.t1.code ∧
    rd.code ≠ Register.t2.code ∧ rd.code ≠ locals.code := by
  decide

theorem floats_valid : ∀ f ∈ FloatRegister.arguments, f.isValid = true := by
  decide

section Static
variable {e : Extensions}

theorem handle_admissible {rd : Register} (usable : rd ∈ targets) (off : Dword) (l : Label) :
    ∀ op ∈ handle rd off l, op.Admissible e := by
  obtain ⟨valid, -⟩ := targets_usable rd usable
  simp only [handle, List.mem_append, List.mem_cons, List.not_mem_nil, or_false]
  rintro op ((rfl | rfl) | rfl | rfl | rfl)
  · exact Pseudo.load_emittable .ld rfl rfl rfl (by decide) (by decide)
  · exact Pseudo.add_constant_emittable valid rfl rfl (by decide) (by decide)
  · exact ⟨rfl, rfl, rfl, by rw [Format.Reaches]; decide⟩
  · simp [Op.mv, Pseudo.mv, Op.Admissible, Instruction.Encodable, Instruction.Available,
      Instruction.requirement?, valid]
    decide
  · trivial

theorem fetched_admissible {rd : Register} (usable : rd ∈ targets) (t : BasicType) (off : Dword)
    (l : Label) : ∀ op ∈ fetched t rd off l, op.Admissible e := by
  obtain ⟨valid, -, distinct, -⟩ := targets_usable rd usable
  rw [fetched]
  split
  · exact handle_admissible usable off l
  · rw [List.forall_mem_singleton]
    exact Pseudo.load_emittable _ valid rfl rfl distinct (by decide)

theorem load_float_admissible {fd : FloatRegister} (valid : fd.isValid = true)
    (width : FloatWidth) (off : Dword) : ∀ op ∈ loadFloat width fd off, op.Admissible e := by
  rw [loadFloat]
  split
  · rename_i fits
    rw [List.forall_mem_singleton]
    simp [Op.Admissible, Instruction.Encodable, Instruction.Available, Instruction.requirement?,
      valid, fits]
    decide
  · simp only [List.forall_mem_cons, List.not_mem_nil, false_imp_iff, implies_true, and_true]
    refine ⟨Pseudo.add_constant_emittable rfl rfl rfl (by decide) (by decide), ?_⟩
    simp [Op.Admissible, Instruction.Encodable, Instruction.Available, Instruction.requirement?,
      valid]
    decide

theorem moved_admissible {a : Argument} (fine : a.Fine) (l : Label) :
    ∀ op ∈ moved a l, op.Admissible e := by
  rw [moved]
  cases place : a.location with
  | float fd => exact load_float_admissible (floats_valid fd (fine.float fd place).1) _ _
  | integer rd =>
      exact fetched_admissible (List.mem_cons_of_mem _ (fine.integer rd place)) _ _ _
  | stack off =>
      simp only [List.forall_mem_append, List.forall_mem_singleton]
      exact ⟨fetched_admissible List.mem_cons_self _ _ _,
        Pseudo.store_emittable .sd rfl rfl rfl (by decide) (by decide)⟩

section Labels
variable {a : Argument} {l k : Label}

theorem load_float_labels (width : FloatWidth) (fd : FloatRegister) (off : Dword) :
    (loadFloat width fd off).filterMap Op.label? = [] ∧
      (loadFloat width fd off).filterMap Op.binding? = [] := by
  rw [loadFloat]
  split <;> exact ⟨rfl, rfl⟩

theorem fetched_labels (t : BasicType) (rd : Register) (off : Dword) :
    (fetched t rd off l).filterMap Op.label? = (if t = .object then [l] else []) ∧
      (fetched t rd off l).filterMap Op.binding? = if t = .object then [l] else [] := by
  rw [fetched, handle]
  split <;> exact ⟨rfl, rfl⟩

/-- Only an object takes a label, which it goes to and binds. -/
theorem moved_mentions : ∃ own : List Label, own.Sublist [l] ∧
    (moved a l).filterMap Op.label? = own ∧ (moved a l).filterMap Op.binding? = own := by
  have object : (if a.type = .object then [l] else []).Sublist [l] := by
    split
    · exact .refl _
    · exact List.nil_sublist _
  rw [moved]
  cases a.location with
  | float fd => exact ⟨[], List.nil_sublist _, load_float_labels ..⟩
  | integer rd => exact ⟨_, object, fetched_labels ..⟩
  | stack off =>
      obtain ⟨goes, binds⟩ := fetched_labels (l := l) a.type .t0 a.offset
      refine ⟨_, object, ?_, ?_⟩
      · rw [List.filterMap_append, goes]
        exact List.append_nil _
      · rw [List.filterMap_append, binds]
        exact List.append_nil _

theorem moved_labels : ∀ op ∈ moved a l,
    (op.label? = some k → k = l) ∧ (op.binding? = some k → k = l) := by
  obtain ⟨own, among, goes, binds⟩ := moved_mentions (a := a) (l := l)
  have only : k ∈ own → k = l := fun member => List.mem_singleton.mp (among.subset member)
  intro op member
  exact ⟨fun mentions => only (goes ▸ List.mem_filterMap.mpr ⟨op, member, mentions⟩),
    fun mentions => only (binds ▸ List.mem_filterMap.mpr ⟨op, member, mentions⟩)⟩

theorem moved_binds_once : ((moved a l).filterMap Op.binding?).Nodup := by
  obtain ⟨own, among, -, binds⟩ := moved_mentions (a := a) (l := l)
  rw [binds]
  exact among.nodup (List.nodup_singleton l)

theorem fetched_closed (t : BasicType) (rd : Register) (off : Dword) :
    (fetched t rd off l).Closed := by
  rw [fetched]
  split
  · refine Program.ClosedBut.append
      (Program.closed_of_silent (List.filterMap_eq_nil_iff.mp rfl))
      (Program.closed_skip .ne .t1 .zero _ l ⟨rfl, rfl, rfl, by rw [Format.Reaches]; decide⟩) ?_
    simp
  · exact Program.closed_of_silent (List.forall_mem_singleton.mpr rfl)

theorem moved_closed : (moved a l).Closed := by
  rw [moved]
  cases a.location with
  | float fd =>
      exact Program.closed_of_silent (List.filterMap_eq_nil_iff.mp (load_float_labels ..).1)
  | integer rd => exact fetched_closed _ _ _
  | stack off =>
      refine Program.ClosedBut.append (fetched_closed _ _ _)
        (Program.closed_of_silent (List.forall_mem_singleton.mpr rfl)) ?_
      rintro k ⟨op, member, goes⟩
      obtain rfl := List.mem_singleton.mp member
      cases goes

end Labels

section Whole
variable {args : List Argument} {n : Nat}

theorem moves_admissible (fine : ∀ a ∈ args, a.Fine) :
    ∀ op ∈ moves n args, op.Admissible e := by
  induction args generalizing n with
  | nil => simp [moves]
  | cons a rest ih =>
      rw [List.forall_mem_cons] at fine
      rw [moves, List.forall_mem_append]
      exact ⟨moved_admissible fine.1 _, ih fine.2⟩

/-- Argument `n` has label `n + 1`. -/
theorem moves_labels {k : Label} : ∀ op ∈ moves n args,
    op.label? = some k ∨ op.binding? = some k →
      ∃ i, n ≤ i ∧ i < n + args.length ∧ k = ⟨(i + 1 : Nat)⟩ := by
  induction args generalizing n with
  | nil => simp [moves]
  | cons a rest ih =>
      rw [moves, List.forall_mem_append]
      constructor
      · intro op member mentions
        obtain ⟨goes, binds⟩ := moved_labels (k := k) op member
        exact ⟨n, le_rfl, by simp, mentions.elim goes binds⟩
      · intro op member mentions
        obtain ⟨i, later, inside, named⟩ := ih op member mentions
        exact ⟨i, by omega, by rw [List.length_cons]; omega, named⟩

theorem moves_bind_once : ((moves n args).filterMap Op.binding?).Nodup := by
  induction args generalizing n with
  | nil => simp [moves]
  | cons a rest ih =>
      rw [moves, List.filterMap_append, List.nodup_append]
      refine ⟨moved_binds_once, ih, ?_⟩
      rintro _ first k second rfl
      obtain ⟨op, member, binds⟩ := List.mem_filterMap.mp first
      obtain rfl := (moved_labels op member).2 binds
      obtain ⟨op', member', binds'⟩ := List.mem_filterMap.mp second
      obtain ⟨i, later, -, same⟩ := moves_labels op' member' (.inr binds')
      simp only [Label.mk.injEq] at same
      omega

theorem moves_closed : (moves n args).Closed := by
  induction args generalizing n with
  | nil => exact Program.closed_of_silent (List.forall_mem_nil _)
  | cons a rest ih =>
      rw [moves]
      refine Program.ClosedBut.append moved_closed ih ?_
      rintro l ⟨op, member, goes⟩ - bound
      obtain rfl := (moved_labels (Op.bind l) bound).2 rfl
      obtain ⟨i, later, -, same⟩ := moves_labels op member (.inl goes)
      simp only [Label.mk.injEq] at same
      omega

variable (rh : Dword)

theorem return_admissible : ∀ op ∈ [Op.constant .a0 rh, .ret], op.Admissible e := by
  simp only [List.forall_mem_cons, List.not_mem_nil, false_imp_iff, implies_true, and_true]
  refine ⟨Pseudo.constant_emittable rfl (by decide), ?_⟩
  simp [Op.ret, Pseudo.ret, Pseudo.jr, Op.Admissible, Instruction.Encodable, Instruction.Available,
    Instruction.requirement?]
  decide

/-- After its labels, a handler runs and its code can be finished. -/
theorem body_runs (fine : ∀ a ∈ args, a.Fine) {b : Assembler} (inv : Emitted [] b)
    (unflushed : b.flushed = false) (fresh : ∀ l, b.bound? l = none)
    (known : ∀ i, i < args.length → b.Knows ⟨(i + 1 : Nat)⟩) :
    ∃ c, (Program.run (body args rh)).run b = .ok () c ∧ Emit.unresolved? c = none := by
  have silent : ∀ op ∈ [Op.constant .a0 rh, .ret], op.label? = none :=
    List.filterMap_eq_nil_iff.mp rfl
  have unbound : ∀ op ∈ [Op.constant .a0 rh, .ret], op.binding? = none :=
    List.filterMap_eq_nil_iff.mp rfl
  have closed : (body args rh).Closed := by
    refine Program.ClosedBut.append moves_closed (Program.closed_of_silent silent) ?_
    rintro l ⟨op, member, goes⟩
    rw [silent op member] at goes
    cases goes
  have once : (body args rh).filterMap Op.binding? = (moves 0 args).filterMap Op.binding? := by
    rw [body, List.filterMap_append]
    exact List.append_nil _
  have reach := closed.reached inv fresh
  obtain ⟨c, ran, -⟩ := Program.runs inv (body args rh) unflushed
    (List.forall_mem_append.mpr ⟨moves_admissible fine, return_admissible rh⟩)
    (by
      rw [body, List.forall_mem_append]
      constructor
      · intro op member l mentions
        obtain ⟨i, -, inside, rfl⟩ := moves_labels op member mentions
        exact known i (by omega)
      · intro op member l mentions
        rw [silent op member, unbound op member] at mentions
        exact mentions.elim nofun nofun)
    (fun l _ => fresh l) (once ▸ moves_bind_once) reach
  exact ⟨c, ran, reach.resolved inv ran⟩

/-- The code of a handler and the assembler it was finished by. -/
theorem generates (sig : Signature) (static : Bool)
    (assigned : arguments 0 (.initial static) (argumentTypes sig static) = args)
    (fine : ∀ a ∈ args, a.Fine) :
    ∃ b c, Emitted [] b ∧ (Program.run (body args rh)).run b = .ok () c ∧
      Emit.unresolved? c = none ∧ generate sig static rh e = .ok c.code := by
  obtain ⟨noted, note, unflushed, sizes⟩ : ∃ noted,
      (Op.comment s!"signature handler {sig.key static}").run.run (.new e) = .ok () noted ∧
        noted.flushed = false ∧ noted.labels.size = 0 := ⟨_, rfl, rfl, rfl⟩
  have start := (Emitted.new e).advance _ note
  obtain ⟨b, labelled, inv, opened, bound, size⟩ :=
    new_labels_run start.emitted args.length unflushed
  have fresh : ∀ l, b.bound? l = none := by
    intro l
    rw [bound, start.bound, if_neg (by simp), Assembler.bound_new]
  obtain ⟨c, ran, clear⟩ := body_runs rh fine inv opened.1 fresh (by
    intro i inside
    rw [Assembler.knows_iff_index]
    exact ⟨i, by omega, rfl⟩)
  refine ⟨b, c, inv, ran, clear, ?_⟩
  have whole : (Program.run (.comment s!"signature handler {sig.key static}" ::
      (List.replicate args.length Op.newLabel ++ body args rh))).run (.new e) = .ok () c :=
    (Program.run_cons _ _).mpr ⟨noted, note, (Program.run_append _ _).mpr ⟨b, labelled, ran⟩⟩
  have finished : (do Program.run (.comment s!"signature handler {sig.key static}" ::
      (List.replicate args.length Op.newLabel ++ body args rh)); Emit.flush : Emit Bytes).run
        (.new e) = .ok c.code { c with flushed := true } :=
    Emit.bind_ok.mpr ⟨(), c, whole, Emit.flush_ok.mpr ⟨clear, rfl, rfl⟩⟩
  rw [generate, program_ok sig static rh (fun a member => (fine a member).value) assigned]
  simp only [bind, Except.bind]
  exact finished ▸ rfl

end Whole

end Static

end EntryCode.Handler
