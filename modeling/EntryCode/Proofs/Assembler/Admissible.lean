import EntryCode.Proofs.Assembler.Labels

/-!
Programs that break no rule. The conditions are static: every operation has operands that can be
encoded, labels are known and bound once, and every branch reaches its label.
-/

namespace EntryCode

def Emittable (e : Extensions) (is : Except Violation (List Instruction)) : Prop :=
  ∃ plain, is = .ok plain ∧ ∀ i ∈ plain, i.Encodable ∧ i.Available e

/-- Whether an operation breaks no rule, wherever its labels are. Branches to positions and the
end of the code are left out. -/
def Op.Admissible (e : Extensions) : Op → Prop
  | .instruction i => i.Encodable ∧ i.Available e
  | .branch c rs1 rs2 _ => (Instruction.branch c rs1 rs2 0).Encodable
  | .jump rd _ => (Instruction.jump rd 0).Encodable
  | .constant rd v => Emittable e (Constant.load rd v)
  | .callAddress addr tmp => Emittable e (Pseudo.callAddress addr tmp)
  | .jumpAddress addr tmp => Emittable e (Pseudo.jumpAddress addr tmp)
  | .addConstant rd rs v tmp => Emittable e (Pseudo.addConstant rd rs v tmp)
  | .load op rd base offset tmp => Emittable e (Pseudo.load op rd base offset tmp)
  | .store op src base offset tmp => Emittable e (Pseudo.store op src base offset tmp)
  | .newLabel | .bind _ | .comment _ => True
  | .branchTo .. | .jumpTo .. | .flush => False

def Op.binding? : Op → Option Label
  | .bind l => some l
  | _ => none

theorem Op.binding_iff {op : Op} {l : Label} : op.binding? = some l ↔ op = .bind l := by
  cases op with
  | bind k => simp [binding?]
  | _ => simp [binding?]

theorem Format.reaches_zero {w : Nat} (positive : 0 < w) (short : w ≤ 32) :
    Format.Reaches w 0#64 := by
  refine ⟨rfl, (Field.fits_signed_iff 0 w positive (by omega)).mpr ?_⟩
  have power : (0 : Int) < 2 ^ (w - 1) := by positivity
  rw [show (0 : Dword).toInt = 0 from rfl]
  omega

theorem Emission.encodable_zero (e : Emission) (disp : Dword)
    (encodable : (e.instruction disp).Encodable) : (e.instruction 0).Encodable := by
  cases e with
  | plain i => exact encodable
  | branch c rs1 rs2 l =>
      exact ⟨encodable.1, encodable.2.1, encodable.2.2.1,
        Format.reaches_zero (by omega) (by omega)⟩
  | jump rd l => exact ⟨encodable.1, Format.reaches_zero (by omega) (by omega)⟩

section Runs
variable {es : List Emission} {a : Assembler}

/-- What stays as it is while no rule is broken and the code is not finished. -/
def Assembler.Open (a b : Assembler) : Prop :=
  b.flushed = false ∧ b.extensions = a.extensions

theorem sequence_runs (is : Except Violation (List Instruction)) (unflushed : a.flushed = false)
    (fine : Emittable a.extensions is) :
    ∃ b, (Emit.sequence is).run a = .ok () b ∧ a.Open b := by
  obtain ⟨plain, rfl, each⟩ := fine
  exact ⟨_, Emit.sequence_ok.mpr ⟨plain, rfl, Emit.instructions_run plain each unflushed⟩,
    unflushed, rfl⟩

theorem bind_runs (inv : Emitted es a) (l : Label) (unflushed : a.flushed = false)
    (known : a.Knows l) (fresh : a.bound? l = none)
    (reach : ∀ (i : Nat) (e : Emission), es[i]? = some e → e.label? = some l → (e.instruction
      (BitVec.ofNat 64 a.pos - BitVec.ofNat 64 (instructionSize * i))).Encodable) :
    ∃ b, (Emit.bind l).run a = .ok () b ∧ a.Open b := by
  have reached : ∀ i e, instructionSize * i ∈ a.waiting l → es[i]? = some e → (e.instruction
      (BitVec.ofNat 64 a.pos - BitVec.ofNat 64 (instructionSize * i))).Encodable := by
    intro i e waits found
    obtain ⟨j, e', same, found', directed⟩ := inv.sites l _ waits
    obtain rfl : i = j := by
      simp only [instructionSize] at same
      omega
    obtain rfl : e = e' := Option.some.inj (found.symm.trans found')
    exact reach i e found directed
  obtain ⟨c, patched⟩ :=
    Emitted.patches_run l a.pos (a.waiting l) (inv.waiting_sites l) reached
  have fields := (Emitted.patches l a.pos (a.waiting l) (inv.waiting_sites l) patched).1
  refine ⟨_, Emit.bind_label_ok.mpr ⟨unflushed, known, fresh, c, patched, rfl⟩, ?_, ?_⟩
  · rw [fields]
    exact unflushed
  · rw [fields]
    rfl

theorem Op.runs (inv : Emitted es a) (op : Op) (unflushed : a.flushed = false)
    (admissible : op.Admissible a.extensions)
    (known : ∀ l, op.label? = some l ∨ op.binding? = some l → a.Knows l)
    (fresh : ∀ l, op.binding? = some l → a.bound? l = none)
    (onward : ∀ e l, op.emissions a.pos = [e] → e.label? = some l →
      (e.instruction (a.displacement l a.pos)).Encodable)
    (back : ∀ l, op.binding? = some l → ∀ (i : Nat) (e : Emission), es[i]? = some e →
      e.label? = some l → (e.instruction
        (BitVec.ofNat 64 a.pos - BitVec.ofNat 64 (instructionSize * i))).Encodable) :
    ∃ b, op.run.run a = .ok () b ∧ a.Open b := by
  cases op with
  | instruction i =>
      exact ⟨_, Emit.instruction_ok.mpr ⟨Emit.require_ok.mpr admissible.2, admissible.1,
        unflushed, rfl⟩, unflushed, rfl⟩
  | branch c rs1 rs2 l =>
      refine ⟨_, Emit.branch_ok.mpr ⟨known l (.inl rfl), onward (.branch c rs1 rs2 l) l rfl rfl,
        unflushed, rfl⟩, ?_⟩
      exact ⟨(a.flushed_await l).trans unflushed, a.extensions_await l⟩
  | jump rd l =>
      refine ⟨_, Emit.jump_ok.mpr ⟨known l (.inl rfl), onward (.jump rd l) l rfl rfl,
        unflushed, rfl⟩, ?_⟩
      exact ⟨(a.flushed_await l).trans unflushed, a.extensions_await l⟩
  | constant | callAddress | jumpAddress | addConstant | load | store =>
      exact sequence_runs _ unflushed admissible
  | newLabel => exact ⟨a.addLabel, rfl, unflushed, rfl⟩
  | bind l =>
      exact bind_runs inv l unflushed (known l (.inr rfl)) (fresh l rfl) (back l rfl)
  | comment text => exact ⟨_, rfl, unflushed, rfl⟩
  | branchTo | jumpTo | flush => exact absurd admissible id

/-- Every emission to a label reaches it, where the label is bound now or by `p`. -/
def Reached (es : List Emission) (a : Assembler) (p : Program) : Prop :=
  ∀ (i : Nat) (e : Emission) (l : Label), (es ++ p.emissions a.pos)[i]? = some e →
    e.label? = some l → ∃ target, (a.bound? l).or (p.place l a.pos) = some target ∧
      (e.instruction (BitVec.ofNat 64 target - BitVec.ofNat 64 (instructionSize * i))).Encodable

theorem Reached.onward {op : Op} {rest : Program} (inv : Emitted es a)
    (reach : Reached es a (op :: rest)) (e : Emission) (l : Label)
    (emits : op.emissions a.pos = [e]) (directed : e.label? = some l) :
    (e.instruction (a.displacement l a.pos)).Encodable := by
  have found : (es ++ Program.emissions a.pos (op :: rest))[es.length]? = some e := by
    simp [Program.emissions, emits]
  obtain ⟨target, bound, encodable⟩ := reach es.length e l found directed
  rw [← inv.pos] at encodable
  cases here : a.bound? l with
  | none =>
      rw [Assembler.displacement, here]
      exact e.encodable_zero _ encodable
  | some t =>
      rw [here, Option.some_or, Option.some.injEq] at bound
      rw [Assembler.displacement, here, bound]
      exact encodable

theorem Reached.back {l : Label} {rest : Program} (reach : Reached es a (.bind l :: rest))
    (fresh : a.bound? l = none) (i : Nat) (e : Emission) (found : es[i]? = some e)
    (directed : e.label? = some l) :
    (e.instruction (BitVec.ofNat 64 a.pos - BitVec.ofNat 64 (instructionSize * i))).Encodable := by
  obtain ⟨inside, -⟩ := List.getElem?_eq_some_iff.mp found
  have earlier : (es ++ Program.emissions a.pos (.bind l :: rest))[i]? = some e := by
    rwa [List.getElem?_append_left inside]
  obtain ⟨target, bound, encodable⟩ := reach i e l earlier directed
  rw [fresh, Option.none_or, Program.place, if_pos rfl, Option.some.injEq] at bound
  rwa [bound]

theorem Reached.step {op : Op} {rest : Program} {b : Assembler} (inv : Emitted es a)
    (advance : Emitted.Advance op es a b) (reach : Reached es a (op :: rest)) :
    Reached (es ++ op.emissions a.pos) b rest := by
  intro i e l found directed
  rw [advance.place inv]
  apply reach i e l _ directed
  rwa [advance.pos inv, List.append_assoc] at found

/-- A program of admissible operations succeeds where all its branches reach. The emissions `es`
came before it and may go to labels that it binds. -/
theorem Program.runs (inv : Emitted es a) (p : Program) (unflushed : a.flushed = false)
    (admissible : ∀ op ∈ p, op.Admissible a.extensions)
    (known : ∀ op ∈ p, ∀ l, op.label? = some l ∨ op.binding? = some l → a.Knows l)
    (fresh : ∀ l ∈ p.filterMap Op.binding?, a.bound? l = none)
    (once : (p.filterMap Op.binding?).Nodup) (reach : Reached es a p) :
    ∃ b, (Program.run p).run a = .ok () b ∧ a.Open b := by
  induction p generalizing es a with
  | nil => exact ⟨a, rfl, unflushed, rfl⟩
  | cons op rest ih =>
      rw [List.forall_mem_cons] at admissible known
      have unbound : ∀ l, op.binding? = some l → a.bound? l = none := by
        intro l binds
        exact fresh l (by simp [binds])
      have back : ∀ l, op.binding? = some l → ∀ (i : Nat) (e : Emission), es[i]? = some e →
          e.label? = some l → (e.instruction
            (BitVec.ofNat 64 a.pos - BitVec.ofNat 64 (instructionSize * i))).Encodable := by
        intro l binds
        obtain rfl := Op.binding_iff.mp binds
        exact reach.back (unbound l binds)
      obtain ⟨c, ran, unflushed', extensions⟩ :=
        op.runs inv unflushed admissible.1 known.1 unbound (reach.onward inv) back
      have step := inv.advance op ran
      have other : ∀ l ∈ rest.filterMap Op.binding?, op ≠ .bind l := by
        rintro l member rfl
        exact (List.nodup_cons.mp once).1 member
      have fresh' : ∀ l ∈ rest.filterMap Op.binding?, c.bound? l = none := by
        intro l member
        rw [step.bound, if_neg (other l member)]
        obtain ⟨op', inside, binds⟩ := List.mem_filterMap.mp member
        exact fresh l (List.mem_filterMap.mpr ⟨op', List.mem_cons_of_mem _ inside, binds⟩)
      have once' : (rest.filterMap Op.binding?).Nodup :=
        once.sublist ((List.sublist_cons_self op rest).filterMap _)
      obtain ⟨b, later, unflushed'', extensions'⟩ := ih step.emitted unflushed'
        (extensions ▸ admissible.2)
        (fun op' member l mentions => step.known l (known.2 op' member l mentions))
        fresh' once' (reach.step inv step)
      exact ⟨b, (run_cons op rest).mpr ⟨c, ran, later⟩, unflushed'', extensions'.trans extensions⟩

end Runs

end EntryCode
