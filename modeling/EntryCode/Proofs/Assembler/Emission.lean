import EntryCode.Proofs.Assembler.Operation

/-!
The words that operations emit, told apart by whether they hold a displacement to a label. A run of
the assembler keeps its words in step with the list of these emissions: whatever goes to a label
holds the displacement to it once the label is bound, and waits for it until then.
-/

namespace EntryCode

/-- What one word stands for. -/
inductive Emission where
  | plain (i : Instruction)
  | branch (c : Condition) (rs1 rs2 : Register) (l : Label)
  | jump (rd : Register) (l : Label)
  deriving DecidableEq, Repr

namespace Emission

def label? : Emission → Option Label
  | .plain _ => none
  | .branch _ _ _ l | .jump _ l => some l

/-- The instruction, with `disp` as the displacement to the label. -/
def instruction (disp : Dword) : Emission → Instruction
  | .plain i => i
  | .branch c rs1 rs2 _ => .branch c rs1 rs2 disp
  | .jump rd _ => .jump rd disp

/-- The displacement that stands in the word at `pos`. -/
def displacement (a : Assembler) (pos : Nat) (e : Emission) : Dword :=
  match e.label? with
  | some l => a.displacement l pos
  | none => 0

/-- The instruction at `pos`, as far as the labels are known to `a`. -/
def resolve (a : Assembler) (pos : Nat) (e : Emission) : Instruction :=
  e.instruction (e.displacement a pos)

theorem retarget (e : Emission) (l : Label) (directed : e.label? = some l) (disp dest pos : Dword)
    (encodable : (e.instruction disp).Encodable) :
    Format.retarget dest (e.instruction disp).word pos = (e.instruction (dest - pos)).encode := by
  cases e with
  | plain i => simp [label?] at directed
  | branch c rs1 rs2 _ => exact Instruction.retarget_branch c rs1 rs2 disp dest pos encodable
  | jump rd _ => exact Instruction.retarget_jump rd disp dest pos encodable

/-- Read back at its position, the displacement leads to where it was measured to. -/
theorem destination (e : Emission) (l : Label) (directed : e.label? = some l) (dest pos : Dword)
    (encodable : (e.instruction (dest - pos)).Encodable) :
    Format.destination (e.instruction (dest - pos)).word pos = .ok dest := by
  have measured : pos + (dest - pos) = dest := by
    rw [BitVec.add_comm, BitVec.sub_add_cancel]
  cases e with
  | plain i => simp [label?] at directed
  | branch c rs1 rs2 _ =>
      exact (Instruction.destination_branch c rs1 rs2 _ pos encodable).trans (by rw [measured])
  | jump rd _ =>
      exact (Instruction.destination_jump rd _ pos encodable).trans (by rw [measured])

end Emission

/-- The words of a sequence that breaks no rule of its own. -/
def planned : Except Violation (List Instruction) → List Emission
  | .ok is => is.map .plain
  | .error _ => []

/-- The words that an operation emits at `pos`. -/
def Op.emissions (pos : Nat) : Op → List Emission
  | .instruction i => [.plain i]
  | .branch c rs1 rs2 l => [.branch c rs1 rs2 l]
  | .branchTo c rs1 rs2 target => [.plain (.branch c rs1 rs2 (target - BitVec.ofNat 64 pos))]
  | .jump rd l => [.jump rd l]
  | .jumpTo rd target => [.plain (.jump rd (target - BitVec.ofNat 64 pos))]
  | .constant rd v => planned (Constant.load rd v)
  | .callAddress addr tmp => planned (Pseudo.callAddress addr tmp)
  | .jumpAddress addr tmp => planned (Pseudo.jumpAddress addr tmp)
  | .addConstant rd rs v tmp => planned (Pseudo.addConstant rd rs v tmp)
  | .load op rd base offset tmp => planned (Pseudo.load op rd base offset tmp)
  | .store op src base offset tmp => planned (Pseudo.store op src base offset tmp)
  | .newLabel | .bind _ | .comment _ | .flush => []

/-- The notes that an operation makes at `pos`. -/
def Op.notes (pos : Nat) : Op → List (Nat × String)
  | .comment text => [(pos, text)]
  | _ => []

/-- The words that a program emits from `pos` on. -/
def Program.emissions (pos : Nat) : Program → List Emission
  | [] => []
  | op :: rest =>
    op.emissions pos ++ Program.emissions (pos + instructionSize * (op.emissions pos).length) rest

/-- The position that a program gives to a label, counted from `pos`. -/
def Program.place (l : Label) (pos : Nat) : Program → Option Nat
  | [] => none
  | op :: rest =>
    if op = .bind l then some pos
    else Program.place l (pos + instructionSize * (op.emissions pos).length) rest

/-- The words of an assembler are those of the emissions so far. -/
structure Emitted (es : List Emission) (a : Assembler) : Prop where
  size : a.words.size = es.length
  words : ∀ (i : Nat) (e : Emission), es[i]? = some e →
    (e.resolve a (instructionSize * i)).Encodable ∧
      a.words[i]? = some (e.resolve a (instructionSize * i)).word
  known : ∀ e ∈ es, ∀ l, e.label? = some l → a.Knows l
  /-- What goes to a label that is not bound waits for it. -/
  waits : ∀ i e l, es[i]? = some e → e.label? = some l → a.bound? l = none →
    instructionSize * i ∈ a.waiting l
  /-- Only what goes to a label waits for it. -/
  sites : ∀ l pos, pos ∈ a.waiting l →
    ∃ i e, pos = instructionSize * i ∧ es[i]? = some e ∧ e.label? = some l

namespace Emitted

variable {es : List Emission} {a b : Assembler}

theorem pos (inv : Emitted es a) : a.pos = instructionSize * es.length := by
  rw [Assembler.pos, inv.size]

theorem new (e : Extensions) : Emitted [] (.new e) := by
  refine ⟨rfl, by simp, by simp, by simp, ?_⟩
  intro l pos waits
  simp [Assembler.waiting, Assembler.label_state_foreign (Assembler.not_knows_new e l)] at waits

theorem resolve_congr (bounds : ∀ l, b.bound? l = a.bound? l) (e : Emission) (pos : Nat) :
    e.resolve b pos = e.resolve a pos := by
  simp only [Emission.resolve, Emission.displacement, Assembler.displacement, bounds]

/-- Only the words and what is known of labels count. -/
theorem transfer (inv : Emitted es a) (words : b.words = a.words)
    (bounds : ∀ l, b.bound? l = a.bound? l) (waiting : ∀ l, b.waiting l = a.waiting l)
    (knows : ∀ l, a.Knows l → b.Knows l) : Emitted es b := by
  constructor
  · rw [words, inv.size]
  · intro i e found
    rw [resolve_congr bounds, words]
    exact inv.words i e found
  · intro e member l directed
    exact knows l (inv.known e member l directed)
  · intro i e l found directed unbound
    rw [waiting]
    exact inv.waits i e l found directed (bounds l ▸ unbound)
  · intro l pos member
    exact inv.sites l pos (waiting l ▸ member)

/-- What holds of all emissions but the last and of the last holds of all. -/
theorem indexed_snoc {motive : Nat → Emission → Prop} (last : Emission)
    (earlier : ∀ i e, es[i]? = some e → motive i e) (latest : motive es.length last) :
    ∀ i e, (es ++ [last])[i]? = some e → motive i e := by
  intro i e found
  by_cases before : i < es.length
  · rw [List.getElem?_append_left before] at found
    exact earlier i e found
  · rw [List.getElem?_append_right (by omega)] at found
    obtain ⟨inside, rfl⟩ := List.getElem?_eq_some_iff.mp found
    have only : i - es.length = 0 := by simpa using inside
    have same : i = es.length := by omega
    subst same
    simpa using latest

/-- One more word: where the emission goes to a label that is not bound, its position is added to
those that wait. -/
theorem extend (inv : Emitted es a) (e : Emission)
    (encodable : (e.resolve a a.pos).Encodable)
    (words : b.words = a.words.push (e.resolve a a.pos).word)
    (bounds : ∀ l, b.bound? l = a.bound? l) (knows : ∀ l, b.Knows l ↔ a.Knows l)
    (owned : ∀ l, e.label? = some l → a.Knows l)
    (waiting : ∀ l, b.waiting l =
      if e.label? = some l ∧ a.bound? l = none then a.waiting l ++ [a.pos] else a.waiting l) :
    Emitted (es ++ [e]) b := by
  constructor
  · simp [words, inv.size]
  · refine indexed_snoc e ?_ ?_
    · intro i earlier found
      obtain ⟨inside, -⟩ := List.getElem?_eq_some_iff.mp found
      have other : i ≠ a.words.size := by
        rw [inv.size]
        omega
      rw [resolve_congr bounds, words, Array.getElem?_push, if_neg other]
      exact inv.words i earlier found
    · rw [resolve_congr bounds, ← inv.pos, words, ← inv.size]
      exact ⟨encodable, Array.getElem?_push_size⟩
  · intro e' member l directed
    rw [knows]
    rcases List.mem_append.mp member with earlier | latest
    · exact inv.known e' earlier l directed
    · rw [List.mem_singleton.mp latest] at directed
      exact owned l directed
  -- What goes to an unbound label waits for it: the earlier words still do, and the new one is
  -- added.
  · refine fun i e' l found => ?_
    revert i e' found
    refine indexed_snoc e ?_ ?_
    · intro i e' found directed unbound
      have waits := inv.waits i e' l found directed (bounds l ▸ unbound)
      rw [waiting]
      split
      · exact List.mem_append_left _ waits
      · exact waits
    · intro directed unbound
      rw [waiting, if_pos ⟨directed, bounds l ▸ unbound⟩, ← inv.pos]
      simp
  · intro l pos member
    rw [waiting] at member
    -- Whatever waits was waiting before, or is the new word.
    have older : pos ∈ a.waiting l →
        ∃ i e', pos = instructionSize * i ∧ (es ++ [e])[i]? = some e' ∧ e'.label? = some l := by
      intro waits
      obtain ⟨i, e', same, found, directed⟩ := inv.sites l pos waits
      obtain ⟨inside, -⟩ := List.getElem?_eq_some_iff.mp found
      exact ⟨i, e', same, by rwa [List.getElem?_append_left inside], directed⟩
    split at member
    · rename_i here
      rcases List.mem_append.mp member with waits | latest
      · exact older waits
      · rw [List.mem_singleton.mp latest, inv.pos]
        exact ⟨es.length, e, rfl, by simp, here.1⟩
    · exact older member

theorem emit_plain (inv : Emitted es a) (i : Instruction) (encodable : i.Encodable) :
    Emitted (es ++ [Emission.plain i]) (a.push i.word) :=
  inv.extend (.plain i) encodable rfl (fun _ => rfl) (fun _ => Iff.rfl)
    (by simp [Emission.label?]) (by simp [Emission.label?, Assembler.waiting_push])

theorem emit_directed (inv : Emitted es a) (e : Emission) (l : Label)
    (directed : e.label? = some l) (known : a.Knows l)
    (encodable : (e.instruction (a.displacement l a.pos)).Encodable) :
    Emitted (es ++ [e]) ((a.await l).push (e.instruction (a.displacement l a.pos)).word) := by
  have same : e.resolve a a.pos = e.instruction (a.displacement l a.pos) := by
    simp [Emission.resolve, Emission.displacement, directed]
  apply inv.extend e
  · rwa [same]
  · simp [Assembler.push, Assembler.words_await, same]
  · intro k
    rw [Assembler.bound_push, Assembler.bound_await a l k known]
  · intro k
    rw [Assembler.knows_push, Assembler.knows_await]
  · intro k directed'
    exact Option.some.inj (directed.symm.trans directed') ▸ known
  · intro k
    rw [Assembler.waiting_push, Assembler.waiting_await a l k known, directed]
    simp only [Option.some.injEq]
    grind

/-- At `p` stands a word that goes to `l`, with some displacement. -/
def Site (es : List Emission) (l : Label) (a : Assembler) (p : Nat) : Prop :=
  ∃ i e disp, p = instructionSize * i ∧ es[i]? = some e ∧ e.label? = some l ∧
    (e.instruction disp).Encodable ∧ a.words[i]? = some (e.instruction disp).word

theorem Site.patched {l : Label} {p : Nat} (site : Site es l a p) {j : Nat} {e : Emission}
    {dest : Dword} (here : es[j]? = some e) (reached : (e.instruction dest).Encodable) :
    Site es l { a with words := a.words.setIfInBounds j (e.instruction dest).word } p := by
  obtain ⟨i, e', disp, same, found, directed, encodable, word⟩ := site
  by_cases again : i = j
  · subst again
    obtain rfl : e' = e := Option.some.inj (found.symm.trans here)
    obtain ⟨inside, -⟩ := Array.getElem?_eq_some_iff.mp word
    exact ⟨i, e', dest, same, found, directed, reached,
      Array.getElem?_setIfInBounds_self_of_lt inside⟩
  · refine ⟨i, e', disp, same, found, directed, encodable, ?_⟩
    rwa [Array.getElem?_setIfInBounds_ne (Ne.symm again)]

/-- Sending the waiting branches `ps` to `dest` gives each the displacement to it and leaves all
other words alone. The invariant does not hold in between, so the branches may hold any
displacement before, and a place may be listed twice. -/
theorem patches (l : Label) (dest : Nat) (ps : List Nat) (sites : ∀ p ∈ ps, Site es l a p)
    (patched : EStateM.run (forM ps (Emit.patch dest)) a = .ok () b) :
    b = { a with words := b.words } ∧ b.words.size = a.words.size ∧
      (∀ i, instructionSize * i ∉ ps → b.words[i]? = a.words[i]?) ∧
      ∀ i e, instructionSize * i ∈ ps → es[i]? = some e →
        let sent := e.instruction
          (BitVec.ofNat 64 dest - BitVec.ofNat 64 (instructionSize * i))
        sent.Encodable ∧ b.words[i]? = some sent.word := by
  induction ps generalizing a with
  | nil =>
      simp only [List.forM_nil, EStateM.run_pure, EStateM.Result.ok.injEq, true_and] at patched
      subst patched
      simp
  | cons p rest ih =>
      rw [List.forM_cons, Emit.bind_ok] at patched
      obtain ⟨_, c, first, later⟩ := patched
      obtain ⟨i, w, sent, rfl, found, retargeted, rfl⟩ := Emit.patch_ok.mp first
      obtain ⟨j, e, disp, same, here, directed, encodable, word⟩ := sites _ List.mem_cons_self
      obtain rfl : j = i := by
        simp only [instructionSize] at same
        omega
      obtain rfl : w = (e.instruction disp).word := Option.some.inj (found.symm.trans word)
      rw [e.retarget l directed disp _ _ encodable, Instruction.encode_ok] at retargeted
      obtain ⟨reached, rfl⟩ := retargeted
      obtain ⟨inside, -⟩ := Array.getElem?_eq_some_iff.mp found
      obtain ⟨fields, size, others, sent⟩ :=
        ih (fun p member => (sites p (List.mem_cons_of_mem _ member)).patched here reached) later
      refine ⟨fields, by simpa using size, ?_, ?_⟩
      · intro k outside
        have apart : j ≠ k := by
          rintro rfl
          exact outside List.mem_cons_self
        rw [others k fun member => outside (List.mem_cons_of_mem _ member),
          Array.getElem?_setIfInBounds_ne apart]
      · intro k e' member at'
        by_cases again : instructionSize * k ∈ rest
        · exact sent k e' again at'
        · obtain rfl : k = j := by
            rcases List.mem_cons.mp member with same | later
            · simp only [instructionSize] at same
              omega
            · exact absurd later again
          obtain rfl : e' = e := Option.some.inj (at'.symm.trans here)
          exact ⟨reached, by rw [others k again, Array.getElem?_setIfInBounds_self_of_lt inside]⟩

/-- The waiting branches can be sent to a place that all of them reach. -/
theorem patches_run (l : Label) (dest : Nat) (ps : List Nat) (sites : ∀ p ∈ ps, Site es l a p)
    (reach : ∀ i e, instructionSize * i ∈ ps → es[i]? = some e →
      (e.instruction (BitVec.ofNat 64 dest - BitVec.ofNat 64 (instructionSize * i))).Encodable) :
    ∃ b, EStateM.run (forM ps (Emit.patch dest)) a = .ok () b := by
  induction ps generalizing a with
  | nil => exact ⟨a, rfl⟩
  | cons p rest ih =>
      obtain ⟨i, e, disp, rfl, here, directed, encodable, word⟩ := sites p List.mem_cons_self
      have reached := reach i e List.mem_cons_self here
      have sent := Instruction.encode_ok.mpr ⟨reached, rfl⟩
      rw [← e.retarget l directed disp _ _ encodable] at sent
      obtain ⟨b, later⟩ :=
        ih (fun p member => (sites p (List.mem_cons_of_mem _ member)).patched here reached)
          fun k e' member found => reach k e' (List.mem_cons_of_mem _ member) found
      refine ⟨b, ?_⟩
      rw [List.forM_cons, Emit.bind_ok]
      exact ⟨(), _, Emit.patch_ok.mpr ⟨i, _, _, rfl, word, sent, rfl⟩, later⟩

theorem waiting_sites (inv : Emitted es a) (l : Label) :
    ∀ p ∈ a.waiting l, Site es l (a.setLabel l ⟨some a.pos, a.waiting l⟩) p := by
  intro p member
  obtain ⟨i, e, same, found, directed⟩ := inv.sites l p member
  obtain ⟨encodable, word⟩ := inv.words i e found
  exact ⟨i, e, _, same, found, directed, encodable, word⟩

/-- Binding a label gives it the current position, and everything that goes to it follows. -/
theorem bind_label (inv : Emitted es a) (l : Label) (ran : (Emit.bind l).run a = .ok () b) :
    Emitted es b ∧ (∀ k, b.bound? k = if k = l then some a.pos else a.bound? k) ∧
      (∀ k, a.Knows k → b.Knows k) ∧ b.comments = a.comments := by
  obtain ⟨-, known, unbound, c, patched, rfl⟩ := Emit.bind_label_ok.mp ran
  obtain ⟨fields, size, others, sent⟩ := patches l a.pos (a.waiting l) (inv.waiting_sites l) patched
  have labels : c.labels = (a.setLabel l ⟨some a.pos, a.waiting l⟩).labels := by rw [fields]
  have owned : c.Knows l := by
    rw [Assembler.Knows, labels]
    exact (a.knows_set_label l l _).mpr known
  -- The label is bound here and nothing waits for it any more; the other labels are as they were.
  have bounds : ∀ k, (c.setLabel l ⟨some a.pos, []⟩).bound? k =
      if k = l then some a.pos else a.bound? k := by
    intro k
    rw [c.bound_set_label l k _ owned, Assembler.bound_of_labels labels,
      a.bound_set_label l k _ known]
    split <;> rfl
  have waiting : ∀ k, (c.setLabel l ⟨some a.pos, []⟩).waiting k =
      if k = l then [] else a.waiting k := by
    intro k
    rw [c.waiting_set_label l k _ owned, Assembler.waiting_of_labels labels,
      a.waiting_set_label l k _ known]
    split <;> rfl
  have knows : ∀ k, a.Knows k → (c.setLabel l ⟨some a.pos, []⟩).Knows k := by
    intro k inside
    rw [c.knows_set_label, Assembler.Knows, labels]
    exact (a.knows_set_label l k _).mpr inside
  have comments : (c.setLabel l ⟨some a.pos, []⟩).comments = a.comments := by
    rw [fields]
    rfl
  refine ⟨?_, bounds, knows, comments⟩
  constructor
  · exact size.trans inv.size
  · intro i e found
    show _ ∧ c.words[i]? = _
    obtain ⟨encodable, word⟩ := inv.words i e found
    -- The words that waited for the label were sent here. No other word was touched.
    by_cases directed : e.label? = some l
    · have waits := inv.waits i e l found directed unbound
      have resolved : e.resolve (c.setLabel l ⟨some a.pos, []⟩) (instructionSize * i) =
          e.instruction (BitVec.ofNat 64 a.pos - BitVec.ofNat 64 (instructionSize * i)) := by
        simp [Emission.resolve, Emission.displacement, directed, Assembler.displacement, bounds]
      rw [resolved]
      exact sent i e waits found
    · have resolved : e.resolve (c.setLabel l ⟨some a.pos, []⟩) (instructionSize * i) =
          e.resolve a (instructionSize * i) := by
        cases other : e.label? with
        | none => simp [Emission.resolve, Emission.displacement, other]
        | some k =>
            have apart : k ≠ l := by
              rintro rfl
              exact directed other
            simp [Emission.resolve, Emission.displacement, other, Assembler.displacement, bounds,
              apart]
      -- A position belongs to one word, so a word that goes elsewhere is not among those that
      -- waited.
      have outside : instructionSize * i ∉ a.waiting l := by
        intro member
        obtain ⟨j, e', same, found', directed'⟩ := inv.sites l _ member
        obtain rfl : i = j := by
          simp only [instructionSize] at same
          omega
        exact directed (Option.some.inj (found.symm.trans found') ▸ directed')
      rw [resolved, others i outside]
      exact ⟨encodable, word⟩
  · intro e member k directed
    exact knows k (inv.known e member k directed)
  · intro i e k found directed free
    rw [bounds] at free
    rw [waiting]
    split at free
    · cases free
    · rename_i apart
      rw [if_neg apart]
      exact inv.waits i e k found directed free
  · intro k p member
    rw [waiting] at member
    split at member
    · cases member
    · exact inv.sites k p member

theorem emit_sequence (inv : Emitted es a) (is : List Instruction)
    (ran : EStateM.run (forM is Emit.instruction) a = .ok () b) :
    Emitted (es ++ is.map .plain) b ∧ b.labels = a.labels ∧ b.comments = a.comments := by
  induction is generalizing es a with
  | nil =>
      simp only [List.forM_nil, EStateM.run_pure, EStateM.Result.ok.injEq, true_and] at ran
      subst ran
      simpa using inv
  | cons i rest ih =>
      rw [List.forM_cons, Emit.bind_ok] at ran
      obtain ⟨_, c, first, later⟩ := ran
      obtain ⟨-, encodable, -, rfl⟩ := Emit.instruction_ok.mp first
      obtain ⟨emitted, kept⟩ := ih (inv.emit_plain i encodable) later
      exact ⟨by simpa using emitted, kept⟩

/-- What one operation does to the words, the labels and the notes. -/
structure Advance (op : Op) (es : List Emission) (a b : Assembler) : Prop where
  emitted : Emitted (es ++ op.emissions a.pos) b
  bound : ∀ l, b.bound? l = if op = .bind l then some a.pos else a.bound? l
  known : ∀ l, a.Knows l → b.Knows l
  once : ∀ l, op = .bind l → a.bound? l = none
  noted : b.comments = a.comments ++ op.notes a.pos

theorem Advance.pos {op : Op} (step : Advance op es a b) (inv : Emitted es a) :
    b.pos = a.pos + instructionSize * (op.emissions a.pos).length := by
  rw [step.emitted.pos, inv.pos, List.length_append, Nat.mul_add]

/-- Where a label is bound in the end does not depend on how far the run is. -/
theorem Advance.place {op : Op} (step : Advance op es a b) (inv : Emitted es a) (rest : Program)
    (l : Label) : (b.bound? l).or (rest.place l b.pos) =
      (a.bound? l).or (Program.place l a.pos (op :: rest)) := by
  rw [step.bound, Program.place, step.pos inv]
  split
  · rename_i here
    simp [step.once l here]
  · rfl

theorem advance_plain (inv : Emitted es a) {op : Op} (i : Instruction)
    (emits : op.emissions a.pos = [.plain i]) (other : ∀ l, op ≠ .bind l)
    (silent : op.notes a.pos = []) (ran : (Emit.instruction i).run a = .ok () b) :
    Advance op es a b := by
  obtain ⟨-, encodable, -, rfl⟩ := Emit.instruction_ok.mp ran
  refine ⟨emits ▸ inv.emit_plain i encodable, ?_, fun _ known => known, ?_, ?_⟩
  · intro l
    rw [if_neg (other l), Assembler.bound_push]
  · exact fun l same => absurd same (other l)
  · rw [silent, List.append_nil]
    rfl

theorem advance_directed (inv : Emitted es a) {op : Op} (e : Emission) (l : Label)
    (emits : op.emissions a.pos = [e]) (other : ∀ l, op ≠ .bind l)
    (silent : op.notes a.pos = []) (directed : e.label? = some l) (known : a.Knows l)
    (encodable : (e.instruction (a.displacement l a.pos)).Encodable) :
    Advance op es a ((a.await l).push (e.instruction (a.displacement l a.pos)).word) := by
  refine ⟨emits ▸ inv.emit_directed e l directed known encodable, ?_, ?_, ?_, ?_⟩
  · intro k
    rw [if_neg (other k), Assembler.bound_push, Assembler.bound_await a l k known]
  · intro k owned
    rwa [Assembler.knows_push, Assembler.knows_await]
  · exact fun k same => absurd same (other k)
  · rw [silent, List.append_nil]
    exact Assembler.comments_await a l

theorem advance_sequence (inv : Emitted es a) {op : Op}
    (is : Except Violation (List Instruction)) (emits : op.emissions a.pos = planned is)
    (other : ∀ l, op ≠ .bind l) (silent : op.notes a.pos = [])
    (ran : (Emit.sequence is).run a = .ok () b) : Advance op es a b := by
  obtain ⟨plain, rfl, ran⟩ := Emit.sequence_ok.mp ran
  obtain ⟨emitted, labels, comments⟩ := inv.emit_sequence plain ran
  refine ⟨emits ▸ emitted, ?_, ?_, ?_, ?_⟩
  · intro l
    rw [if_neg (other l), Assembler.bound_of_labels labels]
  · intro l known
    rwa [Assembler.Knows, labels]
  · exact fun l same => absurd same (other l)
  · rw [silent, List.append_nil, comments]

theorem advance_silent (inv : Emitted es a) {op : Op} (emits : op.emissions a.pos = [])
    (other : ∀ l, op ≠ .bind l) (words : b.words = a.words)
    (bounds : ∀ l, b.bound? l = a.bound? l) (waiting : ∀ l, b.waiting l = a.waiting l)
    (knows : ∀ l, a.Knows l → b.Knows l) (noted : b.comments = a.comments ++ op.notes a.pos) :
    Advance op es a b := by
  refine ⟨?_, ?_, knows, ?_, noted⟩
  · rw [emits, List.append_nil]
    exact inv.transfer words bounds waiting knows
  · intro l
    rw [if_neg (other l), bounds]
  · exact fun l same => absurd same (other l)

theorem advance (inv : Emitted es a) (op : Op) (ran : op.run.run a = .ok () b) :
    Advance op es a b := by
  cases op with
  | instruction i => exact inv.advance_plain i rfl (by simp) rfl ran
  | branch c rs1 rs2 l =>
      obtain ⟨known, encodable, -, rfl⟩ := Emit.branch_ok.mp ran
      exact inv.advance_directed (.branch c rs1 rs2 l) l rfl (by simp) rfl rfl known encodable
  | branchTo c rs1 rs2 target =>
      exact inv.advance_plain _ rfl (by simp) rfl (Emit.branch_to_run c rs1 rs2 target ▸ ran)
  | jump rd l =>
      obtain ⟨known, encodable, -, rfl⟩ := Emit.jump_ok.mp ran
      exact inv.advance_directed (.jump rd l) l rfl (by simp) rfl rfl known encodable
  | jumpTo rd target =>
      exact inv.advance_plain _ rfl (by simp) rfl (Emit.jump_to_run rd target ▸ ran)
  | constant rd v => exact inv.advance_sequence _ rfl (by simp) rfl ran
  | callAddress addr tmp => exact inv.advance_sequence _ rfl (by simp) rfl ran
  | jumpAddress addr tmp => exact inv.advance_sequence _ rfl (by simp) rfl ran
  | addConstant rd rs v tmp => exact inv.advance_sequence _ rfl (by simp) rfl ran
  | load op rd base offset tmp => exact inv.advance_sequence _ rfl (by simp) rfl ran
  | store op src base offset tmp => exact inv.advance_sequence _ rfl (by simp) rfl ran
  | newLabel =>
      obtain ⟨_, _, added, rest⟩ := Emit.bind_ok.mp ran
      cases added
      cases rest
      exact inv.advance_silent rfl (by simp) rfl a.bound_add_label a.waiting_add_label
        (fun _ => Assembler.knows_add_label) (List.append_nil _).symm
  | bind l =>
      obtain ⟨emitted, bound, known, comments⟩ := inv.bind_label l ran
      obtain ⟨-, -, unbound, -⟩ := Emit.bind_label_ok.mp ran
      refine ⟨by simpa [Op.emissions] using emitted, ?_, known, ?_,
        comments.trans (List.append_nil _).symm⟩
      · intro k
        rw [bound]
        simp [eq_comm]
      · rintro k ⟨⟩
        exact unbound
  | comment text =>
      cases ran
      exact inv.advance_silent rfl (by simp) rfl (fun _ => rfl) (fun _ => rfl)
        (fun _ known => known) rfl
  | flush =>
      obtain ⟨_, _, flushed, rest⟩ := Emit.bind_ok.mp ran
      obtain ⟨-, -, rfl⟩ := Emit.flush_ok.mp flushed
      cases rest
      exact inv.advance_silent rfl (by simp) rfl (fun _ => rfl) (fun _ => rfl)
        (fun _ known => known) (List.append_nil _).symm

end Emitted

namespace Program

variable {a b : Assembler}

theorem run_cons (op : Op) (rest : Program) :
    (Program.run (op :: rest)).run a = .ok () b ↔
      ∃ c, op.run.run a = .ok () c ∧ (Program.run rest).run c = .ok () b := by
  simp only [Program.run, List.forM_eq_forM, List.forM_cons, Emit.bind_ok]
  exact ⟨fun ⟨_, c, first, later⟩ => ⟨c, first, later⟩, fun ⟨c, first, later⟩ => ⟨(), c, first, later⟩⟩

theorem run_append (p q : Program) :
    (Program.run (p ++ q)).run a = .ok () b ↔
      ∃ c, (Program.run p).run a = .ok () c ∧ (Program.run q).run c = .ok () b := by
  simp only [Program.run, List.forM_eq_forM, List.forM_append, Emit.bind_ok]
  exact ⟨fun ⟨_, c, first, later⟩ => ⟨c, first, later⟩, fun ⟨c, first, later⟩ => ⟨(), c, first, later⟩⟩

/-- The bytes that a program emits from `pos` on. -/
def size (pos : Nat) (p : Program) : Nat :=
  instructionSize * (p.emissions pos).length

theorem emissions_append (pos : Nat) (p q : Program) :
    Program.emissions pos (p ++ q) =
      p.emissions pos ++ Program.emissions (pos + Program.size pos p) q := by
  induction p generalizing pos with
  | nil => simp [emissions, size]
  | cons op rest ih => simp [emissions, size, ih, Nat.mul_add, Nat.add_assoc]

/-- A run keeps the words in step with the emissions, and binds labels where the program says. -/
theorem emitted {es : List Emission} (inv : Emitted es a) (p : Program)
    (ran : (Program.run p).run a = .ok () b) :
    Emitted (es ++ p.emissions a.pos) b ∧
      ∀ l, b.bound? l = (a.bound? l).or (p.place l a.pos) := by
  induction p generalizing es a with
  | nil =>
      cases ran
      simpa [emissions, place] using inv
  | cons op rest ih =>
      obtain ⟨c, first, later⟩ := (run_cons op rest).mp ran
      have step := inv.advance op first
      obtain ⟨run, places⟩ := ih step.emitted later
      rw [step.pos inv] at run
      refine ⟨by simpa [emissions] using run, ?_⟩
      intro l
      rw [places, step.place inv]

/-- The notes of a run are made in it, and there are no more of them than operations. -/
theorem noted {es : List Emission} (inv : Emitted es a) (p : Program)
    (ran : (Program.run p).run a = .ok () b) :
    b.comments.length ≤ a.comments.length + p.length ∧ a.pos ≤ b.pos ∧
      ∀ c ∈ b.comments, c ∈ a.comments ∨ c.1 ≤ b.pos ∧ .comment c.2 ∈ p := by
  induction p generalizing es a with
  | nil =>
      cases ran
      exact ⟨le_rfl, le_rfl, fun _ => .inl⟩
  | cons op rest ih =>
      obtain ⟨m, first, later⟩ := (run_cons op rest).mp ran
      have step := inv.advance op first
      obtain ⟨few, after, there⟩ := ih step.emitted later
      have further : a.pos ≤ m.pos := (step.pos inv).symm ▸ Nat.le_add_right ..
      refine ⟨?_, further.trans after, ?_⟩
      · have one : (op.notes a.pos).length ≤ 1 := by cases op <;> simp [Op.notes]
        rw [step.noted, List.length_append] at few
        rw [List.length_cons]
        omega
      · intro c member
        rcases there c member with before | ⟨inside, later⟩
        · rw [step.noted, List.mem_append] at before
          refine before.imp_right fun here => ?_
          cases op with
          | comment text =>
              obtain rfl := List.mem_singleton.mp here
              exact ⟨further.trans after, List.mem_cons_self⟩
          | _ => cases here
        · exact .inr ⟨inside, List.mem_cons_of_mem _ later⟩

theorem emitted_new {e : Extensions} (p : Program)
    (ran : (Program.run p).run (.new e) = .ok () a) :
    Emitted (p.emissions 0) a ∧ ∀ l, a.bound? l = p.place l 0 := by
  obtain ⟨inv, bound⟩ := emitted (Emitted.new e) p ran
  refine ⟨inv, fun l => ?_⟩
  rw [bound, Assembler.bound?, Assembler.label_state_foreign (Assembler.not_knows_new e l)]
  rfl

end Program

end EntryCode
