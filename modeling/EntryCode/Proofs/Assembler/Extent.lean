import EntryCode.Proofs.Assembler.Admissible
import EntryCode.Proofs.Assembler.Constant

/-!
Programs whose branches stay inside, and how far programs extend. A closed program can stand
anywhere, so it is put together from parts, each checked by itself; after its labels it runs and its
code can be finished. No operation emits more than a fixed number of words, so the branches of a
short program reach every label in it, and jumps reach through many such programs.
-/

namespace EntryCode

namespace Program

variable {p q : Program} {shared : Label → Prop}

/-- Every emission to a label that is not shared with other programs reaches it in the program
itself, wherever the program starts. -/
def ClosedBut (shared : Label → Prop) (p : Program) : Prop :=
  ∀ (pos i : Nat) (e : Emission) (l : Label), (p.emissions pos)[i]? = some e →
    e.label? = some l → ¬shared l → ∃ target, p.place l pos = some target ∧
      (e.instruction
        (BitVec.ofNat 64 target - BitVec.ofNat 64 (pos + instructionSize * i))).Encodable

abbrev Closed (p : Program) : Prop :=
  p.ClosedBut fun _ => False

theorem place_append (p q : Program) (l : Label) (pos : Nat) :
    place l pos (p ++ q) = (p.place l pos).or (place l (pos + size pos p) q) := by
  induction p generalizing pos with
  | nil => simp [place, size, emissions]
  | cons op rest ih =>
      rw [List.cons_append, place, place]
      split
      · rfl
      · rw [ih]
        simp [size, emissions, Nat.mul_add, Nat.add_assoc]

theorem closed_of_silent (silent : ∀ op ∈ p, op.label? = none) : p.ClosedBut shared := by
  intro pos i e l found directed
  obtain ⟨op, member, goes⟩ :=
    (refers_to_iff p pos l).mp ⟨e, List.mem_of_getElem? found, directed⟩
  rw [silent op member] at goes
  cases goes

/-- Parts make a whole where no part takes a label that a later one goes to. -/
theorem ClosedBut.append (first : p.ClosedBut shared) (second : q.ClosedBut shared)
    (apart : ∀ l, q.RefersTo l → ¬shared l → Op.bind l ∉ p) : (p ++ q).ClosedBut shared := by
  intro pos i e l found directed own
  rw [emissions_append] at found
  rw [place_append]
  by_cases early : i < (p.emissions pos).length
  · rw [List.getElem?_append_left early] at found
    obtain ⟨target, place, encodable⟩ := first pos i e l found directed own
    exact ⟨target, by rw [place, Option.some_or], encodable⟩
  · rw [List.getElem?_append_right (by omega)] at found
    obtain ⟨target, place, encodable⟩ := second _ _ e l found directed own
    have refers := (refers_to_iff q _ l).mp ⟨e, List.mem_of_getElem? found, directed⟩
    have same : pos + size pos p + instructionSize * (i - (p.emissions pos).length) =
        pos + instructionSize * i := by
      simp only [size, instructionSize]
      omega
    rw [same] at encodable
    exact ⟨target, by rw [(place_none p pos l).mpr (apart l refers own), Option.none_or, place],
      encodable⟩

theorem closed_skip (c : Condition) (rs1 rs2 : Register) (i : Instruction) (l : Label)
    (encodable : (Instruction.branch c rs1 rs2 0).Encodable) :
    Closed [.branch c rs1 rs2 l, .instruction i, .bind l] := by
  intro pos k e k' found directed _
  match k, found with
  | 0, found =>
      cases found
      cases directed
      refine ⟨pos + 8, by simp [place, Op.emissions, instructionSize], ?_⟩
      have eight : BitVec.ofNat 64 (pos + 8) - BitVec.ofNat 64 (pos + instructionSize * 0) = 8 := by
        rw [Nat.mul_zero, Nat.add_zero pos, BitVec.ofNat_add, BitVec.add_comm,
          BitVec.add_sub_cancel]
        rfl
      rw [eight]
      exact ⟨encodable.1, encodable.2.1, encodable.2.2.1, by rw [Format.Reaches]; decide⟩
  | 1, found =>
      cases found
      cases directed

theorem Closed.reached (closed : p.Closed) {a : Assembler} (inv : Emitted [] a)
    (fresh : ∀ l, a.bound? l = none) : Reached [] a p := by
  intro i e l found directed
  have start : a.pos = 0 := by rw [inv.pos, List.length_nil, Nat.mul_zero]
  rw [List.nil_append, start] at found
  obtain ⟨target, place, encodable⟩ := closed 0 i e l found directed id
  rw [Nat.zero_add] at encodable
  exact ⟨target, by rw [fresh, start, Option.none_or, place], encodable⟩

end Program

section Finishing
variable {es : List Emission} {a : Assembler}

theorem new_labels_run (inv : Emitted es a) (n : Nat) (unflushed : a.flushed = false) :
    ∃ b, (Program.run (List.replicate n .newLabel)).run a = .ok () b ∧ Emitted es b ∧ a.Open b ∧
      (∀ l, b.bound? l = a.bound? l) ∧ b.labels.size = a.labels.size + n := by
  induction n generalizing a with
  | zero => exact ⟨a, rfl, inv, ⟨unflushed, rfl⟩, fun _ => rfl, rfl⟩
  | succ n ih =>
      have added : Emitted es a.addLabel :=
        inv.transfer rfl a.bound_add_label a.waiting_add_label fun _ => Assembler.knows_add_label
      obtain ⟨b, ran, emitted, opened, bound, size⟩ := ih added unflushed
      refine ⟨b, (Program.run_cons _ _).mpr ⟨a.addLabel, rfl, ran⟩, emitted, opened, ?_, ?_⟩
      · intro l
        rw [bound, Assembler.bound_add_label]
      · rw [size, Assembler.addLabel, Array.size_push]
        omega

theorem Assembler.bound_new (e : Extensions) (l : Label) : (Assembler.new e).bound? l = none := by
  rw [bound?, label_state_foreign (not_knows_new e l)]

/-- Everything that goes to a label is bound once the program that binds it has run. -/
theorem Reached.resolved {p : Program} {b : Assembler} (inv : Emitted [] a)
    (reach : Reached [] a p) (ran : (Program.run p).run a = .ok () b) :
    Emit.unresolved? b = none := by
  obtain ⟨finish, bound⟩ := Program.emitted inv p ran
  refine unresolved_none.mpr fun l unbound => List.eq_nil_iff_forall_not_mem.mpr ?_
  intro pos waits
  obtain ⟨i, e, -, found, directed⟩ := finish.sites l pos waits
  obtain ⟨target, place, -⟩ := reach i e l found directed
  rw [bound, place] at unbound
  cases unbound

end Finishing

section Operations

def Op.extent : Op → Nat
  | .instruction _ | .branch .. | .branchTo .. | .jump .. | .jumpTo .. => 1
  | .constant .. => 11
  | .callAddress .. | .jumpAddress .. | .addConstant .. => 12
  | .load .. | .store .. => 13
  | .newLabel | .bind _ | .comment _ | .flush => 0

theorem constant_extent {rd : Register} {v : Dword} {li : List Instruction}
    (planned : Constant.load rd v = .ok li) : li.length ≤ 11 := by
  rw [Constant.load] at planned
  split at planned
  · cases planned
  · cases planned
    rw [List.length_map]
    exact Constant.length_bound v

/-- The greatest number of words of a sequence that starts with a constant. -/
theorem planned_extent {is : Except Violation (List Instruction)} {n : Nat}
    (short : ∀ plain, is = .ok plain → plain.length ≤ n) : (planned is).length ≤ n := by
  cases is with
  | error v => exact Nat.zero_le n
  | ok plain =>
      rw [planned, List.length_map]
      exact short plain rfl

theorem after_constant_extent {rd : Register} {v : Dword} {is : List Instruction} :
    ∀ plain, (do let li ← Constant.load rd v; return li ++ is) = Except.ok plain →
      plain.length ≤ 11 + is.length := by
  intro plain made
  cases loaded : Constant.load rd v with
  | error v => simp [loaded, bind, Except.bind] at made
  | ok li =>
      have short := constant_extent loaded
      simp only [loaded, bind, Except.bind, pure, Except.pure, Except.ok.injEq] at made
      rw [← made, List.length_append]
      omega

theorem resolve_extent {a : Access} {tmp r : Register} {isStore : Bool} {off : Dword}
    {before : List Instruction} (resolved : Pseudo.resolve a tmp isStore = .ok (before, r, off)) :
    before.length ≤ 12 := by
  simp only [Pseudo.resolve, bind, Except.bind] at resolved
  split at resolved
  · cases resolved
  · split at resolved
    · cases resolved
      exact Nat.le_add_left 1 11
    · split at resolved
      · cases resolved
      · rename_i loaded
        have short := constant_extent loaded
        cases resolved
        rw [List.length_append, List.length_singleton]
        omega

theorem address_extent {a : Access} {tmp r : Register} {isStore : Bool} {off : Dword}
    {before : List Instruction} (found : Pseudo.address a tmp isStore = .ok (before, r, off)) :
    before.length ≤ 12 := by
  rw [Pseudo.address] at found
  split at found
  · split at found
    · cases found
      exact Nat.zero_le 12
    · exact resolve_extent found
  · exact resolve_extent found

theorem access_extent {a : Access} {tmp : Register} {isStore : Bool}
    {last : Register → Dword → Instruction} :
    ∀ plain, (do
      let (before, b, off) ← Pseudo.address a tmp isStore
      return before ++ [last b off]) = Except.ok plain → plain.length ≤ 13 := by
  intro plain made
  cases found : Pseudo.address a tmp isStore with
  | error v => simp [found, bind, Except.bind] at made
  | ok way =>
      obtain ⟨before, r, off⟩ := way
      have short := address_extent found
      simp only [found, bind, Except.bind, pure, Except.pure, Except.ok.injEq] at made
      rw [← made, List.length_append, List.length_singleton]
      omega

theorem add_constant_extent {rd rs tmp : Register} {v : Dword} :
    ∀ plain, Pseudo.addConstant rd rs v tmp = .ok plain → plain.length ≤ 12 := by
  intro plain made
  rw [Pseudo.addConstant] at made
  split at made
  · cases made
    exact Nat.le_add_left 1 11
  · split at made
    · cases made
    · exact after_constant_extent plain made

theorem Op.emissions_extent (op : Op) (pos : Nat) : (op.emissions pos).length ≤ op.extent := by
  cases op with
  | constant rd v => exact planned_extent fun _ => constant_extent
  | callAddress | jumpAddress => exact planned_extent after_constant_extent
  | addConstant => exact planned_extent add_constant_extent
  | load | store => exact planned_extent access_extent
  | _ => exact le_rfl

end Operations

namespace Program

def extent (p : Program) : Nat :=
  (p.map Op.extent).sum

variable {p q : Program} {shared : Label → Prop} {e : Extensions}

theorem extent_append (p q : Program) : extent (p ++ q) = p.extent + q.extent := by
  simp [extent]

theorem emissions_extent (p : Program) (pos : Nat) : (p.emissions pos).length ≤ p.extent := by
  induction p generalizing pos with
  | nil => exact le_rfl
  | cons op rest ih =>
      rw [emissions, List.length_append, extent, List.map_cons, List.sum_cons]
      exact Nat.add_le_add (op.emissions_extent pos) (ih _)

theorem place_inside {pos target : Nat} {l : Label} (found : p.place l pos = some target) :
    ∃ k ≤ (p.emissions pos).length, target = pos + instructionSize * k := by
  induction p generalizing pos with
  | nil => cases found
  | cons op rest ih =>
      rw [place] at found
      split at found
      · cases found
        exact ⟨0, Nat.zero_le _, rfl⟩
      · obtain ⟨k, inside, rfl⟩ := ih found
        refine ⟨(op.emissions pos).length + k, ?_, by rw [Nat.mul_add, Nat.add_assoc]⟩
        rw [emissions, List.length_append]
        exact Nat.add_le_add_left inside _

/-- What is emitted to a label comes from a branch or a jump to it. -/
theorem directed_emission {pos : Nat} {em : Emission} {l : Label} (member : em ∈ p.emissions pos)
    (directed : em.label? = some l) :
    (∃ c rs1 rs2, em = .branch c rs1 rs2 l ∧ Op.branch c rs1 rs2 l ∈ p) ∨
      ∃ rd, em = .jump rd l ∧ Op.jump rd l ∈ p := by
  induction p generalizing pos with
  | nil => cases member
  | cons op rest ih =>
      rw [emissions, List.mem_append] at member
      rcases member with here | later
      · have goes := (emissions_label op pos l).mp ⟨em, here, directed⟩
        cases op with
        | branch c rs1 rs2 k =>
            cases goes
            exact .inl ⟨c, rs1, rs2, List.mem_singleton.mp here, List.mem_cons_self⟩
        | jump rd k =>
            cases goes
            exact .inr ⟨rd, List.mem_singleton.mp here, List.mem_cons_self⟩
        | _ => cases goes
      · rcases ih later with ⟨c, rs1, rs2, same, found⟩ | ⟨rd, same, found⟩
        · exact .inl ⟨c, rs1, rs2, same, List.mem_cons_of_mem _ found⟩
        · exact .inr ⟨rd, same, List.mem_cons_of_mem _ found⟩

/-- A displacement between two of at most `2 ^ (w - 3)` words fits `w` bits. -/
theorem reaches_between {w : Nat} (pos i k : Nat) (wide : 3 ≤ w) (narrow : w ≤ 32)
    (first : i < 2 ^ (w - 3)) (second : k < 2 ^ (w - 3)) :
    Format.Reaches w (BitVec.ofNat 64 (pos + instructionSize * k) -
      BitVec.ofNat 64 (pos + instructionSize * i)) := by
  have power : (2 : Int) ^ (w - 1) = 4 * (2 ^ (w - 3) : Nat) := by
    rw [show w - 1 = w - 3 + 2 by omega, pow_add]
    push_cast
    omega
  have small : 2 ^ (w - 3) ≤ 2 ^ 29 := Nat.pow_le_pow_right (by omega) (by omega)
  simp only [instructionSize]
  constructor
  · rw [BitVec.getLsbD, Nat.testBit_zero, decide_eq_false_iff_not, BitVec.toNat_sub,
      BitVec.toNat_ofNat, BitVec.toNat_ofNat]
    omega
  · rw [Field.fits_signed_iff _ w (by omega) (by omega), power, BitVec.toInt_eq_toNat_cond,
      BitVec.toNat_sub, BitVec.toNat_ofNat, BitVec.toNat_ofNat]
    generalize 2 ^ (w - 3) = reach at *
    split <;> omega

/-- A short program is closed where it binds the labels of its own that it goes to. -/
theorem closed_of_short (admissible : ∀ op ∈ p, op.Admissible e)
    (inward : ∀ l, p.RefersTo l → ¬shared l → Op.bind l ∈ p) (short : p.extent < 1024) :
    p.ClosedBut shared := by
  intro pos i em l found directed own
  have refers := (refers_to_iff p pos l).mp ⟨em, List.mem_of_getElem? found, directed⟩
  obtain ⟨target, place⟩ := Option.ne_none_iff_exists'.mp
    (mt (place_none p pos l).mp (not_not_intro (inward l refers own)))
  obtain ⟨k, inside, rfl⟩ := place_inside place
  obtain ⟨early, -⟩ := List.getElem?_eq_some_iff.mp found
  have bound := p.emissions_extent pos
  refine ⟨_, place, ?_⟩
  rcases directed_emission (List.mem_of_getElem? found) directed with
    ⟨c, rs1, rs2, rfl, member⟩ | ⟨rd, rfl, member⟩
  · obtain ⟨condition, left, right, -⟩ := admissible _ member
    exact ⟨condition, left, right,
      reaches_between pos i k (by omega) (by omega) (by omega) (by omega)⟩
  · obtain ⟨valid, -⟩ := admissible _ member
    exact ⟨valid, reaches_between pos i k (by omega) (by omega) (by omega) (by omega)⟩

/-- Closed programs reach the labels that they share where these are bound and only jumped to. -/
theorem ClosedBut.reached (closed : p.ClosedBut shared) {a : Assembler} (inv : Emitted [] a)
    (fresh : ∀ l, a.bound? l = none) (admissible : ∀ op ∈ p, op.Admissible e)
    (bound : ∀ l, p.RefersTo l → shared l → Op.bind l ∈ p)
    (jumped : ∀ c rs1 rs2 l, Op.branch c rs1 rs2 l ∈ p → ¬shared l)
    (short : p.extent < 2 ^ 18) : Reached [] a p := by
  intro i em l found directed
  have start : a.pos = 0 := by rw [inv.pos, List.length_nil, Nat.mul_zero]
  rw [List.nil_append, start] at found
  rw [fresh, start, Option.none_or]
  by_cases own : shared l
  · have refers := (refers_to_iff p 0 l).mp ⟨em, List.mem_of_getElem? found, directed⟩
    obtain ⟨target, place⟩ := Option.ne_none_iff_exists'.mp
      (mt (place_none p 0 l).mp (not_not_intro (bound l refers own)))
    obtain ⟨k, inside, rfl⟩ := place_inside place
    obtain ⟨early, -⟩ := List.getElem?_eq_some_iff.mp found
    have long := p.emissions_extent 0
    refine ⟨_, place, ?_⟩
    rcases directed_emission (List.mem_of_getElem? found) directed with
      ⟨c, rs1, rs2, rfl, member⟩ | ⟨rd, rfl, member⟩
    · exact absurd own (jumped c rs1 rs2 l member)
    · obtain ⟨valid, -⟩ := admissible _ member
      have near := reaches_between (w := 21) 0 i k (by omega) (by omega) (by omega) (by omega)
      rw [Nat.zero_add (instructionSize * i)] at near
      exact ⟨valid, near⟩
  · obtain ⟨target, place, encodable⟩ := closed 0 i em l found directed own
    rw [Nat.zero_add] at encodable
    exact ⟨target, place, encodable⟩

end Program

end EntryCode
