import EntryCode.Machine.Run
import EntryCode.Proofs.Machine.Access
import Mathlib.Logic.Relation

/-!
A step is atomic and local. Executed part by part, with observers told along the way and errors
that leave whatever was done before them, a word still does nothing at all where it cannot be
executed; otherwise it changes the register that it names, or tells of one store and makes it.
-/

namespace EntryCode

/-- A machine with what its observers were told, in order. -/
structure Hart where
  machine : Machine
  told : List Effect

namespace Hart

/-- Work on a hart. An error leaves what was done before it. -/
abbrev Work := EStateM Stop Hart

section Parts

def setRegister (rd : BitVec 5) (v : Dword) : Work Unit :=
  modify fun h => { h with machine.x := h.machine.x.set rd v }

def setFloat (fd : BitVec 5) (v : Dword) : Work Unit :=
  modify fun h => { h with machine.f := h.machine.f.set fd v }

def tell (e : Effect) : Work Unit :=
  modify fun h => { h with told := h.told ++ [e] }

def store (addr : Dword) (size : Nat) (v : Dword) : Work Unit := do
  tell (.store addr size v)
  modify fun h => { h with machine.memory := h.machine.memory.store addr size v }

def goto (pc : Dword) : Work Unit :=
  modify fun h => { h with machine.pc := pc }

def refuse {α : Type} (w : Word) (reason : Unsupported) : Work α := do
  throw (.fault ⟨(← get).machine.pc, w, reason⟩)

/-- A value that is read off a word, where the word is supported. -/
def decoded {α : Type} (w : Word) : Except Unsupported α → Work α
  | .ok a => pure a
  | .error reason => refuse w reason

end Parts

/-- The work of a floating-point instruction on a machine as it is before. -/
def floatWork (m : Machine) (w : Word) : Work Unit :=
  let a := m.f.get (Format.rs1 w)
  let b := m.f.get (Format.rs2 w)
  let d := Format.rd w
  let sign := b &&& Machine.signBit
  match (Format.funct7 w).toNat with
  | 0x2d => if Format.rs2 w = 0 then setFloat d (SquareRoot.ofBits a) else refuse w .floatOp
  | 0x11 =>
    match (Format.funct3 w).toNat with
    | 0 => setFloat d ((a &&& ~~~Machine.signBit) ||| sign)
    | 1 => setFloat d ((a &&& ~~~Machine.signBit) ||| (sign ^^^ Machine.signBit))
    | 2 => setFloat d (a ^^^ sign)
    | _ => refuse w .signInjection
  | 0x71 =>
    if (Format.funct3 w).toNat = 0 ∧ Format.rs2 w = 0 then setRegister d a
    else refuse w .floatOp
  | 0x79 =>
    if (Format.funct3 w).toNat = 0 ∧ Format.rs2 w = 0 then
      setFloat d (m.x.get (Format.rs1 w))
    else refuse w .floatOp
  | _ => refuse w .floatOp

/-- The work of a word on a machine as it is before. The program counter comes last. -/
def wordWork (m : Machine) (w : Word) : Work Unit :=
  let a := m.x.get (Format.rs1 w)
  let b := m.x.get (Format.rs2 w)
  let rd := Format.rd w
  let next := m.pc + 4
  let upper : Dword := Machine.sext 32 ((Format.upperBits w ++ 0#12).setWidth 64)
  match (Format.opcode w).toNat with
  | 0x37 => do
    setRegister rd upper
    goto next
  | 0x17 => do
    setRegister rd (m.pc + upper)
    goto next
  | 0x13 => do
    setRegister rd (← decoded w (Machine.immediateValue w a))
    goto next
  | 0x1b =>
    if Format.funct3 w = 0 then do
      setRegister rd (Machine.sext 32 (a + Format.immediate w))
      goto next
    else refuse w .immediateOp32
  | 0x33 => do
    setRegister rd (← decoded w (Machine.registerValue w a b))
    goto next
  | 0x3b =>
    if Format.funct7 w = 0x04 ∧ Format.funct3 w = 4 ∧ Format.rs2 w = 0 then do
      setRegister rd (a &&& 0xffff)
      goto next
    else refuse w .registerOp32
  | 0x03 => do
    setRegister rd (← decoded w (Machine.loadValue m.memory w (a + Format.immediate w)))
    goto next
  | 0x23 =>
    if Format.funct3 w ≤ 3 then do
      store (a + Format.storeOffset w) (1 <<< (Format.funct3 w).toNat) b
      goto next
    else refuse w .store
  | 0x07 => do
    setFloat rd (← decoded w (Machine.loadFloatValue m.memory w (a + Format.immediate w)))
    goto next
  | 0x27 =>
    match (Format.funct3 w).toNat with
    | 2 => do
      store (a + Format.storeOffset w) 4 (m.f.get (Format.rs2 w) &&& 0xffffffff)
      goto next
    | 3 => do
      store (a + Format.storeOffset w) 8 (m.f.get (Format.rs2 w))
      goto next
    | _ => refuse w .floatStore
  | 0x53 => do
    floatWork m w
    goto next
  | 0x63 => do
    if ← decoded w (Machine.branchTaken w a b) then goto (m.pc + Machine.branchOffset w)
    else goto next
  | 0x6f => do
    setRegister rd next
    goto (m.pc + Machine.jumpOffset w)
  | 0x67 => do
    setRegister rd next
    goto ((a + Format.immediate w) &&& ~~~1)
  | 0x0f => do
    tell (.fence ⟨w >>> 24 &&& 0xf⟩ ⟨w >>> 20 &&& 0xf⟩)
    goto next
  | 0x73 => if w = 0x00100073 then throw .breakpoint else refuse w .system
  | _ => refuse w .opcode

def execute (w : Word) : Work Unit := do
  wordWork (← get).machine w

end Hart

/-- What observers were told, once they are told of an effect. Only stores and fences are told. -/
def Effect.report (told : List Effect) : Effect → List Effect
  | .store addr size v => told ++ [.store addr size v]
  | .fence pred succ => told ++ [.fence pred succ]
  | _ => told

namespace Hart

/-- What a transition makes of a hart, all at once. -/
def settle (h : Hart) (w : Word) : Except Unsupported Transition → EStateM.Result Stop Hart Unit
  | .ok t => .ok () ⟨{ h.machine.apply t.effect with pc := t.next }, t.effect.report h.told⟩
  | .error reason => .error (.fault ⟨h.machine.pc, w, reason⟩) h

section Agreement
variable (w : Word) (h : Hart)

/-- Where a value is read off a word before anything is done, nothing is done if there is none. -/
theorem decoded_settles {α : Type} (x : Except Unsupported α) (f : α → Work Unit)
    (g : α → Transition) (each : ∀ a, f a h = h.settle w (.ok (g a))) :
    (decoded w x >>= f) h = h.settle w (x >>= fun a => .ok (g a)) := by
  cases x with
  | ok a => exact each a
  | error reason => rfl

theorem float_settles (next : Dword) :
    (floatWork h.machine w >>= fun _ => goto next) h =
      h.settle w (h.machine.floatEffect w >>= fun e => .ok ⟨e, next⟩) := by
  generalize made : floatWork h.machine w = work
  generalize done : h.machine.floatEffect w = effect
  unfold floatWork at made
  unfold Machine.floatEffect at done
  simp only at made done
  split at made
  case h_5 =>
    split at done
    case h_5 =>
      subst made done
      rfl
    all_goals contradiction
  all_goals
    rename_i funct
    simp only [funct] at done
  case h_1 | h_3 | h_4 =>
    split at made
    all_goals
      next holds =>
        simp only [holds] at done
        subst made done
        rfl
  case h_2 =>
    split at made
    case h_4 =>
      split at done
      case h_4 =>
        subst made done
        rfl
      all_goals contradiction
    all_goals
      rename_i operation
      simp only [operation] at done
      subst made done
      rfl

/-- Work part by part comes to the same as the transition of the word. -/
theorem word_work (running : w ≠ 0x00100073) :
    wordWork h.machine w h = h.settle w (h.machine.transition w) := by
  -- The work is a match applied to a hart, which cannot be split where it stands.
  generalize made : wordWork h.machine w = work
  generalize stepped : h.machine.transition w = t
  unfold wordWork at made
  unfold Machine.transition at stepped
  simp only at made stepped
  split at made
  case h_17 =>
    split at stepped
    case h_17 =>
      subst made stepped
      rfl
    all_goals contradiction
  all_goals
    rename_i opcode
    simp only [opcode] at stepped
  case h_1 | h_2 | h_13 | h_14 | h_15 =>
    subst made stepped
    rfl
  case h_3 | h_5 | h_7 | h_9 =>
    subst made stepped
    exact decoded_settles w h _ _ _ fun _ => rfl
  case h_4 | h_6 | h_8 =>
    split at made
    all_goals
      next holds =>
        simp only [holds] at stepped
        subst made stepped
        rfl
  case h_12 =>
    subst made stepped
    refine decoded_settles w h _ _ _ fun taken => ?_
    cases taken <;> rfl
  case h_16 =>
    rw [if_neg running] at made
    subst made stepped
    rfl
  case h_10 =>
    split at made
    case h_3 =>
      split at stepped
      case h_3 =>
        subst made stepped
        rfl
      all_goals contradiction
    all_goals
      rename_i width
      simp only [width] at stepped
      subst made stepped
      rfl
  case h_11 =>
    subst made stepped
    exact float_settles w h _

/-- Executing a word part by part comes to the same as the step of the machine. -/
theorem execute_step : execute w h = match h.machine.step w with
    | .ok (m, e) => .ok () ⟨m, e.report h.told⟩
    | .error s => .error s h := by
  by_cases running : w = 0x00100073
  · subst running
    rfl
  · rw [Machine.step, if_neg running]
    refine (word_work w h running).trans ?_
    cases h.machine.transition w <;> rfl

end Agreement

end Hart

/-- The address that a word stores to, where it stores. -/
def Machine.storeAddress (m : Machine) (w : Word) : Dword :=
  m.x.get (Format.rs1 w) + Format.storeOffset w

/-- Where the effect of a word lies: in the register that it names, or at the address that it
stores to. -/
def Effect.Located (m : Machine) (w : Word) : Effect → Prop
  | .none | .fence .. => True
  | .setRegister r _ | .setFloat r _ => r = Format.rd w
  | .store addr size _ => addr = m.storeAddress w ∧ size ∈ [1, 2, 4, 8]

namespace Machine

variable {m : Machine} {w : Word}

theorem float_effect_located {e : Effect} (done : m.floatEffect w = .ok e) : e.Located m w := by
  unfold floatEffect at done
  simp only at done
  split at done
  case h_5 => cases done
  all_goals
    split at done <;> cases done
    all_goals rfl

theorem transition_located {t : Transition} (done : m.transition w = .ok t) :
    t.effect.Located m w := by
  unfold transition at done
  simp only at done
  split at done
  case h_1 | h_2 | h_13 | h_14 | h_15 =>
    cases done
    simp only [Effect.Located]
  case h_3 | h_5 | h_7 | h_9 | h_12 =>
    obtain ⟨_, _, made⟩ := bind_ok.mp done
    cases made
    simp only [Effect.Located]
  case h_4 | h_6 =>
    split at done <;> cases done
    simp only [Effect.Located]
  case h_8 =>
    split at done <;> cases done
    next small =>
      have sizes : ∀ n ≤ 3, 1 <<< n ∈ [1, 2, 4, 8] := by decide
      exact ⟨rfl, sizes _ (BitVec.le_def.mp small)⟩
  case h_10 =>
    split at done <;> cases done
    · exact ⟨rfl, by decide⟩
    · exact ⟨rfl, by decide⟩
  case h_11 =>
    obtain ⟨e, effect, made⟩ := bind_ok.mp done
    cases made
    exact float_effect_located effect
  case h_16 | h_17 => cases done

theorem step_ok {k : Machine} {e : Effect} (done : m.step w = .ok (k, e)) :
    ∃ t, m.transition w = .ok t ∧ k = { m.apply t.effect with pc := t.next } ∧ e = t.effect := by
  rw [step] at done
  split at done
  case isTrue => cases done
  case isFalse =>
    split at done <;> cases done
    next t transition => exact ⟨t, transition, rfl, rfl⟩

theorem step_error {s : Stop} (stopped : m.step w = .error s) :
    w = 0x00100073 ∧ s = .breakpoint ∨ ∃ reason, s = .fault ⟨m.pc, w, reason⟩ := by
  rw [step] at stopped
  split at stopped
  case isTrue breakpoint =>
    cases stopped
    exact .inl ⟨breakpoint, rfl⟩
  case isFalse =>
    split at stopped <;> cases stopped
    next reason _ => exact .inr ⟨reason, rfl⟩

end Machine

namespace Hart

/-- How a hart differs after a word, apart from its program counter. -/
inductive Local (w : Word) (h k : Hart) : Prop
  /-- At most the integer register that the word names is another. -/
  | register (x : ∀ r, r ≠ Format.rd w → k.machine.x.get r = h.machine.x.get r)
      (f : k.machine.f = h.machine.f) (memory : k.machine.memory = h.machine.memory)
      (told : k.told = h.told)
  /-- At most the floating-point register that the word names is another. -/
  | float (f : ∀ r, r ≠ Format.rd w → k.machine.f.get r = h.machine.f.get r)
      (x : k.machine.x = h.machine.x) (memory : k.machine.memory = h.machine.memory)
      (told : k.told = h.told)
  /-- One range of memory was written, and observers were told of it once. -/
  | store (size : Nat) (v : Dword) (sized : size ∈ [1, 2, 4, 8])
      (memory : k.machine.memory = h.machine.memory.store (h.machine.storeAddress w) size v)
      (elsewhere : ∀ c, ¬Memory.Covers (h.machine.storeAddress w) size c →
        k.machine.memory.byte c = h.machine.memory.byte c)
      (x : k.machine.x = h.machine.x) (f : k.machine.f = h.machine.f)
      (told : k.told = h.told ++ [Effect.store (h.machine.storeAddress w) size v])
  /-- Nothing is another, and observers were told of a fence. -/
  | fence (pred succ : FenceSet) (x : k.machine.x = h.machine.x) (f : k.machine.f = h.machine.f)
      (memory : k.machine.memory = h.machine.memory)
      (told : k.told = h.told ++ [Effect.fence pred succ])

theorem local_of_located {w : Word} {h : Hart} {e : Effect} (located : e.Located h.machine w)
    (next : Dword) :
    Local w h ⟨{ h.machine.apply e with pc := next }, e.report h.told⟩ := by
  cases e with
  | none => exact .register (fun _ _ => rfl) rfl rfl rfl
  | setRegister r v =>
      cases located
      exact .register (fun _ other => (RegisterFile.get_set ..).trans (if_neg other)) rfl rfl rfl
  | setFloat r v =>
      cases located
      exact .float (fun _ other => (RegisterFile.get_set ..).trans (if_neg other)) rfl rfl rfl
  | store addr size v =>
      obtain ⟨rfl, sized⟩ := located
      have short : size ≤ 8 := (by decide : ∀ n ∈ [1, 2, 4, 8], n ≤ 8) size sized
      refine .store size v sized rfl (fun c outside => ?_) rfl rfl rfl
      exact (Memory.byte_store _ _ _ _ _ (by omega)).trans (if_neg outside)
  | fence pred succ => exact .fence pred succ rfl rfl rfl rfl

end Hart

namespace Progress

variable {σ : Type} (env : Environment σ) (limit : Nat)

def Continues (p q : Progress σ) : Prop := p.round env limit = (q, none)

/-- Traps write nothing but zero to the zero register. -/
def SparesZero : Prop :=
  ∀ pc act, env.trap pc = some act → ∀ m steps memo, m.Zeroed → (act m steps memo).1.Zeroed

section Rounds
variable {env limit} {p q : Progress σ}

theorem round_word (untrapped : env.trap p.machine.pc = none) (left : p.steps < limit) :
    p.round env limit = match p.machine.step p.machine.fetch with
      | .ok (m, e) =>
        (⟨{ m with x := m.x.set 0 0 }, p.steps + 1, env.observe e p.memo⟩, none)
      | .error s => ({ p with steps := p.steps + 1 }, some (.stopped s)) := by
  rw [round, untrapped]
  simp only [if_neg (Nat.not_le.mpr left), Machine.advance]
  cases p.machine.step p.machine.fetch <;> rfl

theorem zeroed_set (m : Machine) : { m with x := m.x.set 0 0 }.Zeroed :=
  (RegisterFile.get_set ..).trans (if_pos rfl)

/-- A round keeps zero in the zero register: a trap by assumption, a word whatever it writes. -/
theorem continues_zeroed (spared : SparesZero env) (goes : Continues env limit p q)
    (zeroed : p.machine.Zeroed) : q.machine.Zeroed := by
  cases trap : env.trap p.machine.pc with
  | some act =>
      have kept := spared _ act trap p.machine p.steps p.memo zeroed
      simp only [Continues, round, trap] at goes
      split at goes <;> cases goes <;> exact kept
  | none =>
      by_cases left : p.steps < limit
      · rw [Continues, round_word trap left] at goes
        split at goes <;> cases goes
        exact zeroed_set _
      · simp only [Continues, round, trap, if_pos (Nat.not_lt.mp left)] at goes
        cases goes

theorem rounds_zeroed (spared : SparesZero env)
    (goes : Relation.ReflTransGen (Continues env limit) p q) (zeroed : p.machine.Zeroed) :
    q.machine.Zeroed := by
  induction goes with
  | refl => exact zeroed
  | tail _ last ih => exact continues_zeroed spared last ih

end Rounds

end Progress

namespace Hart

/-- A word acts at once and in one place, or not at all. -/
theorem words_act_at_once_and_in_one_place {σ : Type} (env : Environment σ) (limit : Nat)
    (w : Word) (h : Hart) :
    (∀ s k, execute w h = .error s k →
      k = h ∧ h.machine.step w = .error s ∧
        (w = 0x00100073 ∧ s = .breakpoint ∨ ∃ reason, s = .fault ⟨h.machine.pc, w, reason⟩)) ∧
    (∀ k, execute w h = .ok () k →
      Local w h k ∧ ∃ e, h.machine.step w = .ok (k.machine, e) ∧ k.told = e.report h.told) ∧
    ∀ p : Progress σ, env.trap p.machine.pc = none → p.steps < limit →
      (∀ s k, execute p.machine.fetch ⟨p.machine, []⟩ = .error s k →
        p.round env limit = ({ p with steps := p.steps + 1 }, some (.stopped s))) ∧
      ∀ k, execute p.machine.fetch ⟨p.machine, []⟩ = .ok () k →
        ∃ q e, p.Continues env limit q ∧ k.told = e.report [] ∧ q.memo = env.observe e p.memo ∧
          q.machine = { k.machine with x := k.machine.x.set 0 0 } ∧ q.machine.x.get 0 = 0 ∧
          (Progress.SparesZero env →
            ∀ r, Relation.ReflTransGen (Progress.Continues env limit) q r →
              r.machine.x.get 0 = 0) := by
  refine ⟨fun s k stopped => ?_, fun k done => ?_, fun p untrapped left => ⟨?_, ?_⟩⟩
  · rw [execute_step] at stopped
    split at stopped <;> cases stopped
    next because => exact ⟨rfl, because, Machine.step_error because⟩
  · rw [execute_step] at done
    split at done <;> cases done
    next m e stepped =>
      obtain ⟨t, transition, rfl, rfl⟩ := Machine.step_ok stepped
      exact ⟨local_of_located (Machine.transition_located transition) _, _, stepped, rfl⟩
  · intro s k stopped
    rw [execute_step] at stopped
    split at stopped <;> cases stopped
    next because => rw [Progress.round_word untrapped left, because]
  · intro k done
    rw [execute_step] at done
    split at done <;> cases done
    next m e stepped =>
      have goes := Progress.round_word untrapped left
      rw [stepped] at goes
      exact ⟨_, e, goes, rfl, rfl, rfl, Progress.zeroed_set m,
        fun spared r later => Progress.rounds_zeroed spared later (Progress.zeroed_set m)⟩

/-- A word writes to the zero register, and a trap comes after it: the word that is fetched next
finds zero there. -/
theorem zero_register_is_restored :
    ∃ (env : Environment Unit) (p q r : Progress Unit),
      p.machine.fetch = 0x00500013 ∧ env.trap p.machine.pc = none ∧ p.steps < 2 ∧
      (∃ k, execute p.machine.fetch ⟨p.machine, []⟩ = .ok () k ∧ k.machine.x.get 0 = 5) ∧
      Progress.SparesZero env ∧ p.Continues env 2 q ∧ q.Continues env 2 r ∧
      r.machine.pc = 0x1008 ∧ r.machine.x.get 0 = 0 := by
  let env : Environment Unit :=
    { trap := fun pc =>
        if pc = 0x1004 then some fun m _ u => ({ m with pc := 0x1008 }, u, .jump) else none
      observe := fun _ u => u }
  let start : Machine :=
    ⟨.zeros, .zeros, 0x1000, Memory.empty.writeWords 0x1000 [0x00500013]⟩
  let written : Hart := ⟨{ start with x := start.x.set 0 5, pc := 0x1004 }, []⟩
  have fetched : start.fetch = 0x00500013 :=
    Memory.load_word 0x1000 [0x00500013] (Memory.read_write_words _ _ (by decide)) 0 _ rfl
  have done : execute start.fetch ⟨start, []⟩ = .ok () written := by
    rw [fetched]
    rfl
  have spared : Progress.SparesZero env := by
    intro pc act trap m steps memo zeroed
    obtain ⟨-, same⟩ := Option.ite_none_right_eq_some.mp trap
    cases same
    exact zeroed
  obtain ⟨-, -, runs⟩ := words_act_at_once_and_in_one_place env 2 0x00500013 ⟨start, []⟩
  obtain ⟨⟨m, steps, memo⟩, -, goes, -, -, rfl, -, later⟩ :=
    (runs ⟨start, 0, ()⟩ rfl (by decide)).2 written done
  let cleared : Machine := { written.machine with x := written.machine.x.set 0 0 }
  have trapped : Progress.Continues env 2 ⟨cleared, steps, memo⟩
      ⟨{ cleared with pc := 0x1008 }, steps, memo⟩ := rfl
  exact ⟨env, ⟨start, 0, ()⟩, _, _, fetched, rfl, by decide, ⟨written, done, by decide⟩, spared,
    goes, trapped, rfl, later spared _ (.single trapped)⟩

end Hart

end EntryCode
