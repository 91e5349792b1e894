import EntryCode.Machine.Run
import EntryCode.Proofs.Machine.Stepping

/-!
Runs among routines that are not simulated. A run goes on through instructions and calls; what is
called and what is noticed is kept in order. As long as there are instructions left to execute, the
run with fuel comes through the same machines.
-/

namespace EntryCode

/-- A call of a routine that is not simulated: the machine at its address, and the machine that
goes on afterwards. -/
structure Call where
  before : Machine
  after : Machine

inductive Event where
  | call (c : Call)
  | effect (e : Effect)

def Effect.seen (watched : Dword → Bool) (e : Effect) : List Event :=
  if e.noticed watched then [.effect e] else []

/-- The registers that a called routine leaves as they were. -/
def Register.saved : List Register :=
  [.sp, .fp, ⟨9⟩, ⟨18⟩, .s3, .s4, .s5, .s6, .s7, .s8, ⟨25⟩, ⟨26⟩, ⟨27⟩]

/-- A routine that follows the calling convention returns to its caller, with the saved registers
and the memory at `kept` as they were. -/
structure Machine.Returned (kept : Dword → Prop) (m k : Machine) : Prop where
  cleared : m.Zeroed → k.Zeroed
  back : k.pc = m.reg .ra
  saved : ∀ r ∈ Register.saved, k.reg r = m.reg r
  memory : Memory.Agree kept m.memory k.memory

theorem Machine.Returned.mono {kept less : Dword → Prop} {m k : Machine}
    (returned : Returned kept m k) (part : ∀ x, less x → kept x) : Returned less m k where
  cleared := returned.cleared
  back := returned.back
  saved := returned.saved
  memory := returned.memory.mono part

def TrapAction.next? (m : Machine) : TrapAction → Option Machine
  | .resume => some (m.goto (m.x.get 1))
  | .jump => some m
  | .halt => none

variable {σ : Type} {env : Environment σ} {watched : Dword → Bool}

/-- The environment acts at `p`, and the run goes on at `q`. -/
def Progress.Calls (env : Environment σ) (p q : Progress σ) : Prop :=
  ∃ act m memo action, env.trap p.machine.pc = some act ∧
    act p.machine p.steps p.memo = (m, memo, action) ∧ action.next? m = some q.machine ∧
    q.steps = p.steps ∧ q.memo = memo

/-- The environment acts in one way only. -/
theorem Progress.Calls.unique {p q r : Progress σ} (first : p.Calls env q) (second : p.Calls env r) :
    q = r := by
  obtain ⟨act, m, memo, action, trap, acts, next, steps, memory⟩ := first
  obtain ⟨act', m', memo', action', trap', acts', next', steps', memory'⟩ := second
  rw [trap] at trap'
  cases trap'
  rw [acts] at acts'
  cases acts'
  rw [next] at next'
  cases q
  cases r
  cases next'
  simp_all

/-- A run goes on through instructions and calls. -/
inductive Goes (env : Environment σ) (watched : Dword → Bool) :
    Progress σ → List Event → Progress σ → Prop
  | done (p : Progress σ) : Goes env watched p [] p
  | step {p q : Progress σ} {events : List Event} {m : Machine} {e : Effect} :
    env.trap p.machine.pc = none → p.machine.advance = .ok (m, e) →
      Goes env watched ⟨m, p.steps + 1, env.observe e p.memo⟩ events q →
        Goes env watched p (e.seen watched ++ events) q
  | call {p r q : Progress σ} {events : List Event} :
    p.Calls env r → Goes env watched r events q →
      Goes env watched p (.call ⟨p.machine, r.machine⟩ :: events) q

namespace Goes

variable {p q r : Progress σ} {events more : List Event}

theorem trans (first : Goes env watched p events q) (second : Goes env watched q more r) :
    Goes env watched p (events ++ more) r := by
  induction first with
  | done p => exact second
  | step quiet advanced _ ih =>
      rw [List.append_assoc]
      exact .step quiet advanced (ih second)
  | call calls _ ih => exact .call calls (ih second)

theorem steps_le (goes : Goes env watched p events q) : p.steps ≤ q.steps := by
  induction goes with
  | done p => exact le_rfl
  | step _ _ _ ih => exact Nat.le_of_succ_le ih
  | call calls _ ih =>
      obtain ⟨_, _, _, _, _, _, _, steps, _⟩ := calls
      exact steps ▸ ih

/-- The run with fuel comes through `q`, whatever fuel it has left there. -/
theorem run (goes : Goes env watched p events q) :
    ∃ rounds, ∀ limit, q.steps ≤ limit → ∀ fuel,
      Progress.run env limit (rounds + fuel) p = Progress.run env limit fuel q := by
  induction goes with
  | done p => exact ⟨0, fun _ _ fuel => by rw [Nat.zero_add]⟩
  | step quiet advanced later ih =>
      obtain ⟨rounds, same⟩ := ih
      refine ⟨rounds + 1, fun limit enough fuel => ?_⟩
      have left := later.steps_le
      rw [Nat.add_right_comm, Progress.run, Progress.round, quiet]
      simp only [advanced]
      rw [if_neg (by simp only at left; omega)]
      exact same limit enough fuel
  | @call p r q events calls _ ih =>
      obtain ⟨rounds, same⟩ := ih
      obtain ⟨act, m, memo, action, trap, acts, next, steps, remembered⟩ := calls
      refine ⟨rounds + 1, fun limit enough fuel => ?_⟩
      rw [← same limit enough fuel, Nat.add_right_comm, Progress.run, Progress.round, trap]
      obtain ⟨machine, steps', memo'⟩ := r
      cases steps
      cases remembered
      simp only [acts]
      cases action with
      | resume =>
          cases next
          rfl
      | jump =>
          cases next
          rfl
      | halt => cases next

/-- Every call of a run was made by the environment, at a machine that the run came through. -/
theorem call_made (goes : Goes env watched p events q) {c : Call} (member : .call c ∈ events) :
    ∃ earlier s t, Goes env watched p earlier s ∧ s.Calls env t ∧ c = ⟨s.machine, t.machine⟩ := by
  induction goes with
  | done p => cases member
  | @step p q events m e quiet advanced _ ih =>
      have later : .call c ∈ events := by
        rcases List.mem_append.mp member with seen | later
        · rw [Effect.seen] at seen
          split at seen
          · cases List.mem_singleton.mp seen
          · cases seen
        · exact later
      obtain ⟨earlier, s, t, before, calls, same⟩ := ih later
      exact ⟨_, s, t, .step quiet advanced before, calls, same⟩
  | @call p r q events calls _ ih =>
      rcases List.mem_cons.mp member with here | later
      · cases here
        exact ⟨[], p, r, .done p, calls, rfl⟩
      · obtain ⟨earlier, s, t, before, calls', same⟩ := ih later
        exact ⟨_, s, t, .call calls before, calls', same⟩

end Goes

def Linked.Quiet (c : Linked) (env : Environment σ) : Prop :=
  ∀ addr i, c.lies addr i → env.trap addr = none

theorem Effect.noticed_mono {e : Effect} {more : Dword → Bool}
    (part : ∀ x, watched x = true → more x = true) (unseen : e.noticed more = false) :
    e.noticed watched = false := by
  cases e with
  | fence => cases unseen
  | store addr size v =>
      rw [noticed, List.any_eq_false] at unseen ⊢
      exact fun k inside seen => unseen k inside (part _ seen)
  | _ => rfl

/-- A run in which nothing is noticed stays one where less is watched. -/
theorem Goes.unseen {more : Dword → Bool} (part : ∀ x, watched x = true → more x = true)
    {p q : Progress σ} {events : List Event} (goes : Goes env more p events q) (none : events = []) :
    Goes env watched p [] q := by
  induction goes with
  | done p => exact .done p
  | @step p q events m e quiet advanced _ ih =>
      obtain ⟨unseen, none⟩ := List.append_eq_nil_iff.mp none
      have step := Goes.step quiet advanced (ih none)
      have unseen : e.noticed more = false := by
        rw [Effect.seen] at unseen
        split at unseen
        · cases unseen
        · next hidden => exact Bool.eq_false_iff.mpr hidden
      rwa [Effect.seen, Effect.noticed_mono part unseen] at step
  | call => cases none

section Leads
variable {c : Linked} (quiet : c.Quiet env) (part : ∀ x, watched x = true → c.watched x = true)
include quiet part

theorem Linked.Runs.goes {n : Nat} {m k : Machine} (runs : c.Runs n m k) (p : Progress σ)
    (here : p.machine = m) : ∃ q, Goes env watched p [] q ∧ q.machine = k := by
  induction runs generalizing p with
  | done m => exact ⟨p, .done p, here⟩
  | step lies advanced unseen _ ih =>
      subst here
      obtain ⟨q, goes, there⟩ := ih ⟨_, p.steps + 1, env.observe _ p.memo⟩ rfl
      have step := Goes.step (quiet _ _ lies) advanced goes
      rw [Effect.seen, Effect.noticed_mono part unseen] at step
      exact ⟨q, step, there⟩

theorem Goes.leads {p q : Progress σ} {events : List Event} {k : Machine}
    (goes : Goes env watched p events q) (leads : c.Leads q.machine k) :
    ∃ r, Goes env watched p events r ∧ r.machine = k := by
  obtain ⟨n, runs⟩ := leads
  obtain ⟨r, more, there⟩ := runs.goes quiet part q rfl
  exact ⟨r, by simpa using goes.trans more, there⟩

end Leads

/-- Up to an instruction that is noticed, a run without events comes to no machine but those of the
code that leads there. -/
theorem Linked.Runs.passes {c : Linked} {n : Nat} {m k last : Machine} {i : Instruction} {e : Effect}
    (runs : c.Runs n m k) (lies : c.lies k.pc i) (advanced : k.advance = .ok (last, e))
    (seen : e.noticed watched = true) {p q : Progress σ} (here : p.machine = m)
    {events : List Event} (goes : Goes env watched p events q) (none : events = []) :
    ∃ i, c.lies q.machine.pc i := by
  induction runs generalizing p events with
  | done m =>
      subst here
      cases goes with
      | done => exact ⟨i, lies⟩
      | step quiet other later =>
          cases advanced.symm.trans other
          rw [Effect.seen, if_pos seen] at none
          cases none
      | call => cases none
  | step first stepped _ _ ih =>
      subst here
      cases goes with
      | done => exact ⟨_, first⟩
      | step quiet other later =>
          cases stepped.symm.trans other
          exact ih lies advanced rfl later (List.append_eq_nil_iff.mp none).2
      | call => cases none

theorem Goes.notices {c : Linked} (quiet : c.Quiet env) {p q : Progress σ} {events : List Event}
    (goes : Goes env watched p events q) {i : Instruction} {rest : Program}
    (stands : c.Stands q.machine (.instruction i :: rest)) (running : i ≠ .ebreak)
    (seen : (i.effect q.machine).noticed watched = true) :
    ∃ r, Goes env watched p (events ++ [Event.effect (i.effect q.machine)]) r ∧
      r.machine = q.machine.exec i := by
  obtain ⟨lies, -⟩ := Linked.has_instruction.mp stands.placed
  have advanced := Linked.advances stands.cleared stands.here lies running
  have step : Goes env watched q ((i.effect q.machine).seen watched ++ [])
      ⟨q.machine.exec i, q.steps + 1, env.observe (i.effect q.machine) q.memo⟩ :=
    .step (quiet _ _ lies) advanced (.done _)
  rw [Effect.seen, if_pos seen, List.append_nil] at step
  exact ⟨_, goes.trans step, rfl⟩

/-- Where a run that begins with `p` reaches an address with a machine that is ready for it, the
environment acts there, and the machines before and after are related. -/
def Environment.Answers (env : Environment σ) (watched : Dword → Bool) (p : Progress σ)
    (addr : Dword) (ready : Machine → Prop) (rel : Machine → Machine → Prop) : Prop :=
  ∀ events q, Goes env watched p events q → q.machine.pc = addr → ready q.machine →
    ∃ r, q.Calls env r ∧ rel q.machine r.machine

section Answers
variable {addr : Dword} {ready : Machine → Prop} {rel : Machine → Machine → Prop}
  {p q : Progress σ} {events : List Event}

theorem Environment.Answers.since (contract : env.Answers watched p addr ready rel)
    (goes : Goes env watched p events q) : env.Answers watched q addr ready rel :=
  fun more r later => contract (events ++ more) r (goes.trans later)

theorem Environment.Answers.mono {weaker : Machine → Machine → Prop}
    (contract : env.Answers watched p addr ready rel) (part : ∀ m k, rel m k → weaker m k) :
    env.Answers watched p addr ready weaker := by
  intro events q goes here able
  obtain ⟨r, calls, related⟩ := contract events q goes here able
  exact ⟨r, calls, part _ _ related⟩

theorem Goes.answered (contract : env.Answers watched p addr ready rel)
    (goes : Goes env watched p events q) (here : q.machine.pc = addr) (able : ready q.machine) :
    ∃ r, Goes env watched p (events ++ [Event.call ⟨q.machine, r.machine⟩]) r ∧
      rel q.machine r.machine := by
  obtain ⟨r, calls, related⟩ := contract events q goes here able
  exact ⟨r, goes.trans (.call calls (.done _)), related⟩

/-- What an environment answers holds of every call that a run has made. -/
theorem Goes.related (contract : env.Answers watched p addr ready rel)
    (goes : Goes env watched p events q) {c : Call} (member : .call c ∈ events)
    (there : c.before.pc = addr) (able : ready c.before) : rel c.before c.after := by
  obtain ⟨earlier, s, t, before, calls, rfl⟩ := goes.call_made member
  obtain ⟨r, calls', related⟩ := contract earlier s before there able
  rwa [calls.unique calls']

end Answers

end EntryCode
