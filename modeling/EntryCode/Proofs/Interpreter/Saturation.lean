import EntryCode.Proofs.Interpreter.Attendance

/-!
The counter over many invocations. It comes up to its limit and stays there, and never wraps; the
compiler hears of every invocation that leaves it at the limit. The request for method data reads the
same counter but has a limit of its own, so it may never come.
-/

namespace EntryCode

open EntryCode.Frame Pinned Fragment Machine

section Numbers
variable {cfg : Config} {v : Dword}

theorem Fragment.limit_toNat : (limit cfg).toNat = cfg.counterLimit.toNat := by
  have bound := cfg.counterLimit.isLt
  rw [limit, BitVec.toNat_setWidth]
  omega

theorem Config.count_up_value (counts : cfg.counts = true) :
    (cfg.countUp v).toNat = max v.toNat (min (v.toNat + 1) cfg.counterLimit.toNat) := by
  have bound := cfg.counterLimit.isLt
  rw [Config.countUp, if_pos counts]
  by_cases below : v.ult (limit cfg) = true
  · have less := below
    rw [BitVec.ult, decide_eq_true_eq, limit_toNat] at less
    rw [if_pos below, BitVec.toNat_add, show (1 : Dword).toNat = 1 from rfl]
    omega
  · have full := below
    rw [BitVec.ult, decide_eq_true_eq, limit_toNat] at full
    rw [if_neg below, show v + 0 = v from BitVec.add_zero v]
    omega

theorem Config.count_up_idle (idle : cfg.counts = false) : cfg.countUp v = v := by
  rw [Config.countUp, idle]
  rfl

/-- The counter after `n` invocations that began with it at `c`. -/
def Config.saturated (cfg : Config) (c n : Nat) : Nat :=
  if cfg.counts then max c (min (c + n) cfg.counterLimit.toNat) else c

theorem Config.saturated_step {c n : Nat} (value : v.toNat = cfg.saturated c n) :
    (cfg.countUp v).toNat = cfg.saturated c (n + 1) := by
  cases counts : cfg.counts with
  | false =>
      rw [saturated, counts] at value ⊢
      rwa [count_up_idle counts]
  | true =>
      rw [saturated, counts, if_pos rfl] at value ⊢
      rw [count_up_value counts]
      omega

theorem Config.asking_iff {data : Dword} : .profileMethod ∈ cfg.asking data v ↔
    cfg.profile = true ∧ data = 0 ∧ cfg.profileLimit.toNat ≤ v.toNat := by
  have bound := cfg.profileLimit.isLt
  have limit : (cfg.profileLimit.setWidth 64).toNat = cfg.profileLimit.toNat := by
    rw [BitVec.toNat_setWidth]
    omega
  rw [Config.asking, BitVec.ult, limit]
  split <;> simp_all

theorem Config.overflowing_count :
    (cfg.overflowing v).count .counterOverflow =
      if cfg.useCompiler ∧ cfg.counterLimit.toNat ≤ v.toNat then 1 else 0 := by
  rw [Config.overflowing, BitVec.ult, limit_toNat]
  by_cases compiler : cfg.useCompiler = true <;>
    by_cases full : cfg.counterLimit.toNat ≤ v.toNat <;> simp [compiler, full]

omit v in
theorem Config.profile_limit_positive (accepted : cfg.problem? = none) (profile : cfg.profile = true) :
    0 < cfg.profileLimit.toNat := by
  refine Nat.pos_of_ne_zero fun none => ?_
  have zero : cfg.profileLimit = 0 := BitVec.eq_of_toNat_eq none
  simp [problem?, profile, zero, Option.or_eq_none_iff, ite_eq_iff] at accepted

end Numbers

namespace Invocation

section Contracts
variable {σ : Type} (k : Nat) (a : Nat → Invocation)

/-- Invocations that are made one after the other. -/
structure Series (cfg : Config) (i : Interpreter) (code : Dword → Prop) (other : Nat → Dword → Prop)
    (env : Nat → Environment σ) (p : Nat → Progress σ) : Prop where
  cfg : ∀ n < k, (a n).cfg = cfg
  presented : ∀ n < k, (a n).Presented code (other n) (env n) (p n) i

/-- Each begins with the counter where the one before has left it. -/
def Joined (q : Nat → Progress σ) : Prop :=
  ∀ n, n + 1 < k → (a (n + 1)).count (a (n + 1)).start.memory = (a n).count (q n).machine.memory

def Asks (calls : Nat → List (Callee × Call)) (n : Nat) : Prop :=
  .profileMethod ∈ (calls n).map Prod.fst

/-- The method has no data until it is asked for, and nothing else writes there. -/
structure Dataless (other : Nat → Dword → Prop) (calls : Nat → List (Callee × Call)) : Prop where
  apart : ∀ n < k, ∀ x, (a n).Field .methodData x → (a n).Lasting (other n) [] x
  none : ∀ n < k, (∀ j < n, ¬Asks calls j) → (a n).data (a n).start.memory = 0

end Contracts

section Calls
variable {a : Invocation} {code other : Dword → Prop} {σ : Type} {env : Environment σ}
  {p q : Progress σ} {calls : List (Callee × Call)}
  (passage : a.Passage code other env p calls q)
include passage

/-- Nothing that comes after the counter calls for an overflow. -/
theorem Passage.overflow_count : (calls.map Prod.fst).count .counterOverflow =
    if a.cfg.useCompiler ∧ a.cfg.counterLimit.toNat ≤ (a.count q.machine.memory).toNat then 1
      else 0 := by
  obtain ⟨data, prepare, called, -, last⟩ := passage.called
  -- The calls come in four groups, of which only the first may hold an overflow.
  have profile : ∀ v, (if a.native then [] else a.cfg.asking data v).count .counterOverflow = 0 := by
    intro v
    rw [Config.asking]
    split
    · rfl
    · split <;> rfl
  have lock : (if a.synchronized then [Callee.monitorEnter] else []).count .counterOverflow = 0 := by
    split <;> rfl
  have prepare : prepare.count .counterOverflow = 0 := by
    rcases last with rfl | ⟨-, rfl⟩ <;> rfl
  rw [called, List.count_append, List.count_append, List.count_append, profile, lock, prepare,
    Config.overflowing_count, passage.memory.count]
  rfl

theorem Passage.asks_iff (interpreted : a.native = false)
    (lasting : ∀ x, a.Field .methodData x → a.Lasting other [] x) :
    .profileMethod ∈ calls.map Prod.fst ↔ a.cfg.profile = true ∧ a.data a.start.memory = 0 ∧
      a.cfg.profileLimit.toNat ≤ (a.count q.machine.memory).toNat := by
  obtain ⟨data, prepare, called, read, last⟩ := passage.called
  have first : ∀ v, Callee.profileMethod ∉ a.cfg.overflowing v := by
    intro v
    rw [Config.overflowing]
    split <;> simp
  have lock : Callee.profileMethod ∉ if a.synchronized then [Callee.monitorEnter] else [] := by
    split <;> simp
  have prepare : Callee.profileMethod ∉ prepare := by
    rcases last with rfl | ⟨-, rfl⟩ <;> simp
  rw [called, interpreted, ← read lasting, passage.memory.count]
  simp [first, lock, prepare, Config.asking_iff]

end Calls

variable {σ : Type} {k : Nat} {a : Nat → Invocation} {cfg : Config} {i : Interpreter}
  {code : Dword → Prop} {other : Nat → Dword → Prop} {env : Nat → Environment σ}
  {p q : Nat → Progress σ} {calls : Nat → List (Callee × Call)}

/-- Every invocation of a series comes to where its method goes on. -/
theorem Series.passes {c : Linked} (series : Series k a cfg i code other env p)
    (image : Interpreter.Image cfg i c) :
    ∃ (calls : Nat → List (Callee × Call)) (q : Nat → Progress σ), ∀ n < k,
      (a n).Passage code (other n) (env n) (p n) (calls n) (q n) := by
  have each : ∀ n, ∃ calls q, n < k → (a n).Passage code (other n) (env n) (p n) calls q := by
    intro n
    by_cases inside : n < k
    · obtain ⟨calls, q, passage⟩ :=
        (series.presented n inside).passes (by rw [series.cfg n inside]; exact image)
      exact ⟨calls, q, fun _ => passage⟩
    · exact ⟨[], p n, fun within => (inside within).elim⟩
  choose calls q passage using each
  exact ⟨calls, q, passage⟩

section Run
variable (series : Series k a cfg i code other env p)
  (passages : ∀ n < k, (a n).Passage code (other n) (env n) (p n) (calls n) (q n))
  (joined : Joined k a q)
include series passages joined

/-- By induction on the invocations: each counts up what the one before has left. -/
theorem Series.saturates (n : Nat) (inside : n < k) : ((a n).count (q n).machine.memory).toNat =
    cfg.saturated ((a 0).count (a 0).start.memory).toNat (n + 1) := by
  have counted := fun n inside => (passages n inside).memory.count
  induction n with
  | zero =>
      rw [counted 0 inside, series.cfg 0 inside]
      refine Config.saturated_step ?_
      rw [Config.saturated]
      split <;> omega
  | succ n ih =>
      rw [counted (n + 1) inside, series.cfg (n + 1) inside, joined n inside]
      exact Config.saturated_step (ih (Nat.lt_of_succ_lt inside))

variable (interpreted : ∀ n < k, (a n).native = false) (dataless : Dataless k a other calls)
  (profile : cfg.profile = true) (start : (a 0).count (a 0).start.memory = 0)
include interpreted dataless profile start

/-- Before the first request, whether it comes depends on the counter alone. -/
theorem Series.asks_iff (n : Nat) (inside : n < k) (none : ∀ j < n, ¬Asks calls j) :
    Asks calls n ↔ cfg.profileLimit.toNat ≤ min (n + 1) cfg.counterLimit.toNat := by
  have value := series.saturates passages joined n inside
  have counts : cfg.counts = true := by rw [Config.counts, profile, Bool.or_true]
  rw [start, Config.saturated, if_pos counts, show (0 : Dword).toNat = 0 from rfl, Nat.zero_add,
    Nat.zero_max] at value
  rw [Asks, (passages n inside).asks_iff (interpreted n inside) (dataless.apart n inside), value,
    series.cfg n inside]
  simp [profile, dataless.none n inside none]

/-- The first request comes with the invocation that brings the counter to the limit for profiles, and
none comes where the counter stops below it. -/
theorem Series.first_asks_iff (positive : 0 < cfg.profileLimit.toNat) (n : Nat) (inside : n < k) :
    (Asks calls n ∧ ∀ j < n, ¬Asks calls j) ↔
      n + 1 = cfg.profileLimit.toNat ∧ cfg.profileLimit.toNat ≤ cfg.counterLimit.toNat := by
  have asks := series.asks_iff passages joined interpreted dataless profile start
  constructor
  · rintro ⟨asked, none⟩
    have reached := (asks n inside none).mp asked
    refine ⟨?_, by omega⟩
    cases n with
    | zero => omega
    | succ n =>
        -- No request came one invocation earlier, so the counter was still below the limit.
        have earlier := (asks n (Nat.lt_of_succ_lt inside) fun j less => none j (by omega)).not.mp
          (none n (Nat.lt_succ_self n))
        omega
  · rintro ⟨place, enough⟩
    -- By induction none comes earlier: a request depends on the counter only while none has come.
    have none : ∀ m ≤ n, ∀ j < m, ¬Asks calls j := by
      intro m
      induction m with
      | zero => exact fun _ j less => (Nat.not_lt_zero j less).elim
      | succ m ih =>
          intro below j less
          have earlier := ih (by omega)
          rcases Nat.lt_succ_iff_lt_or_eq.mp less with before | rfl
          · exact earlier j before
          · rw [asks j (by omega) earlier]
            omega
    exact ⟨(asks n inside (none n le_rfl)).mpr (by omega), none n le_rfl⟩

end Run

end Invocation

namespace Stage

open Invocation

/-- The sample method, entered again and again. -/
structure Sampled (cfg : Config) (blob : Interpreter.Blob) (flags : AccessFlags) (kind : EntryKind) :
    Prop where
  sound : cfg.Sound
  addressed : Addressed cfg
  made : Interpreter.blob cfg .all = .ok blob
  accepted : (sampleMethod flags).problem? = none
  framed : kind ∈ [.normal, .normalSynchronized, .native, .nativeSynchronized]
  suits : flags.isSynchronized = decide (kind ∈ [.normalSynchronized, .nativeSynchronized])

variable {cfg : Config} {blob : Interpreter.Blob} {flags : AccessFlags} {kind : EntryKind}
  (sampled : Sampled cfg blob flags kind) (counts : Nat → BitVec 32)
include sampled

theorem Sampled.attended (n : Nat) :
    (sampleAt cfg blob flags kind (counts n)).Attended sampleSignature :=
  sample_at_attended sampled.sound sampled.addressed sampled.made sampled.accepted sampled.framed
    sampled.suits

theorem Sampled.series (k : Nat) :
    Series k (fun n => (sampleAt cfg blob flags kind (counts n)).invocation) cfg
      (blob.installed .all codeBase) (blob.installed .all codeBase).Covers
      (fun n => (sampleAt cfg blob flags kind (counts n)).invocation.InRecord)
      (fun n => (sampleAt cfg blob flags kind (counts n)).environment sampleSignature 0 false)
      fun n => (sampleAt cfg blob flags kind (counts n)).progress :=
  ⟨fun _ _ => rfl, fun n _ => (sampled.attended counts n).presented rfl⟩

theorem Sampled.joined {k : Nat} {calls : Nat → List (Callee × Call)} {q : Nat → Progress Unit}
    {code : Dword → Prop} {other : Nat → Dword → Prop}
    {env : Nat → Environment Unit} {p : Nat → Progress Unit}
    (passages : ∀ n < k, (sampleAt cfg blob flags kind (counts n)).invocation.Passage code (other n)
      (env n) (p n) (calls n) (q n))
    (follows : ∀ n, n + 1 < k →
      (counts (n + 1)).setWidth 64 = cfg.countUp ((counts n).setWidth 64)) :
    Joined k (fun n => (sampleAt cfg blob flags kind (counts n)).invocation) q := by
  intro n inside
  rw [(passages n (Nat.lt_of_succ_lt inside)).memory.count,
    sample_at_count (sampled.attended counts (n + 1)), sample_at_count (sampled.attended counts n)]
  exact follows n inside

/-- The sample method starts without data, and no other field of its record reaches there. -/
theorem Sampled.dataless (k : Nat) (calls : Nat → List (Callee × Call)) :
    Dataless k (fun n => (sampleAt cfg blob flags kind (counts n)).invocation)
      (fun n => (sampleAt cfg blob flags kind (counts n)).invocation.InRecord) calls := by
  refine ⟨fun n _ x field => ?_, fun n _ _ => sample_at_data (sampled.attended counts n)⟩
  have attended := sampled.attended counts n
  have hosting : Surroundings.Hosting ⟨0, false, handlesBase⟩ _ _ code _ :=
    attended.hosting attended.declares
  exact hosting.lasting (by decide) (by decide) List.not_mem_nil (List.forall_mem_nil _) x field

/-- The reference runtime with profiles from the second invocation on. -/
def profiling (limit : BitVec 32) : Config :=
  { Config.reference with invocationLimit := limit, profile := true, profileLimit := 2 }

omit sampled in
theorem profiling_sampled {limit : BitVec 32} (accepted : (profiling limit).problem? = none)
    (made : Interpreter.blob (profiling limit) .all = .ok blob) :
    Sampled (profiling limit) blob ⟨0x8⟩ .normal :=
  ⟨⟨accepted, reference_sound.fields, reference_sound.words⟩,
    ⟨reference_addressed.distinct, reference_addressed.outside, reference_addressed.even⟩, made,
    by decide, by decide, by decide⟩

end Stage

open Invocation

/-- The counter saturates and never wraps, for every configuration that is accepted, every set of
extensions, and every series of invocations whose routines neither throw nor write it. Each comes to
where its method goes on, and of the record it stores to nothing but the counter. -/
theorem counters_saturate {cfg : Config} (accepted : cfg.problem? = none) (e : Extensions) :
    ∃ made, Interpreter.blob cfg e = .ok made ∧
      ∀ (base : Dword) (code : Dword → Prop) {σ : Type} (k : Nat) (a : Nat → Invocation)
        (other : Nat → Dword → Prop) (env : Nat → Environment σ) (p : Nat → Progress σ),
        Series k a cfg (made.installed e base) code other env p →
        ∃ (calls : Nat → List (Callee × Call)) (q : Nat → Progress σ),
          (∀ n < k, (a n).Passage code (other n) (env n) (p n) (calls n) (q n)) ∧
          (Joined k a q → ∀ n < k,
            let reached := cfg.saturated ((a 0).count (a 0).start.memory).toNat (n + 1)
            ((a n).count (q n).machine.memory).toNat = reached ∧
            ((calls n).map Prod.fst).count .counterOverflow =
              if cfg.useCompiler ∧ cfg.counterLimit.toNat ≤ reached then 1 else 0) := by
  obtain ⟨made, generated, placed⟩ := Interpreter.blob_image accepted e
  refine ⟨made, generated, ?_⟩
  intro base code σ k a other env p series
  obtain ⟨c, image⟩ := placed base
  obtain ⟨calls, q, passages⟩ := series.passes image
  refine ⟨calls, q, passages, fun joined n inside => ?_⟩
  have value := series.saturates passages joined n inside
  have called := (passages n inside).overflow_count
  rw [series.cfg n inside, value] at called
  exact ⟨value, called⟩

/-- A native method of the reference runtime is called twice, the first time one below the limit. -/
theorem native_counter_stops_at_limit : ∃ blob, Interpreter.blob .reference .all = .ok blob ∧
    let s := fun n => Stage.sampleAt .reference blob ⟨0x128⟩ .nativeSynchronized
      (BitVec.ofNat 32 (9999 + n))
    ∃ (calls : Nat → List (Callee × Call)) (q : Nat → Progress Unit),
      Joined 2 (fun n => (s n).invocation) q ∧
      ∀ n < 2, (s n).invocation.Passage (s n).interpreter.Covers (s n).invocation.InRecord
          ((s n).environment Stage.sampleSignature 0 false) (s n).progress (calls n) (q n) ∧
        ((s n).invocation.count (q n).machine.memory).toNat = 10000 ∧
        ((calls n).map Prod.fst).count .counterOverflow = 1 := by
  obtain ⟨blob, made, saturate⟩ :=
    counters_saturate (show Config.reference.problem? = none by decide) .all
  have sampled : Stage.Sampled .reference blob ⟨0x128⟩ .nativeSynchronized :=
    ⟨Stage.reference_sound, Stage.reference_addressed, made, by decide, by decide, by decide⟩
  have series := sampled.series (fun n => BitVec.ofNat 32 (9999 + n)) 2
  obtain ⟨calls, q, passages, counts⟩ := saturate Stage.codeBase _ _ _ _ _ _ series
  have joined := sampled.joined _ passages fun n inside => by
    obtain rfl : n = 0 := by omega
    decide
  refine ⟨blob, made, calls, q, joined, fun n inside => ⟨passages n inside, ?_⟩⟩
  have reached := counts joined n inside
  simp only [Stage.sample_at_count (sampled.attended (fun n => BitVec.ofNat 32 (9999 + n)) 0)]
    at reached
  -- The counter is full after either invocation, so both call for the compiler.
  have full : ∀ n < 2, Config.reference.saturated
      ((BitVec.ofNat 32 (9999 + 0)).setWidth 64).toNat (n + 1) = 10000 := by decide
  rw [full n inside] at reached
  exact reached

/-- The first request for method data, for every configuration that is accepted and profiles. It comes
with the invocation that brings the counter to the limit for profiles, unless the counter stops below
that limit: then it never comes. -/
theorem first_request_comes_at_limit {cfg : Config} (accepted : cfg.problem? = none)
    (profile : cfg.profile = true) (e : Extensions) :
    ∃ made, Interpreter.blob cfg e = .ok made ∧
      ∀ (base : Dword) (code : Dword → Prop) {σ : Type} (k : Nat) (a : Nat → Invocation)
        (other : Nat → Dword → Prop) (env : Nat → Environment σ) (p : Nat → Progress σ),
        Series k a cfg (made.installed e base) code other env p →
        (∀ n < k, (a n).native = false) →
        ∃ (calls : Nat → List (Callee × Call)) (q : Nat → Progress σ),
          (∀ n < k, (a n).Passage code (other n) (env n) (p n) (calls n) (q n)) ∧
          (Joined k a q → (a 0).count (a 0).start.memory = 0 → Dataless k a other calls →
            ∀ n < k, (Asks calls n ∧ ∀ j < n, ¬Asks calls j) ↔
              n + 1 = cfg.profileLimit.toNat ∧ cfg.profileLimit.toNat ≤ cfg.counterLimit.toNat) := by
  obtain ⟨made, generated, placed⟩ := Interpreter.blob_image accepted e
  refine ⟨made, generated, ?_⟩
  intro base code σ k a other env p series interpreted
  obtain ⟨c, image⟩ := placed base
  obtain ⟨calls, q, passages⟩ := series.passes image
  refine ⟨calls, q, passages, fun joined start dataless => ?_⟩
  exact series.first_asks_iff passages joined interpreted dataless profile start
    (Config.profile_limit_positive accepted profile)

/-- With both limits at two, method data is asked for in the second invocation. -/
theorem second_invocation_requests :
    ∃ blob, Interpreter.blob (Stage.profiling 2) .all = .ok blob ∧
    let s := fun n => Stage.sampleAt (Stage.profiling 2) blob ⟨0x8⟩ .normal (BitVec.ofNat 32 n)
    ∃ (calls : Nat → List (Callee × Call)) (q : Nat → Progress Unit),
      Joined 2 (fun n => (s n).invocation) q ∧
      (∀ n < 2, (s n).invocation.Passage (s n).interpreter.Covers (s n).invocation.InRecord
          ((s n).environment Stage.sampleSignature 0 false) (s n).progress (calls n) (q n)) ∧
      Asks calls 1 ∧ ¬Asks calls 0 := by
  obtain ⟨blob, made, requests⟩ := first_request_comes_at_limit
    (show (Stage.profiling 2).problem? = none by decide) rfl .all
  have sampled := Stage.profiling_sampled (by decide) made
  have series := sampled.series (BitVec.ofNat 32) 2
  obtain ⟨calls, q, passages, first⟩ := requests Stage.codeBase _ _ _ _ _ _ series fun _ _ => rfl
  have joined := sampled.joined _ passages fun n inside => by
    obtain rfl : n = 0 := by omega
    decide
  have start := Stage.sample_at_count (sampled.attended (BitVec.ofNat 32) 0)
  have asked := (first joined start (sampled.dataless _ 2 calls) 1 (by decide)).mpr (by decide)
  exact ⟨blob, made, calls, q, joined, passages, asked.1, asked.2 0 (by decide)⟩

/-- With the counter stopped at one, two invocations pass without a request. -/
theorem second_invocation_is_silent :
    ∃ blob, Interpreter.blob (Stage.profiling 1) .all = .ok blob ∧
      (Stage.profiling 1).problem? = none ∧ (Stage.profiling 1).profile = true ∧
      (Stage.profiling 1).profileLimit.toNat = 2 ∧
    let s := fun n => Stage.sampleAt (Stage.profiling 1) blob ⟨0x8⟩ .normal (BitVec.ofNat 32 n)
    ∃ (calls : Nat → List (Callee × Call)) (q : Nat → Progress Unit),
      Series 2 (fun n => (s n).invocation) (Stage.profiling 1)
        (blob.installed .all Stage.codeBase) (blob.installed .all Stage.codeBase).Covers
        (fun n => (s n).invocation.InRecord)
        (fun n => (s n).environment Stage.sampleSignature 0 false) (fun n => (s n).progress) ∧
      Joined 2 (fun n => (s n).invocation) q ∧
      (s 0).invocation.count (s 0).invocation.start.memory = 0 ∧
      Dataless 2 (fun n => (s n).invocation) (fun n => (s n).invocation.InRecord) calls ∧
      ∀ n < 2, (s n).invocation.Passage (s n).interpreter.Covers (s n).invocation.InRecord
          ((s n).environment Stage.sampleSignature 0 false) (s n).progress (calls n) (q n) ∧
        ¬Asks calls n := by
  have accepted : (Stage.profiling 1).problem? = none := by decide
  obtain ⟨blob, made, placed⟩ := Interpreter.blob_image accepted .all
  obtain ⟨c, image⟩ := placed Stage.codeBase
  have sampled := Stage.profiling_sampled accepted made
  have series := sampled.series (BitVec.ofNat 32) 2
  obtain ⟨calls, q, passages⟩ := series.passes image
  have joined := sampled.joined _ passages fun n inside => by
    obtain rfl : n = 0 := by omega
    decide
  have start := Stage.sample_at_count (sampled.attended (BitVec.ofNat 32) 0)
  have dataless := sampled.dataless (BitVec.ofNat 32) 2 calls
  -- The limit of the counter is below the one for profiles.
  have silent : ∀ n < 2, ¬Asks calls n := by
    intro n
    induction n using Nat.strong_induction_on with
    | _ n ih =>
        intro inside
        rw [series.asks_iff passages joined (fun _ _ => rfl) dataless rfl start n inside
          fun j less => ih j less (less.trans inside)]
        have limits : (Stage.profiling 1).profileLimit.toNat = 2 ∧
            (Stage.profiling 1).counterLimit.toNat = 1 := by decide
        omega
  exact ⟨blob, made, accepted, rfl, rfl, calls, q, series, joined, start, dataless,
    fun n inside => ⟨passages n inside, silent n inside⟩⟩

end EntryCode
