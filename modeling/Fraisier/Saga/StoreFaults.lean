import Fraisier.Saga.Course

/-!
# Runs over a store that fails

A transition the store fails to record ends the run at once: the step calls made so
far are a prefix of those of the undisturbed run (`plan_truncated`). The steps that
are completed and not yet compensated at that moment stay applied, so a run is
all-or-nothing exactly when the first lost transition finds none of them
(`allOrNothing_iff`).
-/

namespace Fraisier.Saga

open Fraisier.Effect

variable {R σ : Type} {bs : List (StepBehaviour R)} {state : R}

/-! ## A store with a pattern of failing writes -/

/-- Answer a write unless the pattern makes it fail. The second component counts the
writes attempted so far. -/
def faultyWrite (faults : Nat → Option StateStoreError) (s : MemoryStore × Nat)
    (written : MemoryStore) : Except StateStoreError Unit × MemoryStore × Nat :=
  match faults s.2 with
  | some error => (.error error, s.1, s.2 + 1)
  | none => (.ok (), written, s.2 + 1)

/-- The in-memory store whose `n`-th event or state write fails as `faults n` says. -/
def faultyStore (faults : Nat → Option StateStoreError) : Handler StoreSig (MemoryStore × Nat)
  | .recordState key state, s => faultyWrite faults s (s.1.pushState key state)
  | .recordEvent key event, s => faultyWrite faults s (s.1.pushEvent key event)
  | .acquireLock key, s =>
      ((memoryStore (.acquireLock key) s.1).1, (memoryStore (.acquireLock key) s.1).2, s.2)
  | .releaseLock guard, s =>
      ((memoryStore (.releaseLock guard) s.1).1, (memoryStore (.releaseLock guard) s.1).2, s.2)
  | .currentState key, s => ((memoryStore (.currentState key) s.1).1, s)
  | .events key, s => ((memoryStore (.events key) s.1).1, s)
  | .recordSnapshot key snapshot, s =>
      (.ok (), (memoryStore (.recordSnapshot key snapshot) s.1).2, s.2)
  | .currentSnapshot key, s => ((memoryStore (.currentSnapshot key) s.1).1, s)
  | .keys, s => ((memoryStore .keys s.1).1, s)

/-- Transition `t` is lost when its event or its state write fails. -/
def lostTransition (faults : Nat → Option StateStoreError) (t : Nat) : Bool :=
  (faults (2 * t)).isSome || (faults (2 * t + 1)).isSome

/-- Transition `t` makes the writes `2 t` and `2 t + 1`. -/
theorem faultyStore_scripted (faults : Nat → Option StateStoreError) :
    Scripted (faultyStore faults) (lostTransition faults) (fun t s => s.2 = 2 * t) where
  recorded := by
    rintro t ⟨s, n⟩ rfl hok key event state
    simp only [lostTransition, Bool.or_eq_false_iff, Option.isSome_eq_false_iff,
      Option.isNone_iff_eq_none] at hok
    refine ⟨_, _, by simp only [faultyStore, faultyWrite, hok.1]; rfl,
      by simp only [faultyStore, faultyWrite, hok.2]; rfl, ?_⟩
    show 2 * t + 1 + 1 = 2 * (t + 1)
    omega
  lost := by
    rintro t ⟨s, n⟩ rfl hlost key event state
    simp only [lostTransition, Bool.or_eq_true] at hlost
    cases hevent : faults (2 * t) with
    | some e => exact .inl ⟨e, _, by simp only [faultyStore, faultyWrite, hevent]; rfl⟩
    | none =>
        obtain ⟨e, hstate⟩ := Option.isSome_iff_exists.mp
          (hlost.resolve_left (by simp [hevent]))
        exact .inr ⟨_, e, _, by simp only [faultyStore, faultyWrite, hevent]; rfl,
          by simp only [faultyStore, faultyWrite, hstate]; rfl⟩

/-! ## A lost transition cuts the run short -/

/-- `t` is the first lost transition. -/
def FirstLost (fails : Nat → Bool) (t : Nat) : Prop :=
  fails t = true ∧ ∀ u < t, fails u = false

/-- Plan `p`, whose next transition has number `t`, is plan `q` cut short at the lost
transition `lost`, if it gets that far. -/
def Plan.CutAt (lost t : Nat) (q p : Plan R) : Prop :=
  p.calls = q.calls.take (lost - t) ∧
    p.outcome = if lost ≤ t + q.calls.length then .error () else q.outcome

theorem Plan.CutAt.after {lost t : Nat} {p q : Plan R} {call : StepCall R}
    (h : Plan.CutAt lost (t + 1) q p) (ht : t < lost) :
    Plan.CutAt lost t (q.after call) (p.after call) := by
  obtain ⟨hcalls, houtcome⟩ := h
  have hsub : lost - t = lost - (t + 1) + 1 := by omega
  refine ⟨by simp [Plan.after, hcalls, hsub], ?_⟩
  simp only [Plan.after, houtcome, List.length_cons]
  congr 1
  simp only [eq_iff_iff]
  omega

theorem Plan.cutAt_now {lost : Nat} {q : Plan R} {state : R} :
    Plan.CutAt lost lost q ⟨[], .error (), state⟩ := by
  simp [Plan.CutAt]

theorem Plan.cutAt_finish {fails : Nat → Bool} {lost t : Nat} (hlost : FirstLost fails lost)
    (ht : t ≤ lost) {outcome : SagaOutcome} {state : R} :
    Plan.CutAt lost t (.finish false outcome state) (.finish (fails t) outcome state) := by
  rcases Nat.lt_or_eq_of_le ht with hlt | rfl
  · have hle : ¬ lost ≤ t := by omega
    simp [Plan.CutAt, Plan.finish, hlost.2 t hlt, hle]
  · simp [Plan.CutAt, Plan.finish, hlost.1]

theorem rollbackPlan_truncated [CharTables] {fails : Nat → Bool} {lost t : Nat}
    (hlost : FirstLost fails lost) (ht : t ≤ lost) {failedStep : String} {error : SagaError}
    {steps : List (StepBehaviour R × Nat)} {state : R} :
    Plan.CutAt lost t (rollbackPlan (fun _ => false) failedStep error t steps state)
      (rollbackPlan fails failedStep error t steps state) := by
  induction steps generalizing t state with
  | nil => exact Plan.cutAt_finish hlost ht
  | cons b rest ih =>
      rcases Nat.lt_or_eq_of_le ht with hlt | rfl
      · simp only [rollbackPlan, hlost.2 t hlt, Bool.false_eq_true, if_false]
        rcases b.1.compensate state with ⟨e | _, state'⟩
        · exact (Plan.cutAt_finish hlost hlt).after hlt
        · exact (ih hlt).after hlt
      · simp only [rollbackPlan, hlost.1, if_true]
        exact Plan.cutAt_now

theorem executePlan_truncated [CharTables] {fails : Nat → Bool} {lost t : Nat}
    (hlost : FirstLost fails lost) (ht : t ≤ lost)
    {completed steps : List (StepBehaviour R × Nat)} {state : R} :
    Plan.CutAt lost t (executePlan (fun _ => false) t completed steps state)
      (executePlan fails t completed steps state) := by
  induction steps generalizing t completed state with
  | nil => exact Plan.cutAt_finish hlost ht
  | cons b rest ih =>
      rcases Nat.lt_or_eq_of_le ht with hlt | rfl
      · simp only [executePlan, hlost.2 t hlt, Bool.false_eq_true, if_false]
        rcases b.1.forward state with ⟨e | _, state'⟩
        · exact (rollbackPlan_truncated hlost hlt).after hlt
        · exact (ih hlt).after hlt
      · simp only [executePlan, hlost.1, if_true]
        exact Plan.cutAt_now

/-- A run that loses a transition makes the calls of the undisturbed run up to there. -/
theorem plan_truncated [CharTables] {fails : Nat → Bool} {lost : Nat}
    (hlost : FirstLost fails lost) (bs : List (StepBehaviour R)) (state : R) :
    (plan fails bs state).calls = (plan (fun _ => false) bs state).calls.take lost ∧
      (plan fails bs state).outcome =
        if lost ≤ (plan (fun _ => false) bs state).calls.length then .error ()
        else (plan (fun _ => false) bs state).outcome := by
  have hcut : Plan.CutAt lost 0 (plan (fun _ => false) bs state) (plan fails bs state) :=
    executePlan_truncated hlost (Nat.zero_le lost)
  simpa [Plan.CutAt] using hcut

/-- A pattern without a first lost transition loses none. -/
theorem forall_recorded_of_not_firstLost {fails : Nat → Bool} (h : ∀ t, ¬ FirstLost fails t) :
    fails = fun _ => false := by
  funext t
  induction t using Nat.strongRecOn with
  | ind t ih =>
      by_contra hfail
      exact h t ⟨by simpa using hfail, ih⟩

/-! ## All or nothing -/

/-- The forward call of step `i` was made and succeeded. -/
def Completed (bs : List (StepBehaviour R)) (calls : List (StepCall R)) (i : Nat) : Prop :=
  ∃ r, .forward i r ∈ calls ∧ (forwardOf bs i r).1 = .ok ()

/-- The compensate call of step `i` was made. -/
def Compensated (calls : List (StepCall R)) (i : Nat) : Prop :=
  ∃ r, .compensate i r ∈ calls

/-- The run reported a commit or a partial rollback. -/
def Reported {ε : Type} : Except ε SagaOutcome → Prop
  | .ok .committed => True
  | .ok (.partialRollback _) => True
  | .ok (.rolledBack _ _) => False
  | .error _ => False

/-- A run that reports neither a commit nor a partial rollback has compensated every
step it completed. -/
def AllOrNothing {ε : Type} (bs : List (StepBehaviour R)) (value : Except ε SagaOutcome)
    (calls : List (StepCall R)) : Prop :=
  ¬ Reported value → ∀ i, Completed bs calls i → Compensated calls i

/-- The number of the transition an undisturbed run ends with. Every transition before
it is followed by one step call. -/
def lastTransition [CharTables] (bs : List (StepBehaviour R)) (state : R) : Nat :=
  (plan (fun _ => false) bs state).calls.length

/-- No store failure hits a run between the completion of a step and its compensation:
the first lost transition is not reached, or it is the run's first, or it is the one
that follows the compensation of every completed step. -/
def FaultsHarmless [CharTables] (fails : Nat → Bool) (bs : List (StepBehaviour R)) (state : R) :
    Prop :=
  ∀ t, FirstLost fails t → t ≤ lastTransition bs state →
    t = 0 ∨ ∃ k b error, FirstFailure bs state k b error ∧ t = 2 * k + 1

theorem mem_forwardCalls {n i : Nat} {r : R} :
    StepCall.forward i r ∈ forwardCalls bs state n ↔ i < n ∧ r = forwardState bs state i := by
  simp only [forwardCalls, List.mem_map, List.mem_range, StepCall.forward.injEq]
  constructor
  · rintro ⟨j, hj, rfl, rfl⟩
    exact ⟨hj, rfl⟩
  · rintro ⟨hi, rfl⟩
    exact ⟨i, hi, rfl, rfl⟩

theorem compensate_not_mem_forwardCalls {n i : Nat} {r : R} :
    StepCall.compensate i r ∉ forwardCalls bs state n := by
  simp [forwardCalls]

theorem forward_not_mem_compensateCalls {k n i : Nat} {r : R} :
    StepCall.forward i r ∉ compensateCalls bs state k n := by
  simp [compensateCalls]

/-- The first `n` compensations after a failure of step `k` reach the steps from `k - n`
to `k - 1`. -/
theorem compensated_compensateCalls {k n i : Nat} (hn : n ≤ k) :
    Compensated (compensateCalls bs state k n) i ↔ k - n ≤ i ∧ i < k := by
  simp only [Compensated, compensateCalls, List.mem_map, List.mem_range,
    StepCall.compensate.injEq]
  constructor
  · rintro ⟨r, m, hm, rfl, -⟩
    omega
  · rintro ⟨hlow, hhigh⟩
    exact ⟨_, k - 1 - i, by omega, by omega, rfl⟩

/-- The steps completed by `n` forward calls that all succeed. -/
theorem completed_forwardCalls {n i : Nat} (hok : ForwardOk bs state n) :
    Completed bs (forwardCalls bs state n) i ↔ i < n := by
  constructor
  · rintro ⟨r, hmem, -⟩
    exact (mem_forwardCalls.mp hmem).1
  · intro hi
    exact ⟨_, mem_forwardCalls.mpr ⟨hi, rfl⟩, hok i hi⟩

/-- Forward calls alone leave every completed step applied. -/
theorem allOrNothing_forwardCalls {n : Nat} (hok : ForwardOk bs state n) :
    AllOrNothing bs (.error () : Except Unit SagaOutcome) (forwardCalls bs state n) ↔ n = 0 := by
  constructor
  · intro hall
    by_contra hn
    obtain ⟨r, hmem⟩ := hall id 0 ((completed_forwardCalls hok).mpr (by omega))
    exact compensate_not_mem_forwardCalls hmem
  · rintro rfl - i hi
    exact absurd ((completed_forwardCalls hok).mp hi) (by omega)

/-- After a failure of step `k` the steps below `k` are the completed ones. -/
theorem completed_failed {k n i : Nat} {b : StepBehaviour R} {error : SagaError}
    (hk : FirstFailure bs state k b error) :
    Completed bs (forwardCalls bs state (k + 1) ++ compensateCalls bs state k n) i ↔ i < k := by
  constructor
  · rintro ⟨r, hmem, hok⟩
    rcases List.mem_append.mp hmem with hmem | hmem
    · obtain ⟨hi, rfl⟩ := mem_forwardCalls.mp hmem
      rcases Nat.lt_succ_iff_lt_or_eq.mp hi with hi | rfl
      · exact hi
      · rw [hk.fails] at hok
        cases hok
    · exact absurd hmem forward_not_mem_compensateCalls
  · intro hi
    exact ⟨_, List.mem_append_left _ (mem_forwardCalls.mpr ⟨by omega, rfl⟩), hk.before i hi⟩

theorem compensated_failed {k n i : Nat} (hn : n ≤ k) :
    Compensated (forwardCalls bs state (k + 1) ++ compensateCalls bs state k n) i ↔
      k - n ≤ i ∧ i < k := by
  have hcalls : Compensated (compensateCalls bs state k n) i ↔ k - n ≤ i ∧ i < k :=
    compensated_compensateCalls hn
  rw [← hcalls]
  simp [Compensated, compensate_not_mem_forwardCalls]

/-- After a failure of step `k` and `n` compensations, nothing is left applied exactly
when all of them were made. -/
theorem allOrNothing_failed {ε : Type} {k n : Nat} {b : StepBehaviour R} {error : SagaError}
    {value : Except ε SagaOutcome} (hvalue : ¬ Reported value)
    (hk : FirstFailure bs state k b error) (hn : n ≤ k) :
    AllOrNothing bs value (forwardCalls bs state (k + 1) ++ compensateCalls bs state k n) ↔
      n = k := by
  simp only [AllOrNothing, completed_failed hk, compensated_failed hn]
  constructor
  · intro hall
    rcases Nat.eq_zero_or_pos k with rfl | hpos
    · omega
    · have := (hall hvalue 0 hpos).1
      omega
  · rintro rfl - i hi
    exact ⟨by omega, hi⟩

theorem FirstFailure.unique {k k' : Nat} {b b' : StepBehaviour R} {error error' : SagaError}
    (h : FirstFailure bs state k b error) (h' : FirstFailure bs state k' b' error') : k = k' := by
  rcases Nat.lt_trichotomy k k' with hlt | heq | hlt
  · have hok := h'.before k hlt
    rw [h.fails] at hok
    cases hok
  · exact heq
  · have hok := h.before k' hlt
    rw [h'.fails] at hok
    cases hok

theorem not_firstFailure_of_forwardOk (hok : ForwardOk bs state bs.length) {k : Nat}
    {b : StepBehaviour R} {error : SagaError} : ¬ FirstFailure bs state k b error := by
  intro hk
  have := hok k (List.getElem?_eq_some_iff.mp hk.step).1
  rw [hk.fails] at this
  cases this

theorem take_forwardCalls {t n : Nat} (ht : t ≤ n) :
    (forwardCalls bs state n).take t = forwardCalls bs state t := by
  rw [forwardCalls, ← List.map_take, List.take_range, Nat.min_eq_left ht, forwardCalls]

/-- The calls made after a failure of step `k`, cut short. -/
theorem take_failed {t k n : Nat} (hk : k < t) (ht : t ≤ k + 1 + n) :
    (forwardCalls bs state (k + 1) ++ compensateCalls bs state k n).take t =
      forwardCalls bs state (k + 1) ++ compensateCalls bs state k (t - (k + 1)) := by
  have hlen : (forwardCalls bs state (k + 1)).length = k + 1 := by simp [forwardCalls]
  rw [List.take_append, hlen, List.take_of_length_le (by omega), compensateCalls,
    ← List.map_take, List.take_range, Nat.min_eq_left (by omega), compensateCalls]

/-- A failed course cut short leaves nothing applied exactly when it is cut before its
first call or after the compensation of every completed step. -/
theorem allOrNothing_failed_cut {t k n : Nat} {b : StepBehaviour R} {error : SagaError}
    (hk : FirstFailure bs state k b error) (hn : n ≤ k) (ht : t ≤ k + 1 + n) :
    AllOrNothing bs (.error () : Except Unit SagaOutcome)
        ((forwardCalls bs state (k + 1) ++ compensateCalls bs state k n).take t) ↔
      t = 0 ∨ ∃ k b error, FirstFailure bs state k b error ∧ t = 2 * k + 1 := by
  have hright : (∃ k b error, FirstFailure bs state k b error ∧ t = 2 * k + 1) ↔
      t = 2 * k + 1 := by
    constructor
    · rintro ⟨k', b', error', hk', ht'⟩
      rw [hk.unique hk']
      exact ht'
    · exact fun ht' => ⟨k, b, error, hk, ht'⟩
  rw [hright]
  rcases Nat.lt_or_ge k t with hlt | hge
  · rw [take_failed hlt ht, allOrNothing_failed id hk (by omega)]
    omega
  · have hlen : (forwardCalls bs state (k + 1)).length = k + 1 := by simp [forwardCalls]
    have hok : ForwardOk bs state t := fun i hi => hk.before i (by omega)
    rw [List.take_append_of_le_length (by omega), take_forwardCalls (by omega),
      allOrNothing_forwardCalls hok]
    omega

/-- An undisturbed course is all-or-nothing. -/
theorem Course.allOrNothing [CharTables] {calls : List (StepCall R)} {outcome : SagaOutcome}
    {final : R} (h : Course bs state calls outcome final) :
    AllOrNothing bs (.ok outcome : Except Unit SagaOutcome) calls := by
  cases h with
  | committed hok => exact fun hreported => absurd trivial hreported
  | rolledBack hk hcomp => exact (allOrNothing_failed id hk (Nat.le_refl _)).mpr rfl
  | partialRollback hk hj hc hcomp hfail => exact fun hreported => absurd trivial hreported

/-- A course cut short at transition `t` leaves nothing applied exactly when it is cut
before its first call or after the compensation of every completed step. -/
theorem Course.allOrNothing_cut [CharTables] {calls : List (StepCall R)} {outcome : SagaOutcome}
    {final : R} (h : Course bs state calls outcome final) {t : Nat} (ht : t ≤ calls.length) :
    AllOrNothing bs (.error () : Except Unit SagaOutcome) (calls.take t) ↔
      t = 0 ∨ ∃ k b error, FirstFailure bs state k b error ∧ t = 2 * k + 1 := by
  cases h with
  | committed hok =>
      have ht' : t ≤ bs.length := by simpa [forwardCalls] using ht
      have hnone : ¬ ∃ k b error, FirstFailure bs state k b error ∧ t = 2 * k + 1 := by
        rintro ⟨k, b, error, hk, -⟩
        exact not_firstFailure_of_forwardOk hok hk
      rw [take_forwardCalls ht', allOrNothing_forwardCalls fun i hi => hok i (by omega)]
      exact ⟨.inl, fun h => h.resolve_right hnone⟩
  | rolledBack hk hcomp =>
      exact allOrNothing_failed_cut hk (Nat.le_refl _)
        (by simpa [forwardCalls, compensateCalls] using ht)
  | partialRollback hk hj hc hcomp hfail =>
      exact allOrNothing_failed_cut hk (by omega)
        (by simpa [forwardCalls, compensateCalls] using ht)

theorem FirstLost.unique {fails : Nat → Bool} {t u : Nat} (ht : FirstLost fails t)
    (hu : FirstLost fails u) : t = u := by
  rcases Nat.lt_trichotomy t u with hlt | heq | hlt
  · exact absurd ht.1 (by simp [hu.2 t hlt])
  · exact heq
  · exact absurd hu.1 (by simp [ht.2 u hlt])

/-- A plan is all-or-nothing exactly when its store failures are harmless. -/
theorem plan_allOrNothing_iff [CharTables] (fails : Nat → Bool) :
    AllOrNothing bs (plan fails bs state).outcome (plan fails bs state).calls ↔
      FaultsHarmless fails bs state := by
  have hcompletes : (plan (fun _ => false) bs state).Completes bs state [] :=
    executePlan_completes (List.nil_append bs).symm fun i hi => absurd hi (Nat.not_lt_zero i)
  obtain ⟨outcome, houtcome, hcourse⟩ := hcompletes
  rw [List.nil_append] at hcourse
  by_cases hlost : ∃ t, FirstLost fails t
  · obtain ⟨t, ht⟩ := hlost
    obtain ⟨hcalls, hvalue⟩ := plan_truncated ht bs state
    rw [hcalls, hvalue]
    have hharmless : FaultsHarmless fails bs state ↔ (t ≤ lastTransition bs state →
        t = 0 ∨ ∃ k b error, FirstFailure bs state k b error ∧ t = 2 * k + 1) :=
      ⟨fun h => h t ht, fun h u hu => hu.unique ht ▸ h⟩
    rw [hharmless, lastTransition]
    split
    · next hle =>
        rw [hcourse.allOrNothing_cut hle]
        simp [hle]
    · next hgt =>
        rw [List.take_of_length_le (by omega), houtcome]
        exact iff_of_true hcourse.allOrNothing fun hle => absurd hle hgt
  · have hnone := forall_recorded_of_not_firstLost fun t ht => hlost ⟨t, ht⟩
    rw [hnone, houtcome]
    exact iff_of_true hcourse.allOrNothing fun t ht => absurd ht.1 Bool.false_ne_true

/-- A saga of two steps that succeed and can be undone. -/
def twoSteps : List (StepBehaviour Unit) :=
  [⟨"fetch", fun r => (.ok (), r), fun r => (.ok (), r)⟩,
   ⟨"migrate", fun r => (.ok (), r), fun r => (.ok (), r)⟩]

/-- Whether an outcome is reported does not depend on the error it could have been. -/
theorem reported_mapError {ε : Type} (value : Except ε SagaOutcome) :
    Reported (value.mapError fun _ => ()) ↔ Reported value := by
  cases value with
  | error e => rfl
  | ok outcome => cases outcome <;> rfl

/-- A run over a store that fails some of its writes, started with the lock free, is
all-or-nothing exactly when no failure hits it between the completion of a step and the
compensation of that step. -/
theorem run_allOrNothing_iff [CharTables] (faults : Nat → Option StateStoreError)
    (bs : List (StepBehaviour R)) (state : R) (key : FraiseKey) (sched : List Bool)
    {s : MemoryStore} (hfree : s.locked key = false) :
    AllOrNothing bs (observe (faultyStore faults) key bs state sched (s, 0)).value.1
        (observe (faultyStore faults) key bs state sched (s, 0)).final.2 ↔
      FaultsHarmless (lostTransition faults) bs state := by
  have hlock : faultyStore faults (.acquireLock key) (s, 0) =
      (.ok ⟨key⟩, s.setLock key true, 0) := by
    simp [faultyStore, memoryStore, hfree]
  have hfollows : wp ((faultyStore faults).prod (behave bs)) Eq .any
      (runWithState key (probes bs) state)
      (Follows (plan (lostTransition faults) bs state) []) ((s, 0), []) :=
    wp_runWithState (faultyStore_scripted faults) hlock (fun _ => ⟨_, rfl⟩) rfl
  obtain ⟨hcalls, houtcome, -⟩ := (wp_exec hfollows sched).1
  rw [← plan_allOrNothing_iff, ← houtcome, observe, hcalls, List.nil_append]
  simp only [AllOrNothing, reported_mapError]

/-- A saga whose second step fails. -/
def failingSecond : List (StepBehaviour Unit) :=
  [⟨"fetch", fun r => (.ok (), r), fun r => (.ok (), r)⟩,
   ⟨"migrate", fun r => (.error (.stepFailed "migrate" "syntax error"), r), fun r => (.ok (), r)⟩]

/-- From some write on the disk is full. -/
def fullFrom (time : Nat) (n : Nat) : Option StateStoreError :=
  if time ≤ n then some (.io "disk full") else none

/-- Where the completed step was compensated before a write fails, the failure is harmless. -/
theorem run_allOrNothing_last_transition :
    AllOrNothing failingSecond
      (observe (faultyStore (fullFrom 7)) ⟨"shop", "production"⟩ failingSecond () []
        (.empty, 0)).value.1
      (observe (faultyStore (fullFrom 7)) ⟨"shop", "production"⟩ failingSecond () []
        (.empty, 0)).final.2 ∧
    (observe (faultyStore (fullFrom 7)) ⟨"shop", "production"⟩ failingSecond () []
      (.empty, 0)).value.1 = .error (.store (.io "disk full")) := by
  refine ⟨(run_allOrNothing_iff (fullFrom 7) failingSecond () _ [] rfl).mpr ?_, rfl⟩
  intro t ht _
  -- the first transition that is lost is the one after the compensation
  have hlost : FirstLost (lostTransition (fullFrom 7)) 3 := by
    unfold FirstLost
    decide
  obtain rfl := ht.unique hlost
  refine .inr ⟨1, _, _, ⟨rfl, ?_, rfl⟩, rfl⟩
  intro i hi
  obtain rfl : i = 0 := by omega
  rfl

/-- The event write of the second transition fails after the first step has completed:
the run returns the store's error and never compensates the step. -/
theorem run_not_allOrNothing_second_transition :
    ¬ AllOrNothing twoSteps
      (observe (faultyStore fun n => if n = 2 then some (.io "disk full") else none)
        ⟨"shop", "production"⟩ twoSteps () [] (.empty, 0)).value.1
      (observe (faultyStore fun n => if n = 2 then some (.io "disk full") else none)
        ⟨"shop", "production"⟩ twoSteps () [] (.empty, 0)).final.2 := by
  have hcalls : (observe (faultyStore fun n => if n = 2 then some (.io "disk full") else none)
      ⟨"shop", "production"⟩ twoSteps () [] (.empty, 0)).final.2 = [.forward 0 ()] := rfl
  have hvalue : (observe (faultyStore fun n => if n = 2 then some (.io "disk full") else none)
      ⟨"shop", "production"⟩ twoSteps () [] (.empty, 0)).value.1 =
        .error (.store (.io "disk full")) := rfl
  rw [hcalls, hvalue]
  intro hall
  obtain ⟨r, hmem⟩ := hall id 0 ⟨(), List.mem_singleton_self _, rfl⟩
  cases hmem with
  | tail _ h => cases h

end Fraisier.Saga
