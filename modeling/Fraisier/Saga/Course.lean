import Fraisier.Saga.Execution

/-!
# The three courses of a saga run

With a store whose writes succeed and a free lock, a run takes one of three courses,
which `Course` states in terms of the steps' indices: it commits, it rolls every
completed step back, or it stops at the first compensation that fails. The main
theorem is `run_follows_course`.
-/

namespace Fraisier.Saga

open Fraisier.Effect

variable {R σ : Type} {bs : List (StepBehaviour R)} {state : R}

/-- The run state after the first `n` forward calls. -/
def forwardState (bs : List (StepBehaviour R)) (state : R) : Nat → R
  | 0 => state
  | n + 1 => (forwardOf bs n (forwardState bs state n)).2

/-- The forward calls of the first `n` steps. -/
def forwardCalls (bs : List (StepBehaviour R)) (state : R) (n : Nat) : List (StepCall R) :=
  (List.range n).map fun i => .forward i (forwardState bs state i)

/-- The run state after `n` compensations that follow a failure of step `k`: the steps
`k - 1`, `k - 2`, … are compensated in this order. -/
def compensateState (bs : List (StepBehaviour R)) (state : R) (k : Nat) : Nat → R
  | 0 => forwardState bs state (k + 1)
  | n + 1 => (compensateOf bs (k - 1 - n) (compensateState bs state k n)).2

/-- The first `n` compensate calls that follow a failure of step `k`. -/
def compensateCalls (bs : List (StepBehaviour R)) (state : R) (k n : Nat) : List (StepCall R) :=
  (List.range n).map fun m => .compensate (k - 1 - m) (compensateState bs state k m)

/-- The first `n` steps succeed when they are run in order. -/
def ForwardOk (bs : List (StepBehaviour R)) (state : R) (n : Nat) : Prop :=
  ∀ i < n, (forwardOf bs i (forwardState bs state i)).1 = .ok ()

/-- Step `k`, which behaves as `b`, is the first to fail, and fails with `error`. -/
structure FirstFailure (bs : List (StepBehaviour R)) (state : R) (k : Nat)
    (b : StepBehaviour R) (error : SagaError) : Prop where
  step : bs[k]? = some b
  before : ForwardOk bs state k
  fails : (forwardOf bs k (forwardState bs state k)).1 = .error error

/-- The first `n` compensations after a failure of step `k` succeed. -/
def CompensateOk (bs : List (StepBehaviour R)) (state : R) (k n : Nat) : Prop :=
  ∀ m < n, (compensateOf bs (k - 1 - m) (compensateState bs state k m)).1 = .ok ()

/-- The calls, the outcome and the final run state of a run whose store does not fail. -/
inductive Course [CharTables] (bs : List (StepBehaviour R)) (state : R) :
    List (StepCall R) → SagaOutcome → R → Prop where
  | committed (hok : ForwardOk bs state bs.length) :
      Course bs state (forwardCalls bs state bs.length) .committed
        (forwardState bs state bs.length)
  | rolledBack {k : Nat} {b : StepBehaviour R} {error : SagaError}
      (hk : FirstFailure bs state k b error) (hcomp : CompensateOk bs state k k) :
      Course bs state (forwardCalls bs state (k + 1) ++ compensateCalls bs state k k)
        (.rolledBack b.name (toString error)) (compensateState bs state k k)
  | partialRollback {k j : Nat} {b c : StepBehaviour R} {error compError : SagaError}
      (hk : FirstFailure bs state k b error) (hj : j < k) (hc : bs[j]? = some c)
      (hcomp : CompensateOk bs state k (k - 1 - j))
      (hfail : (compensateOf bs j (compensateState bs state k (k - 1 - j))).1 =
        .error compError) :
      Course bs state (forwardCalls bs state (k + 1) ++ compensateCalls bs state k (k - j))
        (.partialRollback (partialReason c.name compError)) (compensateState bs state k (k - j))

/-- One more forward call. -/
theorem forwardCalls_succ (n : Nat) :
    forwardCalls bs state (n + 1) =
      forwardCalls bs state n ++ [.forward n (forwardState bs state n)] := by
  simp [forwardCalls, List.range_succ]

/-- One more compensate call. -/
theorem compensateCalls_succ (k n : Nat) :
    compensateCalls bs state k (n + 1) =
      compensateCalls bs state k n ++ [.compensate (k - 1 - n) (compensateState bs state k n)] := by
  simp [compensateCalls, List.range_succ]

theorem forwardOk_succ {n : Nat} (h : ForwardOk bs state n)
    (hn : (forwardOf bs n (forwardState bs state n)).1 = .ok ()) :
    ForwardOk bs state (n + 1) := by
  intro i hi
  rcases Nat.lt_succ_iff_lt_or_eq.mp hi with hi | rfl
  · exact h i hi
  · exact hn

theorem compensateOk_succ {k n : Nat} (h : CompensateOk bs state k n)
    (hn : (compensateOf bs (k - 1 - n) (compensateState bs state k n)).1 = .ok ()) :
    CompensateOk bs state k (n + 1) := by
  intro m hm
  rcases Nat.lt_succ_iff_lt_or_eq.mp hm with hm | rfl
  · exact h m hm
  · exact hn

/-- A plan that completes a course some calls of which were already made. -/
def Plan.Completes [CharTables] (bs : List (StepBehaviour R)) (state : R)
    (made : List (StepCall R)) (p : Plan R) : Prop :=
  ∃ outcome, p.outcome = .ok outcome ∧ Course bs state (made ++ p.calls) outcome p.state

theorem Plan.Completes.after [CharTables] {made : List (StepCall R)} {call : StepCall R}
    {p : Plan R} (h : p.Completes bs state (made ++ [call])) :
    (p.after call).Completes bs state made := by
  obtain ⟨outcome, houtcome, hcourse⟩ := h
  refine ⟨outcome, houtcome, ?_⟩
  simpa [Plan.after] using hcourse

/-- A step that exists answers a forward call as it behaves. -/
theorem forwardOf_eq {i : Nat} {b : StepBehaviour R} (hb : bs[i]? = some b) :
    forwardOf bs i = b.forward := by
  funext r
  simp [forwardOf, hb]

/-- A step that exists answers a compensate call as it behaves. -/
theorem compensateOf_eq {i : Nat} {b : StepBehaviour R} (hb : bs[i]? = some b) :
    compensateOf bs i = b.compensate := by
  funext r
  simp [compensateOf, hb]

/-- The steps below `j + 1`, latest first. -/
theorem reverse_zipIdx_take_succ {j : Nat} {b : StepBehaviour R} (hb : bs[j]? = some b) :
    (bs.take (j + 1)).zipIdx.reverse = (b, j) :: (bs.take j).zipIdx.reverse := by
  have hlt : j < bs.length := (List.getElem?_eq_some_iff.mp hb).1
  have hmin : min j bs.length = j := by omega
  rw [List.take_add_one, hb, List.zipIdx_append]
  simp [hmin]

/-- The plan of a rollback that still has the steps below `j` to compensate completes
a course. -/
theorem rollbackPlan_completes [CharTables] {k j t : Nat} {b : StepBehaviour R}
    {error : SagaError} (hk : FirstFailure bs state k b error) (hj : j ≤ k)
    (hcomp : CompensateOk bs state k (k - j)) :
    (rollbackPlan (fun _ => false) b.name error t (bs.take j).zipIdx.reverse
      (compensateState bs state k (k - j))).Completes bs state
      (forwardCalls bs state (k + 1) ++ compensateCalls bs state k (k - j)) := by
  induction j generalizing t with
  | zero =>
      refine ⟨_, rfl, ?_⟩
      simpa [rollbackPlan, Plan.finish] using Course.rolledBack hk hcomp
  | succ j ih =>
      have hlt : j < bs.length := by
        have := (List.getElem?_eq_some_iff.mp hk.step).1
        omega
      obtain ⟨c, hc⟩ : ∃ c, bs[j]? = some c := ⟨_, List.getElem?_eq_getElem hlt⟩
      -- Step `j` is compensated after `k - (j + 1)` others.
      have hindex : k - 1 - (k - (j + 1)) = j := by omega
      have hcount : k - j = k - (j + 1) + 1 := by omega
      have hmade : compensateCalls bs state k (k - j) = compensateCalls bs state k (k - (j + 1)) ++
          [.compensate j (compensateState bs state k (k - (j + 1)))] := by
        rw [hcount, compensateCalls_succ, hindex]
      have hstate : compensateState bs state k (k - j) =
          (c.compensate (compensateState bs state k (k - (j + 1)))).2 := by
        rw [hcount, compensateState, hindex, compensateOf_eq hc]
      rw [reverse_zipIdx_take_succ hc, rollbackPlan]
      rcases heq : c.compensate (compensateState bs state k (k - (j + 1))) with ⟨e | _, r⟩
      · have hfail : (compensateOf bs j (compensateState bs state k (k - 1 - j))).1 = .error e := by
          rw [compensateOf_eq hc, show k - 1 - j = k - (j + 1) by omega, heq]
        have hcourse := Course.partialRollback hk (Nat.lt_of_succ_le hj) hc
          (fun m hm => hcomp m (by omega)) hfail
        rw [hmade, hstate, heq, ← List.append_assoc] at hcourse
        exact Plan.Completes.after ⟨_, rfl, by simpa [Plan.finish] using hcourse⟩
      · have hok : CompensateOk bs state k (k - j) := by
          rw [hcount]
          refine compensateOk_succ hcomp ?_
          rw [hindex, compensateOf_eq hc, heq]
        have hnext := ih (t := t + 1) (Nat.le_of_succ_le hj) hok
        rw [hmade, hstate, heq, ← List.append_assoc] at hnext
        exact hnext.after

/-- The plan of a run that has completed the steps `done` completes a course. -/
theorem executePlan_completes [CharTables] {done rest : List (StepBehaviour R)} {t : Nat}
    (hbs : bs = done ++ rest) (hok : ForwardOk bs state done.length) :
    (executePlan (fun _ => false) t done.zipIdx (rest.zipIdx done.length)
      (forwardState bs state done.length)).Completes bs state
      (forwardCalls bs state done.length) := by
  induction rest generalizing done t with
  | nil =>
      have hlen : done.length = bs.length := by simp [hbs]
      refine ⟨_, rfl, ?_⟩
      simpa [executePlan, Plan.finish, hlen] using Course.committed (hlen ▸ hok)
  | cons b rest ih =>
      have hb : bs[done.length]? = some b := by simp [hbs]
      have hstate : forwardState bs state (done.length + 1) =
          (b.forward (forwardState bs state done.length)).2 := by
        rw [forwardState, forwardOf_eq hb]
      rw [List.zipIdx_cons, executePlan]
      rcases heq : b.forward (forwardState bs state done.length) with ⟨e | _, r⟩
      · have hk : FirstFailure bs state done.length b e := ⟨hb, hok, by rw [forwardOf_eq hb, heq]⟩
        have hnext := rollbackPlan_completes (t := t + 1) hk (Nat.le_refl _)
          (fun m hm => absurd hm (by omega))
        rw [show bs.take done.length = done by simp [hbs], Nat.sub_self, forwardCalls_succ,
          compensateState, hstate, heq] at hnext
        exact Plan.Completes.after (by simpa [compensateCalls] using hnext)
      · have hnext : ForwardOk bs state (done ++ [b]).length := by
          simpa using forwardOk_succ hok (by rw [forwardOf_eq hb, heq])
        have hrest := ih (t := t + 1) (by simp [hbs]) hnext
        rw [List.length_append, List.length_singleton, hstate, heq, forwardCalls_succ,
          List.zipIdx_append] at hrest
        exact Plan.Completes.after (by simpa using hrest)

/-- A store whose writes and releases never fail. -/
structure Reliable (h : Handler StoreSig σ) : Prop where
  recordEvent : ∀ key event s, ∃ s', h (.recordEvent key event) s = (.ok (), s')
  recordState : ∀ key state s, ∃ s', h (.recordState key state) s = (.ok (), s')
  releaseLock : ∀ guard s, ∃ s', h (.releaseLock guard) s = (.ok (), s')

theorem Reliable.scripted {h : Handler StoreSig σ} (hr : Reliable h) :
    Scripted h (fun _ => false) (fun _ _ => True) where
  recorded _ _ key event state := by
    obtain ⟨s₁, h₁⟩ := hr.recordEvent key event _
    obtain ⟨s₂, h₂⟩ := hr.recordState key state s₁
    exact ⟨s₁, s₂, h₁, h₂, trivial⟩
  lost _ hlost := by simp at hlost

/-- A run of the saga with the given behaviours, observed through its step calls. -/
def observe [CharTables] (h : Handler StoreSig σ) (key : FraiseKey)
    (bs : List (StepBehaviour R)) (state : R) (sched : List Bool) (s : σ) :
    Run (StoreSig.sum (StepSig R)) (σ × List (StepCall R)) (Except SagaError SagaOutcome × R) :=
  (runWithState key (probes bs) state).exec (h.prod (behave bs)) sched (s, [])

/-- A run over a store whose writes succeed and whose lock is free makes the step calls
of one of the three courses, threading the run state through them, and ends as that
course does. -/
theorem run_follows_course [CharTables] {h : Handler StoreSig σ} (hstore : Reliable h)
    {key : FraiseKey} {guard : LockGuard} {s s' : σ}
    (hlock : h (.acquireLock key) s = (.ok guard, s'))
    (bs : List (StepBehaviour R)) (state : R) (sched : List Bool) :
    ∃ outcome, (observe h key bs state sched s).value.1 = .ok outcome ∧
      Course bs state (observe h key bs state sched s).final.2 outcome
        (observe h key bs state sched s).value.2 := by
  have hfollows : wp (h.prod (behave bs)) Eq .any (runWithState key (probes bs) state)
      (Follows (plan (fun _ => false) bs state) []) (s, []) :=
    wp_runWithState hstore.scripted hlock (hstore.releaseLock guard) trivial
  obtain ⟨hcalls, houtcome, hfinal⟩ := (wp_exec hfollows sched).1
  have hcompletes : (plan (fun _ => false) bs state).Completes bs state [] :=
    executePlan_completes (List.nil_append bs).symm fun i hi => absurd hi (Nat.not_lt_zero i)
  obtain ⟨outcome, hplan, hcourse⟩ := hcompletes
  refine ⟨outcome, ?_, ?_⟩
  · rw [hplan] at houtcome
    exact eq_ok_of_mapError houtcome
  · rw [observe, hcalls, hfinal]
    exact hcourse

theorem memoryStore_reliable : Reliable memoryStore where
  recordEvent _ _ _ := ⟨_, rfl⟩
  recordState _ _ _ := ⟨_, rfl⟩
  releaseLock _ _ := ⟨_, rfl⟩

/-- Three steps that count their calls; the last one fails, and the first cannot be
undone. -/
def countingSteps : List (StepBehaviour Nat) :=
  [⟨"fetch", fun r => (.ok (), r + 1), fun r => (.error (.stepFailed "fetch" "gone"), r + 10)⟩,
   ⟨"migrate", fun r => (.ok (), r + 1), fun r => (.ok (), r + 10)⟩,
   ⟨"activate", fun r => (.error (.stepFailed "activate" "no disk"), r + 1), fun r => (.ok (), r)⟩]

/-- The course theorem at a run over an empty in-memory store that ends in a partial
rollback. -/
theorem run_follows_course_counting :
    Reliable memoryStore ∧
      (memoryStore (.acquireLock ⟨"shop", "production"⟩) .empty).1 = .ok ⟨⟨"shop", "production"⟩⟩ ∧
      (observe memoryStore ⟨"shop", "production"⟩ countingSteps 0 [] .empty).final.2 =
        [.forward 0 0, .forward 1 1, .forward 2 2, .compensate 1 3, .compensate 0 13] ∧
      ∃ outcome,
        (observe memoryStore ⟨"shop", "production"⟩ countingSteps 0 [] .empty).value.1 =
          .ok outcome ∧
        Course countingSteps 0
          (observe memoryStore ⟨"shop", "production"⟩ countingSteps 0 [] .empty).final.2 outcome
          (observe memoryStore ⟨"shop", "production"⟩ countingSteps 0 [] .empty).value.2 :=
  ⟨memoryStore_reliable, rfl, rfl, run_follows_course memoryStore_reliable rfl _ _ _⟩

end Fraisier.Saga
