import Fraisier.Saga.Engine

/-!
# A proof rule for sagas

`Compensable` is the induction that a saga asks for: going forward each step takes
the assertion before it to the one after it, and each compensation takes the
obligation to undo it back to the obligation of the steps before it. `wp_runWithState`
turns it into what a whole run over the in-memory store ends with.
-/

namespace Fraisier.Saga

open Fraisier.Effect

variable {T : Sig} {R τ : Type}

/-- An assertion about the run state and the world the steps act on. -/
def Assertion (R τ : Type) : Type :=
  R → τ → Prop

/-- How a step or a compensation ends: in `A` when it succeeds and in `F` when it fails. -/
@[reducible] def StepPost (A F : Assertion R τ) : Except SagaError Unit × R → τ → Prop
  | (.ok (), r), t => A r t
  | (.error _, r), t => F r t

/-- `Compensable g G ctx Part A U steps B`: run from `A`, the steps reach `B`, and a
failure leaves the obligation to undo what was done. `U failed` is what undoing starts
from once all steps so far have to be compensated after `failed` failed, and `Part` is
what a compensation that fails leaves. -/
inductive Compensable (g : Handler T τ) (G : Guarantee T τ) (ctx : StepContext)
    (Part : Assertion R τ) :
    Assertion R τ → (String → Assertion R τ) → List (Step T R) → Assertion R τ → Prop where
  | nil {A : Assertion R τ} {U : String → Assertion R τ} : Compensable g G ctx Part A U [] A
  | cons {A A' B : Assertion R τ} {U V : String → Assertion R τ} {step : Step T R}
      {rest : List (Step T R)}
      (hforward : ∀ r t, A r t →
        wp g Eq G (step.forward ctx r) (StepPost A' (U step.name)) t)
      (hcompensate : ∀ failed r t, V failed r t →
        wp g Eq G (step.compensate ctx r) (StepPost (U failed) Part) t)
      (hrest : Compensable g G ctx Part A' V rest B) :
      Compensable g G ctx Part A U (step :: rest) B

/-- `Undoable g G ctx Part U₀ steps U`: compensating the given steps in order leads
from `U` to `U₀`. -/
inductive Undoable (g : Handler T τ) (G : Guarantee T τ) (ctx : StepContext)
    (Part : Assertion R τ) (U₀ : String → Assertion R τ) :
    List (Step T R) → (String → Assertion R τ) → Prop where
  | nil : Undoable g G ctx Part U₀ [] U₀
  | cons {U V : String → Assertion R τ} {step : Step T R} {rest : List (Step T R)}
      (hcompensate : ∀ failed r t, V failed r t →
        wp g Eq G (step.compensate ctx r) (StepPost (U failed) Part) t)
      (hrest : Undoable g G ctx Part U₀ rest U) :
      Undoable g G ctx Part U₀ (step :: rest) V

/-- What a saga leaves in its store: the lock and the snapshots as they were, and the
terminal state as the last state and the target of the last event. -/
structure Ended (key : FraiseKey) (before after : MemoryStore) (terminal : SagaState) :
    Prop where
  locked : after.locked = before.locked
  snapshots : after.snapshots = before.snapshots
  state : after.lastState key = some terminal
  event : ∃ source, (after.events key).getLast? = some (.stateTransition source terminal)

/-- How a run over a store that grants the lock ends. -/
def RunPost (key : FraiseKey) (before : MemoryStore) (B : Assertion R τ)
    (U : String → Assertion R τ) (Part : Assertion R τ)
    (value : Except SagaError SagaOutcome × R) (final : MemoryStore × τ) : Prop :=
  match value with
  | (.ok .committed, r) => Ended key before final.1 .committed ∧ B r final.2
  | (.ok (.rolledBack failed _), r) => Ended key before final.1 .rolledBack ∧ U failed r final.2
  | (.ok (.partialRollback reason), r) =>
      Ended key before final.1 (.partialRollback reason) ∧ Part r final.2
  | (.error _, _) => False

/-- The store after a recorded transition. -/
def MemoryStore.recordTransition (s : MemoryStore) (key : FraiseKey) (source target : SagaState) :
    MemoryStore :=
  (s.pushEvent key (.stateTransition source target)).pushState key ⟨target, none⟩

/-- A recorded transition ends the saga's record at its target. -/
theorem ended_recordTransition {key : FraiseKey} {before s : MemoryStore}
    (hlocked : s.locked = before.locked) (hsnapshots : s.snapshots = before.snapshots)
    (source target : SagaState) :
    Ended key before (s.recordTransition key source target) target where
  locked := by simp [MemoryStore.recordTransition, MemoryStore.pushState, MemoryStore.pushEvent,
    hlocked]
  snapshots := by simp [MemoryStore.recordTransition, MemoryStore.pushState,
    MemoryStore.pushEvent, hsnapshots]
  state := by simp [MemoryStore.recordTransition, MemoryStore.pushState, MemoryStore.lastState]
  event := ⟨source, by simp [MemoryStore.recordTransition, MemoryStore.pushState,
    MemoryStore.pushEvent]⟩

section Rule

variable {g : Handler T τ} {G : Guarantee T τ} {before s : MemoryStore} {t : τ}

/-- The in-memory store records every transition. -/
theorem wp_transition {key : FraiseKey} {source target : SagaState}
    {Q : Except SagaError Unit → MemoryStore × τ → Prop}
    (hQ : Q (.ok ()) (s.recordTransition key source target, t)) :
    wp (memoryStore.prod g) Eq (Guarantee.inr G) (transition key source target) Q (s, t) :=
  wp_bind (wp_store.mpr ⟨trivial, wp_bind (wp_store.mpr ⟨trivial, wp_ret.mpr hQ⟩)⟩)

/-- Rolling back reaches the obligation of no step, or stops at a compensation that
failed. -/
theorem wp_rollbackLoop_undoable [CharTables] {ctx : StepContext} {failed : String}
    {error : SagaError} {Part B : Assertion R τ} {U₀ U : String → Assertion R τ}
    {steps : List (Step T R)} (hundo : Undoable g G ctx Part U₀ steps U)
    (hlocked : s.locked = before.locked) (hsnapshots : s.snapshots = before.snapshots)
    {source : SagaState} {r : R} (hU : U failed r t) :
    wp (memoryStore.prod g) Eq (Guarantee.inr G) (rollbackLoop ctx failed error source steps r)
      (RunPost ctx.key before B U₀ Part) (s, t) := by
  induction hundo generalizing s t source r with
  | nil =>
      refine wp_bind (wp_transition (wp_ret.mpr ?_))
      exact ⟨ended_recordTransition hlocked hsnapshots _ _, hU⟩
  | @cons U V step rest hcompensate hrest ih =>
      refine wp_bind (wp_transition ?_)
      have hmid : Ended ctx.key before
          (s.recordTransition ctx.key source (.compensating step.name))
          (.compensating step.name) := ended_recordTransition hlocked hsnapshots _ _
      refine wp_bind (wp_post ?_ (wp_inr (hcompensate failed r t hU)))
      rintro ⟨_ | _, r'⟩ ⟨s', t'⟩ ⟨hs, hpost⟩
      · refine wp_bind (wp_transition (wp_ret.mpr ?_))
        have hs' : s' = s.recordTransition ctx.key source (.compensating step.name) := hs
        subst hs'
        exact ⟨ended_recordTransition hmid.locked hmid.snapshots _ _, hpost⟩
      · have hs' : s' = s.recordTransition ctx.key source (.compensating step.name) := hs
        subst hs'
        exact ih hmid.locked hmid.snapshots hpost

/-- Running forward reaches the commit, or rolls back from the step that failed. -/
theorem wp_executeLoop_compensable [CharTables] {ctx : StepContext}
    {Part A B : Assertion R τ} {U₀ U : String → Assertion R τ} {steps : List (Step T R)}
    (hsteps : Compensable g G ctx Part A U steps B) {completed : List (Step T R)}
    (hundo : Undoable g G ctx Part U₀ completed.reverse U)
    (hlocked : s.locked = before.locked) (hsnapshots : s.snapshots = before.snapshots)
    {source : SagaState} {r : R} (hA : A r t) :
    wp (memoryStore.prod g) Eq (Guarantee.inr G) (executeLoop ctx source completed steps r)
      (RunPost ctx.key before B U₀ Part) (s, t) := by
  induction hsteps generalizing s t source r completed with
  | nil =>
      refine wp_bind (wp_transition (wp_ret.mpr ?_))
      exact ⟨ended_recordTransition hlocked hsnapshots _ _, hA⟩
  | @cons A A' B U V step rest hforward hcompensate hrest ih =>
      refine wp_bind (wp_transition ?_)
      have hmid : Ended ctx.key before (s.recordTransition ctx.key source (.running step.name))
          (.running step.name) := ended_recordTransition hlocked hsnapshots _ _
      refine wp_bind (wp_post ?_ (wp_inr (hforward r t hA)))
      rintro ⟨error | _, r'⟩ ⟨s', t'⟩ ⟨hs, hpost⟩
      · have hs' : s' = s.recordTransition ctx.key source (.running step.name) := hs
        subst hs'
        exact wp_rollbackLoop_undoable hundo hmid.locked hmid.snapshots hpost
      · have hs' : s' = s.recordTransition ctx.key source (.running step.name) := hs
        subst hs'
        refine ih ?_ hmid.locked hmid.snapshots hpost
        rw [List.reverse_append, List.reverse_singleton, List.singleton_append]
        exact .cons hcompensate hundo

/-- A run of compensable steps over a store whose lock is free ends as `RunPost` says:
in the last assertion, in the obligation of no step, or in what a failed compensation
leaves. -/
theorem wp_runWithState_compensable [CharTables] {key : FraiseKey} {Part A B : Assertion R τ}
    {U : String → Assertion R τ} {steps : List (Step T R)}
    (hsteps : Compensable g G ⟨key⟩ Part A U steps B) (hfree : s.locked key = false)
    {r : R} (hA : A r t) :
    wp (memoryStore.prod g) Eq (Guarantee.inr G) (runWithState key steps r)
      (RunPost key s B U Part) (s, t) := by
  have hacquire : memoryStore (.acquireLock key) s = (.ok ⟨key⟩, s.setLock key true) := by
    simp [memoryStore, hfree]
  refine wp_bind (wp_store.mpr ⟨trivial, ?_⟩)
  rw [hacquire]
  have hexecute : wp (memoryStore.prod g) Eq (Guarantee.inr G) (execute key steps r)
      (RunPost key (s.setLock key true) B U Part) (s.setLock key true, t) :=
    wp_executeLoop_compensable hsteps .nil rfl rfl hA
  refine wp_bind (wp_post ?_ hexecute)
  rintro ⟨outcome, r'⟩ ⟨s', t'⟩ hpost
  refine wp_bind (wp_store.mpr ⟨trivial, wp_ret.mpr ?_⟩)
  have hreleased : ∀ {terminal}, Ended key (s.setLock key true) s' terminal →
      Ended key s (s'.setLock key false) terminal := by
    intro terminal h
    refine ⟨?_, h.snapshots, h.state, h.event⟩
    simp only [MemoryStore.setLock, h.locked]
    rw [Function.update_idem, ← hfree, Function.update_eq_self]
  match outcome, hpost with
  | .ok .committed, h => exact ⟨hreleased h.1, h.2⟩
  | .ok (.rolledBack _ _), h => exact ⟨hreleased h.1, h.2⟩
  | .ok (.partialRollback _), h => exact ⟨hreleased h.1, h.2⟩

/-- A run whose lock is taken reports it and does nothing. -/
theorem wp_runWithState_locked [CharTables] {key : FraiseKey} {steps : List (Step T R)}
    (hlocked : s.locked key = true) {r : R}
    {Q : Except SagaError SagaOutcome × R → MemoryStore × τ → Prop}
    (hQ : Q (.error (.store (.locked (toString key))), r) (s, t)) :
    wp (memoryStore.prod g) Eq (Guarantee.inr G) (runWithState key steps r) Q (s, t) := by
  have hacquire : memoryStore (.acquireLock key) s =
      (.error (.locked (toString key)), s) := by
    simp [memoryStore, hlocked]
  refine wp_bind (wp_store.mpr ⟨trivial, ?_⟩)
  rw [hacquire]
  exact wp_ret.mpr hQ

end Rule

/-! ## Stores that may fail -/

/-- How a run over a store that may fail ends. Nothing is said of a run that the store
stopped. -/
def RunEnds (B : Assertion R τ) (U : String → Assertion R τ) (Part : Assertion R τ)
    (value : Except SagaError SagaOutcome × R) (t : τ) : Prop :=
  match value with
  | (.ok .committed, r) => B r t
  | (.ok (.rolledBack failed _), r) => U failed r t
  | (.ok (.partialRollback _), r) => Part r t
  | (.error _, _) => True

section AnyStore

variable {σ : Type} {h : Handler StoreSig σ} {g : Handler T τ} {G : Guarantee T τ} {s : σ} {t : τ}

/-- A transition leaves the world of the steps alone, recorded or not. -/
theorem wp_transition_anyStore {key : FraiseKey} {source target : SagaState}
    {Q : Except SagaError Unit → σ × τ → Prop} (hQ : ∀ r s', Q r (s', t)) :
    wp (h.prod g) Eq (Guarantee.inr G) (transition key source target) Q (s, t) := by
  refine wp_bind (wp_store.mpr ⟨trivial, ?_⟩)
  split
  · exact wp_ret.mpr (hQ _ _)
  · refine wp_bind (wp_store.mpr ⟨trivial, ?_⟩)
    split
    · exact wp_ret.mpr (hQ _ _)
    · exact wp_ret.mpr (hQ _ _)

theorem wp_rollbackLoop_anyStore [CharTables] {ctx : StepContext} {failed : String}
    {error : SagaError} {Part B : Assertion R τ} {U₀ U : String → Assertion R τ}
    {steps : List (Step T R)} (hundo : Undoable g G ctx Part U₀ steps U)
    {source : SagaState} {r : R} (hU : U failed r t) :
    wp (h.prod g) Eq (Guarantee.inr G) (rollbackLoop ctx failed error source steps r)
      (fun v w => RunEnds B U₀ Part v w.2) (s, t) := by
  induction hundo generalizing s t source r with
  | nil =>
      refine wp_bind (wp_transition_anyStore ?_)
      intro recorded s'
      cases recorded with
      | error error => exact wp_ret.mpr trivial
      | ok _ => exact wp_ret.mpr hU
  | @cons U V step rest hcompensate hrest ih =>
      refine wp_bind (wp_transition_anyStore ?_)
      intro recorded s₁
      cases recorded with
      | error error => exact wp_ret.mpr trivial
      | ok _ =>
          refine wp_bind (wp_post ?_ (wp_inr (hcompensate failed r t hU)))
          intro result w hresult
          obtain ⟨undone | _, r'⟩ := result
          · refine wp_bind (wp_transition_anyStore ?_)
            intro recorded s₃
            cases recorded with
            | error error => exact wp_ret.mpr trivial
            | ok _ => exact wp_ret.mpr hresult.2
          · exact ih hresult.2

theorem wp_executeLoop_anyStore [CharTables] {ctx : StepContext} {Part A B : Assertion R τ}
    {U₀ U : String → Assertion R τ} {steps : List (Step T R)}
    (hsteps : Compensable g G ctx Part A U steps B) {completed : List (Step T R)}
    (hundo : Undoable g G ctx Part U₀ completed.reverse U) {source : SagaState} {r : R}
    (hA : A r t) :
    wp (h.prod g) Eq (Guarantee.inr G) (executeLoop ctx source completed steps r)
      (fun v w => RunEnds B U₀ Part v w.2) (s, t) := by
  induction hsteps generalizing s t source r completed with
  | nil =>
      refine wp_bind (wp_transition_anyStore ?_)
      intro recorded s'
      cases recorded with
      | error error => exact wp_ret.mpr trivial
      | ok _ => exact wp_ret.mpr hA
  | @cons A A' B U V step rest hforward hcompensate hrest ih =>
      refine wp_bind (wp_transition_anyStore ?_)
      intro recorded s₁
      cases recorded with
      | error error => exact wp_ret.mpr trivial
      | ok _ =>
          refine wp_bind (wp_post ?_ (wp_inr (hforward r t hA)))
          intro result w hresult
          obtain ⟨error | _, r'⟩ := result
          · exact wp_rollbackLoop_anyStore hundo hresult.2
          · refine ih ?_ hresult.2
            rw [List.reverse_append, List.reverse_singleton, List.singleton_append]
            exact .cons hcompensate hundo

/-- A run of compensable steps ends as `RunEnds` says, whatever its store does. -/
theorem wp_runWithState_anyStore [CharTables] {key : FraiseKey} {Part A B : Assertion R τ}
    {U : String → Assertion R τ} {steps : List (Step T R)}
    (hsteps : Compensable g G ⟨key⟩ Part A U steps B) {r : R} (hA : A r t) :
    wp (h.prod g) Eq (Guarantee.inr G) (runWithState key steps r)
      (fun v w => RunEnds B U Part v w.2) (s, t) := by
  refine wp_bind (wp_store.mpr ⟨trivial, ?_⟩)
  split
  · exact wp_ret.mpr trivial
  · refine wp_bind (wp_post ?_ (wp_executeLoop_anyStore hsteps .nil hA))
    intro value w hends
    obtain ⟨outcome, r'⟩ := value
    refine wp_bind (wp_store.mpr ⟨trivial, ?_⟩)
    -- a failing release only replaces an outcome that was not an error
    cases outcome with
    | error error => split <;> exact wp_ret.mpr trivial
    | ok outcome =>
        split
        · exact wp_ret.mpr hends
        · rename_i heq
          cases heq
        · exact wp_ret.mpr trivial

end AnyStore

end Fraisier.Saga
