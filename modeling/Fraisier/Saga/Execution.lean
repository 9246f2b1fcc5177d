import Fraisier.Saga.Engine

/-!
# What a saga run calls

A run is observed through the calls it makes to its steps. Here each step behaves
as a given pair of state transformers, and `plan` is the pure account of a run
under a script that says which transitions the store fails to record. The engine
refines it (`runWithState_plan`), and without store failures the plan follows one of
three courses (`run_follows_course`): every step forward and a commit, or the first
failing step and the completed ones undone in reverse, to the end or up to a
compensation that fails.
-/

namespace Fraisier.Saga

open Fraisier.Effect

variable {R σ : Type}

/-- A call to the step with the given index, with the run state handed to it. -/
inductive StepCall (R : Type) where
  | forward (index : Nat) (state : R)
  | compensate (index : Nat) (state : R)
deriving DecidableEq

/-- Step calls as a signature: a step answers whether it succeeded and what it left
in the run state. -/
@[reducible] def StepSig (R : Type) : Sig where
  Cmd := StepCall R
  Ans _ := Except SagaError Unit × R

/-- How one step behaves. -/
structure StepBehaviour (R : Type) where
  name : String
  forward : R → Except SagaError Unit × R
  compensate : R → Except SagaError Unit × R

/-- The step with the given index, which does nothing but be called. -/
def StepBehaviour.probe (b : StepBehaviour R × Nat) : Step (StepSig R) R where
  name := b.1.name
  forward _ state := .call (StepCall.forward b.2 state) .ret
  compensate _ state := .call (StepCall.compensate b.2 state) .ret

/-- The steps of a saga with the given behaviours. -/
def probes (bs : List (StepBehaviour R)) : List (Step (StepSig R) R) :=
  bs.zipIdx.map StepBehaviour.probe

/-- The answer of step `i` to a forward call. -/
def forwardOf (bs : List (StepBehaviour R)) (i : Nat) (state : R) : Except SagaError Unit × R :=
  match bs[i]? with
  | some b => b.forward state
  | none => (.ok (), state)

/-- The answer of step `i` to a compensate call. -/
def compensateOf (bs : List (StepBehaviour R)) (i : Nat) (state : R) :
    Except SagaError Unit × R :=
  match bs[i]? with
  | some b => b.compensate state
  | none => (.ok (), state)

/-- Steps answer as they behave, and the calls they receive are kept in order. -/
def behave (bs : List (StepBehaviour R)) : Handler (StepSig R) (List (StepCall R))
  | .forward i state, log => (forwardOf bs i state, log ++ [.forward i state])
  | .compensate i state, log => (compensateOf bs i state, log ++ [.compensate i state])

/-! ## The plan of a run -/

/-- The step calls of a run, its outcome (`error` for a store failure) and the run
state it ends with. -/
structure Plan (R : Type) where
  calls : List (StepCall R)
  outcome : Except Unit SagaOutcome
  state : R

/-- The plan that makes one call first. -/
def Plan.after (call : StepCall R) (p : Plan R) : Plan R :=
  { p with calls := call :: p.calls }

/-- End a run with a transition the store may fail to record. -/
def Plan.finish (failed : Bool) (outcome : SagaOutcome) (state : R) : Plan R :=
  ⟨[], if failed then .error () else .ok outcome, state⟩

/-- The plan of a rollback whose next transition has number `t`. -/
def rollbackPlan [CharTables] (fails : Nat → Bool) (failedStep : String) (error : SagaError) :
    Nat → List (StepBehaviour R × Nat) → R → Plan R
  | t, [], state => .finish (fails t) (.rolledBack failedStep (toString error)) state
  | t, b :: rest, state =>
      if fails t then ⟨[], .error (), state⟩
      else match b.1.compensate state with
        | (.error e, state') =>
            Plan.after (.compensate b.2 state)
              (.finish (fails (t + 1)) (.partialRollback (partialReason b.1.name e)) state')
        | (.ok (), state') =>
            Plan.after (.compensate b.2 state)
              (rollbackPlan fails failedStep error (t + 1) rest state')

/-- The plan of a run whose next transition has number `t`. -/
def executePlan [CharTables] (fails : Nat → Bool) :
    Nat → List (StepBehaviour R × Nat) → List (StepBehaviour R × Nat) → R → Plan R
  | t, _, [], state => .finish (fails t) .committed state
  | t, completed, b :: rest, state =>
      if fails t then ⟨[], .error (), state⟩
      else match b.1.forward state with
        | (.error e, state') =>
            Plan.after (.forward b.2 state)
              (rollbackPlan fails b.1.name e (t + 1) completed.reverse state')
        | (.ok (), state') =>
            Plan.after (.forward b.2 state)
              (executePlan fails (t + 1) (completed ++ [b]) rest state')

/-- The plan of a whole run. -/
def plan [CharTables] (fails : Nat → Bool) (bs : List (StepBehaviour R)) (state : R) : Plan R :=
  executePlan fails 0 [] bs.zipIdx state

/-! ## The engine refines the plan -/

/-- A store that fails to record exactly the transitions the script names. `ready t`
is what its state satisfies when the next transition has number `t`. -/
structure Scripted (h : Handler StoreSig σ) (fails : Nat → Bool) (ready : Nat → σ → Prop) :
    Prop where
  recorded : ∀ {t s}, ready t s → fails t = false → ∀ key event state,
    ∃ s₁ s₂, h (.recordEvent key event) s = (.ok (), s₁) ∧
      h (.recordState key state) s₁ = (.ok (), s₂) ∧ ready (t + 1) s₂
  lost : ∀ {t s}, ready t s → fails t = true → ∀ key event state,
    (∃ e s₁, h (.recordEvent key event) s = (.error e, s₁)) ∨
    (∃ s₁ e s₂, h (.recordEvent key event) s = (.ok (), s₁) ∧
      h (.recordState key state) s₁ = (.error e, s₂))

/-- A run that had made the calls `log` follows a plan from there: it makes the plan's
calls, ends with its outcome and leaves its run state. -/
def Follows (p : Plan R) (log : List (StepCall R)) (value : Except SagaError SagaOutcome × R)
    (final : σ × List (StepCall R)) : Prop :=
  final.2 = log ++ p.calls ∧ value.1.mapError (fun _ => ()) = p.outcome ∧ value.2 = p.state

/-- Only a success is a success once errors are forgotten. -/
theorem eq_ok_of_mapError {ε α : Type} {v : Except ε α} {a : α}
    (h : v.mapError (fun _ => ()) = .ok a) : v = .ok a := by
  cases v with
  | error e => simp [Except.mapError] at h
  | ok b => simpa [Except.mapError] using h

section Refinement

variable {h : Handler StoreSig σ} {fails : Nat → Bool} {ready : Nat → σ → Prop}
variable {bs : List (StepBehaviour R)} {t : Nat} {s : σ} {log : List (StepCall R)}

/-- A transition the store records makes no step call and moves the store on. -/
theorem wp_transition_recorded (hs : Scripted h fails ready) (hready : ready t s)
    (hok : fails t = false) {key : FraiseKey} {source target : SagaState}
    {Q : Except SagaError Unit → σ × List (StepCall R) → Prop}
    (hQ : ∀ s', ready (t + 1) s' → Q (.ok ()) (s', log)) :
    wp (h.prod (behave bs)) Eq .any (transition key source target) Q (s, log) := by
  obtain ⟨s₁, s₂, h₁, h₂, hready'⟩ :=
    hs.recorded hready hok key (.stateTransition source target) ⟨target, none⟩
  refine wp_bind (wp_store.mpr ⟨trivial, ?_⟩)
  rw [h₁]
  refine wp_bind (wp_store.mpr ⟨trivial, ?_⟩)
  rw [h₂]
  exact wp_ret.mpr (hQ s₂ hready')

/-- A transition the store fails to record ends in the store's error. -/
theorem wp_transition_lost (hs : Scripted h fails ready) (hready : ready t s)
    (hlost : fails t = true) {key : FraiseKey} {source target : SagaState}
    {Q : Except SagaError Unit → σ × List (StepCall R) → Prop}
    (hQ : ∀ e s', Q (.error (.store e)) (s', log)) :
    wp (h.prod (behave bs)) Eq .any (transition key source target) Q (s, log) := by
  refine wp_bind (wp_store.mpr ⟨trivial, ?_⟩)
  rcases hs.lost hready hlost key (.stateTransition source target) ⟨target, none⟩ with
    ⟨e, s₁, h₁⟩ | ⟨s₁, e, s₂, h₁, h₂⟩
  · rw [h₁]
    exact wp_ret.mpr (hQ e s₁)
  · rw [h₁]
    refine wp_bind (wp_store.mpr ⟨trivial, ?_⟩)
    rw [h₂]
    exact wp_ret.mpr (hQ e s₂)

/-- A run that ends with a transition follows the plan that finishes there. -/
theorem wp_finish (hs : Scripted h fails ready) (hready : ready t s) {key : FraiseKey}
    {source target : SagaState} {outcome : SagaOutcome} {state : R} :
    wp (h.prod (behave bs)) Eq .any
      (transition key source target >>= fun r => match r with
        | .error e => .ret (.error e, state)
        | .ok () => .ret (.ok outcome, state))
      (Follows (.finish (fails t) outcome state) log) (s, log) := by
  cases hfail : fails t with
  | true =>
      refine wp_bind (wp_transition_lost hs hready hfail fun e s' => wp_ret.mpr ?_)
      simp [Follows, Plan.finish, Except.mapError]
  | false =>
      refine wp_bind (wp_transition_recorded hs hready hfail fun s' _ => wp_ret.mpr ?_)
      simp [Follows, Plan.finish, Except.mapError]

/-- A forward call is answered as the step behaves and kept. -/
theorem wp_probe_forward {b : StepBehaviour R × Nat} (hb : bs[b.2]? = some b.1)
    {ctx : StepContext} {state : R}
    {Q : Except SagaError Unit × R → σ × List (StepCall R) → Prop}
    (hQ : Q (b.1.forward state) (s, log ++ [.forward b.2 state])) :
    wp (h.prod (behave bs)) Eq .any
      (((StepBehaviour.probe b).forward ctx state).inr (S := StoreSig)) Q
      (s, log) := by
  rintro _ rfl
  refine ⟨trivial, wp_ret.mpr ?_⟩
  simpa [Handler.prod, behave, forwardOf, hb] using hQ

/-- A compensate call is answered as the step behaves and kept. -/
theorem wp_probe_compensate {b : StepBehaviour R × Nat} (hb : bs[b.2]? = some b.1)
    {ctx : StepContext} {state : R}
    {Q : Except SagaError Unit × R → σ × List (StepCall R) → Prop}
    (hQ : Q (b.1.compensate state) (s, log ++ [.compensate b.2 state])) :
    wp (h.prod (behave bs)) Eq .any
      (((StepBehaviour.probe b).compensate ctx state).inr (S := StoreSig)) Q
      (s, log) := by
  rintro _ rfl
  refine ⟨trivial, wp_ret.mpr ?_⟩
  simpa [Handler.prod, behave, compensateOf, hb] using hQ

omit h fails ready bs t s in
/-- Following the rest of a plan after its first call is following the plan. -/
theorem Follows.after {p : Plan R} {call : StepCall R}
    {value : Except SagaError SagaOutcome × R} {final : σ × List (StepCall R)}
    (hp : Follows p (log ++ [call]) value final) : Follows (p.after call) log value final := by
  obtain ⟨hcalls, houtcome, hstate⟩ := hp
  refine ⟨?_, houtcome, hstate⟩
  simpa [Plan.after] using hcalls

/-- The rollback loop follows its plan. -/
theorem wp_rollbackLoop [CharTables] (hs : Scripted h fails ready) (hready : ready t s)
    {ctx : StepContext} {failedStep : String} {error : SagaError} {source : SagaState}
    {steps : List (StepBehaviour R × Nat)} (hbs : ∀ b ∈ steps, bs[b.2]? = some b.1) {state : R} :
    wp (h.prod (behave bs)) Eq .any
      (rollbackLoop ctx failedStep error source (steps.map StepBehaviour.probe) state)
      (Follows (rollbackPlan fails failedStep error t steps state) log) (s, log) := by
  induction steps generalizing t s log source state with
  | nil => exact wp_finish hs hready
  | cons b rest ih =>
      simp only [List.map_cons, rollbackLoop, rollbackPlan]
      cases hfail : fails t with
      | true =>
          refine wp_bind (wp_transition_lost hs hready hfail fun e s' => wp_ret.mpr ?_)
          simp [Follows, Except.mapError]
      | false =>
          refine wp_bind (wp_transition_recorded hs hready hfail fun s' hready' => ?_)
          refine wp_bind (wp_probe_compensate (hbs b List.mem_cons_self) ?_)
          rcases hcomp : b.1.compensate state with ⟨_ | _, state'⟩
          · exact wp_post (fun _ _ => Follows.after) (wp_finish hs hready')
          · exact wp_post (fun _ _ => Follows.after)
              (ih hready' fun c hc => hbs c (List.mem_cons_of_mem _ hc))

/-- The forward loop follows its plan. -/
theorem wp_executeLoop [CharTables] (hs : Scripted h fails ready) (hready : ready t s)
    {ctx : StepContext} {source : SagaState} {completed steps : List (StepBehaviour R × Nat)}
    (hcompleted : ∀ b ∈ completed, bs[b.2]? = some b.1)
    (hsteps : ∀ b ∈ steps, bs[b.2]? = some b.1) {state : R} :
    wp (h.prod (behave bs)) Eq .any
      (executeLoop ctx source (completed.map StepBehaviour.probe)
        (steps.map StepBehaviour.probe) state)
      (Follows (executePlan fails t completed steps state) log) (s, log) := by
  induction steps generalizing t s log source state completed with
  | nil => exact wp_finish hs hready
  | cons b rest ih =>
      simp only [List.map_cons, executeLoop, executePlan]
      cases hfail : fails t with
      | true =>
          refine wp_bind (wp_transition_lost hs hready hfail fun e s' => wp_ret.mpr ?_)
          simp [Follows, Except.mapError]
      | false =>
          refine wp_bind (wp_transition_recorded hs hready hfail fun s' hready' => ?_)
          refine wp_bind (wp_probe_forward (hsteps b List.mem_cons_self) ?_)
          rcases hforward : b.1.forward state with ⟨error | _, state'⟩
          · refine wp_post (fun _ _ => Follows.after) ?_
            simp only [rollback, ← List.map_reverse]
            exact wp_rollbackLoop hs hready' fun c hc => hcompleted c (List.mem_reverse.mp hc)
          · refine wp_post (fun _ _ => Follows.after) ?_
            have hnow : ∀ c ∈ completed ++ [b], bs[c.2]? = some c.1 := by
              intro c hc
              rcases List.mem_append.mp hc with hc | hc
              · exact hcompleted c hc
              · exact List.mem_singleton.mp hc ▸ hsteps b List.mem_cons_self
            have hmap : completed.map StepBehaviour.probe ++ [StepBehaviour.probe b] =
                (completed ++ [b]).map StepBehaviour.probe := by simp
            simp only [hmap]
            exact ih hready' hnow fun c hc => hsteps c (List.mem_cons_of_mem _ hc)

/-- A run over a store that grants the lock and releases it follows the plan. -/
theorem wp_runWithState [CharTables] (hs : Scripted h fails ready) {key : FraiseKey}
    {guard : LockGuard} {s₀ : σ} (hlock : h (.acquireLock key) s₀ = (.ok guard, s))
    (hrelease : ∀ s, ∃ s', h (.releaseLock guard) s = (.ok (), s')) (hready : ready 0 s)
    {state : R} :
    wp (h.prod (behave bs)) Eq .any (runWithState key (probes bs) state)
      (Follows (plan fails bs state) []) (s₀, []) := by
  refine wp_bind (wp_store.mpr ⟨trivial, ?_⟩)
  rw [hlock]
  have hindex : ∀ b ∈ bs.zipIdx, bs[b.2]? = some b.1 := fun b hb =>
    (List.mem_zipIdx_iff_getElem?.mp hb)
  have hexecute : wp (h.prod (behave bs)) Eq .any
      (executeLoop ⟨key⟩ .idle ([].map StepBehaviour.probe) (bs.zipIdx.map StepBehaviour.probe)
        state) (Follows (plan fails bs state) []) (s, []) :=
    wp_executeLoop hs hready (by simp) hindex
  refine wp_bind (wp_post ?_ hexecute)
  rintro ⟨outcome, state'⟩ ⟨s', log'⟩ hfollows
  refine wp_bind (wp_store.mpr ⟨trivial, ?_⟩)
  obtain ⟨s'', hrel⟩ := hrelease s'
  rw [hrel]
  exact wp_ret.mpr hfollows

end Refinement

end Fraisier.Saga
