import Fraisier.Saga.Redact
import Fraisier.Saga.StateStore

/-!
# The saga engine

The driver runs an ordered list of compensable steps forward, persisting a
transition before each of them, and commits; on the first step that fails it
compensates the completed ones in reverse. A step is a pair of programs over the
commands of the deploy layer, and the run state `R` is threaded through them.
-/

namespace Fraisier.Saga

open Fraisier.Effect

variable {T : Sig} {R : Type}

/-- Engine-level errors. -/
inductive SagaError where
  | stepFailed (step message : String)
  | store (error : StateStoreError)
deriving DecidableEq

instance : ToString SagaError where
  toString
    | .stepFailed step message => s!"step '{step}' failed: {message}"
    | .store error => toString error

/-- Context passed to each step. -/
structure StepContext where
  key : FraiseKey

/-- One compensable unit of work: a forward action and its undo. -/
structure Step (T : Sig) (R : Type) where
  name : String
  forward : StepContext → R → Prog T (Except SagaError Unit × R)
  compensate : StepContext → R → Prog T (Except SagaError Unit × R)

/-- How a saga run ended. -/
inductive SagaOutcome where
  | committed
  | rolledBack (failedStep reason : String)
  | partialRollback (reason : String)
deriving DecidableEq

/-- Record one state transition: append the event, then persist the new state. -/
def transition (key : FraiseKey) (source target : SagaState) :
    Prog (StoreSig.sum T) (Except SagaError Unit) := do
  match ← store (.recordEvent key (.stateTransition source target)) with
  | .error error => return .error (.store error)
  | .ok _ =>
    match ← store (.recordState key ⟨target, none⟩) with
    | .error error => return .error (.store error)
    | .ok _ => return .ok ()

/-- The reason a partial rollback is stored and returned with: which compensation
failed and how, with credentials stripped. -/
def partialReason [CharTables] (step : String) (error : SagaError) : String :=
  Redact.credentials s!"compensation for '{step}' failed: {error}"

/-- The loop of `rollback`: compensate the given steps in order. -/
def rollbackLoop [CharTables] (ctx : StepContext) (failedStep : String) (error : SagaError) :
    SagaState → List (Step T R) → R →
      Prog (StoreSig.sum T) (Except SagaError SagaOutcome × R)
  | source, [], state => do
      match ← transition ctx.key source .rolledBack with
      | .error e => return (.error e, state)
      | .ok () => return (.ok (.rolledBack failedStep (toString error)), state)
  | source, step :: rest, state => do
      match ← transition ctx.key source (.compensating step.name) with
      | .error e => return (.error e, state)
      | .ok () =>
        match ← (step.compensate ctx state).inr with
        | (.error compError, state) =>
          let reason := partialReason step.name compError
          match ← transition ctx.key (.compensating step.name) (.partialRollback reason) with
          | .error e => return (.error e, state)
          | .ok () => return (.ok (.partialRollback reason), state)
        | (.ok (), state) =>
          rollbackLoop ctx failedStep error (.compensating step.name) rest state

/-- Compensate every completed step in reverse. The failed step never ran to
completion, so it is not compensated. -/
def rollback [CharTables] (ctx : StepContext) (completed : List (Step T R))
    (failedStep : String) (error : SagaError) (state : R) :
    Prog (StoreSig.sum T) (Except SagaError SagaOutcome × R) :=
  rollbackLoop ctx failedStep error (.running failedStep) completed.reverse state

/-- The loop of `execute`: run the given steps forward after the `completed` ones. -/
def executeLoop [CharTables] (ctx : StepContext) :
    SagaState → List (Step T R) → List (Step T R) → R →
      Prog (StoreSig.sum T) (Except SagaError SagaOutcome × R)
  | source, _, [], state => do
      match ← transition ctx.key source .committed with
      | .error e => return (.error e, state)
      | .ok () => return (.ok .committed, state)
  | source, completed, step :: rest, state => do
      match ← transition ctx.key source (.running step.name) with
      | .error e => return (.error e, state)
      | .ok () =>
        match ← (step.forward ctx state).inr with
        | (.error error, state) => rollback ctx completed step.name error state
        | (.ok (), state) =>
          executeLoop ctx (.running step.name) (completed ++ [step]) rest state

/-- Run every step forward and commit, or roll back on the first failure. -/
def execute [CharTables] (key : FraiseKey) (steps : List (Step T R)) (state : R) :
    Prog (StoreSig.sum T) (Except SagaError SagaOutcome × R) :=
  executeLoop ⟨key⟩ .idle [] steps state

/-- Acquire the lock of the pair, execute and release it. A failing release is
reported unless the run has an error of its own. -/
def runWithState [CharTables] (key : FraiseKey) (steps : List (Step T R)) (state : R) :
    Prog (StoreSig.sum T) (Except SagaError SagaOutcome × R) := do
  match ← store (.acquireLock key) with
  | .error error => return (.error (.store error), state)
  | .ok guard =>
    let (outcome, state) ← execute key steps state
    match ← store (.releaseLock guard), outcome with
    | .ok _, outcome => return (outcome, state)
    | .error _, .error error => return (.error error, state)
    | .error releaseError, .ok _ => return (.error (.store releaseError), state)

end Fraisier.Saga
