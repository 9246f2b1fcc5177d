import Fraisier.Effect.Conditions
import Fraisier.Saga.Course

/-!
# The trail a saga run leaves

Every transition of a run is written twice, as an event and as a state. Over a store that
keeps what it is given, the events a run appends lead from `idle` to the state its outcome
names, one leaving the state the one before it entered, and the states it appends are the
ones they enter. Read `Trail` first, which says this of a list of events; the main theorem
is `run_leaves_trail`.
-/

namespace Fraisier.Saga

open Fraisier.Effect

variable {T : Sig} {R σ τ : Type}

/-- The state an event leaves. -/
def SagaEvent.source : SagaEvent → SagaState
  | .stateTransition source _ => source

/-- The state an event enters. -/
def SagaEvent.target : SagaEvent → SagaState
  | .stateTransition _ target => target

/-- The states a run ends in. -/
def SagaState.Terminal : SagaState → Prop
  | .committed => True
  | .rolledBack => True
  | .failed _ => True
  | .partialRollback _ => True
  | _ => False

/-- The state a run with the given outcome ends in. -/
def SagaOutcome.state : SagaOutcome → SagaState
  | .committed => .committed
  | .rolledBack _ _ => .rolledBack
  | .partialRollback reason => .partialRollback reason

/-- The events lead from `source` to `final`, which is the only terminal state they enter. -/
structure Trail (source : SagaState) (events : List SagaEvent) (final : SagaState) : Prop where
  first : events.head?.map SagaEvent.source = some source
  connected : events.IsChain fun event next => next.source = event.target
  last : events.getLast?.map SagaEvent.target = some final
  terminal : final.Terminal
  ongoing : ∀ event ∈ events.dropLast, ¬ event.target.Terminal

namespace Trail

variable {source target final : SagaState} {events : List SagaEvent}

theorem single (hfinal : final.Terminal) :
    Trail source [.stateTransition source final] final where
  first := rfl
  connected := .singleton _
  last := rfl
  terminal := hfinal
  ongoing := by simp

/-- A trail may be entered from a state that is not terminal. -/
theorem cons (htarget : ¬ target.Terminal) (h : Trail target events final) :
    Trail source (.stateTransition source target :: events) final := by
  obtain ⟨event, rest, rfl⟩ : ∃ event rest, events = event :: rest := by
    cases events with
    | nil => exact absurd h.first (by simp)
    | cons event rest => exact ⟨event, rest, rfl⟩
  have hfirst : event.source = target := by simpa using h.first
  refine ⟨rfl, ?_, ?_, h.terminal, ?_⟩
  · exact List.isChain_cons_cons.mpr ⟨hfirst, h.connected⟩
  · simpa using h.last
  · rw [List.dropLast_cons_cons]
    exact List.forall_mem_cons.mpr ⟨htarget, h.ongoing⟩

end Trail

/-! ## Stores that keep a journal -/

/-- How the content of a store is read: the events and the states of each pair, in the order
they were recorded in. -/
structure Journal (σ : Type) where
  events : σ → FraiseKey → List SagaEvent
  states : σ → FraiseKey → List DeploymentState

namespace Journal

/-- A store that does not fail: a write succeeds and appends what it was given, a release
succeeds, and the lock is apart from the journal. -/
structure KeptBy (j : Journal σ) (h : Handler StoreSig σ) : Prop where
  recordEvent : ∀ key event s, ∃ s', h (.recordEvent key event) s = (.ok (), s') ∧
    j.events s' key = j.events s key ++ [event] ∧ j.states s' key = j.states s key
  recordState : ∀ key state s, ∃ s', h (.recordState key state) s = (.ok (), s') ∧
    j.events s' key = j.events s key ∧ j.states s' key = j.states s key ++ [state]
  acquireLock : ∀ key s, j.events (h (.acquireLock key) s).2 = j.events s ∧
    j.states (h (.acquireLock key) s).2 = j.states s
  releaseLock : ∀ guard s, ∃ s', h (.releaseLock guard) s = (.ok (), s') ∧
    j.events s' = j.events s ∧ j.states s' = j.states s

/-- The store was given the events and the states they enter. -/
structure Appended (j : Journal σ) (key : FraiseKey) (trail : List SagaEvent)
    (before after : σ) : Prop where
  events : j.events after key = j.events before key ++ trail
  states : j.states after key =
    j.states before key ++ trail.map fun event => ⟨event.target, none⟩

variable {j : Journal σ} {key : FraiseKey} {trail trail' : List SagaEvent} {s s' s'' : σ}

theorem Appended.trans (h : j.Appended key trail s s') (h' : j.Appended key trail' s' s'') :
    j.Appended key (trail ++ trail') s s'' where
  events := by rw [h'.events, h.events, List.append_assoc]
  states := by rw [h'.states, h.states, List.map_append, List.append_assoc]

/-- A run that ends leaves a trail from the state it stood in. -/
def Leaves (j : Journal σ) (key : FraiseKey) (source : SagaState) (before : σ)
    (value : Except SagaError SagaOutcome × R) (final : σ × τ) : Prop :=
  ∃ outcome trail, value.1 = .ok outcome ∧ Trail source trail outcome.state ∧
    j.Appended key trail before final.1

/-- A run whose last transition is recorded leaves it as its trail. -/
theorem Leaves.last (outcome : SagaOutcome) {source : SagaState} {r : R} {t : τ}
    (h : j.Appended key [.stateTransition source outcome.state] s s') :
    j.Leaves key source s ((.ok outcome, r) : Except SagaError SagaOutcome × R) (s', t) := by
  refine ⟨outcome, _, rfl, .single ?_, h⟩
  cases outcome <;> trivial

/-- What a run leaves after one more transition is a longer trail. -/
theorem Leaves.after {source target : SagaState} {value : Except SagaError SagaOutcome × R}
    {final : σ × τ} (htarget : ¬ target.Terminal)
    (hfirst : j.Appended key [.stateTransition source target] s s')
    (h : j.Leaves key target s' value final) : j.Leaves key source s value final := by
  obtain ⟨outcome, trail, hvalue, htrail, happended⟩ := h
  exact ⟨outcome, _, hvalue, htrail.cons htarget, hfirst.trans happended⟩

end Journal

section Rules

variable {h : Handler StoreSig σ} {g : Handler T τ} {j : Journal σ} {key : FraiseKey}
variable {s : σ} {t : τ}

/-- A transition is appended as an event and as the state it enters. -/
theorem wp_transition_appended (hj : j.KeptBy h) {source target : SagaState}
    {Q : Except SagaError Unit → σ × τ → Prop}
    (hQ : ∀ s', j.Appended key [.stateTransition source target] s s' → Q (.ok ()) (s', t)) :
    wp (h.prod g) Eq (Guarantee.inr .any) (transition key source target) Q (s, t) := by
  obtain ⟨s₁, h₁, hevents₁, hstates₁⟩ := hj.recordEvent key (.stateTransition source target) s
  obtain ⟨s₂, h₂, hevents₂, hstates₂⟩ := hj.recordState key ⟨target, none⟩ s₁
  refine wp_bind (wp_store.mpr ⟨trivial, ?_⟩)
  rw [h₁]
  refine wp_bind (wp_store.mpr ⟨trivial, ?_⟩)
  rw [h₂]
  refine wp_ret.mpr (hQ s₂ ⟨?_, ?_⟩)
  · rw [hevents₂, hevents₁]
  · rw [hstates₂, hstates₁]
    rfl

/-- A step leaves the store as it is. -/
theorem wp_step_keeps_store {α : Type} {p : Prog T α} {Q : α → σ × τ → Prop}
    (hQ : ∀ a t', Q a (s, t')) :
    wp (h.prod g) Eq (Guarantee.inr .any) (p.inr (S := StoreSig)) Q (s, t) := by
  refine wp_post ?_ (wp_inr (wp_any (Q := fun _ _ => True) fun _ _ => trivial))
  intro a w hw
  obtain ⟨s', t'⟩ := w
  obtain rfl : s' = s := hw.1
  exact hQ a t'

theorem wp_rollbackLoop_leaves [CharTables] (hj : j.KeptBy h) {failed : String}
    {error : SagaError} {source : SagaState} {steps : List (Step T R)} {state : R} :
    wp (h.prod g) Eq (Guarantee.inr .any) (rollbackLoop ⟨key⟩ failed error source steps state)
      (j.Leaves key source s) (s, t) := by
  induction steps generalizing source state s t with
  | nil =>
      refine wp_bind (wp_transition_appended hj fun s' happended => wp_ret.mpr ?_)
      exact .last (.rolledBack failed (toString error)) happended
  | cons step rest ih =>
      refine wp_bind (wp_transition_appended hj fun s₁ h₁ => ?_)
      refine wp_bind (wp_step_keeps_store fun result t' => ?_)
      obtain ⟨_ | _, state'⟩ := result
      · -- The failed compensation is left from the state it was started in.
        refine wp_bind (wp_transition_appended hj fun s₂ h₂ => wp_ret.mpr ?_)
        exact .after id h₁ (.last (.partialRollback (partialReason step.name _)) h₂)
      · exact wp_post (fun _ _ => .after id h₁) ih

theorem wp_executeLoop_leaves [CharTables] (hj : j.KeptBy h) {source : SagaState}
    {completed steps : List (Step T R)} {state : R} :
    wp (h.prod g) Eq (Guarantee.inr .any) (executeLoop ⟨key⟩ source completed steps state)
      (j.Leaves key source s) (s, t) := by
  induction steps generalizing source completed state s t with
  | nil =>
      refine wp_bind (wp_transition_appended hj fun s' happended => wp_ret.mpr ?_)
      exact .last .committed happended
  | cons step rest ih =>
      refine wp_bind (wp_transition_appended hj fun s₁ h₁ => ?_)
      refine wp_bind (wp_step_keeps_store fun result t' => ?_)
      obtain ⟨_ | _, state'⟩ := result
      · -- The rollback starts from the state of the step that failed.
        exact wp_post (fun _ _ => .after id h₁) (wp_rollbackLoop_leaves hj)
      · exact wp_post (fun _ _ => .after id h₁) ih

/-- The lock is taken and released around the trail. -/
theorem wp_runWithState_leaves [CharTables] (hj : j.KeptBy h) {guard : LockGuard}
    (hlock : (h (.acquireLock key) s).1 = .ok guard) {steps : List (Step T R)} {state : R} :
    wp (h.prod g) Eq (Guarantee.inr .any) (runWithState key steps state)
      (j.Leaves key .idle s) (s, t) := by
  refine wp_bind (wp_store.mpr ⟨trivial, ?_⟩)
  rw [hlock]
  refine wp_bind (wp_post ?_ (wp_executeLoop_leaves hj))
  intro value w hleaves
  obtain ⟨outcome, trail, hvalue, htrail, happended⟩ := hleaves
  obtain ⟨result, state'⟩ := value
  obtain rfl : result = .ok outcome := hvalue
  refine wp_bind (wp_store.mpr ⟨trivial, ?_⟩)
  obtain ⟨s', hrelease, hevents, hstates⟩ := hj.releaseLock guard w.1
  rw [hrelease]
  refine wp_ret.mpr ⟨outcome, trail, rfl, htrail, ?_, ?_⟩
  · rw [hevents, happended.events, (hj.acquireLock key s).1]
  · rw [hstates, happended.states, (hj.acquireLock key s).2]

end Rules

/-- Over a store that does not fail, the events a run appends for its pair lead from `idle`
to the state its outcome names, each leaving the state the one before it entered and no
terminal state before the last, and the states it appends are the ones they enter. -/
theorem run_leaves_trail [CharTables] {h : Handler StoreSig σ} {j : Journal σ}
    (hj : j.KeptBy h) (g : Handler T τ) {key : FraiseKey} {guard : LockGuard} {s : σ}
    (hlock : (h (.acquireLock key) s).1 = .ok guard) (steps : List (Step T R)) (state : R)
    (sched : List Bool) (t : τ) :
    ∃ outcome trail,
      ((runWithState key steps state).exec (h.prod g) sched (s, t)).value.1 = .ok outcome ∧
      Trail .idle trail outcome.state ∧
      j.Appended key trail s
        ((runWithState key steps state).exec (h.prod g) sched (s, t)).final.1 :=
  (wp_exec (wp_runWithState_leaves hj hlock) sched).1

/-- The journal of the in-memory store. -/
def memoryJournal : Journal MemoryStore where
  events := MemoryStore.events
  states := MemoryStore.states

theorem memoryJournal_keptBy : memoryJournal.KeptBy memoryStore where
  recordEvent key event s := ⟨_, rfl, by simp [memoryJournal, MemoryStore.pushEvent]⟩
  recordState key state s := ⟨_, rfl, by simp [memoryJournal, MemoryStore.pushState]⟩
  acquireLock key s := by
    by_cases hheld : s.locked key <;> simp [memoryStore, hheld, memoryJournal, MemoryStore.setLock]
  releaseLock guard s := ⟨_, rfl, rfl, rfl⟩

/-- The trail of a run over an empty in-memory store that ends in a partial rollback. -/
theorem run_leaves_trail_counting :
    memoryJournal.KeptBy memoryStore ∧
      (memoryStore (.acquireLock ⟨"shop", "production"⟩) .empty).1 = .ok ⟨⟨"shop", "production"⟩⟩ ∧
      ((observe memoryStore ⟨"shop", "production"⟩ countingSteps 0 [] .empty).final.1.events
        ⟨"shop", "production"⟩).map SagaEvent.target =
        [.running "fetch", .running "migrate", .running "activate", .compensating "migrate",
          .compensating "fetch",
          .partialRollback (partialReason "fetch" (.stepFailed "fetch" "gone"))] ∧
      ∃ outcome trail,
        (observe memoryStore ⟨"shop", "production"⟩ countingSteps 0 [] .empty).value.1 =
          .ok outcome ∧
        Trail .idle trail outcome.state ∧
        memoryJournal.Appended ⟨"shop", "production"⟩ trail .empty
          (observe memoryStore ⟨"shop", "production"⟩ countingSteps 0 [] .empty).final.1 :=
  ⟨memoryJournal_keptBy, rfl, rfl,
    run_leaves_trail memoryJournal_keptBy (behave countingSteps) rfl (probes countingSteps) 0 [] []⟩

end Fraisier.Saga
