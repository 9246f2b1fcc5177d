import Fraisier.Data.Json
import Fraisier.Effect.Logic

/-!
# The state store

The saga lifecycle, the events it leaves behind and the store it persists them in.
The store's methods are the commands of `StoreSig`; `memoryStore` answers them the
way the in-memory backend does, and `MemoryStore` is the content a run leaves.
-/

namespace Fraisier.Saga

open Fraisier.Effect

/-- The `(fraise, environment)` pair a run targets. -/
structure FraiseKey where
  fraise : String
  environment : String
deriving DecidableEq

instance : ToString FraiseKey where
  toString key := key.fraise ++ "/" ++ key.environment

/-- The generic lifecycle state of a saga run. -/
inductive SagaState where
  | idle
  | running (step : String)
  | committed
  | compensating (step : String)
  | rolledBack
  | failed (reason : String)
  | partialRollback (reason : String)
deriving DecidableEq

/-- A typed event of a saga run. -/
inductive SagaEvent where
  | stateTransition (source target : SagaState)
deriving DecidableEq

/-- A persisted lifecycle state. The time it was recorded at is not modelled: the
order of the records carries what is read from it. -/
structure DeploymentState where
  state : SagaState
  revision : Option String
deriving DecidableEq

/-- The failures of a store method, each with the text it is reported with. -/
inductive StateStoreError where
  | locked (key : String)
  | io (message : String)
  | serde (message : String)
  | backend (message : String)
  | database (message : String)
deriving DecidableEq

instance : ToString StateStoreError where
  toString
    | .locked key => s!"the deploy {key} is already locked by another writer"
    | .io message => s!"state store I/O error: {message}"
    | .serde message => s!"state store (de)serialization error: {message}"
    | .backend message => s!"state store backend error: {message}"
    | .database message => s!"state store database error: {message}"

/-- Proof that the lock of one pair is held. -/
structure LockGuard where
  key : FraiseKey
deriving DecidableEq

/-- The methods of a state store. -/
inductive StoreCall where
  | acquireLock (key : FraiseKey)
  | releaseLock (guard : LockGuard)
  | recordState (key : FraiseKey) (state : DeploymentState)
  | currentState (key : FraiseKey)
  | recordEvent (key : FraiseKey) (event : SagaEvent)
  | events (key : FraiseKey)
  | recordSnapshot (key : FraiseKey) (snapshot : Data.Json)
  | currentSnapshot (key : FraiseKey)
  | keys

/-- What each store method returns when it succeeds. -/
def StoreCall.Value : StoreCall → Type
  | .acquireLock _ => LockGuard
  | .releaseLock _ => Unit
  | .recordState _ _ => Unit
  | .currentState _ => Option DeploymentState
  | .recordEvent _ _ => Unit
  | .events _ => List SagaEvent
  | .recordSnapshot _ _ => Unit
  | .currentSnapshot _ => Option Data.Json
  | .keys => List FraiseKey

/-- The state store as a signature: every method may fail. -/
@[reducible] def StoreSig : Sig where
  Cmd := StoreCall
  Ans c := Except StateStoreError c.Value

/-- The content of a store: for each pair the lock, the recorded states and events
in append order and the latest snapshot, and the pairs written to so far. -/
structure MemoryStore where
  locked : FraiseKey → Bool
  states : FraiseKey → List DeploymentState
  events : FraiseKey → List SagaEvent
  snapshots : FraiseKey → Option Data.Json
  known : List FraiseKey

namespace MemoryStore

/-- A store nothing was written to. -/
def empty : MemoryStore where
  locked _ := false
  states _ := []
  events _ := []
  snapshots _ := none
  known := []

/-- Remember a pair so that `keys` can enumerate it. -/
def rememberKey (s : MemoryStore) (key : FraiseKey) : MemoryStore :=
  if key ∈ s.known then s else { s with known := s.known ++ [key] }

@[simp] theorem rememberKey_locked (s : MemoryStore) (key : FraiseKey) :
    (s.rememberKey key).locked = s.locked := by
  unfold rememberKey
  split <;> rfl

@[simp] theorem rememberKey_snapshots (s : MemoryStore) (key : FraiseKey) :
    (s.rememberKey key).snapshots = s.snapshots := by
  unfold rememberKey
  split <;> rfl

@[simp] theorem rememberKey_events (s : MemoryStore) (key : FraiseKey) :
    (s.rememberKey key).events = s.events := by
  unfold rememberKey
  split <;> rfl

@[simp] theorem rememberKey_states (s : MemoryStore) (key : FraiseKey) :
    (s.rememberKey key).states = s.states := by
  unfold rememberKey
  split <;> rfl

/-- Take or free the lock of a pair. -/
def setLock (s : MemoryStore) (key : FraiseKey) (held : Bool) : MemoryStore :=
  { s with locked := Function.update s.locked key held }

/-- Append a lifecycle state. -/
def pushState (s : MemoryStore) (key : FraiseKey) (state : DeploymentState) : MemoryStore :=
  { s.rememberKey key with
    states := Function.update s.states key (s.states key ++ [state]) }

/-- Append an event. -/
def pushEvent (s : MemoryStore) (key : FraiseKey) (event : SagaEvent) : MemoryStore :=
  { s with events := Function.update s.events key (s.events key ++ [event]) }

/-- Replace the snapshot of a pair. -/
def setSnapshot (s : MemoryStore) (key : FraiseKey) (snapshot : Data.Json) : MemoryStore :=
  { s.rememberKey key with
    snapshots := Function.update s.snapshots key (some snapshot) }

/-- The lifecycle state recorded last for a pair. -/
def lastState (s : MemoryStore) (key : FraiseKey) : Option SagaState :=
  (s.states key).getLast?.map DeploymentState.state

end MemoryStore

/-- The in-memory backend. The lock is a try-lock: taking a held one fails. -/
def memoryStore : Handler StoreSig MemoryStore
  | .acquireLock key, s =>
      if s.locked key then (.error (.locked (toString key)), s)
      else (.ok ⟨key⟩, s.setLock key true)
  | .releaseLock guard, s => (.ok (), s.setLock guard.key false)
  | .recordState key state, s => (.ok (), s.pushState key state)
  | .currentState key, s => (.ok (s.states key).getLast?, s)
  | .recordEvent key event, s => (.ok (), s.pushEvent key event)
  | .events key, s => (.ok (s.events key), s)
  | .recordSnapshot key snapshot, s => (.ok (), s.setSnapshot key snapshot)
  | .currentSnapshot key, s => (.ok (s.snapshots key), s)
  | .keys, s => (.ok s.known, s)

/-- Issue one store method from a program that also has other commands. -/
def store {T : Sig} (c : StoreCall) : Prog (StoreSig.sum T) (Except StateStoreError c.Value) :=
  .call (.inl c) .ret

/-- A store method is answered by the store's handler and touches nothing else. -/
theorem wp_store {T : Sig} {σ τ : Type} {h : Handler StoreSig σ} {g : Handler T τ}
    {G : Guarantee (StoreSig.sum T) (σ × τ)} {c : StoreCall} {s : σ} {t : τ}
    {Q : Except StateStoreError c.Value → σ × τ → Prop} :
    wp (h.prod g) Eq G (store c) Q (s, t) ↔
      G (s, t) (.inl c) ((h c s).2, t) ∧ Q (h c s).1 ((h c s).2, t) := by
  constructor
  · intro hp
    obtain ⟨hg, hk⟩ := hp _ rfl
    exact ⟨hg, hk _ rfl⟩
  · rintro ⟨hg, hQ⟩ _ rfl
    exact ⟨hg, fun _ hs => hs ▸ hQ⟩

end Fraisier.Saga
