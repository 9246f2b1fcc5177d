import Fraisier.Core.MultiHost
import Fraisier.Core.SingleHost
import Fraisier.Effect.Pool

/-!
# The calls that use a ledger

A deploy reads the ledger before it takes the lock of its pair and writes it after the
lock is free again, and a `db migrate` reads and rewrites it with no lock at all.
`LedgerMove` is that protocol, step by step, and `Call.follows` says that every call
keeps to it, whatever its adapters do.
-/

namespace Fraisier.Core

open Fraisier.Effect Fraisier.Saga
open Fraisier.Data (Json)

variable {T : Sig} {R : Type}

/-! ## What a ledger names -/

/-- The release a ledger names: the active artifacts, each with its host when there is a
fleet of them, and the revision of the database. -/
structure Release where
  artifacts : List (Option HostId × StagedArtifact)
  revision : Option Revision
deriving DecidableEq

/-- The release of a single-host record. -/
def DeployRecord.release (record : DeployRecord) : Release :=
  ⟨record.active.toList.map fun artifact => (none, artifact), record.revision⟩

/-- The release of a multi-host record. -/
def MultiHostRecord.release (record : MultiHostRecord) : Release :=
  ⟨record.active.map fun entry => (some entry.1, entry.2), record.revision⟩

/-- The release a snapshot names, read as a single-host or as a multi-host record. -/
def releaseOf : Option Json → Release
  | none => ⟨[], none⟩
  | some value =>
      match DeployRecord.decode value with
      | some record => record.release
      | none =>
          match MultiHostRecord.decode value with
          | some record => record.release
          | none => ⟨[], none⟩

theorem releaseOf_single {snapshot : Option Json} {record : DeployRecord}
    (h : SingleHostDeploy.priorRecord snapshot = some record) :
    releaseOf snapshot = record.release := by
  cases snapshot with
  | none =>
      cases h
      rfl
  | some value =>
      have hvalue : DeployRecord.decode value = some record := h
      simp only [releaseOf, hvalue]

theorem decode_of_decodeEntries {fields : List (String × Json)}
    {entries : List (HostId × StagedArtifact)} (h : decodeEntries fields = some entries)
    {name : String} {value : Json} (hvalue : Json.lookup fields name = some value) :
    ∃ staged, StagedArtifact.decode value = some staged := by
  induction fields generalizing entries with
  | nil => simp [Json.lookup] at hvalue
  | cons field fields ih =>
      simp only [decodeEntries, Option.bind_eq_bind, Option.bind_eq_some_iff] at h
      obtain ⟨staged, hstaged, rest, hrest, -⟩ := h
      by_cases hname : field.1 = name
      · obtain rfl : field.2 = value := by simpa [Json.lookup, hname] using hvalue
        exact ⟨staged, hstaged⟩
      · refine ih hrest ?_
        simpa [Json.lookup, List.find?_cons, hname] using hvalue

/-- A map of artifacts has an artifact where an artifact has its path. -/
theorem decode_of_decodeActive {value : Json} {active : List (HostId × StagedArtifact)}
    (h : decodeActive value = some active) : StagedArtifact.decode value = none := by
  cases value with
  | obj fields =>
      have hentries : decodeEntries fields = some active := h
      have hpath : Json.field Json.asStr fields "path" = none := by
        cases hlookup : Json.lookup fields "path" with
        | none => simp [Json.field, hlookup]
        | some path =>
            obtain ⟨staged, hstaged⟩ := decode_of_decodeEntries hentries hlookup
            cases path with
            | str text => simp [StagedArtifact.decode, decodePair] at hstaged
            | _ => simp [Json.field, hlookup, Json.asStr]
      simp [StagedArtifact.decode, decodePair, hpath]
  | _ => cases h

/-- A multi-host record does not read as a single-host one. -/
theorem DeployRecord.decode_eq_none {value : Json} {record : MultiHostRecord}
    (h : MultiHostRecord.decode value = some record) : DeployRecord.decode value = none := by
  have hasOption : ∀ {value : Json} {active}, decodeActive value = some active →
      Json.asOption StagedArtifact.decode value = none := by
    intro value active hactive
    have hnone := decode_of_decodeActive hactive
    cases value with
    | null => cases hactive
    | _ => simp [Json.asOption, hnone]
  unfold MultiHostRecord.decode decodePair at h
  split at h
  · simp only [Option.map_eq_some_iff, Option.bind_eq_bind, Option.bind_eq_some_iff] at h
    obtain ⟨_, ⟨active, hactive, -⟩, -⟩ := h
    obtain ⟨value, hlookup, hvalue⟩ := Option.bind_eq_some_iff.mp hactive
    simp [DeployRecord.decode, decodePair, Json.optionField, hlookup, hasOption hvalue]
  · simp only [Option.bind_eq_bind, Option.bind_eq_some_iff] at h
    obtain ⟨active, hactive, -⟩ := h
    simp [DeployRecord.decode, decodePair, hasOption hactive]
  · cases h

theorem releaseOf_multi {snapshot : Option Json} {record : MultiHostRecord}
    (h : MultiHostDeploy.priorRecord snapshot = some record) :
    releaseOf snapshot = record.release := by
  cases snapshot with
  | none =>
      cases h
      rfl
  | some value =>
      have hvalue : MultiHostRecord.decode value = some record := h
      simp only [releaseOf, DeployRecord.decode_eq_none hvalue, hvalue]

/-! ## The calls -/

/-- The record a `db migrate` writes: the one it read, or the default one when it reads no
single-host record, with the new revision. -/
def updatedRecord (snapshot : Option Json) (revision : Option Revision) : DeployRecord :=
  { (snapshot.bind DeployRecord.decode).getD .default with revision := revision }

/-- Record a revision in the ledger, preserving the active artifact. -/
def recordLedgerRevision (key : FraiseKey) (revision : Option Revision) :
    Prog (StoreSig.sum T) (Except StateStoreError Unit) := do
  match ← store (.currentSnapshot key) with
  | .error error => return .error error
  | .ok snapshot => store (.recordSnapshot key (updatedRecord snapshot revision).encode)

/-- A call that uses the ledger of a pair. -/
inductive Call (T : Sig) where
  | single (deploy : SingleHostDeploy T)
  | multi (deploy : MultiHostDeploy T)
  | update (revision : Option Revision)

namespace Call

/-- The call as a program. -/
def prog [CharTables] (key : FraiseKey) : Call T → Prog (StoreSig.sum T) Unit
  | .single deploy => deploy.runReporting >>= fun _ => .ret ()
  | .multi deploy => deploy.run >>= fun _ => .ret ()
  | .update revision => recordLedgerRevision key revision >>= fun _ => .ret ()

/-- A call for the given pair. -/
def Targets (key : FraiseKey) : Call T → Prop
  | .single deploy => deploy.key = key
  | .multi deploy => deploy.key = key
  | .update _ => True

/-- Whether the call is an update without a deploy. -/
def isUpdate : Call T → Bool
  | .update _ => true
  | _ => false

/-- The release of the record that a run rolls back to, from the snapshot it read. -/
def prior (snapshot : Option Json) : Call T → Option Release
  | .single _ => (SingleHostDeploy.priorRecord snapshot).map DeployRecord.release
  | .multi _ => (MultiHostDeploy.priorRecord snapshot).map MultiHostRecord.release
  | .update _ => none

theorem releaseOf_prior {call : Call T} {snapshot : Option Json} {release : Release}
    (h : call.prior snapshot = some release) : releaseOf snapshot = release := by
  cases call with
  | single deploy =>
      obtain ⟨record, hrecord, rfl⟩ := Option.map_eq_some_iff.mp h
      exact releaseOf_single hrecord
  | multi deploy =>
      obtain ⟨record, hrecord, rfl⟩ := Option.map_eq_some_iff.mp h
      exact releaseOf_multi hrecord
  | update revision => cases h

end Call

/-! ## The protocol of a call -/

/-- How far a call has got with the ledger. A run goes from `idle` to `done`; an update
from `fresh`. -/
inductive Stage where
  | idle
  | read (snapshot : Option Json)
  | held (snapshot : Option Json)
  | committed (record : Json)
  | released (record : Json)
  | fresh
  | updating (snapshot : Option Json)
  | done

/-- What a call does at each stage. A run that committed has still to release the lock
and then to write its record. -/
inductive LedgerMove (key : FraiseKey) :
    Stage → (c : (StoreSig.sum T).Cmd) → (StoreSig.sum T).Ans c → Stage → Prop where
  | read (snapshot) :
      LedgerMove key .idle (.inl (.currentSnapshot key)) (.ok snapshot) (.read snapshot)
  | refused (snapshot error) :
      LedgerMove key (.read snapshot) (.inl (.acquireLock key)) (.error error) .done
  | acquired (snapshot guard) :
      LedgerMove key (.read snapshot) (.inl (.acquireLock key)) (.ok guard) (.held snapshot)
  | event (snapshot event x) :
      LedgerMove key (.held snapshot) (.inl (.recordEvent key event)) x (.held snapshot)
  | record (snapshot state x) (hstate : state.state ≠ .committed) :
      LedgerMove key (.held snapshot) (.inl (.recordState key state)) x (.held snapshot)
  | act (snapshot c x) :
      LedgerMove key (.held snapshot) (.inr c) x (.held snapshot)
  | commit (snapshot state record x) (hstate : state.state = .committed) :
      LedgerMove key (.held snapshot) (.inl (.recordState key state)) x (.committed record)
  | giveUp (snapshot x) :
      LedgerMove key (.held snapshot) (.inl (.releaseLock ⟨key⟩)) x .done
  | release (record x) :
      LedgerMove key (.committed record) (.inl (.releaseLock ⟨key⟩)) x (.released record)
  | write (record x) :
      LedgerMove key (.released record) (.inl (.recordSnapshot key record)) x .done
  | readFresh (snapshot) :
      LedgerMove key .fresh (.inl (.currentSnapshot key)) (.ok snapshot) (.updating snapshot)
  | update (snapshot revision x) :
      LedgerMove key (.updating snapshot)
        (.inl (.recordSnapshot key (updatedRecord snapshot revision).encode)) x .done

/-- The answers of a store that only ever refuses a lock. The guard it hands out is for the pair it
was asked for. -/
def PossibleAnswer : (c : (StoreSig.sum T).Cmd) → (StoreSig.sum T).Ans c → Prop
  | .inl (.acquireLock key), x => x = .ok ⟨key⟩ ∨ ∃ error, x = .error error
  | .inl (.releaseLock _), x => ∃ v, x = .ok v
  | .inl (.recordState _ _), x => ∃ v, x = .ok v
  | .inl (.currentState _), x => ∃ v, x = .ok v
  | .inl (.recordEvent _ _), x => ∃ v, x = .ok v
  | .inl (.events _), x => ∃ v, x = .ok v
  | .inl (.recordSnapshot _ _), x => ∃ v, x = .ok v
  | .inl (.currentSnapshot _), x => ∃ v, x = .ok v
  | .inl .keys, x => ∃ v, x = .ok v
  | .inr _, _ => True

/-- The protocol of the calls for one pair. -/
def ledgerProtocol (T : Sig) (key : FraiseKey) : Protocol (StoreSig.sum T) Stage where
  Possible := PossibleAnswer
  Move := LedgerMove key

/-- Where a call may end. A run that cannot read the ledger stops there. -/
def Stage.Final : Stage → Prop
  | .read _ => True
  | .done => True
  | _ => False

/-- Where a call begins. -/
def Call.stage : Call T → Stage
  | .update _ => .fresh
  | _ => .idle

/-! ## The calls keep to it -/

section Follows

variable {key : FraiseKey} {snapshot : Option Json}

/-- While the lock is held a run may do anything to the world. -/
theorem follows_inr {α : Type} (p : Prog T α) :
    (ledgerProtocol T key).Follows p.inr (fun _ φ => φ = .held snapshot) (.held snapshot) := by
  induction p with
  | ret a => exact rfl
  | call c k ih => exact fun x _ => ⟨_, .act snapshot c x, ih x⟩
  | choose k ih => exact fun first => ih first

theorem follows_transition {source target : SagaState} (htarget : target ≠ .committed) :
    (ledgerProtocol T key).Follows (transition key source target)
      (fun x φ => x = .ok () ∧ φ = .held snapshot) (.held snapshot) := by
  rintro x ⟨u, rfl⟩
  refine ⟨_, .event _ _ _, ?_⟩
  rintro y ⟨u', rfl⟩
  exact ⟨_, .record _ _ _ htarget, rfl, rfl⟩

/-- The commit settles which record has to be written. -/
theorem follows_commit {source : SagaState} (record : Json) :
    (ledgerProtocol T key).Follows (transition key source .committed)
      (fun x φ => x = .ok () ∧ φ = .committed record) (.held snapshot) := by
  rintro x ⟨u, rfl⟩
  refine ⟨_, .event _ _ _, ?_⟩
  rintro y ⟨u', rfl⟩
  exact ⟨_, .commit _ _ record _ rfl, rfl, rfl⟩

/-- Where a saga stands with the ledger when it ends. -/
@[reducible] def SagaPost (record : R → Json) (snapshot : Option Json) :
    Except SagaError SagaOutcome × R → Stage → Prop
  | (.ok .committed, r), φ => φ = .committed (record r)
  | _, φ => φ = .held snapshot

theorem follows_rollbackLoop [CharTables] (record : R → Json) (failed : String)
    (error : SagaError) (source : SagaState) (steps : List (Step T R)) (r : R) :
    (ledgerProtocol T key).Follows (rollbackLoop ⟨key⟩ failed error source steps r)
      (SagaPost record snapshot) (.held snapshot) := by
  induction steps generalizing source r with
  | nil =>
      refine Protocol.follows_bind (Protocol.follows_post ?_ (follows_transition (by simp)))
      rintro x φ ⟨rfl, rfl⟩
      exact rfl
  | cons step steps ih =>
      refine Protocol.follows_bind (Protocol.follows_post ?_ (follows_transition (by simp)))
      rintro x φ ⟨rfl, rfl⟩
      refine Protocol.follows_bind (Protocol.follows_post ?_ (follows_inr _))
      rintro ⟨_ | _, r'⟩ φ rfl
      · refine Protocol.follows_bind (Protocol.follows_post ?_ (follows_transition (by simp)))
        rintro x φ ⟨rfl, rfl⟩
        exact rfl
      · exact ih _ _

theorem follows_executeLoop [CharTables] (record : R → Json) (source : SagaState)
    (completed steps : List (Step T R)) (r : R) :
    (ledgerProtocol T key).Follows (executeLoop ⟨key⟩ source completed steps r)
      (SagaPost record snapshot) (.held snapshot) := by
  induction steps generalizing source completed r with
  | nil =>
      refine Protocol.follows_bind (Protocol.follows_post ?_ (follows_commit (record r)))
      rintro x φ ⟨rfl, rfl⟩
      exact rfl
  | cons step steps ih =>
      refine Protocol.follows_bind (Protocol.follows_post ?_ (follows_transition (by simp)))
      rintro x φ ⟨rfl, rfl⟩
      refine Protocol.follows_bind (Protocol.follows_post ?_ (follows_inr _))
      rintro ⟨_ | _, r'⟩ φ rfl
      · exact follows_rollbackLoop record _ _ _ _ _
      · exact ih _ _ _

/-- Where a run stands once its saga has returned: a committed one has its record to
write. -/
@[reducible] def RunStage (record : R → Json) : Except SagaError SagaOutcome × R → Stage → Prop
  | (.ok .committed, r), φ => φ = .released (record r)
  | _, φ => φ = .done

theorem follows_runWithState [CharTables] (record : R → Json) (steps : List (Step T R)) (r : R) :
    (ledgerProtocol T key).Follows (runWithState key steps r) (RunStage record)
      (.read snapshot) := by
  rintro x (rfl | ⟨error, rfl⟩)
  · refine ⟨_, .acquired _ _, ?_⟩
    show (ledgerProtocol T key).Follows (execute key steps r >>= _) _ _
    refine Protocol.follows_bind (Protocol.follows_post ?_
      (follows_executeLoop record _ _ _ _))
    rintro ⟨outcome, r'⟩ φ hφ
    rintro y ⟨u, rfl⟩
    rcases outcome with error | (_ | _ | _) <;> cases hφ
    · exact ⟨_, .giveUp _ _, rfl⟩
    · exact ⟨_, .release _ _, rfl⟩
    · exact ⟨_, .giveUp _ _, rfl⟩
    · exact ⟨_, .giveUp _ _, rfl⟩
  · exact ⟨_, .refused _ _, rfl⟩

end Follows

namespace Call

variable {key : FraiseKey}

theorem follows_single [CharTables] {deploy : SingleHostDeploy T} (hkey : deploy.key = key) :
    (ledgerProtocol T key).Follows deploy.runReporting (fun _ φ => φ.Final) .idle := by
  subst hkey
  rintro x ⟨snapshot, rfl⟩
  refine ⟨_, .read snapshot, ?_⟩
  dsimp only [Prog.bind]
  cases SingleHostDeploy.priorRecord snapshot with
  | none => trivial
  | some prior =>
      refine Protocol.follows_bind (Protocol.follows_post ?_
        (follows_runWithState (fun r : DeployRuntime => r.committedRecord.encode) _ _))
      rintro ⟨outcome, r⟩ φ hφ
      rcases outcome with error | (_ | _ | _) <;> cases hφ
      · trivial
      · rintro y ⟨u, rfl⟩
        exact ⟨_, .write _ _, trivial⟩
      · trivial
      · trivial

theorem follows_multi [CharTables] {deploy : MultiHostDeploy T} (hkey : deploy.key = key) :
    (ledgerProtocol T key).Follows deploy.run (fun _ φ => φ.Final) .idle := by
  subst hkey
  rintro x ⟨snapshot, rfl⟩
  refine ⟨_, .read snapshot, ?_⟩
  dsimp only [Prog.bind]
  cases MultiHostDeploy.priorRecord snapshot with
  | none => trivial
  | some prior =>
      refine Protocol.follows_bind (Protocol.follows_post ?_
        (follows_runWithState (fun r : RolloutRuntime => r.committedRecord.encode) _ _))
      rintro ⟨outcome, r⟩ φ hφ
      rcases outcome with error | (_ | ⟨failed, reason⟩ | _) <;> cases hφ
      · trivial
      · rintro y ⟨u, rfl⟩
        exact ⟨_, .write _ _, trivial⟩
      · -- an unrecoverable host makes this a partial rollback, which is not recorded either
        simp only [RolloutRuntime.finalize]
        cases r.unrecoverable with
        | none => trivial
        | some detail => trivial
      · trivial

/-- Every call for the pair keeps to the protocol of its ledger. -/
theorem follows [CharTables] {call : Call T} (hcall : call.Targets key) :
    (ledgerProtocol T key).Follows (call.prog key) (fun _ φ => φ.Final) call.stage := by
  cases call with
  | single deploy => exact Protocol.follows_bind (follows_single hcall)
  | multi deploy => exact Protocol.follows_bind (follows_multi hcall)
  | update revision =>
      rintro x ⟨snapshot, rfl⟩
      refine ⟨_, .readFresh snapshot, ?_⟩
      rintro y ⟨u, rfl⟩
      exact ⟨_, .update _ _ _, trivial⟩

end Call

end Fraisier.Core
