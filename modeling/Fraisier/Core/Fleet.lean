import Fraisier.Core.MultiHost
import Fraisier.Core.Rehearsal
import Fraisier.Effect.Local

/-!
# A fleet of hosts

A world for the multi-host deploy: hosts with an active and a running artifact and a
load-balancer membership, and a shared database. An oracle decides for each host, by
the number of calls it has received, which calls fail and what the others answer. A
call that fails has no effect. Hosts keep a log of what happened to them.
-/

namespace Fraisier.Core

open Fraisier.Effect Fraisier.Saga

/-- The calls of the adapters that act on one host. -/
inductive HostCall where
  | status
  | stage
  | activate (artifact : StagedArtifact)
  | restart
  | check
  | drain
  | reattach (membership : LbMembership)
deriving DecidableEq

/-- What a host call returns when it succeeds. -/
def HostCall.Value : HostCall → Type
  | .status => ServiceStatus
  | .stage => StagedArtifact
  | .activate _ => Unit
  | .restart => Unit
  | .check => HealthStatus
  | .drain => LbMembership
  | .reattach _ => Unit

/-- The calls of the migration adapter that act on the shared database. -/
inductive DbCall where
  | currentRevision
  | up (target : Option Revision)
  | downTo (target : Revision)
  | verify
deriving DecidableEq

/-- What a database call returns when it succeeds. -/
def DbCall.Value : DbCall → Type
  | .currentRevision => Option Revision
  | .up _ => MigrationOutcome
  | .downTo _ => MigrationOutcome
  | .verify => VerifyReport

/-- Questions, and work on throwaway copies: nothing of it touches a host or the shared
database. -/
inductive Query where
  | describe
  | preflight
  | unready (dsn : String)
  | approve (request : ApprovalRequest)
  | var (name : String)
  | isDir (path : String)
  | provision (liveDsn : String) (backup : BackupSource)
  | rehearse (dsn : String) (target : Option Revision)
  | teardown (throwaway : ThrowawayDb)
deriving DecidableEq

/-- The answer of a question. -/
def Query.Answer : Query → Type
  | .describe => Except AdapterError AdapterDescription
  | .preflight => Except AdapterError PreflightReport
  | .unready _ => Except String (List String)
  | .approve _ => ApprovalVerdict
  | .var _ => Except VarError String
  | .isDir _ => Bool
  | .provision _ _ => Except RehearsalError ThrowawayDb
  | .rehearse _ _ => Except AdapterError MigrationOutcome
  | .teardown _ => Except String Unit

/-- The commands of a fleet. -/
inductive FleetCall where
  | host (host : HostId) (call : HostCall)
  | db (call : DbCall)
  | query (query : Query)

/-- The fleet as a signature. -/
@[reducible] def FleetSig : Sig where
  Cmd := FleetCall
  Ans
    | .host _ call => Except AdapterError call.Value
    | .db call => Except AdapterError call.Value
    | .query query => query.Answer

/-- What happened to a host. -/
inductive HostEvent where
  | probed (status : ServiceStatus)
  | staged (artifact : StagedArtifact)
  | activated (artifact : StagedArtifact)
  | restarted
  | checked (status : HealthStatus)
  | drained (captured : LbMembership)
  | reattached (membership : LbMembership)
  | failed (call : HostCall) (error : AdapterError)
deriving DecidableEq

/-- One host: the artifact its release link points at, the one its service runs, its
membership and its log. -/
structure HostCell where
  active : Option StagedArtifact
  running : Option StagedArtifact
  membership : LbMembership
  log : List HostEvent

/-- Append to a host's log. -/
def HostCell.record (cell : HostCell) (event : HostEvent) : HostCell :=
  { cell with log := cell.log ++ [event] }

/-- What happened to the database. -/
inductive DbEvent where
  | read (revision : Option Revision)
  | upgraded (target : Option Revision) (outcome : MigrationOutcome)
  | downgraded (target : Revision)
  | verified (report : VerifyReport)
  | failed (call : DbCall) (error : AdapterError)
deriving DecidableEq

/-- The shared database: its live revision and its log. -/
structure Database where
  revision : Option Revision
  log : List DbEvent

/-- Append to the database's log. -/
def Database.record (db : Database) (event : DbEvent) : Database :=
  { db with log := db.log ++ [event] }

/-- The state of a fleet. -/
structure Fleet where
  hosts : HostId → HostCell
  db : Database
  queries : Nat

/-- Replace one host. -/
def Fleet.setHost (s : Fleet) (host : HostId) (cell : HostCell) : Fleet :=
  { s with hosts := Function.update s.hosts host cell }

/-- How one host answers its `n`-th call. -/
structure HostOracle where
  fault : Nat → Option AdapterError
  status : Nat → ServiceStatus
  staged : Nat → StagedArtifact
  health : Nat → HealthStatus
  afterDrain : LbMembership → LbMembership

/-- How the database answers its `n`-th call. An `up` from a revision reports an outcome
and leaves a revision. -/
structure DbOracle where
  fault : Nat → Option AdapterError
  up : Nat → Option Revision → Option Revision → MigrationOutcome × Option Revision
  downTo : Nat → Revision → MigrationOutcome
  verify : Nat → VerifyReport

/-- How a fleet answers. -/
structure FleetOracle where
  host : HostId → HostOracle
  db : DbOracle
  query : Nat → (q : Query) → q.Answer

/-- What a host's `n`-th call returns and does when it succeeds. -/
def hostEffect (o : HostOracle) (n : Nat) (call : HostCall) (cell : HostCell) :
    call.Value × HostCell :=
  match call with
  | .status => (o.status n, cell.record (.probed (o.status n)))
  | .stage => (o.staged n, cell.record (.staged (o.staged n)))
  | .activate artifact => ((), { cell with active := some artifact }.record (.activated artifact))
  | .restart => ((), { cell with running := cell.active }.record .restarted)
  | .check => (o.health n, cell.record (.checked (o.health n)))
  | .drain =>
      (cell.membership, { cell with membership := o.afterDrain cell.membership }.record
        (.drained cell.membership))
  | .reattach membership =>
      ((), { cell with membership := membership }.record (.reattached membership))

/-- A host answers a call: it fails without an effect, or has the call's effect. -/
def hostStep (o : HostOracle) (call : HostCall) (cell : HostCell) :
    Except AdapterError call.Value × HostCell :=
  match o.fault cell.log.length with
  | some error => (.error error, cell.record (.failed call error))
  | none =>
      let done := hostEffect o cell.log.length call cell
      (.ok done.1, done.2)

/-- What the database's `n`-th call returns and does when it succeeds. -/
def dbEffect (o : DbOracle) (n : Nat) (call : DbCall) (db : Database) : call.Value × Database :=
  match call with
  | .currentRevision => (db.revision, db.record (.read db.revision))
  | .up target =>
      let done := o.up n target db.revision
      (done.1, { db with revision := done.2 }.record (.upgraded target done.1))
  | .downTo target =>
      (o.downTo n target, { db with revision := some target }.record (.downgraded target))
  | .verify => (o.verify n, db.record (.verified (o.verify n)))

/-- The database answers a call: it fails without an effect, or has the call's effect. -/
def dbStep (o : DbOracle) (call : DbCall) (db : Database) :
    Except AdapterError call.Value × Database :=
  match o.fault db.log.length with
  | some error => (.error error, db.record (.failed call error))
  | none =>
      let done := dbEffect o db.log.length call db
      (.ok done.1, done.2)

/-- The fleet answers a command. -/
def fleet (o : FleetOracle) : Handler FleetSig Fleet
  | .host host call, s =>
      ((hostStep (o.host host) call (s.hosts host)).1,
        s.setHost host (hostStep (o.host host) call (s.hosts host)).2)
  | .db call, s => ((dbStep o.db call s.db).1, { s with db := (dbStep o.db call s.db).2 })
  | .query query, s => (o.query s.queries query, { s with queries := s.queries + 1 })

/-! ## The adapters of a fleet -/

/-- Ask one host. -/
def onHost (host : HostId) (call : HostCall) : Prog FleetSig (Except AdapterError call.Value) :=
  @Prog.perform FleetSig (.host host call)

/-- Ask the database. -/
def onDb (call : DbCall) : Prog FleetSig (Except AdapterError call.Value) :=
  @Prog.perform FleetSig (.db call)

/-- Ask a question. -/
def ask (query : Query) : Prog FleetSig query.Answer :=
  @Prog.perform FleetSig (.query query)

/-- The configuration of a deploy to a fleet. Validation refuses an inventory that names a
host twice. -/
structure FleetPlan where
  fraise : String
  environment : String
  strategy : RolloutStrategy
  inventory : List HostEntry
  distinct : (inventory.map HostEntry.host).Nodup
  ctx : AdapterCtx
  target : Option Revision
  forwardCompatibleLint : Bool
  policy : Option Policy
  approvalHook : Bool
  databaseReadiness : Bool
  ownsDatabase : Bool

/-- The deploy a plan configures, with every adapter acting on the fleet. -/
def FleetPlan.deploy (plan : FleetPlan) : MultiHostDeploy FleetSig where
  fraise := plan.fraise
  environment := plan.environment
  strategy := plan.strategy
  inventory := plan.inventory
  ctx := plan.ctx
  target := plan.target
  forwardCompatibleLint := plan.forwardCompatibleLint
  policy := ⟨plan.policy, if plan.approvalHook then some fun r => ask (.approve r) else none⟩
  databaseReadiness :=
    if plan.databaseReadiness then some ⟨fun dsn => ask (.unready dsn)⟩ else none
  os := ⟨fun name => ask (.var name), fun path => ask (.isDir path)⟩
  artifact := ⟨fun _ host => onHost host .stage, fun _ host a => onHost host (.activate a)⟩
  migration :=
    { describe := ask .describe
      currentRevision := fun _ => onDb .currentRevision
      up := fun _ target => onDb (.up target)
      downTo := fun _ target => onDb (.downTo target)
      verify := fun _ => onDb .verify
      preflight := fun _ => ask .preflight
      ownsDatabase := plan.ownsDatabase }
  service := ⟨fun _ host => onHost host .restart, fun _ host => onHost host .status⟩
  health := ⟨fun _ host => onHost host .check⟩
  lb := ⟨fun _ host => onHost host .drain, fun _ host m => onHost host (.reattach m)⟩

/-- The database checks of a plan only ask questions. -/
theorem FleetPlan.runDatabaseChecks_sequential (plan : FleetPlan) :
    plan.deploy.runDatabaseChecks.Sequential (fun c => ∃ q, c = FleetCall.query q) := by
  refine MultiHostDeploy.runDatabaseChecks_sequential ?_ ?_ ?_ ?_ ?_
  · exact fun name => .perform ⟨_, rfl⟩
  · intro probe hprobe dsn
    simp only [deploy] at hprobe
    split at hprobe
    · cases hprobe
      exact .perform ⟨_, rfl⟩
    · cases hprobe
  · exact .perform ⟨_, rfl⟩
  · exact .perform ⟨_, rfl⟩
  · intro hook hhook request
    simp only [deploy] at hhook
    split at hhook
    · cases hhook
      exact .perform ⟨_, rfl⟩
    · cases hhook

/-! ## Single calls -/

section Calls

variable {o : FleetOracle} {t : Fleet}

/-- A host call fails without an effect or has its effect. -/
theorem wp_onHost {host : HostId} {call : HostCall}
    {Q : Except AdapterError call.Value → Fleet → Prop}
    (herror : ∀ error, Q (.error error)
      (t.setHost host ((t.hosts host).record (.failed call error))))
    (hok : ∀ n, Q (.ok (hostEffect (o.host host) n call (t.hosts host)).1)
      (t.setHost host (hostEffect (o.host host) n call (t.hosts host)).2)) :
    wp (fleet o) Eq Guarantee.any (onHost host call) Q t := by
  refine wp_perform.mpr ⟨trivial, ?_⟩
  simp only [fleet, hostStep]
  split
  · exact herror _
  · exact hok _

/-- A database call fails without an effect or has its effect. -/
theorem wp_onDb {call : DbCall} {Q : Except AdapterError call.Value → Fleet → Prop}
    (herror : ∀ error, Q (.error error) { t with db := t.db.record (.failed call error) })
    (hok : ∀ n, Q (.ok (dbEffect o.db n call t.db).1)
      { t with db := (dbEffect o.db n call t.db).2 }) :
    wp (fleet o) Eq Guarantee.any (onDb call) Q t := by
  refine wp_perform.mpr ⟨trivial, ?_⟩
  simp only [fleet, dbStep]
  split
  · exact herror _
  · exact hok _

end Calls

/-! ## Reasoning about one host -/

/-- A fleet as hosts and everything else. -/
def hostsOf : Components Fleet HostId HostCell (Database × Nat) where
  get s := s.hosts
  frame s := (s.db, s.queries)

/-- The guarantee that only hosts are called. -/
def HostOnly : Guarantee FleetSig Fleet :=
  fun _ c _ => ∃ host call, c = .host host call

theorem fleet_host_local (o : FleetOracle) (host : HostId) (call : HostCall) :
    hostsOf.LocalCommand (fleet o) HostOnly host (FleetCall.host host call : FleetSig.Cmd)
      (hostStep (o.host host) call) := by
  intro s
  refine ⟨rfl, by simp [hostsOf, fleet, Fleet.setHost], ⟨host, call, rfl⟩, rfl, ?_⟩
  intro j hj
  simp [hostsOf, fleet, Fleet.setHost, hj]

/-- A task on one host, by what it does to that host. -/
def hostWp {α : Type} (o : FleetOracle) (hosts : List HostId) (host : HostId)
    (p : Prog FleetSig α) (Q : α → HostCell → Prop) (cell : HostCell) : Prop :=
  hostsOf.localWp (fleet o) HostOnly hosts host p Q cell

section HostRules

variable {α β : Type} {o : FleetOracle} {hosts : List HostId} {host : HostId} {cell : HostCell}

theorem hostWp_ret {a : α} {Q : α → HostCell → Prop} (hQ : Q a cell) :
    hostWp o hosts host (.ret a) Q cell :=
  Components.localWp_ret hQ

theorem hostWp_bind {p : Prog FleetSig α} {f : α → Prog FleetSig β} {Q : β → HostCell → Prop}
    (hp : hostWp o hosts host p (fun a c => hostWp o hosts host (f a) Q c) cell) :
    hostWp o hosts host (p >>= f) Q cell :=
  Components.localWp_bind hp

theorem hostWp_post {p : Prog FleetSig α} {Q Q' : α → HostCell → Prop}
    (hQ : ∀ a c, Q a c → Q' a c) (hp : hostWp o hosts host p Q cell) :
    hostWp o hosts host p Q' cell :=
  Components.localWp_post hQ hp

theorem hostWp_onHost (hhost : host ∈ hosts) {call : HostCall}
    {Q : Except AdapterError call.Value → HostCell → Prop}
    (hQ : Q (hostStep (o.host host) call cell).1 (hostStep (o.host host) call cell).2) :
    hostWp o hosts host (onHost host call) Q cell :=
  Components.localWp_perform hhost (fleet_host_local o host call) hQ

end HostRules

/-! ## A fleet of one host

The host runs `v1` and would stage `v2`, and the calls with the given numbers fail. -/

namespace OneHost

/-- The only host. -/
def web : HostEntry :=
  ⟨⟨"web-1"⟩, "10.0.0.1"⟩

/-- A release. -/
def release (id : String) : StagedArtifact :=
  ⟨⟨id, none⟩, "/srv/app/releases/" ++ id⟩

/-- The host's answers: it fails the calls in `faults`. -/
def hostOracle (faults : List Nat) : HostOracle where
  fault n := if n ∈ faults then some (.new .execution "connection refused") else none
  status _ := ⟨true, none⟩
  staged _ := release "v2"
  health _ := ⟨true, none⟩
  afterDrain membership := { membership with state := .removed }

/-- The database's answers: `up` applies the revision it is asked for, or the next one. -/
def dbOracle : DbOracle where
  fault _ := none
  up _ target current :=
    let revision := target.getD ⟨"0002"⟩
    (⟨current, some revision, [revision], ""⟩, some revision)
  downTo _ target := ⟨some ⟨"0002"⟩, some target, [], ""⟩
  verify _ := ⟨true, [], false⟩

/-- The answers to the questions, for deploys that ask none of them. -/
def answers : (q : Query) → q.Answer
  | .describe => .error (.new .execution "not asked")
  | .preflight => .error (.new .execution "not asked")
  | .unready _ => .ok []
  | .approve _ => .denied "not asked"
  | .var _ => .error .notPresent
  | .isDir _ => false
  | .provision _ _ => .error (.provision "not asked")
  | .rehearse _ _ => .error (.new .execution "not asked")
  | .teardown _ => .ok ()

/-- The answers of the fleet. -/
def oracle (faults : List Nat) : FleetOracle :=
  ⟨fun _ => hostOracle faults, dbOracle, fun _ q => answers q⟩

/-- The fleet. -/
def start : Fleet where
  hosts _ := ⟨some (release "v1"), some (release "v1"), ⟨.inPool, some 10⟩, []⟩
  db := ⟨some ⟨"0001"⟩, []⟩
  queries := 0

end OneHost

end Fraisier.Core
