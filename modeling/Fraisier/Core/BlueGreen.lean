import Fraisier.Core.Drill
import Fraisier.Saga.Engine
import Mathlib.Algebra.Group.Nat.Defs

/-!
# The blue-green deploy

Seven steps over two fleets: preflight, provision green, migrate, health gate, swap the
traffic, hold and reap blue. A rollback swaps the traffic back and reaps green; the
database is never rolled back. `buildBlueGreen` wires the steps to the adapters: which
unit is green, and which traffic target, is fixed by the configuration.
-/

namespace Fraisier.Core

open Fraisier.Effect Fraisier.Saga
open Fraisier.Data (Json)

variable {T : Sig}

/-! ## The axes -/

/-- A fleet that traffic can be pointed at. -/
structure TrafficTarget where
  name : String
deriving DecidableEq

/-- What a swap returns. -/
structure SwapToken where
  target : TrafficTarget
deriving DecidableEq

/-- The traffic axis. -/
structure TrafficDirector (T : Sig) where
  currentTarget : AdapterCtx → Prog T (Except AdapterError TrafficTarget)
  switchTo : AdapterCtx → TrafficTarget → Prog T (Except AdapterError SwapToken)

/-- What the flow does with the two fleets. A hold is given in seconds. -/
structure FleetOps (T : Sig) where
  provisionGreen : AdapterCtx → Prog T (Except String Unit)
  greenHealthy : AdapterCtx → Prog T Bool
  watchGreen : AdapterCtx → Nat → Prog T (Except String Unit)
  reapGreen : AdapterCtx → Prog T (Except String Unit)
  reapBlue : AdapterCtx → Prog T (Except String Unit)

/-- The connections of the shared database. -/
structure BudgetSnapshot where
  maxConnections : Nat
  current : Nat

/-- The verdict on the connections of two fleets. -/
inductive BudgetVerdict where
  | ok
  | warn (message : String)
  | refuse (reason : String)
deriving DecidableEq

/-- A probe of the shared database's connections. -/
structure ConnectionBudget (T : Sig) where
  probe : AdapterCtx → Prog T (Except String BudgetSnapshot)

/-- Addition of 32-bit numbers that stops at the largest one. -/
def saturatingAdd (a b : Nat) : Nat :=
  min (a + b) (2 ^ 32 - 1)

/-- Decide whether the pool of green fits beside the connections in use. -/
def BudgetSnapshot.evaluate (snapshot : BudgetSnapshot) (greenPool margin : Nat) : BudgetVerdict :=
  let projected := saturatingAdd snapshot.current greenPool
  let max := snapshot.maxConnections
  if max < projected then
    let current := snapshot.current
    .refuse (s!"blue-green would need {projected} connections (current {current} + green pool " ++
             s!"{greenPool}) but max_connections is {max}: refusing before the swap " ++
             "(raise max_connections or shrink the pool)")
  else if max - margin < projected then
    .warn (s!"blue-green will use {projected}/{max} connections — within the {margin}-" ++
      "connection safety margin")
  else .ok

/-! ## The flow -/

/-- A configured blue-green deploy. -/
structure BlueGreenDeploy (T : Sig) where
  fraise : String
  environment : String
  ctx : AdapterCtx
  green : TrafficTarget
  hold : Nat
  greenPool : Nat
  budgetMargin : Nat
  policy : PolicyGate T
  databaseReadiness : Option (DatabaseReadiness T)
  os : Os T
  migration : MigrationAdapter T
  traffic : TrafficDirector T
  fleet : FleetOps T
  budget : Option (ConnectionBudget T)

/-- The run state of a blue-green deploy. -/
structure BgRuntime where
  priorTarget : Option TrafficTarget
  greenProvisioned : Bool

/-- The run state a deploy starts with. -/
def BgRuntime.default : BgRuntime :=
  ⟨none, false⟩

namespace BlueGreenDeploy

variable (d : BlueGreenDeploy T)

/-- Check the database's readiness, if a probe is configured. -/
def checkReadiness : Prog T (Except SagaError Unit) :=
  match d.databaseReadiness with
  | some probe => probe.check d.os d.ctx
  | none => .ret (.ok ())

/-- Check the connections, if a probe is configured. -/
def checkBudget : Prog T (Except SagaError Unit) :=
  match d.budget with
  | none => .ret (.ok ())
  | some budget => do
      match ← budget.probe d.ctx with
      | .error error =>
          return .error (.stepFailed "preflight" s!"connection-budget probe: {error}")
      | .ok snapshot =>
        match snapshot.evaluate d.greenPool d.budgetMargin with
        | .refuse reason => return .error (.stepFailed "preflight" reason)
        | .warn _ => return .ok ()
        | .ok => return .ok ()

/-- The gates before anything is touched: readiness, the window-safety baseline with the
policy, and the connections. -/
def runPreflight : Prog T (Except SagaError Unit) := do
  match ← d.checkReadiness with
  | .error error => return .error error
  | .ok () =>
    match ← inspect d.migration d.ctx with
    | .error error =>
        return .error (.stepFailed "preflight"
          s!"cannot certify the migration for the hold window: {error}")
    | .ok inspection =>
      match ← d.policy.admit .windowSafety inspection.capabilities inspection.report d.ctx with
      | .error reason => return .error (.stepFailed "preflight" reason)
      | .ok () => d.checkBudget

/-- Start green. It takes no traffic until the swap. -/
def runProvisionGreen (runtime : BgRuntime) : Prog T (Except SagaError Unit × BgRuntime) := do
  match ← d.fleet.provisionGreen d.ctx with
  | .error error => return (.error (.stepFailed "provision-green" error), runtime)
  | .ok () => return (.ok (), { runtime with greenProvisioned := true })

/-- Migrate the shared database. -/
def runMigrate : Prog T (Except SagaError Unit) := do
  match ← d.migration.up d.ctx none with
  | .error error => return .error (.stepFailed "migrate" (toString error))
  | .ok _ => return .ok ()

/-- The gate before any traffic moves. -/
def runHealthGate : Prog T (Except SagaError Unit) := do
  if ← d.fleet.greenHealthy d.ctx then return .ok ()
  else return .error (.stepFailed "health-gate-green"
    "green failed its pre-swap health gate; traffic was not moved")

/-- Point the traffic at green, keeping where it pointed. -/
def runSwap (runtime : BgRuntime) : Prog T (Except SagaError Unit × BgRuntime) := do
  match ← d.traffic.currentTarget d.ctx with
  | .error error => return (.error (.stepFailed "swap-traffic" (toString error)), runtime)
  | .ok prior =>
    let runtime := { runtime with priorTarget := some prior }
    match ← d.traffic.switchTo d.ctx d.green with
    | .error error => return (.error (.stepFailed "swap-traffic" (toString error)), runtime)
    | .ok _ => return (.ok (), runtime)

/-- Point the traffic back. -/
def undoSwap (runtime : BgRuntime) : Prog T (Except SagaError Unit) :=
  match runtime.priorTarget with
  | none => .ret (.ok ())
  | some prior => do
      match ← d.traffic.switchTo d.ctx prior with
      | .error error => return .error (.stepFailed "swap-traffic" (toString error))
      | .ok _ => return .ok ()

/-- Keep blue hot while green is watched. -/
def runHold : Prog T (Except SagaError Unit) := do
  match ← d.fleet.watchGreen d.ctx d.hold with
  | .error error => return .error (.stepFailed "hold" error)
  | .ok () => return .ok ()

/-- Decommission blue. -/
def runReap : Prog T (Except SagaError Unit) := do
  match ← d.fleet.reapBlue d.ctx with
  | .error error => return .error (.stepFailed "reap" error)
  | .ok () => return .ok ()

/-- Decommission green, if this run provisioned it. -/
def undoProvisionGreen (runtime : BgRuntime) : Prog T (Except SagaError Unit) :=
  if runtime.greenProvisioned then do
    match ← d.fleet.reapGreen d.ctx with
    | .error error => return .error (.stepFailed "provision-green" error)
    | .ok () => return .ok ()
  else .ret (.ok ())

/-- The phases of a deploy. -/
inductive Phase where
  | preflight
  | provisionGreen
  | migrate
  | healthGateGreen
  | swapTraffic
  | hold
  | reap
deriving DecidableEq

/-- The step name of a phase. -/
def Phase.stepName : Phase → String
  | .preflight => "preflight"
  | .provisionGreen => "provision-green"
  | .migrate => "migrate"
  | .healthGateGreen => "health-gate-green"
  | .swapTraffic => "swap-traffic"
  | .hold => "hold"
  | .reap => "reap"

/-- An action that leaves the run state alone. -/
def keeping (runtime : BgRuntime) (action : Prog T (Except SagaError Unit)) :
    Prog T (Except SagaError Unit × BgRuntime) := do
  let result ← action
  return (result, runtime)

/-- What a phase does. -/
def forward (phase : Phase) (runtime : BgRuntime) :
    Prog T (Except SagaError Unit × BgRuntime) :=
  match phase with
  | .preflight => keeping runtime d.runPreflight
  | .provisionGreen => d.runProvisionGreen runtime
  | .migrate => keeping runtime d.runMigrate
  | .healthGateGreen => keeping runtime d.runHealthGate
  | .swapTraffic => d.runSwap runtime
  | .hold => keeping runtime d.runHold
  | .reap => keeping runtime d.runReap

/-- How a phase is undone. -/
def compensate (phase : Phase) (runtime : BgRuntime) :
    Prog T (Except SagaError Unit × BgRuntime) :=
  match phase with
  | .swapTraffic => keeping runtime (d.undoSwap runtime)
  | .provisionGreen => keeping runtime (d.undoProvisionGreen runtime)
  | _ => .ret (.ok (), runtime)

/-- The step of a phase. -/
def step (phase : Phase) : Step T BgRuntime where
  name := phase.stepName
  forward _ runtime := d.forward phase runtime
  compensate _ runtime := d.compensate phase runtime

/-- The steps of a deploy. -/
def steps : List (Step T BgRuntime) :=
  [.preflight, .provisionGreen, .migrate, .healthGateGreen, .swapTraffic, .hold, .reap].map d.step

/-- The pair a deploy targets. -/
def key : FraiseKey :=
  ⟨d.fraise, d.environment⟩

/-- Run the deploy. -/
def run [CharTables] : Prog (StoreSig.sum T) (Except SagaError SagaOutcome) := do
  let (outcome, _) ← runWithState d.key d.steps .default
  return outcome

end BlueGreenDeploy

/-! ## The fleets of a configuration -/

/-- The green fleet over the artifact, service and health adapters. Units are stopped with
`systemctl`, whatever the service adapter is. -/
structure AdapterFleet (T : Sig) where
  host : HostId
  baseCtx : AdapterCtx
  artifact : ArtifactAdapter T
  service : ServiceAdapter T
  health : HealthAdapter T
  greenUnit : String
  greenHealthUrl : String
  greenActivePath : Option String
  greenStagingDir : Option String
  blueUnit : String
  user : Bool
  systemctl : List String → Prog T (Except String Captured)
  sleep : Nat → Prog T Unit

/-- How often green is polled within the hold window, in seconds. -/
def holdPoll : Nat := 2

namespace AdapterFleet

variable (f : AdapterFleet T)

/-- The context of green's operations: its unit, its probe and its paths. -/
def greenCtx : AdapterCtx :=
  let settings := Data.insertEntry (Data.insertEntry f.baseCtx.settings "unit" (.str f.greenUnit))
    "url" (.str f.greenHealthUrl)
  let settings := (f.greenActivePath.map fun path =>
    Data.insertEntry settings "active_path" (.str path)).getD settings
  let settings := (f.greenStagingDir.map fun dir =>
    Data.insertEntry settings "staging_dir" (.str dir)).getD settings
  { f.baseCtx with settings := settings }

theorem lookup_greenCtx_unit : f.greenCtx.settings.lookup "unit" = some (.str f.greenUnit) := by
  unfold greenCtx
  cases f.greenActivePath <;> cases f.greenStagingDir <;> simp

/-- Stop a unit. -/
def stopUnit (unit : String) : Prog T (Except String Unit) := do
  match ← f.systemctl ((if f.user then ["--user"] else []) ++ ["stop", unit]) with
  | .error cause => return .error s!"spawning `systemctl stop {unit}`: {cause}"
  | .ok captured =>
    if captured.succeeded then return .ok ()
    else return .error (Data.trim captured.stderr)

/-- Stage, activate and restart green. -/
def provisionGreen : Prog T (Except String Unit) := do
  match ← f.artifact.stage f.greenCtx f.host with
  | .error error => return .error (toString error)
  | .ok staged =>
    match ← f.artifact.activate f.greenCtx f.host staged with
    | .error error => return .error (toString error)
    | .ok () =>
      match ← f.service.restart f.greenCtx f.host with
      | .error error => return .error (toString error)
      | .ok () => return .ok ()

/-- Whether green answers its probe. -/
def greenHealthy : Prog T Bool := do
  match ← f.health.check f.greenCtx f.host with
  | .error _ => return false
  | .ok status => return status.healthy

/-- Poll green some number of times. -/
def watchPolls : Nat → Prog T (Except String Unit)
  | 0 => .ret (.ok ())
  | polls + 1 => do
      if ← f.greenHealthy then
        f.sleep holdPoll
        watchPolls polls
      else return .error "green degraded during the hold window"

/-- Poll green until the window has passed. -/
def watchGreen (hold : Nat) : Prog T (Except String Unit) :=
  f.watchPolls ((hold + holdPoll - 1) / holdPoll)

/-- The fleet operations. -/
def ops : FleetOps T where
  provisionGreen _ := f.provisionGreen
  greenHealthy _ := f.greenHealthy
  watchGreen _ hold := f.watchGreen hold
  reapGreen _ := f.stopUnit f.greenUnit
  reapBlue _ := f.stopUnit f.blueUnit

end AdapterFleet

/-! ## The service adapters -/

/-- The service adapters that are built in. -/
inductive ServiceKind where
  | systemd
  | rc
  | dockerCompose
deriving DecidableEq

/-- The setting a service adapter takes its service from. -/
def ServiceKind.setting : ServiceKind → String
  | .systemd => "unit"
  | .rc => "name"
  | .dockerCompose => "compose_service"

/-- The name of a service adapter. -/
def ServiceKind.asStr : ServiceKind → String
  | .systemd => "systemd"
  | .rc => "rc"
  | .dockerCompose => "docker-compose"

/-- A service of a host. -/
structure Service where
  kind : ServiceKind
  name : String
deriving DecidableEq

/-- The service a context names, unless its name is empty. -/
def ServiceKind.service (kind : ServiceKind) (ctx : AdapterCtx) : Option Service :=
  (((ctx.settings.lookup kind.setting).bind Json.asStr).filter fun name => !name.isEmpty).map
    (Service.mk kind)

theorem ServiceKind.service_eq {kind : ServiceKind} {ctx : AdapterCtx} {name : String}
    {service : Service} (hsetting : ctx.settings.lookup kind.setting = some (.str name))
    (h : kind.service ctx = some service) : service = ⟨kind, name⟩ := by
  obtain ⟨found, hfound, rfl⟩ := Option.map_eq_some_iff.mp h
  rw [hsetting] at hfound
  obtain ⟨hname, -⟩ := Option.filter_eq_some_iff.mp hfound
  cases hname
  rfl

/-- The service adapter of a kind: it restarts the service its context names. -/
def ServiceKind.adapter (kind : ServiceKind)
    (restart : Service → Prog T (Except AdapterError Unit))
    (status : AdapterCtx → HostId → Prog T (Except AdapterError ServiceStatus)) :
    ServiceAdapter T where
  restart ctx _ :=
    match kind.service ctx with
    | some service => restart service
    | none =>
        let setting := kind.setting
        .ret (.error (.tagged .invalidConfig kind.asStr "restart"
          s!"no '{setting}' configured in [service] settings" none))
  status := status

/-! ## The configuration -/

/-- The `[blue_green]` section, as far as the deploy reads it. -/
structure BlueGreenSection where
  green : Option String
  greenUnit : Option String
  greenHealthUrl : Option String
  greenActivePath : Option String
  greenStagingDir : Option String
  holdSecs : Option Nat
  greenPool : Option Nat
  connectionMargin : Option Nat

/-- The configuration of a blue-green deploy. `settings` and `envSecrets` are what its
sections contribute to the call context. -/
structure BlueGreenConfig where
  deploy : Option DeploySection
  blueGreen : Option BlueGreenSection
  serviceUnit : Option String
  serviceUser : Option Bool
  databaseUrlEnv : Option String
  migrationsPath : Option String
  settings : List (String × Json)
  envSecrets : List (String × String)

/-- The adapters a blue-green deploy is built from. `connections` probes the database of a
variable. -/
structure BlueGreenAxes (T : Sig) where
  host : HostId
  os : Os T
  artifact : ArtifactAdapter T
  service : ServiceAdapter T
  health : HealthAdapter T
  migration : MigrationAdapter T
  traffic : TrafficDirector T
  policy : PolicyGate T
  readiness : Option (DatabaseReadiness T)
  connections : String → ConnectionBudget T
  systemctl : List String → Prog T (Except String Captured)
  sleep : Nat → Prog T Unit

/-- The context of a configuration. -/
def BlueGreenConfig.callCtx (config : BlueGreenConfig) (host : HostId)
    (fraise environment : String) : AdapterCtx :=
  { AdapterCtx.new fraise environment with
    host := some host
    migrationsPath := config.migrationsPath
    envSecrets := config.envSecrets
    settings := config.settings }

/-- A required field, or the message about it. -/
def required {α : Type} (field : Option α) (message : String) : Except String α :=
  match field with
  | some value => .ok value
  | none => .error message

/-- Build the deploy of a configuration. -/
def buildBlueGreen (axes : BlueGreenAxes T) (config : BlueGreenConfig) :
    Except String (BlueGreenDeploy T) := do
  let deploy ← required config.deploy "missing [deploy] section"
  let fraise ← required deploy.name "[deploy].name is required"
  let environment ← required deploy.environment "[deploy].environment is required"
  let bg ← required config.blueGreen
    "[deploy].strategy = \"blue-green\" requires a [blue_green] section"
  let blueUnit ← required config.serviceUnit
    "blue-green requires [service].unit (the blue fleet's unit)"
  let greenUnit ← required bg.greenUnit "[blue_green].green_unit is required"
  let greenHealthUrl ← required bg.greenHealthUrl "[blue_green].green_health_url is required"
  let ctx := config.callCtx axes.host fraise environment
  let fleet : AdapterFleet T :=
    { host := axes.host
      baseCtx := ctx
      artifact := axes.artifact
      service := axes.service
      health := axes.health
      greenUnit := greenUnit
      greenHealthUrl := greenHealthUrl
      greenActivePath := bg.greenActivePath
      greenStagingDir := bg.greenStagingDir
      blueUnit := blueUnit
      user := config.serviceUser.getD false
      systemctl := axes.systemctl
      sleep := axes.sleep }
  return {
    fraise := fraise
    environment := environment
    ctx := ctx
    green := ⟨bg.green.getD "green"⟩
    hold := bg.holdSecs.getD 30
    greenPool := bg.greenPool.getD 0
    budgetMargin := bg.connectionMargin.getD 10
    policy := axes.policy
    databaseReadiness := axes.readiness
    os := axes.os
    migration := axes.migration
    traffic := axes.traffic
    fleet := fleet.ops
    budget :=
      match config.databaseUrlEnv, bg.greenPool with
      | some name, some _ => some (axes.connections name)
      | _, _ => none }

theorem required_bind_eq_ok {α β : Type} {field : Option α} {message : String}
    {next : α → Except String β} {result : β} (h : (required field message >>= next) = .ok result) :
    ∃ value, field = some value ∧ next value = .ok result := by
  cases field with
  | none => cases h
  | some value => exact ⟨value, rfl, h⟩

/-- What a deploy that was built is made of. -/
structure BlueGreenDeploy.BuiltFrom (d : BlueGreenDeploy T) (axes : BlueGreenAxes T)
    (config : BlueGreenConfig) (f : AdapterFleet T) : Prop where
  fleet : d.fleet = f.ops
  artifact : f.artifact = axes.artifact
  service : f.service = axes.service
  health : f.health = axes.health
  systemctl : f.systemctl = axes.systemctl
  sleep : f.sleep = axes.sleep
  greenUnit : config.blueGreen.bind BlueGreenSection.greenUnit = some f.greenUnit
  blueUnit : config.serviceUnit = some f.blueUnit
  ctx : f.baseCtx = d.ctx
  settings : d.ctx.settings = config.settings
  traffic : d.traffic = axes.traffic
  migration : d.migration = axes.migration
  policy : d.policy = axes.policy
  readiness : d.databaseReadiness = axes.readiness
  os : d.os = axes.os
  budget : ∀ budget, d.budget = some budget → ∃ name, budget = axes.connections name

theorem buildBlueGreen_ok {axes : BlueGreenAxes T} {config : BlueGreenConfig}
    {d : BlueGreenDeploy T} (h : buildBlueGreen axes config = .ok d) :
    ∃ f, d.BuiltFrom axes config f := by
  obtain ⟨deploy, -, h⟩ := required_bind_eq_ok h
  obtain ⟨fraise, -, h⟩ := required_bind_eq_ok h
  obtain ⟨environment, -, h⟩ := required_bind_eq_ok h
  obtain ⟨bg, hbg, h⟩ := required_bind_eq_ok h
  obtain ⟨blueUnit, hblue, h⟩ := required_bind_eq_ok h
  obtain ⟨greenUnit, hgreen, h⟩ := required_bind_eq_ok h
  obtain ⟨greenHealthUrl, -, h⟩ := required_bind_eq_ok h
  cases h
  refine ⟨_, rfl, rfl, rfl, rfl, rfl, rfl, ?_, hblue, rfl, rfl, rfl, rfl, rfl, rfl, rfl, ?_⟩
  · rw [hbg]
    exact hgreen
  · intro budget hbudget
    dsimp only at hbudget
    split at hbudget
    · cases hbudget
      exact ⟨_, rfl⟩
    · cases hbudget

end Fraisier.Core
