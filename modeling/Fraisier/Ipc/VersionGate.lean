import Fraisier.Core.SingleHost
import Fraisier.Core.Tools
import Fraisier.Effect.History
import Fraisier.Ipc.Client

/-!
# The version an adapter reports

An adapter describes itself with the version of the protocol it speaks. A deploy that never
calls an adapter of another version would have to look at it; `migration_gated_iff` and
`artifact_gated_iff` say for which answers a deploy keeps away: for those that report no
other version, on either axis.
-/

namespace Fraisier.Ipc

open Fraisier.Data Fraisier.Effect Fraisier.Core Fraisier.Saga

section Gate

variable [CharTables] [JsonTexts]

/-- The answer to `describe` is a description with another protocol version. -/
def IpcClient.Incompatible (client : IpcClient) (exchange : Exchange) : Prop :=
  ∃ described, client.answer "describe" AdapterDescription.decode exchange = .ok described ∧
    described.protocolVersion ≠ protocolVersion

/-- A process that the client launches. -/
def IpcClient.Launches (client : IpcClient) (launch : Launch) : Prop :=
  ∃ ctx operation, client.command ctx operation = .ok launch

/-- In every deploy with the adapter, if it answers `describe` with `exchange` then it is only
asked to describe itself, unless it is compatible. -/
def Gated (uses : ∀ U : Sig, SingleHostDeploy (IpcSig.sum U) → Prop) (client : IpcClient)
    (exchange : Exchange) : Prop :=
  ∀ (U : Sig) (d : SingleHostDeploy (IpcSig.sum U)) (σ τ : Type) (h : Handler StoreSig σ)
    (g : Handler (IpcSig.sum U) τ) (sched : List Bool) (s : σ) (t : τ), uses U d →
    (∀ request t, request.method = "describe" → (g (.inl request) t).1 = exchange) →
    ∀ e ∈ (d.run.exec (h.prod g) sched (s, t)).rights, ∀ request, e.cmd = .inl request →
      client.Launches request.launch → client.Incompatible exchange → request.method = "describe"

/-- The deploys with the migration adapter of a client. -/
def IpcClient.migrates (client : IpcClient) (U : Sig) (d : SingleHostDeploy (IpcSig.sum U)) :
    Prop :=
  d.migration = ipcMigrationAdapter client

/-- The deploys with the artifact adapter of a client. -/
def IpcClient.fetches (client : IpcClient) (U : Sig) (d : SingleHostDeploy (IpcSig.sum U)) :
    Prop :=
  d.artifact = ipcArtifactAdapter client

/-! ## A deploy with either adapter -/

/-- No other commands. -/
def noSig : Sig where
  Cmd := Empty
  Ans := Empty.elim

/-- An artifact adapter that always has the same release. -/
def fixedArtifact {T : Sig} : ArtifactAdapter T where
  stage _ _ := .ret (.ok ⟨⟨"v2", none⟩, "/srv/api/releases/v2"⟩)
  activate _ _ _ := .ret (.ok ())

/-- A deploy of one host whose other adapters succeed. -/
def sampleDeploy {T : Sig} (lint : Bool) (artifact : ArtifactAdapter T)
    (migration : MigrationAdapter T) : SingleHostDeploy T where
  fraise := "api"
  environment := "prod"
  host := ⟨"web1"⟩
  ctx := .new "api" "prod"
  target := none
  rollbackTo := none
  forwardCompatibleLint := lint
  policy := ⟨none, none⟩
  restoreRehearsal := none
  backupSource := .freshDump
  databaseReadiness := none
  os := ⟨fun _ => .ret (.error .notPresent), fun _ => .ret false⟩
  artifact := artifact
  migration := migration
  service := ⟨fun _ _ => .ret (.ok ()), fun _ _ => .ret (.ok ⟨true, none⟩)⟩
  health := ⟨fun _ _ => .ret (.ok ⟨true, none⟩)⟩

/-- Answer each method with an exchange. -/
def answering (exchanges : String → Exchange) : Handler (IpcSig.sum noSig) Unit
  | .inl request, t => (exchanges request.method, t)
  | .inr c, _ => c.elim

/-- Answer `describe` with an exchange, and find no adapter afterwards. -/
def describing (exchange : Exchange) : Handler (IpcSig.sum noSig) Unit :=
  answering fun method => if method = "describe" then exchange else .notFound

omit [CharTables] [JsonTexts] in
theorem describing_describe {exchange : Exchange} (request : Request) (t : Unit)
    (hdescribe : request.method = "describe") :
    (describing exchange (.inl request) t).1 = exchange :=
  if_pos hdescribe

/-- The context of the sample deploy's calls. -/
def sampleCtx : AdapterCtx :=
  { AdapterCtx.new "api" "prod" with host := some ⟨"web1"⟩ }

/-- A migration that nobody described asks for the current revision. -/
theorem migration_asked (client : IpcClient) (exchange : Exchange) :
    ∃ e ∈ ((sampleDeploy false fixedArtifact (ipcMigrationAdapter client)).run.exec
      (memoryStore.prod (describing exchange)) [] (MemoryStore.empty, ())).rights,
      ∃ request, e.cmd = .inl request ∧ client.Launches request.launch ∧
        request.method = "current_revision" := by
  obtain ⟨program, args, envs, name, timeout, launcher⟩ := client
  cases launcher with
  | «local» =>
      exact ⟨_, List.mem_of_getElem? (i := 0) rfl, _, rfl, ⟨some sampleCtx, "", rfl⟩, rfl⟩
  | ssh ssh =>
      obtain ⟨ssh, options, user⟩ := ssh
      cases user with
      | none =>
          exact ⟨_, List.mem_of_getElem? (i := 0) rfl, _, rfl, ⟨some sampleCtx, "", rfl⟩, rfl⟩
      | some user =>
          exact ⟨_, List.mem_of_getElem? (i := 0) rfl, _, rfl, ⟨some sampleCtx, "", rfl⟩, rfl⟩

/-- A fetch stages. -/
theorem artifact_asked (client : IpcClient) (exchange : Exchange) :
    ∃ e ∈ ((sampleDeploy false (ipcArtifactAdapter client) noDatabase).run.exec
      (memoryStore.prod (describing exchange)) [] (MemoryStore.empty, ())).rights,
      ∃ request, e.cmd = .inl request ∧ client.Launches request.launch ∧
        request.method = "stage" := by
  obtain ⟨program, args, envs, name, timeout, launcher⟩ := client
  cases launcher with
  | «local» =>
      exact ⟨_, List.mem_of_getElem? (i := 0) rfl, _, rfl, ⟨some sampleCtx, "", rfl⟩, rfl⟩
  | ssh ssh =>
      obtain ⟨ssh, options, user⟩ := ssh
      cases user with
      | none =>
          exact ⟨_, List.mem_of_getElem? (i := 0) rfl, _, rfl, ⟨some sampleCtx, "", rfl⟩, rfl⟩
      | some user =>
          exact ⟨_, List.mem_of_getElem? (i := 0) rfl, _, rfl, ⟨some sampleCtx, "", rfl⟩, rfl⟩

/-! ## Which answers keep a deploy away -/

/-- A deploy keeps away from an adapter exactly when there is nothing to keep away from: its
answer to `describe` reports no other version. -/
theorem gated_iff (client : IpcClient) (exchange : Exchange) :
    (Gated client.migrates client exchange ↔ ¬ client.Incompatible exchange) ∧
      (Gated client.fetches client exchange ↔ ¬ client.Incompatible exchange) := by
  refine ⟨⟨?_, ?_⟩, ⟨?_, ?_⟩⟩
  · intro hgated hincompatible
    obtain ⟨e, he, request, hcmd, hlaunch, hmethod⟩ := migration_asked client exchange
    have hdescribe := hgated noSig (sampleDeploy false fixedArtifact (ipcMigrationAdapter client))
      _ _ memoryStore (describing exchange) [] .empty () rfl describing_describe e he request hcmd
      hlaunch hincompatible
    exact absurd (hmethod.symm.trans hdescribe) (by decide)
  · intro hcompatible U d σ τ h g sched s t _ _ e _ request _ _ hincompatible
    exact (hcompatible hincompatible).elim
  · intro hgated hincompatible
    obtain ⟨e, he, request, hcmd, hlaunch, hmethod⟩ := artifact_asked client exchange
    have hdescribe := hgated noSig (sampleDeploy false (ipcArtifactAdapter client) noDatabase)
      _ _ memoryStore (describing exchange) [] .empty () rfl describing_describe e he request hcmd
      hlaunch hincompatible
    exact absurd (hmethod.symm.trans hdescribe) (by decide)
  · intro hcompatible U d σ τ h g sched s t _ _ e _ request _ _ hincompatible
    exact (hcompatible hincompatible).elim

end Gate

/-! ## An adapter of another version -/

/-- A response with a result. -/
def result (value : Json) : Exchange :=
  .responded (.ok (.obj [("jsonrpc", .str "2.0"), ("id", .int 1), ("result", value)])) ""

/-- An adapter of the second protocol version that answers every method of a deploy. -/
def versionTwo (method : String) : Exchange :=
  if method = "describe" then
    result (.obj [("name", .str "sqlx"), ("version", .str "0.9.0"), ("protocol_version", .int 2),
      ("capabilities", .arr [])])
  else if method = "current_revision" then result (.str "0001")
  else if method = "up" then
    result (.obj [("from", .str "0001"), ("to", .str "0002"), ("applied", .arr [.str "0002"]),
      ("log", .str "")])
  else result (.obj [("ok", .bool true), ("checks", .arr [])])

/-- Some texts of the JSON library. -/
@[reducible] def sampleTexts : JsonTexts :=
  ⟨fun _ => "null", fun _ _ => "invalid type"⟩

/-- A client of a migration adapter. -/
def sampleClient : IpcClient where
  program := "fraisier-adapter-sqlx"
  args := []
  envs := [("DATABASE_URL", "postgres://localhost/app")]
  name := "sqlx"
  timeout := "60s"
  launcher := .local

/-- The run of a deploy that lints with the adapter of the second version. -/
def versionTwoRun : Run (StoreSig.sum (IpcSig.sum noSig)) (MemoryStore × Unit)
    (Except DeployError SagaOutcome) :=
  let _ : JsonTexts := sampleTexts
  (sampleDeploy true fixedArtifact (ipcMigrationAdapter sampleClient)).run.exec
    (memoryStore.prod (answering versionTwo)) [] (MemoryStore.empty, ())

/-- The method of a call. -/
def methodOf : Event (IpcSig.sum noSig) → String
  | ⟨.inl request, _⟩ => request.method
  | ⟨.inr c, _⟩ => c.elim

/-- The adapter reports another version, and the deploy migrates with it and commits. -/
theorem versionTwo_migrates :
    (let _ : JsonTexts := sampleTexts
     sampleClient.Incompatible (versionTwo "describe")) ∧
    versionTwoRun.rights.map methodOf = ["describe", "current_revision", "up", "verify"] ∧
    versionTwoRun.value = .ok .committed :=
  ⟨⟨⟨"sqlx", "0.9.0", 2, []⟩, rfl, by decide⟩, rfl, rfl⟩

end Fraisier.Ipc
