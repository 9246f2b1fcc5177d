import Fraisier.Core.RiskContract
import Fraisier.Core.Ledger
import Fraisier.Saga.Redact

/-!
# Adapters in other processes

A method of an out-of-process adapter launches a child, sends it one JSON-RPC request and
decodes its one response. `IpcClient.call` is that, for every axis; the migration and the
artifact adapter name the methods and what they return.
-/

namespace Fraisier.Ipc

open Fraisier.Data Fraisier.Effect Fraisier.Core

/-! ## Launching -/

/-- A process to spawn. Variables are set on it beside the scrubbed environment. -/
structure Launch where
  program : String
  args : List String
  envs : List (String × String)
deriving DecidableEq

/-- A token of a shell command: bare when made of safe characters only, else in quotes. -/
def shellQuote (value : String) : String :=
  let safe := !value.isEmpty && value.toList.all fun c =>
    c.isAlphanum || "_-./:=@%+,".toList.contains c
  if safe then value
  else "'" ++ String.ofList (value.toList.flatMap fun c =>
    if c = '\'' then "'\\''".toList else [c]) ++ "'"

/-- A program with its arguments as one command of a remote shell. -/
def remoteCommand (program : String) (args : List String) : String :=
  " ".intercalate ((program :: args).map shellQuote)

/-- A configured `ssh`: the arguments it is called with before the destination, and the
login user. -/
structure SshLauncher where
  program : String
  options : List String
  user : Option String
deriving DecidableEq

/-- Where an adapter process runs. -/
inductive Launcher where
  | local
  | ssh (ssh : SshLauncher)
deriving DecidableEq

/-- The error for a remote call without an address. -/
def noAddress (operation : String) : AdapterError :=
  { AdapterError.new .invalidConfig
      ("the ssh launcher needs a target host address (set the host's [hosts].inventory " ++
       "address)") with
    adapter := some "ssh"
    operation := some operation }

/-- The destination of a call: the configured address of its host, or the host's name. -/
def SshLauncher.destination (ssh : SshLauncher) (ctx : Option AdapterCtx) (operation : String) :
    Except AdapterError String :=
  match ctx with
  | none => .error (noAddress operation)
  | some ctx =>
      let configured := ((ctx.settings.lookup "address").bind Json.asStr).filter fun a => !a.isEmpty
      match configured.or (ctx.host.map HostId.name) with
      | none => .error (noAddress operation)
      | some address =>
          match ssh.user with
          | some user => .ok s!"{user}@{address}"
          | none => .ok address

/-- A JSON-RPC client for an adapter process. The timeout is given as it is displayed. -/
structure IpcClient where
  program : String
  args : List String
  envs : List (String × String)
  name : String
  timeout : String
  launcher : Launcher
deriving DecidableEq

/-- The process a call launches. No variable crosses `ssh`. -/
def IpcClient.command (client : IpcClient) (ctx : Option AdapterCtx) (operation : String) :
    Except AdapterError Launch :=
  match client.launcher with
  | .local => .ok ⟨client.program, client.args, client.envs⟩
  | .ssh ssh =>
      match ssh.destination ctx operation with
      | .error error => .error error
      | .ok destination =>
          .ok ⟨ssh.program, ssh.options ++ [destination, remoteCommand client.program client.args],
            []⟩

/-- The program that is spawned. -/
def IpcClient.spawnProgram (client : IpcClient) : String :=
  match client.launcher with
  | .local => client.program
  | .ssh ssh => ssh.program

/-! ## Exchanges -/

/-- What becomes of a request: the child cannot be spawned, cannot be written to, is killed
after the timeout, cannot be awaited, is not understood, exits without a response, or
responds with a document. -/
inductive Exchange where
  | notFound
  | spawnFailed (error : String)
  | sendFailed (error : String)
  | timedOut (stderr : String)
  | awaitFailed (error stderr : String)
  | readFailed (error stderr : String)
  | noResponse (exit : Option Int) (stderr : String)
  | responded (body : Except String Json) (stderr : String)

/-- A request to a launched process. -/
structure Request where
  launch : Launch
  method : String
  params : Json

/-- The exchanges with adapter processes, as commands. -/
@[reducible] def IpcSig : Sig where
  Cmd := Request
  Ans _ := Exchange

/-- The texts of the JSON library: a document as it is displayed, and what is said of one
that a method's result cannot be read from. -/
class JsonTexts where
  display : Json → String
  mismatch : String → Json → String

/-- How an exit is described. -/
def describeExit : Option Int → String
  | some code => s!"with status {code}"
  | none => "after a signal"

/-- Captured output that says something. -/
def stderrOpt (text : String) : Option String :=
  if trim text = "" then none else some text

namespace IpcClient

variable (client : IpcClient)

/-- An error tagged with the adapter and the operation. -/
def fail (kind : AdapterErrorKind) (operation message : String) (stderr : Option String) :
    AdapterError :=
  { AdapterError.new kind message with
    adapter := some client.name
    operation := some operation
    stderr := stderr }

/-- The response document of an exchange, with what the child wrote to its error output. -/
def received (method : String) :
    Exchange → Except AdapterError (Except String Json × Option String)
  | .notFound =>
      let program := client.spawnProgram
      let name := client.name
      .error (client.fail .execution method
        s!"adapter '{program}' (name '{name}') was not found on PATH" none)
  | .spawnFailed error =>
      let program := client.spawnProgram
      .error (client.fail .execution method s!"failed to spawn adapter '{program}': {error}" none)
  | .sendFailed error =>
      .error (client.fail .protocol method s!"failed to send request: {error}" none)
  | .timedOut stderr =>
      let program := client.spawnProgram
      let timeout := client.timeout
      .error (client.fail .execution method
        s!"adapter '{program}' did not respond within {timeout} and was killed" (stderrOpt stderr))
  | .awaitFailed error stderr =>
      .error (client.fail .execution method s!"failed to await adapter exit: {error}"
        (stderrOpt stderr))
  | .readFailed error stderr =>
      .error (client.fail .protocol method s!"failed to read response: {error}" (stderrOpt stderr))
  | .noResponse exit stderr =>
      let program := client.spawnProgram
      let status := describeExit exit
      .error (client.fail .execution method
        s!"adapter '{program}' exited {status} without sending a response" (stderrOpt stderr))
  | .responded body stderr => .ok (body, stderrOpt stderr)

end IpcClient

/-! ## Responses -/

/-- The protocol version this client speaks. -/
def protocolVersion : Nat := 1

/-- The id of every request: there is one for each process. -/
def requestId : Nat := 1

/-- A JSON-RPC error object. -/
structure RpcError where
  code : Int
  message : String
  data : Option Json

/-- A JSON-RPC response. -/
structure Response where
  id : Option Nat
  result : Option Json
  error : Option RpcError

/-- Read an error object. -/
def RpcError.decode (value : Json) : Option RpcError :=
  if value.isStruct 3 then do
    let code ← (value.member "code" 0).bind Json.asI32
    let message ← (value.member "message" 1).bind Json.asStr
    let data ← Json.defaulted (Json.asOption some) none (value.member "data" 2)
    return ⟨code, message, data⟩
  else none

/-- Read a response. A result that is there and `null` is a result. -/
def Response.decode (value : Json) : Option Response :=
  if value.isStruct 3 then do
    let id ← Json.defaulted (Json.asOption Json.asU64) none (value.member "id" 0)
    let error ← Json.defaulted (Json.asOption RpcError.decode) none (value.member "error" 2)
    return ⟨id, value.member "result" 1, error⟩
  else none

section Call

variable [Saga.CharTables] [JsonTexts] {α : Type}

/-- The error of an adapter's own error object. Its data is stripped of credentials. -/
def IpcClient.remote (client : IpcClient) (method : String) (error : RpcError)
    (stderr : Option String) : AdapterError :=
  let message := match error.data with
    | none => error.message
    | some data =>
        let message := error.message
        let text := JsonTexts.display data
        Saga.Redact.credentials s!"{message} (data: {text})"
  { AdapterError.new .remote message with
    code := error.code
    adapter := some client.name
    operation := some method
    stderr := stderr }

/-- Parse a response into the method's result. -/
def IpcClient.decodeResponse (client : IpcClient) (method : String) (decode : Json → Option α)
    (body : Except String Json) (stderr : Option String) : Except AdapterError α :=
  match body with
  | .error error =>
      .error (client.fail .protocol method s!"invalid JSON-RPC response: {error}" stderr)
  | .ok document =>
    match Response.decode document with
    | none =>
        let error := JsonTexts.mismatch "response" document
        .error (client.fail .protocol method s!"invalid JSON-RPC response: {error}" stderr)
    | some response =>
      if response.id.any (· != requestId) then
        let id := response.id.getD 0
        .error (client.fail .protocol method
          s!"response id {id} did not match request id {requestId}" stderr)
      else
        match response.error, response.result with
        | some error, _ => .error (client.remote method error stderr)
        | none, none =>
            .error (client.fail .protocol method "response had neither result nor error" stderr)
        | none, some result =>
          match decode result with
          | some value => .ok value
          | none =>
              let error := JsonTexts.mismatch method result
              .error (client.fail .protocol method s!"failed to decode result: {error}" stderr)

/-- What a method returns for an exchange. -/
def IpcClient.answer (client : IpcClient) (method : String) (decode : Json → Option α)
    (exchange : Exchange) : Except AdapterError α :=
  match client.received method exchange with
  | .error error => .error error
  | .ok (body, stderr) => client.decodeResponse method decode body stderr

/-- Launch the adapter, send one request and decode its result. -/
def IpcClient.call {U : Sig} (client : IpcClient) (ctx : Option AdapterCtx) (method : String)
    (params : Json) (decode : Json → Option α) : Prog (IpcSig.sum U) (Except AdapterError α) :=
  match client.command ctx method with
  | .error error => .ret (.error error)
  | .ok launch => .call (.inl ⟨launch, method, params⟩) fun exchange =>
      .ret (client.answer method decode exchange)

end Call

/-! ## The axes -/

/-- Read how an adapter describes itself. -/
def AdapterDescription.decode (value : Json) : Option AdapterDescription :=
  if value.isStruct 4 then do
    let name ← (value.member "name" 0).bind Json.asStr
    let version ← (value.member "version" 1).bind Json.asStr
    let protocolVersion ← (value.member "protocol_version" 2).bind Json.asU32
    let capabilities ← (value.member "capabilities" 3).bind fun v =>
      v.asArray.bind (Json.decodeAll Json.asStr)
    return ⟨name, version, protocolVersion, capabilities⟩
  else none

/-- Read a migration outcome. Its revisions may be absent from an object only. -/
def MigrationOutcome.decode : Json → Option MigrationOutcome
  | .obj fields => do
      let fromRevision ← Json.optionField Revision.decode fields "from"
      let toRevision ← Json.optionField Revision.decode fields "to"
      let applied ← Json.field (fun v => v.asArray.bind (Json.decodeAll Revision.decode)) fields
        "applied"
      let log ← Json.field Json.asStr fields "log"
      return ⟨fromRevision, toRevision, applied, log⟩
  | .arr [source, target, applied, log] => do
      let fromRevision ← Json.asOption Revision.decode source
      let toRevision ← Json.asOption Revision.decode target
      let applied ← applied.asArray.bind (Json.decodeAll Revision.decode)
      let log ← log.asStr
      return ⟨fromRevision, toRevision, applied, log⟩
  | _ => none

/-- Read one check. Its detail may be absent from an object only. -/
def VerifyCheck.decode : Json → Option VerifyCheck
  | .obj fields => do
      let name ← Json.field Json.asStr fields "name"
      let ok ← Json.field Json.asBool fields "ok"
      let detail ← Json.optionField Json.asStr fields "detail"
      return ⟨name, ok, detail⟩
  | .arr [name, ok, detail] => do
      let name ← name.asStr
      let ok ← ok.asBool
      let detail ← Json.asOption Json.asStr detail
      return ⟨name, ok, detail⟩
  | _ => none

/-- Read a verify report. -/
def VerifyReport.decode (value : Json) : Option VerifyReport :=
  if value.isStruct 3 then do
    let ok ← (value.member "ok" 0).bind Json.asBool
    let checks ← (value.member "checks" 1).bind fun v =>
      v.asArray.bind (Json.decodeAll VerifyCheck.decode)
    let wasSkipped ← Json.defaulted Json.asBool false (value.member "was_skipped" 2)
    return ⟨ok, checks, wasSkipped⟩
  else none

/-- Read the unit value. -/
def decodeUnit : Json → Option Unit
  | .null => some ()
  | _ => none

/-- The context as it is sent: without the values of its secrets. -/
def AdapterCtx.encode (ctx : AdapterCtx) : Json :=
  .obj [("fraise", .str ctx.fraise),
    ("environment", .str ctx.environment),
    ("host", .ofOption (fun host => .str host.name) ctx.host),
    ("workdir", .str ctx.workdir),
    ("migrations_path", .ofOption .str ctx.migrationsPath),
    ("env_secrets", .obj (ctx.envSecrets.map fun e => (e.1, .str e.2))),
    ("previous_revision", .ofOption Revision.encode ctx.previousRevision),
    ("artifact_ref", .ofOption ArtifactRef.encode ctx.artifactRef),
    ("settings", .obj ctx.settings)]

section Axes

variable [Saga.CharTables] [JsonTexts] {U : Sig}

/-- The migration adapter of a client. -/
def ipcMigrationAdapter (client : IpcClient) : MigrationAdapter (IpcSig.sum U) where
  describe := client.call none "describe" (.obj []) AdapterDescription.decode
  currentRevision ctx :=
    client.call (some ctx) "current_revision" (.obj [("ctx", AdapterCtx.encode ctx)])
      (Json.asOption Revision.decode)
  up ctx target :=
    client.call (some ctx) "up"
      (.obj [("ctx", AdapterCtx.encode ctx), ("target", .ofOption Revision.encode target)])
      MigrationOutcome.decode
  downTo ctx target :=
    client.call (some ctx) "down_to"
      (.obj [("ctx", AdapterCtx.encode ctx), ("target", target.encode)]) MigrationOutcome.decode
  verify ctx :=
    client.call (some ctx) "verify" (.obj [("ctx", AdapterCtx.encode ctx)]) VerifyReport.decode
  preflight ctx :=
    client.call (some ctx) "preflight" (.obj [("ctx", AdapterCtx.encode ctx)])
      PreflightReport.decode
  ownsDatabase := true

/-- The artifact adapter of a client. It has no `describe`. -/
def ipcArtifactAdapter (client : IpcClient) : ArtifactAdapter (IpcSig.sum U) where
  stage ctx host :=
    client.call (some ctx) "stage"
      (.obj [("ctx", AdapterCtx.encode ctx), ("host", .str host.name)]) StagedArtifact.decode
  activate ctx host staged :=
    client.call (some ctx) "activate"
      (.obj [("ctx", AdapterCtx.encode ctx), ("host", .str host.name), ("staged", staged.encode)])
      decodeUnit

end Axes

end Fraisier.Ipc
