import Fraisier.Data.JsonMaps
import Fraisier.Ipc.Client
import Fraisier.Ipc.Frames

/-!
# The adapter's side

The program of an adapter reads one framed request, dispatches it to the adapter it is built
around and writes one framed response. `serve` is that, from the bytes on its input to the bytes
on its output. `Exited.exchange` is what the client makes of a process that has exited.
-/

namespace Fraisier.Ipc

open Fraisier.Data Fraisier.Effect Fraisier.Core

/-! ## Bodies -/

/-- What is said of a body that is not a document of the kind that is read, and what a process
that panics writes to its error output. -/
class ProcessTexts where
  invalid : List UInt8 → String
  panicked : String

/-- The body of a document. -/
def toBody (document : Json) : List UInt8 :=
  utf8 (Json.render (Json.ordered document))

/-- The document of a body, with every field that stands in it. -/
def fromBody (body : List UInt8) : Option Json :=
  (fromUtf8 body).bind Json.parse

/-- A field of one of the names stands in an object twice. -/
def repeats (names : List String) : Json → Bool
  | .obj fields => names.any fun name => 1 < (fields.filter fun field => field.1 == name).length
  | _ => false

/-! ## Requests -/

/-- A request as an adapter reads it. -/
structure AdapterRequest where
  id : Json
  method : String
  params : Json

/-- Read a request. -/
def AdapterRequest.decode (value : Json) : Option AdapterRequest :=
  if value.isStruct 3 && !repeats ["id", "method", "params"] value then do
    let id ← Json.defaulted some .null (value.member "id" 0)
    let method ← (value.member "method" 1).bind Json.asStr
    let params ← Json.defaulted some .null (value.member "params" 2)
    return ⟨id.ordered, method, params.ordered⟩
  else none

/-- Echo an id that is there. -/
def normalizeId : Json → Json
  | .null => .int requestId
  | id => id

/-- A response with one member beside the id that it echoes. -/
def envelope (id : Json) (member : String) (value : Json) : Json :=
  .obj [("jsonrpc", .str "2.0"), ("id", id), (member, value)]

def success (id result : Json) : Json :=
  envelope id "result" result

def failure (id : Json) (code : Int) (message : String) : Json :=
  envelope id "error" (.obj [("code", .int code), ("message", .str message)])

/-- The response for an error of the adapter. What the adapter captured travels as its data. -/
def errorResponse (id : Json) (error : AdapterError) : Json :=
  envelope id "error" (.obj ([("code", .int error.code), ("message", .str error.message)] ++
    error.stderr.toList.map fun stderr => ("data", .str stderr)))

section Reading

variable [JsonTexts] [ProcessTexts]

/-- Read the one request of an input, or say what to respond to it. -/
def readRequest (checks : Bool) (input : List UInt8) : Except (Failure Json) AdapterRequest :=
  match (extract checks input).answer with
  | .error (.error cause) => .error (.error (failure .null (-32700) cause))
  | .error .panic => .error .panic
  | .ok body =>
      match (fromBody body).bind AdapterRequest.decode with
      | none =>
          let cause := ProcessTexts.invalid body
          .error (.error (failure .null (-32700) s!"invalid JSON-RPC request: {cause}"))
      | some request => .ok request

end Reading

/-! ## Processes -/

/-- What a process leaves when it has exited. -/
structure Exited where
  stdout : List UInt8
  stderr : String
  exit : Option Int

/-- A process that has written its response. -/
def Exited.responding (response : Json) : Exited :=
  ⟨writeFramed [] (toBody response), "", some 0⟩

/-- The program of an adapter, whose dispatch is given: one request in, one response out. -/
def serve [JsonTexts] [ProcessTexts] {T : Sig} (checks : Bool)
    (dispatch : String → Json → Prog T (Except AdapterError Json)) (input : List UInt8) :
    Prog T Exited :=
  match readRequest checks input with
  | .error .panic => .ret ⟨[], ProcessTexts.panicked, some 101⟩
  | .error (.error response) => .ret (.responding response)
  | .ok request => do
      let id := normalizeId request.id
      match ← dispatch request.method request.params with
      | .ok result => return .responding (success id result)
      | .error error => return .responding (errorResponse id error)

/-- Read the body of a response. -/
def readResponse [ProcessTexts] (body : List UInt8) : Except String Json :=
  match fromBody body with
  | none => .error (ProcessTexts.invalid body)
  | some document =>
      if repeats ["id", "result", "error"] document ||
          ((document.member "error" 2).any (repeats ["code", "message", "data"])) then
        .error (ProcessTexts.invalid body)
      else .ok document.ordered

/-- What the client makes of a process that has exited. It panics itself on a length that no
buffer has. -/
def Exited.exchange [ProcessTexts] (exited : Exited) : Option Exchange :=
  match (readMessage exited.stdout).answer with
  | .ok (some (body, _)) => some (.responded (readResponse body) exited.stderr)
  | .ok none => some (.noResponse exited.exit exited.stderr)
  | .error (.error error) => some (.readFailed error.message exited.stderr)
  | .error .panic => none

/-- The document of a request. -/
def Request.document (request : Request) : Json :=
  .obj [("jsonrpc", .str "2.0"), ("id", .int requestId), ("method", .str request.method),
    ("params", request.params)]

/-- The bytes that are written to the process. -/
def Request.bytes (request : Request) : List UInt8 :=
  writeMessage [] (toBody request.document)

/-- An exchange with a process that runs to its end. -/
def transact [ProcessTexts] {T : Sig} (process : List UInt8 → Prog T Exited) (request : Request) :
    Prog T (Option Exchange) := do
  let exited ← process request.bytes
  return exited.exchange

/-! ## Reading parameters -/

/-- Read the entries of a map. -/
def decodeMap {α : Type} (decode : Json → Option α) :
    List (String × Json) → Option (List (String × α))
  | [] => some []
  | (name, value) :: fields => do
      let a ← decode value
      let entries ← decodeMap decode fields
      return (name, a) :: entries

/-- A map, which is only read from an object. -/
def asMap {α : Type} (decode : Json → Option α) : Json → Option (List (String × α))
  | .obj fields => decodeMap decode fields
  | _ => none

/-- Read a host. -/
def HostId.decode (value : Json) : Option HostId :=
  value.asStr.map HostId.mk

/-- Read a context. It has no resolved secrets. -/
def AdapterCtx.decode : Json → Option AdapterCtx
  | .obj fields => do
      let fraise ← Json.field Json.asStr fields "fraise"
      let environment ← Json.field Json.asStr fields "environment"
      let host ← Json.optionField HostId.decode fields "host"
      let workdir ← Json.field Json.asStr fields "workdir"
      let migrationsPath ← Json.optionField Json.asStr fields "migrations_path"
      let envSecrets ← Json.field (asMap Json.asStr) fields "env_secrets"
      let previousRevision ← Json.optionField Revision.decode fields "previous_revision"
      let artifactRef ← Json.optionField ArtifactRef.decode fields "artifact_ref"
      let settings ← Json.field (asMap some) fields "settings"
      return ⟨fraise, environment, host, workdir, migrationsPath, envSecrets, [],
        previousRevision, artifactRef, settings⟩
  | .arr [fraise, environment, host, workdir, migrationsPath, envSecrets, previousRevision,
      artifactRef, settings] => do
      let fraise ← fraise.asStr
      let environment ← environment.asStr
      let host ← Json.asOption HostId.decode host
      let workdir ← workdir.asStr
      let migrationsPath ← Json.asOption Json.asStr migrationsPath
      let envSecrets ← asMap Json.asStr envSecrets
      let previousRevision ← Json.asOption Revision.decode previousRevision
      let artifactRef ← Json.asOption ArtifactRef.decode artifactRef
      let settings ← asMap some settings
      return ⟨fraise, environment, host, workdir, migrationsPath, envSecrets, [],
        previousRevision, artifactRef, settings⟩
  | _ => none

/-! ## The release adapter -/

/-- An artifact adapter that can also say what is active on a host. -/
structure ArtifactProgram (T : Sig) extends ArtifactAdapter T where
  current : AdapterCtx → HostId → Prog T (Except AdapterError (Option ArtifactRef))

namespace Release

/-- The adapter's discovery name. -/
def adapterName : String := "release"

/-- An error tagged with this adapter. -/
def fail (kind : AdapterErrorKind) (message : String) : AdapterError :=
  { AdapterError.new kind message with adapter := some adapterName }

section Dispatch

variable [JsonTexts] {T : Sig}

/-- A parameter, as what it is decoded to. -/
def field {α : Type} (decode : Json → Option α) (params : Json) (key : String) :
    Except AdapterError α :=
  match params.get key with
  | none => .error (fail .invalidConfig s!"missing params.{key}")
  | some value =>
      match decode value with
      | some a => .ok a
      | none =>
          let cause := JsonTexts.mismatch key value
          .error (fail .invalidConfig s!"invalid params.{key}: {cause}")

/-- The parameters that every method for a host carries. -/
def ctxHost (params : Json) : Except AdapterError (AdapterCtx × HostId) := do
  let ctx ← field AdapterCtx.decode params "ctx"
  let host ← field HostId.decode params "host"
  return (ctx, host)

/-- How the adapter describes itself. -/
def description (version : String) : Json :=
  .obj [("name", .str adapterName), ("version", .str version),
    ("protocol_version", .int protocolVersion),
    ("capabilities", .arr [.str "stage", .str "activate", .str "current"])]

/-- Dispatch a method to the adapter. -/
def dispatch (version : String) (adapter : ArtifactProgram T) (method : String) (params : Json) :
    Prog T (Except AdapterError Json) :=
  if method = "describe" then .ret (.ok (description version))
  else if method = "stage" then
    match ctxHost params with
    | .error error => .ret (.error error)
    | .ok (ctx, host) => do
        match ← adapter.stage ctx host with
        | .error error => return .error error
        | .ok staged => return .ok staged.encode
  else if method = "activate" then
    match ctxHost params with
    | .error error => .ret (.error error)
    | .ok (ctx, host) =>
        match field StagedArtifact.decode params "staged" with
        | .error error => .ret (.error error)
        | .ok staged => do
            match ← adapter.activate ctx host staged with
            | .error error => return .error error
            | .ok () => return .ok .null
  else if method = "current" then
    match ctxHost params with
    | .error error => .ret (.error error)
    | .ok (ctx, host) => do
        match ← adapter.current ctx host with
        | .error error => return .error error
        | .ok artifact => return .ok (.ofOption ArtifactRef.encode artifact)
  else .ret (.error (.methodNotSupported method))

end Dispatch

end Release

/-- An artifact adapter of a client, with what it says is active. -/
def ipcArtifactProgram [Saga.CharTables] [JsonTexts] {U : Sig} (client : IpcClient) :
    ArtifactProgram (IpcSig.sum U) where
  toArtifactAdapter := ipcArtifactAdapter client
  current ctx host :=
    client.call (some ctx) "current"
      (.obj [("ctx", AdapterCtx.encode ctx), ("host", .str host.name)])
      (Json.asOption ArtifactRef.decode)

end Fraisier.Ipc
