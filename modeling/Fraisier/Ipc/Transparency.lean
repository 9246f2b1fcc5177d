import Fraisier.Artifact.Active
import Fraisier.Effect.Link
import Fraisier.Ipc.Server

/-!
# An adapter in another process is the adapter

A call over the protocol does what the adapter itself does for the context without its resolved
secrets: in every run the same commands in the same order, and the same result but for how an
error is labelled. `exec_call_link` is that for one method, and `release_transparent` for the
methods of the release adapter.
-/

namespace Fraisier.Ipc

open Fraisier.Data Fraisier.Effect Fraisier.Core
open Fraisier.Artifact (HostSig FileSig LinkSig files links faultless)
open Fraisier.Data.Json (Readable Mapped Sorted mapOf ordered orderedFields)

/-! ## Bodies -/

section Bodies

variable {v : Json}

/-- A document is read from the body that it is written to, as it is held. -/
theorem fromBody_toBody (h : Readable Json.maxDepth v) :
    fromBody (toBody v) = some (ordered v) := by
  have hread := fromUtf8_utf8 (String.ofList (Json.render (ordered v)))
  rw [String.toList_ofList] at hread
  rw [fromBody, toBody, hread]
  exact Json.parse_render (Json.readable_ordered h)

/-- A process can hold the frame of a document. -/
def Sendable (v : Json) : Prop :=
  (writeFramed [] (toBody v)).length ≤ isizeMax

/-- The adapter reads the frame that the client writes. -/
theorem readMessage_written (h : Sendable v) :
    (readMessage (writeFramed [] (toBody v))).answer = .ok (some (toBody v, [])) := by
  have hframe : writeFramed [] (toBody v) = frameWith [] [] (toBody v) ++ [] := by
    rw [frameWith_nil, List.append_nil]
    rfl
  have hfits : (toBody v).length ≤ isizeMax := by
    rw [Sendable, writeFramed, List.length_append] at h
    omega
  rw [hframe]
  exact readMessage_frame (by simp) (by simp) hfits []

/-- The client finds the frame that the adapter writes. -/
theorem extract_written (h : Sendable v) (checks : Bool) :
    (extract checks (writeMessage [] (toBody v))).answer = .ok (toBody v) := by
  have hframe : writeMessage [] (toBody v) = frameWith [] [] (toBody v) ++ [] := by
    rw [frameWith_nil, List.append_nil]
    rfl
  have hfits : (frameWith [] [] (toBody v) ++ []).length ≤ isizeMax := by
    rw [← hframe]
    exact h
  rw [hframe]
  exact extract_frame (by simp) (by simp) hfits checks

end Bodies

/-! ## Fields that are held -/

section Fields

variable {fields : List (String × Json)} {name : String}

theorem member_held (h : (fields.map Prod.fst).Nodup) (name : String) (position : Nat) :
    (ordered (.obj fields)).member name position = (Json.lookup fields name).map ordered :=
  Json.get_ordered h name

/-- A field is decoded from what stands under its name, wherever it stands. -/
theorem field_held {α : Type} (decode : Json → Option α) (h : (fields.map Prod.fst).Nodup)
    {v : Json} (hv : Json.lookup fields name = some v) :
    Json.field decode (mapOf (orderedFields fields)) name = decode (ordered v) := by
  rw [Json.field, Json.get_ordered h, hv]
  rfl

/-- An optional field is decoded as a field that may be null. -/
theorem optionField_held {α : Type} (decode : Json → Option α) (h : (fields.map Prod.fst).Nodup)
    {v : Json} (hv : Json.lookup fields name = some v) :
    Json.optionField decode (mapOf (orderedFields fields)) name =
      Json.asOption decode (ordered v) := by
  rw [Json.optionField, Json.get_ordered h, hv]
  rfl

/-- A name stands in sorted fields once at most. -/
theorem length_filter_le_one (name : String) (h : Sorted fields) :
    (fields.filter fun field => field.1 == name).length ≤ 1 := by
  induction fields with
  | nil => exact Nat.zero_le 1
  | cons field fields ih =>
      obtain ⟨hfield, hfields⟩ := List.pairwise_cons.mp h
      by_cases heq : (field.1 == name) = true
      · have hnone : fields.filter (fun other => other.1 == name) = [] := by
          rw [List.filter_eq_nil_iff]
          intro other hother hname
          have hlt := hfield other hother
          rw [eq_of_beq heq, eq_of_beq hname] at hlt
          exact lt_irrefl name hlt
        simp only [List.filter_cons, heq, hnone, if_true]
        exact Nat.le_refl 1
      · simp only [List.filter_cons, heq]
        exact ih hfields

/-- No name stands twice in a document that is held. -/
theorem repeats_held {v : Json} (h : Mapped v) (names : List String) : repeats names v = false := by
  cases h with
  | null | bool | int | float | str | arr => rfl
  | obj fields hfields hsorted =>
      rw [repeats, List.any_eq_false]
      intro name _ hmany
      have hone := length_filter_le_one name hsorted
      have hlt := of_decide_eq_true hmany
      omega

end Fields

/-! ## Requests -/

section Requests

variable {request : Request}

/-- A request is as deep as its parameters, and a level more. -/
theorem readable_document (h : Readable 126 request.params) :
    Readable Json.maxDepth request.document := by
  refine .obj 126 _ ?_
  simp only [List.forall_mem_cons]
  exact ⟨.str _ _, .int _ _ (by decide) (by decide), .str _ _, h, by simp⟩

/-- A request is decoded as what it was made of. -/
theorem decode_document (h : Readable 126 request.params) :
    AdapterRequest.decode (ordered request.document) =
      some ⟨.int 1, request.method, ordered request.params⟩ := by
  have hmapped := Json.mapped_ordered (readable_document h)
  have hmember : ∀ name position, (ordered request.document).member name position =
      (Json.lookup [("jsonrpc", .str "2.0"), ("id", .int requestId),
        ("method", .str request.method), ("params", request.params)] name).map ordered :=
    member_held (by
      show ["jsonrpc", "id", "method", "params"].Nodup
      decide)
  have hparams : ordered (ordered request.params) = ordered request.params :=
    Json.ordered_of_mapped (Json.mapped_ordered h)
  rw [AdapterRequest.decode, repeats_held hmapped, hmember, hmember, hmember]
  show (do
    let id ← Json.defaulted some .null (some (ordered (.int requestId)))
    let method ← (some (ordered (.str request.method))).bind Json.asStr
    let params ← Json.defaulted some .null (some (ordered request.params))
    return (⟨ordered id, method, ordered params⟩ : AdapterRequest)) = _
  simp only [Json.defaulted, Option.bind_eq_bind, Option.bind_some, hparams]
  rfl

/-- An adapter reads the request that was sent. -/
theorem readRequest_bytes [JsonTexts] [ProcessTexts] (h : Readable 126 request.params)
    (hfits : Sendable request.document) (checks : Bool) :
    readRequest checks request.bytes =
      .ok ⟨.int 1, request.method, ordered request.params⟩ := by
  rw [readRequest, Request.bytes, extract_written hfits]
  simp only [fromBody_toBody (readable_document h), Option.bind_some, decode_document h]

end Requests

/-! ## Contexts and artifacts -/

/-- A context that the other process can be told: its maps are maps, their numbers are in range,
and they are not too deep. -/
structure AdapterCtx.IsSent (ctx : AdapterCtx) : Prop where
  secrets : ctx.envSecrets.Pairwise fun a b => a.1.toList < b.1.toList
  mapped : Mapped (.obj ctx.settings)
  readable : Readable 124 (.obj ctx.settings)

/-- The context as the other process has it. -/
def AdapterCtx.sent (ctx : AdapterCtx) : AdapterCtx :=
  { ctx with resolvedSecrets := [] }

section Contexts

/-- An option comes back, as nothing that is there is written as null. -/
theorem asOption_held {α : Type} (encode : α → Json) (decode : Json → Option α)
    (hnull : ∀ a, ordered (encode a) ≠ .null) (h : ∀ a, decode (ordered (encode a)) = some a)
    (o : Option α) : Json.asOption decode (ordered (.ofOption encode o)) = some o := by
  have hread := asOption_ofOption (fun a => ordered (encode a)) decode hnull h o
  cases o with
  | none => rfl
  | some a => exact hread

/-- An artifact comes back from its document. -/
theorem decode_artifactRef (artifact : ArtifactRef) :
    ArtifactRef.decode (ordered artifact.encode) = some artifact := by
  have hnames : (([("id", .str artifact.id), ("checksum", .ofOption .str artifact.checksum)] :
      List (String × Json)).map Prod.fst).Nodup := by
    show ["id", "checksum"].Nodup
    decide
  have hsum := asOption_held Json.str Json.asStr (by simp [ordered])
    (fun _ => rfl) artifact.checksum
  rw [ArtifactRef.encode, ordered, ArtifactRef.decode, decodePair, field_held _ hnames rfl,
    optionField_held _ hnames rfl, hsum]
  rfl

/-- A staged artifact comes back from its document. -/
theorem decode_stagedArtifact (staged : StagedArtifact) :
    StagedArtifact.decode (ordered staged.encode) = some staged := by
  have hnames : (([("artifact", staged.artifact.encode), ("path", .str staged.path)] :
      List (String × Json)).map Prod.fst).Nodup := by
    show ["artifact", "path"].Nodup
    decide
  rw [StagedArtifact.encode, ordered, StagedArtifact.decode, decodePair, field_held _ hnames rfl,
    field_held _ hnames rfl, decode_artifactRef]
  rfl

theorem decode_hostId (host : HostId) : HostId.decode (ordered (.str host.name)) = some host := rfl

/-- A map of texts comes back from its document. -/
theorem decodeMap_str (entries : List (String × String)) :
    decodeMap Json.asStr (entries.map fun e => (e.1, .str e.2)) = some entries := by
  induction entries with
  | nil => rfl
  | cons entry entries ih => simp [decodeMap, ih, Json.asStr]

theorem decodeMap_some (fields : List (String × Json)) : decodeMap some fields = some fields := by
  induction fields with
  | nil => rfl
  | cons field fields ih => simp [decodeMap, ih]

theorem mapped_secrets {entries : List (String × String)}
    (h : entries.Pairwise fun a b => a.1.toList < b.1.toList) :
    Mapped (.obj (entries.map fun e => (e.1, .str e.2))) := by
  refine .obj _ (fun field hfield => ?_) (List.pairwise_map.mpr h)
  obtain ⟨entry, -, rfl⟩ := List.mem_map.mp hfield
  exact .str entry.2

variable {ctx : AdapterCtx}

/-- The other process reads the context without the resolved secrets. -/
theorem decode_ctx (hctx : AdapterCtx.IsSent ctx) :
    AdapterCtx.decode (ordered (AdapterCtx.encode ctx)) = some (AdapterCtx.sent ctx) := by
  have hnames : (([("fraise", .str ctx.fraise), ("environment", .str ctx.environment),
      ("host", .ofOption (fun host => .str host.name) ctx.host), ("workdir", .str ctx.workdir),
      ("migrations_path", .ofOption .str ctx.migrationsPath),
      ("env_secrets", .obj (ctx.envSecrets.map fun e => (e.1, .str e.2))),
      ("previous_revision", .ofOption Revision.encode ctx.previousRevision),
      ("artifact_ref", .ofOption ArtifactRef.encode ctx.artifactRef),
      ("settings", .obj ctx.settings)] : List (String × Json)).map Prod.fst).Nodup := by
    show ["fraise", "environment", "host", "workdir", "migrations_path", "env_secrets",
      "previous_revision", "artifact_ref", "settings"].Nodup
    decide
  have hhost := asOption_held (fun host : HostId => Json.str host.name) HostId.decode
    (by simp [ordered]) decode_hostId ctx.host
  have hpath := asOption_held Json.str Json.asStr (by simp [ordered])
    (fun _ => rfl) ctx.migrationsPath
  have hrevision := asOption_held Revision.encode Revision.decode
    (by simp [Revision.encode, ordered]) (fun _ => rfl) ctx.previousRevision
  have hartifact := asOption_held ArtifactRef.encode ArtifactRef.decode
    (by simp [ArtifactRef.encode, ordered]) decode_artifactRef ctx.artifactRef
  have hsecrets : asMap Json.asStr (ordered (.obj (ctx.envSecrets.map fun e => (e.1, .str e.2)))) =
      some ctx.envSecrets := by
    rw [Json.ordered_of_mapped (mapped_secrets hctx.secrets), asMap, decodeMap_str]
  have hsettings : asMap some (ordered (.obj ctx.settings)) = some ctx.settings := by
    rw [Json.ordered_of_mapped hctx.mapped, asMap, decodeMap_some]
  rw [AdapterCtx.encode, ordered, AdapterCtx.decode, field_held _ hnames rfl,
    field_held _ hnames rfl, optionField_held _ hnames rfl, field_held _ hnames rfl,
    optionField_held _ hnames rfl, field_held _ hnames rfl, optionField_held _ hnames rfl,
    optionField_held _ hnames rfl, field_held _ hnames rfl, hhost, hpath, hsecrets, hrevision,
    hartifact, hsettings]
  rfl

end Contexts

/-! ## Responses -/

/-- An error of the adapter as the client reports it. -/
def IpcClient.relayed [Saga.CharTables] [JsonTexts] (client : IpcClient) (method : String)
    (error : AdapterError) : AdapterError :=
  client.remote method ⟨error.code, error.message, error.stderr.map Json.str⟩ none

/-- What the adapter returns can be responded: a code of an error is one, and a process can hold
the frame. -/
def Responds {α : Type} (encode : α → Json) : Except AdapterError α → Prop
  | .ok a => Sendable (success (.int 1) (encode a))
  | .error error => -2147483648 ≤ error.code ∧ error.code < 2147483648 ∧
      Sendable (errorResponse (.int 1) error)

section Responses

variable {v result : Json} {error : AdapterError}

/-- What stands in a document that is held is held as well. -/
theorem mapped_member (h : Mapped v) {name : String} {position : Nat} {w : Json}
    (hw : v.member name position = some w) : Mapped w := by
  cases h with
  | null | bool | int | float | str => cases hw
  | arr items hitems => exact hitems w (List.mem_of_getElem? hw)
  | obj fields hfields hsorted =>
      obtain ⟨field, hfield, rfl⟩ := Option.map_eq_some_iff.mp hw
      exact hfields field (List.mem_of_find?_eq_some hfield)

/-- A response is read from its body. -/
theorem readResponse_toBody [ProcessTexts] (h : Readable Json.maxDepth v) :
    readResponse (toBody v) = .ok (ordered v) := by
  have hmapped := Json.mapped_ordered h
  have hinner :
      ((ordered v).member "error" 2).any (repeats ["code", "message", "data"]) = false := by
    cases hmember : (ordered v).member "error" 2 with
    | none => rfl
    | some w => exact repeats_held (mapped_member hmapped hmember) _
  rw [readResponse, fromBody_toBody h]
  simp only [repeats_held hmapped, hinner, Bool.or_self, Json.ordered_of_mapped hmapped]
  rfl

/-- The client has the response that was written. -/
theorem exchange_responding [ProcessTexts] (h : Readable Json.maxDepth v) (hfits : Sendable v) :
    (Exited.responding v).exchange = some (.responded (.ok (ordered v)) "") := by
  rw [Exited.exchange, Exited.responding]
  simp only [readMessage_written hfits, readResponse_toBody h]

theorem readable_envelope (member : String) (h : Readable 126 v) :
    Readable Json.maxDepth (envelope (.int 1) member v) := by
  refine .obj 126 _ ?_
  simp only [List.forall_mem_cons]
  exact ⟨.str _ _, .int _ _ (by decide) (by decide), h, by simp⟩

/-- A response with a result is decoded as one. -/
theorem decode_success (result : Json) :
    Response.decode (ordered (success (.int 1) result)) =
      some ⟨some 1, some (ordered result), none⟩ := by
  have hmember : ∀ name position, (ordered (success (.int 1) result)).member name position =
      (Json.lookup [("jsonrpc", .str "2.0"), ("id", .int 1),
        ("result", result)] name).map ordered :=
    member_held (by
      show ["jsonrpc", "id", "result"].Nodup
      decide)
  rw [Response.decode, hmember, hmember, hmember]
  rfl

theorem decode_rpcError (hlow : -2147483648 ≤ error.code) (hhigh : error.code < 2147483648) :
    RpcError.decode (ordered (.obj ([("code", .int error.code), ("message", .str error.message)] ++
      error.stderr.toList.map fun stderr => ("data", .str stderr)))) =
        some ⟨error.code, error.message, error.stderr.map Json.str⟩ := by
  have hcode : Json.asI32 (.int error.code) = some error.code := if_pos ⟨hlow, hhigh⟩
  have hnames : (([("code", .int error.code), ("message", .str error.message)] ++
      error.stderr.toList.map fun stderr => ("data", .str stderr) :
        List (String × Json)).map Prod.fst).Nodup := by
    cases error.stderr with
    | none =>
        show ["code", "message"].Nodup
        decide
    | some stderr =>
        show ["code", "message", "data"].Nodup
        decide
  rw [RpcError.decode, member_held hnames, member_held hnames, member_held hnames]
  cases error.stderr with
  | none =>
      show (Json.asI32 (.int error.code)).bind _ = _
      rw [hcode]
      rfl
  | some stderr =>
      show (Json.asI32 (.int error.code)).bind _ = _
      rw [hcode]
      rfl

/-- A response with an error is decoded as one. The code fits 32 bits. -/
theorem decode_errorResponse (hlow : -2147483648 ≤ error.code) (hhigh : error.code < 2147483648) :
    Response.decode (ordered (errorResponse (.int 1) error)) =
      some ⟨some 1, none, some ⟨error.code, error.message, error.stderr.map Json.str⟩⟩ := by
  have hmember : ∀ name position, (ordered (errorResponse (.int 1) error)).member name position =
      (Json.lookup [("jsonrpc", .str "2.0"), ("id", .int 1),
        ("error", .obj ([("code", .int error.code), ("message", .str error.message)] ++
          error.stderr.toList.map fun stderr => ("data", .str stderr)))] name).map ordered :=
    member_held (by
      show ["jsonrpc", "id", "error"].Nodup
      decide)
  have hdecode := decode_rpcError hlow hhigh
  rw [Response.decode, hmember, hmember, hmember]
  show ((RpcError.decode (ordered (.obj ([("code", .int error.code),
    ("message", .str error.message)] ++
      error.stderr.toList.map fun stderr => ("data", .str stderr))))).map some).bind _ = _
  rw [hdecode]
  rfl

theorem readable_error (hlow : -2147483648 ≤ error.code) (hhigh : error.code < 2147483648) :
    Readable 126 (.obj ([("code", .int error.code), ("message", .str error.message)] ++
      error.stderr.toList.map fun stderr => ("data", .str stderr))) := by
  refine .obj 125 _ ?_
  cases error.stderr with
  | none =>
      simp only [Option.toList_none, List.map_nil, List.append_nil, List.forall_mem_cons]
      exact ⟨.int _ _ (by omega) (by omega), .str _ _, by simp⟩
  | some stderr =>
      simp only [Option.toList_some, List.map_cons, List.map_nil, List.cons_append,
        List.nil_append, List.forall_mem_cons]
      exact ⟨.int _ _ (by omega) (by omega), .str _ _, .str _ _, by simp⟩

end Responses

/-! ## Calls -/

section Calls

variable [Saga.CharTables] [JsonTexts] {T : Sig} {α : Type} {client : IpcClient}
  {ctx : AdapterCtx} {method : String} {params : Json} {launch : Launch}
  {encode : α → Json} {decode : Json → Option α}

/-- A result that is decoded is what the call returns. -/
theorem answer_success (hdecode : ∀ a, decode (ordered (encode a)) = some a) (a : α) :
    client.answer method decode (.responded (.ok (ordered (success (.int 1) (encode a)))) "") =
      .ok a := by
  have hstderr : stderrOpt "" = none := by decide
  simp only [IpcClient.answer, IpcClient.received, IpcClient.decodeResponse, decode_success,
    hdecode, hstderr]
  rfl

/-- An error is relayed by the call. -/
theorem answer_error {error : AdapterError} (hlow : -2147483648 ≤ error.code)
    (hhigh : error.code < 2147483648) :
    client.answer method decode (.responded (.ok (ordered (errorResponse (.int 1) error))) "") =
      .error (client.relayed method error) := by
  have hstderr : stderrOpt "" = none := by decide
  simp only [IpcClient.answer, IpcClient.received, IpcClient.decodeResponse,
    decode_errorResponse hlow hhigh, hstderr]
  rfl

variable [ProcessTexts]

/-- The process that answers a call, as what the adapter returns has it exit. -/
def exited (encode : α → Json) : Except AdapterError α → Exited
  | .ok a => .responding (success (.int 1) (encode a))
  | .error error => .responding (errorResponse (.int 1) error)

/-- The client makes of the exit what the adapter returned. -/
theorem exchange_exited (hdecode : ∀ a, decode (ordered (encode a)) = some a)
    (hread : ∀ a, Readable 126 (encode a)) {r : Except AdapterError α} (hr : Responds encode r) :
    (exited encode r).exchange.map (client.answer method decode) =
      some (r.mapError (client.relayed method)) := by
  cases r with
  | ok a =>
      have hexchange : (Exited.responding (success (.int 1) (encode a))).exchange =
          some (.responded (.ok (ordered (success (.int 1) (encode a)))) "") :=
        exchange_responding (readable_envelope "result" (hread a)) hr
      rw [exited, hexchange, Option.map_some, answer_success hdecode]
      rfl
  | error error =>
      obtain ⟨hlow, hhigh, hsend⟩ := hr
      have hexchange : (Exited.responding (errorResponse (.int 1) error)).exchange =
          some (.responded (.ok (ordered (errorResponse (.int 1) error))) "") :=
        exchange_responding (readable_envelope "error" (readable_error hlow hhigh)) hsend
      rw [exited, hexchange, Option.map_some, answer_error hlow hhigh]
      rfl

/-- A call over the protocol runs what the dispatch of the other process runs. -/
theorem exec_call_link (hlaunch : client.command (some ctx) method = .ok launch)
    (hparams : Readable 126 params) (hfits : Sendable (Request.document ⟨launch, method, params⟩))
    {dispatch : String → Json → Prog T (Except AdapterError Json)}
    {p : Prog T (Except AdapterError α)}
    (hdispatch : dispatch method (ordered params) = p >>= fun r => .ret (r.map encode))
    (hdecode : ∀ a, decode (ordered (encode a)) = some a) (hread : ∀ a, Readable 126 (encode a))
    (checks : Bool) {σ : Type} (h : Handler T σ) (sched : List Bool) (s : σ)
    (hp : Responds encode (p.exec h sched s).value) :
    ((client.call (some ctx) method params decode).link
        (transact (serve checks dispatch))).exec h sched s =
      (p.exec h sched s).map fun r => some (r.mapError (client.relayed method)) := by
  have hserve : serve checks dispatch (Request.bytes ⟨launch, method, params⟩) =
      p >>= fun r => .ret (exited encode r) := by
    rw [serve, readRequest_bytes hparams hfits]
    simp only [normalizeId, hdispatch, bind_assoc]
    refine congrArg (p >>= ·) (funext fun r => ?_)
    cases r <;> rfl
  have hlink : (client.call (some ctx) method params decode).link
      (transact (serve checks dispatch)) =
        p >>= fun r => .ret ((exited encode r).exchange.map (client.answer method decode)) := by
    rw [IpcClient.call, hlaunch]
    dsimp only
    rw [Prog.link_perform, transact, hserve]
    simp only [bind_assoc]
    rfl
  rw [hlink, Prog.exec_map]
  exact congrArg (fun value => Run.mk value _ _ _) (exchange_exited hdecode hread hp)

end Calls

/-! ## The release adapter -/

section Release

variable {ctx : AdapterCtx} {host : HostId}

theorem readable_artifactRef (depth : Nat) (artifact : ArtifactRef) :
    Readable (depth + 1) artifact.encode := by
  refine .obj depth _ ?_
  simp only [List.forall_mem_cons]
  refine ⟨.str _ _, ?_, by simp⟩
  cases artifact.checksum with
  | none => exact .null _
  | some sum => exact .str _ _

theorem readable_stagedArtifact (depth : Nat) (staged : StagedArtifact) :
    Readable (depth + 2) staged.encode := by
  refine .obj _ _ ?_
  simp only [List.forall_mem_cons]
  exact ⟨readable_artifactRef depth staged.artifact, .str _ _, by simp⟩

theorem readable_ofOption {α : Type} {depth : Nat} {encode : α → Json}
    (h : ∀ a, Readable depth (encode a)) (o : Option α) : Readable depth (.ofOption encode o) := by
  cases o with
  | none => exact .null _
  | some a => exact h a

/-- A context that can be sent is written within the depth that is read. -/
theorem readable_ctx (hctx : AdapterCtx.IsSent ctx) : Readable 125 (AdapterCtx.encode ctx) := by
  have hsecrets : Readable 124 (.obj (ctx.envSecrets.map fun e => (e.1, .str e.2))) := by
    refine .obj 123 _ fun field hfield => ?_
    obtain ⟨entry, -, rfl⟩ := List.mem_map.mp hfield
    exact .str _ _
  refine .obj 124 _ ?_
  simp only [List.forall_mem_cons]
  exact ⟨.str _ _, .str _ _, readable_ofOption (fun _ => .str _ _) _, .str _ _,
    readable_ofOption (fun _ => .str _ _) _, hsecrets, readable_ofOption (fun _ => .str _ _) _,
    readable_ofOption (readable_artifactRef 123) _, hctx.readable, by simp⟩

/-- The parameters of a call for a host. -/
def hostParams (ctx : AdapterCtx) (host : HostId) : Json :=
  .obj [("ctx", AdapterCtx.encode ctx), ("host", .str host.name)]

/-- The parameters of an activation. -/
def activateParams (ctx : AdapterCtx) (host : HostId) (staged : StagedArtifact) : Json :=
  .obj [("ctx", AdapterCtx.encode ctx), ("host", .str host.name), ("staged", staged.encode)]

theorem names_activateParams (ctx : AdapterCtx) (host : HostId) (staged : StagedArtifact) :
    (([("ctx", AdapterCtx.encode ctx), ("host", .str host.name), ("staged", staged.encode)] :
      List (String × Json)).map Prod.fst).Nodup := by
  show ["ctx", "host", "staged"].Nodup
  decide

variable [JsonTexts] {T : Sig}

/-- The adapter finds a parameter wherever it stands. -/
theorem field_ordered {α : Type} {decode : Json → Option α} {fields : List (String × Json)}
    (h : (fields.map Prod.fst).Nodup) {key : String} {v : Json} {a : α}
    (hv : Json.lookup fields key = some v) (ha : decode (ordered v) = some a) :
    Release.field decode (ordered (.obj fields)) key = .ok a := by
  have hget : (ordered (.obj fields)).get key = some (ordered v) := by
    show Json.lookup (mapOf (orderedFields fields)) key = _
    rw [Json.get_ordered h, hv]
    rfl
  rw [Release.field, hget]
  simp only [ha]

/-- The adapter reads the context without its resolved secrets, and the host. -/
theorem ctxHost_hostParams (hctx : AdapterCtx.IsSent ctx) :
    Release.ctxHost (ordered (hostParams ctx host)) = .ok (AdapterCtx.sent ctx, host) := by
  have hnames : (([("ctx", AdapterCtx.encode ctx), ("host", .str host.name)] :
      List (String × Json)).map Prod.fst).Nodup := by
    show ["ctx", "host"].Nodup
    decide
  rw [Release.ctxHost, hostParams, field_ordered hnames rfl (decode_ctx hctx),
    field_ordered hnames rfl (decode_hostId host)]
  rfl

theorem ctxHost_activateParams (hctx : AdapterCtx.IsSent ctx) (staged : StagedArtifact) :
    Release.ctxHost (ordered (activateParams ctx host staged)) =
      .ok (AdapterCtx.sent ctx, host) := by
  have hnames := names_activateParams ctx host staged
  rw [Release.ctxHost, activateParams, field_ordered hnames rfl (decode_ctx hctx),
    field_ordered hnames rfl (decode_hostId host)]
  rfl

theorem staged_activateParams (staged : StagedArtifact) :
    Release.field StagedArtifact.decode (ordered (activateParams ctx host staged)) "staged" =
      .ok staged :=
  field_ordered (names_activateParams ctx host staged) rfl (decode_stagedArtifact staged)

variable {adapter : ArtifactProgram T} {version : String}

/-- A stage call is dispatched to the stage of the adapter. -/
theorem dispatch_stage (hctx : AdapterCtx.IsSent ctx) :
    Release.dispatch version adapter "stage" (ordered (hostParams ctx host)) =
      adapter.stage (AdapterCtx.sent ctx) host >>= fun r => .ret (r.map StagedArtifact.encode) := by
  rw [Release.dispatch, if_neg (by decide), if_pos rfl, ctxHost_hostParams hctx]
  refine congrArg (adapter.stage (AdapterCtx.sent ctx) host >>= ·) (funext fun r => ?_)
  cases r <;> rfl

/-- An activate call is dispatched to the activation of what was staged. -/
theorem dispatch_activate (hctx : AdapterCtx.IsSent ctx) (staged : StagedArtifact) :
    Release.dispatch version adapter "activate" (ordered (activateParams ctx host staged)) =
      adapter.activate (AdapterCtx.sent ctx) host staged >>= fun r =>
        .ret (r.map fun _ => .null) := by
  rw [Release.dispatch, if_neg (by decide), if_neg (by decide), if_pos rfl,
    ctxHost_activateParams hctx]
  simp only [staged_activateParams]
  refine congrArg (adapter.activate (AdapterCtx.sent ctx) host staged >>= ·) (funext fun r => ?_)
  cases r <;> rfl

/-- A current call is dispatched to the adapter, and its answer may be null. -/
theorem dispatch_current (hctx : AdapterCtx.IsSent ctx) :
    Release.dispatch version adapter "current" (ordered (hostParams ctx host)) =
      adapter.current (AdapterCtx.sent ctx) host >>= fun r =>
        .ret (r.map (Json.ofOption ArtifactRef.encode)) := by
  rw [Release.dispatch, if_neg (by decide), if_neg (by decide), if_neg (by decide), if_pos rfl,
    ctxHost_hostParams hctx]
  refine congrArg (adapter.current (AdapterCtx.sent ctx) host >>= ·) (funext fun r => ?_)
  cases r <;> rfl

end Release

/-- Over the protocol the release adapter does what it does in process for the context without the
resolved secrets, wherever it is launched; an error comes back as a remote one with its code. -/
theorem release_transparent [Saga.CharTables] [JsonTexts] [ProcessTexts] {T : Sig} {σ : Type}
    (client : IpcClient) (version : String) (adapter : ArtifactProgram T) (checks : Bool)
    {ctx : AdapterCtx} (hctx : AdapterCtx.IsSent ctx) (host : HostId) {launch : Launch}
    (h : Handler T σ) (sched : List Bool) (s : σ) :
    (client.command (some ctx) "stage" = .ok launch →
      Sendable (Request.document ⟨launch, "stage", hostParams ctx host⟩) →
      Responds StagedArtifact.encode
        ((adapter.stage (AdapterCtx.sent ctx) host).exec h sched s).value →
      (((ipcArtifactProgram client).stage ctx host).link
          (transact (serve checks (Release.dispatch version adapter)))).exec h sched s =
        ((adapter.stage (AdapterCtx.sent ctx) host).exec h sched s).map fun r =>
          some (r.mapError (client.relayed "stage"))) ∧
    (∀ staged, client.command (some ctx) "activate" = .ok launch →
      Sendable (Request.document ⟨launch, "activate", activateParams ctx host staged⟩) →
      Responds (fun _ => .null)
        ((adapter.activate (AdapterCtx.sent ctx) host staged).exec h sched s).value →
      (((ipcArtifactProgram client).activate ctx host staged).link
          (transact (serve checks (Release.dispatch version adapter)))).exec h sched s =
        ((adapter.activate (AdapterCtx.sent ctx) host staged).exec h sched s).map fun r =>
          some (r.mapError (client.relayed "activate"))) ∧
    (client.command (some ctx) "current" = .ok launch →
      Sendable (Request.document ⟨launch, "current", hostParams ctx host⟩) →
      Responds (Json.ofOption ArtifactRef.encode)
        ((adapter.current (AdapterCtx.sent ctx) host).exec h sched s).value →
      (((ipcArtifactProgram client).current ctx host).link
          (transact (serve checks (Release.dispatch version adapter)))).exec h sched s =
        ((adapter.current (AdapterCtx.sent ctx) host).exec h sched s).map fun r =>
          some (r.mapError (client.relayed "current"))) := by
  have hparams : Readable 126 (hostParams ctx host) := by
    refine .obj 125 _ ?_
    simp only [List.forall_mem_cons]
    exact ⟨readable_ctx hctx, .str _ _, by simp⟩
  refine ⟨fun hlaunch hfits hp => ?_, fun staged hlaunch hfits hp => ?_,
    fun hlaunch hfits hp => ?_⟩
  · exact exec_call_link hlaunch hparams hfits (dispatch_stage hctx) decode_stagedArtifact
      (readable_stagedArtifact 124) checks h sched s hp
  · have hactivate : Readable 126 (activateParams ctx host staged) := by
      refine .obj 125 _ ?_
      simp only [List.forall_mem_cons]
      exact ⟨readable_ctx hctx, .str _ _, readable_stagedArtifact 123 staged, by simp⟩
    exact exec_call_link hlaunch hactivate hfits (dispatch_activate hctx staged) (fun _ => rfl)
      (fun _ => .null _) checks h sched s hp
  · exact exec_call_link hlaunch hparams hfits (dispatch_current hctx)
      (asOption_held ArtifactRef.encode ArtifactRef.decode (by simp [ArtifactRef.encode, ordered])
        decode_artifactRef)
      (readable_ofOption (readable_artifactRef 125)) checks h sched s hp

/-! ## A release that is staged over the protocol -/

/-- The release adapter over what it asks of its process, of the disk and of links. -/
def Release.program (sha256 : List UInt8 → List UInt8) (pid : Nat) :
    ArtifactProgram (HostSig.sum (FileSig.sum LinkSig)) where
  stage ctx _ := (Artifact.ReleaseArtifact.stage sha256 ctx).inl
  activate ctx _ staged := ((Artifact.ReleaseArtifact.activate pid ctx staged).inl).inr
  current ctx _ := ((Artifact.ReleaseArtifact.current ctx).inr).inr

/-- Texts of the JSON library, with documents displayed as they are written. -/
@[reducible] def writtenTexts : JsonTexts :=
  ⟨fun v => String.ofList (Json.render v), fun _ _ => "invalid type"⟩

@[reducible] def sampleProcess : ProcessTexts :=
  ⟨fun _ => "expected value at line 1 column 1", "thread 'main' panicked"⟩

/-- A server that serves one byte, and a disk that takes every file. -/
def serving : Handler HostSig Unit
  | .run _ _, s => (.ok ⟨some 0, "", "", none⟩, s)
  | .client _, s => (.ok (), s)
  | .get _, s => (.ok ⟨200, "200 OK", .ok [120]⟩, s)
  | .sleep _, s => ((), s)
  | .createDirAll _, s => (.ok (), s)
  | .write _ _, s => (.ok (), s)

/-- A configured release. -/
def releasing : AdapterCtx :=
  { AdapterCtx.new "app" "production" with
    resolvedSecrets := [("DATABASE_URL", "postgres://app:secret@db/app")]
    settings := [("release_url", .str "https://host/app"), ("version", .str "1.0.0")] }

/-- A client of the release adapter, launched on this host. -/
def releaseClient : IpcClient where
  program := "fraisier-adapter-release"
  args := []
  envs := []
  name := "release"
  timeout := "60s"
  launcher := .local

/-- A release is downloaded and staged over the protocol. -/
theorem release_transparent_served :
    let _ : JsonTexts := writtenTexts
    let _ : ProcessTexts := sampleProcess
    ((((ipcArtifactProgram releaseClient).stage releasing ⟨"web-1"⟩).link
        (transact (serve true
          (Release.dispatch "1.0.0" (Release.program (fun _ => [171]) 7))))).exec
      (serving.prod ((files faultless).prod (links faultless))) []
        ((), ⟨∅, 0⟩, ⟨∅, 0⟩)).value =
      some (.ok ⟨⟨"1.0.0", some "ab"⟩, "./.fraisier-staging/1.0.0"⟩) := by
  intro texts process
  have hctx : AdapterCtx.IsSent releasing := by
    refine ⟨.nil, ?_, ?_⟩
    · refine .obj _ ?_ ?_
      · simp only [releasing, List.forall_mem_cons]
        exact ⟨.str _, .str _, by simp⟩
      · show Sorted [("release_url", _), ("version", _)]
        rw [Sorted, List.pairwise_cons]
        exact ⟨by simp; decide, List.pairwise_singleton _ _⟩
    · refine .obj _ _ ?_
      simp only [releasing, List.forall_mem_cons]
      exact ⟨.str _ _, .str _ _, by simp⟩
  have hlaunch : releaseClient.command (some releasing) "stage" =
      .ok ⟨"fraisier-adapter-release", [], []⟩ := rfl
  have hrun := (release_transparent releaseClient "1.0.0" (Release.program (fun _ => [171]) 7) true
    hctx ⟨"web-1"⟩ (serving.prod ((files faultless).prod (links faultless))) []
    ((), ⟨∅, 0⟩, ⟨∅, 0⟩)).1 hlaunch
    (by
      show (_ : Nat) ≤ _
      decide +kernel)
    (by
      show (_ : Nat) ≤ _
      decide +kernel)
  rw [hrun]
  rfl

end Fraisier.Ipc
