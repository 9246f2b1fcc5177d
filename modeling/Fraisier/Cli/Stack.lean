import Fraisier.Config.Stack
import Fraisier.Core.Adapters
import Fraisier.Effect.History
import Fraisier.Saga.Redact

/-!
# Deploying a stack

The members of a stack deploy one after the other and the first failure stops the rest. With
a router, its candidate release is staged first, and the health step of each member with a
schema compares what the member serves with that release. What a member's deploy does apart
from checking its health is a parameter. Read `stackDeploy` first.
-/

namespace Fraisier.Cli.Stacks

open Fraisier.Effect Fraisier.Core Fraisier.Config Fraisier.Data Fraisier.Saga

/-! ## Comparing schemas -/

/-- What one member's check found. -/
inductive Verdict where
  | matched
  | differs (why : String)
  | unchecked (why : String)
  | notChecked (why : String)
deriving DecidableEq

namespace Verdict

/-- Whether the command may succeed. -/
def ok : Verdict → Bool
  | .matched | .notChecked _ => true
  | .differs _ | .unchecked _ => false

/-- Why the member fails. -/
def problem : Verdict → Option String
  | .differs why | .unchecked why => some why
  | .matched | .notChecked _ => none

/-- The verdict on a comparison, without the credentials its texts may hold. -/
def of [CharTables] : Except String (Option String) → Verdict
  | .ok none => .matched
  | .ok (some why) => .differs (Redact.credentials why)
  | .error why => .unchecked (Redact.credentials why)

end Verdict

/-- A text without the newlines at its end. -/
def trimNewlines (text : String) : String :=
  String.ofList (text.toList.reverse.dropWhile (· == '\n')).reverse

/-- A text, cut to a readable length. -/
def clip (text : String) : String :=
  if text.length ≤ 120 then text else String.ofList (text.toList.take 120) ++ "…"

/-- How a side that ended or a line is shown. -/
def shown : Option String → String
  | none => "nothing"
  | some text => s!"`{clip text}`"

/-- Where two lists of lines first differ, from a line number on. -/
def differAt : Nat → List String → List String → String
  | number, served :: servedLines, live :: liveLines =>
      if served = live then differAt (number + 1) servedLines liveLines
      else s!"they differ at line {number}: the router's release has {shown (some served)}, " ++
        s!"the subgraph serves {shown (some live)}"
  | number, servedLines, liveLines =>
      s!"they differ at line {number}: the router's release has {shown servedLines.head?}, " ++
        s!"the subgraph serves {shown liveLines.head?}"

/-- Where the live schema first differs from the one the release holds. -/
def sdlDifference (live served : String) : Option String :=
  let live := trimNewlines live
  let served := trimNewlines served
  if live = served then none else some (differAt 1 (lines served) (lines live))

theorem sdlDifference_eq_none {live served : String} :
    sdlDifference live served = none ↔ trimNewlines live = trimNewlines served := by
  simp [sdlDifference]

/-- Put `mask` in place of every occurrence of `part`; the first characters of a text may
belong to the last occurrence. -/
def replaceFrom (part mask : List Char) : Nat → List Char → List Char
  | _, [] => if part = [] then mask else []
  | 0, c :: rest =>
      if part = [] then mask ++ c :: replaceFrom part mask 0 rest
      else if part.isPrefixOf (c :: rest) then
        mask ++ replaceFrom part mask (part.length - 1) rest
      else c :: replaceFrom part mask 0 rest
  | n + 1, _ :: rest => replaceFrom part mask n rest

/-- Hide the values of the headers in a text. -/
def hide (headers : List (String × String)) (text : String) : String :=
  headers.foldl (fun text header =>
    String.ofList (replaceFrom header.2.toList Redact.mask 0 text.toList)) text

/-! ## The commands -/

/-- What happened to one member. -/
inductive MemberOutcome where
  | deployed
  | failed (why : String)
  | skipped
deriving DecidableEq

/-- A member's check against the candidate release of the router. -/
structure SdlGate where
  member : String
  served : PathBuf
  url : String
deriving DecidableEq

/-- What a stack deploy does: it stages the router, begins and ends the deploys of members,
probes members, reads schemas and keeps verdicts. -/
inductive StackCmd where
  | stage (router : Member) (version : Option String)
  | isDir (path : PathBuf)
  | start (member : Member) (version : Option String)
  | finish (member : Member) (outcome : MemberOutcome)
  | probe (member : Member) (ctx : AdapterCtx) (host : HostId)
  | servedSdl (path : PathBuf)
  | resolveHeaders (member : String) (ctx : AdapterCtx)
  | liveSdl (url : String) (headers : List (String × String))
  | record (gate : SdlGate) (verdict : Verdict)

/-- Staging answers a path, probing a status, the reads what was read or an error. -/
@[reducible] def StackSig : Sig where
  Cmd := StackCmd
  Ans
    | .stage .. => Except String PathBuf
    | .isDir _ => Bool
    | .start .. | .finish .. | .record .. => Unit
    | .probe .. => Except AdapterError HealthStatus
    | .servedSdl _ | .liveSdl .. => Except String String
    | .resolveHeaders .. => Except AdapterError (List (String × String))

/-- What a member's deploy asks of the health adapter that it is given. -/
@[reducible] def HealthSig : Sig where
  Cmd := AdapterCtx × HostId
  Ans _ := Except AdapterError HealthStatus

variable {T : Sig} {α : Type}

/-- Perform a command of the stack. -/
def command (c : StackCmd) : Prog (StackSig.sum T) (StackSig.Ans c) :=
  .call (.inl c) .ret

/-! ## The gate of a member -/

namespace SdlGate

/-- A member's gate against a candidate release. -/
def new (member : Member) (candidate : PathBuf) : Option SdlGate := do
  let sdl ← member.sdl
  let url ← member.graphqlUrl
  return { member := member.name, served := candidate.join sdl, url }

/-- Compare what the member serves with what the candidate release holds. -/
def compare (gate : SdlGate) (ctx : AdapterCtx) :
    Prog (StackSig.sum T) (Except String (Option String)) := do
  match ← command (.servedSdl gate.served) with
  | .error error => return .error s!"cannot read {gate.served.display}: {error}"
  | .ok served =>
      match ← command (.resolveHeaders gate.member ctx) with
      | .error error => return .error s!"cannot ask {gate.url} for its SDL: {error}"
      | .ok headers =>
          match ← command (.liveSdl gate.url headers) with
          | .error error =>
              return .error (hide headers s!"cannot ask {gate.url} for its SDL: {error}")
          | .ok live =>
              return .ok ((sdlDifference live served).map fun why => hide headers
                (s!"the live SDL at {gate.url} is not {gate.served.display}: {why}. " ++
                  "Recapture the SDL, recompose, and deploy the router"))

/-- Keep a verdict, unless an earlier one already failed. -/
def keep (kept : Option Verdict) (verdict : Verdict) : Option Verdict :=
  if kept.all Verdict.ok then some verdict else kept

variable [CharTables]

/-- The guarded health check: the member's own, then the comparison. Its reads stand where
its verdict is kept, since nothing runs between the two. -/
def check (gate : SdlGate) (member : Member) (ctx : AdapterCtx) (host : HostId)
    (kept : Option Verdict) :
    Prog (StackSig.sum T) (Except AdapterError HealthStatus × Option Verdict) := do
  match ← command (.probe member ctx host) with
  | .error error => return (.error error, kept)
  | .ok status =>
      if !status.healthy then return (.ok status, kept)
      else
        let verdict := Verdict.of (← gate.compare ctx)
        command (.record gate verdict)
        match verdict.problem with
        | none => return (.ok status, keep kept verdict)
        | some why => return (.ok { healthy := false, detail := some why }, keep kept verdict)

end SdlGate

section Gated

variable [CharTables]

/-- The health check that a member's deploy is given. -/
def memberCheck (gate : Option SdlGate) (member : Member) (ctx : AdapterCtx) (host : HostId)
    (kept : Option Verdict) :
    Prog (StackSig.sum T) (Except AdapterError HealthStatus × Option Verdict) :=
  match gate with
  | some gate => gate.check member ctx host kept
  | none => do return (← command (.probe member ctx host), kept)

/-- Run a member's deploy with its health checks guarded. -/
def guardedRun (gate : Option SdlGate) (member : Member) :
    Prog (HealthSig.sum T) α → Option Verdict → Prog (StackSig.sum T) (α × Option Verdict)
  | .ret a, kept => .ret (a, kept)
  | .call (.inl (ctx, host)) k, kept => do
      let (answer, kept) ← memberCheck gate member ctx host kept
      guardedRun gate member (k answer) kept
  | .call (.inr c) k, kept => .call (.inr c) fun x => guardedRun gate member (k x) kept
  | .choose k, kept => .choose fun b => guardedRun gate member (k b) kept

end Gated

/-! ## Deploying the members -/

/-- What a command prints, and its exit code. -/
structure CommandOutput where
  exitCode : Int
  pretty : String

/-- How a member deploys: what its deploy does, and why its configuration refuses it. -/
structure MemberDeployer (T : Sig) where
  deploy : Member → Option String → Prog (HealthSig.sum T) (Except String CommandOutput)
  invalid : Member → List String

/-- The outcome of a deploy. -/
def outcomeOf : Except String CommandOutput → MemberOutcome
  | .ok output => if output.exitCode = 0 then .deployed else .failed (trim output.pretty)
  | .error error => .failed error

/-- A member's outcome, and the verdict its gate kept. -/
structure MemberReport where
  name : String
  outcome : MemberOutcome
  kept : Option Verdict

section Deploy

variable [CharTables] (deployer : MemberDeployer T)

/-- Deploy one member. -/
def deployMember (versions : List (String × String)) (gate : Option SdlGate) (member : Member) :
    Prog (StackSig.sum T) (MemberOutcome × Option Verdict) := do
  let version := versions.lookup member.name
  command (.start member version)
  let (result, kept) ← guardedRun gate member (deployer.deploy member version) none
  command (.finish member (outcomeOf result))
  return (outcomeOf result, kept)

/-- Deploy members in order, until one fails. -/
def deployMembers (versions : List (String × String)) (gates : List (String × SdlGate)) :
    Bool → List Member → Prog (StackSig.sum T) (List MemberReport)
  | _, [] => return []
  | true, member :: members => do
      let rest ← deployMembers versions gates true members
      return { name := member.name, outcome := .skipped, kept := none } :: rest
  | false, member :: members => do
      let (outcome, kept) ← deployMember deployer versions (gates.lookup member.name) member
      let rest ← deployMembers versions gates (outcome != .deployed) members
      return { name := member.name, outcome, kept } :: rest

end Deploy

/-! ## The command -/

/-- Split a text at its first `=`. -/
def splitOnce (text : String) : Option (String × String) :=
  let head := text.toList.takeWhile (· != '=')
  match text.toList.drop head.length with
  | [] => none
  | _ :: rest => some (String.ofList head, String.ofList rest)

/-- The versions that pairs `name=version` ask for. -/
def parseVersions (stack : Stack) (pairs : List String) :
    Except String (List (String × String)) :=
  pairs.foldlM (fun versions pair =>
    match splitOnce pair with
    | none => .error s!"--app-version takes <member>=<version>, not '{pair}'"
    | some (name, version) =>
        if name ∉ stack.members.map Member.name then
          .error (s!"--app-version names '{name}', which is not a member (members: " ++
            ", ".intercalate (stack.members.map Member.name) ++ ")")
        else if versions.any fun entry => entry.1 == name then
          .error s!"--app-version names '{name}' twice"
        else .ok (insertEntry versions name version)) []

/-- The stack's router. -/
def routerOf (stack : Stack) : Option Member :=
  stack.router.bind (findMember stack.members)

/-- Why a router's release cannot be read where the command runs. -/
def onHosts (router : String) : String :=
  s!"the router '{router}' deploys through [hosts], so its release is on its hosts; " ++
    "fraisier reads SDL files only on the host it runs on"

/-- The refusal for members with a schema under a router on hosts. -/
def routerOnHosts (stack : Stack) : Option String := do
  let router ← (routerOf stack).filter fun router => router.config.hosts
  let checked := (stack.members.filter fun member => member.sdl.isSome).map
    fun member => s!"'{member.name}'"
  let (noun, verb) ← match checked with
    | [] => none
    | [_] => some ("member", "declares")
    | _ => some ("members", "declare")
  return s!"refusing to deploy: {noun} " ++ ", ".intercalate checked ++ s!" {verb} sdl, but " ++
    onHosts router.name ++ ". Remove sdl to deploy without the check. Nothing deployed."

/-- The refusal for members with an invalid configuration. -/
def invalidMembers (deployer : MemberDeployer T) (stack : Stack) : Option String :=
  let invalid := stack.members.flatMap fun member =>
    (deployer.invalid member).map fun why => s!"member '{member.name}': {why}"
  if invalid.isEmpty then none
  else some ("refusing to deploy: a member's config is invalid, so nothing deployed\n  " ++
    "\n  ".intercalate invalid)

/-- The stack and the versions, or the refusal that stops the command before it begins. -/
def ready (deployer : MemberDeployer T) (loaded : Except StackError Stack)
    (pairs : List String) : Except String (Stack × List (String × String)) := do
  let stack ← loaded.mapError fun problems =>
    "invalid stack file:\n  " ++ "\n  ".intercalate problems
  let versions ← parseVersions stack pairs
  match (invalidMembers deployer stack).or (routerOnHosts stack) with
  | some refusal => .error refusal
  | none => .ok (stack, versions)

/-- Where the schemas are checked against. -/
inductive Candidate where
  | none
  | notChecked (why : String)
  | staged (release : PathBuf)
  | unreadable (why : String)
  | failed (why : String)
deriving DecidableEq

/-- Stage the candidate release of the router, unless nothing is checked. -/
def candidate (stack : Stack) (versions : List (String × String)) (dryRun : Bool) :
    Prog (StackSig.sum T) Candidate :=
  match routerOf stack with
  | none => return .none
  | some router =>
      if !stack.members.any fun member => member.sdl.isSome then return .none
      else if dryRun then return .notChecked "dry run"
      else do
        match ← command (.stage router (versions.lookup router.name)) with
        | .error error => return .failed error
        | .ok path =>
            if ← command (.isDir path) then return .staged path
            else return .unreadable (s!"the router '{router.name}' stages its release as " ++
              s!"{path.display}, not a directory, so it holds no SDL file")

/-- The gates of the members, for a release that was staged. -/
def gatesOf (stack : Stack) : Candidate → List (String × SdlGate)
  | .staged release => stack.members.filterMap fun member =>
      (SdlGate.new member release).map fun gate => (member.name, gate)
  | _ => []

/-- One member's finding. -/
structure SdlFinding where
  member : String
  verdict : Verdict

/-- What the checks found, of the members with a schema. -/
def findingsOf (candidate : Candidate) (members : List Member) (reports : List MemberReport) :
    List SdlFinding :=
  (members.zip reports).filterMap fun (member, report) =>
    if member.sdl.isNone then none
    else match candidate with
      | .staged _ => report.kept.map (SdlFinding.mk member.name)
      | .notChecked why => some ⟨member.name, .notChecked why⟩
      | .unreadable why =>
          if report.outcome = .deployed then some ⟨member.name, .unchecked why⟩ else none
      | .none | .failed _ => none

/-- What a stack deploy reports. -/
structure StackReport where
  members : List MemberReport
  stopped : Option String
  findings : List SdlFinding

/-- The outcome of the command: a refusal before it begins, or a report. -/
inductive StackOutput where
  | refused (message : String)
  | finished (report : StackReport)

section Command

variable [CharTables] (deployer : MemberDeployer T)

/-- Deploy the members behind a candidate; one that could not be staged skips them all. -/
def deployBehind (candidate : Candidate) (stack : Stack) (versions : List (String × String)) :
    Prog (StackSig.sum T) (List MemberReport × Option String) :=
  match candidate with
  | .failed why =>
      return (stack.members.map fun member => ⟨member.name, .skipped, none⟩,
        some ("the router's candidate release could not be staged, so nothing deployed: " ++
          Redact.credentials why))
  | candidate => do
      let reports ← deployMembers deployer versions (gatesOf stack candidate) false stack.members
      return (reports, none)

/-- `stack deploy`. -/
def stackDeploy (loaded : Except StackError Stack) (pairs : List String) (dryRun : Bool) :
    Prog (StackSig.sum T) StackOutput :=
  match ready deployer loaded pairs with
  | .error refusal => return .refused refusal
  | .ok (stack, versions) => do
      let candidate ← candidate stack versions dryRun
      let (reports, stopped) ← deployBehind deployer candidate stack versions
      return .finished
        { members := reports
          stopped
          findings := findingsOf candidate stack.members reports }

end Command

end Fraisier.Cli.Stacks
