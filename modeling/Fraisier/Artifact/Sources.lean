import Fraisier.Core.Tools
import Fraisier.Data.Paths
import Fraisier.Data.Percent

/-!
# Where artifacts come from

Two sources of an artifact. `pullStage` lets the host fetch it, with commands that are run
there. `releaseStage` downloads it and writes it below the staging directory. Each compares
what it fetched with a checksum, if it has one.
-/

namespace Fraisier.Artifact

open Fraisier.Core Fraisier.Effect
open Fraisier.Data (Json)

/-! ## The host -/

/-- A response to a request: its status, as a number and as a text, and its body, unless that
cannot be read. -/
structure Response where
  status : Nat
  statusText : String
  body : Except String (List UInt8)

/-- What staging asks of its process and of the host that it stages on. -/
inductive HostCall where
  | run (program : String) (args : List String)
  | client (timeoutMs : Nat)
  | get (url : String)
  | sleep (ms : Nat)
  | createDirAll (path : String)
  | write (path : String) (bytes : List UInt8)
deriving DecidableEq

/-- The host as a signature. -/
@[reducible] def HostSig : Sig where
  Cmd := HostCall
  Ans
    | .run _ _ => Except AdapterError Captured
    | .client _ => Except String Unit
    | .get _ => Except String Response
    | .sleep _ => Unit
    | .createDirAll _ => Except String Unit
    | .write _ _ => Except String Unit

def host (c : HostCall) : Prog HostSig (HostSig.Ans c) :=
  Prog.perform (S := HostSig) c

/-! ## Settings -/

/-- A setting that is a text and is not empty. -/
def stringSetting (ctx : AdapterCtx) (key : String) : Option String :=
  ((ctx.settings.lookup key).bind Json.asStr).filter fun value => value ≠ ""

/-- A setting that is an unsigned integer. -/
def u64Setting (ctx : AdapterCtx) (key : String) : Option Nat :=
  (ctx.settings.lookup key).bind Json.asU64

/-- Replace what a pattern matches, from the left; the first `skip` characters are matched
already. -/
def replaceFrom (pattern value : List Char) : Nat → List Char → List Char
  | _, [] => []
  | skip + 1, _ :: rest => replaceFrom pattern value skip rest
  | 0, c :: rest =>
      if pattern.isPrefixOf (c :: rest) then
        value ++ replaceFrom pattern value (pattern.length - 1) rest
      else c :: replaceFrom pattern value 0 rest

/-- A URL for a version. -/
def substitute (version url : String) : String :=
  String.ofList (replaceFrom "\x7bversion\x7d".toList version.toList 0 url.toList)

/-- Lower the ASCII letters of a text. -/
def asciiLower (text : String) : String :=
  String.ofList (text.toList.map Char.toLower)

/-- The first word of a text. -/
def firstToken (text : String) : Option String :=
  (Data.splitWhitespace text).head?

/-- A byte as two lower-case digits. -/
def hexByte (byte : UInt8) : List Char :=
  [Nat.digitChar (byte.toNat / 16), Nat.digitChar (byte.toNat % 16)]

/-- The lower-case hex encoding of some bytes. -/
def hex (bytes : List UInt8) : String :=
  String.ofList (bytes.flatMap hexByte)

/-- A setting that has to be there. -/
def requireSetting (adapter operation : String) (ctx : AdapterCtx) (key : String) :
    Except AdapterError String :=
  match stringSetting ctx key with
  | some value => .ok value
  | none => .error (.tagged .invalidConfig adapter operation
      s!"no '{key}' configured in [artifact] settings" none)

/-- Compare what an artifact has with the checksum that is expected of it. -/
def checkSum (adapter version expected actual : String) : Except AdapterError Unit :=
  if actual = expected then .ok ()
  else .error (.tagged .execution adapter "stage"
    s!"checksum mismatch for {version}: expected {expected}, got {actual}" none)

/-! ## An artifact that the host pulls -/

/-- The adapter whose host fetches its own release, with a `curl` of the given name. -/
structure PullArtifact where
  curl : String

namespace PullArtifact

def adapterName : String := "pull"

/-- Run a program on the host, which has to exit with 0. -/
def exec (program : String) (args : List String) (operation : String) :
    Prog HostSig (Except AdapterError Captured) := do
  match ← host (.run program args) with
  | .error error => return .error error
  | .ok captured =>
      if captured.succeeded then return .ok captured
      else
        let code := captured.codeText
        return .error (.tagged .execution adapterName operation
          s!"`{program} …` exited with {code}" captured.stderrOpt)

/-- The checksum to expect: an inline one, or else the first word of what `checksum_url`
yields. -/
def expectedChecksum (pull : PullArtifact) (ctx : AdapterCtx) (version : String) :
    Prog HostSig (Except AdapterError (Option String)) := do
  match stringSetting ctx "sha256" with
  | some sum => return .ok (some (asciiLower (Data.trim sum)))
  | none =>
    match stringSetting ctx "checksum_url" with
    | none => return .ok none
    | some url =>
      match ← exec pull.curl ["-fSL", "--retry", "3", substitute version url] "stage" with
      | .error error => return .error error
      | .ok captured => return .ok ((firstToken captured.stdout).map asciiLower)

/-- Compare the staged file with a checksum, if there is one. -/
def verify (version stagedPath : String) :
    Option String → Prog HostSig (Except AdapterError Unit)
  | none => return .ok ()
  | some expected => do
      match ← exec "sha256sum" [stagedPath] "stage" with
      | .error error => return .error error
      | .ok captured =>
          let actual := asciiLower ((firstToken captured.stdout).getD "")
          return checkSum adapterName version expected actual

/-- The directory that releases are staged in. -/
def stagingDir (ctx : AdapterCtx) : String :=
  (stringSetting ctx "staging_dir").getD ".fraisier-staging"

/-- Fetch the release on the host. -/
def stage (pull : PullArtifact) (ctx : AdapterCtx) :
    Prog HostSig (Except AdapterError StagedArtifact) := do
  match requireSetting adapterName "stage" ctx "version" with
  | .error error => return .error error
  | .ok version =>
    match requireSetting adapterName "stage" ctx "release_url" with
    | .error error => return .error error
    | .ok release =>
      let url := substitute version release
      let stagedPath := stagingDir ctx ++ "/" ++ version
      match ← exec "mkdir" ["-p", stagingDir ctx] "stage" with
      | .error error => return .error error
      | .ok _ =>
        match ← exec pull.curl ["-fSL", "--retry", "3", url, "-o", stagedPath] "stage" with
        | .error error => return .error error
        | .ok _ =>
          match ← pull.expectedChecksum ctx version with
          | .error error => return .error error
          | .ok expected =>
            match ← verify version stagedPath expected with
            | .error error => return .error error
            | .ok () => return .ok ⟨⟨version, expected⟩, stagedPath⟩

end PullArtifact

/-! ## An artifact that is downloaded -/

namespace ReleaseArtifact

def adapterName : String := "release"

def execution (operation message : String) : AdapterError :=
  .tagged .execution adapterName operation message none

/-- A resolved configuration. -/
structure Config where
  version : String
  releaseUrl : String
  sha256 : Option String
  checksumUrl : Option String
  stagingDir : String
  attempts : Nat
  retryDelayMs : Nat
  timeoutMs : Nat

def Config.fromCtx (ctx : AdapterCtx) (operation : String) : Except AdapterError Config := do
  let version ← requireSetting adapterName operation ctx "version"
  let releaseUrl ← requireSetting adapterName operation ctx "release_url"
  let attempts := ((u64Setting ctx "attempts").filter fun n => n < 4294967296).getD 3
  return {
    version
    releaseUrl := substitute version releaseUrl
    sha256 := stringSetting ctx "sha256"
    checksumUrl := (stringSetting ctx "checksum_url").map (substitute version)
    stagingDir :=
      (stringSetting ctx "staging_dir").getD (Data.joinPath ctx.workdir ".fraisier-staging")
    attempts := max attempts 1
    retryDelayMs := (u64Setting ctx "retry_delay_ms").getD 500
    timeoutMs := (u64Setting ctx "timeout_ms").getD 30000 }

/-- The path the artifact is staged at. -/
def Config.stagedPath (config : Config) : String :=
  Data.joinPath config.stagingDir config.version

/-- One attempt at a download. -/
def fetch (url : String) : Prog HostSig (Except String (List UInt8)) := do
  match ← host (.get url) with
  | .error error => return .error error
  | .ok response =>
      if 200 ≤ response.status ∧ response.status < 300 then return response.body
      else
        let status := response.statusText
        return .error s!"HTTP {status} fetching {url}"

/-- Try again as often as there are tries left, until an attempt succeeds. -/
def retry (op : Prog HostSig (Except String (List UInt8))) (delayMs : Nat) :
    Nat → Prog HostSig (Except String (List UInt8))
  | 0 => op
  | left + 1 => do
      match ← op with
      | .ok bytes => return .ok bytes
      | .error _ =>
          if delayMs ≠ 0 then
            host (.sleep delayMs)
            retry op delayMs left
          else retry op delayMs left

/-- Download a URL. -/
def download (config : Config) (url operation : String) :
    Prog HostSig (Except AdapterError (List UInt8)) := do
  match ← retry (fetch url) config.retryDelayMs (config.attempts - 1) with
  | .error message => return .error (execution operation message)
  | .ok bytes => return .ok bytes

/-- The checksum to expect: an inline one, or else the first word of what `checksum_url`
yields. -/
def expectedChecksum (config : Config) :
    Prog HostSig (Except AdapterError (Option String)) := do
  match config.sha256 with
  | some sum => return .ok (some (asciiLower (Data.trim sum)))
  | none =>
    match config.checksumUrl with
    | none => return .ok none
    | some url =>
      match ← download config url "stage" with
      | .error error => return .error error
      | .ok raw =>
          return .ok ((firstToken (String.ofList (Data.fromUtf8Lossy raw))).map asciiLower)

/-- Write the artifact below the staging directory. -/
def writeStaged (config : Config) (bytes : List UInt8) :
    Prog HostSig (Except AdapterError Unit) := do
  match ← host (.createDirAll config.stagingDir) with
  | .error error => return .error (execution "stage" s!"failed to create staging dir: {error}")
  | .ok () =>
    match ← host (.write config.stagedPath bytes) with
    | .error error =>
        return .error (execution "stage" s!"failed to write staged artifact: {error}")
    | .ok () => return .ok ()

/-- Download the release and stage it. -/
def stage (sha256 : List UInt8 → List UInt8) (ctx : AdapterCtx) :
    Prog HostSig (Except AdapterError StagedArtifact) := do
  match Config.fromCtx ctx "stage" with
  | .error error => return .error error
  | .ok config =>
    match ← host (.client config.timeoutMs) with
    | .error error =>
        return .error (execution "stage" s!"failed to build HTTP client: {error}")
    | .ok () =>
      match ← download config config.releaseUrl "stage" with
      | .error error => return .error error
      | .ok bytes =>
        let digest := hex (sha256 bytes)
        match ← expectedChecksum config with
        | .error error => return .error error
        | .ok expected =>
          match expected.elim (.ok ()) fun sum =>
            checkSum adapterName config.version sum digest with
          | .error error => return .error error
          | .ok () =>
            match ← writeStaged config bytes with
            | .error error => return .error error
            | .ok () => return .ok ⟨⟨config.version, some digest⟩, config.stagedPath⟩

end ReleaseArtifact

end Fraisier.Artifact
