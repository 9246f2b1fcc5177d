import Fraisier.Core.Tools
import Fraisier.Data.Decimal
import Fraisier.Data.Paths

/-!
# The nginx load balancer

The adapter drains and reattaches a host by toggling the `down` flag of its `server` directive
in a configuration file, and it points the traffic at a fleet by an active symlink. After
either change nginx is told to reload. The directive is found and rewritten line by line.
-/

namespace Fraisier.Lb

open Fraisier.Core Fraisier.Effect
open Fraisier.Data (Json)

/-! ## The host -/

/-- What the adapter asks of the file system and of nginx. -/
inductive NginxCall where
  | readToString (path : String)
  | copy (source target : String)
  | write (path text : String)
  | rename (source target : String)
  | createDirAll (path : String)
  | pathExists (path : String)
  | removeFile (path : String)
  | symlink (target path : String)
  | readLink (path : String)
  | run (program : String) (args : List String)
deriving DecidableEq

/-- The host as a signature. Nothing at a path is no error when a link is read. -/
@[reducible] def NginxSig : Sig where
  Cmd := NginxCall
  Ans
    | .readToString _ => Except String String
    | .copy _ _ => Except String Unit
    | .write _ _ => Except String Unit
    | .rename _ _ => Except String Unit
    | .createDirAll _ => Except String Unit
    | .pathExists _ => Bool
    | .removeFile _ => Except String Unit
    | .symlink _ _ => Except String Unit
    | .readLink _ => Except String (Option String)
    | .run _ _ => Except String Captured

def ask (c : NginxCall) : Prog NginxSig (NginxSig.Ans c) :=
  Prog.perform (S := NginxSig) c

/-! ## The lines of a configuration -/

/-- A number of 32 bits, as the standard library reads it. -/
def parseU32 (text : String) : Option Nat :=
  let digits := if text.toList.head? = some '+' then text.toList.tail else text.toList
  if digits.isEmpty || !digits.all Char.isDigit then none
  else
    let value := Data.decimalValue digits
    if value < 4294967296 then some value else none

/-- Whether a trimmed line opens the block of an upstream. -/
def opensUpstream (upstream line : String) : Bool :=
  match Data.stripPrefix line "upstream" with
  | none => false
  | some rest =>
      let rest := Data.trim rest
      if rest.toList.head? = some '{' then false
      else (Data.splitWhitespace rest).head? = some upstream && line.toList.contains '{'

/-- The pieces of a directive, which blanks and semicolons separate. -/
def pieces (rest : String) : List String :=
  (rest.toList.splitOnP fun c => c = ' ' || c = '\t' || c = ';').map String.ofList

/-- The host of an address, without its port. -/
def hostPart (address : String) : String :=
  String.ofList (address.toList.takeWhile (· ≠ ':'))

/-- The membership that the pieces of a directive give. -/
def membershipOf (pieces : List String) : LbMembership where
  state := if pieces.contains "down" then .removed else .inPool
  weight := pieces.findSome? fun piece => (Data.stripPrefix piece "weight=").bind parseU32

/-- The membership that a trimmed line gives a host, if it is a directive for it. -/
def serverLine (token line : String) : Option LbMembership :=
  match Data.stripPrefix line "server" with
  | none => none
  | some rest =>
      let found := pieces (Data.trim rest)
      let address := found.head?.getD ""
      if address ≠ "" ∧ hostPart address = token then some (membershipOf found) else none

/-- Look for the directive in the lines from an index on, in the block or before it. -/
def locateFrom (upstream token : String) : Bool → Nat → List String → Option (Nat × LbMembership)
  | _, _, [] => none
  | false, index, raw :: rest =>
      locateFrom upstream token (opensUpstream upstream (Data.trim raw)) (index + 1) rest
  | true, index, raw :: rest =>
      let line := Data.trim raw
      if line.toList.head? = some '}' then none
      else
        match serverLine token line with
        | some membership => some (index, membership)
        | none => locateFrom upstream token true (index + 1) rest

/-- Find the `server` directive of a host in an upstream: its line and its membership. -/
def locate (lines : List String) (upstream token : String) : Option (Nat × LbMembership) :=
  locateFrom upstream token false 0 lines

/-- Rewrite a directive with or without the `down` flag, keeping its indentation and its other
parameters. -/
def setDown (down : Bool) (raw : String) : String :=
  let indent := String.ofList (raw.toList.takeWhile Data.isWhitespace)
  let body := Data.trimEnd (String.ofList (raw.toList.dropWhile Data.isWhitespace))
  let body := Data.trimEnd ((Data.stripSuffix body ";").getD body)
  let tokens := (Data.splitWhitespace body).filter (· ≠ "down")
  indent ++ " ".intercalate (if down then tokens ++ ["down"] else tokens) ++ ";"

/-- The text of a configuration whose line at an index is rewritten. -/
def rewritten (lines : List String) (index : Nat) (down : Bool) : String :=
  "\n".intercalate (lines.modify index (setDown down)) ++ "\n"

/-! ## The adapter -/

/-- The adapter: the nginx it runs, and the number of its own process. -/
structure NginxLb where
  program : String
  pid : Nat

namespace NginxLb

def adapterName : String := "nginx"

def execution (operation message : String) : AdapterError :=
  .tagged .execution adapterName operation message none

/-- A setting that is a text and is not empty. -/
def stringSetting (ctx : AdapterCtx) (key : String) : Option String :=
  ((ctx.settings.lookup key).bind Json.asStr).filter fun value => value ≠ ""

/-- A setting that has to be there. -/
def setting (ctx : AdapterCtx) (key operation : String) : Except AdapterError String :=
  match stringSetting ctx key with
  | some value => .ok value
  | none => .error (.tagged .invalidConfig adapterName operation
      s!"no '{key}' configured in [lb] settings" none)

/-- What a directive is matched by: the address, or else the name of the host. -/
def hostToken (ctx : AdapterCtx) (host : HostId) : String :=
  (stringSetting ctx "address").getD host.name

/-- The backup that is kept of a configuration. -/
def backupPath (path : String) : String :=
  path ++ ".bak"

/-- Where a configuration is written before it replaces the old one. -/
def temporaryPath (path : String) : String :=
  path ++ ".fraisier-tmp"

/-- Replace a file, keeping a backup of it. -/
def writeAtomic (path content operation : String) : Prog NginxSig (Except AdapterError Unit) := do
  -- the backup is best effort
  let _ ← ask (.copy path (backupPath path))
  match ← ask (.write (temporaryPath path) content) with
  | .error cause =>
      return .error (execution operation s!"failed to update nginx config {path}: {cause}")
  | .ok () =>
    match ← ask (.rename (temporaryPath path) path) with
    | .error cause =>
        return .error (execution operation s!"failed to update nginx config {path}: {cause}")
    | .ok () => return .ok ()

/-- An exit code as it is named in the message of a failed reload. -/
def debugCode : Option Int → String
  | some code => s!"Some({code})"
  | none => "None"

/-- Tell nginx to reload. -/
def reload (lb : NginxLb) (operation : String) : Prog NginxSig (Except AdapterError Unit) := do
  match ← ask (.run lb.program ["-s", "reload"]) with
  | .error cause =>
      let program := lb.program
      return .error (execution operation s!"failed to spawn '{program}': {cause}")
  | .ok captured =>
      if captured.succeeded then return .ok ()
      else
        let code := debugCode captured.code
        return .error (.tagged .execution adapterName operation
          s!"nginx -s reload failed (exit {code})" captured.stderrOpt)

/-- Toggle the `down` flag of a host and reload, returning the membership it had before. -/
def apply (lb : NginxLb) (ctx : AdapterCtx) (host : HostId) (operation : String) (down : Bool) :
    Prog NginxSig (Except AdapterError LbMembership) := do
  match setting ctx "config_path" operation with
  | .error error => return .error error
  | .ok path =>
    match setting ctx "upstream" operation with
    | .error error => return .error error
    | .ok upstream =>
      let token := hostToken ctx host
      match ← ask (.readToString path) with
      | .error cause =>
          return .error (execution operation s!"failed to read nginx config {path}: {cause}")
      | .ok content =>
        let lines := Data.lines content
        match locate lines upstream token with
        | none =>
            return .error (execution operation
              s!"host '{token}' not found in upstream '{upstream}'")
        | some (index, prior) =>
          match ← writeAtomic path (rewritten lines index down) operation with
          | .error error => return .error error
          | .ok () =>
            match ← lb.reload operation with
            | .error error => return .error error
            | .ok () => return .ok prior

/-- Take a host out of the pool. -/
def drain (lb : NginxLb) (ctx : AdapterCtx) (host : HostId) :
    Prog NginxSig (Except AdapterError LbMembership) :=
  lb.apply ctx host "drain" true

/-- Give a host the membership back that it had. -/
def reattach (lb : NginxLb) (ctx : AdapterCtx) (host : HostId) (prior : LbMembership) :
    Prog NginxSig (Except AdapterError Unit) := do
  match ← lb.apply ctx host "reattach" (decide (prior.state ≠ .inPool)) with
  | .error error => return .error error
  | .ok _ => return .ok ()

/-! ## The direction of the traffic -/

/-- The header of the files that the adapter generates. -/
def trafficMarker : String :=
  "# fraisier-generated traffic-swap include (do not edit by hand)"

/-- The link that nginx includes. -/
def activeLink : String := "active.upstream"

/-- The link to what is live. -/
def activePath (dir : String) : String :=
  Data.joinPath dir activeLink

/-- The file of a target. -/
def targetFile (dir target : String) : String :=
  Data.joinPath dir (target ++ ".upstream.conf")

/-- The texts among some documents. -/
def texts (values : List Json) : List String :=
  values.filterMap Json.asStr

/-- The servers that are configured for a target. -/
def targetServers (ctx : AdapterCtx) (target : String) : Option (List String) :=
  (((ctx.settings.lookup "targets").bind (Json.get target)).bind Json.asArray).map texts

/-- The file of a target, for its servers. -/
def renderUpstream (name : String) (servers : List String) : String :=
  trafficMarker ++ "\nupstream " ++ name ++ " \x7b\n" ++
    String.join (servers.map fun server => s!"    server {server};\n") ++ "\x7d\n"

/-- Where a link is made before it replaces the active one. -/
def temporaryLink (lb : NginxLb) (path : String) : String :=
  let name := ((Data.PathBuf.ofText path).fileName).getD "current"
  let pid := lb.pid
  Data.withFileName path s!"{name}.fraisier-tmp-{pid}"

/-- Point a link at a file, never leaving it half-way. -/
def activateSymlink (lb : NginxLb) (path staged operation : String) :
    Prog NginxSig (Except AdapterError Unit) := do
  let _ ← ask (.removeFile (lb.temporaryLink path))
  match ← ask (.symlink staged (lb.temporaryLink path)) with
  | .error cause => return .error (execution operation s!"failed to create symlink: {cause}")
  | .ok () =>
    match ← ask (.rename (lb.temporaryLink path) path) with
    | .error cause =>
        let _ ← ask (.removeFile (lb.temporaryLink path))
        return .error (execution operation s!"failed to swap active symlink: {cause}")
    | .ok () => return .ok ()

/-- Make sure that a target has a file: generate it, or find one that is there. -/
def provideTarget (ctx : AdapterCtx) (upstream target file : String) :
    Prog NginxSig (Except AdapterError Unit) := do
  match targetServers ctx target with
  | some servers =>
      match ← ask (.write file (renderUpstream upstream servers)) with
      | .error cause => return .error (execution "switch_to" s!"failed to write {file}: {cause}")
      | .ok () => return .ok ()
  | none =>
      if ← ask (.pathExists file) then return .ok ()
      else
        return .error (.tagged .invalidConfig adapterName "switch_to"
          s!"no servers configured for target '{target}' and no include at {file}" none)

/-- Point the traffic at a target. -/
def switchTo (lb : NginxLb) (ctx : AdapterCtx) (target : String) :
    Prog NginxSig (Except AdapterError String) := do
  match setting ctx "include_dir" "switch_to" with
  | .error error => return .error error
  | .ok dir =>
    match setting ctx "upstream" "switch_to" with
    | .error error => return .error error
    | .ok upstream =>
      match ← ask (.createDirAll dir) with
      | .error cause =>
          return .error (execution "switch_to" s!"failed to create include dir {dir}: {cause}")
      | .ok () =>
        match ← provideTarget ctx upstream target (targetFile dir target) with
        | .error error => return .error error
        | .ok () =>
          match ← lb.activateSymlink (activePath dir) (targetFile dir target) "switch_to" with
          | .error error => return .error error
          | .ok () =>
            match ← lb.reload "switch_to" with
            | .error error => return .error error
            | .ok () => return .ok target

/-- The target that is live. -/
def currentTarget (ctx : AdapterCtx) : Prog NginxSig (Except AdapterError String) := do
  match setting ctx "include_dir" "current_target" with
  | .error error => return .error error
  | .ok dir =>
    let active := activePath dir
    match ← ask (.readLink active) with
    | .error cause =>
        return .error (execution "current_target" s!"failed to read active link: {cause}")
    | .ok link =>
      match link.bind fun path => (Data.PathBuf.ofText path).fileName with
      | some id => return .ok ((Data.stripSuffix id ".upstream.conf").getD id)
      | none =>
          return .error (.tagged .invalidConfig adapterName "current_target"
            s!"no active upstream symlink at {active}" none)

end NginxLb

end Fraisier.Lb
