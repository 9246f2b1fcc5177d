import Fraisier.Cli.FailureRecord
import Fraisier.Cli.Stack
import Fraisier.Effect.Pool
import Fraisier.SelfUpgrade.Swap

/-!
# Alerts of scheduled runs

A scheduled run that fails records why, in a file of its invocation. The alert of its unit reads
the record, sends it once and deletes it. `recorded` is what the failed run does last, and `notify`
is the alert.
-/

namespace Fraisier.Cli.Alerts

open Fraisier.Data Fraisier.Effect Fraisier.Saga
open Fraisier.Cli.Stacks (CommandOutput)
open Fraisier.SelfUpgrade (FailurePayload)

/-! ## The commands -/

/-- The scheduled runs that report through a record. -/
inductive ScheduledRun where
  | backup
  | prune
  | drill
  | refresh
deriving DecidableEq

/-- The event that a failure of a run is reported as. -/
def ScheduledRun.event : ScheduledRun → String
  | .backup => "scheduled-backup-failed"
  | .prune => "scheduled-prune-failed"
  | .drill => "scheduled-drill-failed"
  | .refresh => "scheduled-refresh-failed"

/-- What `[deploy]` says of the deployment. -/
structure DeployNames where
  name : Option String
  environment : Option String

/-- What an alert reads of the configuration. -/
structure AlertConfig where
  deploy : Option DeployNames
  notifyCommand : Option String

/-- A message: to a hook, in its environment and on its input, or to the journal. -/
inductive Delivery where
  | hook (command : String) (env : List (String × String)) (stdin : String)
  | journal (line : String)

/-- The output of an alert. -/
structure AlertOutput extends CommandOutput where
  json : Json

/-- What a failed run and its alert ask of their host. A process that ends says how. -/
inductive AlertCall where
  | load
  | now
  | createDirAll (dir : PathBuf)
  | openNew (path : PathBuf) (mode : Nat)
  | write (path : PathBuf) (bytes : List UInt8)
  | rename (source target : PathBuf)
  | remove (path : PathBuf)
  | size (path : PathBuf)
  | read (path : PathBuf)
  | warn (line : String)
  | deliver (delivery : Delivery)
  | exit (result : Except String AlertOutput)

/-- The answers. The clock may be before its epoch. -/
def AlertCall.Answer : AlertCall → Type
  | .load => Except String AlertConfig
  | .now => Option UInt64
  | .size _ => Except String Nat
  | .read _ => Except String (List UInt8)
  | .warn _ => Unit
  | .exit _ => Unit
  | _ => Except String Unit

@[reducible] def AlertSig : Sig where
  Cmd := AlertCall
  Ans := AlertCall.Answer

def ask (c : AlertCall) : Prog AlertSig c.Answer :=
  Prog.perform (S := AlertSig) c

/-! ## Recording -/

section Recording

variable [CharTables]

/-- How a command of the program ends. -/
abbrev Outcome : Type := Except String CommandOutput

/-- Why a run failed, if it did. -/
def failureReason : Outcome → Option String
  | .ok output => if output.exitCode = 0 then none else some (trim output.pretty)
  | .error error => some (Redact.credentials error)

/-- Write a file under another name, and move it over. -/
def put (unfinished path : PathBuf) (body : List UInt8) : Prog AlertSig (Except String Unit) :=
  Prog.attempt (ask (.openNew unfinished 0o600)) id fun _ =>
    Prog.attempt (ask (.write unfinished body)) id fun _ => ask (.rename unfinished path)

/-- Write what is complete before it is visible; what can not be moved is removed. -/
def publish (dir : PathBuf) (id : String) (body : List UInt8) :
    Prog AlertSig (Except String PathBuf) := do
  match ← put (unfinishedPath dir id) (recordPath dir id) body with
  | .error cause =>
      let _ ← ask (.remove (unfinishedPath dir id))
      return .error cause
  | .ok () => return .ok (recordPath dir id)

/-- Write a record, with its reason redacted. -/
def FailureRecord.write (dir : PathBuf) (record : FailureRecord) :
    Prog AlertSig (Except String PathBuf) :=
  if isInvocationId record.invocationId then
    match bounded { record with reason := Redact.credentials record.reason } with
    | .error cause => return .error cause
    | .ok body =>
        Prog.attempt (ask (.createDirAll dir)) id fun _ => publish dir record.invocationId body
  else return .error "not a systemd invocation ID"

/-- Record why a run failed, or say why that could not be done. -/
def recordFailure (run : ScheduledRun) (unit : String) (outcome : Outcome)
    (invocationId : Option String) (dir : PathBuf) :
    Prog AlertSig (Except String (Option PathBuf)) :=
  match failureReason outcome, invocationId with
  | none, _ => return .ok none
  | some _, none =>
      return .error "no failure record written: INVOCATION_ID is not set (not run by systemd?)"
  | some reason, some id => do
      let config ← ask .load
      let deploy := config.toOption.bind AlertConfig.deploy
      let now ← ask .now
      let record : FailureRecord := ⟨run.event, deploy.bind DeployNames.name,
        deploy.bind DeployNames.environment, unit, id, now.getD 0, reason⟩
      match ← record.write dir with
      | .ok path => return .ok (some path)
      | .error cause =>
          return .error ("no failure record written to " ++ dir.display ++ ": " ++ cause)

/-- Leave the record that a run asks for. The outcome is what it was. -/
def recorded (outcome : Outcome) (run : ScheduledRun) (unit invocationId : Option String)
    (dir : PathBuf) : Prog AlertSig Outcome :=
  match unit with
  | none => return outcome
  | some unit => do
      match ← recordFailure run unit outcome invocationId dir with
      | .ok _ => return outcome
      | .error warning =>
          let _ ← ask (.warn ("warning: " ++ warning))
          return outcome

end Recording

/-! ## Finding the record -/

/-- The record of an invocation and its path. One that is absent, too large or unreadable is
none. -/
def FailureRecord.find (dir : PathBuf) (id : String) :
    Prog AlertSig (Option (FailureRecord × PathBuf)) :=
  if isInvocationId id then do
    match ← ask (.size (recordPath dir id)) with
    | .error _ => return none
    | .ok size =>
        if maxBytes < size then return none
        else
          match ← ask (.read (recordPath dir id)) with
          | .error _ => return none
          | .ok bytes => return (ofBody bytes).map fun record => (record, recordPath dir id)
  else return none

/-- The event of a unit that left no record, by the names that units are generated with. -/
def eventForUnit (unit : String) : String :=
  let name := (stripSuffix unit ".service").getD unit
  if (stripSuffix name "-drill").isSome then ScheduledRun.drill.event
  else if (stripSuffix name "-refresh").isSome then ScheduledRun.refresh.event
  else if containsText name "-retain-" then ScheduledRun.prune.event
  else if (stripSuffix name "-scheduled").isSome then ScheduledRun.backup.event
  else "scheduled-unit-failed"

/-! ## The message -/

section Messages

variable [CharTables] (config : AlertConfig) (unit : String) (invocationId : Option String)
  (record : Option FailureRecord)

def fraiseOf : Option String :=
  (record.bind FailureRecord.fraise).or (config.deploy.bind DeployNames.name)

def environmentOf : Option String :=
  (record.bind FailureRecord.environment).or (config.deploy.bind DeployNames.environment)

/-- What `journalctl` is asked for when there is no record. -/
def pointerOf : String :=
  match invocationId with
  | none => "-u " ++ unit
  | some id => "_SYSTEMD_INVOCATION_ID=" ++ id

/-- What failed, as far as that is known. -/
def failedOf : Option String :=
  match fraiseOf config record, environmentOf config record with
  | some fraise, some environment => some (fraise ++ "/" ++ environment)
  | _, _ => none

/-- What an alert says. The reason of a record is redacted again: something else may have written
it. -/
def alertPayload : FailurePayload where
  event := match record with
    | none => eventForUnit unit
    | some r => r.event
  failed := failedOf config record
  restored := none
  reason := match record with
    | none => "no failure record; see journalctl " ++ pointerOf unit invocationId
    | some r => Redact.credentials r.reason

def encodePayload (payload : FailurePayload) : Json :=
  .obj [("event", .str payload.event), ("failed", Json.ofOption .str payload.failed),
    ("restored", Json.ofOption .str payload.restored), ("reason", .str payload.reason)]

/-- The message that a hook is run with: a field in its environment is a field on its input. -/
def hookDelivery (command : String) (context : List (String × String)) (payload : FailurePayload) :
    Delivery :=
  let reason := Redact.credentials payload.reason
  .hook command
    ([("FRAISIER_NOTIFY_EVENT", payload.event), ("FRAISIER_NOTIFY_REASON", reason)] ++
      payload.failed.toList.map (fun failed => ("FRAISIER_NOTIFY_FAILED", failed)) ++
      payload.restored.toList.map (fun restored => ("FRAISIER_NOTIFY_RESTORED", restored)) ++
      context)
    (String.ofList (Json.render (encodePayload { payload with reason := reason })))

/-- What a hook is told beside the payload. -/
def alertContext : List (String × String) :=
  ("FRAISIER_NOTIFY_UNIT", unit) ::
    ([("FRAISIER_NOTIFY_FRAISE", fraiseOf config record),
      ("FRAISIER_NOTIFY_ENVIRONMENT", environmentOf config record),
      ("FRAISIER_NOTIFY_INVOCATION_ID", invocationId)].filterMap fun entry =>
        entry.2.map fun value => (entry.1, value))

/-- What is left in the journal without a hook. -/
def journalLine : String :=
  let payload := alertPayload config unit invocationId record
  "no [notify].command; " ++ payload.event ++ " for " ++ unit ++ ": " ++
    String.ofList (Json.render (encodePayload payload))

/-- The message of an alert. -/
def deliveryOf : Delivery :=
  match config.notifyCommand with
  | some command => hookDelivery command (alertContext config unit invocationId record)
      (alertPayload config unit invocationId record)
  | none => .journal (journalLine config unit invocationId record)

/-- Whether an alert reached someone, when it was answered. Without a hook it did not. -/
def reached (answer : Except String Unit) : Bool :=
  config.notifyCommand.isSome && answer.isOk

/-- What an alert that was sent prints, and its exit code. -/
def outputOf (answer : Except String Unit) : AlertOutput :=
  let event := (alertPayload config unit invocationId record).event
  let json := Json.obj [("event", .str event), ("unit", .str unit), ("record", .bool record.isSome),
    ("sink", .bool config.notifyCommand.isSome), ("delivered", .bool (reached config answer))]
  match config.notifyCommand, answer with
  | none, _ => ⟨⟨0, journalLine config unit invocationId record ++ "\n"⟩, json⟩
  | some _, .ok _ =>
      ⟨⟨0, "sent " ++ event ++ " for " ++ unit ++ " through [notify].command\n"⟩, json⟩
  | some _, .error cause =>
      ⟨⟨1, "[notify].command did not deliver " ++ event ++ " for " ++ unit ++ ": " ++ cause ++
        "\n"⟩, json⟩

end Messages

/-! ## The alert -/

section Alert

variable [CharTables]

/-- The record that was found, if it is about this activation of the unit. -/
def matching (unit : String) (invocationId : Option String)
    (found : Option (FailureRecord × PathBuf)) : Option FailureRecord :=
  (found.map Prod.fst).filter fun record =>
    some record.invocationId == invocationId && record.unit == unit

/-- Look for the record of an invocation that is known. -/
def findFor (dir : PathBuf) : Option String → Prog AlertSig (Option (FailureRecord × PathBuf))
  | none => return none
  | some id => FailureRecord.find dir id

/-- Delete the record that was found: it could only be sent again. -/
def consume : Option (FailureRecord × PathBuf) → Prog AlertSig Unit
  | none => return ()
  | some (_, path) => do
      let _ ← ask (.remove path)
      return ()

/-- Send the message about what was found, once, and delete it. -/
def sendFound (config : AlertConfig) (unit : String) (invocationId : Option String)
    (found : Option (FailureRecord × PathBuf)) : Prog AlertSig (Except String AlertOutput) := do
  let record := matching unit invocationId found
  let answer ← ask (.deliver (deliveryOf config unit invocationId record))
  consume found
  return .ok (outputOf config unit invocationId record answer)

/-- The alert of a unit: it sends the record of the invocation that failed, or points to the
journal, once. -/
def notify (unit : String) (monitorInvocationId : Option String) (dir : PathBuf) :
    Prog AlertSig (Except String AlertOutput) := do
  match ← ask .load with
  | .error cause => return .error cause
  | .ok config =>
      let invocationId := monitorInvocationId.filter isInvocationId
      let found ← findFor dir invocationId
      sendFound config unit invocationId found

end Alert

end Fraisier.Cli.Alerts
