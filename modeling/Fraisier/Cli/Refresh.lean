import Fraisier.Db.Refresh

/-!
# The refresh of a database under the deploy lock

`runLocked` stops the units of the environment, replaces the database, migrates and
sanitizes it, writes the outbound flag and starts the units that were running. It acts on
the server (`ServerSig`) and on the host (`HostSig`): the unit manager, the migration
adapter, the sanitize step, the flag file and the clock.
-/

namespace Fraisier.Cli

open Fraisier.Effect Fraisier.Db

/-- What a sanitize step ran: its path, its kind and the digest of what ran. -/
structure Sanitized where
  path : String
  kind : String
  sha256 : String
deriving DecidableEq

/-- What a refresh asks of its host. `pause` waits for sessions to close and answers whether
the time for it is not over yet. -/
inductive HostCall where
  | isActive (unit : String)
  | stop (unit : String)
  | start (unit : String)
  | mainPid (unit : String)
  | environ (pid : Nat)
  | pause
  | migrate
  | sanitize (script : String) (app : PgConn) (operatorUid : Nat)
  | writeFlag (flag var : String) (gid : Nat)

/-- What each of them answers. -/
def HostCall.Answer : HostCall → Type
  | .isActive _ => Except String Bool
  | .stop _ => Except String Unit
  | .start _ => Except String Unit
  | .mainPid _ => Except String Nat
  | .environ _ => Except String (List UInt8)
  | .pause => Bool
  | .migrate => Except String (List String)
  | .sanitize _ _ _ => Except String Sanitized
  | .writeFlag _ _ _ => Except String Unit

/-- The host as a signature. -/
@[reducible] def HostSig : Sig where
  Cmd := HostCall
  Ans := HostCall.Answer

/-- The server and the host. -/
abbrev RefreshSig : Sig := ServerSig.sum HostSig

/-- Ask the host. -/
def host (c : HostCall) : Prog RefreshSig c.Answer :=
  Prog.perform (S := RefreshSig) (.inr c)

/-- The sanitize step of a configuration. -/
inductive SanitizeStep where
  | script (path : String)
  | skipped (reason : String)
deriving DecidableEq

/-- A refresh that passed every check made before the deploy lock. `minTables` is 0 where the
configuration sets none, and `drain` is in milliseconds. -/
structure RefreshPlan where
  identity : RestoreIdentity
  archive : String
  marker : String
  units : List String
  sanitize : SanitizeStep
  flag : String
  flagVar : String
  flagGid : Nat
  minTables : Nat
  operatorUid : Nat
  drain : Nat

/-- What a refresh did. -/
structure Done where
  applied : List String
  tables : Nat
  tviews : Option TviewRebuild
  sanitized : Option Sanitized
  proof : List (String × Nat)
  warnings : List String
deriving DecidableEq

/-- Why a refresh stopped, at which step, and whether the units were started again. -/
structure Failure where
  step : String
  message : String
  restarted : Bool
deriving DecidableEq

/-- A failure that left the units as they were. -/
def Failure.at (step message : String) : Failure :=
  ⟨step, message, false⟩

/-! ## Units -/

/-- Start each unit, and keep the errors. -/
def startEach : List String → Prog RefreshSig (List String)
  | [] => return []
  | unit :: rest => do
      match ← host (.start unit) with
      | .error error => return error :: (← startEach rest)
      | .ok () => startEach rest

/-- Start the units again, last stopped first, after a refusal that changed nothing. -/
def restart (running : List String) (failure : Failure) : Prog RefreshSig Failure := do
  let problems ← startEach running.reverse
  if problems.isEmpty then return { failure with restarted := true }
  else
    let joined := "; ".intercalate problems
    return { failure with
      message := failure.message ++ s!"; and starting the units again failed: {joined}" }

/-- Stop the units in order. `running` are those found running so far; an error comes with
them. -/
def stopUnits (running : List String) :
    List String → Prog RefreshSig (Except (List String × String) (List String))
  | [] => return .ok running
  | unit :: rest => do
      match ← host (.isActive unit) with
      | .error error => return .error (running, error)
      | .ok active =>
        let running := if active then running ++ [unit] else running
        match ← host (.stop unit) with
        | .error error => return .error (running, error)
        | .ok () => stopUnits running rest

/-- Stop the units, returning those that were running. One that fails to stop starts the
stopped ones again. -/
def stopAll (units : List String) : Prog RefreshSig (Except Failure (List String)) := do
  match ← stopUnits [] units with
  | .error (running, error) => return .error (← restart running (.at "stop" error))
  | .ok running => return .ok running

/-- Stop every unit again after a start that cannot be trusted. -/
def stopAgain : List String → Failure → Prog RefreshSig Failure
  | [], failure => return failure
  | unit :: rest, failure => do
      match ← host (.stop unit) with
      | .error error =>
          stopAgain rest { failure with
            message := failure.message ++ s!"; and stopping {unit} again failed: {error}" }
      | .ok () => stopAgain rest failure

/-! ## The outbound flag -/

/-- Whether a unit is a timer: what follows its last dot is `timer`. -/
def isTimer (unit : String) : Bool :=
  let kind := (unit.toList.reverse.takeWhile (· ≠ '.')).reverse
  unit.toList.contains '.' && kind == "timer".toList

/-- Whether an environment (entries that end in a zero byte) sets the variable to `1`. -/
def environSets (environ : List UInt8) (name : String) : Bool :=
  (environ.splitOn 0).contains (name ++ "=1").toUTF8.toList

/-- Every started service runs with the flag, read from its main process's environment. -/
def prove (var : String) : List String → Prog RefreshSig (Except String (List (String × Nat)))
  | [] => return .ok []
  | unit :: rest => do
      if isTimer unit then prove var rest
      else
        match ← host (.mainPid unit) with
        | .error error => return .error error
        | .ok pid =>
          if pid = 0 then
            return .error
              s!"{unit} has no running main process, so its outbound flag cannot be proven"
          else
            match ← host (.environ pid) with
            | .error error =>
                return .error <| s!"{error}: the outbound flag of {unit} cannot be proven. " ++
                  s!"Run the refresh as root (or as {unit}'s user)"
            | .ok environ =>
              if environSets environ var then
                match ← prove var rest with
                | .error error => return .error error
                | .ok proof => return .ok ((unit, pid) :: proof)
              else
                return .error s!"{unit} (pid {pid}) started without {var}=1 in its environment"

/-- Start the units in order, up to the first that fails. -/
def startInOrder : List String → Prog RefreshSig (Except String Unit)
  | [] => return .ok ()
  | unit :: rest => do
      match ← host (.start unit) with
      | .error error => return .error error
      | .ok () => startInOrder rest

/-- Write the outbound flag, start the running units, last stopped first, and prove that each
started with the flag. Where one did not, all are stopped again. -/
def startFlagged (plan : RefreshPlan) (running : List String) :
    Prog RefreshSig (Except Failure (List (String × Nat))) := do
  match ← host (.writeFlag plan.flag plan.flagVar plan.flagGid) with
  | .error error => return .error (.at "outbound flag" error)
  | .ok () =>
    match ← startInOrder running.reverse with
    | .error error => return .error (← stopAgain plan.units (.at "start" error))
    | .ok () =>
      match ← prove plan.flagVar running with
      | .ok proof => return .ok proof
      | .error error => return .error (← stopAgain plan.units (.at "outbound flag" error))

/-! ## The run -/

/-- How often sessions are waited for before the time `drain` is over: each pause takes 250
milliseconds, or `drain` where that is shorter. -/
def pauses (drain : Nat) : Nat :=
  (drain + min 250 drain - 1) / min 250 drain

/-- Wait for the sessions on the target to close. After `n` more pauses the time is over. -/
def drainSessions (identity : RestoreIdentity) : Nat → Prog RefreshSig Unit
  | 0 => do
      let _ ← (server (.connections (identity.restorer "postgres") identity.app.database)).inl
      return ()
  | n + 1 => do
      match ← (server (.connections (identity.restorer "postgres") identity.app.database)).inl with
      | .ok (_ :: _) =>
        match ← host .pause with
        | true => drainSessions identity n
        | false => return ()
      | _ => return ()

/-- Run the sanitize step, if there is one. -/
def sanitize (plan : RefreshPlan) : Prog RefreshSig (Except String (Option Sanitized)) := do
  match plan.sanitize with
  | .skipped _ => return .ok none
  | .script path =>
    match ← host (.sanitize path plan.identity.app plan.operatorUid) with
    | .error error => return .error error
    | .ok sanitized => return .ok (some sanitized)

/-- The refresh's steps after the database was replaced. -/
def finishRefresh (plan : RefreshPlan) (running : List String) (refreshed : Refreshed) :
    Prog RefreshSig (Except Failure Done) := do
  match ← host .migrate with
  | .error error => return .error (.at "migrate" error)
  | .ok applied =>
    match ← (server (.tableCount plan.identity.app)).inl with
    | .error error => return .error (.at "tables" s!"could not count the tables: {error}")
    | .ok count =>
      let tables : Nat := count
      if tables < plan.minTables then
        let minTables := plan.minTables
        return .error <| .at "tables" <|
          s!"the refreshed database holds {tables} table(s), fewer than min_tables = {minTables}"
      else
        match ← sanitize plan with
        | .error error => return .error (.at "sanitize" error)
        | .ok sanitized =>
          match ← startFlagged plan running with
          | .error failure => return .error failure
          | .ok proof =>
            let warned := Data.trim refreshed.warnings
            return .ok ⟨applied, tables, refreshed.tviews, sanitized, proof,
              if warned.isEmpty then [] else [s!"pg_restore warned: {warned}"]⟩

/-- The refresh's steps under the deploy lock. -/
def runLocked (plan : RefreshPlan) : Prog RefreshSig (Except Failure Done) := do
  match ← stopAll plan.units with
  | .error failure => return .error failure
  | .ok running =>
    drainSessions plan.identity (pauses plan.drain)
    match ← (refreshInPlace plan.identity plan.archive plan.marker).inl with
    | .error (.refused message) => return .error (← restart running (.at "refresh" message))
    | .error (.failed message) => return .error (.at "restore" message)
    | .ok refreshed => finishRefresh plan running refreshed

end Fraisier.Cli
