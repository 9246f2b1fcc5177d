import Fraisier.SelfUpgrade.Swap

/-!
# Upgrading a service

`apply` fetches a new binary, makes it the active one and restarts the unit. A new binary that
does not come up healthy is taken back: the link points at the one before again, and the unit is
restarted once more.
-/

namespace Fraisier.SelfUpgrade

open Fraisier.Effect

/-- What an upgrade came to. -/
inductive ApplyOutcome where
  | committed (id : String) (pruned : Nat)
  | reverted (failed restored reason : String)
  | manualIntervention (reason : String)
  | abortedBeforeSwap (reason : String)
deriving DecidableEq

/-- What an upgrade is told. -/
structure Plan where
  source : Source
  layout : Layout
  version : Option String
  keep : Nat
  systemdAvailable : Bool
  healthTimeoutMs : Nat
  pollIntervalMs : Nat
deriving DecidableEq

/-- The id of a staged binary: its version, or else a short tag of its digest. -/
def resolveId (version : Option String) (digest : String) : String :=
  version.getD ("sha-" ++ String.ofList (digest.toList.take 16))

namespace Plan

/-- Restart the unit once and wait until it is active and healthy. -/
def bringUp (plan : Plan) : Prog UpgradeSig Bool := do
  match ← ask .restart with
  | .error _ => return false
  | .ok () => ask (.becomesHealthy plan.healthTimeoutMs plan.pollIntervalMs)

/-- Report that an operator has to step in. -/
def giveUp (failed : String) (restored : Option String) (reason : String) :
    Prog UpgradeSig ApplyOutcome := do
  ask (.notify ⟨"self-upgrade-manual-intervention", some failed, restored, reason⟩)
  return .manualIntervention reason

/-- Point back at the binary that was active before, and bring it up. -/
def revert (plan : Plan) (failed : String) : Option String → Prog UpgradeSig ApplyOutcome
  | none =>
      giveUp failed none
        s!"new binary '{failed}' failed health-check and there is no kept-old binary to revert to"
  | some prior => do
      match ← plan.layout.activate prior with
      | .error error =>
          giveUp failed (some prior)
            (s!"new binary '{failed}' failed health-check and the revert to '{prior}' could " ++
              s!"not repoint the symlink: io error: {error}")
      | .ok () =>
        if ← plan.bringUp then
          let reason := s!"new binary '{failed}' failed health-check; reverted to '{prior}'"
          ask (.notify ⟨"self-upgrade-reverted", some failed, some prior, reason⟩)
          return .reverted failed prior reason
        else
          giveUp failed (some prior)
            (s!"new binary '{failed}' failed health-check AND the revert target '{prior}' is " ++
              "also unhealthy: manual intervention required")

/-- Remove the stale binaries. A commit is a commit, whether they can be removed or not. -/
def commit (plan : Plan) (id : String) : Prog UpgradeSig ApplyOutcome := do
  match ← plan.layout.prune plan.keep with
  | .error _ => return .committed id 0
  | .ok removed => return .committed id removed.length

/-- Swap a staged binary in, and keep it if it comes up healthy. -/
def swap (plan : Plan) (id : String) (prior : Option String) : Prog UpgradeSig ApplyOutcome := do
  match ← plan.layout.activate id with
  | .error error => return .abortedBeforeSwap s!"io error: {error}"
  | .ok () =>
    match ← plan.bringUp with
    | true => plan.commit id
    | false => plan.revert id prior

/-- Run an upgrade. -/
def apply (plan : Plan) : Prog UpgradeSig ApplyOutcome := do
  if !plan.systemdAvailable then
    return .abortedBeforeSwap ("not a systemd-managed deployment: `self-upgrade apply` needs " ++
      "systemd to perform the coordinated restart and auto-revert")
  else
    match ← ask (.fetch plan.source) with
    | .error error => return .abortedBeforeSwap error
    | .ok verified =>
      let id := resolveId plan.version verified.digest
      match ← plan.layout.active with
      | .error error => return .abortedBeforeSwap s!"io error: {error}"
      | .ok prior =>
        match ← plan.layout.stage id verified.bytes with
        | .error error => return .abortedBeforeSwap s!"io error: {error}"
        | .ok () => plan.swap id prior

end Plan

end Fraisier.SelfUpgrade
