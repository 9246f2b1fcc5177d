import Fraisier.Core.BlueGreen
import Fraisier.Effect.Conditions
import Fraisier.Saga.Rule

/-!
# Traffic and the two fleets

Sequences of blue-green deploys of one deployable. Which fleet is green is fixed by the
configuration, and after a commit it is the one that serves. `runs_safe` says when the
fleet that serves is left alone: every run that restarts green starts with the traffic
elsewhere, a failed swap or a failed reap of blue moves neither the traffic nor blue, and a
run that is about to swap finds the link where the traffic is.
-/

namespace Fraisier.Core

open Fraisier.Effect Fraisier.Saga
open Fraisier.Data (Json)

variable {U : Sig} {τ : Type}

/-! ## The world of two fleets -/

/-- What a blue-green deploy asks of its world. -/
inductive BgCall (U : Sig) where
  | restart (service : Service)
  | systemctl (args : List String)
  | currentTarget
  | switchTo (target : TrafficTarget)
  | other (c : U.Cmd)

/-- The calls of a blue-green deploy as a signature. -/
@[reducible] def BgSig (U : Sig) : Sig where
  Cmd := BgCall U
  Ans
    | .restart _ => Except AdapterError Unit
    | .systemctl _ => Except String Captured
    | .currentTarget => Except AdapterError TrafficTarget
    | .switchTo _ => Except AdapterError SwapToken
    | .other c => U.Ans c

/-- A call that concerns neither the traffic nor a service. -/
def BgCall.IsOther (c : BgCall U) : Prop :=
  ∃ other, c = .other other

/-- The service a `systemctl` call stops. -/
def stoppedBy : List String → Option Service
  | ["stop", unit] => some ⟨.systemd, unit⟩
  | ["--user", "stop", unit] => some ⟨.systemd, unit⟩
  | _ => none

/-- A world with traffic and services, and any answers. A restart that succeeds leaves its
service up, a swap that succeeds moves the traffic, and one that fails has moved it or not.
Nothing else moves the traffic or stops a service. What is reported as the current target is
what the link of the upstream points at. A swap moves the link before the reload that moves
the traffic, so that the two differ when the reload fails. -/
structure BgWorld (U : Sig) (τ : Type) where
  answer : Handler (BgSig U) τ
  live : τ → TrafficTarget
  link : τ → TrafficTarget
  up : τ → Service → Bool
  restarted : ∀ service t, (answer (.restart service) t).1 = .ok () →
    up (answer (.restart service) t).2 service = true
  restart_live : ∀ service t, live (answer (.restart service) t).2 = live t
  restart_up : ∀ service t other, other ≠ service →
    up (answer (.restart service) t).2 other = up t other
  systemctl_live : ∀ args t, live (answer (.systemctl args) t).2 = live t
  systemctl_up : ∀ args t service, stoppedBy args ≠ some service →
    up (answer (.systemctl args) t).2 service = up t service
  reported : ∀ t target, (answer .currentTarget t).1 = .ok target → target = link t
  current_live : ∀ t, live (answer .currentTarget t).2 = live t
  current_up : ∀ t, up (answer .currentTarget t).2 = up t
  switched : ∀ target t token, (answer (.switchTo target) t).1 = .ok token →
    live (answer (.switchTo target) t).2 = target
  switch_live : ∀ target t, live (answer (.switchTo target) t).2 = live t ∨
    live (answer (.switchTo target) t).2 = target
  switch_up : ∀ target t, up (answer (.switchTo target) t).2 = up t
  other_live : ∀ c t, live (answer (.other c) t).2 = live t
  other_up : ∀ c t, up (answer (.other c) t).2 = up t

/-- The roles a configuration gives: the service adapter, the target and the unit that are
green, and the unit and the service that are blue. -/
structure Roles where
  kind : ServiceKind
  green : TrafficTarget
  greenUnit : String
  blueUnit : String
  blue : Service

namespace Roles

variable (roles : Roles)

/-- The service of the green fleet. -/
def greenService : Service :=
  ⟨.systemd, roles.greenUnit⟩

/-- The service that answers the traffic of a target. -/
def serving (target : TrafficTarget) : Service :=
  if target = roles.green then roles.greenService else roles.blue

variable {roles}

theorem serving_green : roles.serving roles.green = roles.greenService :=
  if_pos rfl

theorem serving_ne {target : TrafficTarget} (h : target ≠ roles.green) :
    roles.serving target = roles.blue :=
  if_neg h

end Roles

/-- The traffic director of a world. -/
def bgTraffic : TrafficDirector (BgSig U) where
  currentTarget _ := @Prog.perform (BgSig U) .currentTarget
  switchTo _ target := @Prog.perform (BgSig U) (.switchTo target)

/-- The adapters of a world: the service adapter is one of those built in, and all but the
service, the traffic and `systemctl` are elsewhere. -/
structure BgAxes (U : Sig) (kind : ServiceKind) extends BlueGreenAxes (BgSig U) where
  status : AdapterCtx → HostId → Prog (BgSig U) (Except AdapterError ServiceStatus)
  service_eq : service =
    kind.adapter (fun service => @Prog.perform (BgSig U) (.restart service)) status
  traffic_eq : traffic = bgTraffic
  systemctl_eq : systemctl = fun args => @Prog.perform (BgSig U) (.systemctl args)
  var : ∀ name, (os.var name).Sequential BgCall.IsOther
  ready : ∀ probe, readiness = some probe → ∀ dsn, (probe.unready dsn).Sequential BgCall.IsOther
  describe : migration.describe.Sequential BgCall.IsOther
  preflight : ∀ ctx, (migration.preflight ctx).Sequential BgCall.IsOther
  migrate : ∀ ctx target, (migration.up ctx target).Sequential BgCall.IsOther
  hook : ∀ hook, policy.hook = some hook → ∀ request, (hook request).Sequential BgCall.IsOther
  budget : ∀ name ctx, ((connections name).probe ctx).Sequential BgCall.IsOther
  stage : ∀ ctx host, (artifact.stage ctx host).Sequential BgCall.IsOther
  activate : ∀ ctx host staged, (artifact.activate ctx host staged).Sequential BgCall.IsOther
  check : ∀ ctx host, (health.check ctx host).Sequential BgCall.IsOther
  sleeps : ∀ seconds, (sleep seconds).Sequential BgCall.IsOther

/-- A deploy built from a configuration with some roles. The settings hold the unit of the
`[service]` section, and name the blue service. -/
structure BgDeploy (U : Sig) (roles : Roles) where
  axes : BgAxes U roles.kind
  config : BlueGreenConfig
  deploy : BlueGreenDeploy (BgSig U)
  built : buildBlueGreen axes.toBlueGreenAxes config = .ok deploy
  green : deploy.green = roles.green
  greenUnit : config.blueGreen.bind BlueGreenSection.greenUnit = some roles.greenUnit
  blueUnit : config.serviceUnit = some roles.blueUnit
  unit : config.settings.lookup "unit" = some (.str roles.blueUnit)
  blue : roles.kind.service deploy.ctx = some roles.blue

/-! ## Leaving the serving fleet alone -/

namespace BgWorld

variable (W : BgWorld U τ) (roles : Roles)

/-- The traffic points at a fleet that is up. -/
def Serves (t : τ) : Prop :=
  W.up t (roles.serving (W.live t)) = true

/-- A call that neither restarts nor stops the fleet that serves, between states in which
the traffic points at a fleet that is up. -/
structure SafeCall (before : τ) (c : BgCall U) (after : τ) : Prop where
  restart : ∀ service, c = .restart service → service ≠ roles.serving (W.live before)
  stop : ∀ args service, c = .systemctl args → stoppedBy args = some service →
    service ≠ roles.serving (W.live before)
  before : W.Serves roles before
  after : W.Serves roles after

/-- A step that leaves the serving fleet alone. -/
def Safe (step : Transition (BgSig U) τ) : Prop :=
  W.SafeCall roles step.before step.cmd step.after

/-- What is asked of the steps of a run that starts with the traffic at `start`: green is
restarted only when the traffic is elsewhere at the start, the link is read only where it
points at the traffic, a swap to green that fails leaves the traffic alone, and a stop of
blue that fails leaves blue alone. -/
def Meets (start : TrafficTarget) : Transition (BgSig U) τ → Prop
  | ⟨_, .restart _, _, _⟩ => start ≠ roles.green
  | ⟨before, .currentTarget, _, _⟩ => W.link before = W.live before
  | ⟨before, .switchTo target, answer, after⟩ =>
      target = roles.green → (∀ token, answer ≠ .ok token) → W.live after = W.live before
  | ⟨before, .systemctl args, answer, after⟩ =>
      stoppedBy args = some roles.blue →
      (∀ captured, answer = .ok captured → captured.succeeded = false) →
      W.up after roles.blue = W.up before roles.blue
  | _ => True

/-- The world, with a note whether the run kept to that so far. -/
def noting (start : TrafficTarget) : Handler (BgSig U) (τ × Prop) :=
  W.answer.noting (W.Meets roles start)

/-- Every step is safe as long as the note holds. -/
def Guards : Guarantee (BgSig U) (τ × Prop) :=
  fun s c s' => s'.2 → W.SafeCall roles s.1 c s'.1

end BgWorld

section Calls

variable {W : BgWorld U τ} {roles : Roles} {start : TrafficTarget} {s : τ × Prop}

/-- Calls elsewhere keep whatever holds of the traffic and the services. -/
theorem wp_elsewhere {α : Type} {p : Prog (BgSig U) α} (hp : p.Sequential BgCall.IsOther)
    {I : TrafficTarget → (Service → Bool) → Prop}
    (hI : ∀ live up, I live up → up (roles.serving live) = true)
    (hs : s.2 → I (W.live s.1) (W.up s.1)) :
    wp (W.noting roles start) Eq (W.Guards roles) p
      (fun _ s' => s'.2 → I (W.live s'.1) (W.up s'.1)) s := by
  refine wp_post (fun _ _ h => h.2.2) (hp.wp (I := fun s => s.2 → I (W.live s.1) (W.up s.1)) ?_ hs)
  rintro _ s ⟨c, rfl⟩ hs
  have hlive : W.live (W.answer (.other c) s.1).2 = W.live s.1 := W.other_live c s.1
  have hup : W.up (W.answer (.other c) s.1).2 = W.up s.1 := W.other_up c s.1
  refine ⟨fun hnoted => ⟨by rintro _ ⟨⟩, by rintro _ _ ⟨⟩, ?_, ?_⟩, fun hnoted => ?_⟩
  · exact hI _ _ (hs hnoted.1)
  · show W.up (W.answer (.other c) s.1).2
      (roles.serving (W.live (W.answer (.other c) s.1).2)) = true
    rw [hlive, hup]
    exact hI _ _ (hs hnoted.1)
  · show I (W.live (W.answer (.other c) s.1).2) (W.up (W.answer (.other c) s.1).2)
    rw [hlive, hup]
    exact hs hnoted.1

/-- Restarting a service that does not serve. -/
theorem wp_restart {service : Service}
    {Q : Except AdapterError Unit → τ × Prop → Prop}
    (hs : s.2 → start ≠ roles.green →
      W.Serves roles s.1 ∧ service ≠ roles.serving (W.live s.1))
    (hQ : ∀ r s', (s'.2 → s.2 ∧ start ≠ roles.green ∧ W.live s'.1 = W.live s.1 ∧
      (∀ other, other ≠ service → W.up s'.1 other = W.up s.1 other) ∧
      (r = .ok () → W.up s'.1 service = true)) → Q r s') :
    wp (W.noting roles start) Eq (W.Guards roles)
      (@Prog.perform (BgSig U) (.restart service)) Q s := by
  refine wp_perform.mpr ⟨fun hnoted => ?_, hQ _ _ fun hnoted => ?_⟩
  · obtain ⟨hserves, hne⟩ := hs hnoted.1 hnoted.2
    refine ⟨?_, by rintro _ _ ⟨⟩, hserves, ?_⟩
    · rintro _ ⟨⟩
      exact hne
    · show W.up (W.answer (.restart service) s.1).2 (roles.serving (W.live
        (W.answer (.restart service) s.1).2)) = true
      rw [W.restart_live, W.restart_up _ _ _ hne.symm]
      exact hserves
  · exact ⟨hnoted.1, hnoted.2, W.restart_live _ _, W.restart_up _ _, W.restarted _ _⟩

/-- Stopping a service that does not serve. -/
theorem wp_systemctl {args : List String} {service : Service}
    (hstop : stoppedBy args = some service) {Q : Except String Captured → τ × Prop → Prop}
    (hs : s.2 → W.Serves roles s.1 ∧ service ≠ roles.serving (W.live s.1))
    (hQ : ∀ r s', (s'.2 → s.2 ∧ W.live s'.1 = W.live s.1 ∧
      (∀ other, other ≠ service → W.up s'.1 other = W.up s.1 other) ∧
      (service = roles.blue → (∀ captured, r = .ok captured → captured.succeeded = false) →
        W.up s'.1 roles.blue = W.up s.1 roles.blue)) → Q r s') :
    wp (W.noting roles start) Eq (W.Guards roles)
      (@Prog.perform (BgSig U) (.systemctl args)) Q s := by
  have hothers : ∀ other, other ≠ service →
      W.up (W.answer (.systemctl args) s.1).2 other = W.up s.1 other := by
    intro other hne
    refine W.systemctl_up args s.1 other ?_
    rw [hstop]
    exact fun heq => hne (Option.some.inj heq).symm
  refine wp_perform.mpr ⟨fun hnoted => ?_, hQ _ _ fun hnoted => ?_⟩
  · obtain ⟨hserves, hne⟩ := hs hnoted.1
    refine ⟨by rintro _ ⟨⟩, ?_, hserves, ?_⟩
    · rintro _ service' ⟨⟩ hstop'
      rw [hstop] at hstop'
      cases hstop'
      exact hne
    · show W.up (W.answer (.systemctl args) s.1).2 (roles.serving (W.live
        (W.answer (.systemctl args) s.1).2)) = true
      rw [W.systemctl_live, hothers _ hne.symm]
      exact hserves
  · refine ⟨hnoted.1, W.systemctl_live _ _, hothers, fun hblue => ?_⟩
    exact hnoted.2 (hblue ▸ hstop)

/-- Reading where the traffic points. -/
theorem wp_currentTarget {Q : Except AdapterError TrafficTarget → τ × Prop → Prop}
    (hs : s.2 → W.Serves roles s.1)
    (hQ : ∀ r s', (s'.2 → s.2 ∧ ∀ target, r = .ok target → target = W.live s.1) →
      W.live s'.1 = W.live s.1 → W.up s'.1 = W.up s.1 → Q r s') :
    wp (W.noting roles start) Eq (W.Guards roles)
      (@Prog.perform (BgSig U) .currentTarget) Q s := by
  refine wp_perform.mpr ⟨fun hnoted => ?_, hQ _ _ (fun hnoted => ⟨hnoted.1, ?_⟩) ?_ ?_⟩
  · refine ⟨by rintro _ ⟨⟩, by rintro _ _ ⟨⟩, hs hnoted.1, ?_⟩
    show W.up (W.answer .currentTarget s.1).2 (roles.serving (W.live
      (W.answer .currentTarget s.1).2)) = true
    rw [W.current_live, W.current_up]
    exact hs hnoted.1
  · exact fun target htarget => (W.reported s.1 target htarget).trans hnoted.2
  · exact W.current_live s.1
  · exact W.current_up s.1

/-- Swapping the traffic to a fleet that is up. -/
theorem wp_switchTo {target : TrafficTarget} {Q : Except AdapterError SwapToken → τ × Prop → Prop}
    (hs : s.2 → W.Serves roles s.1 ∧ W.up s.1 (roles.serving target) = true)
    (hQ : ∀ r s', (s'.2 → s.2 ∧ W.up s'.1 = W.up s.1 ∧
      (∀ token, r = .ok token → W.live s'.1 = target) ∧
      (W.live s'.1 = W.live s.1 ∨ W.live s'.1 = target) ∧
      (target = roles.green → (∀ token, r ≠ .ok token) → W.live s'.1 = W.live s.1)) → Q r s') :
    wp (W.noting roles start) Eq (W.Guards roles)
      (@Prog.perform (BgSig U) (.switchTo target)) Q s := by
  refine wp_perform.mpr ⟨fun hnoted => ?_, hQ _ _ fun hnoted => ?_⟩
  · obtain ⟨hserves, hup⟩ := hs hnoted.1
    refine ⟨by rintro _ ⟨⟩, by rintro _ _ ⟨⟩, hserves, ?_⟩
    show W.up (W.answer (.switchTo target) s.1).2 (roles.serving (W.live
      (W.answer (.switchTo target) s.1).2)) = true
    rw [W.switch_up]
    rcases W.switch_live target s.1 with hlive | hlive
    · rw [hlive]
      exact hserves
    · rw [hlive]
      exact hup
  · exact ⟨hnoted.1, W.switch_up _ _, W.switched _ _, W.switch_live _ _, hnoted.2⟩

end Calls

/-! ## The steps -/

namespace BgDeploy

variable {roles : Roles} (d : BgDeploy U roles)

/-- The fleet a deploy was built with. -/
theorem exists_fleet : ∃ f, d.deploy.BuiltFrom d.axes.toBlueGreenAxes d.config f :=
  buildBlueGreen_ok d.built

include d in
theorem blue_eq (hkind : roles.kind = .systemd) : roles.blue = ⟨.systemd, roles.blueUnit⟩ := by
  obtain ⟨f, hf⟩ := d.exists_fleet
  have hunit : d.deploy.ctx.settings.lookup roles.kind.setting = some (.str roles.blueUnit) := by
    rw [hf.settings, hkind]
    exact d.unit
  rw [ServiceKind.service_eq hunit d.blue, hkind]

include d in
/-- With systemd and two units the two fleets are different services. -/
theorem greenService_ne_blue (hkind : roles.kind = .systemd)
    (hunits : roles.greenUnit ≠ roles.blueUnit) : roles.greenService ≠ roles.blue := by
  rw [d.blue_eq hkind]
  exact fun heq => hunits (congrArg Service.name heq)

section Steps

variable {d} {W : BgWorld U τ} {start : TrafficTarget} {runtime : BgRuntime} {s : τ × Prop}

/-- The traffic is where it was at the start, and its fleet is up. -/
def Home (W : BgWorld U τ) (roles : Roles) (start : TrafficTarget) (s : τ × Prop) : Prop :=
  s.2 → W.live s.1 = start ∧ W.up s.1 (roles.serving start) = true

/-- Green is up beside the blue fleet that serves. -/
def Ready (W : BgWorld U τ) (roles : Roles) (start : TrafficTarget) (_ : BgRuntime)
    (s : τ × Prop) : Prop :=
  s.2 → start ≠ roles.green ∧ W.live s.1 = start ∧ W.up s.1 roles.blue = true ∧
    W.up s.1 roles.greenService = true

/-- Green serves and blue is still up. -/
def Swapped (W : BgWorld U τ) (roles : Roles) (start : TrafficTarget) (runtime : BgRuntime)
    (s : τ × Prop) : Prop :=
  s.2 → start ≠ roles.green ∧ W.live s.1 = roles.green ∧ W.up s.1 roles.blue = true ∧
    W.up s.1 roles.greenService = true ∧ runtime.priorTarget = some start

/-- The traffic points at a fleet that is up. -/
def Upright (W : BgWorld U τ) (roles : Roles) (_ : BgRuntime) (s : τ × Prop) : Prop :=
  s.2 → W.Serves roles s.1

/-- The rollback with the traffic back, and green to be reaped only if it does not serve. -/
def Undone (W : BgWorld U τ) (roles : Roles) (start : TrafficTarget) (_ : String)
    (runtime : BgRuntime) (s : τ × Prop) : Prop :=
  s.2 → W.live s.1 = start ∧ W.up s.1 (roles.serving start) = true ∧
    (runtime.greenProvisioned = true → start ≠ roles.green)

/-- A phase that acts elsewhere. -/
theorem keeping_elsewhere {action : Prog (BgSig U) (Except SagaError Unit)}
    (haction : action.Sequential BgCall.IsOther)
    {I : TrafficTarget → (Service → Bool) → Prop}
    (hI : ∀ live up, I live up → up (roles.serving live) = true)
    (hs : s.2 → I (W.live s.1) (W.up s.1)) {A F : Assertion BgRuntime (τ × Prop)}
    (hA : ∀ s', (s'.2 → I (W.live s'.1) (W.up s'.1)) → A runtime s')
    (hF : ∀ s', (s'.2 → I (W.live s'.1) (W.up s'.1)) → F runtime s') :
    wp (W.noting roles start) Eq (W.Guards roles) (BlueGreenDeploy.keeping runtime action)
      (StepPost A F) s := by
  refine wp_bind (wp_post ?_ (wp_elsewhere haction hI hs))
  rintro (error | _) s' hs'
  · exact wp_ret.mpr (hF s' hs')
  · exact wp_ret.mpr (hA s' hs')

theorem runPreflight_sequential : d.deploy.runPreflight.Sequential BgCall.IsOther := by
  obtain ⟨f, hf⟩ := d.exists_fleet
  have hready : d.deploy.checkReadiness.Sequential BgCall.IsOther := by
    unfold BlueGreenDeploy.checkReadiness
    rw [hf.readiness, hf.os]
    split
    · exact DatabaseReadiness.check_sequential d.axes.var (d.axes.ready _ ‹_›)
    · exact .ret _
  have hbudget : d.deploy.checkBudget.Sequential BgCall.IsOther := by
    unfold BlueGreenDeploy.checkBudget
    split
    · exact .ret _
    · rename_i budget hbudget
      obtain ⟨name, rfl⟩ := hf.budget budget hbudget
      refine (d.axes.budget name _).bind ?_
      rintro (_ | snapshot)
      · exact .ret _
      · dsimp only
        split <;> exact .ret _
  refine hready.bind ?_
  rintro (_ | _)
  · exact .ret _
  rw [hf.migration, hf.policy]
  refine (inspect_sequential d.axes.describe (d.axes.preflight _)).bind ?_
  rintro (_ | inspection)
  · exact .ret _
  refine (PolicyGate.admit_sequential d.axes.hook).bind ?_
  rintro (_ | _)
  · exact .ret _
  · exact hbudget

theorem greenHealthy_sequential {f : AdapterFleet (BgSig U)}
    (hf : d.deploy.BuiltFrom d.axes.toBlueGreenAxes d.config f) :
    f.greenHealthy.Sequential BgCall.IsOther := by
  unfold AdapterFleet.greenHealthy
  rw [hf.health]
  refine (d.axes.check _ _).bind ?_
  rintro (_ | _) <;> exact .ret _

theorem watchPolls_sequential {f : AdapterFleet (BgSig U)}
    (hf : d.deploy.BuiltFrom d.axes.toBlueGreenAxes d.config f) (polls : Nat) :
    (f.watchPolls polls).Sequential BgCall.IsOther := by
  induction polls with
  | zero => exact .ret _
  | succ polls ih =>
      refine (greenHealthy_sequential hf).bind fun healthy => ?_
      cases healthy with
      | false => exact .ret _
      | true =>
          refine Prog.Sequential.bind ?_ fun _ => ih
          rw [hf.sleep]
          exact d.axes.sleeps _

theorem runHealthGate_sequential : d.deploy.runHealthGate.Sequential BgCall.IsOther := by
  obtain ⟨f, hf⟩ := d.exists_fleet
  unfold BlueGreenDeploy.runHealthGate
  rw [hf.fleet]
  refine (greenHealthy_sequential hf).bind fun healthy => ?_
  cases healthy <;> exact .ret _

theorem runHold_sequential : d.deploy.runHold.Sequential BgCall.IsOther := by
  obtain ⟨f, hf⟩ := d.exists_fleet
  unfold BlueGreenDeploy.runHold
  rw [hf.fleet]
  refine (watchPolls_sequential hf _).bind ?_
  rintro (_ | _) <;> exact .ret _

theorem runMigrate_sequential : d.deploy.runMigrate.Sequential BgCall.IsOther := by
  obtain ⟨f, hf⟩ := d.exists_fleet
  unfold BlueGreenDeploy.runMigrate
  rw [hf.migration]
  refine (d.axes.migrate _ _).bind ?_
  rintro (_ | _) <;> exact .ret _

/-- Green is restarted beside the fleet that serves, or the run stops before that. -/
theorem provision_forward (hkind : roles.kind = .systemd)
    (hne : roles.greenService ≠ roles.blue) (hs : runtime = .default ∧ Home W roles start s) :
    wp (W.noting roles start) Eq (W.Guards roles) (d.deploy.forward .provisionGreen runtime)
      (StepPost (Ready W roles start) (Undone W roles start "provision-green")) s := by
  obtain ⟨rfl, hhome⟩ := hs
  obtain ⟨f, hf⟩ := d.exists_fleet
  let I : TrafficTarget → (Service → Bool) → Prop := fun live up =>
    live = start ∧ up (roles.serving start) = true
  have hI : ∀ live up, I live up → up (roles.serving live) = true := by
    rintro _ up ⟨rfl, hup⟩
    exact hup
  have hstopped : ∀ s' : τ × Prop, (s'.2 → I (W.live s'.1) (W.up s'.1)) →
      Undone W roles start "provision-green" .default s' :=
    fun s' hs' hnoted => ⟨(hs' hnoted).1, (hs' hnoted).2, by rintro ⟨⟩⟩
  show wp _ _ _ (d.deploy.runProvisionGreen .default) _ _
  unfold BlueGreenDeploy.runProvisionGreen
  rw [hf.fleet]
  show wp _ _ _ (f.provisionGreen >>= _) _ _
  refine wp_bind ?_
  unfold AdapterFleet.provisionGreen
  rw [hf.artifact, hf.service, d.axes.service_eq]
  refine wp_bind (wp_post ?_ (wp_elsewhere (d.axes.stage _ _) hI hhome))
  rintro (error | staged) s₁ hs₁
  · exact wp_ret.mpr (wp_ret.mpr (hstopped s₁ hs₁))
  refine wp_bind (wp_post ?_ (wp_elsewhere (d.axes.activate _ _ staged) hI hs₁))
  rintro (error | _) s₂ hs₂
  · exact wp_ret.mpr (wp_ret.mpr (hstopped s₂ hs₂))
  have hunit : f.greenUnit = roles.greenUnit :=
    Option.some.inj (hf.greenUnit.symm.trans d.greenUnit)
  have hgreen : ∀ service, roles.kind.service f.greenCtx = some service →
      service = roles.greenService := by
    intro service hservice
    have hsetting : f.greenCtx.settings.lookup roles.kind.setting = some (.str f.greenUnit) := by
      rw [hkind]
      exact f.lookup_greenCtx_unit
    rw [ServiceKind.service_eq hsetting hservice, hkind, hunit]
    rfl
  refine wp_bind ?_
  dsimp only [ServiceKind.adapter]
  cases hservice : roles.kind.service f.greenCtx with
  | none => exact wp_ret.mpr (wp_ret.mpr (wp_ret.mpr (hstopped s₂ hs₂)))
  | some service =>
  obtain rfl := hgreen service hservice
  refine wp_restart ?_ ?_
  · intro hnoted hstart
    obtain ⟨hlive, hup⟩ := hs₂ hnoted
    refine ⟨hI _ _ (hs₂ hnoted), ?_⟩
    rw [hlive, Roles.serving_ne hstart]
    exact hne
  · rintro (error | _) s₃ hs₃
    · refine wp_ret.mpr (wp_ret.mpr (hstopped s₃ fun hnoted => ?_))
      obtain ⟨hnoted₂, hstart, hlive, hothers, -⟩ := hs₃ hnoted
      obtain ⟨hlive₂, hup₂⟩ := hs₂ hnoted₂
      refine ⟨hlive.trans hlive₂, ?_⟩
      rw [Roles.serving_ne hstart] at hup₂ ⊢
      rw [hothers _ hne.symm]
      exact hup₂
    · refine wp_ret.mpr (wp_ret.mpr fun hnoted => ?_)
      obtain ⟨hnoted₂, hstart, hlive, hothers, hrestarted⟩ := hs₃ hnoted
      obtain ⟨hlive₂, hup₂⟩ := hs₂ hnoted₂
      refine ⟨hstart, hlive.trans hlive₂, ?_, hrestarted rfl⟩
      rw [hothers _ hne.symm, ← Roles.serving_ne hstart]
      exact hup₂

/-- A fleet that is up beside the one that serves. -/
theorem Ready.serves (hs : Ready W roles start runtime s) (hnoted : s.2) :
    W.Serves roles s.1 := by
  obtain ⟨hstart, hlive, hblue, -⟩ := hs hnoted
  rw [BgWorld.Serves, hlive, Roles.serving_ne hstart]
  exact hblue

theorem Ready.undone (hs : Ready W roles start runtime s) (failed : String)
    (runtime' : BgRuntime) : Undone W roles start failed runtime' s := by
  intro hnoted
  obtain ⟨hstart, hlive, hblue, -⟩ := hs hnoted
  refine ⟨hlive, ?_, fun _ => hstart⟩
  rw [Roles.serving_ne hstart]
  exact hblue

theorem Swapped.serves (hs : Swapped W roles start runtime s) (hnoted : s.2) :
    W.Serves roles s.1 := by
  obtain ⟨-, hlive, -, hgreen, -⟩ := hs hnoted
  rw [BgWorld.Serves, hlive, Roles.serving_green]
  exact hgreen

/-- The traffic is moved to green, or stays where it was. -/
theorem swap_forward (hs : Ready W roles start runtime s) :
    wp (W.noting roles start) Eq (W.Guards roles) (d.deploy.forward .swapTraffic runtime)
      (StepPost (Swapped W roles start) (Undone W roles start "swap-traffic")) s := by
  obtain ⟨f, hf⟩ := d.exists_fleet
  show wp _ _ _ (d.deploy.runSwap runtime) _ _
  unfold BlueGreenDeploy.runSwap
  rw [hf.traffic, d.axes.traffic_eq, d.green]
  refine wp_bind (wp_currentTarget hs.serves ?_)
  intro r s₁ hnote hlive hup
  have hready : Ready W roles start runtime s₁ := by
    intro hnoted
    rw [hlive, hup]
    exact hs (hnote hnoted).1
  rcases r with error | prior
  · exact wp_ret.mpr (hready.undone _ _)
  refine wp_bind (wp_switchTo ?_ ?_)
  · intro hnoted
    refine ⟨hready.serves hnoted, ?_⟩
    rw [Roles.serving_green]
    exact (hready hnoted).2.2.2
  · rintro (error | token) s₂ hs₂
    · refine wp_ret.mpr fun hnoted => ?_
      obtain ⟨hnoted₁, hup₂, -, -, hstays⟩ := hs₂ hnoted
      obtain ⟨hlive₁, hserves, hprovisioned⟩ := hready.undone "swap-traffic" runtime hnoted₁
      refine ⟨(hstays rfl (by rintro _ ⟨⟩)).trans hlive₁, ?_, hprovisioned⟩
      rw [hup₂]
      exact hserves
    · refine wp_ret.mpr fun hnoted => ?_
      obtain ⟨hnoted₁, hup₂, hmoved, -, -⟩ := hs₂ hnoted
      obtain ⟨hstart, hlive₁, hblue, hgreen⟩ := hready hnoted₁
      rw [hup₂]
      refine ⟨hstart, hmoved token rfl, hblue, hgreen, ?_⟩
      -- the link was read where it points at the traffic, and that is at blue
      rw [(hnote hnoted₁).2 prior rfl, ← hlive, hlive₁]

/-- The traffic is moved back to blue, which is still up. -/
theorem swap_compensate {failed : String} (hs : Swapped W roles start runtime s) :
    wp (W.noting roles start) Eq (W.Guards roles) (d.deploy.compensate .swapTraffic runtime)
      (StepPost (Undone W roles start failed) (Upright W roles)) s := by
  obtain ⟨f, hf⟩ := d.exists_fleet
  refine wp_bind ?_
  show wp _ _ _ (d.deploy.undoSwap runtime) _ _
  unfold BlueGreenDeploy.undoSwap
  rw [hf.traffic, d.axes.traffic_eq]
  split
  · rename_i hnone
    refine wp_ret.mpr (wp_ret.mpr fun hnoted => ?_)
    have hprior := (hs hnoted).2.2.2.2
    rw [hnone] at hprior
    cases hprior
  · rename_i prior hprior
    have hback : s.2 → prior = start ∧ start ≠ roles.green ∧ W.up s.1 roles.blue = true := by
      intro hnoted
      obtain ⟨hstart, -, hblue, -, hsome⟩ := hs hnoted
      exact ⟨Option.some.inj (hprior.symm.trans hsome), hstart, hblue⟩
    refine wp_bind (wp_switchTo ?_ ?_)
    · intro hnoted
      obtain ⟨rfl, hstart, hblue⟩ := hback hnoted
      refine ⟨hs.serves hnoted, ?_⟩
      rw [Roles.serving_ne hstart]
      exact hblue
    · rintro (error | token) s₁ hs₁
      · refine wp_ret.mpr (wp_ret.mpr fun hnoted => ?_)
        obtain ⟨hnoted₀, hup, -, hmoved, -⟩ := hs₁ hnoted
        obtain ⟨rfl, hstart, hblue⟩ := hback hnoted₀
        have hserves := hs.serves hnoted₀
        unfold BgWorld.Serves at hserves ⊢
        rcases hmoved with hlive | hlive
        · rw [hlive, hup]
          exact hserves
        · rw [hlive, hup, Roles.serving_ne hstart]
          exact hblue
      · refine wp_ret.mpr (wp_ret.mpr fun hnoted => ?_)
        obtain ⟨hnoted₀, hup, hmoved, -, -⟩ := hs₁ hnoted
        obtain ⟨rfl, hstart, hblue⟩ := hback hnoted₀
        refine ⟨hmoved token rfl, ?_, fun _ => hstart⟩
        rw [hup, Roles.serving_ne hstart]
        exact hblue

/-- Stopping a unit that does not serve. -/
theorem wp_stopUnit {f : AdapterFleet (BgSig U)}
    (hf : d.deploy.BuiltFrom d.axes.toBlueGreenAxes d.config f) (unit : String)
    {Q : Except String Unit → τ × Prop → Prop}
    (hs : s.2 → W.Serves roles s.1 ∧ ⟨.systemd, unit⟩ ≠ roles.serving (W.live s.1))
    (hQ : ∀ r s', (s'.2 → s.2 ∧ W.live s'.1 = W.live s.1 ∧
      (∀ other, other ≠ ⟨.systemd, unit⟩ → W.up s'.1 other = W.up s.1 other) ∧
      (⟨.systemd, unit⟩ = roles.blue → r ≠ .ok () →
        W.up s'.1 roles.blue = W.up s.1 roles.blue)) → Q r s') :
    wp (W.noting roles start) Eq (W.Guards roles) (f.stopUnit unit) Q s := by
  have hargs : stoppedBy ((if f.user then ["--user"] else []) ++ ["stop", unit]) =
      some ⟨.systemd, unit⟩ := by
    cases f.user <;> rfl
  unfold AdapterFleet.stopUnit
  rw [hf.systemctl, d.axes.systemctl_eq]
  refine wp_bind (wp_systemctl hargs hs ?_)
  rintro (cause | captured) s' hs'
  · refine wp_ret.mpr (hQ _ _ fun hnoted => ?_)
    obtain ⟨hnoted₀, hlive, hothers, hblue⟩ := hs' hnoted
    exact ⟨hnoted₀, hlive, hothers, fun heq _ => hblue heq (by rintro _ ⟨⟩)⟩
  · refine wp_ite (fun hsucceeded => wp_ret.mpr (hQ _ _ fun hnoted => ?_)) fun hfailed =>
      wp_ret.mpr (hQ _ _ fun hnoted => ?_)
    · obtain ⟨hnoted₀, hlive, hothers, -⟩ := hs' hnoted
      exact ⟨hnoted₀, hlive, hothers, fun _ hne => absurd rfl hne⟩
    · obtain ⟨hnoted₀, hlive, hothers, hblue⟩ := hs' hnoted
      refine ⟨hnoted₀, hlive, hothers, fun heq _ => hblue heq ?_⟩
      rintro _ ⟨⟩
      simpa using hfailed

/-- Blue is stopped while green serves. -/
theorem reap_forward (hblue : roles.blue = ⟨.systemd, roles.blueUnit⟩)
    (hne : roles.greenService ≠ roles.blue) (hs : Swapped W roles start runtime s) :
    wp (W.noting roles start) Eq (W.Guards roles) (d.deploy.forward .reap runtime)
      (StepPost (Upright W roles) (Swapped W roles start)) s := by
  obtain ⟨f, hf⟩ := d.exists_fleet
  have hunit : f.blueUnit = roles.blueUnit :=
    Option.some.inj (hf.blueUnit.symm.trans d.blueUnit)
  refine wp_bind ?_
  show wp _ _ _ d.deploy.runReap _ _
  unfold BlueGreenDeploy.runReap
  rw [hf.fleet]
  refine wp_bind (wp_stopUnit hf f.blueUnit ?_ ?_)
  · intro hnoted
    refine ⟨hs.serves hnoted, ?_⟩
    rw [(hs hnoted).2.1, Roles.serving_green, hunit, ← hblue]
    exact hne.symm
  · rw [hunit, ← hblue]
    rintro (error | _) s' hs'
    · refine wp_ret.mpr (wp_ret.mpr fun hnoted => ?_)
      obtain ⟨hnoted₀, hlive, hothers, hstays⟩ := hs' hnoted
      rw [hlive, hothers _ hne, hstays rfl (by rintro ⟨⟩)]
      exact hs hnoted₀
    · refine wp_ret.mpr (wp_ret.mpr fun hnoted => ?_)
      obtain ⟨hnoted₀, hlive, hothers, -⟩ := hs' hnoted
      obtain ⟨-, hgreen, -, hup, -⟩ := hs hnoted₀
      rw [BgWorld.Serves, hlive, hgreen, Roles.serving_green, hothers _ hne]
      exact hup

/-- Green is stopped while blue serves. -/
theorem provision_compensate (hne : roles.greenService ≠ roles.blue) {failed : String}
    (hs : Undone W roles start failed runtime s) :
    wp (W.noting roles start) Eq (W.Guards roles) (d.deploy.compensate .provisionGreen runtime)
      (StepPost (Undone W roles start failed) (Upright W roles)) s := by
  obtain ⟨f, hf⟩ := d.exists_fleet
  have hunit : f.greenUnit = roles.greenUnit :=
    Option.some.inj (hf.greenUnit.symm.trans d.greenUnit)
  refine wp_bind ?_
  show wp _ _ _ (d.deploy.undoProvisionGreen runtime) _ _
  unfold BlueGreenDeploy.undoProvisionGreen
  rw [hf.fleet]
  refine wp_ite (fun hprovisioned => ?_) fun _ => wp_ret.mpr (wp_ret.mpr hs)
  -- green was provisioned by this run, so the traffic started elsewhere and is there again
  have hserving : s.2 → W.Serves roles s.1 ∧ roles.serving (W.live s.1) = roles.blue := by
    intro hnoted
    obtain ⟨hlive, hup, hstart⟩ := hs hnoted
    refine ⟨?_, ?_⟩
    · rw [BgWorld.Serves, hlive]
      exact hup
    · rw [hlive]
      exact Roles.serving_ne (hstart hprovisioned)
  have hkept : ∀ s' : τ × Prop, (s'.2 → s.2 ∧ W.live s'.1 = W.live s.1 ∧
      ∀ other, other ≠ roles.greenService → W.up s'.1 other = W.up s.1 other) →
      Undone W roles start failed runtime s' := by
    intro s' hs' hnoted
    obtain ⟨hnoted₀, hlive, hothers⟩ := hs' hnoted
    obtain ⟨hlive₀, hup, hstart⟩ := hs hnoted₀
    refine ⟨hlive.trans hlive₀, ?_, hstart⟩
    rw [Roles.serving_ne (hstart hprovisioned)] at hup ⊢
    rw [hothers _ hne.symm]
    exact hup
  refine wp_bind (wp_stopUnit hf f.greenUnit ?_ ?_)
  · intro hnoted
    obtain ⟨hserves, hblue⟩ := hserving hnoted
    refine ⟨hserves, ?_⟩
    rw [hblue, hunit]
    exact hne
  · rw [hunit]
    rintro (error | _) s' hs'
    · refine wp_ret.mpr (wp_ret.mpr fun hnoted => ?_)
      obtain ⟨hlive, hup, -⟩ := hkept s' (fun h => ⟨(hs' h).1, (hs' h).2.1, (hs' h).2.2.1⟩) hnoted
      rw [BgWorld.Serves, hlive]
      exact hup
    · refine wp_ret.mpr (wp_ret.mpr ?_)
      exact hkept s' fun h => ⟨(hs' h).1, (hs' h).2.1, (hs' h).2.2.1⟩

/-- The seven steps, from the traffic at the start to the traffic at green. -/
theorem compensable (hkind : roles.kind = .systemd) (hunits : roles.greenUnit ≠ roles.blueUnit)
    (ctx : StepContext) :
    Compensable (W.noting roles start) (W.Guards roles) ctx (Upright W roles)
      (fun runtime s => runtime = .default ∧ Home W roles start s) (Undone W roles start)
      d.deploy.steps (Upright W roles) := by
  have hne := d.greenService_ne_blue hkind hunits
  have hblue := d.blue_eq hkind
  have hready : ∀ {action : Prog (BgSig U) (Except SagaError Unit)} {name : String} {runtime s},
      action.Sequential BgCall.IsOther → Ready W roles start runtime s →
      wp (W.noting roles start) Eq (W.Guards roles) (BlueGreenDeploy.keeping runtime action)
        (StepPost (Ready W roles start) (Undone W roles start name)) s := by
    intro action name runtime s haction hs
    refine keeping_elsewhere haction (I := fun live up => start ≠ roles.green ∧ live = start ∧
      up roles.blue = true ∧ up roles.greenService = true) ?_ hs (fun _ hs' => hs')
      fun _ hs' => (show Ready W roles start runtime _ from hs').undone _ _
    rintro _ up ⟨hstart, rfl, hup, -⟩
    rw [Roles.serving_ne hstart]
    exact hup
  have hpreflight : ∀ runtime s, runtime = BgRuntime.default ∧ Home W roles start s →
      wp (W.noting roles start) Eq (W.Guards roles) (d.deploy.forward .preflight runtime)
        (StepPost (fun runtime s => runtime = .default ∧ Home W roles start s)
          (Undone W roles start "preflight")) s := by
    rintro _ s ⟨rfl, hhome⟩
    refine keeping_elsewhere runPreflight_sequential (I := fun live up => live = start ∧
      up (roles.serving start) = true) ?_ hhome (fun _ hs' => ⟨rfl, hs'⟩)
      fun _ hs' hnoted => ⟨(hs' hnoted).1, (hs' hnoted).2, by rintro ⟨⟩⟩
    rintro _ up ⟨rfl, hup⟩
    exact hup
  have hhold : ∀ runtime s, Swapped W roles start runtime s →
      wp (W.noting roles start) Eq (W.Guards roles) (d.deploy.forward .hold runtime)
        (StepPost (Swapped W roles start) (Swapped W roles start)) s := by
    intro runtime s hs
    refine keeping_elsewhere runHold_sequential (I := fun live up => start ≠ roles.green ∧
      live = roles.green ∧ up roles.blue = true ∧ up roles.greenService = true ∧
      runtime.priorTarget = some start) ?_ hs (fun _ hs' => hs') fun _ hs' => hs'
    rintro _ up ⟨-, rfl, -, hup, -⟩
    rw [Roles.serving_green]
    exact hup
  refine .cons (V := Undone W roles start) hpreflight (fun _ _ _ hs => wp_ret.mpr hs) ?_
  refine .cons (V := Undone W roles start) (fun _ _ hs => provision_forward hkind hne hs)
    (fun _ _ _ hs => provision_compensate hne hs) ?_
  refine .cons (V := Undone W roles start) (fun _ _ hs => hready runMigrate_sequential hs)
    (fun _ _ _ hs => wp_ret.mpr hs) ?_
  refine .cons (V := Undone W roles start) (fun _ _ hs => hready runHealthGate_sequential hs)
    (fun _ _ _ hs => wp_ret.mpr hs) ?_
  refine .cons (V := fun _ => Swapped W roles start) (fun _ _ hs => swap_forward hs)
    (fun _ _ _ hs => swap_compensate hs) ?_
  refine .cons (V := fun _ => Swapped W roles start) hhold (fun _ _ _ hs => wp_ret.mpr hs) ?_
  exact .cons (V := fun _ _ _ => False) (fun _ _ hs => reap_forward hblue hne hs)
    (fun _ _ _ hs => hs.elim) .nil

/-- A run that keeps to what is asked of it is safe in every step, and leaves the traffic at
a fleet that is up. -/
theorem wp_run [CharTables] (d : BgDeploy U roles) (hkind : roles.kind = .systemd)
    (hunits : roles.greenUnit ≠ roles.blueUnit) (store : MemoryStore) {s : τ × Prop}
    (hs : s.2 → W.Serves roles s.1) (hstart : W.live s.1 = start) :
    wp (memoryStore.prod (W.noting roles start)) Eq (Guarantee.inr (W.Guards roles)) d.deploy.run
      (fun _ w => w.2.2 → W.Serves roles w.2.1) (store, s) := by
  cases hlock : store.locked d.deploy.key with
  | true => exact wp_bind (wp_runWithState_locked hlock (wp_ret.mpr hs))
  | false =>
      refine wp_bind (wp_post ?_ (wp_runWithState_compensable
        (d.compensable hkind hunits ⟨d.deploy.key⟩) hlock
        ⟨rfl, fun hnoted => ⟨hstart, hstart ▸ hs hnoted⟩⟩))
      rintro ⟨outcome, runtime⟩ ⟨store', s'⟩ hpost
      match outcome, hpost with
      | .ok .committed, h => exact wp_ret.mpr h.2
      | .ok (.rolledBack _ _), h =>
          refine wp_ret.mpr fun hnoted => ?_
          obtain ⟨hlive, hup, -⟩ := h.2 hnoted
          rw [BgWorld.Serves, hlive]
          exact hup
      | .ok (.partialRollback _), h => exact wp_ret.mpr h.2

end Steps

/-- A run of the deploy. -/
def run [CharTables] (d : BgDeploy U roles) (W : BgWorld U τ) (w : MemoryStore × τ) :
    Run (StoreSig.sum (BgSig U)) (MemoryStore × τ) (Except SagaError SagaOutcome) :=
  d.deploy.run.exec (memoryStore.prod W.answer) [] w

/-- One run, from a world in which the traffic points at a fleet that is up. -/
theorem run_safe [CharTables] (d : BgDeploy U roles) (hkind : roles.kind = .systemd)
    (hunits : roles.greenUnit ≠ roles.blueUnit) {W : BgWorld U τ} {w : MemoryStore × τ}
    (hserves : W.Serves roles w.2)
    (hmeets : ∀ step ∈ (d.run W w).steps, step.Right (W.Meets roles (W.live w.2))) :
    (∀ step ∈ (d.run W w).steps, step.Right (W.Safe roles)) ∧
      W.Serves roles (d.run W w).final.2 := by
  have hwp := d.wp_run hkind hunits w.1 (s := (w.2, True)) (fun _ => hserves) rfl
  obtain ⟨noted, hnoted, -, hfinal⟩ := exec_prod_noting trivial hmeets
  obtain ⟨hpost, hsteps⟩ := wp_exec hwp []
  refine ⟨right_of_noting trivial hmeets hsteps, ?_⟩
  rw [show (d.deploy.run.exec (memoryStore.prod (W.noting roles (W.live w.2))) []
    (w.1, w.2, True)).final = _ from hfinal] at hpost
  exact hpost hnoted

end BgDeploy

/-! ## Sequences of deploys -/

/-- The runs of some deploys, one after the other, each with the world it started in. -/
def bgHistory [CharTables] {roles : Roles} (W : BgWorld U τ) :
    List (BgDeploy U roles) → MemoryStore × τ → List ((MemoryStore × τ) ×
      Run (StoreSig.sum (BgSig U)) (MemoryStore × τ) (Except SagaError SagaOutcome))
  | [], _ => []
  | d :: rest, w => (w, d.run W w) :: bgHistory W rest (d.run W w).final

/-- Over any sequence of blue-green deploys whose runs keep to what is asked of them, the
fleet that serves is never restarted and never stopped, and the traffic always points at a
fleet that is up. -/
theorem runs_safe [CharTables] {roles : Roles} (hkind : roles.kind = .systemd)
    (hunits : roles.greenUnit ≠ roles.blueUnit) (W : BgWorld U τ)
    (deploys : List (BgDeploy U roles)) (w : MemoryStore × τ)
    (hblue : W.live w.2 ≠ roles.green) (hup : W.up w.2 roles.blue = true)
    (hmeets : ∀ entry ∈ bgHistory W deploys w, ∀ step ∈ entry.2.steps,
      step.Right (W.Meets roles (W.live entry.1.2))) :
    ∀ entry ∈ bgHistory W deploys w,
      (∀ step ∈ entry.2.steps, step.Right (W.Safe roles)) ∧
        W.Serves roles entry.1.2 ∧ W.Serves roles entry.2.final.2 := by
  have hserves : W.Serves roles w.2 := by
    rw [BgWorld.Serves, Roles.serving_ne hblue]
    exact hup
  clear hblue hup
  induction deploys generalizing w with
  | nil => simp [bgHistory]
  | cons d rest ih =>
      obtain ⟨hfirst, hrest⟩ := List.forall_mem_cons.mp hmeets
      obtain ⟨hsafe, hafter⟩ := d.run_safe hkind hunits hserves hfirst
      exact List.forall_mem_cons.mpr ⟨⟨hsafe, hserves, hafter⟩, ih _ hrest hafter⟩

/-! ## Two deploys -/

namespace TwoFleets

/-- The health probe, the one call elsewhere. -/
@[reducible] def ProbeSig : Sig where
  Cmd := Unit
  Ans _ := Bool

/-- Traffic, services and how often the probe was asked. -/
structure Site where
  live : TrafficTarget
  up : Service → Bool
  probes : Nat

/-- The roles of a configuration with two units. -/
def roles : Roles where
  kind := .systemd
  green := ⟨"green"⟩
  greenUnit := "app-green.service"
  blueUnit := "app.service"
  blue := ⟨.systemd, "app.service"⟩

/-- A site with a service started or stopped. -/
def Site.setUp (site : Site) (service : Service) (running : Bool) : Site :=
  { site with up := fun other => if other = service then running else site.up other }

/-- A world in which every call succeeds and `healthy` says what each probe answers. -/
def world (healthy : Nat → Bool) : BgWorld ProbeSig Site where
  answer
    | .restart service, site => (.ok (), site.setUp service true)
    | .systemctl args, site =>
        (.ok ⟨some 0, "", "", none⟩, match stoppedBy args with
          | some service => site.setUp service false
          | none => site)
    | .currentTarget, site => (.ok site.live, site)
    | .switchTo target, site => (.ok ⟨target⟩, { site with live := target })
    | .other _, site => (healthy site.probes, { site with probes := site.probes + 1 })
  live := Site.live
  link := Site.live
  up := Site.up
  restarted service site _ := by simp [Site.setUp]
  restart_live _ _ := rfl
  restart_up service site other hne := by simp [Site.setUp, hne]
  systemctl_live args site := by
    dsimp only
    split <;> rfl
  systemctl_up args site service hne := by
    dsimp only
    split
    · rename_i stopped hstopped
      have hother : service ≠ stopped := fun heq => hne (heq ▸ hstopped)
      simp [Site.setUp, hother]
    · rfl
  reported site target h := (Except.ok.inj h).symm
  current_live _ := rfl
  current_up _ := rfl
  switched _ _ _ _ := rfl
  switch_live _ _ := .inr rfl
  switch_up _ _ := rfl
  other_live _ _ := rfl
  other_up _ _ := rfl

/-- A migration adapter that certifies every migration. -/
def migration : MigrationAdapter (BgSig ProbeSig) :=
  { noDatabase with
    describe := .ret (.ok ⟨"confiture", packageVersion, 1, ["preflight", "window_safe"]⟩)
    preflight := fun _ => .ret (.ok ⟨true, [], some true, none⟩) }

/-- Adapters that succeed, but for the probe. -/
def axes : BgAxes ProbeSig .systemd where
  host := ⟨"web-1"⟩
  os := ⟨fun _ => .ret (.error .notPresent), fun _ => .ret false⟩
  artifact := ⟨fun _ _ => .ret (.ok ⟨⟨"v2", none⟩, "/srv/app/v2"⟩), fun _ _ _ => .ret (.ok ())⟩
  service := _
  health := ⟨fun _ _ => @Prog.perform (BgSig ProbeSig) (.other ()) >>= fun healthy =>
    .ret (.ok ⟨healthy, none⟩)⟩
  migration := migration
  traffic := _
  policy := ⟨none, none⟩
  readiness := none
  connections _ := ⟨fun _ => .ret (.error "")⟩
  systemctl := _
  sleep _ := .ret ()
  status _ _ := .ret (.ok ⟨true, none⟩)
  service_eq := rfl
  traffic_eq := rfl
  systemctl_eq := rfl
  var _ := .ret _
  ready := by rintro _ ⟨⟩
  describe := .ret _
  preflight _ := .ret _
  migrate _ _ := .ret _
  hook := by rintro _ ⟨⟩
  budget _ _ := .ret _
  stage _ _ := .ret _
  activate _ _ _ := .ret _
  check _ _ := .bind (.perform ⟨(), rfl⟩) fun _ => .ret _
  sleeps _ := .ret _

/-- The configuration of the two fleets. -/
def config : BlueGreenConfig where
  deploy := some ⟨some "app", some "production"⟩
  blueGreen := some
    { green := none
      greenUnit := some "app-green.service"
      greenHealthUrl := some "http://127.0.0.1:8081/healthz"
      greenActivePath := none
      greenStagingDir := none
      holdSecs := some 2
      greenPool := none
      connectionMargin := none }
  serviceUnit := some "app.service"
  serviceUser := none
  databaseUrlEnv := some "DATABASE_URL"
  migrationsPath := none
  settings := [("unit", .str "app.service")]
  envSecrets := []

/-- The deploy of the configuration. -/
def deploy : BgDeploy ProbeSig roles where
  axes := axes
  config := config
  deploy := _
  built := rfl
  green := rfl
  greenUnit := rfl
  blueUnit := rfl
  unit := rfl
  blue := rfl

/-- Blue serves, and green was never started. -/
def start : MemoryStore × Site :=
  (MemoryStore.empty, ⟨⟨"blue"⟩, fun service => decide (service = roles.blue), 0⟩)

/-- In this world a run that starts with the traffic elsewhere keeps to what is asked. -/
theorem meets_of_start_ne {healthy : Nat → Bool} {w : MemoryStore × Site}
    (hstart : w.2.live ≠ roles.green) :
    ∀ step ∈ (deploy.run (world healthy) w).steps,
      step.Right ((world healthy).Meets roles ((world healthy).live w.2)) := by
  intro step hstep
  obtain ⟨c, s, rfl⟩ := Prog.exists_answer_of_mem_steps hstep
  rcases c with c | c
  · trivial
  · cases c with
    | restart service => exact hstart
    | systemctl args =>
        intro _ hfailed
        cases hfailed _ rfl
    | switchTo target =>
        intro _ hfailed
        exact absurd rfl (hfailed _)
    | currentTarget => rfl
    | _ => trivial

/-- The first probe fails. -/
def slowStart (probe : Nat) : Bool :=
  probe != 0

/-- A step that restarts the service that serves. -/
def restartsServing (healthy : Nat → Bool)
    (step : Transition (StoreSig.sum (BgSig ProbeSig)) (MemoryStore × Site)) : Bool :=
  match step.cmd with
  | .inr (.restart service) => service == roles.serving ((world healthy).live step.before.2)
  | _ => false

end TwoFleets

/-- A deploy that rolls back at its health gate, and one that commits after it. -/
theorem runs_safe_slowStart :
    (bgHistory (TwoFleets.world TwoFleets.slowStart) [TwoFleets.deploy, TwoFleets.deploy]
      TwoFleets.start).map (fun entry => entry.2.value.toOption) =
        [some (.rolledBack "health-gate-green" ("step 'health-gate-green' failed: " ++
          "green failed its pre-swap health gate; traffic was not moved")), some .committed] ∧
      ∀ entry ∈ bgHistory (TwoFleets.world TwoFleets.slowStart)
          [TwoFleets.deploy, TwoFleets.deploy] TwoFleets.start,
        (∀ step ∈ entry.2.steps,
          step.Right ((TwoFleets.world TwoFleets.slowStart).Safe TwoFleets.roles)) ∧
        (TwoFleets.world TwoFleets.slowStart).Serves TwoFleets.roles entry.1.2 ∧
        (TwoFleets.world TwoFleets.slowStart).Serves TwoFleets.roles entry.2.final.2 := by
  refine ⟨rfl, runs_safe rfl (by decide) _ _ _ (by decide) rfl ?_⟩
  refine List.forall_mem_cons.mpr ⟨TwoFleets.meets_of_start_ne (by decide), ?_⟩
  refine List.forall_mem_cons.mpr ⟨TwoFleets.meets_of_start_ne ?_, by simp [bgHistory]⟩
  have hback : (TwoFleets.deploy.run (TwoFleets.world TwoFleets.slowStart)
      TwoFleets.start).final.2.live = ⟨"blue"⟩ := rfl
  rw [hback]
  decide

/-- Two deploys that commit: the second one restarts the fleet that serves. -/
theorem runs_not_safe_second_commit :
    TwoFleets.start.2.live ≠ TwoFleets.roles.green ∧
      (bgHistory (TwoFleets.world fun _ => true) [TwoFleets.deploy, TwoFleets.deploy]
        TwoFleets.start).map (fun entry => entry.2.value.toOption) =
          [some .committed, some .committed] ∧
      ∃ entry ∈ bgHistory (TwoFleets.world fun _ => true) [TwoFleets.deploy, TwoFleets.deploy]
          TwoFleets.start,
        ∃ step ∈ entry.2.steps,
          ¬ step.Right ((TwoFleets.world fun _ => true).Safe TwoFleets.roles) := by
  refine ⟨by decide, rfl, _, List.mem_cons_of_mem _ List.mem_cons_self, ?_⟩
  have hany : (TwoFleets.deploy.run (TwoFleets.world fun _ => true)
      (TwoFleets.deploy.run (TwoFleets.world fun _ => true) TwoFleets.start).final).steps.any
        (TwoFleets.restartsServing fun _ => true) = true := rfl
  obtain ⟨⟨before, c, ans, after⟩, hstep, hserving⟩ := List.any_eq_true.mp hany
  refine ⟨_, hstep, fun hsafe => ?_⟩
  unfold TwoFleets.restartsServing at hserving
  split at hserving
  · rename_i service heq
    dsimp only at heq
    subst heq
    exact hsafe.restart service rfl (by simpa using hserving)
  · cases hserving

end Fraisier.Core
