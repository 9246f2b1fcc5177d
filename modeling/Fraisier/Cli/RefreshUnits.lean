import Fraisier.Cli.Refresh
import Fraisier.Db.RefreshSafety

/-!
# Which units a refresh starts

A refresh stops every unit, and starts those it found running in one of two cases: the
database was not touched, or it was replaced, migrated, sanitized and flagged. Read
`UnitsSafe` first, which says this of the calls of a run. The calls are followed phase by
phase under `StartPermit`, which says when a unit may be started; the main theorem is
`runLocked_unitsSafe`.
-/

namespace Fraisier.Cli

open Fraisier.Effect Fraisier.Db

/-! ## What a run guarantees -/

/-- The unit a call starts. -/
def started? : Event RefreshSig → Option String
  | ⟨.inr (.start unit), _⟩ => some unit
  | _ => none

/-- The unit a call found running. -/
def found? : Event RefreshSig → Option String
  | ⟨.inr (.isActive unit), .ok true⟩ => some unit
  | _ => none

/-- The target database was dropped, as far as the server did what it was asked. -/
def Dropped (calls : List (Event RefreshSig)) : Prop :=
  ∃ maintenance name x, ⟨.inl (.drop maintenance name), x⟩ ∈ calls

/-- The call changes a database. -/
def Changes : RefreshSig.Cmd → Prop
  | .inl c => c.Mutates
  | .inr _ => False

/-- A call that changes a database was made, whether or not it succeeded. -/
def Touched (calls : List (Event RefreshSig)) : Prop :=
  ∃ e ∈ calls, Changes e.cmd

/-- The database was restored, migrated, found to have its tables and sanitized, and the
outbound flag was written. -/
structure Cleared (plan : RefreshPlan) (calls : List (Event RefreshSig)) : Prop where
  restored : ∃ made refreshed,
    (refreshInPlace plan.identity plan.archive plan.marker).Makes made (.ok refreshed) ∧
      made.map Event.inl <:+: calls
  migrated : ∃ applied, ⟨.inr .migrate, .ok applied⟩ ∈ calls
  counted : ∃ tables, ⟨.inl (.tableCount plan.identity.app), .ok tables⟩ ∈ calls ∧
    plan.minTables ≤ (tables : Nat)
  sanitized : ∀ script, plan.sanitize = .script script → ∃ sanitized,
    ⟨.inr (.sanitize script plan.identity.app plan.operatorUid), .ok sanitized⟩ ∈ calls
  flagged : ⟨.inr (.writeFlag plan.flag plan.flagVar plan.flagGid), .ok ()⟩ ∈ calls

/-- The unit was stopped, and not started any more. -/
def Stopped (unit : String) (calls : List (Event RefreshSig)) : Prop :=
  ∃ before after, calls = before ++ ⟨.inr (.stop unit), .ok ()⟩ :: after ∧
    ∀ e ∈ after, started? e = none

/-- The message says that the unit could not be stopped again. -/
def Failure.Names (failure : Failure) (unit : String) : Prop :=
  ∃ before error after : String,
    failure.message = before ++ s!"; and stopping {unit} again failed: {error}" ++ after

/-- A unit found running is stopped by the next call, so units are stopped in the order they
were found in. -/
def StopsFound (calls : List (Event RefreshSig)) : Prop :=
  ∀ before unit after, calls = before ++ ⟨.inr (.isActive unit), .ok true⟩ :: after →
    ∃ x rest, after = ⟨.inr (.stop unit), x⟩ :: rest

/-- What a refresh guarantees about units by its value and its calls. -/
structure UnitsSafe (plan : RefreshPlan) (value : Except Failure Done)
    (calls : List (Event RefreshSig)) : Prop where
  /-- On a dropped database a unit is started only once everything succeeded. -/
  cleared : ∀ before unit x after, calls = before ++ ⟨.inr (.start unit), x⟩ :: after →
    Dropped before → Cleared plan before
  /-- Only a unit found running is started. -/
  foundRunning : ∀ before unit x after, calls = before ++ ⟨.inr (.start unit), x⟩ :: after →
    ⟨.inr (.isActive unit), .ok true⟩ ∈ before
  /-- After a failure on a dropped database every unit is stopped, or named. -/
  stopped : ∀ failure, value = .error failure → Dropped calls →
    ∀ unit ∈ plan.units, Stopped unit calls ∨ failure.Names unit
  /-- On an untouched database the units found running are started again, in reverse. -/
  restarted : ¬ Touched calls → ∃ failure, value = .error failure ∧
    calls.filterMap started? = (calls.filterMap found?).reverse ∧
    (failure.restarted = true ↔
      ∀ unit x, ⟨.inr (.start unit), x⟩ ∈ calls → x = Except.ok ())
  stopsFound : StopsFound calls

/-! ## Calls that matter to units -/

/-- The call stops a unit, after asking whether it runs. -/
def Halts : RefreshSig.Cmd → Prop
  | .inr (.isActive _) => True
  | .inr (.stop _) => True
  | _ => False

/-- The call neither starts a unit nor asks whether one runs. -/
def Quiet : RefreshSig.Cmd → Prop
  | .inr (.isActive _) => False
  | .inr (.start _) => False
  | _ => True

/-- The call starts one of the units. -/
def Starts (units : List String) (c : RefreshSig.Cmd) : Prop :=
  ∃ unit ∈ units, c = .inr (.start unit)

section Calls

variable {e : Event RefreshSig} {calls more : List (Event RefreshSig)} {unit : String}

theorem started?_of_halts (h : Halts e.cmd) : started? e = none := by
  obtain ⟨c | c, x⟩ := e
  · rfl
  · cases c <;> first | rfl | exact h.elim

theorem started?_of_quiet (h : Quiet e.cmd) : started? e = none := by
  obtain ⟨c | c, x⟩ := e
  · rfl
  · cases c <;> first | rfl | exact h.elim

theorem found?_of_quiet (h : Quiet e.cmd) : found? e = none := by
  obtain ⟨c | c, x⟩ := e
  · rfl
  · cases c <;> first | rfl | exact h.elim

theorem found?_of_starts {units : List String} (h : Starts units e.cmd) : found? e = none := by
  obtain ⟨c, x⟩ := e
  obtain ⟨unit, -, rfl⟩ := h
  rfl

theorem stopsFound_nil : StopsFound [] := by
  intro before unit after hcalls
  simp at hcalls

/-- A unit that is stopped after it was asked for keeps the rest in order. -/
theorem StopsFound.cons_stop (h : StopsFound calls) (unit : String) (x y) :
    StopsFound (⟨.inr (.isActive unit), x⟩ :: ⟨.inr (.stop unit), y⟩ :: calls) := by
  intro before found after hcalls
  cases before with
  | nil =>
      obtain ⟨heq, rfl⟩ := List.cons.inj hcalls
      cases heq
      exact ⟨y, calls, rfl⟩
  | cons e before =>
      obtain ⟨-, hcalls⟩ := List.cons.inj hcalls
      cases before with
      | nil =>
          obtain ⟨heq, -⟩ := List.cons.inj hcalls
          cases heq
      | cons e before =>
          obtain ⟨-, hcalls⟩ := List.cons.inj hcalls
          exact h before found after hcalls

/-- Calls that find no unit running may follow. -/
theorem StopsFound.append (h : StopsFound calls) (hmore : ∀ e ∈ more, found? e = none) :
    StopsFound (calls ++ more) := by
  intro before unit after hcalls
  obtain ⟨rest, rfl, hrest⟩ | ⟨rest, rfl, hrest⟩ := List.append_eq_append_iff.mp hcalls
  · have hnone := hmore ⟨.inr (.isActive unit), .ok true⟩ (by simp [hrest])
    cases hnone
  · cases rest with
    | nil =>
        have hnone := hmore ⟨.inr (.isActive unit), .ok true⟩ (by
          rw [List.nil_append] at hrest
          exact hrest ▸ List.mem_cons_self)
        cases hnone
    | cons e rest =>
        obtain ⟨rfl, rfl⟩ := List.cons.inj hrest
        obtain ⟨x, rest', rfl⟩ := h before unit rest rfl
        exact ⟨x, rest' ++ more, rfl⟩

theorem Stopped.of_mem (h : ⟨.inr (.stop unit), .ok ()⟩ ∈ calls)
    (hcalls : ∀ e ∈ calls, started? e = none) : Stopped unit calls := by
  obtain ⟨before, after, rfl⟩ := List.append_of_mem h
  exact ⟨before, after, rfl, fun e he => hcalls e (by simp [he])⟩

theorem Stopped.prepend (h : Stopped unit more) : Stopped unit (calls ++ more) := by
  obtain ⟨before, after, rfl, hafter⟩ := h
  exact ⟨calls ++ before, after, by simp, hafter⟩

theorem Dropped.touched (h : Dropped calls) : Touched calls := by
  obtain ⟨maintenance, name, x, hmem⟩ := h
  exact ⟨_, hmem, trivial⟩

theorem Touched.append (h : Touched calls) : Touched (calls ++ more) := by
  obtain ⟨e, he, hchanges⟩ := h
  exact ⟨e, List.mem_append_left _ he, hchanges⟩

theorem not_touched_append (h : ¬ Touched calls) (hmore : ∀ e ∈ more, ¬ Changes e.cmd) :
    ¬ Touched (calls ++ more) := by
  intro htouched
  obtain ⟨e, he, hchanges⟩ := htouched
  rcases List.mem_append.mp he with he | he
  · exact h ⟨e, he, hchanges⟩
  · exact hmore e he hchanges

theorem Cleared.append {plan : RefreshPlan} (h : Cleared plan calls) :
    Cleared plan (calls ++ more) where
  restored := by
    obtain ⟨made, refreshed, hmakes, hmade⟩ := h.restored
    exact ⟨made, refreshed, hmakes, hmade.trans (List.prefix_append _ _).isInfix⟩
  migrated := h.migrated.imp fun _ hmem => List.mem_append_left _ hmem
  counted := h.counted.imp fun _ hmem => ⟨List.mem_append_left _ hmem.1, hmem.2⟩
  sanitized script hscript :=
    (h.sanitized script hscript).imp fun _ hmem => List.mem_append_left _ hmem
  flagged := List.mem_append_left _ h.flagged

end Calls

/-! ## The loops over units -/

/-- The units the stop loop found running. -/
def foundRunning : Except (List String × String) (List String) → List String
  | .ok running => running
  | .error (running, _) => running

/-- The stop loop found the units it says, beside those it started from, and without an error
it stopped every unit. -/
structure StopsEnd (running units : List String)
    (value : Except (List String × String) (List String)) (calls : List (Event RefreshSig)) :
    Prop where
  stopsFound : StopsFound calls
  found : foundRunning value = running ++ calls.filterMap found?
  stopped : ∀ all, value = .ok all → ∀ unit ∈ units, ⟨.inr (.stop unit), .ok ()⟩ ∈ calls

theorem stopUnits_issues (running units : List String) :
    (stopUnits running units).Issues Halts := by
  induction units generalizing running with
  | nil => exact .ret _
  | cons unit rest ih =>
      refine Prog.Issues.bind (.perform trivial) fun x => ?_
      cases x with
      | error error => exact .ret _
      | ok active =>
          refine Prog.Issues.bind (.perform trivial) fun x => ?_
          cases x with
          | error error => exact .ret _
          | ok u => exact ih _

theorem stopUnits_end (running units : List String) :
    (stopUnits running units).Yields (StopsEnd running units) := by
  induction units generalizing running with
  | nil => exact ⟨stopsFound_nil, by simp [foundRunning], by simp⟩
  | cons unit rest ih =>
      refine .bind (.perform fun x => ?_)
      cases x with
      | error error =>
          refine ⟨?_, (List.append_nil running).symm, fun all h => by cases h⟩
          exact stopsFound_nil.append (List.forall_mem_singleton.mpr rfl)
      | ok active =>
          refine .bind (.perform fun x => ?_)
          have hfound : (if active then running ++ [unit] else running) =
              running ++ [⟨.inr (.isActive unit), .ok active⟩].filterMap found? := by
            cases active with
            | true => rfl
            | false => exact (List.append_nil running).symm
          cases x with
          | error error =>
              refine ⟨stopsFound_nil.cons_stop _ _ _, ?_, fun all h => by cases h⟩
              show (if active then running ++ [unit] else running) = _
              rw [hfound]
              rfl
          | ok u =>
              refine (ih _).mono fun value calls h => ?_
              refine ⟨h.stopsFound.cons_stop _ _ _, ?_, fun all hall => ?_⟩
              · rw [h.found, hfound, List.append_assoc, ← List.filterMap_append]
                rfl
              · refine List.forall_mem_cons.mpr ⟨by simp, fun other hother => ?_⟩
                have hmem := h.stopped all hall other hother
                simp [hmem]

/-- Every start among the calls succeeded. -/
def AllStarted (calls : List (Event RefreshSig)) : Prop :=
  ∀ unit x, ⟨.inr (.start unit), x⟩ ∈ calls → x = Except.ok ()

theorem Starts.cons {units : List String} {c : RefreshSig.Cmd} (h : Starts units c)
    (unit : String) : Starts (unit :: units) c := by
  obtain ⟨other, hother, hc⟩ := h
  exact ⟨other, List.mem_cons_of_mem _ hother, hc⟩

theorem startEach_issues (units : List String) : (startEach units).Issues (Starts units) := by
  induction units with
  | nil => exact .ret _
  | cons unit rest ih =>
      have hrest := ih.mono fun c hc => hc.cons unit
      refine Prog.Issues.bind (.perform ⟨unit, List.mem_cons_self, rfl⟩) fun x => ?_
      cases x with
      | error error => exact Prog.Issues.bind hrest fun problems => .ret _
      | ok u => exact hrest

theorem startInOrder_issues (units : List String) :
    (startInOrder units).Issues (Starts units) := by
  induction units with
  | nil => exact .ret _
  | cons unit rest ih =>
      refine Prog.Issues.bind (.perform ⟨unit, List.mem_cons_self, rfl⟩) fun x => ?_
      cases x with
      | error error => exact .ret _
      | ok u => exact ih.mono fun c hc => hc.cons unit

/-- Each unit is started in its turn, and the problems are the starts that failed. -/
theorem startEach_starts (units : List String) :
    (startEach units).Yields fun problems calls =>
      calls.filterMap started? = units ∧ (problems = [] ↔ AllStarted calls) := by
  induction units with
  | nil => exact ⟨rfl, by simp [AllStarted]⟩
  | cons unit rest ih =>
      refine .bind (.perform fun x => ?_)
      cases x with
      | error error =>
          refine .bind (ih.mono fun problems calls h => ⟨?_, ?_⟩)
          · rw [List.append_nil]
            exact congrArg (unit :: ·) h.1
          · refine iff_of_false (List.cons_ne_nil _ _) fun hall => ?_
            have hok := hall unit (.error error) (by simp)
            cases hok
      | ok u =>
          refine ih.mono fun problems calls h => ⟨congrArg (unit :: ·) h.1, h.2.trans ?_⟩
          constructor
          · intro hall unit x hmem
            rcases List.mem_cons.mp hmem with heq | hmem
            · cases heq
              rfl
            · exact hall unit x hmem
          · exact fun hall unit x hmem => hall unit x (List.mem_cons_of_mem _ hmem)

theorem stopAgain_issues (units : List String) (failure : Failure) :
    (stopAgain units failure).Issues Quiet := by
  induction units generalizing failure with
  | nil => exact .ret _
  | cons unit rest ih =>
      refine Prog.Issues.bind (.perform trivial) fun x => ?_
      cases x with
      | error error => exact ih _
      | ok u => exact ih _

theorem Failure.Names.append {failure : Failure} {unit : String} (h : failure.Names unit)
    (more : String) : Failure.Names { failure with message := failure.message ++ more } unit := by
  obtain ⟨before, error, after, hmessage⟩ := h
  exact ⟨before, error, after ++ more, by simp only [hmessage, String.append_assoc]⟩

/-- Every unit is stopped or named, and a unit that was named stays named. -/
theorem stopAgain_stops (units : List String) (failure : Failure) :
    (stopAgain units failure).Yields fun last calls =>
      (∀ unit ∈ units, ⟨.inr (.stop unit), .ok ()⟩ ∈ calls ∨ last.Names unit) ∧
        ∀ unit, failure.Names unit → last.Names unit := by
  induction units generalizing failure with
  | nil => exact ⟨by simp, fun unit => id⟩
  | cons unit rest ih =>
      refine .bind (.perform fun x => ?_)
      cases x with
      | error error =>
          refine (ih _).mono fun last calls h => ?_
          refine ⟨List.forall_mem_cons.mpr ⟨.inr ?_, fun other hother => ?_⟩, ?_⟩
          · refine h.2 unit ⟨failure.message, error, "", ?_⟩
            rw [String.append_empty]
          · exact (h.1 other hother).imp_left (List.mem_cons_of_mem _)
          · exact fun other hother => h.2 other (hother.append _)
      | ok u =>
          refine (ih _).mono fun last calls h => ⟨?_, h.2⟩
          refine List.forall_mem_cons.mpr ⟨.inl List.mem_cons_self, fun other hother => ?_⟩
          exact (h.1 other hother).imp_left (List.mem_cons_of_mem _)

theorem prove_issues (var : String) (units : List String) : (prove var units).Issues Quiet := by
  induction units with
  | nil => exact .ret _
  | cons unit rest ih =>
      unfold prove
      split
      · exact ih
      · refine Prog.Issues.bind (.perform trivial) fun x => ?_
        cases x with
        | error error => exact .ret _
        | ok pid =>
            dsimp only
            split
            · exact .ret _
            · refine Prog.Issues.bind (.perform trivial) fun x => ?_
              cases x with
              | error error => exact .ret _
              | ok environ =>
                  dsimp only
                  split
                  · refine Prog.Issues.bind ih fun x => ?_
                    cases x <;> exact .ret _
                  · exact .ret _

/-! ## Phases that leave the units alone -/

/-- The call is a read of the server, or waits. -/
def Waits : RefreshSig.Cmd → Prop
  | .inl c => c.Reads
  | .inr .pause => True
  | _ => False

theorem drainSessions_issues (identity : RestoreIdentity) (n : Nat) :
    (drainSessions identity n).Issues Waits := by
  induction n with
  | zero => exact Prog.Issues.bind (.perform id) fun x => .ret _
  | succ n ih =>
      refine Prog.Issues.bind (.perform id) fun x => ?_
      rcases x with _ | (_ | _)
      · exact .ret _
      · exact .ret _
      · refine Prog.Issues.bind (.perform trivial) fun more => ?_
        cases more with
        | true => exact ih
        | false => exact .ret _

/-- A unit is started only if it was found running, and on a dropped database only once
everything succeeded. -/
def StartPermit (plan : RefreshPlan) : Permit RefreshSig :=
  fun log c => ∀ unit, c = .inr (.start unit) →
    ⟨.inr (.isActive unit), .ok true⟩ ∈ log ∧ (Dropped log → Cleared plan log)

section Phases

variable {τ : Type} {g : Handler RefreshSig τ} {t : τ} {plan : RefreshPlan}
variable {running : List String} {log more : List (Event RefreshSig)} {failure : Failure}

theorem startPermit_of_halts {c : RefreshSig.Cmd} (h : Halts c) : StartPermit plan log c := by
  intro unit hc
  subst hc
  exact h.elim

theorem startPermit_of_quiet {c : RefreshSig.Cmd} (h : Quiet c) : StartPermit plan log c := by
  intro unit hc
  subst hc
  exact h.elim

/-- The units found running are `running`, and none was started yet. -/
structure Halted (running : List String) (log : List (Event RefreshSig)) : Prop where
  stopsFound : StopsFound log
  found : log.filterMap found? = running
  starts : ∀ e ∈ log, started? e = none

theorem Halted.append (h : Halted running log) (hmore : ∀ e ∈ more, Quiet e.cmd) :
    Halted running (log ++ more) where
  stopsFound := h.stopsFound.append fun e he => found?_of_quiet (hmore e he)
  found := by
    rw [List.filterMap_append, h.found]
    have hnone : more.filterMap found? = [] :=
      List.filterMap_eq_nil_iff.mpr fun e he => found?_of_quiet (hmore e he)
    rw [hnone, List.append_nil]
  starts e he := by
    rcases List.mem_append.mp he with he | he
    · exact h.starts e he
    · exact started?_of_quiet (hmore e he)

/-- A unit found running was asked for. -/
theorem Halted.mem_isActive (h : Halted running log) {unit : String} (hunit : unit ∈ running) :
    ⟨.inr (.isActive unit), .ok true⟩ ∈ log := by
  rw [← h.found] at hunit
  obtain ⟨⟨c, x⟩, he, hfound⟩ := List.mem_filterMap.mp hunit
  unfold found? at hfound
  split at hfound
  next unit' heq =>
    cases hfound
    exact heq ▸ he
  next => cases hfound

/-- The units found running were started again, on an untouched database. -/
structure Undone (failure : Failure) (log : List (Event RefreshSig)) : Prop where
  untouched : ¬ Touched log
  stopsFound : StopsFound log
  starts : log.filterMap started? = (log.filterMap found?).reverse
  restarted : failure.restarted = true ↔ AllStarted log

/-- What may follow the calls before a restart: starts of the units that were running. -/
theorem restart_permit (h : Halted running log) {L : List (Event RefreshSig)}
    (hlog : log <+: L) (hL : Dropped L → Cleared plan L) {c : RefreshSig.Cmd}
    (hc : Starts running.reverse c) : StartPermit plan L c := by
  obtain ⟨unit, hunit, rfl⟩ := hc
  intro other hother
  cases hother
  exact ⟨hlog.subset (h.mem_isActive (List.mem_reverse.mp hunit)), hL⟩

theorem not_changes_of_starts {units : List String} {c : RefreshSig.Cmd} (h : Starts units c) :
    ¬ Changes c := by
  obtain ⟨unit, -, rfl⟩ := h
  exact id

/-- On an untouched database a restart starts the units again and says whether all did. -/
theorem restart_wp (h : Halted running log) (huntouched : ¬ Touched log)
    (hfailure : failure.restarted = false) :
    wp g.logged Eq (StartPermit plan).guarantee (restart running failure)
      (fun last s => Undone last s.2) (t, log) := by
  refine wp_bind (wp_post ?_ ((startEach_starts running.reverse).wp_kept
    (startEach_issues running.reverse) (I := fun L => log <+: L ∧ ¬ Touched L) ?_ ?_
    ⟨List.prefix_refl log, huntouched⟩))
  · intro problems s hs
    obtain ⟨t', L⟩ := s
    obtain ⟨⟨-, huntouched'⟩, added, hL, ⟨hstarts, hall⟩, hadded⟩ := hs
    have hL : L = log ++ added := hL
    subst hL
    have hnone : ∀ e ∈ added, found? e = none := fun e he => found?_of_starts (hadded e he)
    have hundone : ∀ last : Failure, (last.restarted = true ↔ problems = []) →
        Undone last (log ++ added) := by
      intro last hlast
      refine ⟨huntouched', h.stopsFound.append hnone, ?_, hlast.trans (hall.trans ?_)⟩
      · rw [List.filterMap_append, List.filterMap_append, h.found, hstarts,
          List.filterMap_eq_nil_iff.mpr h.starts, List.filterMap_eq_nil_iff.mpr hnone,
          List.nil_append, List.append_nil]
      · refine forall₂_congr fun unit x => imp_congr_left ?_
        refine ⟨List.mem_append_right log, fun hmem => (List.mem_append.mp hmem).resolve_left ?_⟩
        intro hmem
        have hstart := h.starts _ hmem
        cases hstart
    show wp _ _ _ (if problems.isEmpty = true then _ else _) _ _
    refine wp_ite (fun hempty => ?_) (fun hempty => ?_)
    · exact wp_ret.mpr (hundone _ (iff_of_true rfl (List.isEmpty_iff.mp hempty)))
    · refine wp_ret.mpr (hundone _ (iff_of_false ?_ (hempty ∘ List.isEmpty_iff.mpr)))
      rw [hfailure]
      exact Bool.false_ne_true
  · intro L c hL hc
    exact restart_permit h hL.1 (fun hdropped => absurd hdropped.touched hL.2) hc
  · intro L e hL he
    refine ⟨hL.1.trans (List.prefix_append _ _), not_touched_append hL.2 ?_⟩
    exact List.forall_mem_singleton.mpr (not_changes_of_starts he)

theorem not_changes_of_halts {c : RefreshSig.Cmd} (h : Halts c) : ¬ Changes c := by
  cases c with
  | inl c => exact h.elim
  | inr c => exact id

/-- Either every unit is stopped, or one that could not be stopped was undone. -/
inductive StopAllEnd (units : List String) :
    Except Failure (List String) → List (Event RefreshSig) → Prop where
  | halted (running : List String) (log : List (Event RefreshSig)) (h : Halted running log)
      (huntouched : ¬ Touched log)
      (hstopped : ∀ unit ∈ units, ⟨.inr (.stop unit), .ok ()⟩ ∈ log) :
      StopAllEnd units (.ok running) log
  | undone (failure : Failure) (log : List (Event RefreshSig)) (h : Undone failure log) :
      StopAllEnd units (.error failure) log

theorem stopAll_wp (units : List String) :
    wp g.logged Eq (StartPermit plan).guarantee (stopAll units)
      (fun value s => StopAllEnd units value s.2) (t, []) := by
  refine wp_bind (wp_post ?_ ((stopUnits_end [] units).wp (stopUnits_issues [] units)
    fun log c => startPermit_of_halts))
  intro value s hs
  obtain ⟨t', L⟩ := s
  obtain ⟨log, hL, hend, hstops⟩ := hs
  obtain rfl : log = L := hL.symm
  have hhalted : Halted (foundRunning value) log :=
    ⟨hend.stopsFound, hend.found.symm, fun e he => started?_of_halts (hstops e he)⟩
  have huntouched : ¬ Touched log := by
    intro htouched
    obtain ⟨e, he, hchanges⟩ := htouched
    exact not_changes_of_halts (hstops e he) hchanges
  cases value with
  | error found =>
      exact wp_map (wp_post (fun last s h => .undone last s.2 h)
        (restart_wp hhalted huntouched rfl))
  | ok running => exact wp_ret.mpr (.halted running log hhalted huntouched (hend.stopped _ rfl))

/-- How a refresh ends on a touched database: after a failure every unit is stopped, or
named. -/
structure Ended {α : Type} (plan : RefreshPlan) (value : Except Failure α)
    (log : List (Event RefreshSig)) : Prop where
  touched : Touched log
  stopsFound : StopsFound log
  stopped : ∀ failure, value = .error failure →
    ∀ unit ∈ plan.units, Stopped unit log ∨ failure.Names unit

theorem Ended.of_errors {α β : Type} {value : Except Failure α} {value' : Except Failure β}
    (h : Ended plan value log)
    (herrors : ∀ failure, value' = .error failure → value = .error failure) :
    Ended plan value' log :=
  ⟨h.touched, h.stopsFound, fun failure heq => h.stopped failure (herrors failure heq)⟩

/-- Every unit is stopped, and the database was touched. -/
structure Down (plan : RefreshPlan) (running : List String) (log : List (Event RefreshSig)) :
    Prop extends Halted running log where
  stopped : ∀ unit ∈ plan.units, ⟨.inr (.stop unit), .ok ()⟩ ∈ log
  touched : Touched log

theorem Down.append (h : Down plan running log) (hmore : ∀ e ∈ more, Quiet e.cmd) :
    Down plan running (log ++ more) where
  toHalted := h.toHalted.append hmore
  stopped unit hunit := List.mem_append_left _ (h.stopped unit hunit)
  touched := h.touched.append

theorem Down.snoc (h : Down plan running log) {c : RefreshSig.Cmd} (hc : Quiet c)
    (x : RefreshSig.Ans c) : Down plan running (log ++ [⟨c, x⟩]) :=
  h.append (List.forall_mem_singleton.mpr hc)

/-- Where every unit is stopped, a failure leaves it so. -/
theorem Down.ended {α : Type} (h : Down plan running log) (value : Except Failure α) :
    Ended plan value log where
  touched := h.touched
  stopsFound := h.stopsFound
  stopped _ _ unit hunit := .inl (.of_mem (h.stopped unit hunit) h.starts)

/-- After units were started, stopping all of them again ends the refresh. -/
theorem stopAgain_wp {α : Type} (hstops : StopsFound log) (htouched : Touched log) :
    wp g.logged Eq (StartPermit plan).guarantee (stopAgain plan.units failure)
      (fun last s => Ended plan (.error last : Except Failure α) s.2) (t, log) := by
  refine wp_post ?_ ((stopAgain_stops plan.units failure).wp
    (stopAgain_issues plan.units failure) fun log c => startPermit_of_quiet)
  intro last s hs
  obtain ⟨t', L⟩ := s
  obtain ⟨added, hL, ⟨hunits, -⟩, hquiet⟩ := hs
  have hL : L = log ++ added := hL
  subst hL
  refine ⟨htouched.append, hstops.append fun e he => found?_of_quiet (hquiet e he), ?_⟩
  intro failure' heq unit hunit
  cases heq
  refine (hunits unit hunit).imp_left fun hmem => Stopped.prepend (.of_mem hmem ?_)
  exact fun e he => started?_of_quiet (hquiet e he)

/-- Units are started under the flag, and all stopped again unless each is proven to run with
it. -/
theorem startFlagged_wp (h : Down plan running log) (hcleared : Cleared plan
      (log ++ [⟨.inr (.writeFlag plan.flag plan.flagVar plan.flagGid), .ok ()⟩])) :
    wp g.logged Eq (StartPermit plan).guarantee (startFlagged plan running)
      (fun value s => Ended plan value s.2) (t, log) := by
  refine wp_bind (wp_logged (startPermit_of_quiet trivial) fun x t' => ?_)
  have hwritten := h.snoc (c := .inr (.writeFlag plan.flag plan.flagVar plan.flagGid)) trivial
  cases x with
  | error error => exact wp_ret.mpr ((hwritten _).ended _)
  | ok u =>
      -- From here on the calls so far extend those that clear the start.
      refine wp_bind (wp_post ?_ ((Prog.Yields.any (startInOrder running.reverse)).wp_kept
        (startInOrder_issues running.reverse) (I := fun L => log ++
          [⟨.inr (.writeFlag plan.flag plan.flagVar plan.flagGid), .ok ()⟩] <+: L) ?_ ?_
        (List.prefix_refl _)))
      · intro value s hs
        obtain ⟨t', L⟩ := s
        obtain ⟨-, starts, hL, -, hstarts⟩ := hs
        have hL : L = _ ++ starts := hL
        subst hL
        have hstops := (hwritten (.ok u)).stopsFound.append
          fun e he => found?_of_starts (hstarts e he)
        cases value with
        | error error =>
            exact wp_map (wp_post (fun _ _ => id) (stopAgain_wp hstops (hwritten _).touched.append))
        | ok u =>
            refine wp_bind (wp_post ?_ ((Prog.Yields.any (prove plan.flagVar running)).wp
              (prove_issues plan.flagVar running) fun log c => startPermit_of_quiet))
            intro value s hs
            obtain ⟨t', L⟩ := s
            obtain ⟨reads, hL, -, hreads⟩ := hs
            have hL : L = _ ++ reads := hL
            subst hL
            have hstops' := hstops.append fun e he => found?_of_quiet (hreads e he)
            cases value with
            | error error =>
                exact wp_map (wp_post (fun _ _ => id)
                  (stopAgain_wp hstops' (hwritten _).touched.append.append))
            | ok proof =>
                refine wp_ret.mpr ⟨(hwritten _).touched.append.append, hstops', ?_⟩
                intro failure heq
                cases heq
      · intro L c hL hc
        obtain ⟨after, rfl⟩ := hL
        exact restart_permit (hwritten (.ok u)).toHalted (List.prefix_append _ _)
          (fun _ => hcleared.append) hc
      · exact fun L e hL _ => hL.trans (List.prefix_append _ _)

theorem sanitize_issues : (sanitize plan).Issues Quiet := by
  unfold sanitize
  split
  · exact .ret _
  · refine Prog.Issues.bind (.perform trivial) fun x => ?_
    cases x <;> exact .ret _

/-- Without an error the sanitize script, if there is one, succeeded. -/
theorem sanitize_sanitizes :
    (sanitize plan).Yields fun value calls => ∀ result, value = .ok result →
      ∀ script, plan.sanitize = .script script → ∃ sanitized,
        ⟨.inr (.sanitize script plan.identity.app plan.operatorUid), .ok sanitized⟩ ∈ calls := by
  unfold sanitize
  split
  next reason hstep =>
    intro result _ script hscript
    rw [hstep] at hscript
    cases hscript
  next path hstep =>
    refine .bind (.perform fun x => ?_)
    cases x with
    | error error => exact fun result h => by cases h
    | ok sanitized =>
        intro result _ script hscript
        rw [hstep] at hscript
        cases hscript
        exact ⟨sanitized, List.mem_cons_self⟩

/-- Once the database was restored, the units are started only after every other step. -/
theorem finishRefresh_wp {refreshed : Refreshed} (h : Down plan running log)
    (hrestored : ∃ made refreshed,
      (refreshInPlace plan.identity plan.archive plan.marker).Makes made (.ok refreshed) ∧
        made.map Event.inl <:+: log) :
    wp g.logged Eq (StartPermit plan).guarantee (finishRefresh plan running refreshed)
      (fun value s => Ended plan value s.2) (t, log) := by
  refine wp_bind (wp_logged (startPermit_of_quiet trivial) fun applied t' => ?_)
  replace h := h.snoc (c := .inr .migrate) trivial applied
  cases applied with
  | error error => exact wp_ret.mpr (h.ended _)
  | ok applied =>
      refine wp_bind (wp_logged (startPermit_of_quiet trivial) fun count t' => ?_)
      replace h := h.snoc (c := .inl (.tableCount plan.identity.app)) trivial count
      cases count with
      | error error => exact wp_ret.mpr (h.ended _)
      | ok tables =>
          dsimp only
          split
          next hfew => exact wp_ret.mpr (h.ended _)
          next hfew =>
            refine wp_bind (wp_post ?_ (sanitize_sanitizes.wp sanitize_issues
              fun log c => startPermit_of_quiet))
            intro value s hs
            obtain ⟨t', L⟩ := s
            obtain ⟨added, hL, hsanitized, hquiet⟩ := hs
            have hL : L = _ ++ added := hL
            subst hL
            replace h := h.append hquiet
            cases value with
            | error error => exact wp_ret.mpr (h.ended _)
            | ok sanitized =>
                refine wp_bind (wp_post ?_ (startFlagged_wp h ?_))
                · intro value s hended
                  cases value with
                  | error failure =>
                      refine wp_ret.mpr (hended.of_errors fun failure' heq => ?_)
                      cases heq
                      rfl
                  | ok proof =>
                      refine wp_ret.mpr (hended.of_errors fun failure heq => ?_)
                      cases heq
                · refine ⟨?_, ⟨applied, by simp⟩, ⟨tables, by simp, Nat.le_of_not_lt hfew⟩, ?_,
                    by simp⟩
                  · obtain ⟨made, refreshed, hmakes, hmade⟩ := hrestored
                    refine ⟨made, refreshed, hmakes, hmade.trans ?_⟩
                    simp only [List.append_assoc]
                    exact (List.prefix_append _ _).isInfix
                  · intro script hscript
                    obtain ⟨done, hdone⟩ := hsanitized sanitized rfl script hscript
                    exact ⟨done, by simp [hdone]⟩

/-- A refresh ends with the units started again on an untouched database, or it touched the
database. -/
inductive RunEnd (plan : RefreshPlan) :
    Except Failure Done → List (Event RefreshSig) → Prop where
  | undone (failure : Failure) (log : List (Event RefreshSig)) (h : Undone failure log) :
      RunEnd plan (.error failure) log
  | ended (value : Except Failure Done) (log : List (Event RefreshSig))
      (h : Ended plan value log) : RunEnd plan value log

theorem quiet_of_waits {c : RefreshSig.Cmd} (h : Waits c) : Quiet c := by
  obtain c | c := c
  · trivial
  · cases c <;> trivial

theorem not_changes_of_waits {c : RefreshSig.Cmd} (h : Waits c) : ¬ Changes c := by
  obtain c | c := c
  · exact h
  · exact id

theorem quiet_inl (made : List (Event ServerSig)) :
    ∀ e ∈ (made.map Event.inl : List (Event RefreshSig)), Quiet e.cmd := by
  intro e he
  obtain ⟨d, -, rfl⟩ := List.mem_map.mp he
  trivial

/-- With every unit stopped, a refresh of the database is refused and leaves it untouched, or
it touches the database. -/
theorem untouched_or_down (h : Halted running log) (huntouched : ¬ Touched log)
    (hstopped : ∀ unit ∈ plan.units, ⟨.inr (.stop unit), .ok ()⟩ ∈ log)
    {value : Except RestoreError Refreshed} {made : List (Event ServerSig)}
    (hcourse : RefreshCourse plan.identity plan.marker value made) :
    (∃ reason, value = .error (.refused reason) ∧ ¬ Touched (log ++ made.map Event.inl)) ∨
      (∀ reason, value ≠ .error (.refused reason)) ∧
        Down plan running (log ++ made.map Event.inl) := by
  cases hcourse with
  | refused reason reads hreads =>
      refine .inl ⟨reason, rfl, not_touched_append huntouched fun e he => ?_⟩
      obtain ⟨d, hd, rfl⟩ := List.mem_map.mp he
      exact hreads d hd
  | replaced value reads replacement hvalue hreads hreplacement =>
      obtain ⟨x, rest, rfl, -⟩ := hreplacement.exists_drop
      refine .inr ⟨hvalue, h.append (quiet_inl _), fun unit hunit => ?_, ?_⟩
      · exact List.mem_append_left _ (hstopped unit hunit)
      · refine ⟨Event.inl ⟨.drop (plan.identity.restorer "postgres") plan.identity.app.database,
          x⟩, List.mem_append_right _ (List.mem_map_of_mem ?_), trivial⟩
        simp

theorem runLocked_wp (plan : RefreshPlan) :
    wp g.logged Eq (StartPermit plan).guarantee (runLocked plan)
      (fun value s => RunEnd plan value s.2) (t, []) := by
  refine wp_bind (wp_post ?_ (stopAll_wp plan.units))
  intro value s hend
  obtain ⟨t', log⟩ := s
  cases hend with
  | undone failure log h => exact wp_ret.mpr (.undone _ _ h)
  | halted running log h huntouched hstopped =>
      refine wp_bind (wp_post ?_ ((Prog.Yields.any
        (drainSessions plan.identity (pauses plan.drain))).wp (drainSessions_issues _ _)
        fun log c hc => startPermit_of_quiet (quiet_of_waits hc)))
      intro _ s hs
      obtain ⟨t', L⟩ := s
      obtain ⟨waited, hL, -, hwaited⟩ := hs
      have hL : L = log ++ waited := hL
      subst hL
      replace h := h.append fun e he => quiet_of_waits (hwaited e he)
      replace huntouched := not_touched_append huntouched
        fun e he => not_changes_of_waits (hwaited e he)
      replace hstopped := fun unit hunit => List.mem_append_left waited (hstopped unit hunit)
      refine wp_bind (wp_post ?_ (((refreshInPlace_course plan.identity plan.archive
        plan.marker).and (.makes _)).ofLeft.wp (Prog.issues_inl _) fun log c hc => ?_))
      · intro value s hs
        obtain ⟨t', L⟩ := s
        obtain ⟨added, hL, ⟨made, rfl, hcourse, hmakes⟩, -⟩ := hs
        have hL : L = log ++ waited ++ made.map Event.inl := hL
        subst hL
        obtain ⟨reason, rfl, huntouched'⟩ | ⟨hvalue, hdown⟩ :=
          untouched_or_down h huntouched hstopped hcourse
        · exact wp_map (wp_post (fun last s h => .undone last s.2 h)
            (restart_wp (h.append (quiet_inl made)) huntouched' rfl))
        · cases value with
          | error error =>
              cases error with
              | refused reason => exact absurd rfl (hvalue reason)
              | failed reason => exact wp_ret.mpr (.ended _ _ (hdown.ended _))
          | ok refreshed =>
              refine wp_post (fun value s h => .ended value s.2 h) (finishRefresh_wp hdown ?_)
              exact ⟨made, refreshed, hmakes, (List.suffix_append _ _).isInfix⟩
      · obtain ⟨d, rfl⟩ := hc
        exact startPermit_of_quiet trivial

end Phases

/-- What a run's end and its permitted starts say of the units. -/
theorem RunEnd.unitsSafe {plan : RefreshPlan} {value : Except Failure Done}
    {calls : List (Event RefreshSig)} (h : RunEnd plan value calls)
    (hkept : (StartPermit plan).Kept [] calls) : UnitsSafe plan value calls where
  cleared before unit x after hcalls := (hkept before _ after hcalls unit rfl).2
  foundRunning before unit x after hcalls := (hkept before _ after hcalls unit rfl).1
  stopped failure hvalue hdropped := by
    cases h with
    | undone failure' log h => exact absurd hdropped.touched h.untouched
    | ended value log h => exact h.stopped failure hvalue
  restarted huntouched := by
    cases h with
    | undone failure log h => exact ⟨failure, rfl, h.starts, h.restarted⟩
    | ended value log h => exact absurd h.touched huntouched
  stopsFound := by
    cases h with
    | undone failure log h => exact h.stopsFound
    | ended value log h => exact h.stopsFound

/-- Whatever the units, the server and the host answer, a refresh treats its units safely. -/
theorem runLocked_unitsSafe {τ : Type} (plan : RefreshPlan) (g : Handler RefreshSig τ)
    (sched : List Bool) (t : τ) :
    UnitsSafe plan ((runLocked plan).exec g sched t).value
      ((runLocked plan).exec g sched t).calls := by
  obtain ⟨hend, hkept⟩ := exec_of_logged (runLocked_wp (g := g) (t := t) plan) sched
  rw [List.nil_append] at hend
  exact hend.unitsSafe hkept

end Fraisier.Cli
