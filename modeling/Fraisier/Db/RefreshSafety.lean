import Fraisier.Db.Refresh
import Fraisier.Effect.History

/-!
# A refresh drops a marked, idle database only

What a refresh asks of the server, whatever it is answered: either it is refused and reads
only, or it ends its reads with the marker and the sessions of the target and replaces the
target from there (`RefreshCourse`). Read `RefreshSafe` first, which says what this means
for the caller; the main theorem is `refreshInPlace_safe`.
-/

namespace Fraisier.Db

open Fraisier.Effect

/-- The call changes a database. -/
def ServerCall.Mutates : ServerCall → Prop
  | .create _ _ _ => True
  | .restore _ _ _ => True
  | .drop _ _ => True
  | .rebuild _ _ => True
  | .setMarker _ _ => True
  | .createExtensions _ _ => True
  | .schemaPrivilege _ _ _ _ _ => True
  | .restoreList _ _ _ _ _ => True
  | _ => False

/-- The call changes nothing. -/
def ServerCall.Reads (c : ServerCall) : Prop :=
  ¬ c.Mutates

/-- The call neither drops nor creates a database. -/
def ServerCall.Fills : ServerCall → Prop
  | .create _ _ _ => False
  | .drop _ _ => False
  | _ => True

/-- What a refresh guarantees by its value and its calls. -/
structure RefreshSafe (identity : RestoreIdentity) (marker : String)
    (value : Except RestoreError Refreshed) (calls : List (Event ServerSig)) : Prop where
  /-- A refused refresh has changed nothing. -/
  refused : ∀ reason, value = .error (.refused reason) → ∀ e ∈ calls, e.cmd.Reads
  /-- Only the target is dropped, right after it was read to carry the marker and to have no
  sessions, and before any other change. -/
  guarded : ∀ before maintenance name x after,
    calls = before ++ ⟨.drop maintenance name, x⟩ :: after →
      name = identity.app.database ∧ maintenance = identity.restorer "postgres" ∧
      (∃ reads, before = reads ++
        [⟨.marker (identity.restorer name), .ok (some marker)⟩,
          ⟨.connections maintenance name, .ok []⟩]) ∧
      ∀ e ∈ before, e.cmd.Reads
  /-- After the drop no error is a refusal. -/
  failed : ∀ maintenance name x, ⟨.drop maintenance name, x⟩ ∈ calls →
    ∀ reason, value ≠ .error (.refused reason)
  /-- The new database is marked before anything else is done. -/
  marked : ∀ before maintenance name owner after,
    calls = before ++ ⟨.create maintenance name owner, .ok ()⟩ :: after →
      ∃ x rest, after = ⟨.setMarker (identity.restorer name) marker, x⟩ :: rest
  /-- A refresh that changes anything drops the target. -/
  drops : ∀ e ∈ calls, e.cmd.Mutates → ∃ maintenance name x,
    ⟨.drop maintenance name, x⟩ ∈ calls

/-! ## The checks read only -/

section Checks

variable {restorer maintenance : PgConn} {identity : RestoreIdentity} {archive marker : String}

/-- Listing an archive reads only. -/
theorem list_issues : (list archive).Issues ServerCall.Reads := by
  refine Prog.Issues.bind (.perform id) fun x => ?_
  cases x <;> exact .ret _

/-- The checks of a listing read only. -/
theorem precheckListing_issues {listing : String} :
    (precheckListing identity restorer listing).Issues ServerCall.Reads := by
  unfold precheckListing
  split
  · refine Prog.Issues.bind (.perform id) fun x => ?_
    cases x with
    | error error => exact .ret _
    | ok who =>
        dsimp only
        split
        · exact .ret _
        · split <;> exact .ret _
  · exact .ret _

theorem checkExtensions_issues {extensions : List String} :
    (checkExtensions maintenance extensions).Issues ServerCall.Reads := by
  unfold checkExtensions
  split
  · exact .ret _
  · refine Prog.Issues.bind (.perform id) fun x => ?_
    rcases x with _ | (_ | _) <;> exact .ret _

theorem readOwner_issues : (readOwner identity).Issues ServerCall.Reads := by
  unfold readOwner
  split
  · refine Prog.Issues.bind (.perform id) fun x => ?_
    cases x <;> exact .ret _
  · exact .ret _

/-- The check of the privilege to mark reads only. -/
theorem checkMarkerPrivilege_issues :
    (checkMarkerPrivilege restorer).Issues ServerCall.Reads := by
  refine Prog.Issues.bind (.perform id) fun x => ?_
  rcases x with _ | (_ | _) <;> exact .ret _

/-- The check of the database reads only. -/
theorem markedAndIdle_issues :
    (markedAndIdle restorer maintenance marker).Issues ServerCall.Reads := by
  refine Prog.Issues.bind (.perform id) fun x => ?_
  rcases x with _ | (_ | found)
  · exact .ret _
  · exact .ret _
  · dsimp only
    split
    · refine Prog.Issues.bind (.perform id) fun x => ?_
      rcases x with _ | (_ | _) <;> exact .ret _
    · exact .ret _

/-- All checks before a refresh read only. -/
theorem refreshChecks_issues :
    (refreshChecks identity archive marker).Issues ServerCall.Reads := by
  refine Prog.Issues.bind list_issues fun x => ?_
  cases x with
  | error error => exact .ret _
  | ok listing =>
      refine Prog.Issues.bind precheckListing_issues fun x => ?_
      cases x with
      | error error => exact .ret _
      | ok createsTviews =>
          refine Prog.Issues.bind checkExtensions_issues fun x => ?_
          cases x with
          | error error => exact .ret _
          | ok u =>
              dsimp only
              -- Which rows the archive carries does not matter; the split would compute them.
              generalize (splitListing listing (archiveExtensions listing) []).extensionData = rows
              split
              · exact .ret _
              · refine Prog.Issues.bind readOwner_issues fun x => ?_
                cases x with
                | error error => exact .ret _
                | ok owner =>
                    refine Prog.Issues.bind checkMarkerPrivilege_issues fun x => ?_
                    cases x with
                    | error error => exact .ret _
                    | ok u =>
                        refine Prog.Issues.bind markedAndIdle_issues fun x => ?_
                        cases x <;> exact .ret _

/-- The error, if there is one, is a refusal. -/
def Refuses {α : Type} (value : Except RestoreError α) : Prop :=
  ∀ error, value = .error error → ∃ reason, error = .refused reason

theorem refuses_ok {α : Type} {a : α} : Refuses (.ok a) := by
  intro error h
  cases h

theorem refuses_refused {α : Type} {reason : String} :
    Refuses (.error (.refused reason) : Except RestoreError α) := by
  intro error h
  cases h
  exact ⟨reason, rfl⟩

/-- A listing that fails refuses the refresh. -/
theorem list_refuses : (list archive).Yields fun value _ => Refuses value := by
  refine .bind (.perform fun x => ?_)
  cases x with
  | error error => exact refuses_refused
  | ok listing => exact refuses_ok

/-- A listing that does not pass refuses the refresh. -/
theorem precheckListing_refuses {listing : String} :
    (precheckListing identity restorer listing).Yields fun value _ => Refuses value := by
  unfold precheckListing
  split
  · refine .bind (.perform fun x => ?_)
    cases x with
    | error error => exact refuses_refused
    | ok who =>
        dsimp only
        split
        · exact refuses_refused
        · split
          · exact refuses_refused
          · exact refuses_ok
  · exact refuses_ok

/-- A missing extension refuses the refresh. -/
theorem checkExtensions_refuses {extensions : List String} :
    (checkExtensions maintenance extensions).Yields fun value _ => Refuses value := by
  unfold checkExtensions
  split
  · exact refuses_ok
  · refine .bind (.perform fun x => ?_)
    rcases x with _ | (_ | _)
    · exact refuses_refused
    · exact refuses_ok
    · exact refuses_refused

/-- An owner that is not known refuses the refresh. -/
theorem readOwner_refuses : (readOwner identity).Yields fun value _ => Refuses value := by
  unfold readOwner
  split
  · refine .bind (.perform fun x => ?_)
    cases x with
    | error error => exact refuses_refused
    | ok owner => exact refuses_ok
  · exact refuses_ok

/-- A role that cannot mark refuses the refresh. -/
theorem checkMarkerPrivilege_refuses :
    (checkMarkerPrivilege restorer).Yields fun value _ => Refuses value := by
  refine .bind (.perform fun x => ?_)
  rcases x with _ | (_ | _)
  · exact refuses_refused
  · exact refuses_ok
  · exact refuses_refused

/-- A database that may be dropped was read to carry the marker and to have no sessions. -/
def Admits (restorer maintenance : PgConn) (marker : String) (value : Except String Unit)
    (calls : List (Event ServerSig)) : Prop :=
  value = .ok () → calls =
    [⟨.marker restorer, .ok (some marker)⟩, ⟨.connections maintenance restorer.database, .ok []⟩]

/-- A database is admitted only with its own marker and without sessions. -/
theorem markedAndIdle_admits :
    (markedAndIdle restorer maintenance marker).Yields (Admits restorer maintenance marker) := by
  refine .bind (.perform fun x => ?_)
  rcases x with _ | (_ | found)
  · exact fun h => by cases h
  · exact fun h => by cases h
  · dsimp only
    by_cases hfound : found = marker
    · subst hfound
      rw [if_pos rfl]
      refine .bind (.perform fun x => ?_)
      rcases x with _ | (_ | _)
      · exact fun h => by cases h
      · exact fun _ => rfl
      · exact fun h => by cases h
    · rw [if_neg hfound]
      exact fun h => by cases h

/-- The checks refuse, or end with the two reads that admit the drop. -/
structure ChecksEnd (identity : RestoreIdentity) (marker : String)
    (value : Except RestoreError Checked) (calls : List (Event ServerSig)) : Prop where
  refuses : Refuses value
  admits : ∀ checked, value = .ok checked → ∃ reads, calls = reads ++
    [⟨.marker (identity.restorer identity.app.database), .ok (some marker)⟩,
      ⟨.connections (identity.restorer "postgres") identity.app.database, .ok []⟩]

/-- Checks that stop before their last reads end in a refusal. -/
theorem ChecksEnd.refused {error : RestoreError} {calls : List (Event ServerSig)}
    (h : ∃ reason, error = .refused reason) : ChecksEnd identity marker (.error error) calls where
  refuses _ heq := by
    cases heq
    exact h
  admits _ heq := by cases heq

/-- The checks end in a refusal, or have found the marker and no session. -/
theorem refreshChecks_end :
    (refreshChecks identity archive marker).Yields (ChecksEnd identity marker) := by
  refine .bind (list_refuses.mono fun x _ hx => ?_)
  cases x with
  | error error => exact .refused (hx _ rfl)
  | ok listing =>
      refine .bind (precheckListing_refuses.mono fun x _ hx => ?_)
      cases x with
      | error error => exact .refused (hx _ rfl)
      | ok createsTviews =>
          refine .bind (checkExtensions_refuses.mono fun x _ hx => ?_)
          cases x with
          | error error => exact .refused (hx _ rfl)
          | ok u =>
              dsimp only
              generalize (splitListing listing (archiveExtensions listing) []).extensionData = rows
              split
              · exact .refused ⟨_, rfl⟩
              · refine .bind (readOwner_refuses.mono fun x _ hx => ?_)
                cases x with
                | error error => exact .refused (hx _ rfl)
                | ok owner =>
                    refine .bind (checkMarkerPrivilege_refuses.mono fun x _ hx => ?_)
                    cases x with
                    | error error => exact .refused (hx _ rfl)
                    | ok u =>
                        refine .bind (markedAndIdle_admits.mono fun x calls hx => ?_)
                        cases x with
                        | error reason => exact .refused ⟨_, rfl⟩
                        | ok u =>
                            refine ⟨refuses_ok, fun _ _ => ?_⟩
                            rw [hx rfl]
                            simp only [List.append_nil, ← List.append_assoc]
                            exact ⟨_, rfl⟩

end Checks

/-! ## The replacement starts with the drop -/

section Replacement

variable {conn restorer maintenance : PgConn} {archive marker role target : String}
variable {owner : Option String} {identity : RestoreIdentity}

/-- Granting is part of filling a database. -/
theorem grantAll_issues {grants : List (String × SchemaPrivilege)} :
    (grantAll conn role grants).Issues ServerCall.Fills := by
  induction grants with
  | nil => exact .ret _
  | cons grant rest ih =>
      refine Prog.Issues.bind (.perform trivial) fun x => ?_
      cases x with
      | error error => exact .ret _
      | ok u => exact ih

theorem revokeAll_issues {revoked : Except String Unit} {schemas : List String} :
    (revokeAll conn role revoked schemas).Issues ServerCall.Fills := by
  induction schemas generalizing revoked with
  | nil => exact .ret _
  | cons schema rest ih =>
      refine Prog.Issues.bind (.perform trivial) fun x => ?_
      cases x with
      | error error => exact ih
      | ok u => exact ih

/-- Restoring from lists is part of filling a database. -/
theorem restoreLists_issues {lists : RestoreLists} :
    (restoreLists conn archive lists owner).Issues ServerCall.Fills := by
  refine Prog.Issues.bind grantAll_issues fun x => ?_
  cases x with
  | error error => exact .ret _
  | ok u =>
      refine Prog.Issues.bind (.perform trivial) fun objects => ?_
      refine Prog.Issues.bind revokeAll_issues fun revoked => ?_
      cases objects with
      | error error => exact .ret _
      | ok warnings =>
          cases revoked with
          | error problem => exact .ret _
          | ok u =>
              dsimp only
              split
              · exact .ret _
              · refine Prog.Issues.bind (.perform trivial) fun rows => ?_
                cases rows <;> exact .ret _

/-- Creating extensions is part of filling a database. -/
theorem createExtensions_issues {extensions : List String} :
    (createExtensions restorer extensions).Issues ServerCall.Fills := by
  unfold createExtensions
  split
  · exact .ret _
  · refine Prog.Issues.bind (.perform trivial) fun x => ?_
    cases x <;> exact .ret _

theorem rebuild_issues : (rebuild conn).Issues ServerCall.Fills := by
  refine Prog.Issues.bind (.perform trivial) fun x => ?_
  cases x with
  | error error => exact .ret _
  | ok rebuilt =>
      refine Prog.Issues.bind (.perform trivial) fun x => ?_
      cases x <;> exact .ret _

theorem rebuildTviews_issues {createsTviews : Bool} :
    (rebuildTviews restorer createsTviews).Issues ServerCall.Fills := by
  unfold rebuildTviews
  split
  · refine Prog.Issues.bind rebuild_issues fun x => ?_
    cases x with
    | error error => exact .ret _
    | ok rebuilt =>
        dsimp only
        split <;> exact .ret _
  · exact .ret _

/-- The new database is filled without dropping or creating one. -/
theorem fillDatabase_issues {checked : Checked} :
    (fillDatabase restorer archive checked).Issues ServerCall.Fills := by
  refine Prog.Issues.bind createExtensions_issues fun x => ?_
  cases x with
  | error error => exact .ret _
  | ok u =>
      refine Prog.Issues.bind (.perform trivial) fun schemas => ?_
      cases schemas with
      | error error => exact .ret _
      | ok schemas =>
          refine Prog.Issues.bind restoreLists_issues fun x => ?_
          cases x with
          | error error => exact .ret _
          | ok warnings =>
              refine Prog.Issues.bind rebuildTviews_issues fun x => ?_
              cases x <;> exact .ret _

/-- The calls that replace the target: the drop, the new database, its mark and what fills
it, up to the first that fails. -/
inductive Replacement (identity : RestoreIdentity) (marker : String) :
    List (Event ServerSig) → Prop where
  | notDropped (error) : Replacement identity marker
      [⟨.drop (identity.restorer "postgres") identity.app.database, .error error⟩]
  | notCreated (owner error) : Replacement identity marker
      [⟨.drop (identity.restorer "postgres") identity.app.database, .ok ()⟩,
        ⟨.create (identity.restorer "postgres") identity.app.database owner, .error error⟩]
  | created (owner x fill) (hfill : ∀ e ∈ fill, e.cmd.Fills) : Replacement identity marker
      (⟨.drop (identity.restorer "postgres") identity.app.database, .ok ()⟩ ::
        ⟨.create (identity.restorer "postgres") identity.app.database owner, .ok ()⟩ ::
        ⟨.setMarker (identity.restorer identity.app.database) marker, x⟩ :: fill)

/-- The database is replaced in the order of `Replacement`. -/
theorem replaceDatabase_replaces {checked : Checked} :
    (replaceDatabase identity archive marker checked).Yields
      fun _ calls => Replacement identity marker calls := by
  refine .bind (.perform fun x => ?_)
  cases x with
  | error error => exact .notDropped error
  | ok u =>
      refine .bind (.perform fun x => ?_)
      cases x with
      | error error => exact .notCreated _ error
      | ok u =>
          refine .bind (.perform fun x => ?_)
          cases x with
          | error error => exact .created _ _ [] (by simp)
          | ok u =>
              refine ((Prog.Yields.any _).and_issues fillDatabase_issues).mono ?_
              intro _ fill hfill
              exact .created _ _ fill hfill.2

end Replacement

/-! ## The course of a refresh -/

/-- A refresh is refused and reads only, or it ends its reads with the marker and the
sessions of the target and replaces it. -/
inductive RefreshCourse (identity : RestoreIdentity) (marker : String) :
    Except RestoreError Refreshed → List (Event ServerSig) → Prop where
  | refused (reason reads) (hreads : ∀ e ∈ reads, e.cmd.Reads) :
      RefreshCourse identity marker (.error (.refused reason)) reads
  | replaced (value reads replacement) (hvalue : ∀ reason, value ≠ .error (.refused reason))
      (hreads : ∀ e ∈ reads, e.cmd.Reads) (hreplacement : Replacement identity marker replacement) :
      RefreshCourse identity marker value
        (reads ++ [⟨.marker (identity.restorer identity.app.database), .ok (some marker)⟩,
          ⟨.connections (identity.restorer "postgres") identity.app.database, .ok []⟩] ++
          replacement)

/-- A refresh checks first, and replaces only what passed. -/
theorem refreshInPlace_course (identity : RestoreIdentity) (archive marker : String) :
    (refreshInPlace identity archive marker).Yields (RefreshCourse identity marker) := by
  refine .bind ((refreshChecks_end.and_issues refreshChecks_issues).mono ?_)
  intro value reads hchecks
  obtain ⟨⟨hrefuses, hadmits⟩, hreads⟩ := hchecks
  cases value with
  | error error =>
      obtain ⟨reason, rfl⟩ := hrefuses error rfl
      show RefreshCourse identity marker _ (reads ++ [])
      rw [List.append_nil]
      exact .refused reason reads hreads
  | ok checked =>
      obtain ⟨reads, rfl⟩ := hadmits checked rfl
      refine .bind (replaceDatabase_replaces.mono fun value replacement hreplacement => ?_)
      have hreads' : ∀ e ∈ reads, e.cmd.Reads := fun e he => hreads e (List.mem_append_left _ he)
      cases value with
      | error error =>
          show RefreshCourse identity marker (.error (.failed error)) (_ ++ (replacement ++ []))
          rw [List.append_nil]
          exact .replaced _ _ _ (fun reason h => by cases h) hreads' hreplacement
      | ok refreshed =>
          show RefreshCourse identity marker (.ok refreshed) (_ ++ (replacement ++ []))
          rw [List.append_nil]
          exact .replaced _ _ _ (fun reason h => by cases h) hreads' hreplacement

namespace Replacement

variable {identity : RestoreIdentity} {marker : String} {calls : List (Event ServerSig)}

/-- The target is dropped first, and then nothing is dropped any more. -/
theorem exists_drop (h : Replacement identity marker calls) :
    ∃ x rest, calls =
      ⟨.drop (identity.restorer "postgres") identity.app.database, x⟩ :: rest ∧
      ∀ maintenance name y, ⟨.drop maintenance name, y⟩ ∉ rest := by
  cases h with
  | notDropped error => exact ⟨_, [], rfl, fun _ _ _ => List.not_mem_nil⟩
  | notCreated owner error =>
      refine ⟨_, _, rfl, fun maintenance name y hmem => ?_⟩
      have heq := List.mem_singleton.mp hmem
      cases heq
  | created owner x fill hfill =>
      refine ⟨_, _, rfl, fun maintenance name y hmem => ?_⟩
      rcases List.mem_cons.mp hmem with heq | hmem
      · cases heq
      · rcases List.mem_cons.mp hmem with heq | hmem
        · cases heq
        · exact hfill _ hmem

end Replacement

section Safe

variable {identity : RestoreIdentity} {marker : String}
variable {value : Except RestoreError Refreshed} {calls : List (Event ServerSig)}

/-- A call that changes something is not among the reads. -/
theorem not_mem_of_reads {reads : List (Event ServerSig)} (hreads : ∀ e ∈ reads, e.cmd.Reads)
    {e : Event ServerSig} (he : e.cmd.Mutates) : e ∉ reads :=
  fun hmem => hreads e hmem he

/-- The last reads of the checks are reads. -/
theorem reads_admission (identity : RestoreIdentity) (marker : String)
    {reads : List (Event ServerSig)} (hreads : ∀ e ∈ reads, e.cmd.Reads) :
    ∀ e ∈ reads ++ [⟨.marker (identity.restorer identity.app.database), .ok (some marker)⟩,
      ⟨.connections (identity.restorer "postgres") identity.app.database, .ok []⟩],
      e.cmd.Reads := by
  intro e he
  rcases List.mem_append.mp he with he | he
  · exact hreads e he
  · rcases List.mem_pair.mp he with rfl | rfl <;> exact id

/-- A refusal has only read. -/
theorem RefreshSafe.of_reads {reason : String} (hreads : ∀ e ∈ calls, e.cmd.Reads) :
    RefreshSafe identity marker (.error (.refused reason)) calls where
  refused _ _ := hreads
  guarded before maintenance name x after hcalls := by
    refine absurd ?_ (not_mem_of_reads hreads (e := ⟨.drop maintenance name, x⟩) trivial)
    simp [hcalls]
  failed maintenance name x hmem :=
    absurd hmem (not_mem_of_reads hreads (e := ⟨.drop maintenance name, x⟩) trivial)
  marked before maintenance name owner after hcalls := by
    refine absurd ?_ (not_mem_of_reads hreads
      (e := ⟨.create maintenance name owner, .ok ()⟩) trivial)
    simp [hcalls]
  drops e he hmutates := absurd hmutates (hreads e he)

/-- A new database is marked by the call after it. -/
theorem Replacement.marked_after {reads replacement : List (Event ServerSig)}
    (hreads : ∀ e ∈ reads, e.cmd.Reads) (h : Replacement identity marker replacement)
    {before after : List (Event ServerSig)} {maintenance : PgConn} {name : String}
    {owner : Option String}
    (hcalls : reads ++ replacement =
      before ++ ⟨.create maintenance name owner, .ok ()⟩ :: after) :
    ∃ x rest, after = ⟨.setMarker (identity.restorer name) marker, x⟩ :: rest := by
  have hread : ⟨.create maintenance name owner, .ok ()⟩ ∉ reads := not_mem_of_reads hreads trivial
  have hmem : ⟨.create maintenance name owner, .ok ()⟩ ∈ reads ++ replacement := by simp [hcalls]
  cases h with
  | notDropped error =>
      rcases List.mem_append.mp hmem with hmem | hmem
      · exact absurd hmem hread
      · have heq := List.mem_singleton.mp hmem
        cases heq
  | notCreated owner' error =>
      rcases List.mem_append.mp hmem with hmem | hmem
      · exact absurd hmem hread
      · rcases List.mem_pair.mp hmem with heq | heq <;> cases heq
  | created owner' x fill hfill =>
      -- No other call of the replacement creates a database.
      rw [List.append_cons] at hcalls
      have hbefore : ⟨.create maintenance name owner, .ok ()⟩ ∉ reads ++
          [(⟨.drop (identity.restorer "postgres") identity.app.database, .ok ()⟩ :
            Event ServerSig)] := by
        intro hmem
        rcases List.mem_append.mp hmem with hmem | hmem
        · exact hread hmem
        · have heq := List.mem_singleton.mp hmem
          cases heq
      have hafter : ⟨.create maintenance name owner, .ok ()⟩ ∉
          (⟨.setMarker (identity.restorer identity.app.database) marker, x⟩ ::
            fill : List (Event ServerSig)) := by
        intro hmem
        rcases List.mem_cons.mp hmem with heq | hmem
        · cases heq
        · exact hfill _ hmem
      obtain ⟨-, heq, hrest⟩ := (List.append_cons_inj_of_notMem hbefore hafter).mp hcalls
      cases heq
      exact ⟨x, fill, hrest.symm⟩

/-- What follows the course of a refresh is safe. -/
theorem RefreshCourse.safe (h : RefreshCourse identity marker value calls) :
    RefreshSafe identity marker value calls := by
  cases h with
  | refused reason reads hreads => exact .of_reads hreads
  | replaced value reads replacement hvalue hreads hreplacement =>
      have hadmission := reads_admission identity marker hreads
      obtain ⟨x, rest, hdrop, hrest⟩ := hreplacement.exists_drop
      refine ⟨fun reason h => absurd h (hvalue reason), ?_, fun _ _ _ _ => hvalue, ?_, ?_⟩
      · intro before maintenance name y after hcalls
        rw [hdrop] at hcalls
        obtain ⟨rfl, heq, -⟩ := (List.append_cons_inj_of_notMem
          (not_mem_of_reads hadmission (e := ⟨.drop maintenance name, y⟩) trivial)
          (hrest _ _ _)).mp hcalls
        cases heq
        exact ⟨rfl, rfl, ⟨reads, rfl⟩, hadmission⟩
      · intro before maintenance name owner after hcalls
        exact hreplacement.marked_after hadmission hcalls
      · exact fun _ _ _ => ⟨_, _, x, by simp [hdrop]⟩

end Safe

/-- Whatever the server answers, a refresh is safe. -/
theorem refreshInPlace_safe {τ : Type} (identity : RestoreIdentity) (archive marker : String)
    (g : Handler ServerSig τ) (sched : List Bool) (t : τ) :
    RefreshSafe identity marker ((refreshInPlace identity archive marker).exec g sched t).value
      ((refreshInPlace identity archive marker).exec g sched t).calls :=
  ((refreshInPlace_course identity archive marker).exec g sched t).safe

end Fraisier.Db
