import Fraisier.Db.RefreshSafety
import Fraisier.Db.Throwaway

/-!
# What a restore into a throwaway leaves behind

Whatever the server answers, a restore that was refused created nothing, one that failed
dropped what it created, and one that succeeded dropped nothing; only one database is ever
changed. Read `ThrowawaySafe` first; the main theorem is `restoreThrowaway_safe`.
-/

namespace Fraisier.Db

open Fraisier.Effect

/-! ## What a restore guarantees -/

/-- The database that a call creates, drops or writes to. -/
def ServerCall.target? : ServerCall → Option String
  | .create _ name _ => some name
  | .drop _ name => some name
  | .restore conn _ _ => some conn.database
  | .rebuild conn _ => some conn.database
  | .setMarker conn _ => some conn.database
  | .createExtensions conn _ => some conn.database
  | .schemaPrivilege conn _ _ _ _ => some conn.database
  | .restoreList conn _ _ _ _ => some conn.database
  | _ => none

/-- The connection that a call is made over. -/
def ServerCall.conn? : ServerCall → Option PgConn
  | .list _ => none
  | .identity conn => some conn
  | .currentUser conn => some conn
  | .dump conn _ => some conn
  | .create maintenance _ _ => some maintenance
  | .restore conn _ _ => some conn
  | .drop maintenance _ => some maintenance
  | .rebuild conn _ => some conn
  | .stillEmpty conn => some conn
  | .marker conn => some conn
  | .markerPrivilege conn => some conn
  | .setMarker conn _ => some conn
  | .connections maintenance _ => some maintenance
  | .extensionsProblem conn _ => some conn
  | .databaseBytes conn => some conn
  | .tableCount conn => some conn
  | .createExtensions conn _ => some conn
  | .schemas conn => some conn
  | .schemaPrivilege conn _ _ _ _ => some conn
  | .restoreList conn _ _ _ _ => some conn

/-- An answered call of the process. -/
def processed (c : ProcessCall) (x : ProcessSig.Ans c) : Event ThrowawaySig :=
  ⟨.inr c, x⟩

/-- The calls of a history that went to the server. -/
def serverCalls (calls : List (Event ThrowawaySig)) : List (Event ServerSig) :=
  calls.filterMap Event.left?

/-- The names of the databases that were created. -/
def created (calls : List (Event ServerSig)) : List String :=
  calls.filterMap fun
    | ⟨.create _ name _, .ok ()⟩ => some name
    | _ => none

/-- The names of the databases that were asked to be dropped. -/
def dropped (calls : List (Event ServerSig)) : List String :=
  calls.filterMap fun
    | ⟨.drop _ name, _⟩ => some name
    | _ => none

/-- The seed of a restore is in the archive. -/
def Seed.IsIn (seed : Seed) (identity : RestoreIdentity) (archive : String)
    (calls : List (Event ServerSig)) : Prop :=
  match seed with
  | .archive path => archive = path
  | .freshDump => ⟨.dump identity.app archive, .ok ()⟩ ∈ calls

/-- The archive was restored into the named database. If a rebuild was asked for and the archive
creates pg_tviews, the TVIEWs were rebuilt last, and none was found empty. -/
structure RestoredInto (identity : RestoreIdentity) (archive name : String) (rebuilds : Bool)
    (calls : List (Event ServerSig)) : Prop where
  restored : ∃ warnings, ⟨.restore (identity.restorer name) archive false, .ok warnings⟩ ∈ calls
  rebuilt : ∀ listing, rebuilds = true → ⟨.list archive, .ok listing⟩ ∈ calls →
    archiveCreatesPgTviews listing = true →
      ∃ before done, calls = before ++ [⟨.rebuild (identity.restorer name) true, .ok done⟩,
        ⟨.stillEmpty (identity.restorer name), .ok []⟩]

/-- What a restore that drew the name did on the server. -/
structure Provisioned (identity : RestoreIdentity) (archive name : String) (rebuilds : Bool)
    (value : Except RestoreError Throwaway) (calls : List (Event ServerSig)) : Prop where
  refused : ∀ reason, value = .error (.refused reason) → created calls = []
  failed : ∀ reason, value = .error (.failed reason) → created calls = [name] ∧
    dropped calls = if name = identity.app.database then [] else [name]
  passed : ∀ copy, value = .ok copy → copy.name = name ∧ created calls = [name] ∧
    dropped calls = [] ∧ RestoredInto identity archive name rebuilds calls
  targets : ∀ e ∈ calls, ∀ target ∈ e.cmd.target?, target = name
  guarded : name = identity.app.database → dropped calls = []
  undumped : ∀ e ∈ calls, ∀ conn out, e.cmd ≠ .dump conn out
  conns : ∀ e ∈ calls, ∀ conn ∈ e.cmd.conn?,
    conn = identity.app ∨ ∃ database, conn = identity.restorer database

/-- What a restore guarantees by its value and its calls. `name` is the name it drew. -/
structure ThrowawaySafe (identity : RestoreIdentity) (seed : Seed) (rebuilds : Bool)
    (name : String) (value : Except RestoreError Throwaway)
    (calls : List (Event ThrowawaySig)) : Prop where
  /-- A restore that was refused has created nothing. -/
  refused : ∀ reason, value = .error (.refused reason) → created (serverCalls calls) = []
  /-- One that failed asked for the drop of what it created, but not if that is the live
  database. -/
  failed : ∀ reason, value = .error (.failed reason) → created (serverCalls calls) = [name] ∧
    dropped (serverCalls calls) = if name = identity.app.database then [] else [name]
  /-- One that succeeded dropped nothing and filled what it created. -/
  passed : ∀ copy, value = .ok copy → copy.name = name ∧ created (serverCalls calls) = [name] ∧
    dropped (serverCalls calls) = [] ∧ ∃ archive, seed.IsIn identity archive (serverCalls calls) ∧
      RestoredInto identity archive name rebuilds (serverCalls calls)
  /-- No database but the named one is changed. -/
  targets : ∀ e ∈ serverCalls calls, ∀ target ∈ e.cmd.target?, target = name
  /-- The live database is not dropped. -/
  guarded : identity.app.database ∉ dropped (serverCalls calls)
  /-- The file of a dump is removed, and nothing follows. -/
  removed : ∀ conn out x, ⟨.dump conn out, x⟩ ∈ serverCalls calls →
    ∃ before r, calls = before ++ [processed (.removeFile out) r]

/-! ## What the parts of a restore do -/

section Parts

variable {identity : RestoreIdentity} {archive name : String} {rebuilds : Bool}

@[simp] theorem created_append (calls more : List (Event ServerSig)) :
    created (calls ++ more) = created calls ++ created more :=
  List.filterMap_append

@[simp] theorem dropped_append (calls more : List (Event ServerSig)) :
    dropped (calls ++ more) = dropped calls ++ dropped more :=
  List.filterMap_append

/-- Calls that only fill a database create and drop none. -/
theorem created_eq_nil {calls : List (Event ServerSig)} (h : ∀ e ∈ calls, e.cmd.Fills) :
    created calls = [] ∧ dropped calls = [] := by
  refine ⟨List.filterMap_eq_nil_iff.mpr fun e he => ?_,
    List.filterMap_eq_nil_iff.mpr fun e he => ?_⟩ <;>
  · have hfills := h e he
    obtain ⟨cmd, answer⟩ := e
    cases cmd <;> first | rfl | exact hfills.elim

/-- A call of the restore that drew the name. -/
def ServerCall.IsFor (identity : RestoreIdentity) (name : String) : ServerCall → Prop
  | .list _ => True
  | .identity conn => conn = identity.restorer identity.app.database
  | .currentUser conn => conn = identity.app
  | .create maintenance created _ =>
      maintenance = identity.restorer "postgres" ∧ created = name
  | .drop maintenance dropped => maintenance = identity.restorer "postgres" ∧ dropped = name
  | .restore conn _ _ => conn = identity.restorer name
  | .rebuild conn _ => conn = identity.restorer name
  | .stillEmpty conn => conn = identity.restorer name
  | _ => False

theorem ServerCall.IsFor.target {c : ServerCall} (h : c.IsFor identity name) :
    ∀ target ∈ c.target?, target = name := by
  cases c <;> simp_all [IsFor, target?]

theorem ServerCall.IsFor.conn {c : ServerCall} (h : c.IsFor identity name) :
    ∀ conn ∈ c.conn?, conn = identity.app ∨ ∃ database, conn = identity.restorer database := by
  intro conn hconn
  cases c with
  | currentUser conn' => exact .inl (by simp_all [IsFor, conn?])
  | identity conn' => exact .inr ⟨identity.app.database, by simp_all [IsFor, conn?]⟩
  | create maintenance created owner => exact .inr ⟨"postgres", by simp_all [IsFor, conn?]⟩
  | drop maintenance dropped => exact .inr ⟨"postgres", by simp_all [IsFor, conn?]⟩
  | restore conn' archive clean => exact .inr ⟨name, by simp_all [IsFor, conn?]⟩
  | rebuild conn' onlyEmpty => exact .inr ⟨name, by simp_all [IsFor, conn?]⟩
  | stillEmpty conn' => exact .inr ⟨name, by simp_all [IsFor, conn?]⟩
  | list archive => cases hconn
  | _ => exact h.elim

/-- What the precheck of an archive finds, and what it asks. -/
inductive Prechecked (restorer : PgConn) (archive : String) :
    Except RestoreError Bool → List (Event ServerSig) → Prop
  | unread (reason error : String) : Prechecked restorer archive (.error (.refused reason))
      [⟨.list archive, .error error⟩]
  | refused (reason listing : String) (who : Except String Identity) :
      Prechecked restorer archive (.error (.refused reason))
        [⟨.list archive, .ok listing⟩, ⟨.identity restorer, who⟩]
  | plain (listing : String) (hplain : archiveCreatesPgTviews listing = false) :
      Prechecked restorer archive (.ok false) [⟨.list archive, .ok listing⟩]
  | creates (listing : String) (who : Except String Identity) :
      Prechecked restorer archive (.ok true)
        [⟨.list archive, .ok listing⟩, ⟨.identity restorer, who⟩]

theorem precheck_yields (restorer : PgConn) :
    (precheck identity restorer archive).Yields (Prechecked restorer archive) := by
  refine .bind (.bind (.perform fun listed => ?_))
  cases listed with
  | error error => exact .unread _ error
  | ok listing =>
      show (precheckListing identity restorer listing).Yields _
      unfold precheckListing
      cases hcreates : archiveCreatesPgTviews listing with
      | false => exact .plain listing hcreates
      | true =>
          rw [if_pos rfl]
          refine .bind (.perform fun who => ?_)
          cases who with
          | error error => exact .refused error listing _
          | ok who =>
              dsimp only
              split
              · exact .refused _ listing _
              · split
                · exact .refused _ listing _
                · exact .creates listing _

/-- What filling the created database asks. -/
structure Filled (restorer : PgConn) (archive : String) (rebuilds : Bool)
    (value : Except String (Option TviewRebuild)) (calls : List (Event ServerSig)) : Prop where
  cmds : ∀ e ∈ calls, e.cmd = .restore restorer archive false ∨ e.cmd = .rebuild restorer true ∨
    e.cmd = .stillEmpty restorer
  restored : ∀ tviews, value = .ok tviews →
    ∃ warnings, ⟨.restore restorer archive false, .ok warnings⟩ ∈ calls
  rebuilt : ∀ tviews, value = .ok tviews → rebuilds = true → ∃ before done, calls =
    before ++ [⟨.rebuild restorer true, .ok done⟩, ⟨.stillEmpty restorer, .ok []⟩]

/-- A rebuild that succeeds is probed and leaves no TVIEW empty. -/
theorem rebuildTviews_yields (restorer : PgConn) :
    (rebuildTviews restorer rebuilds).Yields fun value calls =>
      (∀ e ∈ calls, e.cmd = .rebuild restorer true ∨ e.cmd = .stillEmpty restorer) ∧
      ∀ tviews, value = .ok tviews → rebuilds = true → ∃ done, calls =
        [⟨.rebuild restorer true, .ok done⟩, ⟨.stillEmpty restorer, .ok []⟩] := by
  cases rebuilds with
  | false => exact ⟨by simp, by simp⟩
  | true =>
      refine .bind (.bind (.perform fun built => ?_))
      cases built with
      | error error => exact ⟨by simp, by simp⟩
      | ok done =>
          refine .bind (.perform fun probed => ?_)
          cases probed with
          | error error => exact ⟨by simp, by simp⟩
          | ok stillEmpty =>
              show Prog.Yields (if stillEmpty.isEmpty then _ else _) _
              cases stillEmpty with
              | nil => exact ⟨by simp, fun _ _ _ => ⟨done, rfl⟩⟩
              | cons tview rest => exact ⟨by simp, by simp⟩

theorem fillCreated_yields (restorer : PgConn) :
    (fillCreated restorer archive rebuilds).Yields (Filled restorer archive rebuilds) := by
  refine .bind (.perform fun restored => ?_)
  cases restored with
  | error error => exact ⟨by simp, by simp, by simp⟩
  | ok warnings =>
      refine (rebuildTviews_yields restorer).mono fun value calls h => ?_
      refine ⟨?_, fun _ _ => ⟨warnings, by simp⟩, fun tviews hvalue hrebuilds => ?_⟩
      · exact List.forall_mem_cons.mpr ⟨.inl rfl, fun e he => .inr (h.1 e he)⟩
      · obtain ⟨done, hcalls⟩ := h.2 tviews hvalue hrebuilds
        exact ⟨[_], done, by rw [hcalls]⟩

/-- What creating and filling the named database asks. -/
inductive Named (identity : RestoreIdentity) (archive name : String) (rebuilds : Bool) :
    Except RestoreError Throwaway → List (Event ServerSig) → Prop
  | uncreated {reason : String} {reads : List (Event ServerSig)}
      (hreads : ∀ e ∈ reads, e.cmd = .currentUser identity.app) :
      Named identity archive name rebuilds (.error (.refused reason)) reads
  | refused {reason error : String} {reads : List (Event ServerSig)} {owner : Option String}
      (hreads : ∀ e ∈ reads, e.cmd = .currentUser identity.app) :
      Named identity archive name rebuilds (.error (.refused reason))
        (reads ++ [⟨.create (identity.restorer "postgres") name owner, .error error⟩])
  | filled {reads fills : List (Event ServerSig)} {owner : Option String}
      {tviews : Option TviewRebuild} (hreads : ∀ e ∈ reads, e.cmd = .currentUser identity.app)
      (hfills : Filled (identity.restorer name) archive rebuilds (.ok tviews) fills) :
      Named identity archive name rebuilds
        (.ok ⟨name, identity.app.withDatabase name, tviews⟩)
        (reads ++ ⟨.create (identity.restorer "postgres") name owner, .ok ()⟩ :: fills)
  | failed {reads fills : List (Event ServerSig)} {owner : Option String} {error : String}
      {answer : Except String Unit} (hreads : ∀ e ∈ reads, e.cmd = .currentUser identity.app)
      (hfills : Filled (identity.restorer name) archive rebuilds (.error error) fills) :
      Named identity archive name rebuilds (.error (.failed error))
        (reads ++ ⟨.create (identity.restorer "postgres") name owner, .ok ()⟩ :: fills ++
          if name = identity.app.database then []
          else [⟨.drop (identity.restorer "postgres") name, answer⟩])

theorem appRole_yields : (appRole identity).Yields fun value reads =>
    Refuses value ∧ ∀ e ∈ reads, e.cmd = .currentUser identity.app := by
  unfold appRole
  split
  · refine .bind (.perform fun answer => ?_)
    cases answer with
    | error error => exact ⟨refuses_refused, by simp⟩
    | ok owner => exact ⟨refuses_ok, by simp⟩
  · exact ⟨refuses_ok, by simp⟩

/-- The drop of a throwaway is asked for, unless its name is that of the live database. -/
theorem dropThrowaway_yields (hmarker : throwawayMarker.toList <:+: name.toList) (live : String) :
    (dropThrowaway identity name live).Yields fun _ drops => ∃ answer, drops =
      if name = live then [] else [⟨.drop (identity.restorer "postgres") name, answer⟩] := by
  unfold dropThrowaway
  by_cases hlive : name = live
  · cases hguard : teardownGuard name live with
    | error reason => exact ⟨.ok (), by rw [if_pos hlive]⟩
    | ok u => exact absurd hlive ((teardownGuard_eq_ok_iff hmarker).mp hguard)
  · rw [(teardownGuard_eq_ok_iff hmarker).mpr hlive]
    refine .bind (.perform fun answer => ?_)
    cases answer with
    | error error => exact ⟨.error error, by rw [if_neg hlive, List.append_nil]⟩
    | ok u => exact ⟨.ok u, by rw [if_neg hlive, List.append_nil]⟩

theorem fillNamed_yields (hmarker : throwawayMarker.toList <:+: name.toList) :
    (fillNamed identity archive name rebuilds).Yields (Named identity archive name rebuilds) := by
  refine .bind (appRole_yields.mono fun role reads h => ?_)
  obtain ⟨hrefuses, hreads⟩ := h
  cases role with
  | error error =>
      obtain ⟨reason, rfl⟩ := hrefuses error rfl
      show Named _ _ _ _ _ (reads ++ [])
      rw [List.append_nil]
      exact .uncreated hreads
  | ok owner =>
      refine .bind (.perform fun made => ?_)
      cases made with
      | error error => exact .refused hreads
      | ok u =>
          refine .bind ((fillCreated_yields (identity.restorer name)).mono
            fun value fills hfills => ?_)
          cases value with
          | ok tviews =>
              show Named _ _ _ _ _ (reads ++ _ :: (fills ++ []))
              rw [List.append_nil]
              exact .filled hreads hfills
          | error error =>
              refine .bind ((dropThrowaway_yields hmarker identity.app.database).mono
                fun _ drops hdrops => ?_)
              obtain ⟨answer, rfl⟩ := hdrops
              have hfailed := @Named.failed identity archive name rebuilds reads fills owner error
                answer hreads hfills
              rw [List.append_assoc] at hfailed
              show Named _ _ _ _ _ (reads ++ _ :: (fills ++ (_ ++ [])))
              rw [List.append_nil]
              exact hfailed

theorem Prechecked.isFor {value : Except RestoreError Bool} {calls : List (Event ServerSig)}
    (h : Prechecked (identity.restorer identity.app.database) archive value calls) :
    ∀ e ∈ calls, e.cmd.IsFor identity name ∧ e.cmd.Fills := by
  cases h <;> simp [ServerCall.IsFor, ServerCall.Fills]

theorem Filled.isFor {value : Except String (Option TviewRebuild)}
    {calls : List (Event ServerSig)}
    (h : Filled (identity.restorer name) archive rebuilds value calls) :
    ∀ e ∈ calls, e.cmd.IsFor identity name ∧ e.cmd.Fills := by
  intro e he
  rcases h.cmds e he with hcmd | hcmd | hcmd <;> rw [hcmd] <;> exact ⟨rfl, trivial⟩

theorem currentUser_isFor {reads : List (Event ServerSig)}
    (h : ∀ e ∈ reads, e.cmd = .currentUser identity.app) :
    ∀ e ∈ reads, e.cmd.IsFor identity name ∧ e.cmd.Fills := by
  intro e he
  rw [h e he]
  exact ⟨rfl, trivial⟩

theorem Named.isFor {value : Except RestoreError Throwaway} {calls : List (Event ServerSig)}
    (h : Named identity archive name rebuilds value calls) :
    ∀ e ∈ calls, e.cmd.IsFor identity name := by
  intro e he
  cases h with
  | uncreated hreads => exact (currentUser_isFor hreads e he).1
  | refused hreads =>
      rcases List.mem_append.mp he with he | he
      · exact (currentUser_isFor hreads e he).1
      · rw [List.mem_singleton.mp he]
        exact ⟨rfl, rfl⟩
  | filled hreads hfills =>
      rcases List.mem_append.mp he with he | he
      · exact (currentUser_isFor hreads e he).1
      · rcases List.mem_cons.mp he with rfl | he
        · exact ⟨rfl, rfl⟩
        · exact (hfills.isFor e he).1
  | failed hreads hfills =>
      rcases List.mem_append.mp he with he | he
      · rcases List.mem_append.mp he with he | he
        · exact (currentUser_isFor hreads e he).1
        · rcases List.mem_cons.mp he with rfl | he
          · exact ⟨rfl, rfl⟩
          · exact (hfills.isFor e he).1
      · split at he
        · cases he
        · rw [List.mem_singleton.mp he]
          exact ⟨rfl, rfl⟩

/-- A database that is created and filled is the only one. -/
theorem created_filled {reads fills : List (Event ServerSig)} {maintenance : PgConn}
    {owner : Option String} (hreads : ∀ e ∈ reads, e.cmd = .currentUser identity.app)
    (hfills : ∀ e ∈ fills, e.cmd.Fills) :
    created (reads ++ ⟨.create maintenance name owner, .ok ()⟩ :: fills) = [name] ∧
      dropped (reads ++ ⟨.create maintenance name owner, .ok ()⟩ :: fills) = [] := by
  have hnone := created_eq_nil fun e he => (@currentUser_isFor _ "" _ hreads e he).2
  have hfilled := created_eq_nil hfills
  have hname : created (⟨.create maintenance name owner, .ok ()⟩ :: fills) =
      name :: created fills := rfl
  have hdrops : dropped (⟨.create maintenance name owner, .ok ()⟩ :: fills) = dropped fills := rfl
  rw [created_append, dropped_append, hnone.1, hnone.2, hname, hdrops, hfilled.1, hfilled.2]
  exact ⟨rfl, rfl⟩

/-- Which databases a restore created and dropped, by its value. -/
theorem Named.balance {value : Except RestoreError Throwaway} {calls : List (Event ServerSig)}
    (h : Named identity archive name rebuilds value calls) :
    (∀ reason, value = .error (.refused reason) → created calls = [] ∧ dropped calls = []) ∧
    (∀ reason, value = .error (.failed reason) → created calls = [name] ∧
      dropped calls = if name = identity.app.database then [] else [name]) ∧
    ∀ copy, value = .ok copy → copy.name = name ∧ created calls = [name] ∧
      dropped calls = [] := by
  cases h with
  | uncreated hreads =>
      have hnone := created_eq_nil fun e he => (@currentUser_isFor _ "" _ hreads e he).2
      exact ⟨fun _ _ => hnone, by simp, by simp⟩
  | refused hreads =>
      have hnone := created_eq_nil fun e he => (@currentUser_isFor _ "" _ hreads e he).2
      refine ⟨fun _ _ => ?_, by simp, by simp⟩
      rw [created_append, dropped_append, hnone.1, hnone.2]
      exact ⟨rfl, rfl⟩
  | filled hreads hfills =>
      refine ⟨by simp, by simp, fun copy hcopy => ?_⟩
      exact ⟨(congrArg Throwaway.name (Except.ok.inj hcopy)).symm,
        created_filled hreads fun e he => (hfills.isFor e he).2⟩
  | @failed reads fills owner error answer hreads hfills =>
      refine ⟨by simp, fun _ _ => ?_, by simp⟩
      have hfilled := @created_filled identity name reads fills (identity.restorer "postgres")
        owner hreads fun e he => (hfills.isFor e he).2
      rw [created_append, dropped_append, hfilled.1, hfilled.2]
      by_cases hlive : name = identity.app.database
      · rw [if_pos hlive, if_pos hlive]
        exact ⟨rfl, rfl⟩
      · rw [if_neg hlive, if_neg hlive]
        exact ⟨rfl, rfl⟩

/-- A restore that succeeds restored the archive, and rebuilt its TVIEWs if it was to. -/
theorem Named.restoredInto {copy : Throwaway} {asked creates : Bool}
    {pre calls : List (Event ServerSig)}
    (hpre : Prechecked (identity.restorer identity.app.database) archive (.ok creates) pre)
    (h : Named identity archive name (asked && creates) (.ok copy) calls) :
    RestoredInto identity archive name asked (pre ++ calls) := by
  cases h with
  | @filled reads fills owner tviews hreads hfills =>
      obtain ⟨warnings, hrestored⟩ := hfills.restored tviews rfl
      refine ⟨⟨warnings, by simp [hrestored]⟩, fun listing hasked hlisted hcreates => ?_⟩
      -- The archive is listed by the precheck alone.
      have hlisted : ⟨.list archive, .ok listing⟩ ∈ pre := by
        rcases List.mem_append.mp hlisted with hlisted | hlisted
        · exact hlisted
        · rcases List.mem_append.mp hlisted with hlisted | hlisted
          · exact absurd (hreads _ hlisted) ServerCall.noConfusion
          · rcases List.mem_cons.mp hlisted with hlisted | hlisted
            · exact absurd (congrArg Event.cmd hlisted) ServerCall.noConfusion
            · rcases hfills.cmds _ hlisted with hcmd | hcmd | hcmd <;> cases hcmd
      obtain rfl : creates = true := by
        cases hpre with
        | plain listing' hplain =>
            simp only [List.mem_singleton, Event.mk.injEq, heq_eq_eq, true_and] at hlisted
            rw [← Except.ok.inj hlisted, hcreates] at hplain
            exact hplain.symm
        | creates listing' who => rfl
      obtain ⟨before, done, hfilled⟩ := hfills.rebuilt tviews rfl (by rw [hasked]; rfl)
      exact ⟨pre ++ (reads ++ ⟨.create (identity.restorer "postgres") name owner, .ok ()⟩ ::
        before), done, by rw [hfilled]; simp⟩

/-- What the precheck and the restore after it did on the server. -/
theorem Named.provisioned {value : Except RestoreError Throwaway} {asked creates : Bool}
    {pre calls : List (Event ServerSig)}
    (hpre : Prechecked (identity.restorer identity.app.database) archive (.ok creates) pre)
    (h : Named identity archive name (asked && creates) value calls) :
    Provisioned identity archive name asked value (pre ++ calls) := by
  obtain ⟨hrefused, hfailed, hpassed⟩ := h.balance
  have hnone := created_eq_nil fun e he => (@Prechecked.isFor _ _ "" _ _ hpre e he).2
  have hisFor : ∀ e ∈ pre ++ calls, e.cmd.IsFor identity name :=
    List.forall_mem_append.mpr ⟨fun e he => (hpre.isFor e he).1, h.isFor⟩
  have hcreated : created (pre ++ calls) = created calls := by
    rw [created_append, hnone.1, List.nil_append]
  have hdropped : dropped (pre ++ calls) = dropped calls := by
    rw [dropped_append, hnone.2, List.nil_append]
  exact {
    refused := fun reason hvalue => hcreated.trans (hrefused reason hvalue).1
    failed := fun reason hvalue => by
      rw [hcreated, hdropped]
      exact hfailed reason hvalue
    passed := fun copy hvalue => by
      rw [hcreated, hdropped]
      obtain ⟨hname, hcreates, hdrops⟩ := hpassed copy hvalue
      subst hvalue
      exact ⟨hname, hcreates, hdrops, h.restoredInto hpre⟩
    targets := fun e he => (hisFor e he).target
    guarded := fun hlive => by
      rw [hdropped]
      cases value with
      | ok copy => exact (hpassed copy rfl).2.2
      | error error =>
          cases error with
          | refused reason => exact (hrefused reason rfl).2
          | failed reason =>
              rw [(hfailed reason rfl).2, if_pos hlive]
    undumped := fun e he conn out hdump => by
      have hfor := hisFor e he
      rw [hdump] at hfor
      exact hfor
    conns := fun e he => (hisFor e he).conn }

/-- A restore whose precheck refused did nothing further. -/
theorem Prechecked.provisioned {reason : String} {calls : List (Event ServerSig)} {asked : Bool}
    (hpre : Prechecked (identity.restorer identity.app.database) archive
      (.error (.refused reason)) calls) :
    Provisioned identity archive name asked (.error (.refused reason)) calls := by
  have hnone := created_eq_nil fun e he => (@Prechecked.isFor _ _ "" _ _ hpre e he).2
  exact {
    refused := fun _ _ => hnone.1
    failed := by simp
    passed := by simp
    targets := fun e he => (hpre.isFor e he).1.target
    guarded := fun _ => hnone.2
    undumped := fun e he conn out hdump => by
      have hfor := (@Prechecked.isFor _ _ name _ _ hpre e he).1
      rw [hdump] at hfor
      exact hfor
    conns := fun e he => (@Prechecked.isFor _ _ name _ _ hpre e he).1.conn }

end Parts

/-! ## The guarantee -/

section Guarantee

variable {identity : RestoreIdentity} {seed : Seed} {archive name : String} {rebuilds : Bool}

@[simp] theorem serverCalls_append (calls more : List (Event ThrowawaySig)) :
    serverCalls (calls ++ more) = serverCalls calls ++ serverCalls more :=
  List.filterMap_append

@[simp] theorem serverCalls_inl (calls : List (Event ServerSig)) :
    serverCalls (calls.map Event.inl) = calls :=
  Event.filterMap_left?_inl calls

theorem fillThrowaway_yields :
    (fillThrowaway identity archive rebuilds).Yields fun value calls =>
      ∃ name, throwawayMarker.toList <:+: name.toList ∧
        Provisioned identity archive name rebuilds value (serverCalls calls) := by
  refine .bind ((Prog.Yields.ofLeft (precheck_yields _)).mono fun checked calls h => ?_)
  obtain ⟨pre, rfl, hpre⟩ := h
  cases checked with
  | error error =>
      obtain ⟨reason, rfl⟩ : ∃ reason, error = .refused reason := by
        cases hpre <;> exact ⟨_, rfl⟩
      refine ⟨throwawayMarker, List.infix_refl _, ?_⟩
      rw [serverCalls_append, serverCalls_inl]
      exact (List.append_nil pre).symm ▸ hpre.provisioned
  | ok creates =>
      refine .bind (.perform fun nanos => .bind (.perform fun pid => ?_))
      have hmarker := throwawayName_carries identity.app.database pid (nanos.getD 0)
      refine (Prog.Yields.ofLeft (fillNamed_yields hmarker)).mono fun value calls h => ?_
      obtain ⟨made, rfl, hmade⟩ := h
      have hcalls : serverCalls (pre.map Event.inl ++ ([processed .sinceEpoch nanos] ++
          ([processed .pid pid] ++ made.map Event.inl))) = pre ++ made := by
        simp only [serverCalls_append, serverCalls_inl]
        rfl
      refine ⟨_, hmarker, ?_⟩
      show Provisioned _ _ _ _ _ (serverCalls (_ ++ ([processed .sinceEpoch nanos] ++
        ([processed .pid pid] ++ _))))
      rw [hcalls]
      exact hmade.provisioned hpre

/-- A database that is asked to be dropped is the target of the drop. -/
theorem exists_target_of_mem_dropped {calls : List (Event ServerSig)}
    (h : name ∈ dropped calls) : ∃ e ∈ calls, name ∈ e.cmd.target? := by
  obtain ⟨⟨cmd, answer⟩, he, hname⟩ := List.mem_filterMap.mp h
  refine ⟨_, he, ?_⟩
  cases cmd <;> first | exact hname | cases hname

theorem Provisioned.guarded_live {value : Except RestoreError Throwaway}
    {calls : List (Event ServerSig)}
    (h : Provisioned identity archive name rebuilds value calls) :
    identity.app.database ∉ dropped calls := by
  intro hlive
  obtain ⟨e, he, htarget⟩ := exists_target_of_mem_dropped hlive
  have hname := h.targets e he _ htarget
  rw [h.guarded hname.symm] at hlive
  cases hlive

/-- A restore of an archive is safe. -/
theorem Provisioned.safe_archive {value : Except RestoreError Throwaway}
    {calls : List (Event ThrowawaySig)}
    (h : Provisioned identity archive name rebuilds value (serverCalls calls)) :
    ThrowawaySafe identity (.archive archive) rebuilds name value calls where
  refused := h.refused
  failed := h.failed
  passed copy hvalue := by
    obtain ⟨hname, hcreated, hdropped, hinto⟩ := h.passed copy hvalue
    exact ⟨hname, hcreated, hdropped, archive, rfl, hinto⟩
  targets := h.targets
  guarded := h.guarded_live
  removed conn out x hdump := absurd rfl (h.undumped _ hdump conn out)

/-- A restore of a fresh dump is safe: the dump goes before it and is removed after it. -/
theorem Provisioned.safe_freshDump {value : Except RestoreError Throwaway}
    {before calls : List (Event ThrowawaySig)} {removed : Except String Unit}
    (h : Provisioned identity archive name rebuilds value (serverCalls calls))
    (hbefore : serverCalls before = [⟨.dump identity.app archive, .ok ()⟩]) :
    ThrowawaySafe identity .freshDump rebuilds name value
      (before ++ calls ++ [processed (.removeFile archive) removed]) := by
  have hcalls : serverCalls (before ++ calls ++ [processed (.removeFile archive) removed]) =
      ⟨.dump identity.app archive, .ok ()⟩ :: serverCalls calls := by
    simp only [serverCalls_append, hbefore]
    exact List.append_nil _
  have hcreated : created (⟨.dump identity.app archive, .ok ()⟩ :: serverCalls calls) =
      created (serverCalls calls) := rfl
  have hdropped : dropped (⟨.dump identity.app archive, .ok ()⟩ :: serverCalls calls) =
      dropped (serverCalls calls) := rfl
  refine ⟨?_, ?_, ?_, ?_, ?_, ?_⟩ <;> rw [hcalls]
  · rw [hcreated]
    exact h.refused
  · rw [hcreated, hdropped]
    exact h.failed
  · rw [hcreated, hdropped]
    intro copy hvalue
    obtain ⟨hname, hcreates, hdrops, ⟨warnings, hrestored⟩, hrebuilt⟩ := h.passed copy hvalue
    refine ⟨hname, hcreates, hdrops, archive, List.mem_cons_self, ⟨warnings, ?_⟩, ?_⟩
    · exact List.mem_cons_of_mem _ hrestored
    · intro listing hasked hlisted hcreatesTviews
      have hlisted : ⟨.list archive, .ok listing⟩ ∈ serverCalls calls := by
        simpa using hlisted
      obtain ⟨before', done, hcalls'⟩ := hrebuilt listing hasked hlisted hcreatesTviews
      exact ⟨_ :: before', done, by rw [hcalls']; rfl⟩
  · exact List.forall_mem_cons.mpr ⟨by simp [ServerCall.target?], h.targets⟩
  · rw [hdropped]
    exact h.guarded_live
  · intro conn out x hdump
    rcases List.mem_cons.mp hdump with hdump | hdump
    · obtain ⟨-, rfl⟩ := ServerCall.dump.inj (congrArg Event.cmd hdump)
      exact ⟨_, removed, rfl⟩
    · exact absurd rfl (h.undumped _ hdump conn out)

/-- A dump that failed is refused, and its file is removed. -/
theorem undumped_safe {reason tmp : String} {before : List (Event ThrowawaySig)}
    {error : String} {removed : Except String Unit}
    (hbefore : serverCalls before = [⟨.dump identity.app tmp, .error error⟩]) :
    ThrowawaySafe identity .freshDump rebuilds name (.error (.refused reason))
      (before ++ [processed (.removeFile tmp) removed]) := by
  have hcalls : serverCalls (before ++ [processed (.removeFile tmp) removed]) =
      [⟨.dump identity.app tmp, .error error⟩] := by
    rw [serverCalls_append, hbefore]
    rfl
  refine ⟨?_, by simp, by simp, ?_, ?_, ?_⟩ <;> rw [hcalls]
  · exact fun _ _ => rfl
  · simp [ServerCall.target?]
  · exact List.not_mem_nil
  · intro conn out x hdump
    obtain ⟨-, rfl⟩ := ServerCall.dump.inj (congrArg Event.cmd (List.mem_singleton.mp hdump))
    exact ⟨before, removed, rfl⟩

theorem restoreThrowaway_yields :
    (restoreThrowaway identity seed rebuilds).Yields fun value calls =>
      (∃ name, throwawayMarker.toList <:+: name.toList ∧
        ThrowawaySafe identity seed rebuilds name value calls) ∧
      ∀ e ∈ serverCalls calls, ∀ conn ∈ e.cmd.conn?,
        conn = identity.app ∨ ∃ database, conn = identity.restorer database := by
  cases seed with
  | archive archive =>
      refine fillThrowaway_yields.mono fun value calls h => ?_
      obtain ⟨name, hmarker, hprovisioned⟩ := h
      exact ⟨⟨name, hmarker, hprovisioned.safe_archive⟩, hprovisioned.conns⟩
  | freshDump =>
      refine .bind (.perform fun nanos => .bind (.perform fun pid =>
        .bind (.perform fun dir => ?_)))
      refine .bind (.perform fun dumped => ?_)
      cases dumped with
      | error error =>
          refine .bind (.perform fun removed => ?_)
          have hsafe := @undumped_safe identity throwawayMarker rebuilds
            s!"pg_dump of the live DB failed: {error}" (tempArchivePath dir pid (nanos.getD 0))
            [processed .sinceEpoch nanos, processed .pid pid, processed .tempDir dir,
              Event.inl ⟨.dump identity.app (tempArchivePath dir pid (nanos.getD 0)), .error error⟩]
            error removed rfl
          refine ⟨⟨throwawayMarker, List.infix_refl _, hsafe⟩, ?_⟩
          exact List.forall_mem_singleton.mpr fun conn hconn => .inl (Option.some.inj hconn).symm
      | ok u =>
          refine .bind (fillThrowaway_yields.mono fun value calls h => ?_)
          obtain ⟨name, hmarker, hprovisioned⟩ := h
          refine .bind (.perform fun removed => ?_)
          have hsafe := @Provisioned.safe_freshDump identity
            (tempArchivePath dir pid (nanos.getD 0)) name rebuilds value
            [processed .sinceEpoch nanos, processed .pid pid, processed .tempDir dir,
              Event.inl ⟨.dump identity.app (tempArchivePath dir pid (nanos.getD 0)), .ok u⟩]
            calls removed hprovisioned rfl
          refine ⟨⟨name, hmarker, hsafe⟩, ?_⟩
          show ∀ e ∈ _ :: serverCalls (calls ++ [processed (.removeFile _) removed]), _
          rw [serverCalls_append]
          refine List.forall_mem_cons.mpr ⟨fun conn hconn => .inl (Option.some.inj hconn).symm, ?_⟩
          exact List.forall_mem_append.mpr ⟨hprovisioned.conns, fun e he => (by cases he)⟩

end Guarantee

/-- Whatever the server answers, a restore into a throwaway changes only the database whose
name it drew, drops it again iff it could not be filled and is not the live database, and
removes the file of a dump. Started by a webhook, it connects as the app role only. -/
theorem restoreThrowaway_safe (app : PgConn) (admin : Option Admin) (trigger : Trigger)
    (seed : Seed) (rebuilds : Bool) :
    (restoreThrowaway (.new app admin trigger) seed rebuilds).Yields fun value calls =>
      (∃ name, throwawayMarker.toList <:+: name.toList ∧
        ThrowawaySafe (.new app admin trigger) seed rebuilds name value calls) ∧
      (trigger = .webhook → ∀ e ∈ serverCalls calls, ∀ conn ∈ e.cmd.conn?,
        ∃ database, conn = app.withDatabase database) := by
  refine restoreThrowaway_yields.mono fun value calls h => ⟨h.1, ?_⟩
  rintro rfl e he conn hconn
  rcases h.2 e he conn hconn with hconn | ⟨database, hconn⟩
  · exact ⟨app.database, by cases admin <;> exact hconn⟩
  · exact ⟨database, by cases admin <;> exact hconn⟩

/-- A live database whose name is the one that the process 4242 draws for its throwaway. -/
def takenName : PgConn :=
  ⟨none, none, none, none, "aaaaaaaaaaaaaaaaaaaaaaaa_fraisier_rh_4242_18d75b8423f30000", none⟩

/-- A server that creates what it is asked to and cannot restore. -/
def unrestoring : Handler ThrowawaySig Unit
  | .inl (.list _), _ => (.ok "", ())
  | .inl (.create _ _ _), _ => (.ok (), ())
  | .inl _, _ => (.error "could not execute", ())
  | .inr .sinceEpoch, _ => (some 1790000000000000000, ())
  | .inr .pid, _ => ((4242 : Nat), ())
  | .inr .tempDir, _ => ("/tmp", ())
  | .inr (.removeFile _), _ => (.ok (), ())

/-- The restore beside that database on that server. -/
def takenRun : Run ThrowawaySig Unit (Except RestoreError Throwaway) :=
  (restoreThrowaway (.new takenName none .operator) (.archive "live.dump") false).exec unrestoring
    [] ()

theorem takenRun_targets_live :
    (∃ reason, takenRun.value = .error (.failed reason)) ∧
      created (serverCalls takenRun.calls) = [takenName.database] ∧
      dropped (serverCalls takenRun.calls) = [] :=
  ⟨⟨"pg_restore into the throwaway DB failed: could not execute", by rfl⟩, by decide, by decide⟩

end Fraisier.Db
