import Fraisier.Db.RefreshSafety

/-!
# What a restore grants and takes back

`restoreLists` grants the owner `CREATE` on the schemas it restores into, and revokes it after
the first pass. A grant that fails ends the restore before anything is revoked; see
`restoreLists_leaves_none`.
-/

namespace Fraisier.Db

open Fraisier.Effect

/-- A `GRANT` or `REVOKE` that was answered. -/
def privileged (conn : PgConn) (privilege : SchemaPrivilege) (schema role : String) (revoke : Bool)
    (x : Except String Unit) : Event ServerSig :=
  ⟨.schemaPrivilege conn privilege schema role revoke, x⟩

/-- A `CREATE` that was granted is revoked again, or that is attempted and the failure told. -/
def LeavesNone (value : Except String String) (calls : List (Event ServerSig)) : Prop :=
  ∀ conn schema role before after,
    calls = before ++ privileged conn .create schema role false (.ok ()) :: after →
      (∃ x, privileged conn .create schema role true x ∈ after) ∧
      ∀ error, privileged conn .create schema role true (.error error) ∈ after →
        ∃ problem, value = .error problem

/-- A `GRANT` fails after a `CREATE` was granted. -/
def GrantFailsLater (calls : List (Event ServerSig)) : Prop :=
  ∃ conn schema role before after, calls =
      before ++ privileged conn .create schema role false (.ok ()) :: after ∧
    ∃ conn' privilege schema' role' error,
      privileged conn' privilege schema' role' false (.error error) ∈ after

theorem privileged_inj {conn conn' : PgConn} {privilege privilege' : SchemaPrivilege}
    {schema schema' role role' : String} {revoke revoke' : Bool} {x x' : Except String Unit}
    (h : privileged conn privilege schema role revoke x =
      privileged conn' privilege' schema' role' revoke' x') :
    conn = conn' ∧ privilege = privilege' ∧ schema = schema' ∧ role = role' ∧ revoke = revoke' ∧
      x = x' := by
  cases h
  exact ⟨rfl, rfl, rfl, rfl, rfl, rfl⟩

section Runs

variable {conn : PgConn} {role archive : String}

/-- All grants are made, or one fails and ends them. -/
theorem grantAll_yields (grants : List (String × SchemaPrivilege)) :
    (grantAll conn role grants).Yields fun value calls =>
      (value = .ok () ∧ calls = grants.map fun g => privileged conn g.2 g.1 role false (.ok ())) ∨
      ∃ granted : List (String × SchemaPrivilege), ∃ schema privilege error problem,
        value = .error problem ∧
        calls = (granted.map fun g => privileged conn g.2 g.1 role false (.ok ())) ++
          [privileged conn privilege schema role false (.error error)] := by
  induction grants with
  | nil => exact .inl ⟨rfl, rfl⟩
  | cons grant rest ih =>
      intro x
      cases x with
      | error error => exact .inr ⟨[], grant.1, grant.2, error, _, rfl, rfl⟩
      | ok u =>
          refine ih.mono fun value calls h => ?_
          obtain ⟨hvalue, hcalls⟩ |
            ⟨granted, schema, privilege, error, problem, hvalue, hcalls⟩ := h
          · exact .inl ⟨hvalue, by rw [hcalls]; rfl⟩
          · exact .inr ⟨grant :: granted, schema, privilege, error, problem, hvalue,
              by rw [hcalls]; rfl⟩

/-- Each schema's `CREATE` is tried to be revoked, and a failure is kept. -/
theorem revokeAll_yields (revoked : Except String Unit) (schemas : List String) :
    (revokeAll conn role revoked schemas).Yields fun value calls =>
      (∀ schema ∈ schemas, ∃ x, privileged conn .create schema role true x ∈ calls) ∧
      (∀ e ∈ calls, ∃ schema x, e = privileged conn .create schema role true x) ∧
      ((∃ problem, revoked = .error problem) ∨
        (∃ schema error, privileged conn .create schema role true (.error error) ∈ calls) →
        ∃ problem, value = .error problem) := by
  induction schemas generalizing revoked with
  | nil =>
      refine ⟨by simp, by simp, ?_⟩
      rintro (h | ⟨_, _, h⟩)
      · exact h
      · cases h
  | cons schema rest ih =>
      intro x
      have hstep : ∀ revoked', (∀ problem, revoked = .error problem → ∃ p, revoked' = .error p) →
          (∀ error, x = .error error → ∃ p, revoked' = .error p) →
          (revokeAll conn role revoked' rest).Yields fun value calls =>
            (∀ s ∈ schema :: rest, ∃ y, privileged conn .create s role true y ∈
              privileged conn .create schema role true x :: calls) ∧
            (∀ e ∈ privileged conn .create schema role true x :: calls,
              ∃ s y, e = privileged conn .create s role true y) ∧
            ((∃ problem, revoked = .error problem) ∨
              (∃ s error, privileged conn .create s role true (.error error) ∈
                privileged conn .create schema role true x :: calls) →
              ∃ problem, value = .error problem) := by
        intro revoked' hkept hfails
        refine (ih revoked').mono fun value calls h => ?_
        obtain ⟨hall, hevents, herror⟩ := h
        refine ⟨?_, ?_, ?_⟩
        · rintro s hs
          obtain rfl | hs := List.mem_cons.mp hs
          · exact ⟨x, List.mem_cons_self⟩
          · obtain ⟨y, hy⟩ := hall s hs
            exact ⟨y, List.mem_cons_of_mem _ hy⟩
        · exact List.forall_mem_cons.mpr ⟨⟨schema, x, rfl⟩, hevents⟩
        · rintro (⟨problem, hproblem⟩ | ⟨s, error, hs⟩)
          · exact herror (.inl (hkept problem hproblem))
          · obtain heq | hs := List.mem_cons.mp hs
            · obtain ⟨-, -, -, -, -, hx⟩ := privileged_inj heq
              exact herror (.inl (hfails error hx.symm))
            · exact herror (.inr ⟨s, error, hs⟩)
      cases x with
      | error error => exact hstep _ (fun _ _ => ⟨_, rfl⟩) fun _ _ => ⟨_, rfl⟩
      | ok u => exact hstep revoked (fun problem h => ⟨problem, h⟩) nofun

/-- A call that grants nothing and revokes nothing. -/
def IsRestore (e : Event ServerSig) : Prop :=
  ∃ conn archive list owner dataOnly, e.cmd = .restoreList conn archive list owner dataOnly

theorem not_isRestore_privileged {conn : PgConn} {privilege : SchemaPrivilege}
    {schema role : String} {revoke : Bool} {x : Except String Unit} :
    ¬ IsRestore (privileged conn privilege schema role revoke x) := by
  rintro ⟨_, _, _, _, _, h⟩
  cases h

/-- How a restore of two lists goes: a grant fails, or all are made and every `CREATE` is tried to
be revoked. -/
inductive RestoreCourse (conn : PgConn) (role : String) :
    Except String String → List (Event ServerSig) → Prop where
  | refused (granted : List (String × SchemaPrivilege)) (schema privilege error problem) :
      RestoreCourse conn role (.error problem)
        ((granted.map fun g => privileged conn g.2 g.1 role false (.ok ())) ++
          [privileged conn privilege schema role false (.error error)])
  | granted (grants : List (String × SchemaPrivilege)) (value) (rest)
      (hrevoked : ∀ g ∈ grants, ∃ x, privileged conn .create g.1 role true x ∈ rest)
      (hrest : ∀ e ∈ rest, IsRestore e ∨ ∃ schema x, e = privileged conn .create schema role true x)
      (hvalue : ∀ schema error, privileged conn .create schema role true (.error error) ∈ rest →
        ∃ problem, value = .error problem) :
      RestoreCourse conn role value
        ((grants.map fun g => privileged conn g.2 g.1 role false (.ok ())) ++ rest)

theorem restoreLists_course (lists : RestoreLists) (owner : Option String) :
    (restoreLists conn archive lists owner).Yields (RestoreCourse conn (owner.getD "")) := by
  refine .bind ((grantAll_yields _).mono fun value calls h => ?_)
  obtain ⟨rfl, rfl⟩ | ⟨granted, schema, privilege, error, problem, rfl, rfl⟩ := h
  · refine .bind (.perform fun objects => ?_)
    refine .bind ((revokeAll_yields (.ok ()) _).mono fun revoked revokes h => ?_)
    obtain ⟨hall, hevents, herror⟩ := h
    set restored : Event ServerSig := ⟨.restoreList conn archive lists.app owner false, objects⟩
    have hrestored : IsRestore restored := ⟨_, _, _, _, _, rfl⟩
    -- What follows the revokes is no privilege.
    have hcourse : ∀ (value : Except String String) (tail : List (Event ServerSig)),
        (∀ e ∈ tail, IsRestore e) →
        ((∃ problem, revoked = .error problem) → ∃ problem, value = .error problem) →
        RestoreCourse conn (owner.getD "") value
          (((reachedSchemas lists owner).flatMap fun s => [(s, .usage), (s, .create)]).map
            (fun g => privileged conn g.2 g.1 (owner.getD "") false (.ok ())) ++
              ([restored] ++ (revokes ++ tail))) := by
      intro value tail htail hfails
      refine .granted _ value (restored :: (revokes ++ tail)) ?_ ?_ ?_
      · intro g hg
        obtain ⟨s, hs, hg⟩ := List.mem_flatMap.mp hg
        have hname : g.1 = s := by
          simp only [List.mem_cons, List.not_mem_nil, or_false] at hg
          obtain rfl | rfl := hg <;> rfl
        obtain ⟨x, hx⟩ := hall s hs
        exact ⟨x, List.mem_cons_of_mem _ (List.mem_append_left _ (hname ▸ hx))⟩
      · refine List.forall_mem_cons.mpr ⟨.inl hrestored, fun e he => ?_⟩
        obtain he | he := List.mem_append.mp he
        · exact .inr (hevents e he)
        · exact .inl (htail e he)
      · intro schema error he
        obtain heq | he := List.mem_cons.mp he
        · exact absurd (heq ▸ hrestored) not_isRestore_privileged
        · obtain he | he := List.mem_append.mp he
          · exact hfails (herror (.inr ⟨schema, error, he⟩))
          · exact absurd (htail _ he) not_isRestore_privileged
    cases objects with
    | error error => exact hcourse _ [] (by simp) fun _ => ⟨_, rfl⟩
    | ok warnings =>
        cases revoked with
        | error problem => exact hcourse _ [] (by simp) fun _ => ⟨_, rfl⟩
        | ok u =>
            have hfine : (∃ problem, (Except.ok u : Except String Unit) = .error problem) → False :=
              nofun
            dsimp only
            split
            · exact hcourse _ [] (by simp) fun h => (hfine h).elim
            · intro rows
              cases rows with
              | error error =>
                  exact hcourse _ [_] (by simpa using ⟨_, _, _, _, _, rfl⟩) fun _ => ⟨_, rfl⟩
              | ok rows =>
                  exact hcourse _ [_] (by simpa using ⟨_, _, _, _, _, rfl⟩)
                    fun h => (hfine h).elim
  · show RestoreCourse _ _ _ (_ ++ [])
    rw [List.append_nil]
    exact .refused granted schema privilege error problem

/-- What grants, and then a grant that fails, leave. -/
theorem leavesNone_refused (granted : List (String × SchemaPrivilege)) (schema : String)
    (privilege : SchemaPrivilege) (error problem : String) :
    LeavesNone (.error problem)
        ((granted.map fun g => privileged conn g.2 g.1 role false (.ok ())) ++
          [privileged conn privilege schema role false (.error error)]) ↔
      ¬ GrantFailsLater ((granted.map fun g => privileged conn g.2 g.1 role false (.ok ())) ++
          [privileged conn privilege schema role false (.error error)]) := by
  set calls := (granted.map fun g => privileged conn g.2 g.1 role false (.ok ())) ++
    [privileged conn privilege schema role false (.error error)] with hcalls
  have hgrants : ∀ e ∈ calls, ∃ p s x, e = privileged conn p s role false x := by
    intro e he
    obtain he | he := List.mem_append.mp he
    · obtain ⟨g, -, rfl⟩ := List.mem_map.mp he
      exact ⟨_, _, _, rfl⟩
    · exact ⟨_, _, _, List.mem_singleton.mp he⟩
  constructor
  · rintro hnone ⟨conn', schema', role', before, after, hsplit, -⟩
    -- Nothing was revoked.
    obtain ⟨⟨x, hx⟩, -⟩ := hnone conn' schema' role' before after hsplit
    obtain ⟨p, s, y, heq⟩ := hgrants _ (by
      rw [hsplit]
      exact List.mem_append_right _ (List.mem_cons_of_mem _ hx))
    cases (privileged_inj heq).2.2.2.2.1
  · intro hnot conn' schema' role' before after hsplit
    refine absurd ⟨conn', schema', role', before, after, hsplit, ?_⟩ hnot
    obtain rfl | ⟨init, last, rfl⟩ := List.eq_nil_or_concat after
    · obtain ⟨-, hlast⟩ := List.append_inj' (hcalls.symm.trans hsplit) rfl
      have hx := (privileged_inj (List.cons.inj hlast).1).2.2.2.2.2
      cases hx
    · rw [List.concat_eq_append, ← List.cons_append, ← List.append_assoc] at hsplit
      obtain ⟨-, hlast⟩ := List.append_inj' (hcalls.symm.trans hsplit) rfl
      rw [List.concat_eq_append, ← (List.cons.inj hlast).1]
      exact ⟨conn, privilege, schema, role, error, by simp⟩

/-- A restore leaves no `CREATE` exactly if no grant fails after one. -/
theorem RestoreCourse.leavesNone_iff {value : Except String String} {calls : List (Event ServerSig)}
    (h : RestoreCourse conn role value calls) :
    LeavesNone value calls ↔ ¬ GrantFailsLater calls := by
  cases h with
  | refused granted schema privilege error problem => exact leavesNone_refused _ _ _ _ _
  | granted grants value rest hrevoked hrest hvalue =>
      have hnoGrant : ∀ conn' privilege schema role' x,
          privileged conn' privilege schema role' false x ∉ rest := by
        intro conn' privilege schema role' x hx
        obtain hrestore | ⟨s, y, heq⟩ := hrest _ hx
        · exact not_isRestore_privileged hrestore
        · cases (privileged_inj heq).2.2.2.2.1
      have hmade : ∀ conn' privilege schema role' x,
          privileged conn' privilege schema role' false x ∈
            grants.map (fun g => privileged conn g.2 g.1 role false (.ok ())) ++ rest →
          conn' = conn ∧ role' = role ∧ x = .ok () ∧ ∃ g ∈ grants, g.1 = schema := by
        intro conn' privilege schema role' x hx
        obtain hx | hx := List.mem_append.mp hx
        · obtain ⟨g, hg, heq⟩ := List.mem_map.mp hx
          obtain ⟨hconn, -, hschema, hrole, -, hans⟩ := privileged_inj heq
          exact ⟨hconn.symm, hrole.symm, hans.symm, g, hg, hschema⟩
        · exact absurd hx (hnoGrant _ _ _ _ _)
      refine iff_of_true ?_ ?_
      · intro conn' schema role' before after hsplit
        have hmem : privileged conn' .create schema role' false (.ok ()) ∈
            grants.map (fun g => privileged conn g.2 g.1 role false (.ok ())) ++ rest := by
          rw [hsplit]
          exact List.mem_append_right _ List.mem_cons_self
        obtain ⟨rfl, rfl, -, g, hg, rfl⟩ := hmade _ _ _ _ _ hmem
        -- What follows the grants follows this one.
        have hafter : rest ⊆ after := by
          obtain ⟨between, -, hright⟩ | ⟨between, hleft, hright⟩ :=
            List.append_eq_append_iff.mp hsplit
          · exact absurd (hright ▸ List.mem_append_right between List.mem_cons_self)
              (hnoGrant _ _ _ _ _)
          · cases between with
            | nil =>
                rw [List.nil_append] at hright
                exact absurd (hright ▸ List.mem_cons_self) (hnoGrant _ _ _ _ _)
            | cons e between =>
                obtain ⟨-, rfl⟩ := List.cons.inj hright
                exact List.subset_append_right _ _
        obtain ⟨x, hx⟩ := hrevoked g hg
        refine ⟨⟨x, hafter hx⟩, fun error herror => hvalue g.1 error ?_⟩
        have hin : privileged conn' .create g.1 role' true (.error error) ∈
            grants.map (fun g => privileged conn' g.2 g.1 role' false (.ok ())) ++ rest := by
          rw [hsplit]
          exact List.mem_append_right _ (List.mem_cons_of_mem _ herror)
        obtain hin | hin := List.mem_append.mp hin
        · obtain ⟨g', -, heq⟩ := List.mem_map.mp hin
          cases (privileged_inj heq).2.2.2.2.1
        · exact hin
      · rintro ⟨conn', schema, role', before, after, hsplit, conn'', privilege, schema'', role'',
          error, hfails⟩
        obtain ⟨-, -, hx, -⟩ := hmade conn'' privilege schema'' role'' (.error error) (by
          rw [hsplit]
          exact List.mem_append_right _ (List.mem_cons_of_mem _ hfails))
        cases hx

/-- Whatever the server answers, a restore of any two lists leaves no `CREATE` granted exactly if no
grant fails after one was made. -/
theorem restoreLists_leaves_none (conn : PgConn) (archive : String) (lists : RestoreLists)
    (owner : Option String) :
    (restoreLists conn archive lists owner).Yields fun value calls =>
      (LeavesNone value calls ↔ ¬ GrantFailsLater calls) :=
  (restoreLists_course lists owner).mono fun _ _ h => h.leavesNone_iff

end Runs

/-! ## Two schemas -/

/-- A listing that creates two schemas which an extension made already. -/
def twoSchemas : RestoreLists :=
  splitListing ("1; 2615 1 SCHEMA - cron postgres\n2; 2615 2 SCHEMA - audit postgres\n" ++
    "3; 1259 3 TABLE cron jobs app\n4; 1259 4 TABLE audit rows app\n") ["pg_cron"]
    ["cron", "audit"]

/-- The server refuses the grants on `audit`. -/
def refusingServer : Handler ServerSig Unit
  | .schemaPrivilege _ _ schema _ false, s =>
      (if schema = "audit" then .error "permission denied" else .ok (), s)
  | .schemaPrivilege _ _ _ _ true, s => (.ok (), s)
  | _, s => (.error "no answer", s)

/-- The grant on `audit` fails, and `CREATE` on `cron` stays granted. -/
theorem restoreLists_leaves_one :
    let conn : PgConn := ⟨none, none, none, none, "shop", none⟩
    let run := (restoreLists conn "/backups/a.pgdump" twoSchemas (some "app")).exec refusingServer
      [] ()
    run.calls =
      [privileged conn .usage "cron" "app" false (.ok ()),
        privileged conn .create "cron" "app" false (.ok ()),
        privileged conn .usage "audit" "app" false (.error "permission denied")] ∧
      ¬ LeavesNone run.value run.calls := by
  intro conn run
  have hcalls : run.calls =
      [privileged conn .usage "cron" "app" false (.ok ()),
        privileged conn .create "cron" "app" false (.ok ()),
        privileged conn .usage "audit" "app" false (.error "permission denied")] := by
    have hreached : reachedSchemas twoSchemas (some "app") = ["cron", "audit"] := by
      decide +kernel
    simp only [run, restoreLists, hreached]
    rfl
  refine ⟨hcalls, fun hnone => ?_⟩
  obtain ⟨⟨x, hx⟩, -⟩ := hnone conn "cron" "app" [_] [_] hcalls
  have heq := List.mem_singleton.mp hx
  cases (privileged_inj heq).2.2.2.2.1

end Fraisier.Db
