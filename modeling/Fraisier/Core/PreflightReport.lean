import Fraisier.Core.RiskContract
import Fraisier.Core.PolicyAdmission

/-!
# From the migration tool's report to the policy

How the migration adapter turns the document its tool wrote into a preflight report. A
broken change-set voids itself, while a broken change keeps its place as a change that
nobody classified. Read `parsePreflightReport_keepsChanges` first: what a policy allows
was classified, change by change.
-/

namespace Fraisier.Core

open Fraisier.Data

/-! ## The adapter's reading -/

/-- Whether a document is what the tool writes when it fails. -/
def isErrorEnvelope (json : Json) : Bool :=
  match json.get "error" with
  | some (.obj _) => true
  | _ => false

/-- The type of a document: its shape, never its content. -/
def jsonShape : Json → String
  | .null => "null"
  | .bool _ => "a boolean"
  | .int _ => "a number"
  | .float _ => "a number"
  | .str _ => "a string"
  | .arr _ => "an array"
  | .obj _ => "an object"

/-- The kind of a change that could not be read. -/
def unparseableKind : String := "unparseable"

/-- What holds the place of a change that could not be read. -/
def unclassifiedPlaceholder (index : Nat) (change : Json) : SchemaChange where
  kind := unparseableKind
  object := s!"<unreadable entry at index {index}>"
  migration := none
  tier := none
  detail := some
    ("the migration adapter emitted " ++ jsonShape change ++ " where a change entry was expected")

/-- Read one listed change. -/
def schemaChangeFrom (index : Nat) (change : Json) : SchemaChange :=
  (SchemaChange.decode change).getD (unclassifiedPlaceholder index change)

/-- Read a contract revision. A `0` was stamped by nobody. -/
def contractVersionFrom (value : Json) : Option Nat :=
  value.asU64.bind fun version =>
    if version < 4294967296 ∧ version ≠ 0 then some version else none

/-- Read the list of changes. An absent list is an empty one. -/
def changesFrom : Option Json → Option (List SchemaChange)
  | none => some []
  | some (.arr entries) => some (entries.mapIdx schemaChangeFrom)
  | some _ => none

/-- Read the change-set of a report. -/
def parseChangeSet (json : Json) : Option ChangeSet :=
  if isErrorEnvelope json then none
  else
    match json.get "change_set" with
    | some (.obj envelope) => do
        let version ← (Json.lookup envelope "contract_version").bind contractVersionFrom
        let changes ← changesFrom (Json.lookup envelope "changes")
        return ⟨version, changes⟩
    | _ => none

/-- The text of a field, or an empty one. -/
def textOr (json : Json) (name : String) : String :=
  ((json.get name).bind Json.asStr).getD ""

/-- The severity a finding names. -/
def severityFrom : Option String → Severity
  | some "error" => .error
  | some "warning" => .warning
  | _ => .info

/-- Read one finding. -/
def preflightIssueFrom (issue : Json) : PreflightIssue where
  severity := severityFrom ((issue.get "severity").bind Json.asStr)
  code := textOr issue "code"
  message := textOr issue "message"
  migration := (issue.get "migration").bind Json.asStr

/-- Read the report of a preflight. -/
def parsePreflightReport (json : Json) : PreflightReport where
  ok := ((json.get "ok").bind Json.asBool).getD false
  issues := (((json.get "issues").bind Json.asArray).map
    (List.map preflightIssueFrom)).getD []
  windowSafe := (json.get "window_safe").bind Json.asBool
  changeSet := parseChangeSet json

/-! ## What is read in full -/

/-- The tool classified a change, and the policy applies its tier without asking. -/
def AppliesEntry (policy : Policy) (entry : Json) : Prop :=
  ∃ change tier, SchemaChange.decode entry = some change ∧ change.tier = some tier ∧
    policy.actions.lookup tier = some .autoApply

/-- A report whose `changes` changes were all classified, and all may be applied. -/
structure ReadInFull (policy : Policy) (json : Json) (changes : Nat) : Prop where
  report : isErrorEnvelope json = false
  changeSet : ∃ envelope, json.get "change_set" = some (.obj envelope) ∧
    (∃ version : Nat, Json.lookup envelope "contract_version" = some (.int version) ∧
      1 ≤ version ∧ version ≤ riskContractVersion) ∧
    (Json.lookup envelope "changes" = none ∧ changes = 0 ∨
      ∃ entries, Json.lookup envelope "changes" = some (.arr entries) ∧
        entries.length = changes ∧
        ∀ (index : Nat) entry, entries[index]? = some entry → AppliesEntry policy entry)

/-- The listed changes and the ones that were read correspond, position by position. -/
structure Placed (entries : List Json) (changes : List SchemaChange) : Prop where
  length : changes.length = entries.length
  readable : ∀ (index : Nat) entry change, entries[index]? = some entry →
    SchemaChange.decode entry = some change → changes[index]? = some change
  unreadable : ∀ (index : Nat) entry, entries[index]? = some entry →
    SchemaChange.decode entry = none → changes[index]? = some (unclassifiedPlaceholder index entry)

/-- No change that a report lists is lost on its way to the policy. -/
structure KeepsChanges (policy : Policy) (capabilities : Capabilities) (json : Json) : Prop where
  allowed : ∀ baseline changes,
    evaluate (some policy) baseline capabilities (some (parsePreflightReport json)) =
      .allow changes → ReadInFull policy json changes
  placed : ∀ changeSet envelope entries, parseChangeSet json = some changeSet →
    json.get "change_set" = some (.obj envelope) →
    Json.lookup envelope "changes" = some (.arr entries) → Placed entries changeSet.changes
  untiered : ∀ index entry, (unclassifiedPlaceholder index entry).tier = none

/-! ## What the parser reads -/

theorem contractVersionFrom_eq_some {value : Json} {version : Nat}
    (h : contractVersionFrom value = some version) : value = .int version ∧ 1 ≤ version := by
  obtain ⟨read, hread, hversion⟩ := Option.bind_eq_some_iff.mp h
  split at hversion
  · rename_i hbounds
    cases hversion
    refine ⟨?_, by omega⟩
    unfold Json.asU64 at hread
    split at hread
    · split at hread
      · rename_i hrange
        cases hread
        rw [Int.toNat_of_nonneg hrange.1]
      · cases hread
    · cases hread
  · cases hversion

theorem changesFrom_eq_some {value : Option Json} {changes : List SchemaChange}
    (h : changesFrom value = some changes) :
    (value = none ∧ changes = []) ∨
      ∃ entries, value = some (.arr entries) ∧ changes = entries.mapIdx schemaChangeFrom := by
  unfold changesFrom at h
  split at h
  · cases h
    exact .inl ⟨rfl, rfl⟩
  · cases h
    exact .inr ⟨_, rfl, rfl⟩
  · cases h

/-- A change-set is read from a stamped object of a report that is no failure. -/
theorem parseChangeSet_eq_some {json : Json} {changeSet : ChangeSet}
    (h : parseChangeSet json = some changeSet) :
    isErrorEnvelope json = false ∧
      ∃ envelope, json.get "change_set" = some (.obj envelope) ∧
        Json.lookup envelope "contract_version" = some (.int changeSet.contractVersion) ∧
        1 ≤ changeSet.contractVersion ∧
        changesFrom (Json.lookup envelope "changes") = some changeSet.changes := by
  unfold parseChangeSet at h
  split at h
  · cases h
  · rename_i hreport
    refine ⟨by simpa using hreport, ?_⟩
    split at h
    · rename_i envelope henvelope
      simp only [Option.bind_eq_bind, Option.bind_eq_some_iff, Option.pure_def,
        Option.some.injEq] at h
      obtain ⟨version, ⟨value, hvalue, hversion⟩, changes, hchanges, rfl⟩ := h
      obtain ⟨rfl, hstamped⟩ := contractVersionFrom_eq_some hversion
      exact ⟨envelope, henvelope, hvalue, hstamped, hchanges⟩
    · cases h

/-- Reading the changes one by one keeps each in its place. -/
theorem placed_mapIdx (entries : List Json) :
    Placed entries (entries.mapIdx schemaChangeFrom) where
  length := List.length_mapIdx
  readable index entry change hentry hchange := by
    rw [List.getElem?_mapIdx, hentry, Option.map_some, schemaChangeFrom, hchange,
      Option.getD_some]
  unreadable index entry hentry hnone := by
    rw [List.getElem?_mapIdx, hentry, Option.map_some, schemaChangeFrom, hnone,
      Option.getD_none]

/-! ## What the policy allows -/

section Allowed

variable {policy : Policy} {baseline : Baseline} {capabilities : Capabilities}
  {report : PreflightReport} {changes : Nat}

theorem assemble_eq_allow {triggers : List (PolicyAction × PolicyReason)} {total : Nat}
    (h : assemble policy triggers total = .allow changes) :
    worstAction (triggers.map Prod.fst) = .autoApply ∧ total = changes := by
  unfold assemble at h
  dsimp only at h
  split at h
  · rename_i hworst
    cases h
    exact ⟨hworst, rfl⟩
  · split at h <;> cases h
  · cases h

theorem unclassifiedChangeSet_ne_allow {cause kind : String} :
    unclassifiedChangeSet policy cause kind ≠ .allow changes := by
  unfold unclassifiedChangeSet
  intro h
  split at h
  · cases h
  · have hworst := (assemble_eq_allow h).1
    simp [worstAction, PolicyAction.rank] at hworst

/-- What a policy allows is a classified change-set, and it allows each of its changes. -/
theorem evaluate_eq_allow
    (h : evaluate (some policy) baseline capabilities (some report) = .allow changes) :
    ∃ changeSet, Classified capabilities report changeSet ∧ changeSet.changes.length = changes ∧
      ∀ change ∈ changeSet.changes, policy.actionFor change = .autoApply := by
  have hbaseline : baselineVerdict baseline capabilities (some report) = none := by
    cases hverdict : baselineVerdict baseline capabilities (some report) with
    | none => rfl
    | some reason =>
        rw [evaluate, hverdict] at h
        cases h
  cases hcapable : capabilities.riskTier with
  | false =>
      obtain ⟨cause, hrefused⟩ := evaluate_unclassified policy hbaseline (.incapable hcapable)
      exact absurd (hrefused.symm.trans h) unclassifiedChangeSet_ne_allow
  | true =>
      cases hset : report.usableChangeSet with
      | error error =>
          by_cases hemitted : error = .notEmitted
          · subst hemitted
            obtain ⟨cause, hrefused⟩ :=
              evaluate_unclassified policy hbaseline (.notEmitted hcapable hset)
            exact absurd (hrefused.symm.trans h) unclassifiedChangeSet_ne_allow
          · obtain ⟨reason, reasons, hrefused⟩ :=
              evaluate_unapprovable hbaseline (.unreadable hcapable hset hemitted)
            cases hrefused.symm.trans h
      | ok changeSet =>
          rw [evaluate_classified hbaseline ⟨hcapable, hset⟩] at h
          obtain ⟨hworst, hlength⟩ := assemble_eq_allow h
          refine ⟨changeSet, ⟨hcapable, hset⟩, hlength, ?_⟩
          intro change hchange
          by_contra hheld
          rw [List.map_map] at hworst
          refine hheld (worstAction_eq_autoApply_iff.mp hworst _ ?_)
          exact List.mem_map_of_mem (mem_held.mpr ⟨hchange, hheld⟩)

/-- A change that is applied without asking has a tier, and the policy names it. -/
theorem actionFor_eq_autoApply {change : SchemaChange}
    (h : policy.actionFor change = .autoApply) :
    ∃ tier, change.tier = some tier ∧ policy.actions.lookup tier = some .autoApply := by
  unfold Policy.actionFor at h
  cases htier : change.tier with
  | none =>
      rw [htier] at h
      cases hpolicy : policy.unclassified <;> rw [hpolicy] at h <;> cases h
  | some tier =>
      rw [htier] at h
      dsimp only at h
      refine ⟨tier, rfl, ?_⟩
      cases hlookup : policy.actions.lookup tier with
      | none =>
          rw [hlookup] at h
          cases h
      | some action =>
          rw [hlookup] at h
          cases h
          rfl

end Allowed

/-- An entry that is applied without asking is a change that was read. -/
theorem appliesEntry_of_schemaChangeFrom {policy : Policy} {index : Nat} {entry : Json}
    (h : policy.actionFor (schemaChangeFrom index entry) = .autoApply) :
    AppliesEntry policy entry := by
  obtain ⟨tier, htier, haction⟩ := actionFor_eq_autoApply h
  cases hdecode : SchemaChange.decode entry with
  | none =>
      rw [schemaChangeFrom, hdecode] at htier
      cases htier
  | some change =>
      rw [schemaChangeFrom, hdecode] at htier
      exact ⟨change, tier, hdecode, htier, haction⟩

/-- Whatever document the tool wrote, a policy that allows its report allows exactly the
changes the document lists, each of them read and classified, and a change that could not be
read is held in its place by one that nobody classified. -/
theorem parsePreflightReport_keepsChanges (policy : Policy) (capabilities : Capabilities)
    (json : Json) : KeepsChanges policy capabilities json where
  allowed baseline changes hallow := by
    obtain ⟨changeSet, ⟨-, husable⟩, hlength, hauto⟩ := evaluate_eq_allow hallow
    have hread : parseChangeSet json = some changeSet ∧
        changeSet.contractVersion ≤ riskContractVersion := by
      unfold PreflightReport.usableChangeSet at husable
      split at husable
      · cases husable
      · rename_i read hsome
        split at husable
        · cases husable
        · rename_i hunderstood
          cases husable
          exact ⟨hsome, by omega⟩
    obtain ⟨hreport, envelope, henvelope, hversion, hstamped, hchanges⟩ :=
      parseChangeSet_eq_some hread.1
    refine ⟨hreport, envelope, henvelope, ⟨_, hversion, hstamped, hread.2⟩, ?_⟩
    rcases changesFrom_eq_some hchanges with ⟨habsent, hnil⟩ | ⟨entries, hentries, hmap⟩
    · refine .inl ⟨habsent, ?_⟩
      rw [← hlength, hnil, List.length_nil]
    · refine .inr ⟨entries, hentries, ?_, ?_⟩
      · rw [← hlength, hmap, List.length_mapIdx]
      · intro index entry hentry
        refine @appliesEntry_of_schemaChangeFrom policy index entry (hauto _ ?_)
        rw [hmap]
        refine @List.mem_of_getElem? _ _ index _ ?_
        rw [List.getElem?_mapIdx, hentry, Option.map_some]
  placed changeSet envelope entries hset henvelope hentries := by
    obtain ⟨-, envelope', henvelope', -, -, hchanges⟩ := parseChangeSet_eq_some hset
    cases henvelope.symm.trans henvelope'
    rw [hentries, changesFrom, Option.some.injEq] at hchanges
    rw [← hchanges]
    exact placed_mapIdx entries
  untiered _ _ := rfl

/-- A report of an added column, and of an entry that is no change when `broken`. -/
def columnReport (broken : Bool) : Json :=
  let column := .obj [("kind", .str "add_column"), ("object", .str "public.tb_user.nickname"),
    ("tier", .str "additive")]
  .obj [("ok", .bool true), ("change_set", .obj [("contract_version", .int 1),
    ("changes", .arr (if broken then [column, .int 7] else [column]))])]

/-- A policy that applies what is additive. -/
def additivePolicy : Policy :=
  ⟨[(.additive, .autoApply)], .deny, false⟩

/-- The column alone is allowed, and so it was read in full. -/
theorem parsePreflightReport_keepsChanges_column :
    evaluate (some additivePolicy) .none ⟨true, true, false⟩
      (some (parsePreflightReport (columnReport false))) = .allow 1 ∧
    ReadInFull additivePolicy (columnReport false) 1 :=
  ⟨rfl, (parsePreflightReport_keepsChanges additivePolicy ⟨true, true, false⟩
    (columnReport false)).allowed .none 1 rfl⟩

example : ((parseChangeSet (columnReport true)).map ChangeSet.changes).map List.length =
    some 2 := rfl

end Fraisier.Core
