import Fraisier.Core.Adapters

/-!
# Reading the risk contract

How a preflight report is decoded from the document an adapter answered with. The report
is read strictly but for its change-set, which is dropped when it cannot be read, and a
change is read strictly but for its tier. Read `decode_failSafe_iff` first: what is read
is in the contract's form, except where a derived reader takes one of its other forms.
-/

namespace Fraisier.Core

open Fraisier.Data

/-! ## The decoders -/

/-- Every tier, least to most severe. -/
def RiskTier.all : List RiskTier :=
  [.additive, .reversible, .lockRisky, .destructive, .irreversible]

/-- Parse a wire name: never a nearest match. -/
def RiskTier.fromStr (name : String) : Option RiskTier :=
  RiskTier.all.find? fun tier => tier.asStr == name

/-- Read a tier, as the derived reader of its enumeration does. -/
def RiskTier.decode (value : Json) : Option RiskTier :=
  value.unitVariant.bind RiskTier.fromStr

/-- Read the tier of a change: what is not a tier is unclassified. -/
def deserializeLenientTier : Option Json → Option RiskTier
  | none => none
  | some .null => none
  | some value => RiskTier.decode value

/-- Read one planned change. -/
def SchemaChange.decode (value : Json) : Option SchemaChange :=
  if value.isStruct 5 then do
    let kind ← (value.member "kind" 0).bind Json.asStr
    let object ← (value.member "object" 1).bind Json.asStr
    let migration ← Json.defaulted (Json.asOption Json.asStr) none (value.member "migration" 2)
    let tier := deserializeLenientTier (value.member "tier" 3)
    let detail ← Json.defaulted (Json.asOption Json.asStr) none (value.member "detail" 4)
    return ⟨kind, object, migration, tier, detail⟩
  else none

/-- Read a change-set. -/
def ChangeSet.decode (value : Json) : Option ChangeSet :=
  if value.isStruct 2 then do
    let contractVersion ← (value.member "contract_version" 0).bind Json.asU32
    let changes ← Json.defaulted (fun v => v.asArray.bind (Json.decodeAll SchemaChange.decode)) []
      (value.member "changes" 1)
    return ⟨contractVersion, changes⟩
  else none

/-- Read the change-set of a report: one that cannot be read, or that nobody stamped, is
none at all. -/
def deserializeLenientChangeSet : Option Json → Option ChangeSet
  | none => none
  | some .null => none
  | some value =>
      match ChangeSet.decode value with
      | none => none
      | some changeSet => if changeSet.contractVersion ≠ 0 then some changeSet else none

/-- Read the severity of a finding. -/
def Severity.decode (value : Json) : Option Severity :=
  value.unitVariant.bind fun name =>
    if name = "error" then some .error
    else if name = "warning" then some .warning
    else if name = "info" then some .info
    else none

/-- Read one finding. Its `migration` may be absent from an object only. -/
def PreflightIssue.decode (value : Json) : Option PreflightIssue :=
  match value with
  | .obj fields => do
      let severity ← Json.field Severity.decode fields "severity"
      let code ← Json.field Json.asStr fields "code"
      let message ← Json.field Json.asStr fields "message"
      let migration ← Json.optionField Json.asStr fields "migration"
      return ⟨severity, code, message, migration⟩
  | .arr [severity, code, message, migration] => do
      let severity ← Severity.decode severity
      let code ← code.asStr
      let message ← message.asStr
      let migration ← Json.asOption Json.asStr migration
      return ⟨severity, code, message, migration⟩
  | _ => none

/-- Read a preflight report. -/
def PreflightReport.decode (value : Json) : Option PreflightReport :=
  if value.isStruct 4 then do
    let ok ← (value.member "ok" 0).bind Json.asBool
    let issues ← (value.member "issues" 1).bind fun v =>
      v.asArray.bind (Json.decodeAll PreflightIssue.decode)
    let windowSafe ← Json.defaulted (Json.asOption Json.asBool) none
      (value.member "window_safe" 2)
    return ⟨ok, issues, windowSafe, deserializeLenientChangeSet (value.member "change_set" 3)⟩
  else none

/-! ## The contract's form -/

/-- A change is given as an object, and the decoded change says what it says. -/
def Spells (wire : Json) (change : SchemaChange) : Prop :=
  ∃ fields, wire = .obj fields ∧
    Json.lookup fields "kind" = some (.str change.kind) ∧
    Json.lookup fields "object" = some (.str change.object) ∧
    ∀ tier, change.tier = some tier ↔ Json.lookup fields "tier" = some (.str tier.asStr)

/-- A change-set is given as a stamped object, and the decoded set lists its changes. -/
def InContract (wire : Option Json) (changeSet : ChangeSet) : Prop :=
  ∃ fields, wire = some (.obj fields) ∧
    Json.lookup fields "contract_version" = some (.int changeSet.contractVersion) ∧
    0 < changeSet.contractVersion ∧ changeSet.contractVersion ≤ riskContractVersion ∧
    (Json.lookup fields "changes" = none ∧ changeSet.changes = [] ∨
      ∃ items, Json.lookup fields "changes" = some (.arr items) ∧
        List.Forall₂ Spells items changeSet.changes)

/-- The part of a report that is read strictly. -/
def ReadsLint (value : Json) : Prop :=
  value.isStruct 4 = true ∧
    (∃ ok, (value.member "ok" 0).bind Json.asBool = some ok) ∧
    (∃ issues, (value.member "issues" 1).bind
      (fun v => v.asArray.bind (Json.decodeAll PreflightIssue.decode)) = some issues) ∧
    ∃ windowSafe, Json.defaulted (Json.asOption Json.asBool) none
      (value.member "window_safe" 2) = some windowSafe

/-- No shape of a change-set breaks a report that reads otherwise, and one that is usable
was given in the contract's form. -/
structure FailSafe (value : Json) : Prop where
  decodes : ReadsLint value → ∃ report, PreflightReport.decode value = some report
  contract : ∀ report changeSet, PreflightReport.decode value = some report →
    report.usableChangeSet = .ok changeSet → InContract (value.member "change_set" 3) changeSet

/-! ## The other forms of a derived reader -/

/-- A text that may be left out. -/
def OptionalText : Option Json → Prop
  | none => True
  | some .null => True
  | some (.str _) => True
  | some _ => False

/-- The fields a change needs are there, in either form of a struct. -/
structure ReadableChange (wire : Json) : Prop where
  isStruct : wire.isStruct 5 = true
  kind : ∃ text, wire.member "kind" 0 = some (.str text)
  object : ∃ text, wire.member "object" 1 = some (.str text)
  migration : OptionalText (wire.member "migration" 2)
  detail : OptionalText (wire.member "detail" 4)

/-- The fields a change-set needs are there, in either form of a struct. -/
structure ReadableSet (wire : Json) (items : List Json) : Prop where
  isStruct : wire.isStruct 2 = true
  version : wire.member "contract_version" 0 = some (.int 1)
  changes : wire.member "changes" 1 = none ∧ items = [] ∨
    wire.member "changes" 1 = some (.arr items)
  readable : ∀ item ∈ items, ReadableChange item

/-- A change given as an array, or with a tier given as an object. -/
def LooseChange (wire : Json) : Prop :=
  (∃ items, wire = .arr items) ∨
    ∃ tier : RiskTier, wire.member "tier" 3 = some (.obj [(tier.asStr, .null)])

/-- A change-set that is complete, but given as an array or with such a change. -/
def Loose (wire : Json) : Prop :=
  ∃ items, ReadableSet wire items ∧
    ((∃ elements, wire = .arr elements) ∨ ∃ item ∈ items, LooseChange item)

/-! ## What the decoders read -/

theorem RiskTier.fromStr_eq_some_iff {name : String} {tier : RiskTier} :
    RiskTier.fromStr name = some tier ↔ tier.asStr = name := by
  constructor
  · intro h
    simpa using List.find?_some h
  · intro h
    subst h
    cases tier <;> decide

theorem unitVariant_eq_some_iff {value : Json} {name : String} :
    value.unitVariant = some name ↔ value = .str name ∨ value = .obj [(name, .null)] := by
  unfold Json.unitVariant
  split
  · simp
  · simp
  · rename_i hstr hobj
    refine iff_of_false nofun ?_
    intro h
    rcases h with h | h
    · exact hstr _ h
    · exact hobj _ h

/-- A tier is read from its wire name, or from an object with that name only. -/
theorem deserializeLenientTier_eq_some_iff {wire : Option Json} {tier : RiskTier} :
    deserializeLenientTier wire = some tier ↔
      wire = some (.str tier.asStr) ∨ wire = some (.obj [(tier.asStr, .null)]) := by
  unfold deserializeLenientTier
  split
  · simp
  · simp
  · rw [RiskTier.decode, Option.bind_eq_some_iff]
    simp only [unitVariant_eq_some_iff, RiskTier.fromStr_eq_some_iff, Option.some.injEq]
    constructor
    · intro h
      obtain ⟨name, hname, rfl⟩ := h
      exact hname
    · intro h
      exact ⟨tier.asStr, h, rfl⟩

theorem optionalText_iff {wire : Option Json} :
    OptionalText wire ↔
      ∃ text, Json.defaulted (Json.asOption Json.asStr) none wire = some text := by
  cases wire with
  | none => exact iff_of_true trivial ⟨none, rfl⟩
  | some value => cases value <;> simp [OptionalText, Json.defaulted, Json.asOption, Json.asStr]

theorem asStr_eq_some_iff {value : Json} {text : String} :
    value.asStr = some text ↔ value = .str text := by
  cases value <;> simp [Json.asStr]

/-- A change decodes when it is readable, to what its fields say. -/
theorem SchemaChange.decode_eq_some {wire : Json} {change : SchemaChange}
    (h : SchemaChange.decode wire = some change) :
    ReadableChange wire ∧ wire.member "kind" 0 = some (.str change.kind) ∧
      wire.member "object" 1 = some (.str change.object) ∧
      change.tier = deserializeLenientTier (wire.member "tier" 3) := by
  unfold SchemaChange.decode at h
  split at h
  · rename_i hstruct
    simp only [Option.bind_eq_bind, Option.bind_eq_some_iff, asStr_eq_some_iff,
      exists_eq_right, Option.pure_def, Option.some.injEq] at h
    obtain ⟨kind, hkind, object, hobject, migration, hmigration, detail, hdetail, rfl⟩ := h
    exact ⟨⟨hstruct, ⟨kind, hkind⟩, ⟨object, hobject⟩, optionalText_iff.mpr ⟨_, hmigration⟩,
      optionalText_iff.mpr ⟨_, hdetail⟩⟩, hkind, hobject, rfl⟩
  · cases h

theorem ReadableChange.decodes {wire : Json} (h : ReadableChange wire) :
    ∃ change, SchemaChange.decode wire = some change := by
  obtain ⟨kind, hkind⟩ := h.kind
  obtain ⟨object, hobject⟩ := h.object
  obtain ⟨migration, hmigration⟩ := optionalText_iff.mp h.migration
  obtain ⟨detail, hdetail⟩ := optionalText_iff.mp h.detail
  let tier := deserializeLenientTier (wire.member "tier" 3)
  refine ⟨⟨kind, object, migration, tier, detail⟩, ?_⟩
  simp only [SchemaChange.decode, h.isStruct, if_true, hkind, hobject, hmigration, hdetail]
  rfl

/-- A change that is not loose is spelled as its decoded form says. -/
theorem spells_of_decode {wire : Json} {change : SchemaChange}
    (h : SchemaChange.decode wire = some change) (hstrict : ¬LooseChange wire) :
    Spells wire change := by
  obtain ⟨hreadable, hkind, hobject, htier⟩ := SchemaChange.decode_eq_some h
  have hstruct := hreadable.isStruct
  cases wire with
  | obj fields =>
      refine ⟨fields, rfl, hkind, hobject, ?_⟩
      intro tier
      rw [htier, deserializeLenientTier_eq_some_iff]
      refine or_iff_left ?_
      intro hobj
      exact hstrict (.inr ⟨tier, hobj⟩)
  | arr items => exact absurd (.inl ⟨items, rfl⟩) hstrict
  | null => cases hstruct
  | bool b => cases hstruct
  | int n => cases hstruct
  | float digits => cases hstruct
  | str s => cases hstruct

/-- A loose change is spelled by nothing it decodes to. -/
theorem LooseChange.not_spells {wire : Json} {change : SchemaChange} (hloose : LooseChange wire)
    (h : SchemaChange.decode wire = some change) : ¬Spells wire change := by
  intro hspells
  obtain ⟨fields, rfl, -, -, hiff⟩ := hspells
  obtain ⟨-, -, -, htier⟩ := SchemaChange.decode_eq_some h
  rcases hloose with ⟨items, hitems⟩ | ⟨tier, hobj⟩
  · cases hitems
  · have hsome : change.tier = some tier := by
      rw [htier, deserializeLenientTier_eq_some_iff]
      exact .inr hobj
    have hstr := (hiff tier).mp hsome
    rw [show Json.lookup fields "tier" = _ from hobj] at hstr
    cases hstr

theorem asU32_eq_some {value : Json} {n : Nat} (h : value.asU32 = some n) : value = .int n := by
  unfold Json.asU32 at h
  split at h
  · split at h
    · rename_i hbounds
      cases h
      rw [Int.toNat_of_nonneg hbounds.1]
    · cases h
  · cases h

/-- The changes of a set as its reader takes them. -/
theorem changes_eq_some {wire : Option Json} {changes : List SchemaChange}
    (h : Json.defaulted (fun v => v.asArray.bind (Json.decodeAll SchemaChange.decode)) [] wire =
      some changes) :
    (wire = none ∧ changes = []) ∨
      ∃ items, wire = some (.arr items) ∧
        Json.decodeAll SchemaChange.decode items = some changes := by
  cases wire with
  | none =>
      cases h
      exact .inl ⟨rfl, rfl⟩
  | some value =>
      obtain ⟨items, hitems, hchanges⟩ := Option.bind_eq_some_iff.mp h
      refine .inr ⟨items, ?_, hchanges⟩
      cases value with
      | arr items' =>
          cases hitems
          rfl
      | _ => cases hitems

theorem ChangeSet.decode_eq_some {wire : Json} {changeSet : ChangeSet}
    (h : ChangeSet.decode wire = some changeSet) :
    wire.isStruct 2 = true ∧
      wire.member "contract_version" 0 = some (.int changeSet.contractVersion) ∧
      ((wire.member "changes" 1 = none ∧ changeSet.changes = []) ∨
        ∃ items, wire.member "changes" 1 = some (.arr items) ∧
          Json.decodeAll SchemaChange.decode items = some changeSet.changes) := by
  unfold ChangeSet.decode at h
  split at h
  · rename_i hstruct
    simp only [Option.bind_eq_bind, Option.bind_eq_some_iff, Option.pure_def,
      Option.some.injEq] at h
    obtain ⟨version, ⟨value, hvalue, hversion⟩, changes, hchanges, rfl⟩ := h
    rw [asU32_eq_some hversion] at hvalue
    exact ⟨hstruct, hvalue, changes_eq_some hchanges⟩
  · cases h

theorem ReadableSet.decodes {wire : Json} {items : List Json} (h : ReadableSet wire items) :
    ∃ changes, ChangeSet.decode wire = some ⟨1, changes⟩ ∧
      Json.decodeAll SchemaChange.decode items = some changes := by
  obtain ⟨changes, hchanges⟩ := Json.exists_decodeAll_iff.mpr fun item hitem =>
    (h.readable item hitem).decodes
  have hversion : (some (Json.int 1)).bind Json.asU32 = some 1 := rfl
  refine ⟨changes, ?_, hchanges⟩
  rw [ChangeSet.decode, if_pos h.isStruct, h.version]
  rcases h.changes with ⟨hnone, rfl⟩ | hsome
  · cases hchanges
    rw [hnone]
    rfl
  · rw [hsome]
    simp only [hversion, Json.defaulted, Json.asArray, Option.bind_some, hchanges]
    rfl

theorem deserializeLenientChangeSet_eq_some_iff {wire : Option Json} {changeSet : ChangeSet} :
    deserializeLenientChangeSet wire = some changeSet ↔
      ∃ value, wire = some value ∧ ChangeSet.decode value = some changeSet ∧
        changeSet.contractVersion ≠ 0 := by
  unfold deserializeLenientChangeSet
  split
  · simp
  · simp [ChangeSet.decode, Json.isStruct]
  · rename_i value _
    cases hdecode : ChangeSet.decode value with
    | none => simp [hdecode]
    | some read =>
        by_cases hstamp : read.contractVersion = 0
        · simp only [hstamp, ne_eq, not_true_eq_false, if_false, reduceCtorEq, false_iff]
          intro h
          obtain ⟨value', hvalue, hread, hnonzero⟩ := h
          cases hvalue
          rw [hdecode] at hread
          cases hread
          exact hnonzero hstamp
        · simp only [hstamp, ne_eq, not_false_eq_true, if_true, Option.some.injEq,
            exists_eq_left', hdecode]
          constructor
          · intro h
            exact ⟨h, h ▸ hstamp⟩
          · intro h
            exact h.1

/-- The usable set of a report is one of the understood contract that the decoder read. -/
theorem usableChangeSet_eq_ok_iff {report : PreflightReport} {changeSet : ChangeSet}
    {wire : Option Json} (h : report.changeSet = deserializeLenientChangeSet wire) :
    report.usableChangeSet = .ok changeSet ↔
      ∃ value, wire = some value ∧ ChangeSet.decode value = some changeSet ∧
        changeSet.contractVersion = 1 := by
  unfold PreflightReport.usableChangeSet
  cases hset : report.changeSet with
  | none =>
      refine iff_of_false nofun ?_
      intro husable
      obtain ⟨value, hvalue, hdecode, hversion⟩ := husable
      have hsome := deserializeLenientChangeSet_eq_some_iff.mpr
        ⟨value, hvalue, hdecode, by omega⟩
      rw [← h, hset] at hsome
      cases hsome
  | some read =>
      obtain ⟨value, hvalue, hdecode, hstamp⟩ :=
        deserializeLenientChangeSet_eq_some_iff.mp (h ▸ hset)
      have hiff : (∃ value, wire = some value ∧ ChangeSet.decode value = some changeSet ∧
          changeSet.contractVersion = 1) ↔ read = changeSet ∧ read.contractVersion = 1 := by
        constructor
        · intro husable
          obtain ⟨value', hvalue', hdecode', hversion⟩ := husable
          cases hvalue.symm.trans hvalue'
          cases hdecode.symm.trans hdecode'
          exact ⟨rfl, hversion⟩
        · intro husable
          obtain ⟨rfl, hversion⟩ := husable
          exact ⟨value, hvalue, hdecode, hversion⟩
      rw [hiff]
      by_cases hversion : read.contractVersion = 1
      · simp [hversion, riskContractVersion]
      · have hnew : read.contractVersion > riskContractVersion := by
          simp only [riskContractVersion]
          omega
        simp [hnew, hversion]

/-- A report decodes exactly when its strict part does, with the set its wire form gives. -/
theorem PreflightReport.decode_eq_some {value : Json} {report : PreflightReport}
    (h : PreflightReport.decode value = some report) :
    ReadsLint value ∧
      report.changeSet = deserializeLenientChangeSet (value.member "change_set" 3) := by
  unfold PreflightReport.decode at h
  split at h
  · rename_i hstruct
    obtain ⟨ok, hok, h⟩ := Option.bind_eq_some_iff.mp h
    obtain ⟨issues, hissues, h⟩ := Option.bind_eq_some_iff.mp h
    obtain ⟨windowSafe, hsafe, h⟩ := Option.bind_eq_some_iff.mp h
    cases h
    exact ⟨⟨hstruct, ⟨ok, hok⟩, ⟨issues, hissues⟩, windowSafe, hsafe⟩, rfl⟩
  · cases h

theorem ReadsLint.decodes {value : Json} (h : ReadsLint value) :
    ∃ report, PreflightReport.decode value = some report := by
  obtain ⟨hstruct, ⟨ok, hok⟩, ⟨issues, hissues⟩, windowSafe, hsafe⟩ := h
  let changeSet := deserializeLenientChangeSet (value.member "change_set" 3)
  refine ⟨⟨ok, issues, windowSafe, changeSet⟩, ?_⟩
  simp only [PreflightReport.decode, hstruct, if_true, hok, hissues, hsafe]
  rfl

/-! ## Fail-safe decoding -/

theorem forall₂_spells {items : List Json} {changes : List SchemaChange}
    (h : List.Forall₂ (fun v a => SchemaChange.decode v = some a) items changes)
    (hstrict : ∀ item ∈ items, ¬LooseChange item) : List.Forall₂ Spells items changes := by
  induction h with
  | nil => exact .nil
  | cons hhead _ ih =>
      refine .cons (spells_of_decode hhead (hstrict _ List.mem_cons_self)) ?_
      exact ih fun item hitem => hstrict item (List.mem_cons_of_mem _ hitem)

/-- What a set that is not loose decodes to is in the contract. -/
theorem inContract_of_decode {wire : Json} {changeSet : ChangeSet}
    (h : ChangeSet.decode wire = some changeSet) (hversion : changeSet.contractVersion = 1)
    (hstrict : ¬Loose wire) : InContract (some wire) changeSet := by
  obtain ⟨hstruct, hstamp, hchanges⟩ := ChangeSet.decode_eq_some h
  have hreadable : ∀ items, Json.decodeAll SchemaChange.decode items = some changeSet.changes →
      ∀ item ∈ items, ReadableChange item := by
    intro items hitems item hitem
    obtain ⟨change, hchange⟩ := Json.exists_decodeAll_iff.mp ⟨_, hitems⟩ item hitem
    exact (SchemaChange.decode_eq_some hchange).1
  have hset : ∀ items, (wire.member "changes" 1 = none ∧ items = [] ∨
      wire.member "changes" 1 = some (.arr items)) →
      Json.decodeAll SchemaChange.decode items = some changeSet.changes →
      ReadableSet wire items := by
    intro items hmember hitems
    rw [hversion] at hstamp
    exact ⟨hstruct, hstamp, hmember, hreadable items hitems⟩
  have hobject : ∃ fields, wire = .obj fields := by
    cases wire with
    | obj fields => exact ⟨fields, rfl⟩
    | arr elements =>
        refine absurd ?_ hstrict
        rcases hchanges with ⟨hnone, hnil⟩ | ⟨items, hmember, hitems⟩
        · exact ⟨[], hset [] (.inl ⟨hnone, rfl⟩) (by rw [hnil]; rfl), .inl ⟨elements, rfl⟩⟩
        · exact ⟨items, hset items (.inr hmember) hitems, .inl ⟨elements, rfl⟩⟩
    | null => cases hstruct
    | bool b => cases hstruct
    | int n => cases hstruct
    | float digits => cases hstruct
    | str s => cases hstruct
  obtain ⟨fields, rfl⟩ := hobject
  refine ⟨fields, rfl, hstamp, by omega, by simp only [riskContractVersion]; omega, ?_⟩
  rcases hchanges with hnone | ⟨items, hmember, hitems⟩
  · exact .inl hnone
  · refine .inr ⟨items, hmember, ?_⟩
    -- A loose change would make the whole set loose, since every other change is readable.
    have hitem : ∀ item ∈ items, ¬LooseChange item := by
      intro item hitem hloose
      exact hstrict ⟨items, hset items (.inr hmember) hitems, .inr ⟨item, hitem, hloose⟩⟩
    exact forall₂_spells (Json.forall₂_of_decodeAll hitems) hitem

/-- A list with a loose change is spelled by nothing it decodes to. -/
theorem not_forall₂_spells {items : List Json} {changes : List SchemaChange}
    (h : List.Forall₂ (fun v a => SchemaChange.decode v = some a) items changes) {item : Json}
    (hitem : item ∈ items) (hloose : LooseChange item) : ¬List.Forall₂ Spells items changes := by
  induction h with
  | nil => cases hitem
  | cons hhead _ ih =>
      intro hspells
      cases hspells with
      | cons hfirst hrest =>
          rcases List.mem_cons.mp hitem with rfl | hitem
          · exact hloose.not_spells hhead hfirst
          · exact ih hitem hrest

/-- Whatever document is received as a report, it is read fail-safe exactly when its
change-set, if it is complete otherwise, is not given in another form of a derived reader. -/
theorem decode_failSafe_iff (value : Json) :
    FailSafe value ↔
      ¬(ReadsLint value ∧ ∃ wire, value.member "change_set" 3 = some wire ∧ Loose wire) := by
  constructor
  · intro hsafe hloose
    obtain ⟨hlint, wire, hwire, items, hreadable, hform⟩ := hloose
    obtain ⟨report, hreport⟩ := hlint.decodes
    obtain ⟨changes, hset, hitems⟩ := hreadable.decodes
    have husable : report.usableChangeSet = .ok ⟨1, changes⟩ :=
      (usableChangeSet_eq_ok_iff (PreflightReport.decode_eq_some hreport).2).mpr
        ⟨wire, hwire, hset, rfl⟩
    obtain ⟨fields, hfields, -, -, -, hspelled⟩ :=
      hsafe.contract report ⟨1, changes⟩ hreport husable
    cases hwire.symm.trans hfields
    rcases hform with ⟨elements, harr⟩ | ⟨item, hitem, hloose⟩
    · cases harr
    · -- The list is not empty, so the set has it as its changes.
      have hmember : Json.lookup fields "changes" = some (.arr items) := by
        rcases hreadable.changes with ⟨-, hnil⟩ | hmember
        · rw [hnil] at hitem
          cases hitem
        · exact hmember
      rcases hspelled with ⟨hnone, -⟩ | ⟨items', hmember', hspells⟩
      · cases hmember.symm.trans hnone
      · cases hmember.symm.trans hmember'
        exact not_forall₂_spells (Json.forall₂_of_decodeAll hitems) hitem hloose hspells
  · intro hstrict
    refine ⟨ReadsLint.decodes, ?_⟩
    intro report changeSet hreport husable
    obtain ⟨hlint, hchangeSet⟩ := PreflightReport.decode_eq_some hreport
    obtain ⟨wire, hwire, hdecode, hversion⟩ := (usableChangeSet_eq_ok_iff hchangeSet).mp husable
    rw [hwire]
    refine inContract_of_decode hdecode hversion ?_
    intro hloose
    exact hstrict ⟨hlint, wire, hwire, hloose⟩

/-- A report whose change-set is a bare array. -/
def bareArray : Json :=
  .obj [("ok", .bool true), ("issues", .arr []), ("change_set", .arr [.int 1])]

/-- The bare array is read as an empty set that can be used. -/
theorem decode_not_failSafe_bareArray :
    PreflightReport.decode bareArray = some ⟨true, [], none, some ⟨1, []⟩⟩ ∧
    (⟨true, [], none, some ⟨1, []⟩⟩ : PreflightReport).usableChangeSet = .ok ⟨1, []⟩ ∧
    ¬FailSafe bareArray := by
  refine ⟨rfl, rfl, ?_⟩
  intro hsafe
  obtain ⟨fields, hfields, -⟩ := hsafe.contract _ ⟨1, []⟩ rfl rfl
  cases hfields

end Fraisier.Core
