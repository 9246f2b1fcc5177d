import Fraisier.Data.Cutting
import Fraisier.Data.Paths
import Fraisier.Ipc.Server
import Fraisier.Saga.Redact

/-!
# The record that a failed run leaves

A run that fails writes a small record for its alert, under the name of its systemd invocation.
`bounded` cuts the reason short until the record fits. `bounded_read` says when it can, and that
what it writes is read back as the record, with its reason or a front of it.
-/

namespace Fraisier.Cli.Alerts

open Fraisier.Data Fraisier.Ipc

/-- The most bytes of a record. -/
def maxBytes : Nat := 4096

/-- What a failed run tells its alert. -/
structure FailureRecord where
  event : String
  fraise : Option String
  environment : Option String
  unit : String
  invocationId : String
  atUnix : UInt64
  reason : String
deriving DecidableEq

/-! ## Invocations -/

/-- A text of 32 lower-case hexadecimal digits. -/
def isInvocationId (id : String) : Bool :=
  (utf8 id.toList).length == 32 && id.toList.all fun c =>
    c.isDigit || ('a' ≤ c && c ≤ 'f')

/-- The path of the record of an invocation. -/
def recordPath (dir : PathBuf) (id : String) : PathBuf :=
  dir.join (PathBuf.ofText (id ++ ".json"))

/-- The path under which it is written. -/
def unfinishedPath (dir : PathBuf) (id : String) : PathBuf :=
  dir.join (PathBuf.ofText ("." ++ id ++ ".json.partial"))

section Paths

variable {id id' : String} (dir : PathBuf)

theorem not_mem_of_isInvocationId (h : isInvocationId id = true) {c : Char}
    (hc : (c.isDigit || ('a' ≤ c && c ≤ 'f')) = false) : c ∉ id.toList := by
  intro hmem
  rw [isInvocationId, Bool.and_eq_true, List.all_eq_true] at h
  have hdigit := h.2 c hmem
  rw [hc] at hdigit
  cases hdigit

/-- A name leads to a file of the directory. -/
theorem join_ofText {name : String} (hslash : '/' ∉ name.toList) (hlong : 1 < name.toList.length) :
    dir.join (PathBuf.ofText name) = dir.below [name] := by
  have habsolute : (name.toList.head? == some '/') = false := by
    rw [beq_eq_false_iff_ne]
    exact fun hhead => hslash (List.mem_of_mem_head? hhead)
  have hparts : ([name].filter fun part => part != "" && part != ".") = [name] := by
    have hempty : name ≠ "" := by
      rintro rfl
      exact absurd hlong (by decide)
    have hdot : name ≠ "." := by
      rintro rfl
      exact absurd hlong (by decide)
    simp [hempty, hdot]
  rw [PathBuf.ofText, habsolute, List.splitOn_eq_singleton hslash, List.map_singleton,
    String.ofList_toList, hparts]
  rfl

/-- The record of an invocation is a file of the directory. -/
theorem recordPath_eq (h : isInvocationId id = true) :
    recordPath dir id = dir.below [id ++ ".json"] := by
  refine join_ofText dir ?_ ?_
  · rw [String.toList_append, List.mem_append, not_or]
    exact ⟨not_mem_of_isInvocationId h (by decide), by decide⟩
  · have hsuffix : ".json".toList.length = 5 := rfl
    rw [String.toList_append, List.length_append]
    omega

theorem unfinishedPath_eq (h : isInvocationId id = true) :
    unfinishedPath dir id = dir.below ["." ++ id ++ ".json.partial"] := by
  refine join_ofText dir ?_ ?_
  · simp only [String.toList_append, List.mem_append, not_or]
    exact ⟨⟨by decide, not_mem_of_isInvocationId h (by decide)⟩, by decide⟩
  · have hsuffix : ".json.partial".toList.length = 13 := rfl
    simp only [String.toList_append, List.length_append]
    omega

/-- Two invocations have records of their own. -/
theorem recordPath_injective (h : isInvocationId id = true) (h' : isInvocationId id' = true)
    (heq : recordPath dir id = recordPath dir id') : id = id' := by
  rw [recordPath_eq dir h, recordPath_eq dir h'] at heq
  have hname := List.singleton_injective (List.append_inj' (congrArg PathBuf.parts heq) rfl).2
  have hchars := congrArg String.toList hname
  rw [String.toList_append, String.toList_append] at hchars
  exact String.toList_inj.mp (List.append_cancel_right hchars)

theorem unfinishedPath_injective (h : isInvocationId id = true) (h' : isInvocationId id' = true)
    (heq : unfinishedPath dir id = unfinishedPath dir id') : id = id' := by
  rw [unfinishedPath_eq dir h, unfinishedPath_eq dir h'] at heq
  have hname := List.singleton_injective (List.append_inj' (congrArg PathBuf.parts heq) rfl).2
  have hchars := congrArg String.toList hname
  simp only [String.toList_append, List.append_assoc] at hchars
  exact String.toList_inj.mp (List.append_cancel_right (List.append_cancel_left hchars))

/-- No record is the file under which one is written. -/
theorem recordPath_ne_unfinishedPath (h : isInvocationId id = true)
    (h' : isInvocationId id' = true) : recordPath dir id ≠ unfinishedPath dir id' := by
  rw [recordPath_eq dir h, unfinishedPath_eq dir h']
  intro heq
  have hname := List.singleton_injective (List.append_inj' (congrArg PathBuf.parts heq) rfl).2
  have hchars := congrArg String.toList hname
  have hdot : '.' ∉ id.toList := not_mem_of_isInvocationId h (by decide)
  rw [String.toList_append, String.toList_append, String.toList_append] at hchars
  rw [isInvocationId, Bool.and_eq_true, beq_iff_eq] at h
  cases hid : id.toList with
  | nil =>
      rw [hid] at h
      exact absurd h.1 (by decide)
  | cons c rest =>
      -- The name of a record begins with a digit, the other one with a dot.
      rw [hid] at hchars
      obtain rfl : c = '.' := (List.cons.inj hchars).1
      exact hdot (hid ▸ List.mem_cons_self)

end Paths

/-! ## Documents -/

namespace FailureRecord

/-- The names of the fields. -/
def fieldNames : List String :=
  ["event", "fraise", "environment", "unit", "invocation_id", "at_unix", "reason"]

/-- The fields in the order in which they are written. -/
def fields (record : FailureRecord) : List (String × Json) :=
  [("event", .str record.event), ("fraise", Json.ofOption .str record.fraise),
    ("environment", Json.ofOption .str record.environment), ("unit", .str record.unit),
    ("invocation_id", .str record.invocationId), ("at_unix", .int record.atUnix.toNat),
    ("reason", .str record.reason)]

def encode (record : FailureRecord) : Json :=
  .obj record.fields

def decode : Json → Option FailureRecord
  | .obj fields =>
      if repeats fieldNames (.obj fields) then none
      else do
        let event ← Json.field Json.asStr fields "event"
        let fraise ← Json.optionField Json.asStr fields "fraise"
        let environment ← Json.optionField Json.asStr fields "environment"
        let unit ← Json.field Json.asStr fields "unit"
        let invocationId ← Json.field Json.asStr fields "invocation_id"
        let atUnix ← Json.field Json.asU64 fields "at_unix"
        let reason ← Json.field Json.asStr fields "reason"
        return ⟨event, fraise, environment, unit, invocationId, .ofNat atUnix, reason⟩
  | .arr [event, fraise, environment, unit, invocationId, atUnix, reason] => do
      let event ← event.asStr
      let fraise ← Json.asOption Json.asStr fraise
      let environment ← Json.asOption Json.asStr environment
      let unit ← unit.asStr
      let invocationId ← invocationId.asStr
      let atUnix ← atUnix.asU64
      let reason ← reason.asStr
      return ⟨event, fraise, environment, unit, invocationId, .ofNat atUnix, reason⟩
  | _ => none

/-- A record as it is written. -/
def body (record : FailureRecord) : List UInt8 :=
  utf8 (Json.render record.encode)

/-- The record of some bytes. -/
def ofBody (body : List UInt8) : Option FailureRecord :=
  (fromBody body).bind decode

variable {record : FailureRecord}

theorem asOption_ofOption (text : Option String) :
    Json.asOption Json.asStr (Json.ofOption .str text) = some text := by
  cases text <;> rfl

theorem repeats_encode (record : FailureRecord) :
    repeats fieldNames record.encode = false := by
  simp [repeats, encode, fields, fieldNames]

theorem asU64_toNat (n : UInt64) : Json.asU64 (.int n.toNat) = some n.toNat := by
  have hlt : n.toNat < 18446744073709551616 := n.toNat_lt
  have hrange : (0 : Int) ≤ n.toNat ∧ (n.toNat : Int) < 18446744073709551616 := by omega
  simp only [Json.asU64, if_pos hrange, Int.toNat_natCast]

theorem field_of_lookup {α : Type} {decode : Json → Option α} {fields : List (String × Json)}
    {name : String} {v : Json} (h : Json.lookup fields name = some v) :
    Json.field decode fields name = decode v := by
  rw [Json.field, h, Option.bind_some]

theorem optionField_of_lookup {fields : List (String × Json)} {name : String}
    {text : Option String} (h : Json.lookup fields name = some (Json.ofOption .str text)) :
    Json.optionField Json.asStr fields name = some text := by
  rw [Json.optionField, h]
  exact asOption_ofOption text

theorem decode_encode (record : FailureRecord) : decode record.encode = some record := by
  have hevent : Json.lookup record.fields "event" = some (.str record.event) := rfl
  have hfraise : Json.lookup record.fields "fraise" = some (Json.ofOption .str record.fraise) := rfl
  have henvironment : Json.lookup record.fields "environment" =
      some (Json.ofOption .str record.environment) := rfl
  have hunit : Json.lookup record.fields "unit" = some (.str record.unit) := rfl
  have hid : Json.lookup record.fields "invocation_id" = some (.str record.invocationId) := rfl
  have hat : Json.lookup record.fields "at_unix" = some (.int record.atUnix.toNat) := rfl
  have hreason : Json.lookup record.fields "reason" = some (.str record.reason) := rfl
  have hrepeats : repeats fieldNames (.obj record.fields) = false := record.repeats_encode
  simp only [encode, decode, hrepeats, Bool.false_eq_true, if_false, field_of_lookup hevent,
    optionField_of_lookup hfraise, optionField_of_lookup henvironment, field_of_lookup hunit,
    field_of_lookup hid, field_of_lookup hat, field_of_lookup hreason, Json.asStr, asU64_toNat,
    Option.bind_eq_bind, Option.bind_some, UInt64.ofNat_toNat]
  rfl

theorem readable_encode (record : FailureRecord) : Json.Readable Json.maxDepth record.encode := by
  have hlt := record.atUnix.toNat_lt
  have hoption : ∀ text : Option String, Json.Readable 126 (Json.ofOption .str text) := by
    intro text
    cases text with
    | none => exact .null _
    | some text => exact .str _ _
  refine .obj 126 _ fun field hfield => ?_
  simp only [fields, List.mem_cons, List.not_mem_nil, or_false] at hfield
  obtain rfl | rfl | rfl | rfl | rfl | rfl | rfl := hfield
  · exact .str _ _
  · exact hoption _
  · exact hoption _
  · exact .str _ _
  · exact .str _ _
  · exact .int _ _ (by omega) (by omega)
  · exact .str _ _

/-- A record is read back from what is written. -/
theorem ofBody_body (record : FailureRecord) : ofBody record.body = some record := by
  have hchars : utf8 (Json.render record.encode) =
      utf8 (String.ofList (Json.render record.encode)).toList := by
    rw [String.toList_ofList]
  rw [ofBody, fromBody, body, hchars, fromUtf8_utf8, Option.bind_some,
    Json.parse_render record.readable_encode, Option.bind_some, decode_encode]

/-- With a longer reason a record gets longer. -/
theorem length_body_le (record : FailureRecord) (front reason : String) :
    ({ record with reason := reason } : FailureRecord).body.length ≤
      ({ record with reason := front ++ reason } : FailureRecord).body.length := by
  have hbody : ∃ before after, ∀ reason : String,
      ({ record with reason := reason } : FailureRecord).body =
        before ++ utf8 (reason.toList.flatMap Json.escapeChar) ++ after := by
    refine ⟨utf8 ('{' :: Json.renderFields (record.fields.take 6) ++
      ',' :: Json.quoted "reason" ++ [':', '"']), utf8 ['"', '}'], fun reason => ?_⟩
    rw [body, ← utf8_append, ← utf8_append]
    refine congrArg utf8 ?_
    simp [encode, fields, Json.render, Json.renderFields, Json.quoted]
  obtain ⟨before, after, hbody⟩ := hbody
  simp only [hbody, String.toList_append, List.flatMap_append, utf8_append, List.length_append]
  omega

end FailureRecord

/-! ## Cutting the reason short -/

/-- What stands behind a reason that was cut short. -/
def mark : String := "… (truncated)"

/-- The reason without the mark of an earlier cut. -/
def unmarked (reason : String) : String :=
  (stripSuffix reason mark).getD reason

/-- How many bytes of a reason are kept when the record is too large by some. -/
def keepOf (reason : String) (excess : Nat) : Nat :=
  let bytes := utf8 reason.toList
  floorBoundary bytes (bytes.length - (excess + (utf8 mark.toList).length))

theorem keepOf_empty (excess : Nat) : keepOf "" excess = 0 := by
  have hle := floorBoundary_le (utf8 "".toList)
    ((utf8 "".toList).length - (excess + (utf8 mark.toList).length))
  have hempty : (utf8 "".toList).length = 0 := rfl
  rw [keepOf]
  omega

/-- The front of a reason that has so many bytes, and the mark. -/
def shortened (reason : String) (keep : Nat) : String :=
  String.ofList (charsBefore reason.toList keep) ++ mark

theorem unmarked_shortened (reason : String) (keep : Nat) :
    unmarked (shortened reason keep) = String.ofList (charsBefore reason.toList keep) := by
  rw [unmarked, shortened, stripSuffix_append, Option.getD_some]

theorem length_shortened_lt {reason : String} {excess : Nat} (hexcess : 0 < excess)
    (hne : reason ≠ "") :
    (unmarked (shortened reason (keepOf reason excess))).toList.length <
      reason.toList.length := by
  have hpos : 0 < (utf8 reason.toList).length := by
    have hle := length_le_utf8 reason.toList
    have hchars : 0 < reason.toList.length :=
      List.length_pos_of_ne_nil fun h => hne (String.toList_eq_nil_iff.mp h)
    omega
  rw [unmarked_shortened, String.toList_ofList]
  exact length_cut_lt (by omega)

/-- A record as it is written, cutting the reason short if needed. Escaping can make what is
written longer than the text, so it is cut by the excess and tried again. -/
def bounded (record : FailureRecord) : Except String (List UInt8) :=
  if _hfits : record.body.length ≤ maxBytes then .ok record.body
  else
    let reason := unmarked record.reason
    let keep := keepOf reason (record.body.length - maxBytes)
    if _hempty : keep = 0 ∧ reason = "" then
      .error "a failure record without a reason is too large"
    else bounded { record with reason := shortened reason keep }
termination_by (unmarked record.reason).toList.length
decreasing_by
  have hexcess := Nat.sub_pos_of_lt (Nat.lt_of_not_le _hfits)
  refine length_shortened_lt hexcess fun hreason => _hempty ⟨?_, hreason⟩
  show keepOf (unmarked record.reason) _ = 0
  rw [show unmarked record.reason = "" from hreason]
  exact keepOf_empty _

section Bounded

variable {record : FailureRecord} {body : List UInt8}

/-- A reason, or a front of it with the mark of a cut. -/
def Shortened (reason short : String) : Prop :=
  short = reason ∨ ∃ front after, unmarked reason = front ++ after ∧ short = front ++ mark

/-- A cut keeps a front of the reason. -/
theorem exists_kept (reason : String) (excess : Nat) :
    ∃ after,
      reason = String.ofList (charsBefore reason.toList (keepOf reason excess)) ++ after := by
  obtain ⟨after, hcut, -⟩ := exists_cut reason.toList
    ((utf8 reason.toList).length - (excess + (utf8 mark.toList).length))
  refine ⟨String.ofList after, ?_⟩
  rw [← String.ofList_append]
  exact String.ofList_toList.symm.trans (congrArg String.ofList hcut)

/-- Cutting a reason again cuts it shorter. -/
theorem Shortened.again {reason short : String} {excess : Nat}
    (h : Shortened (shortened (unmarked reason) (keepOf (unmarked reason) excess)) short) :
    Shortened reason short := by
  obtain ⟨rest, hrest⟩ := exists_kept (unmarked reason) excess
  obtain rfl | ⟨front, after, hfront, rfl⟩ := h
  · exact .inr ⟨_, rest, hrest, rfl⟩
  · rw [unmarked_shortened] at hfront
    refine .inr ⟨front, after ++ rest, ?_, rfl⟩
    rw [← String.append_assoc, ← hfront]
    exact hrest

/-- What is written is short enough, and is the record with its reason cut as far as needed. -/
theorem bounded_ok (h : bounded record = .ok body) :
    body.length ≤ maxBytes ∧ ∃ reason, Shortened record.reason reason ∧
      body = ({ record with reason := reason } : FailureRecord).body := by
  fun_induction bounded record with
  | case1 record hfits =>
      obtain rfl := Except.ok.inj h
      exact ⟨hfits, record.reason, .inl rfl, rfl⟩
  | case2 record hfits reason keep hempty => cases h
  | case3 record hfits reason keep hempty ih =>
      obtain ⟨hle, short, hshort, hbody⟩ := ih h
      exact ⟨hle, short, hshort.again, hbody⟩

/-- Nothing is cut off a record that fits. -/
theorem bounded_of_le (h : record.body.length ≤ maxBytes) : bounded record = .ok record.body := by
  rw [bounded, dif_pos h]

/-- A reason with nothing before its mark is empty, or the mark. -/
theorem reason_of_unmarked {reason : String} (h : unmarked reason = "") :
    reason = "" ∨ reason = mark := by
  rw [unmarked] at h
  cases hstrip : stripSuffix reason mark with
  | none =>
      rw [hstrip, Option.getD_none] at h
      exact .inl h
  | some rest =>
      rw [hstrip, Option.getD_some] at h
      have hmark := eq_append_of_stripSuffix hstrip
      rw [h, String.empty_append] at hmark
      exact .inr hmark

/-- A record is only refused when it does not fit without its reason. -/
theorem bounded_error {cause : String} (h : bounded record = .error cause) :
    maxBytes < record.body.length ∧
      maxBytes < ({ record with reason := mark } : FailureRecord).body.length := by
  fun_induction bounded record with
  | case1 record hfits => cases h
  | case2 record hfits reason keep hempty =>
      have hlarge := Nat.lt_of_not_le hfits
      refine ⟨hlarge, ?_⟩
      obtain hnone | hmark := reason_of_unmarked hempty.2
      · have hsame : record = { record with reason := "" } := by rw [← hnone]
        have hle := record.length_body_le mark ""
        rw [String.append_empty] at hle
        rw [hsame] at hlarge
        exact Nat.lt_of_lt_of_le hlarge hle
      · rwa [← hmark]
  | case3 record hfits reason keep hempty ih =>
      exact ⟨Nat.lt_of_not_le hfits, (ih h).2⟩

/-- A record is written in full if it fits, and is cut short if it would fit with the mark alone.
What is written fits, and is read back as the record with its reason or a front of it. -/
theorem bounded_read (record : FailureRecord) :
    match bounded record with
    | .ok body => body.length ≤ maxBytes ∧
        ∃ reason, Shortened record.reason reason ∧
          (record.body.length ≤ maxBytes → reason = record.reason) ∧
          FailureRecord.ofBody body = some { record with reason := reason }
    | .error _ => maxBytes < record.body.length ∧
        maxBytes < ({ record with reason := mark } : FailureRecord).body.length := by
  cases hbounded : bounded record with
  | error cause => exact bounded_error hbounded
  | ok body =>
      obtain ⟨hle, short, hshort, rfl⟩ := bounded_ok hbounded
      by_cases hfits : record.body.length ≤ maxBytes
      · refine ⟨hle, record.reason, .inl rfl, fun _ => rfl, ?_⟩
        rw [bounded_of_le hfits] at hbounded
        rw [← Except.ok.inj hbounded]
        exact record.ofBody_body
      · exact ⟨hle, short, hshort, fun h => absurd h hfits, FailureRecord.ofBody_body _⟩

end Bounded

end Fraisier.Cli.Alerts
