import Fraisier.Saga.CrashWrites

/-!
# What is read after crashes

A snapshot and a key are replaced as a whole, a log grows in place. As long as no append leaves a
part of a record behind, and none goes on where a newline is missing, every reading succeeds and
lacks at most records whose methods were cut off. The main theorem is `crash_tolerant`;
`torn_append_loses_log` is a run with one torn record, after which a log is lost.
-/

namespace Fraisier.Saga

open Fraisier.Data Fraisier.Effect

/-! ## Logs -/

/-- Bytes that end in a newline, or none. -/
def EndsInNewline (bytes : List UInt8) : Prop :=
  ∀ byte ∈ bytes.getLast?, byte = '\n'.toUInt8

/-- The bytes of a log: each value on a line, the last newline maybe missing. -/
inductive Logged {α : Type} (codec : JsonCodec α) : List α → List UInt8 → Prop where
  | ended (as : List α) : Logged codec as (utf8 (jsonlText codec as).toList)
  | unended (as : List α) (a : α) :
      Logged codec (as ++ [a]) (utf8 (jsonlText codec as ++ codec.encode a).toList)

section Logs

variable {α : Type} {codec : JsonCodec α} {as : List α} {a : α} {bytes written : List UInt8}
  {disk : DiskFiles} {path : String}

theorem JsonCodec.RoundTrips.encode_ne (ha : codec.RoundTrips a) : codec.encode a ≠ "" := by
  intro hempty
  exact ha.notBlank (by rw [hempty]; rfl)

/-- The lines of a log whose last newline is missing. -/
theorem lines_unended (has : ∀ b ∈ as, codec.RoundTrips b) (ha : codec.RoundTrips a) :
    lines (jsonlText codec as ++ codec.encode a) = (as ++ [a]).map codec.encode := by
  have hlast : ([] : List Char).reverse ++ (codec.encode a).toList ≠ [] := by
    simpa using ha.encode_ne
  rw [lines, String.toList_append, linesFrom_jsonlText has, linesFrom_last hlast ha.oneLine,
    List.reverse_nil, List.nil_append, String.ofList_toList, List.map_append, List.map_singleton]

/-- A file is read by its lines, also one that is missing. -/
theorem readLines_eq {content : String} (h : (disk.lookup path).getD [] = utf8 content.toList) :
    readLines codec disk path =
      codec.readAll ((lines content).filter fun line => trim line ≠ "") := by
  rw [readLines]
  cases hlookup : disk.lookup path with
  | none =>
      rw [hlookup, Option.getD_none] at h
      have hempty : [] = content.toList := @utf8_injective [] _ h
      rw [String.toList_eq_nil_iff.mp hempty.symm]
      rfl
  | some bytes =>
      rw [hlookup, Option.getD_some] at h
      simp only [h, fromUtf8_utf8]

/-- A log is read back. -/
theorem readLines_of_logged (has : ∀ b ∈ as, codec.RoundTrips b)
    (h : Logged codec as ((disk.lookup path).getD [])) : readLines codec disk path = .ok as := by
  generalize hbytes : (disk.lookup path).getD [] = bytes at h
  cases h with
  | ended => exact (readLines_eq hbytes).trans (readAll_lines has (lines_jsonlText has))
  | unended as a =>
      obtain ⟨has', ha⟩ := List.forall_mem_append.mp has
      refine (readLines_eq hbytes).trans (readAll_lines has ?_)
      exact lines_unended has' (ha a (List.mem_singleton_self a))

/-- Encodings are decoded up to a line that cannot be. -/
theorem readAll_torn {torn error : String} (has : ∀ b ∈ as, codec.RoundTrips b)
    (hdecode : codec.decode torn = .error error) (rest : List String) :
    codec.readAll (as.map codec.encode ++ torn :: rest) = .error (.serde error) := by
  induction as with
  | nil =>
      rw [List.map_nil, List.nil_append, JsonCodec.readAll, JsonCodec.read, hdecode]
      rfl
  | cons a as ih =>
      obtain ⟨ha, has⟩ := List.forall_mem_cons.mp has
      rw [List.map_cons, List.cons_append, JsonCodec.readAll, ha.read, ih has]
      rfl

/-- A line that cannot be decoded makes a log unreadable, whatever is written after it. -/
theorem readLines_torn {torn more error : String} (has : ∀ b ∈ as, codec.RoundTrips b)
    (hline : '\n' ∉ torn.toList) (hreturn : '\r' ∉ torn.toList) (hblank : trim torn ≠ "")
    (hdecode : codec.decode torn = .error error)
    (h : (disk.lookup path).getD [] =
      utf8 (jsonlText codec as ++ torn ++ "\n" ++ more).toList) :
    readLines codec disk path = .error (.serde error) := by
  have hlines : lines (jsonlText codec as ++ torn ++ "\n" ++ more) =
      as.map codec.encode ++ torn :: linesFrom [] more.toList := by
    have hchars : (jsonlText codec as ++ torn ++ "\n" ++ more).toList =
        (jsonlText codec as).toList ++ (torn.toList ++ '\n' :: more.toList) := by
      simp
    rw [lines, hchars, linesFrom_jsonlText has, linesFrom_newline [] _ _ hline, List.reverse_nil,
      List.nil_append, String.ofList_toList, withoutReturn_of_not_mem hreturn]
  rw [readLines_eq h, hlines, List.filter_append, filter_encodings has,
    List.filter_cons_of_pos (by simpa using hblank)]
  exact readAll_torn has hdecode _

/-- A log without its last newline ends in no newline. -/
theorem not_endsInNewline (ha : codec.RoundTrips a) :
    ¬ EndsInNewline (utf8 (jsonlText codec as ++ codec.encode a).toList) := by
  intro hends
  have hne : utf8 (codec.encode a).toList ≠ [] := by
    intro hnil
    exact ha.encode_ne (String.toList_eq_nil_iff.mp (@utf8_injective _ [] hnil))
  obtain ⟨byte, hbyte⟩ := Option.isSome_iff_exists.mp (List.getLast?_isSome.mpr hne)
  have hnewline : byte = '\n'.toUInt8 := by
    refine hends byte ?_
    rw [String.toList_append, utf8_append, List.getLast?_append_of_ne_nil _ hne]
    exact hbyte
  have hmem := List.mem_of_getLast? hbyte
  rw [hnewline, ascii_mem_utf8 (by decide)] at hmem
  exact ha.oneLine hmem

/-- A record that goes on where a line ended, and of which at most the newline is missing, is one
more record of the log. -/
theorem Logged.append (has : ∀ b ∈ as, codec.RoundTrips b) (h : Logged codec as bytes)
    (hends : EndsInNewline bytes) (hwritten : written <+: utf8 (codec.encode a ++ "\n").toList)
    (hlength : (utf8 (codec.encode a ++ "\n").toList).length ≤ written.length + 1) :
    Logged codec (as ++ [a]) (bytes ++ written) := by
  cases h with
  | unended as b =>
      have hb := has b (List.mem_append_right _ (List.mem_singleton_self b))
      exact absurd hends (not_endsInNewline hb)
  | ended =>
      have hline : utf8 (codec.encode a ++ "\n").toList =
          utf8 (codec.encode a).toList ++ ['\n'.toUInt8] := by
        rw [String.toList_append, utf8_append]
        rfl
      rw [hline] at hwritten hlength
      obtain rfl | hfront := List.prefix_concat_iff.mp hwritten
      · rw [← hline, ← utf8_append, ← String.toList_append, ← String.append_assoc,
          ← jsonlText_append]
        exact .ended _
      · have hall : written = utf8 (codec.encode a).toList := by
          refine hfront.eq_of_length_le ?_
          simpa using hlength
        rw [hall, ← utf8_append, ← String.toList_append]
        exact .unended as a

end Logs

/-! ## The condition -/

/-- A method that writes no record into the rest of another, and leaves no part of one: what is
appended goes on where a line ended, and of its own line at most the newline is missing. -/
def Attempt.LeavesLines (codecs : RecordCodecs) (slug : FraiseKey → String) (disk : DiskFiles)
    (attempt : Attempt) : Prop :=
  ∀ name written, .append name written ∈
      DiskFiles.performed attempt.2 (attempt.1.writes codecs slug disk) → written ≠ [] →
    EndsInNewline ((disk.lookup name).getD []) ∧
      ∃ line, .append name line ∈ attempt.1.writes codecs slug disk ∧
        line.length ≤ written.length + 1

/-- A run of such methods. -/
def LeavesLines (codecs : RecordCodecs) (slug : FraiseKey → String) (run : List Attempt) : Prop :=
  ∀ front attempt, front ++ [attempt] <+: run →
    Attempt.LeavesLines codecs slug (diskAfter codecs slug front) attempt

/-! ## What a run leaves -/

/-- A log holds what a run recorded, up to methods that were cut off. -/
def LogHolds {α : Type} (codec : JsonCodec α) (recorded : List StoreCall → List α)
    (run : List Attempt) (bytes : List UInt8) : Prop :=
  ∃ kept, Kept run kept ∧ Logged codec (recorded kept) bytes

/-- Each file as a text, nothing for one that is none. -/
def DiskFiles.texts (disk : DiskFiles) : Directory :=
  mapContents (fun bytes => (fromUtf8 bytes).getD "") disk

/-- The files hold what a run recorded for the pairs in use, up to methods that were cut off. -/
structure DiskFiles.Holds (codecs : RecordCodecs) (slug : FraiseKey → String)
    (keys : Set FraiseKey) (run : List Attempt) (disk : DiskFiles) : Prop where
  within : ∀ attempt ∈ run, attempt.1.Within codecs keys
  states : ∀ key ∈ keys, LogHolds codecs.state (statesOf · key) run
    ((disk.lookup (statePath slug key)).getD [])
  events : ∀ key ∈ keys, LogHolds codecs.event (eventsOf · key) run
    ((disk.lookup (eventsPath slug key)).getD [])
  snapshots : ∀ key ∈ keys, ∃ kept, Kept run kept ∧ disk.lookup (snapshotPath slug key) =
    (snapshotsOf kept key).getLast?.map fun snapshot =>
      utf8 (codecs.snapshot.encode snapshot).toList
  keyFiles : ∃ kept, Kept run kept ∧
    KeyFiles codecs slug (fun key => key ∈ keysOf kept) (DiskFiles.texts disk)

section Runs

variable {codecs : RecordCodecs} {slug : FraiseKey → String} {keys : Set FraiseKey}
  {run : List Attempt} {kept : List StoreCall} {disk : DiskFiles} {c : StoreCall}
  {cut : Option DiskFiles.Cut} {key other : FraiseKey}

theorem disk_holds_nil : DiskFiles.Holds codecs slug keys [] [] where
  within attempt h := by cases h
  states key _ := ⟨[], .nil, .ended []⟩
  events key _ := ⟨[], .nil, .ended []⟩
  snapshots key _ := ⟨[], .nil, rfl⟩
  keyFiles := by
    have hempty : Directory.Represents codecs slug keys [] [] := Directory.represents_empty
    exact ⟨[], .nil, hempty.keyFiles⟩

theorem Kept.mem (h : Kept run kept) : ∀ c ∈ kept, ∃ cut, (c, cut) ∈ run := by
  induction h with
  | nil => intro c hc; cases hc
  | keep c cut _ ih =>
      refine List.forall_mem_append.mpr ⟨fun d hd => ?_, List.forall_mem_singleton.mpr ?_⟩
      · obtain ⟨cut', hmem⟩ := ih d hd
        exact ⟨cut', List.mem_append_left _ hmem⟩
      · exact ⟨cut, List.mem_append_right _ (List.mem_singleton_self _)⟩
  | lose c cut _ ih =>
      intro d hd
      obtain ⟨cut', hmem⟩ := ih d hd
      exact ⟨cut', List.mem_append_left _ hmem⟩

theorem Kept.within (h : Kept run kept) (hrun : ∀ attempt ∈ run, attempt.1.Within codecs keys) :
    ∀ c ∈ kept, c.Within codecs keys := by
  intro c hc
  obtain ⟨cut, hmem⟩ := h.mem c hc
  exact hrun _ hmem

section LogHolds

variable {α : Type} {codec : JsonCodec α} {recorded : List StoreCall → List α} {a : α}
  {bytes written : List UInt8}

/-- A method that records nothing in a log may be kept. -/
theorem LogHolds.keep (h : LogHolds codec recorded run bytes)
    (hc : ∀ kept, recorded (kept ++ [c]) = recorded kept) :
    LogHolds codec recorded (run ++ [(c, cut)]) bytes := by
  obtain ⟨kept, hkept, hlogged⟩ := h
  exact ⟨kept ++ [c], hkept.keep c cut, (hc kept).symm ▸ hlogged⟩

/-- A method that appends a record to a log, or a part of it. -/
theorem LogHolds.append (h : LogHolds codec recorded run bytes)
    (hround : ∀ kept, Kept run kept → ∀ b ∈ recorded kept, codec.RoundTrips b)
    (hc : ∀ kept, recorded (kept ++ [c]) = recorded kept ++ [a])
    (hwritten : written <+: utf8 (codec.encode a ++ "\n").toList)
    (hall : cut = none → written = utf8 (codec.encode a ++ "\n").toList)
    (hwhole : written ≠ [] → EndsInNewline bytes ∧
      (utf8 (codec.encode a ++ "\n").toList).length ≤ written.length + 1) :
    LogHolds codec recorded (run ++ [(c, cut)]) (bytes ++ written) := by
  obtain ⟨kept, hkept, hlogged⟩ := h
  by_cases hne : written = []
  · subst hne
    rw [List.append_nil]
    cases cut with
    | some cut => exact ⟨kept, hkept.lose c cut, hlogged⟩
    | none =>
        have hline : utf8 (codec.encode a ++ "\n").toList = [] := (hall rfl).symm
        have hempty := @utf8_injective _ [] hline
        simp at hempty
  · obtain ⟨hends, hlength⟩ := hwhole hne
    refine ⟨kept ++ [c], hkept.keep c cut, ?_⟩
    rw [hc kept]
    exact hlogged.append (hround kept hkept) hends hwritten hlength

end LogHolds

/-! ### The files a method leaves alone -/

theorem names_replaceJson {path content name : String} {call : DiskFiles.Call}
    (hcall : call ∈ replaceJson path content) (hname : name ∈ call.names) :
    name = path ∨ name = withExtension path "json.tmp" := by
  simp only [replaceJson, DiskFiles.replace, List.mem_cons, List.not_mem_nil, or_false] at hcall
  obtain rfl | rfl := hcall
  · exact .inr (by simpa [DiskFiles.Call.names] using hname)
  · have hboth : name = withExtension path "json.tmp" ∨ name = path := by
      simpa [DiskFiles.Call.names] using hname
    exact hboth.symm

/-- A file with another ending is none that a key is written to. -/
theorem not_mem_names_recordKey {a s : String}
    (hs : ∀ t ∈ [".key.json", ".key.json.tmp"],
      ¬ s.toList <:+ t.toList ∧ ¬ t.toList <:+ s.toList) :
    ∀ call ∈ recordKey codecs slug disk key, a ++ s ∉ call.names := by
  intro call hcall hname
  rw [recordKey] at hcall
  split at hcall
  · cases hcall
  · obtain heq | heq := names_replaceJson hcall hname
    · exact append_ne_append (hs ".key.json" (by simp)).1 (hs ".key.json" (by simp)).2 _ _ heq
    · rw [withExtension_keyPath] at heq
      exact append_ne_append (hs ".key.json.tmp" (by simp)).1
        (hs ".key.json.tmp" (by simp)).2 _ _ heq

theorem not_mem_names_replaceSnapshot {a s content : String}
    (hs : ∀ t ∈ [".snapshot.json", ".snapshot.json.tmp"],
      ¬ s.toList <:+ t.toList ∧ ¬ t.toList <:+ s.toList) :
    ∀ call ∈ replaceJson (snapshotPath slug key) content, a ++ s ∉ call.names := by
  intro call hcall hname
  obtain heq | heq := names_replaceJson hcall hname
  · exact append_ne_append (hs ".snapshot.json" (by simp)).1
      (hs ".snapshot.json" (by simp)).2 _ _ heq
  · rw [withExtension_snapshotPath] at heq
    exact append_ne_append (hs ".snapshot.json.tmp" (by simp)).1
      (hs ".snapshot.json.tmp" (by simp)).2 _ _ heq

theorem not_mem_names_appendLine {path line name : String} (h : name ≠ path) :
    ∀ call ∈ appendLine path line, name ∉ call.names := by
  intro call hcall
  rw [List.mem_singleton.mp hcall]
  exact List.mem_singleton.not.mpr h

theorem lookup_after {name : String}
    (h : ∀ call ∈ c.writes codecs slug disk, name ∉ call.names) :
    List.lookup name (Attempt.after codecs slug disk (c, cut)) = disk.lookup name :=
  DiskFiles.lookup_performed h

theorem lookup_after_recordState {a s : String} {state : DeploymentState}
    (hs : ∀ t ∈ [".key.json", ".key.json.tmp"],
      ¬ s.toList <:+ t.toList ∧ ¬ t.toList <:+ s.toList) (hne : a ++ s ≠ statePath slug key) :
    List.lookup (a ++ s) (Attempt.after codecs slug disk (.recordState key state, cut)) =
      disk.lookup (a ++ s) :=
  lookup_after (List.forall_mem_append.mpr
    ⟨not_mem_names_recordKey hs, not_mem_names_appendLine hne⟩)

theorem lookup_after_recordEvent {name : String} {event : SagaEvent}
    (hne : name ≠ eventsPath slug key) :
    List.lookup name (Attempt.after codecs slug disk (.recordEvent key event, cut)) =
      disk.lookup name :=
  lookup_after (not_mem_names_appendLine hne)

theorem lookup_after_recordSnapshot {a s : String} {snapshot : Json}
    (hs : ∀ t ∈ [".key.json", ".key.json.tmp"],
      ¬ s.toList <:+ t.toList ∧ ¬ t.toList <:+ s.toList)
    (hs' : ∀ t ∈ [".snapshot.json", ".snapshot.json.tmp"],
      ¬ s.toList <:+ t.toList ∧ ¬ t.toList <:+ s.toList) :
    List.lookup (a ++ s) (Attempt.after codecs slug disk (.recordSnapshot key snapshot, cut)) =
      disk.lookup (a ++ s) :=
  lookup_after (List.forall_mem_append.mpr
    ⟨not_mem_names_recordKey hs, not_mem_names_replaceSnapshot hs'⟩)

/-! ### The files a method writes -/

/-- A method appends to its log, after calls about other files. -/
theorem LogHolds.after {α : Type} {codec : JsonCodec α} {recorded : List StoreCall → List α}
    {a : α} {path : String} {front : List DiskFiles.Call}
    (h : LogHolds codec recorded run ((disk.lookup path).getD []))
    (hwrites : c.writes codecs slug disk = front ++ appendLine path (codec.encode a))
    (hfront : ∀ call ∈ front, path ∉ call.names)
    (hround : ∀ kept, Kept run kept → ∀ b ∈ recorded kept, codec.RoundTrips b)
    (hc : ∀ kept, recorded (kept ++ [c]) = recorded kept ++ [a])
    (hleaves : Attempt.LeavesLines codecs slug disk (c, cut)) :
    LogHolds codec recorded (run ++ [(c, cut)])
      ((List.lookup path (Attempt.after codecs slug disk (c, cut))).getD []) := by
  obtain ⟨written, hwritten, hall, hdone, hcontent⟩ :=
    @DiskFiles.getD_lookup_append disk path front hfront cut (utf8 (codec.encode a ++ "\n").toList)
  rw [← appendLine, ← hwrites] at hdone hcontent
  rw [Attempt.after, hcontent]
  refine h.append hround hc hwritten hall fun hne => ?_
  obtain ⟨hends, line, hline, hlength⟩ := hleaves path written (hdone hne) hne
  refine ⟨hends, ?_⟩
  rw [hwrites] at hline
  obtain hline | hline := List.mem_append.mp hline
  · exact absurd (List.mem_singleton_self path) (hfront _ hline)
  · obtain ⟨-, rfl⟩ := DiskFiles.Call.append.inj (List.mem_singleton.mp hline)
    exact hlength

/-- A snapshot is replaced, or the old one is there. -/
theorem lookup_snapshot_after (snapshot : Json) :
    List.lookup (snapshotPath slug key)
        (Attempt.after codecs slug disk (.recordSnapshot key snapshot, cut)) =
      some (utf8 (codecs.snapshot.encode snapshot).toList) ∨
    cut ≠ none ∧ List.lookup (snapshotPath slug key)
        (Attempt.after codecs slug disk (.recordSnapshot key snapshot, cut)) =
      disk.lookup (snapshotPath slug key) := by
  have hkey : ∀ call ∈ recordKey codecs slug disk key, snapshotPath slug key ∉ call.names :=
    not_mem_names_recordKey (by decide)
  have hne : snapshotPath slug key ≠ withExtension (snapshotPath slug key) "json.tmp" := by
    rw [withExtension_snapshotPath]
    exact append_ne_append (by decide) (by decide) _ _
  rw [Attempt.after, StoreCall.writes]
  obtain ⟨cut', rfl, -, hdone⟩ | ⟨cut', hcut, hdone⟩ := DiskFiles.performed_append cut
    (recordKey codecs slug disk key)
    (replaceJson (snapshotPath slug key) (codecs.snapshot.encode snapshot))
  · rw [hdone]
    exact .inr ⟨Option.some_ne_none cut', DiskFiles.lookup_performed hkey⟩
  · rw [hdone, DiskFiles.perform_append]
    obtain hnew | ⟨hcut', hold⟩ := DiskFiles.lookup_replace hne cut'
    · exact .inl hnew
    · exact .inr ⟨fun hnone => hcut' (hcut.mpr hnone), hold.trans (DiskFiles.lookup_perform hkey)⟩

/-! ### Key files -/

theorem texts_insertEntry {name : String} {bytes : List UInt8} :
    DiskFiles.texts (insertEntry disk name bytes) =
      insertEntry (DiskFiles.texts disk) name ((fromUtf8 bytes).getD "") :=
  insertEntry_mapContents.symm

/-- Calls about other files leave the key files. -/
theorem keyFiles_perform {P : FraiseKey → Prop} {calls : List DiskFiles.Call}
    (h : KeyFiles codecs slug P (DiskFiles.texts disk))
    (hcalls : ∀ call ∈ calls, ∀ name ∈ call.names, isKeyFile name = false) :
    KeyFiles codecs slug P (DiskFiles.texts (disk.perform calls)) := by
  induction calls generalizing disk with
  | nil => exact h
  | cons call calls ih =>
      obtain ⟨hcall, hrest⟩ := List.forall_mem_cons.mp hcalls
      refine ih ?_ hrest
      cases call with
      | write name bytes =>
          exact texts_insertEntry ▸ h.insertEntry (hcall name (List.mem_singleton_self name))
      | append name bytes =>
          exact texts_insertEntry ▸ h.insertEntry (hcall name (List.mem_singleton_self name))
      | rename source target =>
          have hsource : isKeyFile source = false := hcall source List.mem_cons_self
          have htarget : isKeyFile target = false :=
            hcall target (List.mem_cons_of_mem _ (List.mem_singleton_self target))
          cases hlookup : disk.lookup source with
          | none =>
              simp only [DiskFiles.Call.apply, hlookup]
              exact h
          | some bytes =>
              simp only [DiskFiles.Call.apply, hlookup]
              have hfilter := h.filter hsource
              rw [DiskFiles.texts, filter_mapContents (fun name => name != source)] at hfilter
              exact texts_insertEntry ▸ KeyFiles.insertEntry hfilter htarget

/-- A key that is recorded is recorded as a text. -/
theorem texts_recordKey : DiskFiles.texts (disk.perform (recordKey codecs slug disk key)) =
    ensureKeyRecorded codecs slug (DiskFiles.texts disk) key := by
  have hsome : ((DiskFiles.texts disk).lookup (keyPath slug key)).isSome =
      (disk.lookup (keyPath slug key)).isSome := by
    rw [DiskFiles.texts, lookup_mapContents, Option.isSome_map]
  rw [recordKey, ensureKeyRecorded, hsome]
  split
  · rfl
  · rw [replaceJson, DiskFiles.perform_replace, texts_insertEntry, fromUtf8_utf8, Option.getD_some,
      writeJsonAtomic_eq, DiskFiles.texts, DiskFiles.texts,
      filter_mapContents (fun name => name != withExtension (keyPath slug key) "json.tmp")]

/-- A key that is being recorded is recorded, or no key file was touched. -/
theorem performed_recordKey (cut : Option DiskFiles.Cut) :
    DiskFiles.performed cut (recordKey codecs slug disk key) = recordKey codecs slug disk key ∨
    ∀ call ∈ DiskFiles.performed cut (recordKey codecs slug disk key), ∀ name ∈ call.names,
      isKeyFile name = false := by
  rw [recordKey]
  split
  · refine .inr fun call hcall => ?_
    obtain hmem | ⟨whole, hmem, -⟩ := DiskFiles.begun_of_mem_performed hcall <;> cases hmem
  · obtain hall | ⟨-, hnone | ⟨front, htemporary⟩⟩ := DiskFiles.performed_replace cut
    · exact .inl hall
    · rw [replaceJson, hnone]
      exact .inr fun call hcall => by cases hcall
    · rw [replaceJson, htemporary]
      refine .inr fun call hcall name hname => ?_
      rw [List.mem_singleton.mp hcall] at hname
      rw [List.mem_singleton.mp hname, withExtension_keyPath]
      exact isKeyFile_append (by decide) (by decide) _

/-- A method that records a key has recorded it or left the key files. -/
theorem keyFiles_after {rest : List DiskFiles.Call}
    (hwrites : c.writes codecs slug disk = recordKey codecs slug disk key ++ rest)
    (hrest : ∀ call ∈ rest, ∀ name ∈ call.names, isKeyFile name = false)
    (hc : ∀ kept k, k ∈ keysOf (kept ++ [c]) ↔ k = key ∨ k ∈ keysOf kept)
    (hslug : Set.InjOn slug keys) (hkey : key ∈ keys)
    (hrun : ∀ attempt ∈ run, attempt.1.Within codecs keys)
    (h : ∃ kept, Kept run kept ∧
      KeyFiles codecs slug (fun key => key ∈ keysOf kept) (DiskFiles.texts disk)) :
    ∃ kept, Kept (run ++ [(c, cut)]) kept ∧ KeyFiles codecs slug (fun key => key ∈ keysOf kept)
      (DiskFiles.texts (Attempt.after codecs slug disk (c, cut))) := by
  obtain ⟨kept, hkept, hfiles⟩ := h
  have hrecorded : KeyFiles codecs slug (fun k => k ∈ keysOf (kept ++ [c]))
      (DiskFiles.texts (disk.perform (recordKey codecs slug disk key))) := by
    rw [texts_recordKey]
    refine (hfiles.ensureKeyRecorded fun k hk heq => ?_).congr (hc kept)
    exact hslug (mem_keys_of_mem_keysOf (hkept.within hrun) hk) hkey heq
  rw [Attempt.after, hwrites]
  obtain ⟨cut', rfl, -, hdone⟩ | ⟨cut', -, hdone⟩ :=
    DiskFiles.performed_append cut (recordKey codecs slug disk key) rest
  · rw [hdone]
    obtain hall | hnone := performed_recordKey (some cut')
    · rw [hall]
      exact ⟨kept ++ [c], hkept.keep c _, hrecorded⟩
    · exact ⟨kept, hkept.lose c cut', keyFiles_perform hfiles hnone⟩
  · rw [hdone, DiskFiles.perform_append]
    refine ⟨kept ++ [c], hkept.keep c cut, keyFiles_perform hrecorded fun part hpart => ?_⟩
    obtain hmem | ⟨call, hmem, n, hbegun⟩ := DiskFiles.begun_of_mem_performed hpart
    · exact hrest part hmem
    · rw [DiskFiles.names_of_begun hbegun]
      exact hrest call hmem

/-! ### Steps -/

namespace DiskFiles.Holds

theorem within_concat (h : DiskFiles.Holds codecs slug keys run disk) (hc : c.Within codecs keys) :
    ∀ attempt ∈ run ++ [(c, cut)], attempt.1.Within codecs keys :=
  List.forall_mem_append.mpr ⟨h.within, List.forall_mem_singleton.mpr hc⟩

/-- A method that only reads leaves the files. -/
theorem reads (h : DiskFiles.Holds codecs slug keys run disk) (hc : c.Within codecs keys)
    (hreads : c.Reads) : DiskFiles.Holds codecs slug keys (run ++ [(c, cut)])
      (Attempt.after codecs slug disk (c, cut)) := by
  have hafter : Attempt.after codecs slug disk (c, cut) = disk := by
    have hnone : c.writes codecs slug disk = [] := by
      cases c <;> first | rfl | exact hreads.elim
    rw [Attempt.after, hnone]
    cases cut with
    | none => rfl
    | some cut => rw [DiskFiles.performed, DiskFiles.stopped_nil, DiskFiles.perform_nil]
  have hsame : ∀ kept, SameRecords kept (kept ++ [c]) := fun kept => sameRecords_of_reads hreads
  rw [hafter]
  refine ⟨h.within_concat hc, fun key hkey => ?_, fun key hkey => ?_, fun key hkey => ?_, ?_⟩
  · exact (h.states key hkey).keep fun kept => congrFun (hsame kept).states key
  · exact (h.events key hkey).keep fun kept => congrFun (hsame kept).events key
  · obtain ⟨kept, hkept, hlookup⟩ := h.snapshots key hkey
    exact ⟨kept ++ [c], hkept.keep c cut, (hsame kept).snapshots.symm ▸ hlookup⟩
  · obtain ⟨kept, hkept, hfiles⟩ := h.keyFiles
    exact ⟨kept ++ [c], hkept.keep c cut, (hsame kept).keys.symm ▸ hfiles⟩

variable (hslug : Set.InjOn slug keys)
include hslug

theorem recordState {state : DeploymentState} (h : DiskFiles.Holds codecs slug keys run disk)
    (hc : (StoreCall.recordState key state).Within codecs keys)
    (hleaves : Attempt.LeavesLines codecs slug disk (.recordState key state, cut)) :
    DiskFiles.Holds codecs slug keys (run ++ [(.recordState key state, cut)])
      (Attempt.after codecs slug disk (.recordState key state, cut)) where
  within := h.within_concat hc
  states other hother := by
    by_cases heq : key = other
    · subst heq
      refine (h.states key hother).after rfl (not_mem_names_recordKey (by decide))
        (fun kept hkept => roundTrips_of_mem_statesOf (hkept.within h.within)) (fun kept => ?_)
        hleaves
      rw [statesOf_recordState, if_pos rfl]
    · rw [statePath, lookup_after_recordState (by decide) (slug_ne hslug hc.1 hother heq _)]
      refine (h.states other hother).keep fun kept => ?_
      rw [statesOf_recordState, if_neg heq, List.append_nil]
  events other hother := by
    rw [eventsPath, lookup_after_recordState (by decide)
      (append_ne_append (by decide) (by decide) _ _)]
    exact (h.events other hother).keep fun kept => by simp [eventsOf]
  snapshots other hother := by
    obtain ⟨kept, hkept, hlookup⟩ := h.snapshots other hother
    refine ⟨_, hkept.keep (.recordState key state) cut, ?_⟩
    have hsame : snapshotsOf (kept ++ [.recordState key state]) other = snapshotsOf kept other := by
      simp [snapshotsOf]
    rw [hsame, ← hlookup]
    exact lookup_after_recordState (by decide) (append_ne_append (by decide) (by decide) _ _)
  keyFiles := by
    refine keyFiles_after rfl (fun call hcall name hname => ?_)
      (fun kept k => mem_keysOf_recordState) hslug hc.1 h.within h.keyFiles
    rw [List.mem_singleton.mp hcall] at hname
    rw [List.mem_singleton.mp hname]
    exact isKeyFile_append (by decide) (by decide) _

theorem recordEvent {event : SagaEvent} (h : DiskFiles.Holds codecs slug keys run disk)
    (hc : (StoreCall.recordEvent key event).Within codecs keys)
    (hleaves : Attempt.LeavesLines codecs slug disk (.recordEvent key event, cut)) :
    DiskFiles.Holds codecs slug keys (run ++ [(.recordEvent key event, cut)])
      (Attempt.after codecs slug disk (.recordEvent key event, cut)) where
  within := h.within_concat hc
  states other hother := by
    rw [statePath, lookup_after_recordEvent (append_ne_append (by decide) (by decide) _ _)]
    exact (h.states other hother).keep fun kept => by simp [statesOf]
  events other hother := by
    by_cases heq : key = other
    · subst heq
      refine (h.events key hother).after (List.nil_append _).symm (fun call hcall => by cases hcall)
        (fun kept hkept => roundTrips_of_mem_eventsOf (hkept.within h.within)) (fun kept => ?_)
        hleaves
      rw [eventsOf_recordEvent, if_pos rfl]
    · rw [eventsPath, lookup_after_recordEvent (slug_ne hslug hc.1 hother heq _)]
      refine (h.events other hother).keep fun kept => ?_
      rw [eventsOf_recordEvent, if_neg heq, List.append_nil]
  snapshots other hother := by
    obtain ⟨kept, hkept, hlookup⟩ := h.snapshots other hother
    refine ⟨_, hkept.keep (.recordEvent key event) cut, ?_⟩
    have hsame : snapshotsOf (kept ++ [.recordEvent key event]) other = snapshotsOf kept other := by
      simp [snapshotsOf]
    rw [hsame, ← hlookup]
    exact lookup_after_recordEvent (append_ne_append (by decide) (by decide) _ _)
  keyFiles := by
    obtain ⟨kept, hkept, hfiles⟩ := h.keyFiles
    refine ⟨_, hkept.keep (.recordEvent key event) cut, ?_⟩
    refine (keyFiles_perform hfiles fun part hpart name hname => ?_).congr fun k => by simp [keysOf]
    obtain ⟨call, hcall, hname⟩ : ∃ call ∈ (StoreCall.recordEvent key event).writes codecs
        slug disk, name ∈ call.names := by
      obtain hmem | ⟨call, hmem, n, hbegun⟩ := DiskFiles.begun_of_mem_performed hpart
      · exact ⟨part, hmem, hname⟩
      · exact ⟨call, hmem, DiskFiles.names_of_begun hbegun ▸ hname⟩
    rw [List.mem_singleton.mp hcall] at hname
    rw [List.mem_singleton.mp hname]
    exact isKeyFile_append (by decide) (by decide) _

theorem recordSnapshot {snapshot : Json} (h : DiskFiles.Holds codecs slug keys run disk)
    (hc : (StoreCall.recordSnapshot key snapshot).Within codecs keys) :
    DiskFiles.Holds codecs slug keys (run ++ [(.recordSnapshot key snapshot, cut)])
      (Attempt.after codecs slug disk (.recordSnapshot key snapshot, cut)) where
  within := h.within_concat hc
  states other hother := by
    rw [statePath, lookup_after_recordSnapshot (by decide) (by decide)]
    exact (h.states other hother).keep fun kept => by simp [statesOf]
  events other hother := by
    rw [eventsPath, lookup_after_recordSnapshot (by decide) (by decide)]
    exact (h.events other hother).keep fun kept => by simp [eventsOf]
  snapshots other hother := by
    obtain ⟨kept, hkept, hlookup⟩ := h.snapshots other hother
    by_cases heq : key = other
    · subst heq
      obtain hnew | ⟨hcut, hold⟩ := @lookup_snapshot_after codecs slug disk cut key snapshot
      · refine ⟨_, hkept.keep (.recordSnapshot key snapshot) cut, ?_⟩
        rw [hnew, getLast?_snapshotsOf_recordSnapshot, if_pos rfl, Option.map_some]
      · obtain ⟨cut, rfl⟩ := Option.ne_none_iff_exists'.mp hcut
        exact ⟨kept, hkept.lose _ cut, hold.trans hlookup⟩
    · refine ⟨_, hkept.keep (.recordSnapshot key snapshot) cut, ?_⟩
      rw [getLast?_snapshotsOf_recordSnapshot, if_neg heq, ← hlookup]
      refine lookup_after (List.forall_mem_append.mpr
        ⟨not_mem_names_recordKey (by decide), fun call hcall hname => ?_⟩)
      obtain hpath | htemporary := names_replaceJson hcall hname
      · exact slug_ne hslug hc.1 hother heq _ hpath
      · rw [withExtension_snapshotPath] at htemporary
        exact append_ne_append (by decide) (by decide) _ _ htemporary
  keyFiles := by
    refine keyFiles_after rfl (fun call hcall name hname => ?_)
      (fun kept k => mem_keysOf_recordSnapshot) hslug hc.1 h.within h.keyFiles
    obtain rfl | rfl := names_replaceJson hcall hname
    · exact isKeyFile_append (by decide) (by decide) _
    · rw [withExtension_snapshotPath]
      exact isKeyFile_append (by decide) (by decide) _

/-- A method that is cut off, or completes, adds its record or leaves what there was. -/
theorem step (h : DiskFiles.Holds codecs slug keys run disk) (hc : c.Within codecs keys)
    (hleaves : Attempt.LeavesLines codecs slug disk (c, cut)) :
    DiskFiles.Holds codecs slug keys (run ++ [(c, cut)])
      (Attempt.after codecs slug disk (c, cut)) := by
  cases c with
  | recordState key state => exact h.recordState hslug hc hleaves
  | recordEvent key event => exact h.recordEvent hslug hc hleaves
  | recordSnapshot key snapshot => exact h.recordSnapshot hslug hc
  | currentState key => exact h.reads hc trivial
  | events key => exact h.reads hc trivial
  | currentSnapshot key => exact h.reads hc trivial
  | keys => exact h.reads hc trivial
  | acquireLock key => exact hc.elim
  | releaseLock guard => exact hc.elim

end DiskFiles.Holds

theorem leavesLines_concat {attempt : Attempt} :
    LeavesLines codecs slug (run ++ [attempt]) ↔ LeavesLines codecs slug run ∧
      Attempt.LeavesLines codecs slug (diskAfter codecs slug run) attempt := by
  constructor
  · intro h
    refine ⟨fun front other hfront => h front other ?_, h run attempt List.prefix_rfl⟩
    exact hfront.trans (List.prefix_append _ _)
  · rintro ⟨hrun, hattempt⟩ front other hfront
    obtain heq | hfront := List.prefix_concat_iff.mp hfront
    · obtain ⟨rfl, hsame⟩ := List.append_inj' heq rfl
      obtain rfl := List.singleton_inj.mp hsame
      exact hattempt
    · exact hrun front other hfront

/-- What is on disk after a run is what the run recorded, up to methods that were cut off. -/
theorem disk_holds_after (hslug : Set.InjOn slug keys)
    (hrun : ∀ attempt ∈ run, attempt.1.Within codecs keys) (hleaves : LeavesLines codecs slug run) :
    DiskFiles.Holds codecs slug keys run (diskAfter codecs slug run) := by
  induction run using List.reverseRecOn with
  | nil => exact disk_holds_nil
  | append_singleton run attempt ih =>
      obtain ⟨hrun, hattempt⟩ := List.forall_mem_append.mp hrun
      obtain ⟨hleaves, hlast⟩ := leavesLines_concat.mp hleaves
      rw [diskAfter_concat]
      exact (ih hrun hleaves).step hslug (hattempt attempt (List.mem_singleton_self attempt)) hlast

/-! ## What is read -/

/-- The key files are read as the texts they are. -/
theorem fromSlices_keyFiles {P : FraiseKey → Prop}
    (h : KeyFiles codecs slug P (DiskFiles.texts disk))
    (hround : ∀ key, P key → codecs.key.RoundTrips key) :
    fromSlices codecs.key ((disk.filter fun e => isKeyFile e.1).map Prod.snd) =
      codecs.key.readAll (((DiskFiles.texts disk).filter fun e => isKeyFile e.1).map Prod.snd) := by
  have htext : ∀ e ∈ disk.filter fun e => isKeyFile e.1,
      e.2 = utf8 ((fromUtf8 e.2).getD "").toList := by
    intro e he
    obtain ⟨hmem, hname⟩ := List.mem_filter.mp he
    obtain ⟨key, hkey, heq⟩ := h.named _ (List.mem_map_of_mem hmem) hname
    obtain ⟨-, hcontent⟩ := Prod.mk.inj heq
    cases hutf8 : fromUtf8 e.2 with
    | some content => exact fromUtf8_eq_some_iff.mp hutf8
    | none =>
        simp only [hutf8, Option.getD_none] at hcontent
        exact absurd hcontent.symm (hround key hkey).encode_ne
  rw [← fromSlices_utf8, DiskFiles.texts, filter_mapContents, mapContents, List.map_map,
    List.map_map]
  exact congrArg _ (List.map_congr_left htext)

/-- Every reading succeeds, and gives what was recorded. -/
theorem DiskFiles.Holds.answers (h : DiskFiles.Holds codecs slug keys run disk)
    (hkeys : ∀ key ∈ keys, codecs.key.RoundTrips key) (hc : c.Within codecs keys)
    (hreads : c.Reads) :
    ∃ kept, Kept run kept ∧ Answers kept c (diskRecords codecs slug c disk).1 := by
  cases c with
  | currentState key =>
      obtain ⟨kept, hkept, hlogged⟩ := h.states key hc
      refine ⟨kept, hkept, ?_⟩
      have hread := readLines_of_logged (roundTrips_of_mem_statesOf (hkept.within h.within)) hlogged
      exact congrArg (Except.map List.getLast?) hread
  | events key =>
      obtain ⟨kept, hkept, hlogged⟩ := h.events key hc
      refine ⟨kept, hkept, ?_⟩
      exact readLines_of_logged (roundTrips_of_mem_eventsOf (hkept.within h.within)) hlogged
  | currentSnapshot key =>
      obtain ⟨kept, hkept, hlookup⟩ := h.snapshots key hc
      refine ⟨kept, hkept, ?_⟩
      have hround : ∀ snapshot ∈ (snapshotsOf kept key).getLast?,
          codecs.snapshot.RoundTrips snapshot :=
        roundTrips_of_getLast?_snapshotsOf (hkept.within h.within)
      rw [Answers, diskRecords, hlookup]
      cases hlast : (snapshotsOf kept key).getLast? with
      | none => rfl
      | some snapshot =>
          have hread : fromSlice codecs.snapshot
              (utf8 (codecs.snapshot.encode snapshot).toList) = .ok snapshot :=
            fromSlice_utf8.trans (hround snapshot hlast).read
          exact congrArg (Except.map some) hread
  | keys =>
      obtain ⟨kept, hkept, hfiles⟩ := h.keyFiles
      have hround : ∀ key, key ∈ keysOf kept → codecs.key.RoundTrips key :=
        fun key hkey => hkeys key (mem_keys_of_mem_keysOf (hkept.within h.within) hkey)
      obtain ⟨found, hread, hfound⟩ := hfiles.readAll hround
      exact ⟨kept, hkept, found, (fromSlices_keyFiles hfiles hround).trans hread, hfound⟩
  | _ => exact hreads.elim

end Runs

/-- As long as no append leaves a part of a record or goes on in one, every reading after a run
succeeds and returns what the methods that completed recorded, in order, with or without each
method that was cut off. -/
theorem crash_tolerant (codecs : RecordCodecs) (stableHash : FraiseKey → UInt64)
    (keys : Set FraiseKey) (hslug : Set.InjOn (FraiseKey.slug stableHash) keys)
    (hkeys : ∀ key ∈ keys, codecs.key.RoundTrips key) (run : List Attempt)
    (hrun : ∀ attempt ∈ run, attempt.1.Within codecs keys)
    (hleaves : LeavesLines codecs (FraiseKey.slug stableHash) run) (c : StoreCall)
    (hc : c.Within codecs keys) (hreads : c.Reads) :
    ∃ kept, Kept run kept ∧ Answers kept c (diskRecords codecs (FraiseKey.slug stableHash) c
      (diskAfter codecs (FraiseKey.slug stableHash) run)).1 :=
  (disk_holds_after hslug hrun hleaves).answers hkeys hc hreads

/-- An event is cut off before its first byte, and another is recorded. -/
def sampleRun : List Attempt :=
  [(.recordEvent sampleKey sampleEvent, some ⟨0, some 0⟩),
    (.recordEvent sampleKey sampleEvent, none)]

theorem leavesLines_sampleRun {slug : FraiseKey → String} :
    LeavesLines sampleCodecs slug sampleRun := by
  have hnone : LeavesLines sampleCodecs slug [] := fun front attempt hfront =>
    absurd hfront.length_le (by simp)
  have hfirst : LeavesLines sampleCodecs slug
      [(.recordEvent sampleKey sampleEvent, some ⟨0, some 0⟩)] := by
    refine (@leavesLines_concat sampleCodecs slug [] _).mpr ⟨hnone, fun name written hmem hne => ?_⟩
    obtain ⟨-, hwritten⟩ := DiskFiles.Call.append.inj (List.mem_singleton.mp hmem)
    exact absurd hwritten hne
  refine (@leavesLines_concat sampleCodecs slug [_] _).mpr ⟨hfirst, fun name written hmem _ => ?_⟩
  obtain ⟨rfl, rfl⟩ := DiskFiles.Call.append.inj (List.mem_singleton.mp hmem)
  have hempty : (List.lookup (eventsPath slug sampleKey) (diskAfter sampleCodecs slug
      [(.recordEvent sampleKey sampleEvent, some ⟨0, some 0⟩)])).getD [] = [] := by
    simp [diskAfter, Attempt.after, DiskFiles.performed, StoreCall.writes, appendLine,
      DiskFiles.stopped, DiskFiles.Call.begun, DiskFiles.Call.apply]
  refine ⟨fun byte hbyte => ?_, _, List.mem_singleton_self _, Nat.le_succ _⟩
  rw [hempty] at hbyte
  cases hbyte

/-- The log of that run is read. -/
theorem crash_tolerant_sample :
    ∃ kept, Kept sampleRun kept ∧ Answers kept (.events sampleKey)
      (diskRecords sampleCodecs (FraiseKey.slug fun _ => 0x20a2539b218ed5f1) (.events sampleKey)
        (diskAfter sampleCodecs (FraiseKey.slug fun _ => 0x20a2539b218ed5f1) sampleRun)).1 := by
  have hevent : sampleCodecs.event.RoundTrips sampleEvent :=
    sampleCodec_roundTrips _ (by decide) (by decide) (by decide)
  have hkey : ∀ key ∈ ({sampleKey} : Set FraiseKey), sampleCodecs.key.RoundTrips key := by
    intro key hmem
    rw [Set.mem_singleton_iff.mp hmem]
    exact sampleCodec_roundTrips _ (by decide) (by decide) (by decide)
  refine crash_tolerant sampleCodecs (fun _ => 0x20a2539b218ed5f1) {sampleKey}
    (Set.injOn_singleton _ _) hkey sampleRun ?_ leavesLines_sampleRun (.events sampleKey) rfl
    trivial
  simp only [sampleRun, List.forall_mem_cons, List.not_mem_nil, false_imp_iff, implies_true,
    and_true]
  exact ⟨⟨rfl, hevent⟩, ⟨rfl, hevent⟩⟩

/-- Another text than the one a sample is encoded as is not decoded. -/
theorem decode_sampleCodec {α : Type} (a : α) {text other : String} (h : other ≠ text) :
    (sampleCodec a text).decode other = .error "expected value at line 1 column 1" :=
  if_neg h

/-- An event is recorded, another is cut off after five bytes, and a third is recorded. -/
def tornRun : List Attempt :=
  [(.recordEvent sampleKey sampleEvent, none),
    (.recordEvent sampleKey sampleEvent, some ⟨0, some 5⟩),
    (.recordEvent sampleKey sampleEvent, none)]

/-- What that run leaves of its log. -/
theorem tornRun_log {slug : FraiseKey → String} :
    (List.lookup (eventsPath slug sampleKey) (diskAfter sampleCodecs slug tornRun)).getD [] =
      utf8 (jsonlText sampleCodecs.event [sampleEvent] ++
        ("\x7b\"kin" ++ sampleCodecs.event.encode sampleEvent) ++ "\n" ++ "").toList := by
  have hfront : (utf8 (sampleCodecs.event.encode sampleEvent ++ "\n").toList).take 5 =
      utf8 "\x7b\"kin".toList := by decide
  simp only [tornRun, diskAfter, List.foldl_cons, List.foldl_nil, Attempt.after,
    DiskFiles.performed, StoreCall.writes, appendLine, DiskFiles.stopped, Option.bind_some,
    DiskFiles.Call.begun, hfront, Option.toList_some, DiskFiles.perform_cons,
    DiskFiles.perform_nil, DiskFiles.Call.apply]
  simp [jsonlText]

/-- The log of that run cannot be read. -/
theorem torn_append_loses_log :
    (∀ attempt ∈ tornRun, attempt.1.Within sampleCodecs {sampleKey}) ∧
    ¬ ∃ kept, Kept tornRun kept ∧ Answers kept (.events sampleKey)
      (diskRecords sampleCodecs (FraiseKey.slug fun _ => 0x20a2539b218ed5f1) (.events sampleKey)
        (diskAfter sampleCodecs (FraiseKey.slug fun _ => 0x20a2539b218ed5f1) tornRun)).1 := by
  have hevent : sampleCodecs.event.RoundTrips sampleEvent :=
    sampleCodec_roundTrips _ (by decide) (by decide) (by decide)
  refine ⟨?_, ?_⟩
  · simp only [tornRun, List.forall_mem_cons, List.not_mem_nil, false_imp_iff, implies_true,
      and_true]
    exact ⟨⟨rfl, hevent⟩, ⟨rfl, hevent⟩, ⟨rfl, hevent⟩⟩
  · rintro ⟨kept, -, hanswer⟩
    have htorn : "\x7b\"kin" ++ sampleCodecs.event.encode sampleEvent ≠
        sampleCodecs.event.encode sampleEvent := by
      intro heq
      have hlength := congrArg String.length heq
      rw [String.length_append] at hlength
      exact absurd hlength (by simp)
    have hdecode : sampleCodecs.event.decode
        ("\x7b\"kin" ++ sampleCodecs.event.encode sampleEvent) =
          .error "expected value at line 1 column 1" := decode_sampleCodec _ htorn
    have hblank : trim ("\x7b\"kin" ++ sampleCodecs.event.encode sampleEvent) ≠ "" := by decide
    have hread := readLines_torn (List.forall_mem_singleton.mpr hevent) (by decide) (by decide)
      hblank hdecode (@tornRun_log (FraiseKey.slug fun _ => 0x20a2539b218ed5f1))
    rw [diskRecords, hread] at hanswer
    cases hanswer

end Fraisier.Saga
