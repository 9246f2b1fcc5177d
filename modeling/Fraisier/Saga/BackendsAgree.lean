import Mathlib.Data.List.Nodup
import Mathlib.Data.Set.Function
import Fraisier.Data.Lines
import Fraisier.Effect.History
import Fraisier.Saga.Backends

/-!
# The three state stores agree

What a store answers is fixed by the calls before it: `Answers` says how. A backend whose
states represent the calls so far answers so (`Implements.run`); the maps, the files and the
tables each do, as long as the keys in use have distinct slugs. The main theorem is
`backends_agree`.
-/

namespace Fraisier.Saga

open Fraisier.Data Fraisier.Effect

/-! ## What a history of calls records -/

/-- The states recorded for a pair, in order. -/
def statesOf (past : List StoreCall) (key : FraiseKey) : List DeploymentState :=
  past.filterMap fun
    | .recordState other state => if other = key then some state else none
    | _ => none

/-- The events recorded for a pair, in order. -/
def eventsOf (past : List StoreCall) (key : FraiseKey) : List SagaEvent :=
  past.filterMap fun
    | .recordEvent other event => if other = key then some event else none
    | _ => none

/-- The snapshots recorded for a pair, in order. -/
def snapshotsOf (past : List StoreCall) (key : FraiseKey) : List Json :=
  past.filterMap fun
    | .recordSnapshot other snapshot => if other = key then some snapshot else none
    | _ => none

/-- The pairs for which a state or a snapshot was recorded. -/
def keysOf (past : List StoreCall) : List FraiseKey :=
  past.filterMap fun
    | .recordState key _ => some key
    | .recordSnapshot key _ => some key
    | _ => none

/-- What a call returns after the calls before it. -/
def Answers (past : List StoreCall) : (c : StoreCall) → Except StateStoreError c.Value → Prop
  | .currentState key, x => x = .ok (statesOf past key).getLast?
  | .events key, x => x = .ok (eventsOf past key)
  | .currentSnapshot key, x => x = .ok (snapshotsOf past key).getLast?
  | .keys, x => ∃ keys : List FraiseKey, x = .ok keys ∧ ∀ key, key ∈ keys ↔ key ∈ keysOf past
  | .recordState _ _, x => x = .ok ()
  | .recordEvent _ _, x => x = .ok ()
  | .recordSnapshot _ _, x => x = .ok ()
  | .acquireLock _, _ => True
  | .releaseLock _, _ => True

/-- A call on the records of pairs among `keys`, whose payload the encodings keep. -/
def StoreCall.Within (codecs : RecordCodecs) (keys : Set FraiseKey) : StoreCall → Prop
  | .currentState key => key ∈ keys
  | .events key => key ∈ keys
  | .currentSnapshot key => key ∈ keys
  | .keys => True
  | .recordState key state => key ∈ keys ∧ codecs.state.RoundTrips state
  | .recordEvent key event => key ∈ keys ∧ codecs.event.RoundTrips event
  | .recordSnapshot key snapshot => key ∈ keys ∧ codecs.snapshot.RoundTrips snapshot
  | .acquireLock _ => False
  | .releaseLock _ => False

/-- Two histories record the same. -/
structure SameRecords (past more : List StoreCall) : Prop where
  states : statesOf more = statesOf past
  events : eventsOf more = eventsOf past
  snapshots : snapshotsOf more = snapshotsOf past
  keys : keysOf more = keysOf past

/-- A call that records nothing. -/
def StoreCall.Reads : StoreCall → Prop
  | .currentState _ => True
  | .events _ => True
  | .currentSnapshot _ => True
  | .keys => True
  | _ => False

section Readings

variable {codecs : RecordCodecs} {keys : Set FraiseKey} {past : List StoreCall}
variable {key other : FraiseKey}

theorem statesOf_recordState {state : DeploymentState} :
    statesOf (past ++ [.recordState other state]) key =
      statesOf past key ++ if other = key then [state] else [] := by
  rw [statesOf, List.filterMap_append]
  by_cases h : other = key <;> simp [h, statesOf]

theorem eventsOf_recordEvent {event : SagaEvent} :
    eventsOf (past ++ [.recordEvent other event]) key =
      eventsOf past key ++ if other = key then [event] else [] := by
  rw [eventsOf, List.filterMap_append]
  by_cases h : other = key <;> simp [h, eventsOf]

/-- The last of the snapshots after one more. -/
theorem getLast?_snapshotsOf_recordSnapshot {snapshot : Json} :
    (snapshotsOf (past ++ [.recordSnapshot other snapshot]) key).getLast? =
      if other = key then some snapshot else (snapshotsOf past key).getLast? := by
  rw [snapshotsOf, List.filterMap_append]
  by_cases h : other = key <;> simp [h, snapshotsOf]

theorem mem_keysOf_recordState {state : DeploymentState} :
    key ∈ keysOf (past ++ [.recordState other state]) ↔ key = other ∨ key ∈ keysOf past := by
  simp [keysOf, List.filterMap_append, or_comm]

theorem mem_keysOf_recordSnapshot {snapshot : Json} :
    key ∈ keysOf (past ++ [.recordSnapshot other snapshot]) ↔ key = other ∨ key ∈ keysOf past := by
  simp [keysOf, List.filterMap_append, or_comm]

theorem sameRecords_of_reads {c : StoreCall} (hc : c.Reads) :
    SameRecords past (past ++ [c]) := by
  cases c with
  | currentState | events | currentSnapshot | keys =>
      constructor <;> (try funext k) <;> simp [statesOf, eventsOf, snapshotsOf, keysOf]
  | _ => exact hc.elim

variable (hpast : ∀ c ∈ past, c.Within codecs keys)
include hpast

theorem roundTrips_of_mem_statesOf :
    ∀ state ∈ statesOf past key, codecs.state.RoundTrips state := by
  intro state hstate
  obtain ⟨c, hc, hsome⟩ := List.mem_filterMap.mp hstate
  cases c with
  | recordState k s =>
      have heq : k = key ∧ s = state := by simpa using hsome
      exact heq.2 ▸ (hpast _ hc).2
  | _ => cases hsome

theorem roundTrips_of_mem_eventsOf :
    ∀ event ∈ eventsOf past key, codecs.event.RoundTrips event := by
  intro event hevent
  obtain ⟨c, hc, hsome⟩ := List.mem_filterMap.mp hevent
  cases c with
  | recordEvent k e =>
      have heq : k = key ∧ e = event := by simpa using hsome
      exact heq.2 ▸ (hpast _ hc).2
  | _ => cases hsome

theorem roundTrips_of_getLast?_snapshotsOf :
    ∀ snapshot ∈ (snapshotsOf past key).getLast?, codecs.snapshot.RoundTrips snapshot := by
  intro snapshot hsnapshot
  obtain ⟨c, hc, hsome⟩ := List.mem_filterMap.mp (List.mem_of_getLast? hsnapshot)
  cases c with
  | recordSnapshot k v =>
      have heq : k = key ∧ v = snapshot := by simpa using hsome
      exact heq.2 ▸ (hpast _ hc).2
  | _ => cases hsome

theorem mem_keys_of_mem_keysOf (hkey : key ∈ keysOf past) : key ∈ keys := by
  obtain ⟨c, hc, hsome⟩ := List.mem_filterMap.mp hkey
  cases c with
  | recordState k s => exact Option.some.inj hsome ▸ (hpast _ hc).1
  | recordSnapshot k v => exact Option.some.inj hsome ▸ (hpast _ hc).1
  | _ => cases hsome

end Readings

/-! ## Memory -/

section Memory

variable {slug : FraiseKey → String} {codecs : RecordCodecs} {keys : Set FraiseKey}
variable {past : List StoreCall} {s : MemoryInner}

/-- The maps hold what the calls recorded for the pairs in use. -/
structure MemoryInner.Represents (slug : FraiseKey → String) (keys : Set FraiseKey)
    (past : List StoreCall) (s : MemoryInner) : Prop where
  states : ∀ key ∈ keys, s.states (slug key) = statesOf past key
  events : ∀ key ∈ keys, s.events (slug key) = eventsOf past key
  snapshots : ∀ key ∈ keys, s.snapshots (slug key) = (snapshotsOf past key).getLast?
  known : ∀ key, key ∈ s.keys.map Prod.snd ↔ key ∈ keysOf past
  slugs : ∀ e ∈ s.keys, e.1 = slug e.2 ∧ e.2 ∈ keys

theorem MemoryInner.represents_empty : MemoryInner.empty.Represents slug keys [] :=
  ⟨fun _ _ => rfl, fun _ _ => rfl, fun _ _ => rfl, fun _ => Iff.rfl, fun _ he => by cases he⟩

/-- The keys after one more was remembered. -/
theorem MemoryInner.Represents.mem_rememberKey (h : s.Represents slug keys past)
    (hslug : Set.InjOn slug keys) {key : FraiseKey} (hkey : key ∈ keys) (k : FraiseKey) :
    k ∈ (s.rememberKey (slug key) key).keys.map Prod.snd ↔ k = key ∨ k ∈ keysOf past := by
  rw [← h.known]
  simp only [MemoryInner.rememberKey, List.mem_map, mem_insertEntry]
  constructor
  · intro hmem
    obtain ⟨e, rfl | ⟨he, -⟩, rfl⟩ := hmem
    · exact .inl rfl
    · exact .inr ⟨e, he, rfl⟩
  · intro hmem
    obtain rfl | ⟨e, he, rfl⟩ := hmem
    · exact ⟨_, .inl rfl, rfl⟩
    · obtain ⟨hfirst, hin⟩ := h.slugs e he
      by_cases hsame : e.1 = slug key
      · -- An entry under the same slug is one of the same pair.
        have heq : e.2 = key := hslug hin hkey (hfirst.symm.trans hsame)
        exact ⟨_, .inl rfl, heq.symm⟩
      · exact ⟨e, .inr ⟨he, hsame⟩, rfl⟩

theorem MemoryInner.Represents.slugs_rememberKey (h : s.Represents slug keys past)
    {key : FraiseKey} (hkey : key ∈ keys) :
    ∀ e ∈ (s.rememberKey (slug key) key).keys, e.1 = slug e.2 ∧ e.2 ∈ keys := by
  intro e he
  obtain rfl | ⟨he, -⟩ := mem_insertEntry.mp he
  · exact ⟨rfl, hkey⟩
  · exact h.slugs e he

/-- What is kept under the slug of a pair changes only by calls for that pair. -/
theorem update_slug {α : Type} {f : String → α} {g : FraiseKey → α} {a : α}
    (hslug : Set.InjOn slug keys) (hf : ∀ key ∈ keys, f (slug key) = g key) {key : FraiseKey}
    (hkey : key ∈ keys) :
    ∀ other ∈ keys, Function.update f (slug key) a (slug other) =
      if key = other then a else g other := by
  intro other hother
  by_cases heq : key = other
  · subst heq
    simp
  · have hne : slug other ≠ slug key := fun h => heq (hslug hkey hother h.symm)
    rw [Function.update_of_ne hne, if_neg heq, hf other hother]

theorem MemoryInner.Represents.recordState (h : s.Represents slug keys past)
    (hslug : Set.InjOn slug keys) {key : FraiseKey} (hkey : key ∈ keys)
    (state : DeploymentState) :
    (memoryRecords slug (.recordState key state) s).2.Represents slug keys
      (past ++ [.recordState key state]) where
  states other hother := by
    refine (update_slug hslug h.states hkey other hother).trans ?_
    rw [statesOf_recordState]
    by_cases heq : key = other
    · subst heq
      simp [h.states key hkey, MemoryInner.rememberKey]
    · simp [heq]
  events other hother := by
    simpa [eventsOf, MemoryInner.rememberKey, memoryRecords] using h.events other hother
  snapshots other hother := by
    simpa [snapshotsOf, MemoryInner.rememberKey, memoryRecords] using h.snapshots other hother
  known k := by
    rw [mem_keysOf_recordState]
    exact h.mem_rememberKey hslug hkey k
  slugs := h.slugs_rememberKey hkey

theorem MemoryInner.Represents.recordEvent (h : s.Represents slug keys past)
    (hslug : Set.InjOn slug keys) {key : FraiseKey} (hkey : key ∈ keys) (event : SagaEvent) :
    (memoryRecords slug (.recordEvent key event) s).2.Represents slug keys
      (past ++ [.recordEvent key event]) where
  states other hother := by simpa [statesOf, memoryRecords] using h.states other hother
  events other hother := by
    refine (update_slug hslug h.events hkey other hother).trans ?_
    rw [eventsOf_recordEvent]
    by_cases heq : key = other
    · subst heq
      simp [h.events key hkey]
    · simp [heq]
  snapshots other hother := by simpa [snapshotsOf, memoryRecords] using h.snapshots other hother
  known k := by simpa [keysOf, memoryRecords] using h.known k
  slugs := h.slugs

theorem MemoryInner.Represents.recordSnapshot (h : s.Represents slug keys past)
    (hslug : Set.InjOn slug keys) {key : FraiseKey} (hkey : key ∈ keys) (snapshot : Json) :
    (memoryRecords slug (.recordSnapshot key snapshot) s).2.Represents slug keys
      (past ++ [.recordSnapshot key snapshot]) where
  states other hother := by
    simpa [statesOf, MemoryInner.rememberKey, memoryRecords] using h.states other hother
  events other hother := by
    simpa [eventsOf, MemoryInner.rememberKey, memoryRecords] using h.events other hother
  snapshots other hother := by
    rw [getLast?_snapshotsOf_recordSnapshot]
    exact update_slug hslug h.snapshots hkey other hother
  known k := by
    rw [mem_keysOf_recordSnapshot]
    exact h.mem_rememberKey hslug hkey k
  slugs := h.slugs_rememberKey hkey

/-- The maps represent every history that records the same. -/
theorem MemoryInner.Represents.congr (h : s.Represents slug keys past) {more : List StoreCall}
    (hsame : SameRecords past more) : s.Represents slug keys more where
  states := hsame.states ▸ h.states
  events := hsame.events ▸ h.events
  snapshots := hsame.snapshots ▸ h.snapshots
  known := hsame.keys ▸ h.known
  slugs := h.slugs

theorem memoryRecords_implements (hslug : Set.InjOn slug keys) :
    Handler.Implements (memoryRecords slug) (StoreCall.Within codecs keys) Answers
      (MemoryInner.Represents slug keys) where
  answers past c s h hc := by
    cases c with
    | currentState key => exact congrArg (fun l => Except.ok (List.getLast? l)) (h.states key hc)
    | events key => exact congrArg Except.ok (h.events key hc)
    | currentSnapshot key => exact congrArg Except.ok (h.snapshots key hc)
    | keys => exact ⟨_, rfl, h.known⟩
    | recordState key state => rfl
    | recordEvent key event => rfl
    | recordSnapshot key snapshot => rfl
    | acquireLock key => trivial
    | releaseLock guard => trivial
  represents past c s h hc := by
    cases c with
    | recordState key state => exact h.recordState hslug hc.1 state
    | recordEvent key event => exact h.recordEvent hslug hc.1 event
    | recordSnapshot key snapshot => exact h.recordSnapshot hslug hc.1 snapshot
    | currentState key => exact h.congr (sameRecords_of_reads trivial)
    | events key => exact h.congr (sameRecords_of_reads trivial)
    | currentSnapshot key => exact h.congr (sameRecords_of_reads trivial)
    | keys => exact h.congr (sameRecords_of_reads trivial)
    | acquireLock key => exact hc.elim
    | releaseLock guard => exact hc.elim

end Memory

/-! ## Files -/

section Names

/-- A name that ends in `s` is none that ends in `t`, if neither ends in the other. -/
theorem append_ne_append {s t : String} (hst : ¬ s.toList <:+ t.toList)
    (hts : ¬ t.toList <:+ s.toList) (a b : String) : a ++ s ≠ b ++ t := by
  intro heq
  have hlists : a.toList ++ s.toList = b.toList ++ t.toList := by
    simpa using congrArg String.toList heq
  obtain ⟨u, -, hu⟩ | ⟨u, -, hu⟩ := List.append_eq_append_iff.mp hlists
  · exact hts ⟨u, hu.symm⟩
  · exact hst ⟨u, hu.symm⟩

/-- A long name is no key file, whatever stands before it. -/
theorem isKeyFile_append {s : String} (hs : ¬ ".key.json".toList <:+ s.toList)
    (hlength : ".key.json".toList.length ≤ s.toList.length) (a : String) :
    isKeyFile (a ++ s) = false := by
  rw [isKeyFile, Bool.eq_false_iff]
  intro hsuffix
  have hends : ".key.json".toList <:+ a.toList ++ s.toList := by
    simpa using List.isSuffixOf_iff_suffix.mp hsuffix
  exact hs (List.suffix_of_suffix_length_le hends (List.suffix_append _ _) hlength)

theorem isKeyFile_keyPath (slug : FraiseKey → String) (key : FraiseKey) :
    isKeyFile (keyPath slug key) = true := by
  refine List.isSuffixOf_iff_suffix.mpr ?_
  simp [keyPath]

/-- A new extension stands in the place of the last one. -/
theorem withExtension_append {old : String} (hold : '.' ∉ old.toList) (base new : String) :
    withExtension (base ++ "." ++ old) new = base ++ "." ++ new := by
  have hall : ∀ c ∈ old.toList.reverse, decide (c ≠ '.') = true := by
    intro c hc
    have hne : c ≠ '.' := fun h => hold (h ▸ List.mem_reverse.mp hc)
    simpa using hne
  rw [withExtension]
  simp only [String.toList_append, List.reverse_append, List.append_assoc]
  rw [List.dropWhile_append_of_pos hall]
  simp

end Names

section Lines

variable {α : Type} {codec : JsonCodec α} {as : List α}

/-- The text of a file with one value on each line. -/
def jsonlText (codec : JsonCodec α) (as : List α) : String :=
  String.ofList (as.flatMap fun a => (codec.encode a).toList ++ ['\n'])

theorem jsonlText_append (codec : JsonCodec α) (as : List α) (a : α) :
    jsonlText codec (as ++ [a]) = jsonlText codec as ++ codec.encode a ++ "\n" := by
  rw [← String.toList_inj]
  simp [jsonlText]

/-- The lines of a log are read in front of the others. -/
theorem linesFrom_jsonlText (has : ∀ b ∈ as, codec.RoundTrips b) (rest : List Char) :
    linesFrom [] ((jsonlText codec as).toList ++ rest) =
      as.map codec.encode ++ linesFrom [] rest := by
  have hnewline : ∀ line ∈ as.map codec.encode, '\n' ∉ line.toList := by
    intro line hline
    obtain ⟨b, hb, rfl⟩ := List.mem_map.mp hline
    exact (has b hb).oneLine
  have hflat : (as.flatMap fun b => (codec.encode b).toList ++ ['\n']) =
      (as.map codec.encode).flatMap fun line => line.toList ++ ['\n'] := by
    rw [List.flatMap_map]
  rw [jsonlText, String.toList_ofList, hflat, linesFrom_flatMap_append hnewline, List.map_map]
  congr 1
  exact List.map_congr_left fun b hb => withoutReturn_of_not_mem (has b hb).noReturn

/-- The lines of a file with one value on each line. -/
theorem lines_jsonlText (has : ∀ a ∈ as, codec.RoundTrips a) :
    lines (jsonlText codec as) = as.map codec.encode := by
  have hread := linesFrom_jsonlText has []
  rwa [List.append_nil, linesFrom, List.isEmpty_nil, if_pos rfl, List.append_nil] at hread

/-- No line that is an encoding is blank. -/
theorem filter_encodings (has : ∀ b ∈ as, codec.RoundTrips b) :
    (as.map codec.encode).filter (fun line => trim line ≠ "") = as.map codec.encode := by
  refine List.filter_eq_self.mpr fun line hline => ?_
  obtain ⟨b, hb, rfl⟩ := List.mem_map.mp hline
  simpa using (has b hb).notBlank

/-- Lines that are encodings are decoded. -/
theorem readAll_lines {content : String} (has : ∀ b ∈ as, codec.RoundTrips b)
    (h : lines content = as.map codec.encode) :
    codec.readAll ((lines content).filter fun line => trim line ≠ "") = .ok as := by
  rw [h, filter_encodings has, JsonCodec.readAll_encode has]

/-- A file with one value on each line is read back, also when it is empty and missing. -/
theorem readJsonl_jsonlText (has : ∀ a ∈ as, codec.RoundTrips a) {dir : Directory} {path : String}
    (hfile : (dir.lookup path).getD "" = jsonlText codec as) :
    readJsonl codec dir path = .ok as := by
  have hread : readJsonl codec dir path =
      codec.readAll ((lines ((dir.lookup path).getD "")).filter fun line => trim line ≠ "") := by
    rw [readJsonl]
    cases dir.lookup path <;> rfl
  rw [hread, hfile, readAll_lines has (lines_jsonlText has)]

end Lines

section Atomic

variable {dir : Directory} {path content : String}

/-- The temporary name of a JSON file. -/
theorem withExtension_json (base : String) :
    withExtension (base ++ ".json") "json.tmp" = base ++ ".json.tmp" := by
  have hname : base ++ ".json" = base ++ "." ++ "json" := by rw [String.append_assoc]; rfl
  rw [hname, withExtension_append (by decide), String.append_assoc]
  rfl

theorem withExtension_keyPath (slug : FraiseKey → String) (key : FraiseKey) :
    withExtension (keyPath slug key) "json.tmp" = slug key ++ ".key.json.tmp" := by
  have hname : keyPath slug key = slug key ++ ".key" ++ ".json" := by
    rw [keyPath, String.append_assoc]
    rfl
  rw [hname, withExtension_json, String.append_assoc]
  rfl

theorem withExtension_snapshotPath (slug : FraiseKey → String) (key : FraiseKey) :
    withExtension (snapshotPath slug key) "json.tmp" = slug key ++ ".snapshot.json.tmp" := by
  have hname : snapshotPath slug key = slug key ++ ".snapshot" ++ ".json" := by
    rw [snapshotPath, String.append_assoc]
    rfl
  rw [hname, withExtension_json, String.append_assoc]
  rfl

/-- The file is written and its temporary one is gone. -/
theorem writeJsonAtomic_eq :
    writeJsonAtomic dir path content =
      insertEntry (dir.filter fun e => e.1 != withExtension path "json.tmp") path content := by
  rw [writeJsonAtomic, rename, lookup_insertEntry_self]
  simp [insertEntry, List.filter_filter]

theorem lookup_writeJsonAtomic_ne {name : String} (hpath : name ≠ path)
    (htmp : name ≠ withExtension path "json.tmp") :
    (writeJsonAtomic dir path content).lookup name = dir.lookup name := by
  rw [writeJsonAtomic_eq, lookup_insertEntry_ne _ _ hpath, lookup_filter_ne _ htmp]

/-- Recording the names of a pair leaves every other file. -/
theorem lookup_ensureKeyRecorded {codecs : RecordCodecs} {slug : FraiseKey → String}
    {key : FraiseKey} {name : String} (hpath : name ≠ keyPath slug key)
    (htmp : name ≠ slug key ++ ".key.json.tmp") :
    (ensureKeyRecorded codecs slug dir key).lookup name = dir.lookup name := by
  rw [ensureKeyRecorded]
  by_cases hsome : (dir.lookup (keyPath slug key)).isSome = true
  · rw [if_pos hsome]
  · rw [← withExtension_keyPath] at htmp
    rw [if_neg hsome, lookup_writeJsonAtomic_ne hpath htmp]

end Atomic

/-- The key files of a directory are those of the pairs with `P`. -/
structure KeyFiles (codecs : RecordCodecs) (slug : FraiseKey → String) (P : FraiseKey → Prop)
    (dir : Directory) : Prop where
  known : ∀ key, P key → (keyPath slug key, codecs.key.encode key) ∈ dir
  named : ∀ e ∈ dir, isKeyFile e.1 = true →
    ∃ key, P key ∧ e = (keyPath slug key, codecs.key.encode key)

namespace KeyFiles

variable {codecs : RecordCodecs} {slug : FraiseKey → String} {P Q : FraiseKey → Prop}
variable {dir : Directory} {name content : String}

theorem congr (h : KeyFiles codecs slug P dir) (hPQ : ∀ key, Q key ↔ P key) :
    KeyFiles codecs slug Q dir := by
  have heq : Q = P := funext fun key => propext (hPQ key)
  exact heq ▸ h

/-- Other files may go. -/
theorem filter (h : KeyFiles codecs slug P dir) (hname : isKeyFile name = false) :
    KeyFiles codecs slug P (dir.filter fun e => e.1 != name) where
  known key hkey := by
    have hne : keyPath slug key ≠ name := by
      intro heq
      rw [← heq, isKeyFile_keyPath] at hname
      cases hname
    exact List.mem_filter.mpr ⟨h.known key hkey, by simpa using hne⟩
  named e he := h.named e (List.mem_of_mem_filter he)

/-- Other files may be written. -/
theorem insertEntry (h : KeyFiles codecs slug P dir) (hname : isKeyFile name = false) :
    KeyFiles codecs slug P (insertEntry dir name content) where
  known key hkey := List.mem_cons_of_mem _ ((h.filter hname).known key hkey)
  named e he hkey := by
    obtain rfl | he := List.mem_cons.mp he
    · rw [hname] at hkey
      cases hkey
    · exact (h.filter hname).named e he hkey

/-- The key file of one more pair may be written. -/
theorem insertKey (h : KeyFiles codecs slug P dir) (key : FraiseKey) :
    KeyFiles codecs slug (fun k => k = key ∨ P k ∧ keyPath slug k ≠ keyPath slug key)
      (Data.insertEntry dir (keyPath slug key) (codecs.key.encode key)) where
  known k hk := by
    rw [mem_insertEntry]
    obtain rfl | ⟨hk, hne⟩ := hk
    · exact .inl rfl
    · exact .inr ⟨h.known k hk, hne⟩
  named e he hname := by
    obtain rfl | ⟨he, hne⟩ := mem_insertEntry.mp he
    · exact ⟨key, .inl rfl, rfl⟩
    · obtain ⟨k, hk, rfl⟩ := h.named e he hname
      exact ⟨k, .inr ⟨hk, hne⟩, rfl⟩

/-- The key file of a pair is there exactly when the pair has `P`. -/
theorem isSome_lookup (h : KeyFiles codecs slug P dir) {key : FraiseKey}
    (hslug : ∀ k, P k → slug k = slug key → k = key) :
    (dir.lookup (keyPath slug key)).isSome = true ↔ P key := by
  constructor
  · intro hsome
    obtain ⟨content, hcontent⟩ := Option.isSome_iff_exists.mp hsome
    obtain ⟨k, hk, heq⟩ := h.named _ (mem_of_lookup_eq_some hcontent) (isKeyFile_keyPath slug key)
    have hsame : slug key = slug k := String.append_left_inj _ |>.mp (congrArg Prod.fst heq)
    exact hslug k hk hsame.symm ▸ hk
  · intro hkey
    by_contra hnone
    have hlookup : dir.lookup (keyPath slug key) = none := Option.not_isSome_iff_eq_none.mp hnone
    have hfound := List.lookup_eq_none_iff.mp hlookup _ (h.known key hkey)
    simp at hfound

/-- The names of a pair are recorded once. -/
theorem ensureKeyRecorded (h : KeyFiles codecs slug P dir) {key : FraiseKey}
    (hslug : ∀ k, P k → slug k = slug key → k = key) :
    KeyFiles codecs slug (fun k => k = key ∨ P k) (ensureKeyRecorded codecs slug dir key) := by
  rw [Saga.ensureKeyRecorded]
  by_cases hsome : (dir.lookup (keyPath slug key)).isSome = true
  · simp only [hsome, if_true]
    have hkey : P key := (h.isSome_lookup hslug).mp hsome
    refine h.congr fun k => ⟨?_, .inr⟩
    intro hk
    exact hk.elim (fun heq => heq ▸ hkey) id
  · have htmp : isKeyFile (withExtension (keyPath slug key) "json.tmp") = false := by
      rw [withExtension_keyPath]
      exact isKeyFile_append (by decide) (by decide) _
    simp only [hsome, writeJsonAtomic_eq]
    refine ((h.filter htmp).insertKey key).congr fun k => ?_
    constructor
    · intro hk
      by_cases heq : k = key
      · exact .inl heq
      · refine .inr ⟨hk.resolve_left heq, fun hpath => heq ?_⟩
        exact hslug k (hk.resolve_left heq) (String.append_left_inj _ |>.mp hpath)
    · exact Or.imp_right And.left

/-- The key files are read back. -/
theorem readAll (h : KeyFiles codecs slug P dir)
    (hround : ∀ key, P key → codecs.key.RoundTrips key) :
    ∃ found, codecs.key.readAll ((dir.filter fun e => isKeyFile e.1).map Prod.snd) = .ok found ∧
      ∀ key, key ∈ found ↔ P key := by
  have htexts : ∀ text ∈ (dir.filter fun e => isKeyFile e.1).map Prod.snd,
      ∃ key, P key ∧ codecs.key.RoundTrips key ∧ text = codecs.key.encode key := by
    intro text htext
    obtain ⟨e, he, rfl⟩ := List.mem_map.mp htext
    obtain ⟨hmem, hname⟩ := List.mem_filter.mp he
    obtain ⟨key, hkey, rfl⟩ := h.named e hmem hname
    exact ⟨key, hkey, hround key hkey, rfl⟩
  obtain ⟨found, hread, hfound, hall⟩ := JsonCodec.readAll_of_forall htexts
  refine ⟨found, hread, fun key => ⟨hfound key, fun hkey => hall key (hround key hkey) ?_⟩⟩
  exact List.mem_map.mpr ⟨_, List.mem_filter.mpr
    ⟨h.known key hkey, isKeyFile_keyPath slug key⟩, rfl⟩

end KeyFiles

section Files

variable {slug : FraiseKey → String} {codecs : RecordCodecs} {keys : Set FraiseKey}
variable {past : List StoreCall} {dir : Directory}

/-- The files hold what the calls recorded for the pairs in use. -/
structure Directory.Represents (codecs : RecordCodecs) (slug : FraiseKey → String)
    (keys : Set FraiseKey) (past : List StoreCall) (dir : Directory) : Prop where
  within : ∀ c ∈ past, c.Within codecs keys
  states : ∀ key ∈ keys, (dir.lookup (statePath slug key)).getD "" =
    jsonlText codecs.state (statesOf past key)
  events : ∀ key ∈ keys, (dir.lookup (eventsPath slug key)).getD "" =
    jsonlText codecs.event (eventsOf past key)
  snapshots : ∀ key ∈ keys, dir.lookup (snapshotPath slug key) =
    (snapshotsOf past key).getLast?.map codecs.snapshot.encode
  keyFiles : KeyFiles codecs slug (fun key => key ∈ keysOf past) dir

theorem Directory.represents_empty : Directory.Represents codecs slug keys [] [] where
  within c hc := by cases hc
  states key _ := rfl
  events key _ := rfl
  snapshots key _ := rfl
  keyFiles := ⟨fun _ hkey => (List.not_mem_nil hkey).elim, fun _ he => (List.not_mem_nil he).elim⟩

/-- A path that starts with the slug is one of the same pair. -/
theorem slug_ne (hslug : Set.InjOn slug keys) {key other : FraiseKey} (hkey : key ∈ keys)
    (hother : other ∈ keys) (hne : key ≠ other) (suffix : String) :
    slug other ++ suffix ≠ slug key ++ suffix := by
  intro heq
  exact hne (hslug hkey hother (String.append_left_inj _ |>.mp heq).symm)

/-- A line is appended to the file of one pair. -/
theorem getD_lookup_appendJsonl {α : Type} {codec : JsonCodec α} {suffix : String}
    {f : FraiseKey → List α} {a : α} (hslug : Set.InjOn slug keys)
    (hf : ∀ key ∈ keys, (dir.lookup (slug key ++ suffix)).getD "" = jsonlText codec (f key))
    {key : FraiseKey} (hkey : key ∈ keys) :
    ∀ other ∈ keys,
      ((appendJsonl dir (slug key ++ suffix) (codec.encode a)).lookup (slug other ++ suffix)).getD
        "" = jsonlText codec (f other ++ if key = other then [a] else []) := by
  intro other hother
  rw [appendJsonl]
  by_cases heq : key = other
  · subst heq
    rw [lookup_insertEntry_self, if_pos rfl, jsonlText_append, ← hf key hkey]
    rfl
  · rw [lookup_insertEntry_ne _ _ (slug_ne hslug hkey hother heq suffix), if_neg heq,
      List.append_nil]
    exact hf other hother

/-- The files represent every history that records the same. -/
theorem Directory.Represents.congr (h : dir.Represents codecs slug keys past)
    {more : List StoreCall} (hmore : ∀ c ∈ more, c.Within codecs keys)
    (hsame : SameRecords past more) : dir.Represents codecs slug keys more where
  within := hmore
  states := hsame.states ▸ h.states
  events := hsame.events ▸ h.events
  snapshots := hsame.snapshots ▸ h.snapshots
  keyFiles := hsame.keys ▸ h.keyFiles

/-- The key files are read back as the pairs in use. -/
theorem Directory.Represents.answers_keys (h : dir.Represents codecs slug keys past)
    (hkeys : ∀ key ∈ keys, codecs.key.RoundTrips key) :
    Answers past .keys (fileRecords codecs slug .keys dir).1 :=
  h.keyFiles.readAll fun key hkey => hkeys key (mem_keys_of_mem_keysOf h.within hkey)

theorem fileRecords_recordSnapshot (key : FraiseKey) (snapshot : Json) :
    (fileRecords codecs slug (.recordSnapshot key snapshot) dir).2 =
      writeJsonAtomic (ensureKeyRecorded codecs slug dir key) (snapshotPath slug key)
        (codecs.snapshot.encode snapshot) := rfl

/-- Writing a snapshot leaves the lines of every pair. -/
theorem lookup_recordSnapshot_ne {key : FraiseKey} {snapshot : Json} {a s : String}
    (hs : ∀ t ∈ [".key.json", ".key.json.tmp", ".snapshot.json", ".snapshot.json.tmp"],
      ¬ s.toList <:+ t.toList ∧ ¬ t.toList <:+ s.toList) :
    (fileRecords codecs slug (.recordSnapshot key snapshot) dir).2.lookup (a ++ s) =
      dir.lookup (a ++ s) := by
  have hne : ∀ t ∈ [".key.json", ".key.json.tmp", ".snapshot.json", ".snapshot.json.tmp"],
      a ++ s ≠ slug key ++ t := fun t ht => append_ne_append (hs t ht).1 (hs t ht).2 _ _
  have htmp := hne ".snapshot.json.tmp" (by simp)
  rw [← withExtension_snapshotPath] at htmp
  have hpath : a ++ s ≠ snapshotPath slug key := hne ".snapshot.json" (by simp)
  rw [fileRecords_recordSnapshot, lookup_writeJsonAtomic_ne hpath htmp]
  exact lookup_ensureKeyRecorded (hne ".key.json" (by simp)) (hne ".key.json.tmp" (by simp))

variable (hslug : Set.InjOn slug keys)
include hslug

theorem Directory.Represents.ensureKeyRecorded (h : dir.Represents codecs slug keys past)
    {key : FraiseKey} (hkey : key ∈ keys) :
    KeyFiles codecs slug (fun k => k = key ∨ k ∈ keysOf past)
      (ensureKeyRecorded codecs slug dir key) := by
  refine h.keyFiles.ensureKeyRecorded ?_
  intro k hk heq
  exact hslug (mem_keys_of_mem_keysOf h.within hk) hkey heq

theorem Directory.Represents.recordState (h : dir.Represents codecs slug keys past)
    {key : FraiseKey} {state : DeploymentState}
    (hc : (StoreCall.recordState key state).Within codecs keys) :
    Directory.Represents codecs slug keys (past ++ [.recordState key state])
      (fileRecords codecs slug (.recordState key state) dir).2 where
  within := List.forall_mem_append.mpr ⟨h.within, List.forall_mem_singleton.mpr hc⟩
  states other hother := by
    rw [statesOf_recordState]
    refine getD_lookup_appendJsonl hslug (fun k hk => ?_) hc.1 other hother
    rw [lookup_ensureKeyRecorded (append_ne_append (by decide) (by decide) _ _)
      (append_ne_append (by decide) (by decide) _ _)]
    exact h.states k hk
  events other hother := by
    have hlookup : (fileRecords codecs slug (.recordState key state) dir).2.lookup
        (eventsPath slug other) = dir.lookup (eventsPath slug other) :=
      (lookup_insertEntry_ne _ _ (append_ne_append (by decide) (by decide) _ _)).trans
        (lookup_ensureKeyRecorded (append_ne_append (by decide) (by decide) _ _)
          (append_ne_append (by decide) (by decide) _ _))
    simpa [hlookup, eventsOf] using h.events other hother
  snapshots other hother := by
    have hlookup : (fileRecords codecs slug (.recordState key state) dir).2.lookup
        (snapshotPath slug other) = dir.lookup (snapshotPath slug other) :=
      (lookup_insertEntry_ne _ _ (append_ne_append (by decide) (by decide) _ _)).trans
        (lookup_ensureKeyRecorded (append_ne_append (by decide) (by decide) _ _)
          (append_ne_append (by decide) (by decide) _ _))
    simpa [hlookup, snapshotsOf] using h.snapshots other hother
  keyFiles := by
    refine ((h.ensureKeyRecorded hslug hc.1).insertEntry ?_).congr fun k => mem_keysOf_recordState
    exact isKeyFile_append (by decide) (by decide) _

theorem Directory.Represents.recordEvent (h : dir.Represents codecs slug keys past)
    {key : FraiseKey} {event : SagaEvent}
    (hc : (StoreCall.recordEvent key event).Within codecs keys) :
    Directory.Represents codecs slug keys (past ++ [.recordEvent key event])
      (fileRecords codecs slug (.recordEvent key event) dir).2 where
  within := List.forall_mem_append.mpr ⟨h.within, List.forall_mem_singleton.mpr hc⟩
  states other hother := by
    have hlookup : (fileRecords codecs slug (.recordEvent key event) dir).2.lookup
        (statePath slug other) = dir.lookup (statePath slug other) :=
      lookup_insertEntry_ne _ _ (append_ne_append (by decide) (by decide) _ _)
    simpa [hlookup, statesOf] using h.states other hother
  events other hother := by
    rw [eventsOf_recordEvent]
    exact getD_lookup_appendJsonl hslug h.events hc.1 other hother
  snapshots other hother := by
    have hlookup : (fileRecords codecs slug (.recordEvent key event) dir).2.lookup
        (snapshotPath slug other) = dir.lookup (snapshotPath slug other) :=
      lookup_insertEntry_ne _ _ (append_ne_append (by decide) (by decide) _ _)
    simpa [hlookup, snapshotsOf] using h.snapshots other hother
  keyFiles := by
    refine (h.keyFiles.insertEntry ?_).congr fun k => by simp [keysOf]
    exact isKeyFile_append (by decide) (by decide) _

theorem Directory.Represents.recordSnapshot (h : dir.Represents codecs slug keys past)
    {key : FraiseKey} {snapshot : Json}
    (hc : (StoreCall.recordSnapshot key snapshot).Within codecs keys) :
    Directory.Represents codecs slug keys (past ++ [.recordSnapshot key snapshot])
      (fileRecords codecs slug (.recordSnapshot key snapshot) dir).2 where
  within := List.forall_mem_append.mpr ⟨h.within, List.forall_mem_singleton.mpr hc⟩
  states other hother := by
    have hlookup : (fileRecords codecs slug (.recordSnapshot key snapshot) dir).2.lookup
        (statePath slug other) = dir.lookup (statePath slug other) :=
      lookup_recordSnapshot_ne (by decide)
    simpa [hlookup, statesOf] using h.states other hother
  events other hother := by
    have hlookup : (fileRecords codecs slug (.recordSnapshot key snapshot) dir).2.lookup
        (eventsPath slug other) = dir.lookup (eventsPath slug other) :=
      lookup_recordSnapshot_ne (by decide)
    simpa [hlookup, eventsOf] using h.events other hother
  snapshots other hother := by
    rw [getLast?_snapshotsOf_recordSnapshot, fileRecords_recordSnapshot]
    by_cases heq : key = other
    · subst heq
      rw [if_pos rfl, writeJsonAtomic_eq, lookup_insertEntry_self]
      rfl
    · rw [if_neg heq, ← h.snapshots other hother]
      have htmp : snapshotPath slug other ≠ withExtension (snapshotPath slug key) "json.tmp" := by
        rw [withExtension_snapshotPath]
        exact append_ne_append (by decide) (by decide) _ _
      have hpath : snapshotPath slug other ≠ snapshotPath slug key :=
        slug_ne hslug hc.1 hother heq _
      rw [lookup_writeJsonAtomic_ne hpath htmp]
      exact lookup_ensureKeyRecorded (append_ne_append (by decide) (by decide) _ _)
        (append_ne_append (by decide) (by decide) _ _)
  keyFiles := by
    have htmp : isKeyFile (withExtension (snapshotPath slug key) "json.tmp") = false := by
      rw [withExtension_snapshotPath]
      exact isKeyFile_append (by decide) (by decide) _
    have hpath : isKeyFile (snapshotPath slug key) = false :=
      isKeyFile_append (by decide) (by decide) _
    have hkeys : KeyFiles codecs slug _ (insertEntry _ (snapshotPath slug key)
        (codecs.snapshot.encode snapshot)) :=
      ((h.ensureKeyRecorded hslug hc.1).filter htmp).insertEntry hpath
    rw [fileRecords_recordSnapshot, writeJsonAtomic_eq]
    exact hkeys.congr fun k => mem_keysOf_recordSnapshot

theorem fileRecords_implements (hkeys : ∀ key ∈ keys, codecs.key.RoundTrips key) :
    Handler.Implements (fileRecords codecs slug) (StoreCall.Within codecs keys) Answers
      (Directory.Represents codecs slug keys) where
  answers past c dir h hc := by
    cases c with
    | currentState key =>
        have hread := readJsonl_jsonlText (roundTrips_of_mem_statesOf h.within) (h.states key hc)
        exact congrArg (fun x => Except.map List.getLast? x) hread
    | events key =>
        exact readJsonl_jsonlText (roundTrips_of_mem_eventsOf h.within) (h.events key hc)
    | currentSnapshot key =>
        refine (congrArg codecs.snapshot.readOptional (h.snapshots key hc)).trans ?_
        exact JsonCodec.readOptional_encode (roundTrips_of_getLast?_snapshotsOf h.within)
    | keys => exact h.answers_keys hkeys
    | recordState key state => rfl
    | recordEvent key event => rfl
    | recordSnapshot key snapshot => rfl
    | acquireLock key => trivial
    | releaseLock guard => trivial
  represents past c dir h hc := by
    have hmore : ∀ d ∈ past ++ [c], d.Within codecs keys :=
      List.forall_mem_append.mpr ⟨h.within, List.forall_mem_singleton.mpr hc⟩
    cases c with
    | recordState key state => exact h.recordState hslug hc
    | recordEvent key event => exact h.recordEvent hslug hc
    | recordSnapshot key snapshot => exact h.recordSnapshot hslug hc
    | currentState key => exact h.congr hmore (sameRecords_of_reads trivial)
    | events key => exact h.congr hmore (sameRecords_of_reads trivial)
    | currentSnapshot key => exact h.congr hmore (sameRecords_of_reads trivial)
    | keys => exact h.congr hmore (sameRecords_of_reads trivial)
    | acquireLock key => exact hc.elim
    | releaseLock guard => exact hc.elim

end Files

/-! ## Tables -/

namespace PayloadTable

/-- The identities of the rows are given out in order. -/
structure Ordered (t : PayloadTable) : Prop where
  increasing : t.rows.Pairwise fun a b => a.id < b.id
  bounded : ∀ row ∈ t.rows, row.id ≤ t.lastId

/-- The payloads kept for a key, in the order they were inserted. -/
def payloads (t : PayloadTable) (key : String) : List String :=
  (t.rows.filter fun row => row.key == key).map PayloadRow.payload

variable {t : PayloadTable} {key : String}

theorem Ordered.insert (h : t.Ordered) (key payload : String) : (t.insert key payload).Ordered where
  increasing := by
    refine List.pairwise_append.mpr ⟨h.increasing, List.pairwise_singleton _ _, ?_⟩
    intro a ha b hb
    have hle := h.bounded a ha
    rw [List.mem_singleton.mp hb]
    exact Nat.lt_succ_of_le hle
  bounded row hrow := by
    obtain hrow | hrow := List.mem_append.mp hrow
    · exact (h.bounded row hrow).trans (Nat.le_succ _)
    · rw [List.mem_singleton.mp hrow]
      exact le_rfl

theorem payloads_insert (key other payload : String) :
    (t.insert other payload).payloads key =
      t.payloads key ++ if other = key then [payload] else [] := by
  rw [payloads, insert, List.filter_append, List.map_append]
  by_cases h : other = key <;> simp [h, payloads]

/-- Ascending identities are the order of insertion. -/
theorem Ordered.selectAscending (h : t.Ordered) : t.selectAscending key = t.payloads key := by
  rw [PayloadTable.selectAscending, List.mergeSort_of_pairwise, payloads]
  refine (h.increasing.filter _).imp ?_
  intro a b hlt
  exact decide_eq_true hlt.le

/-- The highest identity belongs to the row that was inserted last. -/
theorem Ordered.selectLast (h : t.Ordered) : t.selectLast key = (t.payloads key).getLast? := by
  let rows := t.rows.filter fun row => row.key == key
  have hrows : rows.Pairwise fun a b => a.id < b.id := h.increasing.filter _
  have hreverse : rows.reverse.Pairwise fun a b => decide (b.id ≤ a.id) = true :=
    List.pairwise_reverse.mpr (hrows.imp fun hlt => decide_eq_true hlt.le)
  -- Rows with different identities can be sorted in one way only.
  have hsorted : rows.mergeSort (fun a b => b.id ≤ a.id) = rows.reverse := by
    have hids : (rows.map PayloadRow.id).Nodup :=
      List.pairwise_map.mpr (hrows.imp fun hlt => Nat.ne_of_lt hlt)
    have hsort := @List.pairwise_mergeSort PayloadRow (fun a b => decide (b.id ≤ a.id))
      (fun a b c hab hbc => decide_eq_true ((of_decide_eq_true hbc).trans (of_decide_eq_true hab)))
      (fun a b => by simpa using Nat.le_total b.id a.id) rows
    refine List.Perm.eq_of_pairwise ?_ hsort hreverse
      ((List.mergeSort_perm _ _).trans (List.reverse_perm _).symm)
    intro a b ha hb hab hba
    have hid : a.id = b.id := Nat.le_antisymm (of_decide_eq_true hba) (of_decide_eq_true hab)
    exact List.inj_on_of_nodup_map hids (List.mem_mergeSort.mp ha) (List.mem_reverse.mp hb) hid
  show (rows.mergeSort _).head?.map PayloadRow.payload = (rows.map PayloadRow.payload).getLast?
  rw [hsorted, List.head?_reverse, List.getLast?_map]

end PayloadTable

section Tables

variable {slug : FraiseKey → String} {codecs : RecordCodecs} {keys : Set FraiseKey}
variable {past : List StoreCall} {t : RecordTables}

/-- The tables hold what the calls recorded for the pairs in use. -/
structure RecordTables.Represents (codecs : RecordCodecs) (slug : FraiseKey → String)
    (keys : Set FraiseKey) (past : List StoreCall) (t : RecordTables) : Prop where
  within : ∀ c ∈ past, c.Within codecs keys
  stateOrder : t.deploymentState.Ordered
  states : ∀ key ∈ keys, t.deploymentState.payloads (slug key) =
    (statesOf past key).map codecs.state.encode
  eventOrder : t.events.Ordered
  events : ∀ key ∈ keys, t.events.payloads (slug key) =
    (eventsOf past key).map codecs.event.encode
  snapshots : ∀ key ∈ keys, t.snapshots.lookup (slug key) =
    (snapshotsOf past key).getLast?.map codecs.snapshot.encode
  known : ∀ key, key ∈ t.fraiseKeys.map KeyRow.pair ↔ key ∈ keysOf past
  slugs : ∀ row ∈ t.fraiseKeys, row.key = slug row.pair

theorem PayloadTable.ordered_empty : PayloadTable.Ordered ⟨[], 0⟩ :=
  ⟨List.Pairwise.nil, fun _ hrow => by cases hrow⟩

theorem RecordTables.represents_empty :
    RecordTables.empty.Represents codecs slug keys [] where
  within c hc := by cases hc
  stateOrder := PayloadTable.ordered_empty
  states _ _ := rfl
  eventOrder := PayloadTable.ordered_empty
  events _ _ := rfl
  snapshots _ _ := rfl
  known _ := Iff.rfl
  slugs row hrow := by cases hrow

/-- The tables represent every history that records the same. -/
theorem RecordTables.Represents.congr (h : t.Represents codecs slug keys past)
    {more : List StoreCall} (hmore : ∀ c ∈ more, c.Within codecs keys)
    (hsame : SameRecords past more) : t.Represents codecs slug keys more where
  within := hmore
  stateOrder := h.stateOrder
  states := hsame.states ▸ h.states
  eventOrder := h.eventOrder
  events := hsame.events ▸ h.events
  snapshots := hsame.snapshots ▸ h.snapshots
  known := hsame.keys ▸ h.known
  slugs := h.slugs

@[simp] theorem RecordTables.rememberKey_deploymentState (t : RecordTables) (s : String)
    (key : FraiseKey) : (t.rememberKey s key).deploymentState = t.deploymentState := by
  rw [RecordTables.rememberKey]
  split <;> rfl

@[simp] theorem RecordTables.rememberKey_events (t : RecordTables) (s : String)
    (key : FraiseKey) : (t.rememberKey s key).events = t.events := by
  rw [RecordTables.rememberKey]
  split <;> rfl

@[simp] theorem RecordTables.rememberKey_snapshots (t : RecordTables) (s : String)
    (key : FraiseKey) : (t.rememberKey s key).snapshots = t.snapshots := by
  rw [RecordTables.rememberKey]
  split <;> rfl

theorem RecordTables.Represents.slugs_rememberKey (h : t.Represents codecs slug keys past)
    (key : FraiseKey) : ∀ row ∈ (t.rememberKey (slug key) key).fraiseKeys,
      row.key = slug row.pair := by
  intro row hrow
  rw [RecordTables.rememberKey] at hrow
  split at hrow
  · exact h.slugs row hrow
  · obtain hrow | hrow := List.mem_append.mp hrow
    · exact h.slugs row hrow
    · rw [List.mem_singleton.mp hrow]
      rfl

variable (hslug : Set.InjOn slug keys)
include hslug

/-- The keys after one more was remembered. -/
theorem RecordTables.Represents.mem_rememberKey (h : t.Represents codecs slug keys past)
    {key : FraiseKey} (hkey : key ∈ keys) (k : FraiseKey) :
    k ∈ (t.rememberKey (slug key) key).fraiseKeys.map KeyRow.pair ↔
      k = key ∨ k ∈ keysOf past := by
  rw [← h.known, RecordTables.rememberKey]
  split
  next hany =>
    -- The row under this slug is that of the same pair.
    obtain ⟨row, hrow, hslot⟩ := List.any_eq_true.mp hany
    have hpair := List.mem_map_of_mem (f := KeyRow.pair) hrow
    have hin : row.pair ∈ keys := mem_keys_of_mem_keysOf h.within ((h.known _).mp hpair)
    have heq : row.pair = key :=
      hslug hin hkey ((h.slugs row hrow).symm.trans (by simpa using hslot))
    refine ⟨.inr, ?_⟩
    intro hk
    exact hk.elim (fun hk => hk ▸ heq ▸ hpair) id
  next => simp [or_comm, KeyRow.pair]

/-- A row is inserted for one pair. -/
theorem payloads_insert_slug {α : Type} {codec : JsonCodec α} {table : PayloadTable}
    {f : FraiseKey → List α} {a : α}
    (hf : ∀ key ∈ keys, table.payloads (slug key) = (f key).map codec.encode) {key : FraiseKey}
    (hkey : key ∈ keys) :
    ∀ other ∈ keys, (table.insert (slug key) (codec.encode a)).payloads (slug other) =
      (f other ++ if key = other then [a] else []).map codec.encode := by
  intro other hother
  rw [PayloadTable.payloads_insert, hf other hother]
  by_cases heq : key = other
  · subst heq
    simp
  · have hne : slug key ≠ slug other := fun h => heq (hslug hkey hother h)
    simp [heq, hne]

theorem RecordTables.Represents.recordState (h : t.Represents codecs slug keys past)
    {key : FraiseKey} {state : DeploymentState}
    (hc : (StoreCall.recordState key state).Within codecs keys) :
    (tableRecords codecs slug (.recordState key state) t).2.Represents codecs slug keys
      (past ++ [.recordState key state]) where
  within := List.forall_mem_append.mpr ⟨h.within, List.forall_mem_singleton.mpr hc⟩
  stateOrder := PayloadTable.Ordered.insert (by simpa using h.stateOrder) _ _
  states other hother := by
    rw [statesOf_recordState]
    refine payloads_insert_slug hslug (fun k hk => ?_) hc.1 other hother
    simpa using h.states k hk
  eventOrder := by simpa [tableRecords] using h.eventOrder
  events other hother := by simpa [tableRecords, eventsOf] using h.events other hother
  snapshots other hother := by simpa [tableRecords, snapshotsOf] using h.snapshots other hother
  known k := by
    rw [mem_keysOf_recordState]
    exact h.mem_rememberKey hslug hc.1 k
  slugs := h.slugs_rememberKey key

theorem RecordTables.Represents.recordEvent (h : t.Represents codecs slug keys past)
    {key : FraiseKey} {event : SagaEvent}
    (hc : (StoreCall.recordEvent key event).Within codecs keys) :
    (tableRecords codecs slug (.recordEvent key event) t).2.Represents codecs slug keys
      (past ++ [.recordEvent key event]) where
  within := List.forall_mem_append.mpr ⟨h.within, List.forall_mem_singleton.mpr hc⟩
  stateOrder := h.stateOrder
  states other hother := by simpa [tableRecords, statesOf] using h.states other hother
  eventOrder := h.eventOrder.insert _ _
  events other hother := by
    rw [eventsOf_recordEvent]
    exact payloads_insert_slug hslug h.events hc.1 other hother
  snapshots other hother := by simpa [tableRecords, snapshotsOf] using h.snapshots other hother
  known k := by simpa [tableRecords, keysOf] using h.known k
  slugs := h.slugs

theorem RecordTables.Represents.recordSnapshot (h : t.Represents codecs slug keys past)
    {key : FraiseKey} {snapshot : Json}
    (hc : (StoreCall.recordSnapshot key snapshot).Within codecs keys) :
    (tableRecords codecs slug (.recordSnapshot key snapshot) t).2.Represents codecs slug keys
      (past ++ [.recordSnapshot key snapshot]) where
  within := List.forall_mem_append.mpr ⟨h.within, List.forall_mem_singleton.mpr hc⟩
  stateOrder := by simpa [tableRecords] using h.stateOrder
  states other hother := by simpa [tableRecords, statesOf] using h.states other hother
  eventOrder := by simpa [tableRecords] using h.eventOrder
  events other hother := by simpa [tableRecords, eventsOf] using h.events other hother
  snapshots other hother := by
    rw [getLast?_snapshotsOf_recordSnapshot]
    by_cases heq : key = other
    · subst heq
      simp [tableRecords]
    · have hne : slug other ≠ slug key := fun hsame => heq (hslug hc.1 hother hsame.symm)
      simpa [tableRecords, heq, hne] using h.snapshots other hother
  known k := by
    rw [mem_keysOf_recordSnapshot]
    exact h.mem_rememberKey hslug hc.1 k
  slugs := h.slugs_rememberKey key

theorem tableRecords_implements :
    Handler.Implements (tableRecords codecs slug) (StoreCall.Within codecs keys) Answers
      (RecordTables.Represents codecs slug keys) where
  answers past c t h hc := by
    cases c with
    | currentState key =>
        have hlast : t.deploymentState.selectLast (slug key) =
            (statesOf past key).getLast?.map codecs.state.encode := by
          rw [h.stateOrder.selectLast, h.states key hc, List.getLast?_map]
        refine (congrArg codecs.state.readOptional hlast).trans (JsonCodec.readOptional_encode ?_)
        intro state hstate
        exact roundTrips_of_mem_statesOf h.within state (List.mem_of_getLast? hstate)
    | events key =>
        refine (congrArg codecs.event.readAll
          (h.eventOrder.selectAscending.trans (h.events key hc))).trans ?_
        exact JsonCodec.readAll_encode (roundTrips_of_mem_eventsOf h.within)
    | currentSnapshot key =>
        refine (congrArg codecs.snapshot.readOptional (h.snapshots key hc)).trans ?_
        exact JsonCodec.readOptional_encode (roundTrips_of_getLast?_snapshotsOf h.within)
    | keys => exact ⟨_, rfl, h.known⟩
    | recordState key state => rfl
    | recordEvent key event => rfl
    | recordSnapshot key snapshot => rfl
    | acquireLock key => trivial
    | releaseLock guard => trivial
  represents past c t h hc := by
    have hmore : ∀ d ∈ past ++ [c], d.Within codecs keys :=
      List.forall_mem_append.mpr ⟨h.within, List.forall_mem_singleton.mpr hc⟩
    cases c with
    | recordState key state => exact h.recordState hslug hc
    | recordEvent key event => exact h.recordEvent hslug hc
    | recordSnapshot key snapshot => exact h.recordSnapshot hslug hc
    | currentState key => exact h.congr hmore (sameRecords_of_reads trivial)
    | events key => exact h.congr hmore (sameRecords_of_reads trivial)
    | currentSnapshot key => exact h.congr hmore (sameRecords_of_reads trivial)
    | keys => exact h.congr hmore (sameRecords_of_reads trivial)
    | acquireLock key => exact hc.elim
    | releaseLock guard => exact hc.elim

end Tables

/-! ## The three of them -/

/-- After any calls on three stores that were empty, each backend answers the next call as
those calls say: the last state, the events in order, the last snapshot, and the pairs for
which a state or a snapshot was recorded. -/
theorem backends_agree (codecs : RecordCodecs) (stableHash : FraiseKey → UInt64)
    (keys : Set FraiseKey) (hslug : Set.InjOn (FraiseKey.slug stableHash) keys)
    (hkeys : ∀ key ∈ keys, codecs.key.RoundTrips key) (calls : List StoreCall)
    (hcalls : ∀ c ∈ calls, c.Within codecs keys) (c : StoreCall) (hc : c.Within codecs keys) :
    let memory := memoryRecords (FraiseKey.slug stableHash)
    let files := fileRecords codecs (FraiseKey.slug stableHash)
    let tables := tableRecords codecs (FraiseKey.slug stableHash)
    Answers calls c (memory c (memory.after calls MemoryInner.empty)).1 ∧
      Answers calls c (files c (files.after calls [])).1 ∧
      Answers calls c (tables c (tables.after calls RecordTables.empty)).1 := by
  refine ⟨?_, ?_, ?_⟩
  · exact (memoryRecords_implements hslug).run MemoryInner.represents_empty hcalls hc
  · exact (fileRecords_implements hslug hkeys).run Directory.represents_empty hcalls hc
  · exact (tableRecords_implements hslug).run RecordTables.represents_empty hcalls hc

/-- The encoding of one value. -/
def sampleCodec {α : Type} (a : α) (text : String) : JsonCodec α where
  encode _ := text
  decode t := if t = text then .ok a else .error "expected value at line 1 column 1"

theorem sampleCodec_roundTrips {α : Type} (a : α) {text : String} (hline : '\n' ∉ text.toList)
    (hreturn : '\r' ∉ text.toList) (hblank : trim text ≠ "") :
    (sampleCodec a text).RoundTrips a :=
  ⟨if_pos rfl, hline, hreturn, hblank⟩

/-- A pair with a state, an event and a snapshot, and their encodings. -/
def sampleKey : FraiseKey :=
  ⟨"api", "prod"⟩

def sampleState : DeploymentState :=
  ⟨.committed, some "v2"⟩

def sampleEvent : SagaEvent :=
  .stateTransition .idle .committed

def sampleSnapshot : Json :=
  .obj [("version", .str "v2")]

def sampleCodecs : RecordCodecs where
  state := sampleCodec sampleState
    "\x7b\"state\":\"committed\",\"revision\":\"v2\",\"recorded_at\":\"2026-01-02T03:04:05Z\"\x7d"
  event := sampleCodec sampleEvent
    "\x7b\"kind\":\"state_transition\",\"from\":\"idle\",\"to\":\"committed\"\x7d"
  snapshot := sampleCodec sampleSnapshot "\x7b\"version\":\"v2\"\x7d"
  key := sampleCodec sampleKey "\x7b\"fraise\":\"api\",\"environment\":\"prod\"\x7d"

/-- A state, an event and a snapshot of one pair, after which the stores name the pair. -/
theorem backends_agree_sample :
    let past : List StoreCall := [.recordState sampleKey sampleState,
      .recordEvent sampleKey sampleEvent, .recordSnapshot sampleKey sampleSnapshot]
    let slug := FraiseKey.slug fun _ => 0x20a2539b218ed5f1
    Answers past .keys
        (memoryRecords slug .keys ((memoryRecords slug).after past MemoryInner.empty)).1 ∧
      Answers past .keys
        (fileRecords sampleCodecs slug .keys ((fileRecords sampleCodecs slug).after past [])).1 ∧
      Answers past .keys (tableRecords sampleCodecs slug .keys
        ((tableRecords sampleCodecs slug).after past RecordTables.empty)).1 := by
  have hstate : sampleCodecs.state.RoundTrips sampleState :=
    sampleCodec_roundTrips _ (by decide) (by decide) (by decide)
  have hevent : sampleCodecs.event.RoundTrips sampleEvent :=
    sampleCodec_roundTrips _ (by decide) (by decide) (by decide)
  have hsnapshot : sampleCodecs.snapshot.RoundTrips sampleSnapshot :=
    sampleCodec_roundTrips _ (by decide) (by decide) (by decide)
  have hkey : ∀ key ∈ ({sampleKey} : Set FraiseKey), sampleCodecs.key.RoundTrips key := by
    intro key hmem
    rw [Set.mem_singleton_iff.mp hmem]
    exact sampleCodec_roundTrips _ (by decide) (by decide) (by decide)
  refine backends_agree sampleCodecs (fun _ => 0x20a2539b218ed5f1) {sampleKey}
    (Set.injOn_singleton _ _) hkey _ ?_ .keys trivial
  simp only [List.forall_mem_cons, List.not_mem_nil, false_imp_iff, implies_true, and_true]
  exact ⟨⟨rfl, hstate⟩, ⟨rfl, hevent⟩, ⟨rfl, hsnapshot⟩⟩

end Fraisier.Saga
