import Fraisier.Data.Text
import Fraisier.Saga.Locks

/-!
# The records of the three state stores

What each backend keeps besides its locks, and how its methods answer from that: maps by
slug in memory, JSON files in a directory, and tables of a database. None of them fails.
Lock calls are answered by `LockMethods.store` before they reach the records.
-/

namespace Fraisier.Saga

open Fraisier.Data Fraisier.Effect

/-! ## Encodings -/

/-- A JSON encoding of a type. -/
structure JsonCodec (α : Type) where
  encode : α → String
  decode : String → Except String α

/-- The encoding of a value is one line of text that decodes to the value. -/
structure JsonCodec.RoundTrips {α : Type} (codec : JsonCodec α) (a : α) : Prop where
  decode_encode : codec.decode (codec.encode a) = .ok a
  oneLine : '\n' ∉ (codec.encode a).toList
  noReturn : '\r' ∉ (codec.encode a).toList
  notBlank : trim (codec.encode a) ≠ ""

/-- The encodings of what a store records. -/
structure RecordCodecs where
  state : JsonCodec DeploymentState
  event : JsonCodec SagaEvent
  snapshot : JsonCodec Json
  key : JsonCodec FraiseKey

/-- Decode a text, as a store method. -/
def JsonCodec.read {α : Type} (codec : JsonCodec α) (text : String) :
    Except StateStoreError α :=
  (codec.decode text).mapError .serde

/-- Decode each of a list of texts. -/
def JsonCodec.readAll {α : Type} (codec : JsonCodec α) :
    List String → Except StateStoreError (List α)
  | [] => .ok []
  | text :: rest => do
      let a ← codec.read text
      let as ← codec.readAll rest
      return a :: as

/-- Decode a text, if there is one. -/
def JsonCodec.readOptional {α : Type} (codec : JsonCodec α) :
    Option String → Except StateStoreError (Option α)
  | none => .ok none
  | some text => (codec.read text).map some

section Codec

variable {α : Type} {codec : JsonCodec α}

theorem JsonCodec.RoundTrips.read {a : α} (ha : codec.RoundTrips a) :
    codec.read (codec.encode a) = .ok a := by
  rw [JsonCodec.read, ha.decode_encode]
  rfl

/-- Values that round-trip have the same encoding only if they are the same. -/
theorem JsonCodec.RoundTrips.encode_inj {a b : α} (ha : codec.RoundTrips a)
    (hb : codec.RoundTrips b) (h : codec.encode a = codec.encode b) : a = b :=
  Except.ok.inj (ha.decode_encode.symm.trans ((congrArg codec.decode h).trans hb.decode_encode))

theorem JsonCodec.readAll_encode {as : List α} (has : ∀ a ∈ as, codec.RoundTrips a) :
    codec.readAll (as.map codec.encode) = .ok as := by
  induction as with
  | nil => rfl
  | cons a as ih =>
      obtain ⟨ha, has⟩ := List.forall_mem_cons.mp has
      rw [List.map_cons, JsonCodec.readAll, ha.read, ih has]
      rfl

theorem JsonCodec.readOptional_encode {a : Option α} (ha : ∀ b ∈ a, codec.RoundTrips b) :
    codec.readOptional (a.map codec.encode) = .ok a := by
  cases a with
  | none => rfl
  | some b => rw [Option.map_some, JsonCodec.readOptional, (ha b rfl).read]; rfl

/-- Texts that are encodings are decoded. -/
theorem JsonCodec.readAll_of_forall {texts : List String} {P : α → Prop}
    (htexts : ∀ text ∈ texts, ∃ a, P a ∧ codec.RoundTrips a ∧ text = codec.encode a) :
    ∃ as, codec.readAll texts = .ok as ∧ (∀ a ∈ as, P a) ∧
      ∀ a, codec.RoundTrips a → codec.encode a ∈ texts → a ∈ as := by
  induction texts with
  | nil => exact ⟨[], rfl, by simp, by simp⟩
  | cons text texts ih =>
      obtain ⟨⟨a, hP, ha, rfl⟩, hrest⟩ := List.forall_mem_cons.mp htexts
      obtain ⟨as, hread, has, hall⟩ := ih hrest
      refine ⟨a :: as, ?_, List.forall_mem_cons.mpr ⟨hP, has⟩, ?_⟩
      · rw [JsonCodec.readAll, ha.read, hread]
        rfl
      · intro b hb hmem
        obtain heq | hmem := List.mem_cons.mp hmem
        · exact (hb.encode_inj ha heq) ▸ List.mem_cons_self
        · exact List.mem_cons_of_mem _ (hall b hb hmem)

end Codec

/-! ## Memory -/

/-- The maps of the in-memory store. -/
structure MemoryInner where
  states : String → List DeploymentState
  events : String → List SagaEvent
  snapshots : String → Option Json
  keys : List (String × FraiseKey)

namespace MemoryInner

/-- A new store. -/
def empty : MemoryInner :=
  ⟨fun _ => [], fun _ => [], fun _ => none, []⟩

/-- Record the original key for its slug. -/
def rememberKey (s : MemoryInner) (slug : String) (key : FraiseKey) : MemoryInner :=
  { s with keys := insertEntry s.keys slug key }

end MemoryInner

/-- The records of the in-memory backend. -/
def memoryRecords (slug : FraiseKey → String) : Handler StoreSig MemoryInner
  | .recordState key state, s =>
      let s := s.rememberKey (slug key) key
      (.ok (), { s with
        states := Function.update s.states (slug key) (s.states (slug key) ++ [state]) })
  | .currentState key, s => (.ok (s.states (slug key)).getLast?, s)
  | .recordEvent key event, s =>
      (.ok (), { s with
        events := Function.update s.events (slug key) (s.events (slug key) ++ [event]) })
  | .events key, s => (.ok (s.events (slug key)), s)
  | .recordSnapshot key snapshot, s =>
      let s := s.rememberKey (slug key) key
      (.ok (), { s with snapshots := Function.update s.snapshots (slug key) (some snapshot) })
  | .currentSnapshot key, s => (.ok (s.snapshots (slug key)), s)
  | .keys, s => (.ok (s.keys.map Prod.snd), s)
  | .acquireLock key, s => (.ok ⟨key⟩, s)
  | .releaseLock _, s => (.ok (), s)

/-! ## Files -/

/-- The files of a directory: each name with its content. -/
abbrev Directory : Type :=
  List (String × String)

/-- The name with another extension: what stands behind its last dot is replaced. -/
def withExtension (name extension : String) : String :=
  String.ofList ((name.toList.reverse.dropWhile (· ≠ '.')).reverse) ++ extension

/-- Move a file over another. -/
def rename (dir : Directory) (source target : String) : Directory :=
  match dir.lookup source with
  | none => dir
  | some content => insertEntry (dir.filter fun e => e.1 != source) target content

/-- Write a file by writing another and moving it over. -/
def writeJsonAtomic (dir : Directory) (path content : String) : Directory :=
  let tmp := withExtension path "json.tmp"
  rename (insertEntry dir tmp content) tmp path

/-- Append a line to a file, which is created where it is missing. -/
def appendJsonl (dir : Directory) (path line : String) : Directory :=
  insertEntry dir path ((dir.lookup path).getD "" ++ line ++ "\n")

/-- Decode every line of a file that is not blank. A missing file has none. -/
def readJsonl {α : Type} (codec : JsonCodec α) (dir : Directory) (path : String) :
    Except StateStoreError (List α) :=
  match dir.lookup path with
  | none => .ok []
  | some content => codec.readAll ((lines content).filter fun line => trim line ≠ "")

section Paths

variable (slug : FraiseKey → String) (key : FraiseKey)

/-- The file of the states of a pair. -/
def statePath : String :=
  slug key ++ ".state.jsonl"

/-- The file of the events of a pair. -/
def eventsPath : String :=
  slug key ++ ".events.jsonl"

/-- The file of the snapshot of a pair. -/
def snapshotPath : String :=
  slug key ++ ".snapshot.json"

/-- The file of the two names of a pair. -/
def keyPath : String :=
  slug key ++ ".key.json"

end Paths

/-- Whether a file name is that of a key. -/
def isKeyFile (name : String) : Bool :=
  ".key.json".toList.isSuffixOf name.toList

/-- Persist the original key once. -/
def ensureKeyRecorded (codecs : RecordCodecs) (slug : FraiseKey → String) (dir : Directory)
    (key : FraiseKey) : Directory :=
  let path := keyPath slug key
  if (dir.lookup path).isSome then dir else writeJsonAtomic dir path (codecs.key.encode key)

/-- The records of the filesystem backend. -/
def fileRecords (codecs : RecordCodecs) (slug : FraiseKey → String) :
    Handler StoreSig Directory
  | .recordState key state, dir =>
      let dir := ensureKeyRecorded codecs slug dir key
      (.ok (), appendJsonl dir (statePath slug key) (codecs.state.encode state))
  | .currentState key, dir =>
      ((readJsonl codecs.state dir (statePath slug key)).map List.getLast?, dir)
  | .recordEvent key event, dir =>
      (.ok (), appendJsonl dir (eventsPath slug key) (codecs.event.encode event))
  | .events key, dir => (readJsonl codecs.event dir (eventsPath slug key), dir)
  | .recordSnapshot key snapshot, dir =>
      let dir := ensureKeyRecorded codecs slug dir key
      (.ok (), writeJsonAtomic dir (snapshotPath slug key)
        (codecs.snapshot.encode snapshot))
  | .currentSnapshot key, dir =>
      (codecs.snapshot.readOptional (dir.lookup (snapshotPath slug key)), dir)
  | .keys, dir =>
      let files := dir.filter fun e => isKeyFile e.1
      (codecs.key.readAll (files.map Prod.snd), dir)
  | .acquireLock key, dir => (.ok ⟨key⟩, dir)
  | .releaseLock _, dir => (.ok (), dir)

/-! ## Tables -/

/-- A row of a table with an automatic identity: `deployment_state` or `events`. -/
structure PayloadRow where
  id : Nat
  key : String
  payload : String

/-- A table with an automatic identity, and the last identity given out. -/
structure PayloadTable where
  rows : List PayloadRow
  lastId : Nat

namespace PayloadTable

/-- `INSERT INTO … (key, payload)` -/
def insert (t : PayloadTable) (key payload : String) : PayloadTable :=
  ⟨t.rows ++ [⟨t.lastId + 1, key, payload⟩], t.lastId + 1⟩

/-- `SELECT payload … WHERE key = ?1 ORDER BY id ASC` -/
def selectAscending (t : PayloadTable) (key : String) : List String :=
  ((t.rows.filter fun row => row.key == key).mergeSort fun a b => a.id ≤ b.id).map
    PayloadRow.payload

/-- `SELECT payload … WHERE key = ?1 ORDER BY id DESC LIMIT 1` -/
def selectLast (t : PayloadTable) (key : String) : Option String :=
  ((t.rows.filter fun row => row.key == key).mergeSort fun a b => b.id ≤ a.id).head?.map
    PayloadRow.payload

end PayloadTable

/-- A row of the `fraise_keys` table. -/
structure KeyRow where
  key : String
  fraise : String
  environment : String

/-- The pair a row records. -/
def KeyRow.pair (row : KeyRow) : FraiseKey :=
  ⟨row.fraise, row.environment⟩

/-- The tables of the SQLite store, apart from its locks. -/
structure RecordTables where
  deploymentState : PayloadTable
  events : PayloadTable
  snapshots : List (String × String)
  fraiseKeys : List KeyRow

namespace RecordTables

/-- The tables as the schema creates them. -/
def empty : RecordTables :=
  ⟨⟨[], 0⟩, ⟨[], 0⟩, [], []⟩

/-- Record the original key once: `INSERT INTO fraise_keys … ON CONFLICT(key) DO NOTHING`. -/
def rememberKey (t : RecordTables) (slug : String) (key : FraiseKey) : RecordTables :=
  if t.fraiseKeys.any fun row => row.key == slug then t
  else { t with fraiseKeys := t.fraiseKeys ++ [⟨slug, key.fraise, key.environment⟩] }

end RecordTables

/-- The records of the SQLite backend. -/
def tableRecords (codecs : RecordCodecs) (slug : FraiseKey → String) :
    Handler StoreSig RecordTables
  | .recordState key state, t =>
      let t := t.rememberKey (slug key) key
      (.ok (), { t with
        deploymentState := t.deploymentState.insert (slug key) (codecs.state.encode state) })
  | .currentState key, t =>
      (codecs.state.readOptional (t.deploymentState.selectLast (slug key)), t)
  | .recordEvent key event, t =>
      (.ok (), { t with events := t.events.insert (slug key) (codecs.event.encode event) })
  | .events key, t => (codecs.event.readAll (t.events.selectAscending (slug key)), t)
  | .recordSnapshot key snapshot, t =>
      let t := t.rememberKey (slug key) key
      (.ok (), { t with
        snapshots := insertEntry t.snapshots (slug key) (codecs.snapshot.encode snapshot) })
  | .currentSnapshot key, t =>
      (codecs.snapshot.readOptional (t.snapshots.lookup (slug key)), t)
  | .keys, t => (.ok (t.fraiseKeys.map KeyRow.pair), t)
  | .acquireLock key, t => (.ok ⟨key⟩, t)
  | .releaseLock _, t => (.ok (), t)

end Fraisier.Saga
