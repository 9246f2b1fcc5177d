import Fraisier.Data.DiskFiles
import Fraisier.Saga.BackendsAgree

/-!
# The files of the state store while it is written

The methods of the filesystem store down to the bytes: which system calls a method makes, and what
is read from the bytes that are there. A method that is cut off has made some of its calls.
`diskRecords_bytes` says that methods that complete do what `fileRecords` says.
-/

namespace Fraisier.Saga

open Fraisier.Data Fraisier.Effect

/-! ## Writing -/

/-- Serialize to a file next to another, and rename it over that. -/
def replaceJson (path content : String) : List DiskFiles.Call :=
  DiskFiles.replace (withExtension path "json.tmp") path (utf8 content.toList)

/-- Append a line to a file. -/
def appendLine (path line : String) : List DiskFiles.Call :=
  [.append path (utf8 (line ++ "\n").toList)]

/-- Persist the original key once. -/
def recordKey (codecs : RecordCodecs) (slug : FraiseKey → String) (disk : DiskFiles)
    (key : FraiseKey) : List DiskFiles.Call :=
  let path := keyPath slug key
  if (disk.lookup path).isSome then [] else replaceJson path (codecs.key.encode key)

/-- The system calls a method writes with. -/
def StoreCall.writes (codecs : RecordCodecs) (slug : FraiseKey → String) (disk : DiskFiles) :
    StoreCall → List DiskFiles.Call
  | .recordState key state =>
      recordKey codecs slug disk key ++
        appendLine (statePath slug key) (codecs.state.encode state)
  | .recordEvent key event => appendLine (eventsPath slug key) (codecs.event.encode event)
  | .recordSnapshot key snapshot =>
      recordKey codecs slug disk key ++
        replaceJson (snapshotPath slug key) (codecs.snapshot.encode snapshot)
  | _ => []

/-! ## Reading -/

/-- Decode every line of a file that is not blank, if it is text. A missing file has none. -/
def readLines {α : Type} (codec : JsonCodec α) (disk : DiskFiles) (path : String) :
    Except StateStoreError (List α) :=
  match disk.lookup path with
  | none => .ok []
  | some bytes =>
      match fromUtf8 bytes with
      | none => .error (.io "stream did not contain valid UTF-8")
      | some content => codec.readAll ((lines content).filter fun line => trim line ≠ "")

/-- Decode bytes. -/
def fromSlice {α : Type} (codec : JsonCodec α) (bytes : List UInt8) :
    Except StateStoreError α :=
  match fromUtf8 bytes with
  | none => .error (.serde "invalid unicode code point")
  | some content => codec.read content

/-- Decode each of some bytes. -/
def fromSlices {α : Type} (codec : JsonCodec α) :
    List (List UInt8) → Except StateStoreError (List α)
  | [] => .ok []
  | bytes :: rest => do
      let a ← fromSlice codec bytes
      let as ← fromSlices codec rest
      return a :: as

/-- The records of the filesystem backend, when methods complete. -/
def diskRecords (codecs : RecordCodecs) (slug : FraiseKey → String) : Handler StoreSig DiskFiles
  | .recordState key state, disk =>
      (.ok (), disk.perform ((StoreCall.recordState key state).writes codecs slug disk))
  | .currentState key, disk =>
      ((readLines codecs.state disk (statePath slug key)).map List.getLast?, disk)
  | .recordEvent key event, disk =>
      (.ok (), disk.perform ((StoreCall.recordEvent key event).writes codecs slug disk))
  | .events key, disk => (readLines codecs.event disk (eventsPath slug key), disk)
  | .recordSnapshot key snapshot, disk =>
      (.ok (), disk.perform ((StoreCall.recordSnapshot key snapshot).writes codecs slug disk))
  | .currentSnapshot key, disk =>
      (match disk.lookup (snapshotPath slug key) with
        | none => .ok none
        | some bytes => (fromSlice codecs.snapshot bytes).map some, disk)
  | .keys, disk =>
      let files := disk.filter fun e => isKeyFile e.1
      (fromSlices codecs.key (files.map Prod.snd), disk)
  | .acquireLock key, disk => (.ok ⟨key⟩, disk)
  | .releaseLock _, disk => (.ok (), disk)

/-! ## Runs with crashes -/

/-- A method that is called, and where it is cut off if it does not complete. -/
abbrev Attempt : Type :=
  StoreCall × Option DiskFiles.Cut

/-- What is on disk after a method that may be cut off. -/
def Attempt.after (codecs : RecordCodecs) (slug : FraiseKey → String) (disk : DiskFiles)
    (attempt : Attempt) : DiskFiles :=
  disk.perform (DiskFiles.performed attempt.2 (attempt.1.writes codecs slug disk))

/-- What a run leaves in a new directory. -/
def diskAfter (codecs : RecordCodecs) (slug : FraiseKey → String) (run : List Attempt) :
    DiskFiles :=
  run.foldl (Attempt.after codecs slug) []

/-- What is left of a run if those of its methods may be lost that were cut off. -/
inductive Kept : List Attempt → List StoreCall → Prop where
  | nil : Kept [] []
  | keep {run kept} (c : StoreCall) (cut : Option DiskFiles.Cut) :
      Kept run kept → Kept (run ++ [(c, cut)]) (kept ++ [c])
  | lose {run kept} (c : StoreCall) (cut : DiskFiles.Cut) :
      Kept run kept → Kept (run ++ [(c, some cut)]) kept

variable {codecs : RecordCodecs} {slug : FraiseKey → String} {disk : DiskFiles} {run : List Attempt}

theorem diskAfter_concat (attempt : Attempt) : diskAfter codecs slug (run ++ [attempt]) =
    Attempt.after codecs slug (diskAfter codecs slug run) attempt :=
  List.foldl_concat ..

/-! ## Methods that complete -/

/-- The bytes of texts. -/
def Directory.bytes (dir : Directory) : DiskFiles :=
  mapContents (fun content => utf8 content.toList) dir

section Bytes

variable {α : Type} {codec : JsonCodec α} {dir : Directory} {path content : String}

theorem readLines_bytes : readLines codec dir.bytes path = readJsonl codec dir path := by
  rw [readLines, readJsonl, Directory.bytes, lookup_mapContents]
  cases dir.lookup path with
  | none => rfl
  | some content => simp only [Option.map_some, fromUtf8_utf8]

theorem fromSlice_utf8 : fromSlice codec (utf8 content.toList) = codec.read content := by
  rw [fromSlice, fromUtf8_utf8]

theorem fromSlices_utf8 (contents : List String) :
    fromSlices codec (contents.map fun content => utf8 content.toList) =
      codec.readAll contents := by
  induction contents with
  | nil => rfl
  | cons content contents ih =>
      rw [List.map_cons, fromSlices, fromSlice_utf8, ih, JsonCodec.readAll]

theorem insertEntry_bytes : insertEntry dir.bytes path (utf8 content.toList) =
    Directory.bytes (insertEntry dir path content) :=
  insertEntry_mapContents

theorem perform_replaceJson : dir.bytes.perform (replaceJson path content) =
    Directory.bytes (writeJsonAtomic dir path content) := by
  rw [replaceJson, DiskFiles.perform_replace, writeJsonAtomic_eq, ← insertEntry_bytes]
  congr 1
  exact filter_mapContents (fun name => name != withExtension path "json.tmp")

theorem perform_appendLine {line : String} : dir.bytes.perform (appendLine path line) =
    Directory.bytes (appendJsonl dir path line) := by
  rw [appendLine, DiskFiles.perform_cons, DiskFiles.perform_nil, DiskFiles.Call.apply, appendJsonl,
    ← insertEntry_bytes, Directory.bytes, lookup_mapContents]
  congr 1
  cases dir.lookup path with
  | none => simp [utf8_append]
  | some content => simp [utf8_append]

theorem perform_recordKey {key : FraiseKey} :
    dir.bytes.perform (recordKey codecs slug dir.bytes key) =
      Directory.bytes (ensureKeyRecorded codecs slug dir key) := by
  have hsome : (dir.bytes.lookup (keyPath slug key)).isSome =
      (dir.lookup (keyPath slug key)).isSome := by
    rw [Directory.bytes, lookup_mapContents, Option.isSome_map]
  rw [recordKey, ensureKeyRecorded, hsome]
  split
  · rfl
  · exact perform_replaceJson

/-- Methods that complete answer and leave what they do on texts. -/
theorem diskRecords_bytes (c : StoreCall) : diskRecords codecs slug c dir.bytes =
    ((fileRecords codecs slug c dir).1, Directory.bytes (fileRecords codecs slug c dir).2) := by
  cases c with
  | acquireLock key => rfl
  | releaseLock guard => rfl
  | recordState key state =>
      refine Prod.ext rfl ?_
      rw [diskRecords, StoreCall.writes, DiskFiles.perform_append, perform_recordKey,
        perform_appendLine]
      rfl
  | currentState key => rw [diskRecords, readLines_bytes]; rfl
  | recordEvent key event => exact Prod.ext rfl perform_appendLine
  | events key => rw [diskRecords, readLines_bytes]; rfl
  | recordSnapshot key snapshot =>
      refine Prod.ext rfl ?_
      rw [diskRecords, StoreCall.writes, DiskFiles.perform_append, perform_recordKey,
        perform_replaceJson]
      rfl
  | currentSnapshot key =>
      refine Prod.ext ?_ rfl
      rw [diskRecords, fileRecords, Directory.bytes, lookup_mapContents]
      cases dir.lookup (snapshotPath slug key) with
      | none => rfl
      | some content => exact congrArg (Except.map some) fromSlice_utf8
  | keys =>
      refine Prod.ext ?_ rfl
      have hfiles : (dir.bytes.filter fun e => isKeyFile e.1).map Prod.snd =
          ((dir.filter fun e => isKeyFile e.1).map Prod.snd).map
            fun content => utf8 content.toList := by
        rw [Directory.bytes, filter_mapContents, mapContents, List.map_map, List.map_map]
        rfl
      rw [diskRecords, fileRecords]
      simp only [hfiles, fromSlices_utf8]
      rfl

end Bytes

end Fraisier.Saga
