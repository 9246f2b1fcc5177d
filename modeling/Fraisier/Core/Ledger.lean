import Fraisier.Core.Adapters

/-!
# The release ledger

What a committed deploy records, and how it is written to and read back from the
snapshot of its pair. Decoding follows the derived readers: an object by field names,
ignoring others, or an array of the fields in order; an absent optional field is none.
-/

namespace Fraisier.Core

open Fraisier.Data

/-- The release a single-host deploy records. -/
structure DeployRecord where
  active : Option StagedArtifact
  revision : Option Revision
deriving DecidableEq

/-- The record of a deployable that was never deployed. -/
def DeployRecord.default : DeployRecord :=
  ⟨none, none⟩

/-- The release a multi-host deploy records: the artifact left active on each host. -/
structure MultiHostRecord where
  active : List (HostId × StagedArtifact)
  revision : Option Revision
deriving DecidableEq

/-- The record of a fleet that was never deployed to. -/
def MultiHostRecord.default : MultiHostRecord :=
  ⟨[], none⟩

/-- Decode a struct with two fields from an object or from an array. -/
def decodePair {α β γ : Type} (make : α → β → γ)
    (fromFields : List (String × Json) → Option (α × β))
    (first : Json → Option α) (second : Json → Option β) : Json → Option γ
  | .obj fields => (fromFields fields).map fun r => make r.1 r.2
  | .arr [a, b] => do
      let a ← first a
      let b ← second b
      return make a b
  | _ => none

/-- A revision is written as its text. -/
def Revision.encode (revision : Revision) : Json :=
  .str revision.name

/-- Read a revision. -/
def Revision.decode (value : Json) : Option Revision :=
  value.asStr.map Revision.mk

/-- Write an artifact reference. -/
def ArtifactRef.encode (artifact : ArtifactRef) : Json :=
  .obj [("id", .str artifact.id), ("checksum", .ofOption .str artifact.checksum)]

/-- Read an artifact reference. -/
def ArtifactRef.decode : Json → Option ArtifactRef :=
  decodePair ArtifactRef.mk
    (fun fields => do
      let id ← Json.field Json.asStr fields "id"
      let checksum ← Json.optionField Json.asStr fields "checksum"
      return (id, checksum))
    Json.asStr (Json.asOption Json.asStr)

/-- Write a staged artifact. -/
def StagedArtifact.encode (staged : StagedArtifact) : Json :=
  .obj [("artifact", staged.artifact.encode), ("path", .str staged.path)]

/-- Read a staged artifact. -/
def StagedArtifact.decode : Json → Option StagedArtifact :=
  decodePair StagedArtifact.mk
    (fun fields => do
      let artifact ← Json.field ArtifactRef.decode fields "artifact"
      let path ← Json.field Json.asStr fields "path"
      return (artifact, path))
    ArtifactRef.decode Json.asStr

/-- Write a single-host record. -/
def DeployRecord.encode (record : DeployRecord) : Json :=
  .obj [("active", .ofOption StagedArtifact.encode record.active),
    ("revision", .ofOption Revision.encode record.revision)]

/-- Read a single-host record. -/
def DeployRecord.decode : Json → Option DeployRecord :=
  decodePair DeployRecord.mk
    (fun fields => do
      let active ← Json.optionField StagedArtifact.decode fields "active"
      let revision ← Json.optionField Revision.decode fields "revision"
      return (active, revision))
    (Json.asOption StagedArtifact.decode) (Json.asOption Revision.decode)

/-- Write the artifacts active on each host, keyed by the host's name. -/
def encodeActive (active : List (HostId × StagedArtifact)) : Json :=
  .obj (active.map fun entry => (entry.1.name, entry.2.encode))

/-- Read the fields of an object as hosts with their artifacts. -/
def decodeEntries : List (String × Json) → Option (List (HostId × StagedArtifact))
  | [] => some []
  | (name, value) :: rest => do
      let staged ← StagedArtifact.decode value
      let entries ← decodeEntries rest
      return (⟨name⟩, staged) :: entries

/-- Read the artifacts active on each host. A map is only read from an object. -/
def decodeActive : Json → Option (List (HostId × StagedArtifact))
  | .obj fields => decodeEntries fields
  | _ => none

/-- Write a multi-host record. -/
def MultiHostRecord.encode (record : MultiHostRecord) : Json :=
  .obj [("active", encodeActive record.active),
    ("revision", .ofOption Revision.encode record.revision)]

/-- Read a multi-host record. -/
def MultiHostRecord.decode : Json → Option MultiHostRecord :=
  decodePair MultiHostRecord.mk
    (fun fields => do
      let active ← Json.field decodeActive fields "active"
      let revision ← Json.optionField Revision.decode fields "revision"
      return (active, revision))
    decodeActive (Json.asOption Revision.decode)

/-! ## What is written is read back -/

theorem asOption_ofOption {α : Type} (encode : α → Json) (decode : Json → Option α)
    (hnull : ∀ a, encode a ≠ .null) (h : ∀ a, decode (encode a) = some a) (o : Option α) :
    Json.asOption decode (Json.ofOption encode o) = some o := by
  cases o with
  | none => rfl
  | some a =>
      have hne := hnull a
      have hdecode := h a
      simp only [Json.ofOption]
      generalize encode a = v at hne hdecode
      cases v with
      | null => exact absurd rfl hne
      | _ => simp [Json.asOption, hdecode]

theorem Revision.decode_encode (revision : Revision) :
    Revision.decode revision.encode = some revision := rfl

theorem ArtifactRef.decode_encode (artifact : ArtifactRef) :
    ArtifactRef.decode artifact.encode = some artifact := by
  have hsum := asOption_ofOption Json.str Json.asStr (by simp) (fun _ => rfl)
    artifact.checksum
  simp [ArtifactRef.encode, ArtifactRef.decode, decodePair, Json.field, Json.optionField,
    Json.lookup, Json.asStr, hsum]

theorem StagedArtifact.decode_encode (staged : StagedArtifact) :
    StagedArtifact.decode staged.encode = some staged := by
  simp [StagedArtifact.encode, StagedArtifact.decode, decodePair, Json.field, Json.lookup,
    Json.asStr, ArtifactRef.decode_encode]

theorem DeployRecord.decode_encode (record : DeployRecord) :
    DeployRecord.decode record.encode = some record := by
  have hactive := asOption_ofOption StagedArtifact.encode StagedArtifact.decode
    (by simp [StagedArtifact.encode]) StagedArtifact.decode_encode record.active
  have hrevision := asOption_ofOption Revision.encode Revision.decode (by simp [Revision.encode])
    Revision.decode_encode record.revision
  simp [DeployRecord.encode, DeployRecord.decode, decodePair, Json.optionField, Json.lookup,
    hactive, hrevision]

theorem decodeActive_encodeActive (active : List (HostId × StagedArtifact)) :
    decodeActive (encodeActive active) = some active := by
  simp only [encodeActive, decodeActive]
  induction active with
  | nil => rfl
  | cons entry active ih =>
      simp [decodeEntries, StagedArtifact.decode_encode, ih]

theorem MultiHostRecord.decode_encode (record : MultiHostRecord) :
    MultiHostRecord.decode record.encode = some record := by
  have hrevision := asOption_ofOption Revision.encode Revision.decode (by simp [Revision.encode])
    Revision.decode_encode record.revision
  simp [MultiHostRecord.encode, MultiHostRecord.decode, decodePair, Json.field, Json.optionField,
    Json.lookup, decodeActive_encodeActive, hrevision]

end Fraisier.Core
