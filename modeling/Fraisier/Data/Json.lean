import Mathlib.Data.List.Basic

/-!
# JSON values

The document type that snapshots, adapter settings and reports are exchanged in,
with the readings of it that a derived decoder uses: a field of an object, a struct
given as an object or as an array of its fields in order, and the name of a variant.
-/

namespace Fraisier.Data

/-- A JSON document. A number keeps whether it was written as an integer. -/
inductive Json where
  | null
  | bool (b : Bool)
  | int (n : Int)
  | float (digits : String)
  | str (s : String)
  | arr (items : List Json)
  | obj (fields : List (String × Json))

namespace Json

/-- The value of an object's field. -/
def lookup (fields : List (String × Json)) (name : String) : Option Json :=
  (fields.find? fun f => f.1 == name).map Prod.snd

/-- The value of a field, of an object. -/
def get (name : String) : Json → Option Json
  | .obj fields => lookup fields name
  | _ => none

/-- A string, or nothing for any other document. -/
def asStr : Json → Option String
  | .str s => some s
  | _ => none

/-- An array, or nothing for any other document. -/
def asArray : Json → Option (List Json)
  | .arr items => some items
  | _ => none

/-- An optional value: `null` is its absence, and anything else must decode. -/
def asOption {α : Type} (decode : Json → Option α) : Json → Option (Option α)
  | .null => some none
  | v => (decode v).map some

/-- An optional field: absent means `none`, present must decode. -/
def optionField {α : Type} (decode : Json → Option α) (fields : List (String × Json))
    (name : String) : Option (Option α) :=
  match lookup fields name with
  | none => some none
  | some v => asOption decode v

/-- A required field. -/
def field {α : Type} (decode : Json → Option α) (fields : List (String × Json))
    (name : String) : Option α :=
  (lookup fields name).bind decode

/-- A list of documents, each of which must decode. -/
def decodeAll {α : Type} (decode : Json → Option α) : List Json → Option (List α)
  | [] => some []
  | v :: vs => do
      let a ← decode v
      let as ← decodeAll decode vs
      return a :: as

/-- A boolean, or nothing for any other document. -/
def asBool : Json → Option Bool
  | .bool b => some b
  | _ => none

/-- An unsigned 32-bit integer, or nothing for any other document. -/
def asU32 : Json → Option Nat
  | .int n => if 0 ≤ n ∧ n < 4294967296 then some n.toNat else none
  | _ => none

/-- An unsigned 64-bit integer, or nothing for any other document. -/
def asU64 : Json → Option Nat
  | .int n => if 0 ≤ n ∧ n < 18446744073709551616 then some n.toNat else none
  | _ => none

/-- A signed 32-bit integer, or nothing for any other document. -/
def asI32 : Json → Option Int
  | .int n => if -2147483648 ≤ n ∧ n < 2147483648 then some n else none
  | _ => none

/-- A field of a struct: by its name in an object, by its position in an array. -/
def member (name : String) (position : Nat) : Json → Option Json
  | .obj fields => lookup fields name
  | .arr items => items[position]?
  | _ => none

/-- A document that is read as a struct of so many fields: an object, whose other fields are
ignored, or an array that is not longer. -/
def isStruct (fields : Nat) : Json → Bool
  | .obj _ => true
  | .arr items => items.length ≤ fields
  | _ => false

/-- A field that has a default: it may be absent, and must decode when it is there. -/
def defaulted {α : Type} (decode : Json → Option α) (default : α) : Option Json → Option α
  | none => some default
  | some v => decode v

/-- The name of a variant without data: its text, or an object with it as the only field and
`null` as its value. -/
def unitVariant : Json → Option String
  | .str s => some s
  | .obj [(name, .null)] => some name
  | _ => none

/-- The encoding of an optional value. -/
def ofOption {α : Type} (encode : α → Json) : Option α → Json
  | none => .null
  | some a => encode a

section DecodeAll

variable {α : Type} {decode : Json → Option α} {items : List Json}

theorem decodeAll_cons_eq_some_iff {v : Json} {as : List α} :
    decodeAll decode (v :: items) = some as ↔
      ∃ a rest, decode v = some a ∧ decodeAll decode items = some rest ∧ a :: rest = as := by
  simp only [decodeAll, Option.bind_eq_bind, Option.bind_eq_some_iff, Option.pure_def,
    Option.some.injEq]
  constructor
  · intro h
    obtain ⟨a, ha, rest, hrest, has⟩ := h
    exact ⟨a, rest, ha, hrest, has⟩
  · intro h
    obtain ⟨a, rest, ha, hrest, has⟩ := h
    exact ⟨a, ha, rest, hrest, has⟩

/-- What a list decodes to is what each of its documents decodes to, in order. -/
theorem forall₂_of_decodeAll {as : List α} (h : decodeAll decode items = some as) :
    List.Forall₂ (fun v a => decode v = some a) items as := by
  induction items generalizing as with
  | nil =>
      cases h
      exact .nil
  | cons v vs ih =>
      obtain ⟨a, rest, ha, hrest, rfl⟩ := decodeAll_cons_eq_some_iff.mp h
      exact .cons ha (ih hrest)

theorem exists_decodeAll_iff :
    (∃ as, decodeAll decode items = some as) ↔ ∀ v ∈ items, ∃ a, decode v = some a := by
  induction items with
  | nil => simp [decodeAll]
  | cons v vs ih =>
      rw [List.forall_mem_cons, ← ih]
      constructor
      · intro h
        obtain ⟨as, has⟩ := h
        obtain ⟨a, rest, ha, hrest, -⟩ := decodeAll_cons_eq_some_iff.mp has
        exact ⟨⟨a, ha⟩, rest, hrest⟩
      · intro h
        obtain ⟨⟨a, ha⟩, rest, hrest⟩ := h
        exact ⟨a :: rest, decodeAll_cons_eq_some_iff.mpr ⟨a, rest, ha, hrest, rfl⟩⟩

end DecodeAll

end Json

end Fraisier.Data
