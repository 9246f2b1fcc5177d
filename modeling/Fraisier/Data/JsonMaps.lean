import Fraisier.Data.JsonText
import Mathlib.Data.String.Basic

/-!
# Objects as maps

A document that is held has the fields of every object in the order of their names, each name
once: `Json.ordered` makes it so. `lookup_mapOf` says what is found in a map.
-/

namespace Fraisier.Data.Json

/-! ## Maps -/

/-- The fields of a map with one more, unless there is one with its name. -/
def insertField (name : String) (v : Json) : List (String × Json) → List (String × Json)
  | [] => [(name, v)]
  | (other, w) :: rest =>
      if name.toList < other.toList then (name, v) :: (other, w) :: rest
      else if name = other then (other, w) :: rest
      else (other, w) :: insertField name v rest

/-- Fields as a map: in the order of their names, and of two with one name the later. -/
def mapOf (fields : List (String × Json)) : List (String × Json) :=
  fields.foldr (fun field rest => insertField field.1 field.2 rest) []

mutual
/-- A document with every object in it as a map. -/
def ordered : Json → Json
  | .arr items => .arr (orderedItems items)
  | .obj fields => .obj (mapOf (orderedFields fields))
  | v => v

def orderedItems : List Json → List Json
  | [] => []
  | v :: items => ordered v :: orderedItems items

def orderedFields : List (String × Json) → List (String × Json)
  | [] => []
  | (name, v) :: fields => (name, ordered v) :: orderedFields fields
end

/-! ## Fields in order -/

section Maps

variable {name : String} {v : Json} {fields : List (String × Json)}

/-- Fields in the strict order of their names. -/
def Sorted (fields : List (String × Json)) : Prop :=
  fields.Pairwise fun a b => a.1.toList < b.1.toList

theorem mem_insertField {field : String × Json} (h : field ∈ insertField name v fields) :
    field = (name, v) ∨ field ∈ fields := by
  induction fields with
  | nil => exact .inl (List.mem_singleton.mp h)
  | cons other fields ih =>
      rw [insertField] at h
      split_ifs at h with hlt heq
      · exact List.mem_cons.mp h
      · exact .inr h
      · obtain rfl | h := List.mem_cons.mp h
        · exact .inr List.mem_cons_self
        · exact (ih h).imp_right (List.mem_cons_of_mem other)

theorem sorted_insertField (h : Sorted fields) : Sorted (insertField name v fields) := by
  induction fields with
  | nil => exact List.pairwise_singleton _ _
  | cons other fields ih =>
      obtain ⟨hother, hfields⟩ := List.pairwise_cons.mp h
      rw [insertField]
      split_ifs with hlt heq
      · refine List.pairwise_cons.mpr ⟨fun field hfield => ?_, h⟩
        obtain rfl | hfield := List.mem_cons.mp hfield
        · exact hlt
        · exact hlt.trans (hother field hfield)
      · exact h
      · refine List.pairwise_cons.mpr ⟨fun field hfield => ?_, ih hfields⟩
        obtain rfl | hfield := mem_insertField hfield
        · exact lt_of_le_of_ne (not_lt.mp hlt) fun h => heq (String.toList_inj.mp h).symm
        · exact hother field hfield

theorem sorted_mapOf (fields : List (String × Json)) : Sorted (mapOf fields) := by
  induction fields with
  | nil => exact .nil
  | cons field fields ih => exact sorted_insertField ih

theorem mem_mapOf {field : String × Json} (h : field ∈ mapOf fields) : field ∈ fields := by
  induction fields with
  | nil => exact h
  | cons other fields ih =>
      obtain rfl | h := mem_insertField h
      · exact List.mem_cons_self
      · exact List.mem_cons_of_mem other (ih h)

theorem mapOf_of_sorted (h : Sorted fields) : mapOf fields = fields := by
  induction fields with
  | nil => rfl
  | cons field fields ih =>
      obtain ⟨hfield, hfields⟩ := List.pairwise_cons.mp h
      show insertField field.1 field.2 (mapOf fields) = field :: fields
      rw [ih hfields]
      cases fields with
      | nil => rfl
      | cons other fields => exact if_pos (hfield other List.mem_cons_self)

theorem lookup_cons (field : String × Json) (fields : List (String × Json)) (name : String) :
    lookup (field :: fields) name =
      if field.1 = name then some field.2 else lookup fields name := by
  rw [lookup, List.find?_cons]
  by_cases h : field.1 = name
  · rw [if_pos h, h, beq_self_eq_true]
    rfl
  · rw [if_neg h, beq_eq_false_iff_ne.mpr h]
    rfl

theorem lookup_eq_none (h : ∀ field ∈ fields, field.1 ≠ name) : lookup fields name = none := by
  induction fields with
  | nil => rfl
  | cons field fields ih =>
      obtain ⟨hfield, hfields⟩ := List.forall_mem_cons.mp h
      rw [lookup_cons, if_neg hfield, ih hfields]

/-- An inserted field is found unless there was one with its name, and the others are as before. -/
theorem lookup_insertField (h : Sorted fields) (key : String) :
    lookup (insertField name v fields) key =
      if name = key then some ((lookup fields name).getD v) else lookup fields key := by
  induction fields with
  | nil =>
      rw [insertField, lookup_cons]
      rfl
  | cons other fields ih =>
      obtain ⟨hother, hfields⟩ := List.pairwise_cons.mp h
      rw [insertField]
      by_cases hlt : name.toList < other.1.toList
      · have hnone : lookup (other :: fields) name = none := by
          refine lookup_eq_none fun field hfield => ?_
          obtain rfl | hfield := List.mem_cons.mp hfield
          · exact fun h => hlt.ne' (congrArg String.toList h)
          · exact fun h => (hlt.trans (hother field hfield)).ne' (congrArg String.toList h)
        rw [if_pos hlt, lookup_cons, hnone, Option.getD_none]
      rw [if_neg hlt]
      by_cases heq : name = other.1
      · rw [if_pos heq, lookup_cons, lookup_cons, ← heq, if_pos rfl, Option.getD_some]
        by_cases hkey : name = key
        · rw [if_pos hkey, if_pos hkey]
        · rw [if_neg hkey, if_neg hkey]
      · rw [if_neg heq, lookup_cons, lookup_cons, lookup_cons, ih hfields, if_neg (Ne.symm heq)]
        by_cases hkey : name = key
        · rw [if_neg fun h => heq (hkey.trans h.symm), if_pos hkey, if_pos hkey]
        · rw [if_neg hkey, if_neg hkey]

/-- In a map one finds what one finds among fields with names of their own. -/
theorem lookup_mapOf (h : (fields.map Prod.fst).Nodup) (key : String) :
    lookup (mapOf fields) key = lookup fields key := by
  induction fields generalizing key with
  | nil => rfl
  | cons field fields ih =>
      obtain ⟨hfield, hfields⟩ := List.nodup_cons.mp h
      have hnone : lookup fields field.1 = none :=
        lookup_eq_none fun other hother heq => hfield (heq ▸ List.mem_map_of_mem hother)
      show lookup (insertField field.1 field.2 (mapOf fields)) key = _
      rw [lookup_insertField (sorted_mapOf fields), ih hfields key, ih hfields field.1, hnone,
        Option.getD_none, lookup_cons]

end Maps

/-! ## Documents that are held -/

section Ordered

variable {v : Json}

theorem orderedItems_eq_map (items : List Json) : orderedItems items = items.map ordered := by
  induction items with
  | nil => rfl
  | cons v items ih => rw [orderedItems, ih, List.map_cons]

theorem orderedFields_eq_map (fields : List (String × Json)) :
    orderedFields fields = fields.map fun field => (field.1, ordered field.2) := by
  induction fields with
  | nil => rfl
  | cons field fields ih =>
      obtain ⟨name, v⟩ := field
      rw [orderedFields, ih, List.map_cons]

theorem map_fst_orderedFields (fields : List (String × Json)) :
    (orderedFields fields).map Prod.fst = fields.map Prod.fst := by
  rw [orderedFields_eq_map, List.map_map]
  rfl

theorem lookup_orderedFields (fields : List (String × Json)) (name : String) :
    lookup (orderedFields fields) name = (lookup fields name).map ordered := by
  induction fields with
  | nil => rfl
  | cons field fields ih =>
      obtain ⟨other, v⟩ := field
      rw [orderedFields, lookup_cons, lookup_cons, ih]
      split_ifs <;> rfl

/-- What is found in an object that is held. -/
theorem get_ordered {fields : List (String × Json)} (h : (fields.map Prod.fst).Nodup)
    (name : String) :
    lookup (mapOf (orderedFields fields)) name = (lookup fields name).map ordered := by
  rw [lookup_mapOf (by rwa [map_fst_orderedFields]), lookup_orderedFields]

/-- A document all of whose objects are maps. -/
inductive Mapped : Json → Prop
  | null : Mapped .null
  | bool (b) : Mapped (.bool b)
  | int (n) : Mapped (.int n)
  | float (digits) : Mapped (.float digits)
  | str (s) : Mapped (.str s)
  | arr (items) : (∀ v ∈ items, Mapped v) → Mapped (.arr items)
  | obj (fields) : (∀ field ∈ fields, Mapped field.2) → Sorted fields → Mapped (.obj fields)

/-- A document of maps is held as it is. -/
theorem ordered_of_mapped (h : Mapped v) : ordered v = v := by
  induction h with
  | null | bool | int | float | str => rfl
  | arr items hitems ih =>
      rw [ordered, orderedItems_eq_map]
      exact congrArg arr ((List.map_congr_left ih).trans (List.map_id items))
  | obj fields hfields hsorted ih =>
      have hsame : orderedFields fields = fields := by
        rw [orderedFields_eq_map]
        refine (List.map_congr_left fun field hfield => ?_).trans (List.map_id fields)
        exact Prod.ext rfl (ih field hfield)
      rw [ordered, hsame, mapOf_of_sorted hsorted]

theorem exists_of_mem_held {fields : List (String × Json)} {field : String × Json}
    (h : field ∈ mapOf (orderedFields fields)) :
    ∃ original ∈ fields, (original.1, ordered original.2) = field := by
  have hmem := mem_mapOf h
  rw [orderedFields_eq_map] at hmem
  exact List.mem_map.mp hmem

section Readable

variable {depth : Nat}

/-- A document that can be read can be read as it is held. -/
theorem readable_ordered (h : Readable depth v) : Readable depth (ordered v) := by
  induction h with
  | null depth => exact .null depth
  | bool depth b => exact .bool depth b
  | int depth n hlow hhigh => exact .int depth n hlow hhigh
  | float depth digits hdigits => exact .float depth digits hdigits
  | str depth s => exact .str depth s
  | arr depth items hitems ih =>
      rw [ordered, orderedItems_eq_map]
      refine .arr depth _ fun v hv => ?_
      obtain ⟨item, hitem, rfl⟩ := List.mem_map.mp hv
      exact ih item hitem
  | obj depth fields hfields ih =>
      refine .obj depth _ fun field hfield => ?_
      obtain ⟨original, horiginal, rfl⟩ := exists_of_mem_held hfield
      exact ih original horiginal

theorem mapped_ordered (h : Readable depth v) : Mapped (ordered v) := by
  induction h with
  | null depth => exact .null
  | bool depth b => exact .bool b
  | int depth n hlow hhigh => exact .int n
  | float depth digits hdigits => exact .float digits
  | str depth s => exact .str s
  | arr depth items hitems ih =>
      rw [ordered, orderedItems_eq_map]
      refine .arr _ fun v hv => ?_
      obtain ⟨item, hitem, rfl⟩ := List.mem_map.mp hv
      exact ih item hitem
  | obj depth fields hfields ih =>
      refine .obj _ (fun field hfield => ?_) (sorted_mapOf _)
      obtain ⟨original, horiginal, rfl⟩ := exists_of_mem_held hfield
      exact ih original horiginal

end Readable

end Ordered

end Fraisier.Data.Json
