import Mathlib.Data.Fintype.Card
import Mathlib.Data.Set.Finite.Basic
import Mathlib.Logic.Relation
import Mathlib.Order.Defs.LinearOrder
import Mathlib.Order.WellFounded

/-!
# Orders in which dependencies come first

Items that depend on each other are placed one by one: each is the least of those whose
dependencies are placed (`Greedy`). There is one such order at most, and where nothing can be
placed any more the items that are left are those that lead to a cycle (`Greedy.mem_iff`).
-/

namespace Fraisier.Data

open Relation

section Cycles

variable {α : Type} {r : α → α → Prop} {s : Set α}

/-- Where every member of a finite set depends on another one, each leads to a cycle. -/
theorem exists_cycle (hs : s.Finite) (hserial : ∀ a ∈ s, ∃ b ∈ s, r a b) {a : α} (ha : a ∈ s) :
    ∃ c, ReflTransGen r a c ∧ TransGen r c c := by
  by_contra hnone
  let reached : Type := {b // b ∈ s ∧ ReflTransGen r a b}
  let before (x y : reached) : Prop := TransGen r y.1 x.1
  have hfinite : Finite reached := hs.subset fun b hb => hb.1
  have htrans : IsTrans reached before := ⟨fun _ _ _ hxy hyz => hyz.trans hxy⟩
  have hirrefl : Std.Irrefl before := ⟨fun x hx => hnone ⟨x.1, x.2.2, hx⟩⟩
  obtain ⟨least, -, hleast⟩ := (Finite.wellFounded_of_trans_of_irrefl before).has_min Set.univ
    ⟨⟨a, ha, .refl⟩, trivial⟩
  -- The last item that is reached depends on one that is reached as well.
  obtain ⟨b, hb, hdepends⟩ := hserial least.1 least.2.1
  exact hleast ⟨b, hb, least.2.2.tail hdepends⟩ trivial (.single hdepends)

end Cycles

variable {α : Type} {items : α → Prop} {r : α → α → Prop} {done rest order : List α} {a b : α}

/-- An item that is not placed, and whose dependencies are. -/
def Open (items : α → Prop) (r : α → α → Prop) (done : List α) (a : α) : Prop :=
  items a ∧ a ∉ done ∧ ∀ b, r a b → b ∈ done

/-- An item that depends on one that leads to a cycle, or is on one. -/
def LeadsToCycle (r : α → α → Prop) (a : α) : Prop :=
  ∃ c, ReflTransGen r a c ∧ TransGen r c c

theorem leadsToCycle_of_transGen (h : TransGen r a a) : LeadsToCycle r a :=
  ⟨a, .refl, h⟩

/-- What leads to a cycle depends on something that does. -/
theorem LeadsToCycle.next (h : LeadsToCycle r a) : ∃ b, r a b ∧ LeadsToCycle r b := by
  obtain ⟨c, hac, hcc⟩ := h
  obtain rfl | ⟨b, hab, hbc⟩ := hac.cases_head
  · obtain ⟨b, hab, hba⟩ := TransGen.head'_iff.mp hcc
    exact ⟨b, hab, a, hba, hcc⟩
  · exact ⟨b, hab, c, hbc, hcc⟩

section Greedy

variable [LinearOrder α]

/-- Items that are placed after others, each the least that can be. -/
def Greedy (items : α → Prop) (r : α → α → Prop) : List α → List α → Prop
  | _, [] => True
  | done, a :: rest =>
      Open items r done a ∧ (∀ b, Open items r done b → a ≤ b) ∧
        Greedy items r (done ++ [a]) rest

theorem Greedy.split (h : Greedy items r done rest) {before after : List α}
    (hsplit : rest = before ++ a :: after) :
    Open items r (done ++ before) a ∧ ∀ b, Open items r (done ++ before) b → a ≤ b := by
  induction before generalizing done rest with
  | nil =>
      subst hsplit
      rw [List.append_nil]
      exact ⟨h.1, h.2.1⟩
  | cons first before ih =>
      subst hsplit
      have hrest := ih h.2.2 rfl
      rwa [List.append_assoc, List.singleton_append] at hrest

theorem Greedy.items_of_mem (h : Greedy items r done rest) (ha : a ∈ rest) : items a := by
  obtain ⟨before, after, hsplit⟩ := List.append_of_mem ha
  exact (h.split hsplit).1.1

theorem Greedy.nodup (h : Greedy items r done rest) (hdone : done.Nodup) :
    (done ++ rest).Nodup := by
  induction rest generalizing done with
  | nil => simpa using hdone
  | cons a rest ih =>
      have hnext : (done ++ [a]).Nodup :=
        List.nodup_append_comm.mp (List.nodup_cons.mpr ⟨h.1.2.1, hdone⟩)
      simpa using ih h.2.2 hnext

/-- Nothing that leads to a cycle is placed. -/
theorem Greedy.not_leadsToCycle (h : Greedy items r done rest)
    (hdone : ∀ b ∈ done, ¬ LeadsToCycle r b) : ∀ b ∈ rest, ¬ LeadsToCycle r b := by
  induction rest generalizing done with
  | nil => exact fun b hb => (List.not_mem_nil hb).elim
  | cons a rest ih =>
      have ha : ¬ LeadsToCycle r a := by
        intro hcycle
        obtain ⟨b, hab, hb⟩ := hcycle.next
        exact hdone b (h.1.2.2 b hab) hb
      refine List.forall_mem_cons.mpr ⟨ha, ih h.2.2 ?_⟩
      intro b hb
      obtain hb | hb := List.mem_append.mp hb
      · exact hdone b hb
      · exact List.mem_singleton.mp hb ▸ ha

/-- Two orders to whose ends nothing can be added are one. -/
theorem Greedy.unique {rest' : List α} (h : Greedy items r done rest)
    (h' : Greedy items r done rest') (hend : ∀ b, ¬ Open items r (done ++ rest) b)
    (hend' : ∀ b, ¬ Open items r (done ++ rest') b) : rest = rest' := by
  induction rest generalizing done rest' with
  | nil =>
      cases rest' with
      | nil => rfl
      | cons b rest' =>
          rw [List.append_nil] at hend
          exact (hend b h'.1).elim
  | cons a rest ih =>
      cases rest' with
      | nil =>
          rw [List.append_nil] at hend'
          exact (hend' a h.1).elim
      | cons b rest' =>
          obtain rfl : a = b := le_antisymm (h.2.1 b h'.1) (h'.2.1 a h.1)
          refine congrArg _ (ih h.2.2 h'.2.2 ?_ ?_)
          · simpa using hend
          · simpa using hend'

/-- What is placed, when nothing can be placed any more: the items that lead to no cycle. -/
theorem Greedy.mem_iff (h : Greedy items r [] order) (hend : ∀ b, ¬ Open items r order b)
    (hfinite : {b | items b}.Finite) (hitems : ∀ b c, r b c → items c) (ha : items a) :
    a ∈ order ↔ ¬ LeadsToCycle r a := by
  constructor
  · intro hmem
    exact h.not_leadsToCycle (fun b hb => (List.not_mem_nil hb).elim) a hmem
  · intro hcycle
    by_contra hmem
    refine hcycle (exists_cycle (s := {b | items b ∧ b ∉ order}) (hfinite.subset fun b hb => hb.1)
      ?_ ⟨ha, hmem⟩)
    intro b hb
    by_contra hnone
    refine hend b ⟨hb.1, hb.2, fun c hbc => ?_⟩
    by_contra hc
    exact hnone ⟨c, ⟨hitems b c hbc, hc⟩, hbc⟩

end Greedy

end Fraisier.Data
