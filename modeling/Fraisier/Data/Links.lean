import Mathlib.Data.List.Basic

/-!
# Entries that are links

What an entry of a disk leads to when its links are followed, each at most so many times as
the system allows. An entry leads nowhere when a link dangles or the links do not end.
-/

namespace Fraisier.Data

/-- What stands under an entry: a file with its content, something else that is no link, or a
link to an entry. -/
inductive Node (E C : Type) where
  | file (content : C)
  | other
  | link (target : E)
deriving DecidableEq

namespace Node

variable {E C : Type}

def isFile : Node E C → Bool
  | file _ => true
  | _ => false

def isLink : Node E C → Bool
  | link _ => true
  | _ => false

/-- How many links are followed. -/
def maxLinks : Nat := 40

/-- The entries that following the links of an entry passes, the entry first. -/
def trail (node : E → Option (Node E C)) : Nat → E → List E
  | 0, e => [e]
  | n + 1, e =>
      match node e with
      | some (.link target) => e :: trail node n target
      | _ => [e]

/-- The entry that an entry leads to, which is no link. -/
def lead (node : E → Option (Node E C)) : Nat → E → Option E
  | 0, e =>
      match node e with
      | some (.link _) => none
      | some _ => some e
      | none => none
  | n + 1, e =>
      match node e with
      | some (.link target) => lead node n target
      | some _ => some e
      | none => none

variable {node node' : E → Option (Node E C)}

theorem trail_eq_cons (n : Nat) (e : E) : trail node n e = e :: (trail node n e).tail := by
  cases n with
  | zero => rfl
  | succ n =>
      rw [trail]
      split <;> rfl

theorem mem_trail_self (n : Nat) (e : E) : e ∈ trail node n e := by
  rw [trail_eq_cons]
  exact List.mem_cons_self

theorem trail_of_link {n : Nat} {e target : E} (h : node e = some (.link target)) :
    trail node (n + 1) e = e :: trail node n target := by
  rw [trail, h]

theorem trail_of_not_link {n : Nat} {e : E} (h : ∀ target, node e ≠ some (.link target)) :
    trail node n e = [e] := by
  cases n with
  | zero => rfl
  | succ n =>
      rw [trail]
      split
      · exact absurd ‹_› (h _)
      · rfl

/-- The trail of a link ends where the trail of its target does. -/
theorem getLastD_trail_of_link {n : Nat} {e target : E} (h : node e = some (.link target)) :
    (trail node (n + 1) e).getLastD e = (trail node n target).getLastD target := by
  rw [trail_of_link h, List.getLastD_cons, trail_eq_cons n target, List.getLastD_cons,
    List.getLastD_cons]

/-- The trail of an entry depends on the links in it only. -/
theorem trail_congr {n : Nat} {e : E}
    (h : ∀ x ∈ trail node n e, ∀ target,
      node' x = some (.link target) ↔ node x = some (.link target)) :
    trail node' n e = trail node n e := by
  induction n generalizing e with
  | zero => rfl
  | succ n ih =>
      have hself := h e (mem_trail_self _ e)
      by_cases hlink : ∃ target, node e = some (.link target)
      · obtain ⟨target, hlink⟩ := hlink
        rw [trail_of_link hlink] at h ⊢
        rw [trail_of_link ((hself target).mpr hlink),
          ih fun x hx => h x (List.mem_cons_of_mem e hx)]
      · have hnot := not_exists.mp hlink
        have hnot' := fun target => (hself target).not.mpr (hnot target)
        rw [trail_of_not_link hnot, trail_of_not_link hnot']

/-- What an entry leads to is in its trail. -/
theorem lead_mem_trail {n : Nat} {e target : E} (h : lead node n e = some target) :
    target ∈ trail node n e := by
  induction n generalizing e with
  | zero =>
      rw [lead] at h
      split at h
      · cases h
      · exact Option.some.inj h ▸ mem_trail_self 0 e
      · cases h
  | succ n ih =>
      rw [lead] at h
      cases hnode : node e with
      | none =>
          rw [hnode] at h
          cases h
      | some entry =>
          rw [hnode] at h
          cases entry with
          | link next =>
              rw [trail, hnode]
              exact List.mem_cons_of_mem e (ih h)
          | _ => exact Option.some.inj h ▸ mem_trail_self _ e

/-- What an entry leads to depends on the entries of its trail only. -/
theorem lead_congr {n : Nat} {e : E} (h : ∀ x ∈ trail node n e, node' x = node x) :
    lead node' n e = lead node n e := by
  induction n generalizing e with
  | zero => rw [lead, lead, h e (mem_trail_self 0 e)]
  | succ n ih =>
      rw [lead, lead, h e (mem_trail_self _ e)]
      cases hnode : node e with
      | none => rfl
      | some entry =>
          cases entry with
          | link target =>
              refine ih fun x hx => h x ?_
              rw [trail, hnode]
              exact List.mem_cons_of_mem e hx
          | _ => rfl

/-- Where entries are only taken away, an entry leads where it led. -/
theorem lead_of_removed (hnode : ∀ x, node' x = node x ∨ node' x = none) {n : Nat} {e target : E}
    (h : lead node' n e = some target) : lead node n e = some target := by
  induction n generalizing e with
  | zero =>
      rw [lead] at h ⊢
      obtain heq | hnone := hnode e
      · rwa [heq] at h
      · rw [hnone] at h
        cases h
  | succ n ih =>
      rw [lead] at h ⊢
      obtain heq | hnone := hnode e
      · rw [heq] at h
        cases hentry : node e with
        | none =>
            rw [hentry] at h
            cases h
        | some entry =>
            rw [hentry] at h
            cases entry with
            | link next => exact ih h
            | _ => exact h
      · rw [hnone] at h
        cases h

end Node

end Fraisier.Data
