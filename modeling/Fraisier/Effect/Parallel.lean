import Fraisier.Effect.Logic

/-!
# Concurrent tasks

`par p q` runs two programs in every interleaving of their commands: where both
have a command to issue, a `choose` node lets the schedule decide whose comes
first. `joinAll` runs a list of tasks that way and waits for all of them.
`wp_joinAll` is the rule to use: tasks that do not disturb each other's rely may
be proved one at a time.
-/

namespace Fraisier.Effect

variable {S : Sig} {σ α β κ : Type}

namespace Prog

/-- Interleave a task whose next command is `c` with a second one. `k` continues
the first task after `c` beside whatever is left of the second, and `done` is the
first task alone, once the second has returned. -/
def weave (c : S.Cmd) (k : S.Ans c → Prog S β → Prog S (α × β))
    (done : β → Prog S (α × β)) : Prog S β → Prog S (α × β)
  | .ret b => done b
  | .call d l => .choose fun first =>
      if first then .call c fun x => k x (.call d l)
      else .call d fun y => weave c k done (l y)
  | .choose l => .choose fun first => weave c k done (l first)

/-- Run two tasks concurrently and return both values. -/
def par : Prog S α → Prog S β → Prog S (α × β)
  | .ret a => fun q => q >>= fun b => .ret (a, b)
  | .call c k => weave c (fun x => par (k x))
      fun b => .call c fun x => k x >>= fun a => .ret (a, b)
  | .choose k => fun q => .choose fun first => par (k first) q

/-- Run every task of a list concurrently and return the values in the list's order. -/
def joinAll : List (Prog S α) → Prog S (List α)
  | [] => .ret []
  | p :: ps => par p (joinAll ps) >>= fun r => .ret (r.1 :: r.2)

end Prog

section Rules

variable {h : Handler S σ} {R R₁ R₂ : σ → σ → Prop} {G G₁ G₂ : Guarantee S σ}
variable {Q₁ : α → σ → Prop} {Q₂ : β → σ → Prop}

/-- Once the first task has returned, the second runs on alone. -/
theorem wp_par_ret_left [IsTrans σ R₁] {a : α} {q : Prog S β} {s : σ}
    (hR₁ : ∀ s s', R s s' → R₁ s s') (hR₂ : ∀ s s', R s s' → R₂ s s')
    (hG₂ : ∀ s c s', G₂ s c s' → G s c s' ∧ R₁ s s')
    (hp : wp h R₁ G₁ (.ret a) Q₁ s) (hq : wp h R₂ G₂ q Q₂ s) :
    wp h R G (q >>= fun b => .ret (a, b)) (fun r s => Q₁ r.1 s ∧ Q₂ r.2 s) s := by
  induction q generalizing s with
  | ret b => exact fun s' hs => ⟨hp s' (hR₁ _ _ hs), hq s' (hR₂ _ _ hs)⟩
  | call d l ih =>
      intro s' hs
      obtain ⟨hg, hl⟩ := hq s' (hR₂ _ _ hs)
      obtain ⟨hg', hmove⟩ := hG₂ _ _ _ hg
      exact ⟨hg', ih _ (wp_stable hmove (wp_stable (hR₁ _ _ hs) hp)) hl⟩
  | choose l ih => exact fun first => ih first hp (hq first)

/-- Once the second task has returned, the first runs on alone. -/
theorem wp_par_ret_right [IsTrans σ R₂] {p : Prog S α} {b : β} {s : σ}
    (hR₁ : ∀ s s', R s s' → R₁ s s') (hR₂ : ∀ s s', R s s' → R₂ s s')
    (hG₁ : ∀ s c s', G₁ s c s' → G s c s' ∧ R₂ s s')
    (hp : wp h R₁ G₁ p Q₁ s) (hq : wp h R₂ G₂ (.ret b) Q₂ s) :
    wp h R G (p >>= fun a => .ret (a, b)) (fun r s => Q₁ r.1 s ∧ Q₂ r.2 s) s := by
  induction p generalizing s with
  | ret a => exact fun s' hs => ⟨hp s' (hR₁ _ _ hs), hq s' (hR₂ _ _ hs)⟩
  | call c k ih =>
      intro s' hs
      obtain ⟨hg, hk⟩ := hp s' (hR₁ _ _ hs)
      obtain ⟨hg', hmove⟩ := hG₁ _ _ _ hg
      exact ⟨hg', ih _ hk (wp_stable hmove (wp_stable (hR₂ _ _ hs) hq))⟩
  | choose k ih => exact fun first => ih first (hp first) hq

/-- Two tasks that respect each other's rely may be proved separately. -/
theorem wp_par [IsTrans σ R₁] [IsTrans σ R₂] {p : Prog S α} {q : Prog S β} {s : σ}
    (hR₁ : ∀ s s', R s s' → R₁ s s') (hR₂ : ∀ s s', R s s' → R₂ s s')
    (hG₁ : ∀ s c s', G₁ s c s' → G s c s' ∧ R₂ s s')
    (hG₂ : ∀ s c s', G₂ s c s' → G s c s' ∧ R₁ s s')
    (hp : wp h R₁ G₁ p Q₁ s) (hq : wp h R₂ G₂ q Q₂ s) :
    wp h R G (p.par q) (fun r s => Q₁ r.1 s ∧ Q₂ r.2 s) s := by
  induction p generalizing q s with
  | ret a => exact wp_par_ret_left hR₁ hR₂ hG₂ hp hq
  | choose k ih => exact fun first => ih first (hp first) hq
  | call c k ihp =>
      induction q generalizing s with
      | ret b => exact wp_par_ret_right (p := .call c k) hR₁ hR₂ hG₁ hp hq
      | choose l ihq => exact fun first => ihq first hp (hq first)
      | call d l ihq =>
          intro first
          cases first with
          | true =>
              intro s' hs
              obtain ⟨hg, hk⟩ := hp s' (hR₁ _ _ hs)
              obtain ⟨hg', hmove⟩ := hG₁ _ _ _ hg
              exact ⟨hg', ihp _ hk (wp_stable hmove (wp_stable (hR₂ _ _ hs) hq))⟩
          | false =>
              intro s' hs
              obtain ⟨hg, hl⟩ := hq s' (hR₂ _ _ hs)
              obtain ⟨hg', hmove⟩ := hG₂ _ _ _ hg
              exact ⟨hg', ihq _ (wp_stable hmove (wp_stable (hR₁ _ _ hs) hp)) hl⟩

end Rules

/-- What every task of a family leaves alone. -/
def Rely.all (Rk : κ → σ → σ → Prop) (keys : List κ) : σ → σ → Prop :=
  fun s s' => ∀ k ∈ keys, Rk k s s'

/-- What some task of a family does. -/
def Guarantee.some (Gk : κ → Guarantee S σ) (keys : List κ) : Guarantee S σ :=
  fun s c s' => ∃ k ∈ keys, Gk k s c s'

instance {Rk : κ → σ → σ → Prop} [∀ k, IsTrans σ (Rk k)] (keys : List κ) :
    IsTrans σ (Rely.all Rk keys) where
  trans _ _ _ h₁ h₂ k hk := IsTrans.trans _ _ _ (h₁ k hk) (h₂ k hk)

/-- Tasks that respect each other's rely may be proved one at a time, and the values
come back in the order of the keys. -/
theorem wp_joinAll {h : Handler S σ} {Rk : κ → σ → σ → Prop} {Gk : κ → Guarantee S σ}
    [∀ k, IsTrans σ (Rk k)] {task : κ → Prog S α} {Q : κ → α → σ → Prop} {keys : List κ} {s : σ}
    (hdisjoint : keys.Pairwise fun j k =>
      (∀ s c s', Gk j s c s' → Rk k s s') ∧ ∀ s c s', Gk k s c s' → Rk j s s')
    (htasks : ∀ k ∈ keys, wp h (Rk k) (Gk k) (task k) (Q k) s) :
    wp h (Rely.all Rk keys) (Guarantee.some Gk keys) (Prog.joinAll (keys.map task))
      (fun as s => List.Forall₂ (fun k a => Q k a s) keys as) s := by
  induction keys generalizing s with
  | nil => exact fun _ _ => .nil
  | cons k keys ih =>
      obtain ⟨hk, hkeys⟩ := List.pairwise_cons.mp hdisjoint
      have hrest := ih hkeys fun j hj => htasks j (List.mem_cons_of_mem _ hj)
      refine wp_map (wp_post ?_ (wp_par ?_ ?_ ?_ ?_ (htasks k List.mem_cons_self) hrest))
      · exact fun r s hr => .cons hr.1 hr.2
      · exact fun s s' hs => hs k List.mem_cons_self
      · exact fun s s' hs j hj => hs j (List.mem_cons_of_mem _ hj)
      · exact fun s c s' hg => ⟨⟨k, List.mem_cons_self, hg⟩,
          fun j hj => (hk j hj).1 _ _ _ hg⟩
      · rintro s c s' ⟨j, hj, hg⟩
        exact ⟨⟨j, List.mem_cons_of_mem _ hj, hg⟩, (hk j hj).2 _ _ _ hg⟩

end Fraisier.Effect
