import Mathlib.Data.List.Forall2
import Fraisier.Effect.Parallel

/-!
# Tasks that own a component of the state

The state of a handler is seen as components, indexed by keys, and a frame. A task is
local to a key when its commands read and write that component only. Local tasks with
distinct keys do not notice each other, so `localWp` reasons about one task as if its
component were the whole state, and `wp_joinAll_local` puts the tasks together.
-/

namespace Fraisier.Effect

variable {S : Sig} {σ κ ν φ α β : Type}

/-- How a state is read as components and a frame. -/
structure Components (σ κ ν φ : Type) where
  get : σ → κ → ν
  frame : σ → φ

namespace Components

variable (v : Components σ κ ν φ)

/-- The frame and every component outside `keys` stay as they are. -/
def SameOutside (keys : List κ) (s s' : σ) : Prop :=
  v.frame s' = v.frame s ∧ ∀ k, k ∉ keys → v.get s' k = v.get s k

/-- What the owner of `k` may rely on while the owners of `keys` run. -/
def Undisturbed (keys : List κ) (k : κ) (s s' : σ) : Prop :=
  v.get s' k = v.get s k ∧ v.SameOutside keys s s'

/-- What the owner of `k` promises: it changes its own component only. -/
def Owns (G : Guarantee S σ) (k : κ) : Guarantee S σ :=
  fun s c s' => G s c s' ∧ v.frame s' = v.frame s ∧ ∀ j, j ≠ k → v.get s' j = v.get s j

variable {v}

theorem SameOutside.refl (keys : List κ) (s : σ) : v.SameOutside keys s s :=
  ⟨rfl, fun _ _ => rfl⟩

theorem SameOutside.trans {keys : List κ} {s s' s'' : σ} (h : v.SameOutside keys s s')
    (h' : v.SameOutside keys s' s'') : v.SameOutside keys s s'' :=
  ⟨h'.1.trans h.1, fun k hk => (h'.2 k hk).trans (h.2 k hk)⟩

instance (keys : List κ) (k : κ) : Std.Refl (v.Undisturbed keys k) where
  refl s := ⟨rfl, .refl keys s⟩

instance (keys : List κ) (k : κ) : IsTrans σ (v.Undisturbed keys k) where
  trans _ _ _ h h' := ⟨h'.1.trans h.1, h.2.trans h'.2⟩

/-- The owner of one key does not disturb the owner of another. -/
theorem Owns.undisturbed {G : Guarantee S σ} {keys : List κ} {j k : κ} {s s' : σ} {c : S.Cmd}
    (hown : v.Owns G j s c s') (hj : j ∈ keys) (hne : j ≠ k) : v.Undisturbed keys k s s' :=
  ⟨hown.2.2 k hne.symm, hown.2.1, fun i hi => hown.2.2 i fun heq => hi (heq ▸ hj)⟩

/-- A command whose answer and effect are those of `step` on the component `k`. -/
def LocalCommand (v : Components σ κ ν φ) (h : Handler S σ) (G : Guarantee S σ) (k : κ)
    (c : S.Cmd) (step : ν → S.Ans c × ν) : Prop :=
  ∀ s, (h c s).1 = (step (v.get s k)).1 ∧ v.get (h c s).2 k = (step (v.get s k)).2 ∧
    v.Owns G k s c (h c s).2

/-- The weakest precondition of a task that owns component `k`, on that component. -/
def localWp (v : Components σ κ ν φ) (h : Handler S σ) (G : Guarantee S σ) (keys : List κ)
    (k : κ) (p : Prog S α) (Q : α → ν → Prop) (x : ν) : Prop :=
  ∀ s, v.get s k = x → wp h (v.Undisturbed keys k) (v.Owns G k) p
    (fun a s' => Q a (v.get s' k) ∧ v.SameOutside keys s s') s

section Rules

variable {h : Handler S σ} {G : Guarantee S σ} {keys : List κ} {k : κ} {x : ν}

theorem localWp_ret {a : α} {Q : α → ν → Prop} (hQ : Q a x) :
    v.localWp h G keys k (.ret a) Q x := by
  rintro s rfl s' ⟨hget, hout⟩
  exact ⟨hget ▸ hQ, hout⟩

theorem localWp_post {p : Prog S α} {Q Q' : α → ν → Prop} (hQ : ∀ a y, Q a y → Q' a y)
    (hp : v.localWp h G keys k p Q x) : v.localWp h G keys k p Q' x :=
  fun s hs => wp_post (fun a _ ha => ⟨hQ a _ ha.1, ha.2⟩) (hp s hs)

theorem localWp_bind {p : Prog S α} {f : α → Prog S β} {Q : β → ν → Prop}
    (hp : v.localWp h G keys k p (fun a y => v.localWp h G keys k (f a) Q y) x) :
    v.localWp h G keys k (p >>= f) Q x := by
  intro s hs
  refine wp_bind (wp_post ?_ (hp s hs))
  rintro a s' ⟨ha, hout⟩
  exact wp_post (fun b t hb => ⟨hb.1, hout.trans hb.2⟩) (ha s' rfl)

theorem localWp_perform (hk : k ∈ keys) {c : S.Cmd} {step : ν → S.Ans c × ν}
    (hc : v.LocalCommand h G k c step) {Q : S.Ans c → ν → Prop} (hQ : Q (step x).1 (step x).2) :
    v.localWp h G keys k (.perform c) Q x := by
  rintro s rfl s' ⟨hget, hout⟩
  obtain ⟨hans, hown, hG⟩ := hc s'
  have hstep : v.SameOutside keys s' (h c s').2 :=
    ⟨hG.2.1, fun j hj => hG.2.2 j fun heq => hj (heq ▸ hk)⟩
  refine ⟨hG, ?_⟩
  rintro s'' ⟨hget', hout'⟩
  refine ⟨?_, (hout.trans hstep).trans hout'⟩
  rw [hget', hown, hans, hget]
  exact hQ

end Rules

/-- Local tasks with distinct keys run together as each would alone, in every
interleaving, and leave everything outside their components alone. -/
theorem wp_joinAll_local {ι : Type} {h : Handler S σ} {G : Guarantee S σ} {owner : ι → κ}
    {tasks : List ι} (hdistinct : (tasks.map owner).Nodup) {task : ι → Prog S α}
    {Q : ι → α → ν → Prop} {s : σ}
    (htasks : ∀ i ∈ tasks, v.localWp h G (tasks.map owner) (owner i) (task i) (Q i)
      (v.get s (owner i))) :
    wp h Eq G (Prog.joinAll (tasks.map task))
      (fun as s' => List.Forall₂ (fun i a => Q i a (v.get s' (owner i))) tasks as ∧
        v.SameOutside (tasks.map owner) s s') s := by
  by_cases hne : tasks = []
  · subst hne
    exact wp_ret.mpr ⟨.nil, .refl _ _⟩
  have hdisjoint : tasks.Pairwise fun i j =>
      (∀ s c s', v.Owns G (owner i) s c s' →
        v.Undisturbed (tasks.map owner) (owner j) s s') ∧
      ∀ s c s', v.Owns G (owner j) s c s' →
        v.Undisturbed (tasks.map owner) (owner i) s s' := by
    refine (List.pairwise_map.mp hdistinct).imp_of_mem fun {i j} hi hj hij => ⟨?_, ?_⟩
    · exact fun s c s' hown => hown.undisturbed (List.mem_map_of_mem hi) hij
    · exact fun s c s' hown => hown.undisturbed (List.mem_map_of_mem hj) hij.symm
  have hjoin := wp_joinAll hdisjoint fun i hi => htasks i hi s rfl
  refine wp_mono ?_ ?_ (wp_rely ?_ hjoin)
  · rintro s c s' ⟨i, -, hown⟩
    exact hown.1
  · intro as s' has
    obtain ⟨i, a, ha⟩ : ∃ i a,
        Q i a (v.get s' (owner i)) ∧ v.SameOutside (tasks.map owner) s s' := by
      cases has with
      | nil => exact absurd rfl hne
      | cons ha _ => exact ⟨_, _, ha⟩
    exact ⟨has.imp fun i a ha => ha.1, ha.2⟩
  · rintro s s' rfl i -
    exact Std.Refl.refl s

end Components

end Fraisier.Effect
