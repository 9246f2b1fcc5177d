import Fraisier.Effect.Program

/-!
# A program logic with rely and guarantee

`wp h R G p Q s` says that `p`, started in `s`, ends in a value and a state that
satisfy `Q`, and that each command it issues satisfies the guarantee `G`, however
the environment moves the state along the rely `R` before each command. With the
rely `Eq` nothing interferes, and `wp_exec` reads the assertion back as a fact
about `Prog.exec` and every transition of the run.
-/

namespace Fraisier.Effect

variable {S T : Sig} {σ τ α β : Type}

/-- A condition on single transitions. -/
def Guarantee (S : Sig) (σ : Type) : Type :=
  σ → S.Cmd → σ → Prop

/-- The guarantee that asks for nothing. -/
def Guarantee.any : Guarantee S σ :=
  fun _ _ _ => True

/-- The guarantee that no command is issued. -/
def Guarantee.none : Guarantee S σ :=
  fun _ _ _ => False

/-- The weakest precondition of `p` for `Q` under rely `R` and guarantee `G`. -/
def wp (h : Handler S σ) (R : σ → σ → Prop) (G : Guarantee S σ) :
    Prog S α → (α → σ → Prop) → σ → Prop
  | .ret a, Q, s => ∀ s', R s s' → Q a s'
  | .call c k, Q, s =>
      ∀ s', R s s' → G s' c (h c s').2 ∧ wp h R G (k (h c s').1) Q (h c s').2
  | .choose k, Q, s => ∀ b, wp h R G (k b) Q s

section Rules

variable {h : Handler S σ} {R : σ → σ → Prop} {G : Guarantee S σ}
variable {Q Q' : α → σ → Prop}

/-- Without interference a returned value has to satisfy the postcondition as it is. -/
@[simp] theorem wp_ret {a : α} {s : σ} : wp h Eq G (.ret a) Q s ↔ Q a s := by
  simp [wp]

/-- Without interference a command is answered in the state it was issued in. -/
@[simp] theorem wp_call {c : S.Cmd} {k : S.Ans c → Prog S α} {s : σ} :
    wp h Eq G (.call c k) Q s ↔
      G s c (h c s).2 ∧ wp h Eq G (k (h c s).1) Q (h c s).2 := by
  simp [wp]

/-- Without interference one command ends in its answer. -/
@[simp] theorem wp_perform {c : S.Cmd} {Q : S.Ans c → σ → Prop} {s : σ} :
    wp h Eq G (Prog.perform c) Q s ↔ G s c (h c s).2 ∧ Q (h c s).1 (h c s).2 := by
  simp [Prog.perform]

/-- A weaker guarantee and a weaker postcondition are met by the same program. -/
theorem wp_mono {G' : Guarantee S σ} {p : Prog S α} {s : σ}
    (hG : ∀ s c s', G s c s' → G' s c s') (hQ : ∀ a s, Q a s → Q' a s)
    (hp : wp h R G p Q s) : wp h R G' p Q' s := by
  induction p generalizing s with
  | ret a => exact fun s' hs => hQ a s' (hp s' hs)
  | call c k ih =>
      intro s' hs
      obtain ⟨hg, hk⟩ := hp s' hs
      exact ⟨hG _ _ _ hg, ih _ hk⟩
  | choose k ih => exact fun b => ih b (hp b)

/-- The consequence rule on the postcondition alone. -/
theorem wp_post {p : Prog S α} {s : σ} (hQ : ∀ a s, Q a s → Q' a s)
    (hp : wp h R G p Q s) : wp h R G p Q' s :=
  wp_mono (fun _ _ _ => id) hQ hp

/-- The sequencing rule. -/
theorem wp_bind [Std.Refl R] {p : Prog S α} {f : α → Prog S β}
    {Q : β → σ → Prop} {s : σ}
    (hp : wp h R G p (fun a s => wp h R G (f a) Q s) s) : wp h R G (p >>= f) Q s := by
  induction p generalizing s with
  | ret a => exact hp s (Std.Refl.refl s)
  | call c k ih =>
      intro s' hs
      obtain ⟨hg, hk⟩ := hp s' hs
      exact ⟨hg, ih _ hk⟩
  | choose k ih => exact fun b => ih b (hp b)

/-- The branching rule. -/
theorem wp_ite {c : Prop} [Decidable c] {p q : Prog S α} {s : σ} (hp : c → wp h R G p Q s)
    (hq : ¬ c → wp h R G q Q s) : wp h R G (if c then p else q) Q s := by
  split
  · exact hp ‹_›
  · exact hq ‹_›

/-- A function applied to the value of a program is applied in its postcondition. -/
theorem wp_map {f : α → β} {Q : β → σ → Prop} {p : Prog S α} {s : σ}
    (hp : wp h R G p (fun a s => Q (f a) s) s) :
    wp h R G (p >>= fun a => .ret (f a)) Q s := by
  induction p generalizing s with
  | ret a => exact hp
  | call c k ih =>
      intro s' hs
      obtain ⟨hg, hk⟩ := hp s' hs
      exact ⟨hg, ih _ hk⟩
  | choose k ih => exact fun b => ih b (hp b)

/-- An assertion about a program survives what the environment may do. -/
theorem wp_stable [IsTrans σ R] {p : Prog S α} {s s' : σ} (hs : R s s')
    (hp : wp h R G p Q s) : wp h R G p Q s' := by
  induction p with
  | ret a => exact fun t ht => hp t (IsTrans.trans _ _ _ hs ht)
  | call c k _ => exact fun t ht => hp t (IsTrans.trans _ _ _ hs ht)
  | choose k ih => exact fun b => ih b (hp b)

/-- A smaller rely asks less of the program. -/
theorem wp_rely {R' : σ → σ → Prop} {p : Prog S α} {s : σ}
    (hR : ∀ s s', R' s s' → R s s') (hp : wp h R G p Q s) : wp h R' G p Q s := by
  induction p generalizing s with
  | ret a => exact fun s' hs => hp s' (hR _ _ hs)
  | call c k ih =>
      intro s' hs
      obtain ⟨hg, hk⟩ := hp s' (hR _ _ hs)
      exact ⟨hg, ih _ hk⟩
  | choose k ih => exact fun b => ih b (hp b)

/-- What is proved of a program twice holds of it together. -/
theorem wp_and {G' : Guarantee S σ} {p : Prog S α} {s : σ} (hp : wp h R G p Q s)
    (hp' : wp h R G' p Q' s) :
    wp h R (fun s c s' => G s c s' ∧ G' s c s') p (fun a s => Q a s ∧ Q' a s) s := by
  induction p generalizing s with
  | ret a => exact fun s' hs => ⟨hp s' hs, hp' s' hs⟩
  | call c k ih =>
      intro s' hs
      obtain ⟨hg, hk⟩ := hp s' hs
      obtain ⟨hg', hk'⟩ := hp' s' hs
      exact ⟨⟨hg, hg'⟩, ih _ hk hk'⟩
  | choose k ih => exact fun b => ih b (hp b) (hp' b)

/-- An invariant of the commands a program may issue holds before each of them and at
the end. -/
theorem wp_keep {I : σ → Prop} (hI : ∀ s c, G s c (h c s).2 → I s → I (h c s).2)
    {p : Prog S α} {s : σ} (hs : I s) (hp : wp h Eq G p Q s) :
    wp h Eq (fun s c s' => I s ∧ G s c s') p (fun a s => I s ∧ Q a s) s := by
  induction p generalizing s with
  | ret a => exact wp_ret.mpr ⟨hs, wp_ret.mp hp⟩
  | call c k ih =>
      obtain ⟨hg, hk⟩ := wp_call.mp hp
      exact wp_call.mpr ⟨⟨hs, hg⟩, ih _ (hI s c hg hs) hk⟩
  | choose k ih => exact fun b => ih b hs (hp b)

end Rules

/-- What `wp` proves holds of every run: the value and the final state satisfy the
postcondition and every transition satisfies the guarantee. -/
theorem wp_exec {h : Handler S σ} {G : Guarantee S σ} {p : Prog S α}
    {Q : α → σ → Prop} {s : σ} (hp : wp h Eq G p Q s) (sched : List Bool) :
    Q (p.exec h sched s).value (p.exec h sched s).final ∧
      ∀ t ∈ (p.exec h sched s).steps, G t.before t.cmd t.after := by
  induction p generalizing s sched with
  | ret a => exact ⟨wp_ret.mp hp, by simp⟩
  | call c k ih =>
      obtain ⟨hg, hk⟩ := wp_call.mp hp
      obtain ⟨hvalue, hsteps⟩ := ih _ hk sched
      refine ⟨hvalue, ?_⟩
      intro t ht
      simp only [Prog.exec, List.mem_cons] at ht
      rcases ht with rfl | ht
      · exact hg
      · exact hsteps t ht
  | choose k ih => exact ih _ (hp _) _

/-- A program without choices all of whose commands satisfy `P`. -/
def Prog.Sequential (P : S.Cmd → Prop) : Prog S α → Prop
  | .ret _ => True
  | .call c k => P c ∧ ∀ x, (k x).Sequential P
  | .choose _ => False

namespace Prog.Sequential

variable {P : S.Cmd → Prop}

theorem ret (a : α) : (Prog.ret a : Prog S α).Sequential P :=
  trivial

theorem perform {c : S.Cmd} (hc : P c) : (Prog.perform c).Sequential P :=
  ⟨hc, fun _ => trivial⟩

theorem bind {p : Prog S α} {f : α → Prog S β} (hp : p.Sequential P)
    (hf : ∀ a, (f a).Sequential P) : (p >>= f).Sequential P := by
  induction p with
  | ret a => exact hf a
  | call c k ih => exact ⟨hp.1, fun x => ih x (hp.2 x)⟩
  | choose k _ => exact hp.elim

/-- A program without choices ends as its one run does, and keeps every invariant of its
commands. -/
theorem wp {h : Handler S σ} {G : Guarantee S σ} {I : σ → Prop} {p : Prog S α}
    (hp : p.Sequential P) (hI : ∀ c s, P c → I s → G s c (h c s).2 ∧ I (h c s).2) {s : σ}
    (hs : I s) :
    Effect.wp h Eq G p (fun a s' => a = (p.exec h [] s).value ∧ s' = (p.exec h [] s).final ∧ I s')
      s := by
  induction p generalizing s with
  | ret a => exact wp_ret.mpr ⟨rfl, rfl, hs⟩
  | call c k ih =>
      obtain ⟨hG, hs'⟩ := hI c s hp.1 hs
      exact wp_call.mpr ⟨hG, ih _ (hp.2 _) hs'⟩
  | choose k _ => exact hp.elim

end Prog.Sequential

section Sum

variable {h : Handler S σ} {g : Handler T τ}

/-- A guarantee on the right signature, read on the sum. -/
def Guarantee.inr (G : Guarantee T τ) : Guarantee (S.sum T) (σ × τ)
  | _, .inl _, _ => True
  | s, .inr c, s' => G s.2 c s'.2

/-- A program over the right signature leaves the left part of the state alone. -/
theorem wp_inr {G : Guarantee T τ} {p : Prog T α} {Q : α → τ → Prop} {s : σ} {t : τ}
    (hp : wp g Eq G p Q t) :
    wp (h.prod g) Eq (Guarantee.inr G) (p.inr (S := S))
      (fun a w => w.1 = s ∧ Q a w.2) (s, t) := by
  induction p generalizing t with
  | ret a => simpa [Prog.inr] using hp
  | call c k ih =>
      obtain ⟨hg, hk⟩ := wp_call.mp hp
      exact wp_call.mpr ⟨hg, ih _ hk⟩
  | choose k ih => exact fun b => ih b (hp b)

end Sum

end Fraisier.Effect
