import Fraisier.Effect.Parallel

/-!
# Runs whose steps meet a condition

`Prog.Issues P` bounds the commands of a program whatever a scheduler decides, and is kept
by concurrent composition. `Handler.noting A` answers like a handler and notes beside the
state whether every step so far met `A`, so that the rules of `wp` may be used for runs
whose steps all do: `exec_prod_noting` reads the note back from the steps of a run.
-/

namespace Fraisier.Effect

variable {S T : Sig} {σ τ α β : Type}

/-- A program all of whose commands satisfy `P`. -/
def Prog.Issues (P : S.Cmd → Prop) : Prog S α → Prop
  | .ret _ => True
  | .call c k => P c ∧ ∀ x, (k x).Issues P
  | .choose k => ∀ b, (k b).Issues P

namespace Prog.Issues

variable {P : S.Cmd → Prop}

theorem ret (a : α) : (Prog.ret a : Prog S α).Issues P :=
  trivial

theorem perform {c : S.Cmd} (hc : P c) : (Prog.perform c).Issues P :=
  ⟨hc, fun _ => trivial⟩

theorem mono {P' : S.Cmd → Prop} (hP : ∀ c, P c → P' c) {p : Prog S α} (hp : p.Issues P) :
    p.Issues P' := by
  induction p with
  | ret a => trivial
  | call c k ih => exact ⟨hP c hp.1, fun x => ih x (hp.2 x)⟩
  | choose k ih => exact fun b => ih b (hp b)

theorem bind {p : Prog S α} {f : α → Prog S β} (hp : p.Issues P)
    (hf : ∀ a, (f a).Issues P) : (p >>= f).Issues P := by
  induction p with
  | ret a => exact hf a
  | call c k ih => exact ⟨hp.1, fun x => ih x (hp.2 x)⟩
  | choose k ih => exact fun b => ih b (hp b)

theorem weave {c : S.Cmd} (hc : P c) {k : S.Ans c → Prog S β → Prog S (α × β)}
    {done : β → Prog S (α × β)} (hk : ∀ x q, q.Issues P → (k x q).Issues P)
    (hdone : ∀ b, (done b).Issues P) {q : Prog S β} (hq : q.Issues P) :
    (Prog.weave c k done q).Issues P := by
  induction q with
  | ret b => exact hdone b
  | choose l ih => exact fun first => ih first (hq first)
  | call d l ih =>
      intro first
      cases first with
      | true => exact ⟨hc, fun x => hk x _ hq⟩
      | false => exact ⟨hq.1, fun y => ih y (hq.2 y)⟩

theorem par {p : Prog S α} {q : Prog S β} (hp : p.Issues P) (hq : q.Issues P) :
    (p.par q).Issues P := by
  induction p generalizing q with
  | ret a => exact hq.bind fun b => .ret _
  | choose k ih => exact fun first => ih first (hp first) hq
  | call c k ih =>
      refine weave hp.1 (fun x q hq => ih x (hp.2 x) hq) (fun b => ?_) hq
      exact ⟨hp.1, fun x => (hp.2 x).bind fun a => .ret _⟩

/-- Concurrent tasks issue what each of them issues. -/
theorem joinAll {ps : List (Prog S α)} (hps : ∀ p ∈ ps, p.Issues P) :
    (Prog.joinAll ps).Issues P := by
  induction ps with
  | nil => exact .ret _
  | cons p ps ih =>
      obtain ⟨hp, hps⟩ := List.forall_mem_cons.mp hps
      exact (hp.par (ih hps)).bind fun r => .ret _

/-- An invariant of the commands is an invariant of the program. -/
theorem wp {h : Handler S σ} {I : σ → Prop} {p : Prog S α} (hp : p.Issues P)
    (hI : ∀ c s, P c → I s → I (h c s).2) {s : σ} (hs : I s) :
    Effect.wp h Eq Guarantee.any p (fun _ s' => I s') s := by
  induction p generalizing s with
  | ret a => exact wp_ret.mpr hs
  | call c k ih => exact wp_call.mpr ⟨trivial, ih _ (hp.2 _) (hI c s hp.1 hs)⟩
  | choose k ih => exact fun b => ih b (hp b) hs

/-- An invariant of the commands holds around every step of the program. -/
theorem wp_steps {h : Handler S σ} {I : σ → Prop} {p : Prog S α} (hp : p.Issues P)
    (hI : ∀ c s, P c → I s → I (h c s).2) {s : σ} (hs : I s) :
    Effect.wp h Eq (fun s _ s' => I s ∧ I s') p (fun _ s' => I s') s := by
  induction p generalizing s with
  | ret a => exact wp_ret.mpr hs
  | call c k ih =>
      have hs' := hI c s hp.1 hs
      exact wp_call.mpr ⟨⟨hs, hs'⟩, ih _ (hp.2 _) hs'⟩
  | choose k ih => exact fun b => ih b (hp b) hs

end Prog.Issues

/-- Every program ends somewhere. -/
theorem wp_any {h : Handler S σ} {p : Prog S α} {Q : α → σ → Prop} {s : σ}
    (hQ : ∀ a s', Q a s') : wp h Eq Guarantee.any p Q s := by
  induction p generalizing s with
  | ret a => exact wp_ret.mpr (hQ a s)
  | call c k ih => exact wp_call.mpr ⟨trivial, ih _⟩
  | choose k ih => exact fun b => ih b

/-- Answer like `h`, and note whether every step so far met `A`. -/
def Handler.noting (h : Handler S σ) (A : Transition S σ → Prop) : Handler S (σ × Prop) :=
  fun c s => ((h c s.1).1, (h c s.1).2, s.2 ∧ A (Prog.answer h c s.1))

/-- A condition on the steps of the right signature. -/
def Transition.Right (A : Transition T τ → Prop) : Transition (S.sum T) (σ × τ) → Prop
  | ⟨_, .inl _, _, _⟩ => True
  | ⟨before, .inr c, ans, after⟩ => A ⟨before.2, c, ans, after.2⟩

theorem Transition.Right.and {A B : Transition T τ → Prop} {step : Transition (S.sum T) (σ × τ)}
    (hA : step.Right A) (hB : step.Right B) : step.Right fun t => A t ∧ B t := by
  obtain ⟨before, c | c, ans, after⟩ := step
  · trivial
  · exact ⟨hA, hB⟩

/-- What every command on the right leaves holds around every step. -/
theorem forall_steps_of_right {h : Handler S σ} {g : Handler T τ} {p : Prog (S.sum T) α}
    {sched : List Bool} {s : σ} {t : τ} {I : τ → Prop} (ht : I t)
    (hsteps : ∀ step ∈ (p.exec (h.prod g) sched (s, t)).steps,
      step.Right fun step => I step.after) :
    ∀ step ∈ (p.exec (h.prod g) sched (s, t)).steps, I step.before.2 ∧ I step.after.2 := by
  induction p generalizing sched s t with
  | ret a => simp
  | choose k ih => exact ih _ ht hsteps
  | call c k ih =>
      obtain ⟨hfirst, hrest⟩ := List.forall_mem_cons.mp hsteps
      cases c with
      | inl c => exact List.forall_mem_cons.mpr ⟨⟨ht, ht⟩, ih _ ht hrest⟩
      | inr c => exact List.forall_mem_cons.mpr ⟨⟨ht, hfirst⟩, ih _ hfirst hrest⟩

/-- A run whose steps meet the condition is also a run that notes it. -/
theorem exec_prod_noting {h : Handler S σ} {g : Handler T τ} {A : Transition T τ → Prop}
    {p : Prog (S.sum T) α} {sched : List Bool} {s : σ} {t : τ} {noted : Prop} (hnoted : noted)
    (hsteps : ∀ step ∈ (p.exec (h.prod g) sched (s, t)).steps, step.Right A) :
    ∃ noted' : Prop, noted' ∧
      (p.exec (h.prod (g.noting A)) sched (s, t, noted)).value =
        (p.exec (h.prod g) sched (s, t)).value ∧
      (p.exec (h.prod (g.noting A)) sched (s, t, noted)).final =
        ((p.exec (h.prod g) sched (s, t)).final.1, (p.exec (h.prod g) sched (s, t)).final.2,
          noted') := by
  induction p generalizing sched s t noted with
  | ret a => exact ⟨noted, hnoted, rfl, rfl⟩
  | choose k ih => exact ih _ hnoted hsteps
  | call c k ih =>
      obtain ⟨hfirst, hrest⟩ := List.forall_mem_cons.mp hsteps
      cases c with
      | inl c => exact ih _ hnoted hrest
      | inr c => exact ih _ ⟨hnoted, hfirst⟩ hrest

/-- What a guarantee says of the noted run holds of the run. -/
theorem right_of_noting {h : Handler S σ} {g : Handler T τ} {A : Transition T τ → Prop}
    {G : τ → T.Cmd → τ → Prop} {p : Prog (S.sum T) α} {sched : List Bool} {s : σ} {t : τ}
    {noted : Prop} (hnoted : noted)
    (hsteps : ∀ step ∈ (p.exec (h.prod g) sched (s, t)).steps, step.Right A)
    (hG : ∀ step ∈ (p.exec (h.prod (g.noting A)) sched (s, t, noted)).steps,
      Guarantee.inr (fun s c s' => s'.2 → G s.1 c s'.1) step.before step.cmd step.after) :
    ∀ step ∈ (p.exec (h.prod g) sched (s, t)).steps,
      step.Right fun t => G t.before t.cmd t.after := by
  induction p generalizing sched s t noted with
  | ret a => simp
  | choose k ih => exact ih _ hnoted hsteps hG
  | call c k ih =>
      obtain ⟨hfirst, hrest⟩ := List.forall_mem_cons.mp hsteps
      obtain ⟨hGfirst, hGrest⟩ := List.forall_mem_cons.mp hG
      cases c with
      | inl c => exact List.forall_mem_cons.mpr ⟨trivial, ih _ hnoted hrest hGrest⟩
      | inr c =>
          refine List.forall_mem_cons.mpr ⟨?_, ih _ ⟨hnoted, hfirst⟩ hrest hGrest⟩
          exact hGfirst ⟨hnoted, hfirst⟩

end Fraisier.Effect
