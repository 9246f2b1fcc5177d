import Fraisier.Effect.Conditions
import Fraisier.Effect.Parallel

/-!
# Histories of runs

The history of a run is the list of its calls, each command with the answer it got.
`Handler.logged` keeps it beside the state, so that the rules of `wp` speak about it
while the answers stay arbitrary: `wp_logged` is the rule for one call. Read
`exec_of_logged` first: what holds of the log while a program runs holds of the calls of
every run, under every handler.
-/

namespace Fraisier.Effect

variable {S T : Sig} {σ τ α : Type}

/-- A command with the answer it got. -/
structure Event (S : Sig) where
  cmd : S.Cmd
  ans : S.Ans cmd

/-- The call of a transition. -/
def Transition.event (t : Transition S σ) : Event S :=
  ⟨t.cmd, t.ans⟩

/-- The call of a transition, if it belongs to the right signature. -/
def Transition.right? (t : Transition (S.sum T) σ) : Option (Event T) :=
  match t with
  | ⟨_, .inl _, _, _⟩ => none
  | ⟨_, .inr c, ans, _⟩ => some ⟨c, ans⟩

/-- The calls of a run. -/
def Run.calls (r : Run S σ α) : List (Event S) :=
  r.steps.map Transition.event

/-- The calls of a run that belong to the right signature. -/
def Run.rights (r : Run (S.sum T) σ α) : List (Event T) :=
  r.steps.filterMap Transition.right?

/-- Answer like a handler, and keep every call in order. -/
def Handler.logged (g : Handler T τ) : Handler T (τ × List (Event T)) :=
  fun c s => ((g c s.1).1, (g c s.1).2, s.2 ++ [⟨c, (g c s.1).1⟩])

/-- Which command may follow which calls. -/
def Permit (T : Sig) : Type :=
  List (Event T) → T.Cmd → Prop

/-- The guarantee that every command is permitted after the calls so far. -/
def Permit.guarantee (G : Permit T) : Guarantee T (τ × List (Event T)) :=
  fun s c _ => G s.2 c

/-- After the calls `log`, every further call is permitted where it stands. -/
def Permit.Kept (G : Permit T) (log calls : List (Event T)) : Prop :=
  ∀ before e after, calls = before ++ e :: after → G (log ++ before) e.cmd

theorem Permit.kept_nil {G : Permit T} {log : List (Event T)} : G.Kept log [] := by
  intro before e after hcalls
  simp at hcalls

theorem Permit.Kept.cons {G : Permit T} {log calls : List (Event T)} {e : Event T}
    (he : G log e.cmd) (hcalls : G.Kept (log ++ [e]) calls) : G.Kept log (e :: calls) := by
  intro before f after hsplit
  cases before with
  | nil =>
      obtain ⟨rfl, -⟩ := List.cons.inj hsplit
      simpa using he
  | cons e' before =>
      obtain ⟨rfl, hrest⟩ := List.cons.inj hsplit
      simpa using hcalls before f after hrest

section Rules

variable {h : Handler S σ} {g : Handler T τ} {G : Permit T} {t : τ} {log : List (Event T)}

/-- A permitted call may be answered in any way. -/
theorem wp_logged {c : T.Cmd} {Q : T.Ans c → τ × List (Event T) → Prop} (hG : G log c)
    (hQ : ∀ x t', Q x (t', log ++ [⟨c, x⟩])) :
    wp g.logged Eq G.guarantee (.perform c) Q (t, log) :=
  wp_perform.mpr ⟨hG, hQ _ _⟩

/-- What holds of the log holds of the calls of every run. -/
theorem exec_of_logged {p : Prog T α} {Q : α → List (Event T) → Prop}
    (hp : wp g.logged Eq G.guarantee p (fun a s => Q a s.2) (t, log)) (sched : List Bool) :
    Q (p.exec g sched t).value (log ++ (p.exec g sched t).calls) ∧
      G.Kept log (p.exec g sched t).calls := by
  induction p generalizing t log sched with
  | ret a => exact ⟨by simpa [Run.calls] using hp, Permit.kept_nil⟩
  | call c k ih =>
      obtain ⟨hG, hk⟩ := wp_call.mp hp
      obtain ⟨hvalue, hkept⟩ := ih _ hk sched
      refine ⟨?_, Permit.Kept.cons hG hkept⟩
      show Q _ (log ++ ⟨c, (g c t).1⟩ :: (Prog.exec g (k (g c t).1) sched (g c t).2).calls)
      rw [List.append_cons]
      exact hvalue
  | choose k ih => exact ih _ (hp _) _

/-- What holds of the log of the right signature holds of its calls in every run. -/
theorem exec_of_logged_right {p : Prog (S.sum T) α} {Q : α → List (Event T) → Prop} {s : σ}
    (hp : wp (h.prod g.logged) Eq (Guarantee.inr G.guarantee) p (fun a w => Q a w.2.2)
      (s, t, log)) (sched : List Bool) :
    Q (p.exec (h.prod g) sched (s, t)).value (log ++ (p.exec (h.prod g) sched (s, t)).rights) ∧
      G.Kept log (p.exec (h.prod g) sched (s, t)).rights := by
  induction p generalizing s t log sched with
  | ret a => exact ⟨by simpa [Run.rights] using hp, Permit.kept_nil⟩
  | call c k ih =>
      obtain ⟨hG, hk⟩ := wp_call.mp hp
      cases c with
      | inl c => exact ih _ hk sched
      | inr c =>
          obtain ⟨hvalue, hkept⟩ := ih _ hk sched
          refine ⟨?_, Permit.Kept.cons hG hkept⟩
          show Q _ (log ++ ⟨c, (g c t).1⟩ ::
            (Prog.exec (h.prod g) (k (g c t).1) sched (s, (g c t).2)).rights)
          rw [List.append_cons]
          exact hvalue
  | choose k ih => exact ih _ (hp _) _

end Rules

/-- The first call of a run is answered in the state the run starts from. -/
theorem answer_of_calls_eq_cons {p : Prog T α} {g : Handler T τ} {sched : List Bool} {t : τ}
    {c : T.Cmd} {x : T.Ans c} {rest : List (Event T)}
    (h : (p.exec g sched t).calls = ⟨c, x⟩ :: rest) : x = (g c t).1 := by
  induction p generalizing sched t with
  | ret a => cases h
  | call c' k _ =>
      obtain ⟨hevent, -⟩ := List.cons.inj h
      cases hevent
      rfl
  | choose k ih => exact ih _ h

/-- A run without calls stays where it is. -/
theorem final_of_calls_eq_nil {p : Prog T α} {g : Handler T τ} {sched : List Bool} {t : τ}
    (h : (p.exec g sched t).calls = []) : (p.exec g sched t).final = t := by
  induction p generalizing sched t with
  | ret a => rfl
  | call c k _ => cases h
  | choose k ih => exact ih _ h

/-- The last call of a run leads to its final state. -/
theorem exists_answer_of_calls_eq_append {p : Prog T α} {g : Handler T τ} {sched : List Bool}
    {t : τ} {before : List (Event T)} {c : T.Cmd} {x : T.Ans c}
    (h : (p.exec g sched t).calls = before ++ [⟨c, x⟩]) :
    ∃ t', (g c t').1 = x ∧ (p.exec g sched t).final = (g c t').2 := by
  induction p generalizing sched t before with
  | ret a => simp [Run.calls] at h
  | call c' k ih =>
      have hcalls : ⟨c', (g c' t).1⟩ :: ((k (g c' t).1).exec g sched (g c' t).2).calls =
          before ++ [⟨c, x⟩] := h
      cases before with
      | cons e before => exact ih _ (List.cons.inj hcalls).2
      | nil =>
          obtain ⟨hevent, hrest⟩ := List.cons.inj hcalls
          cases hevent
          exact ⟨t, rfl, final_of_calls_eq_nil hrest⟩
  | choose k ih => exact ih _ h

/-- A call of the left signature, seen as one of both. -/
def Event.inl (e : Event S) : Event (S.sum T) :=
  ⟨.inl e.cmd, e.ans⟩

/-- The call of a sum, if it belongs to the left signature. -/
def Event.left? : Event (S.sum T) → Option (Event S)
  | ⟨.inl c, x⟩ => some ⟨c, x⟩
  | ⟨.inr _, _⟩ => none

theorem Event.filterMap_left?_inl (calls : List (Event S)) :
    (calls.map (Event.inl (T := T))).filterMap Event.left? = calls := by
  rw [List.filterMap_map]
  exact List.filterMap_some

/-- The program makes the calls and returns the value when it is answered as they say. -/
def Prog.Makes : Prog T α → List (Event T) → α → Prop
  | .ret a, calls, b => calls = [] ∧ b = a
  | .call c k, calls, b => ∃ x rest, calls = ⟨c, x⟩ :: rest ∧ (k x).Makes rest b
  | .choose k, calls, b => ∃ first, (k first).Makes calls b

/-! ## What a program adds to a history -/

/-- Whatever it is answered, a program returns a value after calls that satisfy `A`. -/
def Prog.Yields : Prog T α → (α → List (Event T) → Prop) → Prop
  | .ret a, A => A a []
  | .call c k, A => ∀ x, (k x).Yields fun a calls => A a (⟨c, x⟩ :: calls)
  | .choose k, A => ∀ b, (k b).Yields A

namespace Prog.Yields

variable {A B : α → List (Event T) → Prop}

theorem mono {p : Prog T α} (hp : p.Yields A) (hAB : ∀ a calls, A a calls → B a calls) :
    p.Yields B := by
  induction p generalizing A B with
  | ret a => exact hAB a [] hp
  | call c k ih => exact fun x => ih x (hp x) fun a calls => hAB a (⟨c, x⟩ :: calls)
  | choose k ih => exact fun b => ih b (hp b) hAB

theorem and {p : Prog T α} (hp : p.Yields A) (hp' : p.Yields B) :
    p.Yields fun a calls => A a calls ∧ B a calls := by
  induction p generalizing A B with
  | ret a => exact ⟨hp, hp'⟩
  | call c k ih => exact fun x => ih x (hp x) (hp' x)
  | choose k ih => exact fun b => ih b (hp b) (hp' b)

theorem any (p : Prog T α) : p.Yields fun _ _ => True := by
  induction p with
  | ret a => trivial
  | call c k ih => exact fun x => ih x
  | choose k ih => exact fun b => ih b

theorem perform {c : T.Cmd} {A : T.Ans c → List (Event T) → Prop} (hA : ∀ x, A x [⟨c, x⟩]) :
    (Prog.perform c).Yields A :=
  hA

/-- The sequencing rule: the calls of the second program follow those of the first. -/
theorem bind {β : Type} {p : Prog T β} {f : β → Prog T α}
    (hp : p.Yields fun b calls => (f b).Yields fun a more => A a (calls ++ more)) :
    (p >>= f).Yields A := by
  induction p generalizing A with
  | ret b => exact hp
  | call c k ih => exact fun x => ih x (hp x)
  | choose k ih => exact fun b => ih b (hp b)

/-- A program yields calls that it may issue. -/
theorem and_issues {p : Prog T α} (hp : p.Yields A) {P : T.Cmd → Prop} (hissues : p.Issues P) :
    p.Yields fun a calls => A a calls ∧ ∀ e ∈ calls, P e.cmd := by
  induction p generalizing A with
  | ret a => exact ⟨hp, by simp⟩
  | call c k ih =>
      intro x
      refine (ih x (hp x) (hissues.2 x)).mono ?_
      intro a calls hcalls
      exact ⟨hcalls.1, List.forall_mem_cons.mpr ⟨hissues.1, hcalls.2⟩⟩
  | choose k ih => exact fun b => ih b (hp b) (hissues b)

/-- A program yields the calls that it makes. -/
theorem makes (p : Prog T α) : p.Yields fun a calls => p.Makes calls a := by
  induction p with
  | ret a => exact ⟨rfl, rfl⟩
  | call c k ih => exact fun x => (ih x).mono fun a calls h => ⟨x, calls, rfl, h⟩
  | choose k ih => exact fun b => (ih b).mono fun a calls h => ⟨b, h⟩

/-- A program over the left signature yields the same calls in both. -/
theorem ofLeft {A : α → List (Event S) → Prop} {p : Prog S α} (hp : p.Yields A) :
    (p.inl (T := T)).Yields fun a calls => ∃ made, calls = made.map Event.inl ∧ A a made := by
  induction p generalizing A with
  | ret a => exact ⟨[], rfl, hp⟩
  | call c k ih =>
      intro x
      refine (ih x (hp x)).mono ?_
      intro a calls h
      obtain ⟨made, rfl, hmade⟩ := h
      exact ⟨⟨c, x⟩ :: made, rfl, hmade⟩
  | choose k ih => exact fun b => ih b (hp b)

section Concurrent

variable {β : Type} {B : β → List (Event T) → Prop}
variable (hA : ∀ a calls more, calls ⊆ more → A a calls → A a more)
variable (hB : ∀ b calls more, calls ⊆ more → B b calls → B b more)
include hA hB

/-- What two tasks yield, if further calls do not undo it, they yield concurrently. -/
theorem par {p : Prog T α} {q : Prog T β} (hp : p.Yields A) (hq : q.Yields B) :
    (p.par q).Yields fun r calls => A r.1 calls ∧ B r.2 calls := by
  induction p generalizing A B q with
  | ret a =>
      refine bind (hq.mono ?_)
      intro b calls hb
      exact ⟨hA a [] _ (by simp) hp, by simpa using hb⟩
  | choose k ih => exact fun first => ih first hA hB (hp first) hq
  | call c k ihp =>
      -- The calls of the first task stand before those of the rest of either task.
      have hAx : ∀ x a calls more, calls ⊆ more → A a (⟨c, x⟩ :: calls) → A a (⟨c, x⟩ :: more) :=
        fun x a calls more hsub => hA a _ _ (List.cons_subset_cons _ hsub)
      induction q generalizing A B with
      | ret b =>
          intro x
          refine bind ((hp x).mono ?_)
          intro a calls ha
          exact ⟨by simpa using ha, hB b [] _ (by simp) hq⟩
      | choose l ihq => exact fun first => ihq first hA hB hp (hq first) hAx
      | call d l ihq =>
          intro first
          cases first with
          | true =>
              intro x
              refine ihp x (hAx x)
                (fun b calls more hsub => hB b _ _ (List.cons_subset_cons _ hsub)) (hp x)
                (hq.mono ?_)
              exact fun b calls hb => hB b _ _ (List.subset_cons_self _ _) hb
          | false =>
              intro y
              refine ihq y (fun a calls more hsub => hA a _ _ (List.cons_subset_cons _ hsub))
                (fun b calls more hsub => hB b _ _ (List.cons_subset_cons _ hsub))
                (hp.mono ?_) (hq y) ?_
              · exact fun a calls ha => hA a _ _ (List.subset_cons_self _ _) ha
              · exact fun x a calls more hsub =>
                  hA a _ _ (List.cons_subset_cons _ (List.cons_subset_cons _ hsub))

end Concurrent

/-- What each of a list of concurrent tasks yields, if further calls do not undo it. -/
theorem joinAll {tasks : List (Prog T α)}
    (hA : ∀ a calls more, calls ⊆ more → A a calls → A a more)
    (htasks : ∀ p ∈ tasks, p.Yields A) :
    (Prog.joinAll tasks).Yields fun as calls => ∀ a ∈ as, A a calls := by
  induction tasks with
  | nil => simp [Prog.joinAll, Yields]
  | cons p tasks ih =>
      have hrest := ih fun q hq => htasks q (List.mem_cons_of_mem _ hq)
      refine bind ((par hA ?_ (htasks p List.mem_cons_self) hrest).mono ?_)
      · exact fun as calls more hsub has a ha => hA a _ _ hsub (has a ha)
      · intro r calls hr
        have hall : ∀ a ∈ r.1 :: r.2, A a calls := List.forall_mem_cons.mpr hr
        exact fun a ha => hA a calls _ (by simp) (hall a ha)

/-- What a program yields holds of each of its runs. -/
theorem exec {p : Prog T α} (hp : p.Yields A) (g : Handler T τ) (sched : List Bool) (t : τ) :
    A (p.exec g sched t).value (p.exec g sched t).calls := by
  induction p generalizing A sched t with
  | ret a => exact hp
  | call c k ih => exact ih _ (hp _) sched _
  | choose k ih => exact ih _ (hp _) _ t

/-- A program whose commands a kept condition on the log permits adds what it yields. -/
theorem wp_kept {p : Prog T α} (hp : p.Yields A) {P : T.Cmd → Prop} (hissues : p.Issues P)
    {g : Handler T τ} {G : Permit T} {I : List (Event T) → Prop}
    (hG : ∀ log c, I log → P c → G log c) (hI : ∀ log e, I log → P e.cmd → I (log ++ [e]))
    {t : τ} {log : List (Event T)} (hlog : I log) :
    Effect.wp g.logged Eq G.guarantee p
      (fun a s => I s.2 ∧ ∃ added, s.2 = log ++ added ∧ A a added ∧ ∀ e ∈ added, P e.cmd)
      (t, log) := by
  induction p generalizing A t log with
  | ret a => exact wp_ret.mpr ⟨hlog, [], by simp, hp, by simp⟩
  | call c k ih =>
      refine wp_call.mpr ⟨hG log c hlog hissues.1, wp_post ?_
        (ih _ (hp _) (hissues.2 _) (hI log _ hlog hissues.1))⟩
      intro a s hs
      obtain ⟨hkept, added, hadded, hA, hP⟩ := hs
      refine ⟨hkept, _ :: added, ?_, hA, List.forall_mem_cons.mpr ⟨hissues.1, hP⟩⟩
      rw [hadded, List.append_assoc, List.singleton_append]
      rfl
  | choose k ih => exact fun b => ih b (hp b) (hissues b) hlog

/-- A program whose commands are permitted anywhere adds what it yields to the log. -/
theorem wp {p : Prog T α} (hp : p.Yields A) {P : T.Cmd → Prop} (hissues : p.Issues P)
    {g : Handler T τ} {G : Permit T} (hG : ∀ log c, P c → G log c) {t : τ}
    {log : List (Event T)} :
    Effect.wp g.logged Eq G.guarantee p
      (fun a s => ∃ added, s.2 = log ++ added ∧ A a added ∧ ∀ e ∈ added, P e.cmd) (t, log) :=
  wp_post (fun _ _ h => h.2)
    (hp.wp_kept hissues (I := fun _ => True) (fun log c _ => hG log c) (fun _ _ _ _ => trivial)
      trivial)

end Prog.Yields

/-- What a program adds to the log are the commands it may issue. -/
theorem Prog.Issues.wp_logged {p : Prog T α} {P : T.Cmd → Prop} (hissues : p.Issues P)
    {g : Handler T τ} {G : Permit T} {Q : α → τ × List (Event T) → Prop} {t : τ}
    {log : List (Event T)} (hp : Effect.wp g.logged Eq G.guarantee p Q (t, log)) :
    Effect.wp g.logged Eq G.guarantee p
      (fun a s => Q a s ∧ ∃ added, s.2 = log ++ added ∧ ∀ e ∈ added, P e.cmd) (t, log) := by
  induction p generalizing t log with
  | ret a => exact wp_ret.mpr ⟨wp_ret.mp hp, [], by simp, by simp⟩
  | call c k ih =>
      obtain ⟨hG, hk⟩ := wp_call.mp hp
      refine wp_call.mpr ⟨hG, wp_post ?_ (ih _ (hissues.2 _) hk)⟩
      intro a s hs
      obtain ⟨hQ, added, hlog, hP⟩ := hs
      refine ⟨hQ, ⟨c, (g c t).1⟩ :: added, ?_, List.forall_mem_cons.mpr ⟨hissues.1, hP⟩⟩
      exact hlog.trans (List.append_assoc _ _ _)
  | choose k ih => exact fun b => ih b (hissues b) (hp b)

/-- A condition on the log that allows a program's commands and is kept by them holds at
its end, beside what the program says of its value. -/
theorem Prog.Issues.wp_kept {p : Prog T α} {P : T.Cmd → Prop} (hissues : p.Issues P)
    {A : α → Prop} (hvalue : p.Yields fun a _ => A a)
    {g : Handler T τ} {G : Permit T} {I : List (Event T) → Prop}
    (hG : ∀ log c, I log → P c → G log c) (hI : ∀ log e, I log → P e.cmd → I (log ++ [e]))
    {t : τ} {log : List (Event T)} (hlog : I log) :
    Effect.wp g.logged Eq G.guarantee p (fun a s => I s.2 ∧ A a) (t, log) := by
  induction p generalizing t log with
  | ret a => exact wp_ret.mpr ⟨hlog, hvalue⟩
  | call c k ih =>
      refine wp_call.mpr ⟨hG log c hlog hissues.1, ih _ (hissues.2 _) (hvalue _) ?_⟩
      exact hI log _ hlog hissues.1
  | choose k ih => exact fun b => ih b (hissues b) (hvalue b) hlog

/-- A program over the left signature issues commands of that signature. -/
theorem Prog.issues_inl (p : Prog S α) :
    (p.inl (T := T)).Issues fun c => ∃ d, c = Sum.inl d := by
  induction p with
  | ret a => trivial
  | call c k ih => exact ⟨⟨c, rfl⟩, ih⟩
  | choose k ih => exact ih

/-! ## Handlers that implement a specification -/

/-- The state a handler reaches by answering commands one after another. -/
def Handler.after (h : Handler T τ) (cmds : List T.Cmd) (t : τ) : τ :=
  cmds.foldl (fun t c => (h c t).2) t

/-- In every state that represents the commands so far, a command with `Valid` is answered as
`A` says of them, and the next state represents it too. -/
structure Handler.Implements (h : Handler T τ) (Valid : T.Cmd → Prop)
    (A : List T.Cmd → (c : T.Cmd) → T.Ans c → Prop) (R : List T.Cmd → τ → Prop) : Prop where
  answers : ∀ past c t, R past t → Valid c → A past c (h c t).1
  represents : ∀ past c t, R past t → Valid c → R (past ++ [c]) (h c t).2

/-- The state that is reached represents the commands that led to it. -/
theorem Handler.Implements.after {h : Handler T τ} {Valid : T.Cmd → Prop}
    {A : List T.Cmd → (c : T.Cmd) → T.Ans c → Prop} {R : List T.Cmd → τ → Prop}
    (himp : h.Implements Valid A R) {past cmds : List T.Cmd} {t : τ} (hR : R past t)
    (hcmds : ∀ c ∈ cmds, Valid c) : R (past ++ cmds) (h.after cmds t) := by
  induction cmds generalizing past t with
  | nil => simpa [Handler.after] using hR
  | cons c cmds ih =>
      obtain ⟨hc, hcmds⟩ := List.forall_mem_cons.mp hcmds
      have hnext := ih (himp.represents past c t hR hc) hcmds
      rwa [List.append_assoc, List.singleton_append] at hnext

/-- Every answer of a run is the one the specification gives after the commands before it. -/
theorem Handler.Implements.run {h : Handler T τ} {Valid : T.Cmd → Prop}
    {A : List T.Cmd → (c : T.Cmd) → T.Ans c → Prop} {R : List T.Cmd → τ → Prop}
    (himp : h.Implements Valid A R) {cmds : List T.Cmd} {t : τ} (hR : R [] t)
    (hcmds : ∀ c ∈ cmds, Valid c) {c : T.Cmd} (hc : Valid c) :
    A cmds c (h c (h.after cmds t)).1 := by
  have hreached := himp.after hR hcmds
  exact himp.answers cmds c _ hreached hc

theorem Prog.Sequential.issues {P : T.Cmd → Prop} {p : Prog T α} (hp : p.Sequential P) :
    p.Issues P := by
  induction p with
  | ret a => trivial
  | call c k ih => exact ⟨hp.1, fun x => ih x (hp.2 x)⟩
  | choose k _ => exact hp.elim

end Fraisier.Effect
