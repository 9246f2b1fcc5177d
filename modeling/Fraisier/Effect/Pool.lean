import Mathlib.Logic.Function.Basic
import Fraisier.Effect.Program

/-!
# Programs that run at the same time

A pool holds programs that share one state. A schedule says, step by step, whose command
comes next, and a monitor carries the command out and keeps notes beside it. A protocol
says in which phases a program may issue which commands. Read `Pool.run_tracked` first:
an invariant of the phases and the state survives every run whose programs follow their
protocol.
-/

namespace Fraisier.Effect

variable {S : Sig} {ι κ σ Φ α β : Type}

/-- How a command of a program with a tag is carried out: the answer, and the tag and the
state afterwards. The rest of the program is there for notes that look ahead. -/
def Monitor (S : Sig) (κ σ : Type) : Type :=
  κ → (c : S.Cmd) → (S.Ans c → Prog S Unit) → σ → S.Ans c × κ × σ

/-- Programs that share a state, each with a tag. -/
structure Pool (ι : Type) (S : Sig) (κ σ : Type) where
  threads : ι → Prog S Unit
  tags : ι → κ
  state : σ

namespace Pool

variable [DecidableEq ι]

/-- Let one program issue its next command, or settle its next choice. -/
def step (m : Monitor S κ σ) (i : ι) (first : Bool) (p : Pool ι S κ σ) : Pool ι S κ σ :=
  match p.threads i with
  | .ret _ => p
  | .call c k =>
      let done := m (p.tags i) c k p.state
      { threads := Function.update p.threads i (k done.1)
        tags := Function.update p.tags i done.2.1
        state := done.2.2 }
  | .choose k => { p with threads := Function.update p.threads i (k first) }

/-- Run a pool along a schedule. -/
def run (m : Monitor S κ σ) : List (ι × Bool) → Pool ι S κ σ → Pool ι S κ σ
  | [], p => p
  | (i, first) :: sched, p => run m sched (p.step m i first)

/-- Every step of a schedule meets a condition on the pool before it. -/
def Along (m : Monitor S κ σ) (C : Pool ι S κ σ → ι → Prop) :
    List (ι × Bool) → Pool ι S κ σ → Prop
  | [], _ => True
  | (i, first) :: sched, p => C p i ∧ Along m C sched (p.step m i first)

end Pool

/-! ## Protocols -/

/-- The answers a program has to reckon with, and how its phase moves with each command
and answer. -/
structure Protocol (S : Sig) (Φ : Type) where
  Possible : (c : S.Cmd) → S.Ans c → Prop
  Move : Φ → (c : S.Cmd) → S.Ans c → Φ → Prop

namespace Protocol

variable {P : Protocol S Φ}

/-- A program that moves along the protocol from a phase, whatever it is answered, and
ends in a value and a phase that satisfy `Q`. -/
def Follows (P : Protocol S Φ) : Prog S α → (α → Φ → Prop) → Φ → Prop
  | .ret a, Q, φ => Q a φ
  | .call c k, Q, φ => ∀ x, P.Possible c x → ∃ φ', P.Move φ c x φ' ∧ P.Follows (k x) Q φ'
  | .choose k, Q, φ => ∀ first, P.Follows (k first) Q φ

theorem follows_post {p : Prog S α} {Q Q' : α → Φ → Prop} {φ : Φ}
    (hQ : ∀ a φ, Q a φ → Q' a φ) (hp : P.Follows p Q φ) : P.Follows p Q' φ := by
  induction p generalizing φ with
  | ret a => exact hQ a φ hp
  | call c k ih =>
      intro x hx
      obtain ⟨φ', hmove, hk⟩ := hp x hx
      exact ⟨φ', hmove, ih x hk⟩
  | choose k ih => exact fun first => ih first (hp first)

/-- The sequencing rule. -/
theorem follows_bind {p : Prog S α} {f : α → Prog S β} {Q : β → Φ → Prop} {φ : Φ}
    (hp : P.Follows p (fun a φ => P.Follows (f a) Q φ) φ) : P.Follows (p >>= f) Q φ := by
  induction p generalizing φ with
  | ret a => exact hp
  | call c k ih =>
      intro x hx
      obtain ⟨φ', hmove, hk⟩ := hp x hx
      exact ⟨φ', hmove, ih x hk⟩
  | choose k ih => exact fun first => ih first (hp first)

/-- The rule for a step that may fail. -/
theorem follows_attempt {ε δ : Type} {p : Prog S (Except ε α)} {e : ε → δ}
    {f : α → Prog S (Except δ β)} {Q : Except δ β → Φ → Prop} {φ : Φ}
    (hp : P.Follows p (fun x φ' => match x with
      | .error error => Q (.error (e error)) φ'
      | .ok a => P.Follows (f a) Q φ') φ) : P.Follows (p.attempt e f) Q φ := by
  refine follows_bind (follows_post ?_ hp)
  intro x φ' hx
  cases x with
  | error error => exact hx
  | ok a => exact hx

end Protocol

namespace Pool

variable {P : Protocol S Φ} {m : Monitor S κ σ} {Final : Φ → Prop}

/-- Every program of the pool follows the protocol from its phase. -/
def Tracked (P : Protocol S Φ) (Final : Φ → Prop) (phases : ι → Φ) (p : Pool ι S κ σ) : Prop :=
  ∀ i, P.Follows (p.threads i) (fun _ φ => Final φ) (phases i)

variable [DecidableEq ι]

theorem Tracked.update {phases : ι → Φ} {p : Pool ι S κ σ} (h : p.Tracked P Final phases)
    {i : ι} {q : Prog S Unit} {φ : Φ} (hq : P.Follows q (fun _ φ => Final φ) φ)
    (tags : ι → κ) (s : σ) :
    Tracked P Final (Function.update phases i φ) ⟨Function.update p.threads i q, tags, s⟩ := by
  intro j
  by_cases hj : j = i
  · subst hj
    simpa using hq
  · simpa [hj] using h j

/-- An invariant of the phases, the tags and the state that each allowed command keeps
holds in every state that a run of programs that follow their protocol reaches. -/
theorem run_tracked (hpossible : ∀ tag c k s, P.Possible c (m tag c k s).1)
    {I : (ι → Φ) → (ι → κ) → σ → Prop} {C : Pool ι S κ σ → ι → Prop}
    (hstep : ∀ p phases i c k φ, p.Tracked P Final phases → I phases p.tags p.state → C p i →
      p.threads i = .call c k → P.Move (phases i) c (m (p.tags i) c k p.state).1 φ →
      P.Follows (k (m (p.tags i) c k p.state).1) (fun _ φ => Final φ) φ →
      I (Function.update phases i φ)
        (Function.update p.tags i (m (p.tags i) c k p.state).2.1)
        (m (p.tags i) c k p.state).2.2)
    (sched : List (ι × Bool)) {p : Pool ι S κ σ}
    (hC : p.Along m C sched)
    {phases : ι → Φ} (htracked : p.Tracked P Final phases) (hI : I phases p.tags p.state) :
    ∃ phases', (p.run m sched).Tracked P Final phases' ∧
      I phases' (p.run m sched).tags (p.run m sched).state := by
  induction sched generalizing p phases with
  | nil => exact ⟨phases, htracked, hI⟩
  | cons e sched ih =>
      obtain ⟨i, first⟩ := e
      obtain ⟨hcond, hrest⟩ := hC
      have hfollows := htracked i
      cases hthread : p.threads i with
      | ret u =>
          have hsame : p.step m i first = p := by simp only [step, hthread]
          rw [hsame] at hrest
          obtain ⟨phases', h⟩ := ih hrest htracked hI
          exact ⟨phases', by simpa only [run, hsame] using h⟩
      | call c k =>
          rw [hthread] at hfollows
          obtain ⟨φ, hmove, hk⟩ := hfollows _ (hpossible (p.tags i) c k p.state)
          have hnext := hstep p phases i c k φ htracked hI hcond hthread
            hmove hk
          have hstepped : p.step m i first =
              ⟨Function.update p.threads i (k (m (p.tags i) c k p.state).1),
                Function.update p.tags i (m (p.tags i) c k p.state).2.1,
                (m (p.tags i) c k p.state).2.2⟩ := by simp only [step, hthread]
          rw [hstepped] at hrest
          obtain ⟨phases', h⟩ := ih hrest (htracked.update hk _ _) hnext
          exact ⟨phases', by simpa only [run, hstepped] using h⟩
      | choose k =>
          rw [hthread] at hfollows
          have hstepped : p.step m i first =
              ⟨Function.update p.threads i (k first), p.tags, p.state⟩ := by
            simp only [step, hthread]
          have htracked' := htracked.update (i := i) (hfollows first) p.tags p.state
          rw [Function.update_eq_self] at htracked'
          rw [hstepped] at hrest
          obtain ⟨phases', h⟩ := ih hrest htracked' hI
          exact ⟨phases', by simpa only [run, hstepped] using h⟩

end Pool

end Fraisier.Effect
