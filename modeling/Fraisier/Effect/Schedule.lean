import Fraisier.Effect.History
import Fraisier.Effect.Pool

/-!
# Schedules of a pool

`Handler.recording` carries the commands of a pool out and keeps, for each program, the
calls it has made. A program that has its turn again and again comes to its end, whatever
the others do: `Pool.exists_finished`.
-/

namespace Fraisier.Effect

variable {S : Sig} {ι κ σ Φ α : Type}

/-- Answer like a handler, and keep the calls of each program. -/
def Handler.recording (h : Handler S σ) : Monitor S (List (Event S)) σ :=
  fun calls c _ s => ((h c s).1, calls ++ [⟨c, (h c s).1⟩], (h c s).2)

/-- A program whose commands a phase allows stays in that phase. -/
theorem Prog.Issues.follows {P : S.Cmd → Prop} {p : Prog S α} (hp : p.Issues P)
    {protocol : Protocol S Φ} {φ : Φ} (hmove : ∀ c x, P c → protocol.Move φ c x φ) :
    protocol.Follows p (fun _ φ' => φ' = φ) φ := by
  induction p with
  | ret a => exact rfl
  | call c k ih => exact fun x _ => ⟨φ, hmove c x hp.1, ih x (hp.2 x)⟩
  | choose k ih => exact fun first => ih first (hp first)

namespace Pool

variable [DecidableEq ι] {m : Monitor S κ σ} {p : Pool ι S κ σ} {i j : ι}

theorem run_append (sched more : List (ι × Bool)) :
    p.run m (sched ++ more) = (p.run m sched).run m more := by
  induction sched generalizing p with
  | nil => rfl
  | cons e sched ih => exact ih

theorem along_of_forall {C : Pool ι S κ σ → ι → Prop} (hC : ∀ p i, C p i)
    {sched : List (ι × Bool)} : p.Along m C sched := by
  induction sched generalizing p with
  | nil => trivial
  | cons e sched ih => exact ⟨hC p e.1, ih⟩

/-- A turn of one program leaves the others where they are. -/
theorem threads_step_of_ne (hne : i ≠ j) (first : Bool) :
    (p.step m i first).threads j = p.threads j := by
  cases hthread : p.threads i with
  | ret u => simp only [step, hthread]
  | call c k => simp [step, hthread, hne.symm]
  | choose k => simp [step, hthread, hne.symm]

theorem threads_step_call {c : S.Cmd} {k : S.Ans c → Prog S Unit} (first : Bool)
    (h : p.threads i = .call c k) :
    (p.step m i first).threads i = k (m (p.tags i) c k p.state).1 := by
  simp [step, h]

theorem threads_step_choose {k : Bool → Prog S Unit} (first : Bool)
    (h : p.threads i = .choose k) : (p.step m i first).threads i = k first := by
  simp [step, h]

/-- The first turns of an endless schedule. -/
def turns (sched : ℕ → ι × Bool) (n : ℕ) : List (ι × Bool) :=
  (List.range n).map sched

/-- The program has its turn again and again. -/
def Fair (sched : ℕ → ι × Bool) (i : ι) : Prop :=
  ∀ n, ∃ d, (sched (n + d)).1 = i

theorem run_turns_succ (sched : ℕ → ι × Bool) (n : ℕ) :
    p.run m (turns sched (n + 1)) =
      (p.run m (turns sched n)).step m (sched n).1 (sched n).2 := by
  rw [turns, List.range_succ, List.map_append, run_append]
  rfl

/-- Until its next turn a program stays where it is. -/
theorem exists_turn {sched : ℕ → ι × Bool} {n d : ℕ} (hd : (sched (n + d)).1 = i) :
    ∃ k, (sched k).1 = i ∧
      (p.run m (turns sched k)).threads i = (p.run m (turns sched n)).threads i := by
  induction d generalizing n with
  | zero => exact ⟨n, hd, rfl⟩
  | succ d ih =>
      by_cases hnow : (sched n).1 = i
      · exact ⟨n, hnow, rfl⟩
      · rw [show n + (d + 1) = n + 1 + d by omega] at hd
        obtain ⟨k, hk, hthread⟩ := ih hd
        refine ⟨k, hk, hthread.trans ?_⟩
        rw [run_turns_succ, threads_step_of_ne hnow]

/-- A program that has its turn again and again ends. -/
theorem exists_finished {sched : ℕ → ι × Bool} (hfair : Fair sched i) :
    ∃ n, (p.run m (turns sched n)).threads i = .ret () := by
  -- Each of its turns takes the program to one of its continuations.
  have hends : ∀ q n, (p.run m (turns sched n)).threads i = q →
      ∃ k, (p.run m (turns sched k)).threads i = .ret () := by
    intro q
    induction q with
    | ret u => exact fun n hn => ⟨n, hn⟩
    | call c l ih =>
        intro n hn
        obtain ⟨d, hd⟩ := hfair n
        obtain ⟨k, hk, hthread⟩ := exists_turn (m := m) (p := p) hd
        rw [hn] at hthread
        obtain ⟨x, hx⟩ : ∃ x, (p.run m (turns sched (k + 1))).threads i = l x := by
          rw [run_turns_succ, hk]
          exact ⟨_, threads_step_call _ hthread⟩
        exact ih x (k + 1) hx
    | choose l ih =>
        intro n hn
        obtain ⟨d, hd⟩ := hfair n
        obtain ⟨k, hk, hthread⟩ := exists_turn (m := m) (p := p) hd
        rw [hn] at hthread
        refine ih (sched k).2 (k + 1) ?_
        rw [run_turns_succ, hk]
        exact threads_step_choose _ hthread
  exact hends _ 0 rfl

end Pool

end Fraisier.Effect
