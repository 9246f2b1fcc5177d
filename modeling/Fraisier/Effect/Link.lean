import Fraisier.Effect.Program

/-!
# Commands that other programs carry out

`Prog.link` runs a program with each command of the left signature carried out by a program of
its own, over the right signature only. A command whose program gives no answer ends the whole.
-/

namespace Fraisier.Effect

/-- A run with something made of its value. -/
def Run.map {S : Sig} {σ α β : Type} (f : α → β) (r : Run S σ α) : Run S σ β :=
  ⟨f r.value, r.final, r.steps, r.rest⟩

namespace Prog

variable {S T : Sig} {α β : Type}

/-- Carry out the commands of the left signature by programs. -/
def link (serve : (c : S.Cmd) → Prog T (Option (S.Ans c))) :
    Prog (S.sum T) α → Prog T (Option α)
  | .ret a => .ret (some a)
  | .call (.inl c) k => serve c >>= fun answer =>
      match answer with
      | some x => link serve (k x)
      | none => .ret none
  | .call (.inr c) k => .call c fun x => link serve (k x)
  | .choose k => .choose fun b => link serve (k b)

variable (serve : (c : S.Cmd) → Prog T (Option (S.Ans c)))

@[simp] theorem link_ret (a : α) : link serve (.ret a) = .ret (some a) := rfl

/-- One command is answered by its program, and what is made of the answer is returned. -/
theorem link_perform (c : S.Cmd) (f : S.Ans c → α) :
    link serve (.call (.inl c) fun x => .ret (f x)) = do
      let answer ← serve c
      return answer.map f := by
  rw [link]
  refine congrArg (serve c >>= ·) (funext fun answer => ?_)
  cases answer <;> rfl

theorem exec_map {σ : Type} (h : Handler S σ) (p : Prog S α) (f : α → β) (sched : List Bool)
    (s : σ) :
    (p >>= fun a => .ret (f a)).exec h sched s = (p.exec h sched s).map f := by
  rw [exec_bind]
  simp only [exec_ret, List.append_nil]
  rfl

end Prog

end Fraisier.Effect
