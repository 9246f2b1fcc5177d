import Mathlib.Data.List.Basic

/-!
# Programs over a signature of commands

A `Prog S α` issues commands of the signature `S`, reads their answers and
returns an `α`. A `choose` node marks a point at which a scheduler decides how
concurrent tasks continue. A handler answers commands from a state, and
`Prog.exec` runs a program under a handler and a schedule, keeping every
transition it made. Read `Prog.exec_bind` first: it is how runs compose.
-/

namespace Fraisier.Effect

/-- A signature: the commands a program may issue and the type of each answer. -/
structure Sig where
  Cmd : Type
  Ans : Cmd → Type

/-- The commands of two signatures together. -/
@[reducible] def Sig.sum (S T : Sig) : Sig where
  Cmd := S.Cmd ⊕ T.Cmd
  Ans := Sum.elim S.Ans T.Ans

/-- A program that issues commands of `S` and returns an `α`. -/
inductive Prog (S : Sig) (α : Type) : Type where
  | ret (a : α)
  | call (c : S.Cmd) (k : S.Ans c → Prog S α)
  | choose (k : Bool → Prog S α)

namespace Prog

variable {S T : Sig} {α β γ : Type}

/-- Sequential composition. -/
def bind : Prog S α → (α → Prog S β) → Prog S β
  | .ret a, f => f a
  | .call c k, f => .call c fun x => (k x).bind f
  | .choose k, f => .choose fun b => (k b).bind f

instance : Monad (Prog S) where
  pure := .ret
  bind := bind

/-- Issue one command and return its answer. -/
def perform (c : S.Cmd) : Prog S (S.Ans c) :=
  .call c .ret

/-- Continue with what a program yields; an error ends it, as the error that `e` makes of it. -/
def attempt {ε δ : Type} (p : Prog S (Except ε α)) (e : ε → δ)
    (f : α → Prog S (Except δ β)) : Prog S (Except δ β) := do
  match ← p with
  | .error error => return .error (e error)
  | .ok a => f a

@[simp] theorem pure_eq (a : α) : (pure a : Prog S α) = .ret a := rfl

@[simp] theorem ret_bind (a : α) (f : α → Prog S β) : (Prog.ret a >>= f) = f a := rfl

@[simp] theorem call_bind (c : S.Cmd) (k : S.Ans c → Prog S α) (f : α → Prog S β) :
    (Prog.call c k >>= f) = .call c fun x => k x >>= f := rfl

@[simp] theorem choose_bind (k : Bool → Prog S α) (f : α → Prog S β) :
    (Prog.choose k >>= f) = .choose fun b => k b >>= f := rfl

theorem bind_ret (p : Prog S α) : (p >>= Prog.ret) = p := by
  induction p with
  | ret a => rfl
  | call c k ih =>
      rw [call_bind]
      exact congrArg _ (funext ih)
  | choose k ih =>
      rw [choose_bind]
      exact congrArg _ (funext ih)

theorem bind_assoc (p : Prog S α) (f : α → Prog S β) (g : β → Prog S γ) :
    (p >>= f >>= g) = p >>= fun a => f a >>= g := by
  induction p with
  | ret a => rfl
  | call c k ih =>
      simp only [call_bind]
      exact congrArg _ (funext ih)
  | choose k ih =>
      simp only [choose_bind]
      exact congrArg _ (funext ih)

instance : LawfulMonad (Prog S) :=
  LawfulMonad.mk' (Prog S) bind_ret (fun _ _ => rfl) bind_assoc

/-- A program over `T`, seen as one over `S.sum T`. -/
def inr : Prog T α → Prog (S.sum T) α
  | .ret a => .ret a
  | .call c k => .call (.inr c) fun x => (k x).inr
  | .choose k => .choose fun b => (k b).inr

/-- A program over `S`, seen as one over `S.sum T`. -/
def inl : Prog S α → Prog (S.sum T) α
  | .ret a => .ret a
  | .call c k => .call (.inl c) fun x => (k x).inl
  | .choose k => .choose fun b => (k b).inl

end Prog

/-- A handler answers each command from a state and says what the state becomes. -/
def Handler (S : Sig) (σ : Type) : Type :=
  (c : S.Cmd) → σ → S.Ans c × σ

/-- Two handlers side by side, each on its own part of the state. -/
def Handler.prod {S T : Sig} {σ τ : Type} (h : Handler S σ) (g : Handler T τ) :
    Handler (S.sum T) (σ × τ)
  | .inl c, s => ((h c s.1).1, (h c s.1).2, s.2)
  | .inr c, s => ((g c s.2).1, s.1, (g c s.2).2)

/-- One executed command with the states around it. -/
structure Transition (S : Sig) (σ : Type) where
  before : σ
  cmd : S.Cmd
  ans : S.Ans cmd
  after : σ

/-- What a finished run leaves: its value, the final state, the transitions it
made in order and the part of the schedule it did not use. -/
structure Run (S : Sig) (σ α : Type) where
  value : α
  final : σ
  steps : List (Transition S σ)
  rest : List Bool

namespace Prog

variable {S T : Sig} {σ τ α β : Type}

/-- The transition that answering `c` in `s` makes. -/
def answer (h : Handler S σ) (c : S.Cmd) (s : σ) : Transition S σ :=
  ⟨s, c, (h c s).1, (h c s).2⟩

/-- Run a program. A `choose` takes the next entry of the schedule, and the
left task once the schedule is used up. -/
def exec (h : Handler S σ) : Prog S α → List Bool → σ → Run S σ α
  | .ret a, sched, s => ⟨a, s, [], sched⟩
  | .call c k, sched, s =>
      let r := exec h (k (h c s).1) sched (h c s).2
      { r with steps := answer h c s :: r.steps }
  | .choose k, sched, s => exec h (k (sched.headD true)) sched.tail s

@[simp] theorem exec_ret (h : Handler S σ) (a : α) (sched : List Bool) (s : σ) :
    exec h (.ret a) sched s = ⟨a, s, [], sched⟩ := rfl

/-- A run of `p >>= f` is a run of `p` followed by a run of `f` on its value. -/
theorem exec_bind (h : Handler S σ) (p : Prog S α) (f : α → Prog S β)
    (sched : List Bool) (s : σ) :
    exec h (p >>= f) sched s =
      let r := exec h p sched s
      let q := exec h (f r.value) r.rest r.final
      { q with steps := r.steps ++ q.steps } := by
  induction p generalizing sched s with
  | ret a => simp
  | call c k ih => simp [exec, ih]
  | choose k ih => simp [exec, ih]

/-- Every step of a run is an answer of its handler. -/
theorem exists_answer_of_mem_steps {h : Handler S σ} {p : Prog S α} {sched : List Bool} {s : σ}
    {t : Transition S σ} (ht : t ∈ (p.exec h sched s).steps) : ∃ c s', t = answer h c s' := by
  induction p generalizing sched s with
  | ret a => simp at ht
  | call c k ih =>
      rcases List.mem_cons.mp ht with rfl | ht
      · exact ⟨c, s, rfl⟩
      · exact ih _ ht
  | choose k ih => exact ih _ ht

theorem mem_steps_bind_left {h : Handler S σ} {p : Prog S α} {f : α → Prog S β}
    {sched : List Bool} {s : σ} {t : Transition S σ} (ht : t ∈ (p.exec h sched s).steps) :
    t ∈ ((p >>= f).exec h sched s).steps := by
  rw [exec_bind]
  exact List.mem_append_left _ ht

theorem mem_steps_bind_right {h : Handler S σ} {p : Prog S α} {f : α → Prog S β}
    {sched : List Bool} {s : σ} {t : Transition S σ}
    (ht : t ∈ ((f (p.exec h sched s).value).exec h (p.exec h sched s).rest
      (p.exec h sched s).final).steps) :
    t ∈ ((p >>= f).exec h sched s).steps := by
  rw [exec_bind]
  exact List.mem_append_right _ ht

end Prog

end Fraisier.Effect
