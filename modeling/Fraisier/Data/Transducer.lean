import Mathlib.Data.List.Basic

/-!
# Transducers

A transducer reads its input one symbol at a time. Each symbol takes it to another mode and may
complete some tokens, or is a fault. `read_append` gives what is read of a text from what is read
of its parts.
-/

namespace Fraisier.Data

/-- A transducer, by what it does with a symbol and by what it still has at the end of the
input. -/
structure Transducer (σ α τ ε : Type) where
  step : σ → α → Except ε (σ × List τ)
  finish : σ → Except ε (List τ)

namespace Transducer

variable {σ α τ ε : Type} (t : Transducer σ α τ ε)

/-- The mode after an input, and the tokens it completed. -/
def run : σ → List α → Except ε (σ × List τ)
  | mode, [] => .ok (mode, [])
  | mode, symbol :: input =>
      match t.step mode symbol with
      | .error fault => .error fault
      | .ok (next, tokens) =>
          match run next input with
          | .error fault => .error fault
          | .ok (last, more) => .ok (last, tokens ++ more)

/-- The tokens of an input. -/
def read (mode : σ) (input : List α) : Except ε (List τ) :=
  match t.run mode input with
  | .error fault => .error fault
  | .ok (last, tokens) => (t.finish last).map (tokens ++ ·)

variable {t} {mode next last : σ} {symbol : α} {input before after : List α}
  {tokens more : List τ}

@[simp] theorem run_nil : t.run mode [] = .ok (mode, []) := rfl

theorem run_cons (hstep : t.step mode symbol = .ok (next, tokens))
    (hrun : t.run next input = .ok (last, more)) :
    t.run mode (symbol :: input) = .ok (last, tokens ++ more) := by
  simp only [run, hstep, hrun]

/-- A symbol that completes no token. -/
theorem run_cons_silent (hstep : t.step mode symbol = .ok (next, [])) :
    t.run mode (symbol :: input) = t.run next input := by
  simp only [run, hstep, List.nil_append]
  rcases t.run next input with fault | ⟨last, tokens⟩ <;> rfl

theorem exists_of_run_cons (h : t.run mode (symbol :: input) = .ok (last, tokens)) :
    ∃ next first rest, t.step mode symbol = .ok (next, first) ∧
      t.run next input = .ok (last, rest) ∧ tokens = first ++ rest := by
  rw [run] at h
  cases hstep : t.step mode symbol with
  | error fault => simp only [hstep, reduceCtorEq] at h
  | ok result =>
      obtain ⟨next, first⟩ := result
      cases hrun : t.run next input with
      | error fault => simp only [hstep, hrun, reduceCtorEq] at h
      | ok result =>
          simp only [hstep, hrun] at h
          cases h
          exact ⟨next, first, _, rfl, hrun, rfl⟩

/-- What is read of two texts, one after the other. -/
theorem run_append (hbefore : t.run mode before = .ok (next, tokens))
    (hafter : t.run next after = .ok (last, more)) :
    t.run mode (before ++ after) = .ok (last, tokens ++ more) := by
  induction before generalizing mode tokens with
  | nil =>
      cases hbefore
      exact hafter
  | cons symbol before ih =>
      obtain ⟨middle, first, rest, hstep, hrun, rfl⟩ := exists_of_run_cons hbefore
      rw [List.cons_append, run_cons hstep (ih hrun), List.append_assoc]

theorem exists_run_of_map (h : (t.run mode input).map Prod.fst = .ok last) :
    ∃ tokens, t.run mode input = .ok (last, tokens) := by
  cases hrun : t.run mode input with
  | error fault =>
      rw [hrun] at h
      cases h
  | ok result =>
      rw [hrun] at h
      cases h
      exact ⟨result.2, rfl⟩

theorem read_of_run (hrun : t.run mode input = .ok (last, tokens))
    (hfinish : t.finish last = .ok more) : t.read mode input = .ok (tokens ++ more) := by
  simp only [read, hrun, hfinish]
  rfl

end Transducer

end Fraisier.Data
