import Fraisier.Effect.Pool

/-!
# Programs that may be stopped

A process may be killed between two commands. `Prog.killable` leaves it to the scheduler when, and
`Protocol.follows_killable` says which phases such a program may end in.
-/

namespace Fraisier.Effect

variable {S : Sig} {Φ α : Type}

/-- A program that may be stopped before each of its commands, and before it returns. -/
def Prog.killable : Prog S α → Prog S (Option α)
  | .ret a => .choose fun goesOn => .ret (if goesOn then some a else none)
  | .call c k => .choose fun goesOn =>
      if goesOn then .call c fun x => (k x).killable else .ret none
  | .choose k => .choose fun first => (k first).killable

namespace Protocol

variable {P : Protocol S Φ} {J : Φ → Prop} {p : Prog S α} {φ : Φ}

/-- The moves of a protocol that lead to some phases only. -/
def within (P : Protocol S Φ) (J : Φ → Prop) : Protocol S Φ where
  Possible := P.Possible
  Move φ c x φ' := P.Move φ c x φ' ∧ J φ'

/-- A program that is stopped has gone through the phases of a part of its moves. -/
theorem follows_killable {Q : α → Φ → Prop} {Q' : Option α → Φ → Prop} (hJ : J φ)
    (hnone : ∀ φ, J φ → Q' none φ) (hsome : ∀ a φ, Q a φ → Q' (some a) φ)
    (hp : (P.within J).Follows p Q φ) : P.Follows p.killable Q' φ := by
  induction p generalizing φ with
  | ret a =>
      intro goesOn
      cases goesOn with
      | false => exact hnone φ hJ
      | true => exact hsome a φ hp
  | call c k ih =>
      intro goesOn
      cases goesOn with
      | false => exact hnone φ hJ
      | true =>
          intro x hx
          obtain ⟨φ', hmove, hk⟩ := hp x hx
          exact ⟨φ', hmove.1, ih x hmove.2 hk⟩
  | choose k ih => exact fun first => ih first hJ (hp first)

end Protocol

end Fraisier.Effect
