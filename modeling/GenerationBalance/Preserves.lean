/-
Computations that change a state and may stop with an error, what was changed before
staying: what such a computation preserves, stopped or not.
-/
import Mathlib.Logic.Basic

variable {σ ε α β : Type}

/-- The computation leads from states with `I` to states with `I`. -/
def Preserves (I : σ → Prop) (x : σ → Except ε α × σ) : Prop := ∀ s, I s → I (x s).2

namespace Preserves

variable {I : σ → Prop}

/-- **Sequence rule.** `y` goes on after `x`, unless that stops. -/
theorem bind {x : σ → Except ε α × σ} {f : α → σ → Except ε β × σ} {y : σ → Except ε β × σ}
    (hok : ∀ s a s', x s = (.ok a, s') → y s = f a s') (herror : ∀ s e s', x s = (.error e, s') → y s = (.error e, s'))
    (hx : Preserves I x) (hf : ∀ a, Preserves I (f a)) : Preserves I y := by
  intro s hs
  have hs' := hx s hs
  cases h : x s with
  | mk r s' =>
    rw [h] at hs'
    cases r with
    | error e =>
      rw [herror s e s' h]
      exact hs'
    | ok a =>
      rw [hok s a s' h]
      exact hf a s' hs'

/-- **Choice rule.** -/
theorem ite {c : Prop} [Decidable c] {x y : σ → Except ε α × σ} (hx : c → Preserves I x) (hy : ¬ c → Preserves I y) :
    Preserves I (if c then x else y) := by
  by_cases h : c
  · rw [if_pos h]
    exact hx h
  · rw [if_neg h]
    exact hy h

/-- Reading preserves everything. -/
theorem read (f : σ → Except ε α) : Preserves I fun s => (f s, s) := fun _ hs => hs

end Preserves
