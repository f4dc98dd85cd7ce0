/-!
# Random draws

What an algorithm that makes random choices needs: a coin, and numbers from one to a bound.  It takes both from a state
that every draw carries on, so a statement about all sources is a statement about all sequences of draws.

Main definitions:

- `Draws`: a source of coins and of numbers within a bound.
-/

namespace WorksetIteration

/-- A source of random choices with states in `σ`. -/
structure Draws (σ : Type) where
  /-- A coin, and the state after it. -/
  coin : σ → Bool × σ
  /-- A number from one to a bound, and the state after it. -/
  number : (bound : Nat) → σ → Nat × σ
  /-- Numbers start at one. -/
  one_le_number : ∀ (bound : Nat) (s : σ), 1 ≤ (number bound s).1
  /-- Numbers stay within their bound, if it leaves a choice. -/
  number_le : ∀ (bound : Nat) (s : σ), 1 ≤ bound → (number bound s).1 ≤ bound

end WorksetIteration
