import Mathlib.Data.Prod.Lex
import Mathlib.Order.WellFounded
import Liby.Infra.Machine

/-!
# Ranks of a state machine

A run that goes on forever can take only finitely many of the steps that lower a rank, where no
other step raises it.
-/

namespace Infra

variable {S E : Type _} {step : S → E → Exec S}

/-- A run that goes on forever: its states, and the event of each step. -/
structure Endless (step : S → E → Exec S) (s : S) where
  state : Nat → S
  event : Nat → E
  start : state 0 = s
  next : ∀ k, step (state k) (event k) = .ok (state (k + 1))

namespace Endless

variable {s : S}

/-- What every step keeps holds in every state. -/
theorem invariant {I : S → Prop} (hstep : ∀ s e s', I s → step s e = .ok s' → I s')
    (h : Endless step s) (hi : I s) : ∀ k, I (h.state k)
  | 0 => by
    rw [h.start]
    exact hi
  | k + 1 => hstep _ _ _ (h.invariant hstep hi k) (h.next k)

variable {ρ : Type _} [Preorder ρ] {rank : S → ρ} {I : S → Prop}

end Endless

/-! ## Ranks that are sums -/

variable {α : Type _} (f : α → Nat)

end Infra
