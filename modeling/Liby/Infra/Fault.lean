import Mathlib.Algebra.Order.Ring.Int
import Mathlib.Data.List.Basic
import Mathlib.Tactic.Common

/-!
# Results of C++ code

A piece of C++ either finishes with a value or leaves its defined behaviour.
`Exec` keeps the two apart, so that a read outside a block or a failed assertion
is an outcome of the model and not an assumption about its inputs.
-/

namespace Infra

/-- How a piece of C++ fails to return normally. -/
inductive Fault where
  /-- A read or a write outside the block of memory it belongs to. -/
  | outOfBounds
  /-- A pair of iterators whose first lies after its last. -/
  | badRange
  /-- An `assert` that does not hold. -/
  | assertFailed
  /-- An exception that leaves the function. -/
  | exception
  /-- A null pointer (or an empty smart pointer) that is dereferenced. -/
  | nullDeref
  /-- `front` or `pop_front` on an empty container. -/
  | emptyContainer
  /-- A signed addition or subtraction whose result does not fit. -/
  | signedOverflow
  /-- A loop that is still running when its passes are used up. -/
  | diverges
  /-- An answer of the environment that its contract excludes, or none left. -/
  | environment
  deriving DecidableEq, Repr

/-- The outcome of a piece of C++. -/
abbrev Exec (α : Type _) := Except Fault α

variable {α β : Type _}

@[simp] theorem ok_bind (a : α) (f : α → Exec β) : ((Except.ok a : Exec α) >>= f) = f a := rfl

@[simp] theorem error_bind (e : Fault) (f : α → Exec β) :
    ((Except.error e : Exec α) >>= f) = .error e := rfl

@[simp] theorem pure_eq_ok (a : α) : (pure a : Exec α) = .ok a := rfl

@[simp] theorem throw_eq_error (e : Fault) : (throw e : Exec α) = .error e := rfl

/-- A sequence returns exactly when both of its parts do. -/
theorem bind_eq_ok {x : Exec α} {f : α → Exec β} {b : β} :
    (x >>= f) = .ok b ↔ ∃ a, x = .ok a ∧ f a = .ok b := by
  cases x with
  | error e => simp
  | ok a => simp

/-- A result is known by what is seen of it. -/
theorem ok_of_toOption_map {x : Exec α} {f : α → β} {b : β} (h : x.toOption.map f = some b) :
    ∃ a, x = .ok a ∧ f a = b := by
  cases x with
  | error e => cases h
  | ok a => exact ⟨a, rfl, Option.some.inj h⟩

/-- `assert (cond)`, or any other guard that ends the run with `e`. -/
def guardOr (e : Fault) (cond : Prop) [Decidable cond] : Exec Unit :=
  if cond then .ok () else .error e

theorem guardOr_eq_ok {e : Fault} {cond : Prop} [Decidable cond] {u : Unit} :
    guardOr e cond = .ok u ↔ cond := by
  unfold guardOr
  split <;> simp_all

@[simp] theorem guardOr_pos {e : Fault} {cond : Prop} [Decidable cond] (h : cond) :
    guardOr e cond = .ok () := if_pos h

@[simp] theorem guardOr_neg {e : Fault} {cond : Prop} [Decidable cond] (h : ¬cond) :
    guardOr e cond = .error e := if_neg h

/-- A pointer that is used: `e` if it is null. -/
def derefOr (e : Fault) : Option α → Exec α
  | some a => .ok a
  | none => .error e

@[simp] theorem derefOr_some (e : Fault) (a : α) : derefOr e (some a) = .ok a := rfl

@[simp] theorem derefOr_none (e : Fault) : (derefOr e none : Exec α) = .error e := rfl

theorem derefOr_eq_ok {e : Fault} {x : Option α} {a : α} : derefOr e x = .ok a ↔ x = some a := by
  cases x <;> simp [derefOr]

/-! ## Guarantees -/

/-- A result that has `P`, unless the environment broke its contract. -/
def Guarantees (P : α → Prop) : Exec α → Prop
  | .ok a => P a
  | .error e => e = .environment

@[simp] theorem guarantees_ok {P : α → Prop} {a : α} :
    Guarantees P (.ok a) ↔ P a := Iff.rfl

@[simp] theorem guarantees_environment {P : α → Prop} : Guarantees P (.error .environment) := rfl

theorem Guarantees.bind {P : α → Prop} {Q : β → Prop} {x : Exec α} {f : α → Exec β}
    (h : Guarantees P x) (hf : ∀ a, P a → Guarantees Q (f a)) : Guarantees Q (x >>= f) := by
  cases x with
  | error e => exact h
  | ok a => exact hf a h

/-- What a guarantee says of a result that was returned. -/
theorem Guarantees.of_ok {P : α → Prop} {x : Exec α} {a : α} (h : Guarantees P x)
    (hx : x = .ok a) : P a := by
  rw [hx] at h
  exact h

/-- A guarantee, and what else is known of a result. -/
theorem Guarantees.imp_ok {P Q : α → Prop} {x : Exec α} (h : Guarantees P x)
    (hq : ∀ a, x = .ok a → P a → Q a) : Guarantees Q x := by
  cases x with
  | error e => exact h
  | ok a => exact hq a rfl h

/-- A guard on what the environment may do. -/
theorem Guarantees.guard {Q : β → Prop} {cond : Prop} [Decidable cond] {f : Unit → Exec β}
    (hf : cond → Guarantees Q (f ())) : Guarantees Q (guardOr .environment cond >>= f) := by
  by_cases h : cond
  · rw [guardOr_pos h, ok_bind]
    exact hf h
  · rw [guardOr_neg h]
    rfl

/-! ## Outcomes -/

/-- A result that has `P`, or a fault that `F` allows. -/
def Outcome (F : Fault → Prop) (P : α → Prop) : Exec α → Prop
  | .ok a => P a
  | .error e => F e

variable {F : Fault → Prop}

@[simp] theorem outcome_ok {P : α → Prop} {a : α} : Outcome F P (.ok a) ↔ P a := Iff.rfl

@[simp] theorem outcome_error {P : α → Prop} {e : Fault} : Outcome F P (.error e) ↔ F e := Iff.rfl

theorem Outcome.bind {P : α → Prop} {Q : β → Prop} {x : Exec α} {f : α → Exec β}
    (h : Outcome F P x) (hf : ∀ a, P a → Outcome F Q (f a)) : Outcome F Q (x >>= f) := by
  cases x with
  | error e => exact h
  | ok a => exact hf a h

theorem Outcome.imp {P Q : α → Prop} {x : Exec α} (h : Outcome F P x) (hpq : ∀ a, P a → Q a) :
    Outcome F Q x := by
  cases x with
  | error e => exact h
  | ok a => exact hpq a h

/-- An outcome, and what else is known of a result. -/
theorem Outcome.imp_ok {P Q : α → Prop} {x : Exec α} (h : Outcome F P x)
    (hpq : ∀ a, x = .ok a → P a → Q a) : Outcome F Q x := by
  cases x with
  | error e => exact h
  | ok a => exact hpq a rfl h

theorem Outcome.of_ok {P : α → Prop} {x : Exec α} {a : α} (h : Outcome F P x) (hx : x = .ok a) : P a := by
  rw [hx] at h
  exact h

/-- A guard whose fault is allowed. -/
theorem Outcome.guard {Q : β → Prop} {cond : Prop} [Decidable cond] {e : Fault} {f : Unit → Exec β}
    (he : F e) (hf : cond → Outcome F Q (f ())) : Outcome F Q (guardOr e cond >>= f) := by
  by_cases h : cond
  · rw [guardOr_pos h, ok_bind]
    exact hf h
  · rw [guardOr_neg h]
    exact he

/-- A check whose fault is allowed. -/
theorem outcome_ite {cond : Prop} [Decidable cond] {a : α} {e : Fault} (he : F e) :
    Outcome F (fun _ => True) (if cond then .ok a else .error e : Exec α) := by
  split
  · trivial
  · exact he

/-- A guarantee, where the environment may break its contract. -/
theorem Guarantees.outcome {P : α → Prop} {x : Exec α} (h : Guarantees P x) (he : F .environment) :
    Outcome F P x := by
  cases x with
  | error e => rwa [outcome_error, show e = .environment from h]
  | ok a => exact h

/-! ## Element access -/

/-- `v[i]` read. -/
def readAt (v : List α) (i : Nat) : Exec α :=
  match v[i]? with
  | some a => .ok a
  | none => .error .outOfBounds

/-- `v[i] = a`. -/
def writeAt (v : List α) (i : Nat) (a : α) : Exec (List α) :=
  if i < v.length then .ok (v.set i a) else .error .outOfBounds

theorem readAt_eq_ok {v : List α} {i : Nat} {a : α} : readAt v i = .ok a ↔ v[i]? = some a := by
  unfold readAt
  split <;> simp_all

theorem readAt_of_lt {v : List α} {i : Nat} (h : i < v.length) : readAt v i = .ok v[i] :=
  readAt_eq_ok.mpr (List.getElem?_eq_getElem h)

theorem readAt_of_le {v : List α} {i : Nat} (h : v.length ≤ i) :
    readAt v i = .error .outOfBounds := by
  unfold readAt
  rw [List.getElem?_eq_none h]

theorem writeAt_of_lt {v : List α} {i : Nat} (h : i < v.length) (a : α) :
    writeAt v i a = .ok (v.set i a) := if_pos h

end Infra
