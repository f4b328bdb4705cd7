import Liby.Infra.Fault

/-!
# `while (1)`

A pass of such a loop goes on in a new state, or leaves the loop, normally or by a fault. Nothing
else ends the loop, so it is run for a number of passes and may still be running after them.
-/

namespace Infra

/-- How a pass of a loop ends. -/
inductive Pass (S R : Type _) where
  | next (s : S)
  | done (r : R)
  deriving DecidableEq, Repr

/-- The state that a pass leaves. -/
def Pass.out {S : Type _} : Pass S S → S
  | .next s => s
  | .done s => s

namespace Loop

variable {S R : Type _} (body : S → Exec (Pass S R))

/-- What the loop gives within `n` passes; `none` if it is still running. -/
def passes : Nat → S → Option (Exec R)
  | 0, _ => none
  | n + 1, s =>
    match body s with
    | .error e => some (.error e)
    | .ok (.done r) => some (.ok r)
    | .ok (.next s') => passes n s'

/-- The loop is left. -/
def Terminates (s : S) : Prop := ∃ n, (passes body n s).isSome

/-- The states at the start of a pass. -/
inductive Reached (s : S) : S → Prop where
  | refl : Reached s s
  | step {s' s'' : S} : Reached s s' → body s' = .ok (.next s'') → Reached s s''

variable {body}

theorem Reached.trans {s t u : S} (h : Reached body s t) (h' : Reached body t u) :
    Reached body s u := by
  induction h' with
  | refl => exact h
  | step _ hpass ih => exact ih.step hpass

/-- The first pass, or a later one. -/
theorem Reached.cases_start {s t : S} (h : Reached body s t) :
    t = s ∨ ∃ s', body s = .ok (.next s') ∧ Reached body s' t := by
  induction h with
  | refl => exact .inl rfl
  | step _ hpass ih =>
    rcases ih with rfl | ⟨s', hs', hreached⟩
    · exact .inr ⟨_, hpass, .refl⟩
    · exact .inr ⟨s', hs', hreached.step hpass⟩

/-- A state from which one pass leads on is left after one pass more. -/
theorem Terminates.of_next {s t : S} (h : Terminates body t) (hpass : body s = .ok (.next t)) :
    Terminates body s := by
  obtain ⟨n, hn⟩ := h
  refine ⟨n + 1, ?_⟩
  rw [passes, hpass]
  exact hn

/-- A loop that is left is left from the next pass too. -/
theorem Terminates.next {s t : S} (h : Terminates body s) (hpass : body s = .ok (.next t)) :
    Terminates body t := by
  obtain ⟨n, hn⟩ := h
  cases n with
  | zero => cases hn
  | succ n =>
    rw [passes, hpass] at hn
    exact ⟨n, hn⟩

theorem Terminates.reached {s t : S} (h : Terminates body s) (hreached : Reached body s t) :
    Terminates body t := by
  induction hreached with
  | refl => exact h
  | step _ hpass ih => exact ih.next hpass

theorem passes_done {s : S} {r : R} (hpass : body s = .ok (.done r)) :
    passes body 1 s = some (.ok r) := by
  rw [passes, hpass]

theorem passes_next {n : Nat} {s t : S} {x : Exec R} (hpass : body s = .ok (.next t))
    (h : passes body n t = some x) : passes body (n + 1) s = some x := by
  rw [passes, hpass]
  exact h

/-- A loop gives the same however many passes it is given, once it is left. -/
theorem passes_unique : ∀ {n m : Nat} {s : S} {x y : Exec R}, passes body n s = some x →
    passes body m s = some y → x = y
  | 0, _, _, _, _, hx, _ => by cases hx
  | _ + 1, 0, _, _, _, _, hy => by cases hy
  | n + 1, m + 1, s, x, y, hx, hy => by
    rw [passes] at hx hy
    cases hpass : body s with
    | error e =>
      rw [hpass] at hx hy
      exact Option.some.inj (hx.symm.trans hy)
    | ok pass =>
      rw [hpass] at hx hy
      cases pass with
      | done r => exact Option.some.inj (hx.symm.trans hy)
      | next t => exact passes_unique hx hy

/-- A loop whose passes all go on is not left. -/
theorem not_terminates {I : S → Prop} (hnext : ∀ s, I s → ∃ t, body s = .ok (.next t) ∧ I t)
    {s : S} (hi : I s) : ¬Terminates body s := by
  rintro ⟨n, hn⟩
  induction n generalizing s with
  | zero => cases hn
  | succ n ih =>
    obtain ⟨t, ht, hit⟩ := hnext s hi
    rw [passes, ht] at hn
    exact ih hit hn

/-- A pass that comes back to its own state is repeated for ever. -/
theorem not_terminates_of_fixed {s : S} (hpass : body s = .ok (.next s)) : ¬Terminates body s :=
  not_terminates (I := (· = s)) (fun _ h => ⟨s, by rw [h, hpass], rfl⟩) rfl

/-- A loop that is left normally is left by its last pass. -/
theorem passes_ok : ∀ {n : Nat} {s : S} {r : R}, passes body n s = some (.ok r) →
    ∃ t, Reached body s t ∧ body t = .ok (.done r)
  | 0, _, _, h => by cases h
  | n + 1, s, r, h => by
    rw [passes] at h
    cases hpass : body s with
    | error e =>
      rw [hpass] at h
      cases h
    | ok pass =>
      rw [hpass] at h
      cases pass with
      | done r' =>
        cases h
        exact ⟨s, .refl, hpass⟩
      | next s' =>
        obtain ⟨t, ht, hdone⟩ := passes_ok h
        exact ⟨t, (Reached.refl.step hpass).trans ht, hdone⟩

/-- What every pass keeps holds at the start of every pass. -/
theorem Reached.invariant {I : S → Prop}
    (hstep : ∀ s s', I s → body s = .ok (.next s') → I s') {s t : S} (hi : I s)
    (h : Reached body s t) : I t := by
  induction h with
  | refl => exact hi
  | step _ hpass ih => exact hstep _ _ ih hpass

/-- **A loop is left when every pass that goes on makes a measure smaller.** -/
theorem terminates_of_measure (measure : S → Nat) {s : S}
    (h : ∀ t t', Reached body s t → body t = .ok (.next t') → measure t' < measure t) :
    Terminates body s := by
  generalize hm : measure s = m
  induction m using Nat.strongRecOn generalizing s with
  | ind m ih =>
    cases hpass : body s with
    | error e => exact ⟨1, by rw [passes, hpass]; rfl⟩
    | ok pass =>
      cases pass with
      | done r => exact ⟨1, by rw [passes, hpass]; rfl⟩
      | next t =>
        have hstart : Reached body s t := Reached.refl.step hpass
        have hlt := h s t .refl hpass
        have hrest := ih (measure t) (hm ▸ hlt) (fun u u' hu => h u u' (hstart.trans hu)) rfl
        exact hrest.of_next hpass

end Loop

end Infra
