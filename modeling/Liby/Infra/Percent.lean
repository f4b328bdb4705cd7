import Liby.Infra.Cursor

/-!
# Percent-coding

A text codes a row of bytes when each byte stands for itself or is written as `%xy`, where `x` and
`y` are hexadecimal digits. A `%` never stands for itself.
-/

namespace Infra

/-- `std::isxdigit` in the C locale. -/
def isxdigit (c : UInt8) : Bool :=
  (decide (48 ≤ c) && decide (c ≤ 57)) || (decide (65 ≤ c) && decide (c ≤ 70)) ||
    (decide (97 ≤ c) && decide (c ≤ 102))

/-- The value of a hexadecimal digit. -/
def hexValue (c : UInt8) : UInt8 :=
  if c ≤ 57 then c - 48 else if c ≤ 70 then c - 55 else c - 87

/-- `text` codes `bytes`. -/
inductive Coded : Bytes → Bytes → Prop
  | nil : Coded [] []
  | byte {c : UInt8} {text bytes : Bytes} (hc : c ≠ 37) (h : Coded text bytes) :
      Coded (c :: text) (c :: bytes)
  | escape {x y : UInt8} {text bytes : Bytes} (hx : isxdigit x = true) (hy : isxdigit y = true)
      (h : Coded text bytes) : Coded (37 :: x :: y :: text) ((hexValue x * 16 + hexValue y) :: bytes)

/-- Two hexadecimal digits come first. -/
def TwoDigits (after : Bytes) : Prop :=
  ∃ x y rest, after = x :: y :: rest ∧ isxdigit x = true ∧ isxdigit y = true

variable {text text' bytes bytes' : Bytes}

theorem ne_of_isxdigit {x c : UInt8} (hx : isxdigit x = true) (hc : isxdigit c = false) : x ≠ c := by
  rintro rfl
  rw [hc] at hx
  cases hx

namespace Coded

/-- A text codes one row of bytes at most. -/
theorem unique (h : Coded text bytes) : ∀ {bytes' : Bytes}, Coded text bytes' → bytes = bytes' := by
  induction h with
  | nil =>
    rintro _ ⟨⟩
    rfl
  | byte hc _ ih =>
    rintro _ (_ | ⟨_, h'⟩ | ⟨_, _, _⟩)
    · rw [ih h']
    · exact absurd rfl hc
  | escape _ _ _ ih =>
    rintro _ (_ | ⟨hc, _⟩ | ⟨_, _, h'⟩)
    · exact absurd rfl hc
    · rw [ih h']

theorem append (h : Coded text bytes) (h' : Coded text' bytes') :
    Coded (text ++ text') (bytes ++ bytes') := by
  induction h with
  | nil => exact h'
  | byte hc _ ih => exact .byte hc ih
  | escape hx hy _ ih => exact .escape hx hy ih

/-- No escape goes over a byte that is no digit. -/
theorem split {c : UInt8} (hc : c ≠ 37) (hdigit : isxdigit c = false) : ∀ {text bytes : Bytes},
    Coded (text ++ c :: text') bytes →
    ∃ bytes₁ bytes₂, bytes = bytes₁ ++ c :: bytes₂ ∧ Coded text bytes₁ ∧ Coded text' bytes₂ := by
  intro text bytes h
  generalize heq : text ++ c :: text' = whole at h
  induction h generalizing text with
  | nil => simp at heq
  | @byte c' text₀ bytes₀ hc' h ih =>
    cases text with
    | nil =>
      cases heq
      exact ⟨[], bytes₀, rfl, .nil, h⟩
    | cons _ text =>
      cases heq
      obtain ⟨bytes₁, bytes₂, rfl, h₁, h₂⟩ := ih rfl
      exact ⟨c' :: bytes₁, bytes₂, rfl, .byte hc' h₁, h₂⟩
  | @escape x y text₀ bytes₀ hx hy h ih =>
    -- the delimiter is neither the `%` nor one of the digits
    match text, heq with
    | [], heq =>
      cases heq
      exact absurd rfl hc
    | [_], heq =>
      cases heq
      exact absurd rfl (ne_of_isxdigit hx hdigit)
    | [_, _], heq =>
      cases heq
      exact absurd rfl (ne_of_isxdigit hy hdigit)
    | _ :: _ :: _ :: text, heq =>
      cases heq
      obtain ⟨bytes₁, bytes₂, rfl, h₁, h₂⟩ := ih rfl
      exact ⟨_ :: bytes₁, bytes₂, rfl, .escape hx hy h₁, h₂⟩

/-- A byte is written with three at most. -/
theorem length_le (h : Coded text bytes) : text.length ≤ 3 * bytes.length := by
  induction h with
  | nil => exact le_rfl
  | byte _ _ ih =>
    rw [List.length_cons, List.length_cons]
    omega
  | escape _ _ _ ih =>
    simp only [List.length_cons]
    omega

end Coded

/-- **What is a code.** A text codes something exactly when two digits come after each `%`. -/
theorem exists_coded_iff (text : Bytes) :
    (∃ bytes, Coded text bytes) ↔
      ∀ before after, text = before ++ 37 :: after → TwoDigits after := by
  constructor
  · rintro ⟨bytes, h⟩
    have hpercent : isxdigit 37 = false := by decide
    induction h with
    | nil =>
      intro before after heq
      simp at heq
    | byte hc _ ih =>
      rintro (_ | ⟨_, before⟩) after heq
      · cases heq
        exact absurd rfl hc
      · cases heq
        exact ih before after rfl
    | @escape x y text _ hx hy _ ih =>
      rintro (_ | ⟨_, _ | ⟨_, _ | ⟨_, before⟩⟩⟩) after heq
      · cases heq
        exact ⟨x, y, text, rfl, hx, hy⟩
      · cases heq
        exact absurd rfl (ne_of_isxdigit hx hpercent)
      · cases heq
        exact absurd rfl (ne_of_isxdigit hy hpercent)
      · cases heq
        exact ih before after rfl
  · intro h
    induction hn : text.length using Nat.strong_induction_on generalizing text with
    | _ n ih =>
      subst hn
      cases text with
      | nil => exact ⟨[], .nil⟩
      | cons c rest =>
        by_cases hc : c = 37
        · subst hc
          obtain ⟨x, y, rest, rfl, hx, hy⟩ := h [] rest rfl
          obtain ⟨bytes, hcoded⟩ := ih rest.length (by simp; omega) rest
            (fun before after heq => h (37 :: x :: y :: before) after (by simp [heq])) rfl
          exact ⟨_, .escape hx hy hcoded⟩
        · obtain ⟨bytes, hcoded⟩ := ih rest.length (by simp) rest
            (fun before after heq => h (c :: before) after (by simp [heq])) rfl
          exact ⟨_, .byte hc hcoded⟩

end Infra
