import Liby.Infra.Fault

/-!
# Integers of a fixed width

A value of `int` or `long` is an `Int`. Signed arithmetic that leaves the range is undefined; a
conversion to a narrower type goes round.
-/

namespace Infra

/-! ## `int` -/

/-- The value of an integer converted to a 32-bit `int`. -/
def toInt (n : Int) : Int := Int.bmod n (2 ^ 32)

theorem toInt_of_lt {n : Int} (h0 : 0 ≤ n) (h : n < 2 ^ 31) : toInt n = n := by
  unfold toInt
  rw [Int.bmod_eq_of_le] <;> omega

/-- The value of a 32-bit `int`. -/
def InInt (n : Int) : Prop := -2 ^ 31 ≤ n ∧ n < 2 ^ 31

instance (n : Int) : Decidable (InInt n) := inferInstanceAs (Decidable (_ ∧ _))

theorem toInt_inInt (n : Int) : InInt (toInt n) := by
  have hlo := @Int.le_bmod n (2 ^ 32) (by decide)
  have hhi := @Int.bmod_lt n (2 ^ 32) (by decide)
  unfold InInt toInt
  omega

/-- A conversion goes round by a multiple of `2 ^ 32`. -/
theorem dvd_toInt_sub (n : Int) : (2 ^ 32 : Int) ∣ toInt n - n :=
  @Int.dvd_bmod_sub_self n (2 ^ 32)

/-- A 32-bit addition; an overflow is undefined. -/
def addInt (a b : Int) : Exec Int :=
  if -2 ^ 31 ≤ a + b ∧ a + b < 2 ^ 31 then .ok (a + b) else .error .signedOverflow

/-- A 32-bit subtraction; an overflow is undefined. -/
def subInt (a b : Int) : Exec Int :=
  if -2 ^ 31 ≤ a - b ∧ a - b < 2 ^ 31 then .ok (a - b) else .error .signedOverflow

theorem addInt_eq_ok {a b c : Int} (h : addInt a b = .ok c) : c = a + b ∧ InInt c := by
  unfold addInt at h
  split at h
  · next hrange =>
    cases h
    exact ⟨rfl, hrange⟩
  · cases h

theorem subInt_eq_ok {a b c : Int} (h : subInt a b = .ok c) : c = a - b ∧ InInt c := by
  unfold subInt at h
  split at h
  · next hrange =>
    cases h
    exact ⟨rfl, hrange⟩
  · cases h

theorem subInt_ok {a b : Int} (h0 : -2 ^ 31 ≤ a - b) (h : a - b < 2 ^ 31) :
    subInt a b = .ok (a - b) := if_pos ⟨h0, h⟩

/-- The lower half of the remainders modulo `2 ^ 32` are values of `int`. -/
theorem toInt_eq_emod {n : Int} (h : n % 2 ^ 32 < 2 ^ 31) : toInt n = n % 2 ^ 32 := by
  unfold toInt
  rw [Int.bmod_def]
  split <;> omega

theorem toInt_nonneg_iff {n : Int} : 0 ≤ toInt n ↔ n % 2 ^ 32 < 2 ^ 31 := by
  unfold toInt
  rw [Int.bmod_def]
  split <;> omega

/-- A value that went through a `uint64_t`. -/
theorem toInt_emod (n : Int) : toInt (n % 2 ^ 64) = toInt n := by
  unfold toInt
  rw [Int.bmod_def, Int.bmod_def]
  omega

/-! ## `long` -/

/-- The value of a 64-bit `long`. -/
def InLong (n : Int) : Prop := -2 ^ 63 ≤ n ∧ n < 2 ^ 63

instance (n : Int) : Decidable (InLong n) := inferInstanceAs (Decidable (_ ∧ _))

/-- The result of 64-bit arithmetic; an overflow is undefined. -/
def long (n : Int) : Exec Int := if InLong n then .ok n else .error .signedOverflow

theorem long_ok {n : Int} (h : InLong n) : long n = .ok n := if_pos h

theorem long_eq_ok {n m : Int} : long n = .ok m ↔ InLong n ∧ m = n := by
  unfold long
  split
  · next hrange =>
    constructor
    · intro h
      cases h
      exact ⟨hrange, rfl⟩
    · rintro ⟨-, rfl⟩
      rfl
  · next hrange =>
    constructor
    · intro h
      cases h
    · exact fun h => absurd h.1 hrange

theorem long_bind_eq_ok {α : Type _} {n : Int} {f : Int → Exec α} {a : α} :
    (long n >>= f) = .ok a ↔ InLong n ∧ f n = .ok a := by
  rw [bind_eq_ok]
  constructor
  · rintro ⟨m, hm, h⟩
    obtain ⟨hn, rfl⟩ := long_eq_ok.mp hm
    exact ⟨hn, h⟩
  · rintro ⟨hn, h⟩
    exact ⟨n, long_ok hn, h⟩

/-! ## Division -/

/-- Division goes towards zero: it rounds up what is not positive. -/
theorem tdiv_of_nonpos {a b : Int} (h : a ≤ 0) : a.tdiv b = -(-a / b) := by
  rw [← Int.tdiv_eq_ediv_of_nonneg (by omega), Int.neg_tdiv, Int.neg_neg]

end Infra
