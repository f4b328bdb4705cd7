import Liby.Infra.Block
import Liby.Infra.Decimal
import Mathlib.Data.Nat.Digits.Defs

/-!
# `printf` of integers, and C strings in arrays

The conversions `%Nd` and `%0Nd` of a number, `sprintf` into an array, and `std::string` of an array: it
goes up to the first NUL.
-/

namespace Infra.Printf

/-- The sign of a number that is printed with `%d`. -/
def sign (n : Int) : Bytes := if n < 0 then [45] else []

/-- Its digits. -/
def digits (n : Int) : Bytes := stdToString n.natAbs

/-- `%wd`: blanks in front. -/
def spaced (w : Nat) (n : Int) : Bytes :=
  List.replicate (w - (sign n ++ digits n).length) 32 ++ (sign n ++ digits n)

/-- `%0wd`: zeros between the sign and the digits. -/
def zeroed (w : Nat) (n : Int) : Bytes :=
  sign n ++ (List.replicate (w - (sign n ++ digits n).length) 48 ++ digits n)

/-- `sprintf(array, ..)` of a text. -/
def sprintf (array text : Bytes) : Exec Bytes := Block.write array 0 (text ++ [0])

/-- `std::string(array)`. -/
def string (array : Bytes) : Exec Bytes :=
  if 0 ∈ array then .ok (array.takeWhile (· ≠ 0)) else .error .outOfBounds

example : zeroed 6 (-42) = str "-00042" ∧ spaced 4 7 = str "   7" := by decide

variable {n : Int} {w k : Nat} {array text : Bytes}

theorem length_sign_digits (h : n.natAbs < 10 ^ k) (hk : 0 < k) : (sign n ++ digits n).length ≤ k + 1 := by
  have hsign : (sign n).length ≤ 1 := by
    unfold sign
    split
    · exact le_rfl
    · exact Nat.zero_le 1
  have hdigits : (digits n).length ≤ k := by
    unfold digits stdToString
    rw [List.length_map]
    exact Nat.toDigits_length 10 n.natAbs k hk h
  rw [List.length_append]
  omega

/-- A number is printed with its width, or with its digits and a sign. -/
theorem length_spaced (h : n.natAbs < 10 ^ k) (hk : 0 < k) : (spaced w n).length ≤ max w (k + 1) := by
  have hlength := length_sign_digits h hk
  unfold spaced
  rw [List.length_append, List.length_replicate]
  omega

theorem length_zeroed (h : n.natAbs < 10 ^ k) (hk : 0 < k) : (zeroed w n).length ≤ max w (k + 1) := by
  have hlength := length_sign_digits h hk
  unfold zeroed
  simp only [List.length_append, List.length_replicate] at hlength ⊢
  omega

theorem nul_digits (n : Int) : 0 ∉ digits n := fun h => absurd (isdigit_stdToString n.natAbs 0 h) (by decide)

theorem nul_sign (n : Int) : 0 ∉ sign n := by
  unfold sign
  split <;> decide

theorem nul_spaced (w : Nat) (n : Int) : 0 ∉ spaced w n := by
  unfold spaced
  simp only [List.mem_append, List.mem_replicate, not_or]
  exact ⟨fun h => absurd h.2 (by decide), nul_sign n, nul_digits n⟩

theorem nul_zeroed (w : Nat) (n : Int) : 0 ∉ zeroed w n := by
  unfold zeroed
  simp only [List.mem_append, List.mem_replicate, not_or]
  exact ⟨nul_sign n, fun h => absurd h.2 (by decide), nul_digits n⟩

/-- An array with a C string at its start. -/
def Holds (array text : Bytes) : Prop := 0 ∉ text ∧ text ++ [0] <+: array

/-- A text that fits is what the array holds then. -/
theorem sprintf_holds (array : Bytes) (hnul : 0 ∉ text) (hlength : text.length < array.length) :
    ∃ array', sprintf array text = .ok array' ∧ array'.length = array.length ∧ Holds array' text := by
  unfold sprintf Block.write
  have hroom : 0 + (text ++ [0]).length ≤ array.length := by
    rw [List.length_append, List.length_singleton]
    omega
  rw [if_pos hroom]
  refine ⟨_, rfl, ?_, hnul, ?_⟩
  · simp only [List.length_append, List.length_take, List.length_drop, List.length_singleton]
    omega
  · rw [List.take_zero, List.nil_append]
    exact List.prefix_append _ _

theorem Holds.string_eq (h : Holds array text) : string array = .ok text := by
  obtain ⟨hnul, rest, rfl⟩ := h
  unfold string
  rw [if_pos (by simp), List.append_assoc, List.takeWhile_append_of_pos fun c hc => by
    simpa using fun hzero : c = 0 => hnul (hzero ▸ hc)]
  simp

end Infra.Printf
