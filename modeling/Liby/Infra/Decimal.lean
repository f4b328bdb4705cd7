import Liby.Infra.Cursor

/-!
# Decimal numbers in text
-/

namespace Infra

/-- `std::isdigit` in the C locale. -/
def isdigit (c : UInt8) : Bool := decide (48 ≤ c) && decide (c ≤ 57)

/-- The number that a row of digits writes. -/
def digitsValue (digits : Bytes) : Nat := digits.foldl (fun n c => 10 * n + (c.toNat - 48)) 0

/-- The sign that a number may start with: whether it is a minus, and the text after it. -/
def takeSign : Bytes → Bool × Bytes
  | 45 :: text => (true, text)
  | 43 :: text => (false, text)
  | text => (false, text)

/--
`std::stoi`: blanks, a sign, and digits up to the first byte that is none. No digits, or a number
that is no `int`, is an exception.
-/
def stoi (text : Bytes) : Exec Int :=
  let (negative, text) := takeSign (text.dropWhile Cursor.isspace)
  let digits := text.takeWhile isdigit
  let n : Int := if negative then -(digitsValue digits : Int) else digitsValue digits
  if digits ≠ [] ∧ -2 ^ 31 ≤ n ∧ n < 2 ^ 31 then .ok n else .error .exception

/-- `std::to_string` of a number that is not negative. -/
def stdToString (n : Nat) : Bytes := (Nat.toDigits 10 n).map fun c => UInt8.ofNat c.toNat

example : stoi (str " -12x") = .ok (-12) := by decide

theorem takeSign_digits {digits : Bytes} (hne : digits ≠ []) (h : ∀ c ∈ digits, isdigit c = true)
    (rest : Bytes) : takeSign (digits ++ rest) = (false, digits ++ rest) := by
  cases digits with
  | nil => exact absurd rfl hne
  | cons c digits =>
    have hc := h c List.mem_cons_self
    unfold takeSign
    split
    · next heq =>
      cases heq
      exact absurd hc (by decide)
    · next heq =>
      cases heq
      exact absurd hc (by decide)
    · rfl

/-- A digit is not blank. -/
theorem isspace_of_isdigit {c : UInt8} (h : isdigit c = true) : Cursor.isspace c = false := by
  have h48 : 48 ≤ c.toNat := by
    simp only [isdigit, Bool.and_eq_true, decide_eq_true_eq] at h
    exact UInt8.le_iff_toNat_le.mp h.1
  have h32 : c ≠ 32 := by
    rintro rfl
    exact absurd h48 (by decide)
  have h13 : ¬c ≤ 13 := fun hle => by
    have hle := UInt8.le_iff_toNat_le.mp hle
    have h13 : (13 : UInt8).toNat = 13 := rfl
    omega
  simp [Cursor.isspace, h32, h13]

/-- **A row of digits is read as its value**, after blanks and before what is no digit. -/
theorem stoi_digits {blanks digits rest : Bytes} (hblanks : ∀ c ∈ blanks, Cursor.isspace c = true)
    (hne : digits ≠ []) (hdigits : ∀ c ∈ digits, isdigit c = true)
    (hrest : ∀ c ∈ rest.head?, isdigit c = false) (hlt : digitsValue digits < 2 ^ 31) :
    stoi (blanks ++ (digits ++ rest)) = .ok (digitsValue digits) := by
  have hdrop : (blanks ++ (digits ++ rest)).dropWhile Cursor.isspace = digits ++ rest := by
    rw [List.dropWhile_append_of_pos hblanks]
    obtain ⟨c, cs, rfl⟩ := List.exists_cons_of_ne_nil hne
    have hc := isspace_of_isdigit (hdigits c List.mem_cons_self)
    rw [List.cons_append, List.dropWhile_cons_of_neg (by simp [hc])]
  have htake : (digits ++ rest).takeWhile isdigit = digits := by
    rw [List.takeWhile_append_of_pos hdigits]
    cases rest with
    | nil => simp
    | cons c rest =>
      have hc := hrest c rfl
      rw [List.takeWhile_cons_of_neg (by simp [hc]), List.append_nil]
  unfold stoi
  rw [hdrop, takeSign_digits hne hdigits]
  dsimp only
  rw [htake, if_neg Bool.false_ne_true, if_pos ⟨hne, by omega, by omega⟩]

theorem stdToString_ne (n : Nat) : stdToString n ≠ [] := by
  unfold stdToString
  rw [ne_eq, List.map_eq_nil_iff]
  exact Nat.toDigits_ne_nil

/-- The byte of a digit. -/
theorem toNat_digit {c : Char} (h : c.isDigit = true) :
    (UInt8.ofNat c.toNat).toNat = c.toNat ∧ 48 ≤ c.toNat ∧ c.toNat ≤ 57 := by
  have hrange : 48 ≤ c.toNat ∧ c.toNat ≤ 57 := by
    simp only [Char.isDigit, Bool.and_eq_true, decide_eq_true_eq] at h
    exact ⟨UInt32.le_iff_toNat_le.mp h.1, UInt32.le_iff_toNat_le.mp h.2⟩
  refine ⟨?_, hrange⟩
  rw [UInt8.toNat_ofNat']
  omega

theorem isdigit_stdToString (n : Nat) : ∀ c ∈ stdToString n, isdigit c = true := by
  intro c hc
  obtain ⟨digit, hdigit, rfl⟩ := List.mem_map.mp hc
  obtain ⟨hnat, hle, hge⟩ := toNat_digit (Nat.isDigit_of_mem_toDigits (by omega) (by omega) hdigit)
  simp only [isdigit, Bool.and_eq_true, decide_eq_true_eq, UInt8.le_iff_toNat_le, hnat]
  exact ⟨hle, hge⟩

theorem digitsValue_stdToString (n : Nat) : digitsValue (stdToString n) = n := by
  have hfold : ∀ (digits : List Char) (m : Nat), (∀ c ∈ digits, c.isDigit = true) →
      (digits.map fun c => UInt8.ofNat c.toNat).foldl (fun n c => 10 * n + (c.toNat - 48)) m
        = Nat.ofDigitChars 10 digits m := by
    intro digits
    induction digits with
    | nil => intro m _; simp
    | cons c digits ih =>
      intro m h
      rw [List.map_cons, List.foldl_cons, (toNat_digit (h c List.mem_cons_self)).1,
        ih _ fun c' hc' => h c' (List.mem_cons_of_mem c hc'), Nat.ofDigitChars_cons]
      rfl
  unfold digitsValue stdToString
  rw [hfold _ 0 fun c hc => Nat.isDigit_of_mem_toDigits (by omega) (by omega) hc,
    Nat.ofDigitChars_ten_toDigits]

end Infra
