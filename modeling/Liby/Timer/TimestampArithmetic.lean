import Liby.Timer.Timestamp
import Mathlib.Algebra.Order.Ring.Unbundled.Basic

/-!
# Sums and differences of Timestamps

The constructor carries when the microseconds are more than a second. A sum of exactly one second stays
in `tv_usec`, so the same moment has two forms, and `compareTo` tells them apart. `time_t` is modelled
by `Int`: no sum of seconds overflows.
-/

namespace Liby.Timestamp

/-- `operator-`. -/
def sub (lhs rhs : Timestamp) : Timestamp :=
  let sec := lhs.tvSec - rhs.tvSec
  if lhs.tvUsec < rhs.tvUsec then
    ofSecUsec (sec - 1) (lhs.tvUsec + kMicrosecondsPerSecond - rhs.tvUsec)
  else ofSecUsec sec (lhs.tvUsec - rhs.tvUsec)

/-- `toMicroSec`, a `uint64_t`. -/
def toMicroSec (t : Timestamp) : Int := (t.tvSec * 1000000 + t.tvUsec) % 2 ^ 64

/-- The fields are those of a moment not before 1970. -/
structure Normalised (t : Timestamp) : Prop where
  sec : 0 ≤ t.tvSec
  usec : 0 ≤ t.tvUsec
  usec_lt : t.tvUsec < kMicrosecondsPerSecond

/-- The microseconds, as many as there are. -/
def micros (t : Timestamp) : Int := t.tvSec * 1000000 + t.tvUsec

/-- Microseconds that `ofSecUsec` leaves: at most a second of them. -/
def Near (t : Timestamp) : Prop := 0 ≤ t.tvUsec ∧ t.tvUsec ≤ kMicrosecondsPerSecond

variable {a b c x y : Timestamp}

theorem kMicrosecondsPerSecond_eq : kMicrosecondsPerSecond = 1000000 := rfl

theorem normalised_iff :
    a.Normalised ↔ 0 ≤ a.tvSec ∧ 0 ≤ a.tvUsec ∧ a.tvUsec < 1000000 :=
  ⟨fun h => ⟨h.sec, h.usec, h.usec_lt⟩, fun h => ⟨h.1, h.2.1, h.2.2⟩⟩

instance : DecidablePred Normalised := fun _ => decidable_of_iff _ normalised_iff.symm

instance : DecidablePred Near := fun t => inferInstanceAs (Decidable (0 ≤ t.tvUsec ∧ _))

theorem near_iff : a.Near ↔ 0 ≤ a.tvUsec ∧ a.tvUsec ≤ 1000000 := Iff.rfl

theorem Normalised.near (h : a.Normalised) : a.Near := ⟨h.usec, le_of_lt h.usec_lt⟩

theorem le_iff_lex : a ≤ b ↔ a.tvSec < b.tvSec ∨ a.tvSec = b.tvSec ∧ a.tvUsec ≤ b.tvUsec := by
  rw [← not_lt, lt_iff_lex]
  omega

/-! ## The constructor -/

/-- The carry, for the microseconds of a sum or of a difference. -/
theorem ofSecUsec_eq {sec usec : Int} (h0 : 0 ≤ usec) (h : usec ≤ 2000000) : ofSecUsec sec usec =
    if 1000000 < usec then { tvSec := sec + usec / 1000000, tvUsec := usec % 1000000 }
    else { tvSec := sec, tvUsec := usec } := by
  unfold ofSecUsec
  rw [kMicrosecondsPerSecond_eq, Int.emod_eq_of_lt h0 (by omega), Int.tdiv_eq_ediv_of_nonneg h0,
    Int.tmod_eq_emod_of_nonneg h0]

/-- Whatever is carried, the moment stays. -/
theorem micros_ofSecUsec (sec usec : Int) : (ofSecUsec sec usec).micros = sec * 1000000 + usec := by
  have hcarry := Int.mul_tdiv_add_tmod usec 1000000
  unfold ofSecUsec micros
  rw [kMicrosecondsPerSecond_eq]
  split <;> dsimp only
  omega

/-! ## The operators on the fields -/

/-- `a + b`: a carry when there is more than a second. -/
theorem add_eq (ha : a.Near) (hb : b.Near) : add a b =
    if 1000000 < a.tvUsec + b.tvUsec then
      { tvSec := a.tvSec + b.tvSec + (a.tvUsec + b.tvUsec) / 1000000
        tvUsec := (a.tvUsec + b.tvUsec) % 1000000 }
    else { tvSec := a.tvSec + b.tvSec, tvUsec := a.tvUsec + b.tvUsec } := by
  rw [near_iff] at ha hb
  exact ofSecUsec_eq (by omega) (by omega)

/-- `a - b`: a borrow when `b` has more microseconds, and nothing to carry. -/
theorem sub_eq (ha : a.Near) (hb : b.Near) : sub a b =
    if a.tvUsec < b.tvUsec then
      { tvSec := a.tvSec - b.tvSec - 1, tvUsec := a.tvUsec + 1000000 - b.tvUsec }
    else { tvSec := a.tvSec - b.tvSec, tvUsec := a.tvUsec - b.tvUsec } := by
  rw [near_iff] at ha hb
  unfold sub
  rw [kMicrosecondsPerSecond_eq]
  split
  · rw [ofSecUsec_eq (by omega) (by omega), if_neg (by omega)]
  · rw [ofSecUsec_eq (by omega) (by omega), if_neg (by omega)]

theorem micros_add (a b : Timestamp) : (add a b).micros = a.micros + b.micros := by
  unfold add
  rw [micros_ofSecUsec]
  unfold micros
  omega

theorem micros_sub (a b : Timestamp) : (sub a b).micros = a.micros - b.micros := by
  have hsecond := kMicrosecondsPerSecond_eq
  unfold sub
  dsimp only
  split <;> rw [micros_ofSecUsec] <;> unfold micros <;> omega

theorem near_add (ha : a.Near) (hb : b.Near) : (add a b).Near := by
  rw [near_iff, add_eq ha hb]
  rw [near_iff] at ha hb
  split <;> dsimp only <;> omega

theorem near_sub (ha : a.Near) (hb : b.Near) : (sub a b).Near := by
  rw [near_iff, sub_eq ha hb]
  rw [near_iff] at ha hb
  split <;> dsimp only <;> omega

/-- A second is left in `tv_usec` where the microseconds add up to one. -/
theorem usec_add_eq_iff (ha : a.Near) (hb : b.Near) :
    (add a b).tvUsec = 1000000 ↔ a.tvUsec + b.tvUsec = 1000000 := by
  rw [add_eq ha hb]
  split <;> dsimp only <;> omega

theorem usec_sub_eq_iff (ha : a.Near) (hb : b.Near) :
    (sub a b).tvUsec = 1000000 ↔ a.tvUsec = 1000000 ∧ b.tvUsec = 0 := by
  rw [sub_eq ha hb]
  rw [near_iff] at ha hb
  split <;> dsimp only <;> omega

theorem sec_add_nonneg (ha : a.Near) (hb : b.Near) (ha0 : 0 ≤ a.tvSec) (hb0 : 0 ≤ b.tvSec) :
    0 ≤ (add a b).tvSec := by
  rw [add_eq ha hb]
  split <;> dsimp only <;> omega

/-- What is not later can be taken away. -/
theorem sec_sub_nonneg (ha : a.Near) (hb : b.Near) (hle : b ≤ a) : 0 ≤ (sub a b).tvSec := by
  rw [le_iff_lex] at hle
  rw [sub_eq ha hb]
  split <;> dsimp only <;> omega

/-- With no second left in `tv_usec` the fields are normalised. -/
theorem Near.normalised_iff (h : a.Near) (h0 : 0 ≤ a.tvSec) :
    a.Normalised ↔ a.tvUsec ≠ 1000000 := by
  rw [near_iff] at h
  rw [Timestamp.normalised_iff]
  omega

/-- **A sum is normalised unless its microseconds are one second.** -/
theorem normalised_add_iff (ha : a.Normalised) (hb : b.Normalised) :
    (add a b).Normalised ↔ a.tvUsec + b.tvUsec ≠ kMicrosecondsPerSecond := by
  rw [(near_add ha.near hb.near).normalised_iff (sec_add_nonneg ha.near hb.near ha.sec hb.sec)]
  exact not_congr (usec_add_eq_iff ha.near hb.near)

/-- A difference is normalised. -/
theorem normalised_sub (ha : a.Normalised) (hb : b.Normalised) (hle : b ≤ a) :
    (sub a b).Normalised := by
  rw [(near_sub ha.near hb.near).normalised_iff (sec_sub_nonneg ha.near hb.near hle)]
  intro hone
  exact ha.usec_lt.ne ((usec_sub_eq_iff ha.near hb.near).mp hone).1

/-! ## The order of the moments -/

theorem lt_of_micros_lt (hx : x.Near) (hy : y.Near) (h : x.micros < y.micros) : x < y := by
  rw [near_iff] at hx hy
  unfold micros at h
  rw [lt_iff_lex]
  omega

theorem micros_le (hx : x.Near) (hy : y.Near) (h : x ≤ y) : x.micros ≤ y.micros := by
  by_contra hlt
  exact not_lt_of_ge h (lt_of_micros_lt hy hx (not_le.mp hlt))

/-- Normalised fields are known by the moment. -/
theorem eq_of_micros (ha : a.Normalised) (hb : b.Normalised) (h : a.micros = b.micros) : a = b := by
  rw [normalised_iff] at ha hb
  unfold micros at h
  ext <;> omega

theorem compareTo_of_lt (h : x < y) : x.compareTo y = -1 := by
  have hlt := lt_iff.mpr h
  rwa [lt, beq_iff_eq] at hlt

theorem compareTo_of_gt (h : y < x) : x.compareTo y = 1 := by
  rw [lt_iff_lex] at h
  unfold compareTo
  split
  · omega
  · split
    · rfl
    · rw [if_neg (by omega), if_pos (by omega)]

@[simp] theorem compareTo_self (x : Timestamp) : x.compareTo x = 0 := by
  simp [compareTo]

theorem compareTo_eq_zero : x.compareTo y = 0 ↔ x = y := by
  constructor
  · intro h
    rcases lt_trichotomy x y with hlt | rfl | hgt
    · rw [compareTo_of_lt hlt] at h
      cases h
    · rfl
    · rw [compareTo_of_gt hgt] at h
      cases h
  · rintro rfl
    exact compareTo_self x

/-- What wraps is in the order of what does not. -/
def SameOrder (m n : Int) : Prop :=
  (m < n → m % 2 ^ 64 < n % 2 ^ 64) ∧ (n < m → n % 2 ^ 64 < m % 2 ^ 64)

/-- Below 2^64 microseconds, which is half a million years, nothing wraps. -/
theorem sameOrder_of_lt {m n : Int} (hm : 0 ≤ m) (hm' : m < 2 ^ 64) (hn : 0 ≤ n) (hn' : n < 2 ^ 64) :
    SameOrder m n := by
  unfold SameOrder
  rw [Int.emod_eq_of_lt hm hm', Int.emod_eq_of_lt hn hn']
  exact ⟨id, id⟩

/--
**`compareTo` gives the sign of the difference of the microseconds** unless one moment comes in two
forms, or the microseconds wrap into another order.
-/
theorem compareTo_eq_sign_iff (hx : x.Near) (hy : y.Near) :
    x.compareTo y = (x.toMicroSec - y.toMicroSec).sign ↔
      (x.micros = y.micros → x = y) ∧ SameOrder x.micros y.micros := by
  have hxm : x.toMicroSec = x.micros % 2 ^ 64 := rfl
  have hym : y.toMicroSec = y.micros % 2 ^ 64 := rfl
  unfold SameOrder
  rw [← hxm, ← hym]
  rcases lt_trichotomy x.micros y.micros with hlt | heq | hgt
  · rw [compareTo_of_lt (lt_of_micros_lt hx hy hlt), eq_comm, Int.sign_eq_neg_one_iff_neg]
    omega
  · -- the same moment: the sign is 0, and `compareTo` says so of equal fields only
    have hzero : x.toMicroSec - y.toMicroSec = 0 := by rw [hxm, hym, heq, sub_self]
    rw [hzero, Int.sign_zero, compareTo_eq_zero]
    constructor
    · exact fun h => ⟨fun _ => h, by omega, by omega⟩
    · exact fun h => h.1 heq
  · rw [compareTo_of_gt (lt_of_micros_lt hy hx hgt), eq_comm, Int.sign_eq_one_iff_pos]
    omega

/-! ## Results of the operators -/

/-- A result of `+` and `-`, of as many of them as there are. -/
inductive Result where
  | of (t : Timestamp)
  | plus (r r' : Result)
  | minus (r r' : Result)

namespace Result

/-- What the operators give. -/
def value : Result → Timestamp
  | of t => t
  | plus r r' => add r.value r'.value
  | minus r r' => sub r.value r'.value

/-- The operands are normalised, and no later moment is taken from an earlier one. -/
def Proper : Result → Prop
  | of t => t.Normalised
  | plus r r' => r.Proper ∧ r'.Proper
  | minus r r' => r.Proper ∧ r'.Proper ∧ r'.value ≤ r.value

/-- The microseconds that come out, with nothing carried. -/
def exact : Result → Int
  | of t => t.micros
  | plus r r' => r.exact + r'.exact
  | minus r r' => r.exact - r'.exact

/-- A whole second stays in the microseconds: a sum has one there, or it was there before. -/
def OneSecond : Result → Prop
  | of _ => False
  | plus r r' => r.value.tvUsec + r'.value.tvUsec = kMicrosecondsPerSecond
  | minus r r' => r.value.tvUsec = kMicrosecondsPerSecond ∧ r'.value.tvUsec = 0

variable {r r' : Result}

theorem Proper.near (h : r.Proper) : r.value.Near := by
  induction r with
  | of t => exact Normalised.near h
  | plus r r' ih ih' => exact near_add (ih h.1) (ih' h.2)
  | minus r r' ih ih' => exact near_sub (ih h.1) (ih' h.2.1)

theorem Proper.sec (h : r.Proper) : 0 ≤ r.value.tvSec := by
  induction r with
  | of t => exact Normalised.sec h
  | plus r r' ih ih' => exact sec_add_nonneg h.1.near h.2.near (ih h.1) (ih' h.2)
  | minus r r' => exact sec_sub_nonneg h.1.near h.2.1.near h.2.2

theorem Proper.micros (h : r.Proper) : r.value.micros = r.exact := by
  induction r with
  | of t => rfl
  | plus r r' ih ih' =>
    show (add r.value r'.value).micros = r.exact + r'.exact
    rw [micros_add, ih h.1, ih' h.2]
  | minus r r' ih ih' =>
    show (sub r.value r'.value).micros = r.exact - r'.exact
    rw [micros_sub, ih h.1, ih' h.2.1]

theorem Proper.usec_iff (h : r.Proper) : r.value.tvUsec = 1000000 ↔ r.OneSecond := by
  cases r with
  | of t => exact iff_of_false (Normalised.usec_lt h).ne id
  | plus r r' => exact usec_add_eq_iff h.1.near h.2.near
  | minus r r' => exact usec_sub_eq_iff h.1.near h.2.1.near

/-- **A result is normalised unless a whole second stays in its microseconds.** -/
theorem Proper.normalised_iff (h : r.Proper) : r.value.Normalised ↔ ¬r.OneSecond := by
  rw [h.near.normalised_iff h.sec]
  exact not_congr h.usec_iff

/-- Results for the same moment are equal if both have the form of it that they share. -/
theorem Proper.value_eq_iff (h : r.Proper) (h' : r'.Proper) (hexact : r.exact = r'.exact) :
    r.value = r'.value ↔ (r.OneSecond ↔ r'.OneSecond) := by
  rw [← h.micros, ← h'.micros] at hexact
  constructor
  · intro heq
    rw [← h.usec_iff, ← h'.usec_iff, heq]
  · intro hiff
    by_cases hone : r.OneSecond
    · -- both have a whole second in the microseconds
      have husec := h.usec_iff.mpr hone
      have husec' := h'.usec_iff.mpr (hiff.mp hone)
      unfold Timestamp.micros at hexact
      ext <;> omega
    · exact eq_of_micros (h.normalised_iff.mpr hone)
        (h'.normalised_iff.mpr fun hone' => hone (hiff.mpr hone')) hexact

/-- **When `compareTo` is right about two results.** -/
theorem Proper.compareTo_iff (h : r.Proper) (h' : r'.Proper) :
    r.value.compareTo r'.value = (r.value.toMicroSec - r'.value.toMicroSec).sign ↔
      (r.exact = r'.exact → (r.OneSecond ↔ r'.OneSecond)) ∧ SameOrder r.exact r'.exact := by
  rw [compareTo_eq_sign_iff h.near h'.near, h.micros, h'.micros]
  exact and_congr_left fun _ => forall_congr' fun hexact => h.value_eq_iff h' hexact

end Result

/-! ## The four laws -/

theorem toMicroSec_add (a b : Timestamp) :
    (add a b).toMicroSec = (a.toMicroSec + b.toMicroSec) % 2 ^ 64 := by
  have hsum := micros_add a b
  show (add a b).micros % 2 ^ 64 = (a.micros % 2 ^ 64 + b.micros % 2 ^ 64) % 2 ^ 64
  rw [hsum, ← Int.add_emod]

/-- What was taken away and is added again: `a` comes back in the form it had, or with a full second. -/
theorem add_sub_iff (ha : a.Normalised) (hb : b.Normalised) (hle : b ≤ a) :
    (add b (sub a b)).compareTo a = 0 ↔ ¬(a.tvUsec = 0 ∧ 0 < b.tvUsec) := by
  have hsub := normalised_sub ha hb hle
  have hback : (add b (sub a b)).micros = a.micros := by
    rw [micros_add, micros_sub]
    omega
  -- adding again makes one second of microseconds where `a` has none and `b` has some
  have hone : b.tvUsec + (sub a b).tvUsec ≠ 1000000 ↔ ¬(a.tvUsec = 0 ∧ 0 < b.tvUsec) := by
    rw [sub_eq ha.near hb.near]
    rw [normalised_iff] at ha hb
    split <;> dsimp only <;> omega
  rw [compareTo_eq_zero, ← hone]
  constructor
  · intro heq
    exact (normalised_add_iff hb hsub).mp (by rw [heq]; exact ha)
  · intro hne
    exact eq_of_micros ((normalised_add_iff hb hsub).mpr hne) ha hback

/-- Adding the same keeps the order. -/
theorem add_le_add_right (ha : a.Normalised) (hb : b.Normalised) (hc : c.Normalised) (h : a ≤ b) :
    add a c ≤ add b c := by
  rcases eq_or_lt_of_le h with rfl | hlt
  · exact le_refl _
  · have hmicros : a.micros < b.micros :=
      lt_of_le_of_ne (micros_le ha.near hb.near h) fun heq => ne_of_lt hlt (eq_of_micros ha hb heq)
    refine le_of_lt (lt_of_micros_lt (near_add ha.near hc.near) (near_add hb.near hc.near) ?_)
    rw [micros_add, micros_add]
    omega

/--
**The laws of `+`, `-` and `compareTo`**, and where they fail: at sums whose microseconds are exactly
one second, which are not normalised and not the same as the next second.
-/
theorem arithmetic_iff (ha : a.Normalised) (hb : b.Normalised) :
    ((add a b).Normalised ↔ a.tvUsec + b.tvUsec ≠ kMicrosecondsPerSecond) ∧
      (add a b).toMicroSec = (a.toMicroSec + b.toMicroSec) % 2 ^ 64 ∧
      (b ≤ a → (sub a b).Normalised ∧
        ((add b (sub a b)).compareTo a = 0 ↔ ¬(a.tvUsec = 0 ∧ 0 < b.tvUsec))) ∧
      (∀ r r' : Result, r.Proper → r'.Proper →
        (r.value.compareTo r'.value = (r.value.toMicroSec - r'.value.toMicroSec).sign ↔
          (r.exact = r'.exact → (r.OneSecond ↔ r'.OneSecond)) ∧ SameOrder r.exact r'.exact)) ∧
      ∀ c, c.Normalised → a ≤ b → add a c ≤ add b c := by
  refine ⟨normalised_add_iff ha hb, toMicroSec_add a b, fun hle => ?_, ?_, ?_⟩
  · exact ⟨normalised_sub ha hb hle, add_sub_iff ha hb hle⟩
  · exact fun r r' hr hr' => hr.compareTo_iff hr'
  · exact fun c hc h => add_le_add_right ha hb hc h

/-- A carry, and a borrow that is given back. -/
theorem arithmetic_iff_carry :
    (add ⟨2, 600000⟩ ⟨1, 500000⟩).Normalised ∧
      (add ⟨1, 700000⟩ (sub ⟨3, 600000⟩ ⟨1, 700000⟩)).compareTo ⟨3, 600000⟩ = 0 := by
  have h1 : (Timestamp.mk 2 600000).Normalised := by decide
  have h2 : (Timestamp.mk 1 500000).Normalised := by decide
  have h3 : (Timestamp.mk 3 600000).Normalised := by decide
  have h4 : (Timestamp.mk 1 700000).Normalised := by decide
  have hle : Timestamp.mk 1 700000 ≤ ⟨3, 600000⟩ := le_iff_lex.mpr (by decide)
  exact ⟨(arithmetic_iff h1 h2).1.mpr (by decide), ((arithmetic_iff h3 h4).2.2.1 hle).2.mpr (by decide)⟩

/-- Half a second twice; and half a second taken from two seconds, and added again. -/
theorem one_second_in_microseconds :
    add ⟨0, 500000⟩ ⟨0, 500000⟩ = ⟨0, 1000000⟩ ∧
      ¬(add ⟨0, 500000⟩ ⟨0, 500000⟩).Normalised ∧
      (add ⟨0, 500000⟩ (sub ⟨2, 0⟩ ⟨0, 500000⟩)).compareTo ⟨2, 0⟩ = -1 ∧
      (add ⟨0, 500000⟩ ⟨0, 500000⟩).compareTo (add ⟨1, 0⟩ ⟨0, 0⟩) = -1 ∧
      (add ⟨0, 500000⟩ ⟨0, 500000⟩).toMicroSec = (add ⟨1, 0⟩ ⟨0, 0⟩).toMicroSec := by
  rw [normalised_iff]
  decide

end Liby.Timestamp
