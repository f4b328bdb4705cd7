import Liby.Infra.MachineInt
import Liby.Timer.TimestampArithmetic
import Mathlib.Tactic.MkIffOfInductiveProp

/-!
# The timeout of `poll`

`PollerPoll::loop_once` takes the current time from a deadline and gives the milliseconds to `poll`, as
an `int`. The fields of a `Timestamp` are of 64 bits and may be anything: `Timestamp(struct timeval)`
takes them as they are.
-/

namespace Liby

open Infra

namespace Timestamp

/-! ## The operators in 64 bits -/

/-- The fields of a `struct timeval`. -/
@[mk_iff]
structure IsTimeval (t : Timestamp) : Prop where
  sec : InLong t.tvSec
  usec : InLong t.tvUsec

/-- What `gettimeofday` gives. -/
@[mk_iff]
structure IsClock (t : Timestamp) : Prop where
  sec : InLong t.tvSec
  usec : 0 ≤ t.tvUsec
  usec_lt : t.tvUsec < kMicrosecondsPerSecond

instance : DecidablePred IsTimeval := fun t => decidable_of_iff _ (isTimeval_iff t).symm

instance : DecidablePred IsClock := fun t => decidable_of_iff _ (isClock_iff t).symm

namespace Long

/-- `Timestamp(time_t sec, suseconds_t usec)`. -/
def ofSecUsec (sec usec : Int) : Exec Timestamp :=
  if kMicrosecondsPerSecond < usec % 2 ^ 32 then do
    let tvSec ← long (sec + usec.tdiv kMicrosecondsPerSecond)
    return { tvSec := tvSec, tvUsec := usec.tmod kMicrosecondsPerSecond }
  else return { tvSec := sec, tvUsec := usec }

/-- `operator-`. -/
def sub (lhs rhs : Timestamp) : Exec Timestamp := do
  let sec ← long (lhs.tvSec - rhs.tvSec)
  if lhs.tvUsec < rhs.tvUsec then
    let sec ← long (sec - 1)
    let lusec ← long (lhs.tvUsec + kMicrosecondsPerSecond)
    let lusec ← long (lusec - rhs.tvUsec)
    ofSecUsec sec lusec
  else
    let lusec ← long (lhs.tvUsec - rhs.tvUsec)
    ofSecUsec sec lusec

/-- `toMillSec`: the arithmetic is signed, and the result a `uint64_t`. -/
def toMillSec (t : Timestamp) : Exec Int := do
  let ms ← long (t.tvSec * 1000)
  let ms ← long (ms + t.tvUsec.tdiv 1000)
  return ms % 2 ^ 64

end Long

/-! ## `interMs` -/

/-- The timeout in `PollerPoll::loop_once(ts)`, when `Timestamp::now()` gives `now`. -/
def interMs (ts : Option Timestamp) (now : Timestamp) : Exec Int :=
  match ts with
  | none => return -1
  | some ts =>
    if lt ts now then return 0
    else do
      let inter ← Long.sub ts now
      let ms ← Long.toMillSec inter
      return toInt ms

/-- The microseconds from `now` to the deadline. -/
def left (ts now : Timestamp) : Int := ts.micros - now.micros

/-- A timeout with which `poll` returns in time: it is 0 if the deadline is not ahead. -/
@[mk_iff]
structure Timely (ts now : Timestamp) (ms : Int) : Prop where
  past : ts ≤ now → ms = 0
  nonneg : 0 ≤ ms
  le : now < ts → ms ≤ (left ts now + 999) / 1000

instance (ts now : Timestamp) (ms : Int) : Decidable (Timely ts now ms) :=
  decidable_of_iff _ (timely_iff ts now ms).symm

/-- `loop_once` gives `poll` a timeout with which it returns in time. -/
def Converts (ts now : Timestamp) : Prop := ∃ ms, interMs (some ts) now = .ok ms ∧ Timely ts now ms

/-! ## What is in the way -/

/-- The seconds that microseconds carry: the constructor looks at 32 bits of them. -/
def carried (usec : Int) : Int :=
  if kMicrosecondsPerSecond < usec % 2 ^ 32 then usec.tdiv kMicrosecondsPerSecond else 0

/-- The whole seconds from `now` to the deadline. -/
def secondsLeft (ts now : Timestamp) : Int :=
  if ts.tvUsec < now.tvUsec then
    ts.tvSec - now.tvSec - 1 + carried (ts.tvUsec + 1000000 - now.tvUsec)
  else ts.tvSec - now.tvSec + carried (ts.tvUsec - now.tvUsec)

/-- The whole milliseconds from `now` to the deadline, which are rounded up if its microseconds are negative. -/
def millisLeft (ts now : Timestamp) : Int :=
  if ts.tvUsec + 1000000 < now.tvUsec then (left ts now + 999) / 1000 else left ts now / 1000

/-- The lower 32 bits of the milliseconds have no sign, and nothing leaves 64 bits. -/
@[mk_iff]
structure Fits (ts now : Timestamp) : Prop where
  nonneg : 0 ≤ millisLeft ts now
  low : millisLeft ts now % 2 ^ 32 < 2 ^ 31
  millis : millisLeft ts now < 2 ^ 63
  seconds : secondsLeft ts now * 1000 < 2 ^ 63

instance (ts now : Timestamp) : Decidable (Fits ts now) := decidable_of_iff _ (fits_iff ts now).symm

variable {ts now t a b : Timestamp} {sec usec ms : Int}

/-! ## The operators are exact where they return -/

theorem Long.ofSecUsec_eq (h : Long.ofSecUsec sec usec = .ok t) : t = Timestamp.ofSecUsec sec usec := by
  unfold Long.ofSecUsec at h
  unfold Timestamp.ofSecUsec
  split at h
  · next hcarry =>
    obtain ⟨-, h⟩ := long_bind_eq_ok.mp h
    cases h
    rw [if_pos hcarry]
  · next hcarry =>
    cases h
    rw [if_neg hcarry]

theorem Long.sub_eq (h : Long.sub a b = .ok t) : t = Timestamp.sub a b := by
  obtain ⟨-, h⟩ := long_bind_eq_ok.mp h
  unfold Timestamp.sub
  dsimp only
  split at h
  · next hborrow =>
    rw [if_pos hborrow]
    obtain ⟨-, h⟩ := long_bind_eq_ok.mp h
    obtain ⟨-, h⟩ := long_bind_eq_ok.mp h
    obtain ⟨-, h⟩ := long_bind_eq_ok.mp h
    exact Long.ofSecUsec_eq h
  · next hborrow =>
    rw [if_neg hborrow]
    obtain ⟨-, h⟩ := long_bind_eq_ok.mp h
    exact Long.ofSecUsec_eq h

theorem Long.toMillSec_eq_ok : Long.toMillSec t = .ok ms ↔
    InLong (t.tvSec * 1000) ∧ InLong (t.tvSec * 1000 + t.tvUsec.tdiv 1000) ∧
      ms = (t.tvSec * 1000 + t.tvUsec.tdiv 1000) % 2 ^ 64 := by
  unfold Long.toMillSec
  rw [long_bind_eq_ok, long_bind_eq_ok]
  constructor
  · rintro ⟨hsec, hms, h⟩
    cases h
    exact ⟨hsec, hms, rfl⟩
  · rintro ⟨hsec, hms, rfl⟩
    exact ⟨hsec, hms, rfl⟩

/-! ## The difference, in seconds and in milliseconds -/

theorem ofSecUsec_sec (sec usec : Int) : (ofSecUsec sec usec).tvSec = sec + carried usec := by
  unfold ofSecUsec carried
  split
  · rfl
  · exact (add_zero sec).symm

theorem sub_sec (ts now : Timestamp) : (sub ts now).tvSec = secondsLeft ts now := by
  unfold sub secondsLeft
  dsimp only
  split
  · rw [ofSecUsec_sec]
    rfl
  · exact ofSecUsec_sec _ _

theorem ofSecUsec_usec_nonneg (h : 0 ≤ usec) : 0 ≤ (ofSecUsec sec usec).tvUsec := by
  unfold ofSecUsec
  split
  · exact Int.tmod_nonneg _ h
  · exact h

theorem ofSecUsec_usec_nonpos (h : usec ≤ 0) : (ofSecUsec sec usec).tvUsec ≤ 0 := by
  unfold ofSecUsec
  split
  · have hneg := Int.tmod_nonneg kMicrosecondsPerSecond (Int.neg_nonneg_of_nonpos h)
    rw [Int.neg_tmod] at hneg
    dsimp only
    omega
  · exact h

theorem millis_of_nonneg (h : 0 ≤ t.tvUsec) :
    t.tvSec * 1000 + t.tvUsec.tdiv 1000 = t.micros / 1000 := by
  rw [Int.tdiv_eq_ediv_of_nonneg h]
  unfold micros
  omega

theorem millis_of_nonpos (h : t.tvUsec ≤ 0) :
    t.tvSec * 1000 + t.tvUsec.tdiv 1000 = (t.micros + 999) / 1000 := by
  rw [tdiv_of_nonpos h]
  unfold micros
  omega

/-- The milliseconds of the difference. -/
theorem sub_millis (ts now : Timestamp) :
    (sub ts now).tvSec * 1000 + (sub ts now).tvUsec.tdiv 1000 = millisLeft ts now := by
  have hmicros : (sub ts now).micros = left ts now := micros_sub ts now
  have hsecond := kMicrosecondsPerSecond_eq
  unfold millisLeft
  rw [← hmicros]
  split
  · next hneg =>
    refine millis_of_nonpos ?_
    unfold sub
    dsimp only
    rw [if_pos (by omega)]
    exact ofSecUsec_usec_nonpos (by omega)
  · next hneg =>
    refine millis_of_nonneg ?_
    unfold sub
    dsimp only
    split <;> exact ofSecUsec_usec_nonneg (by omega)

/-- The milliseconds are those of the microseconds, rounded up at most. -/
theorem millisLeft_le (ts now : Timestamp) :
    left ts now / 1000 ≤ millisLeft ts now ∧ millisLeft ts now ≤ (left ts now + 999) / 1000 := by
  unfold millisLeft
  split <;> omega

/-! ## Where nothing overflows -/

theorem carried_bounds (h : InLong usec) : -9223372036855 ≤ carried usec ∧ carried usec ≤ 9223372036854 := by
  unfold InLong at h
  unfold carried
  rw [kMicrosecondsPerSecond_eq]
  split
  · rcases le_total 0 usec with hpos | hneg
    · rw [Int.tdiv_eq_ediv_of_nonneg hpos]
      omega
    · rw [tdiv_of_nonpos hneg]
      omega
  · omega

theorem Long.ofSecUsec_ok (h : InLong (sec + carried usec)) :
    Long.ofSecUsec sec usec = .ok (Timestamp.ofSecUsec sec usec) := by
  unfold Long.ofSecUsec Timestamp.ofSecUsec
  unfold carried at h
  split
  · next hcarry =>
    rw [if_pos hcarry] at h
    rw [long_ok h]
    rfl
  · rfl

/-- What is carried is little beside the seconds. -/
theorem secondsLeft_bounds (hts : ts.IsTimeval) (hnow : now.IsClock) :
    ts.tvSec - now.tvSec - 9223372036856 ≤ secondsLeft ts now ∧
      secondsLeft ts now ≤ ts.tvSec - now.tvSec + 9223372036854 := by
  obtain ⟨-, husec⟩ := hts
  obtain ⟨-, hpos, hlt⟩ := hnow
  rw [kMicrosecondsPerSecond_eq] at hlt
  unfold InLong at husec
  unfold secondsLeft
  split
  · have hlusec : InLong (ts.tvUsec + 1000000 - now.tvUsec) := by unfold InLong; omega
    have hcarried := carried_bounds hlusec
    omega
  · have hlusec : InLong (ts.tvUsec - now.tvUsec) := by unfold InLong; omega
    have hcarried := carried_bounds hlusec
    omega

/-- A difference is defined if its seconds have a thousandfold. -/
theorem Long.sub_ok (hts : ts.IsTimeval) (hnow : now.IsClock) (hle : now ≤ ts)
    (hseconds : secondsLeft ts now * 1000 < 2 ^ 63) : Long.sub ts now = .ok (Timestamp.sub ts now) := by
  have hbounds := secondsLeft_bounds hts hnow
  obtain ⟨-, husec⟩ := hts
  obtain ⟨-, hpos, hlt⟩ := hnow
  rw [kMicrosecondsPerSecond_eq] at hlt
  rw [le_iff_lex] at hle
  have hdiff : InLong (ts.tvSec - now.tvSec) := by unfold InLong; omega
  have hsum : InLong (secondsLeft ts now) := by unfold InLong; omega
  unfold InLong at husec
  unfold secondsLeft at hsum
  unfold Long.sub Timestamp.sub
  rw [kMicrosecondsPerSecond_eq, long_ok hdiff, ok_bind]
  dsimp only
  split at hsum
  · next hborrow =>
    have hless : InLong (ts.tvSec - now.tvSec - 1) := by unfold InLong; omega
    have hmore : InLong (ts.tvUsec + 1000000) := by unfold InLong; omega
    have hlusec : InLong (ts.tvUsec + 1000000 - now.tvUsec) := by unfold InLong; omega
    rw [if_pos hborrow, if_pos hborrow, long_ok hless, ok_bind, long_ok hmore, ok_bind, long_ok hlusec,
      ok_bind]
    exact Long.ofSecUsec_ok hsum
  · next hborrow =>
    have hlusec : InLong (ts.tvUsec - now.tvUsec) := by unfold InLong; omega
    rw [if_neg hborrow, if_neg hborrow, long_ok hlusec, ok_bind]
    exact Long.ofSecUsec_ok hsum

/-! ## The timeout -/

/-- What is passed to `poll` where nothing overflows: the lower 32 bits of the milliseconds. -/
theorem interMs_eq_ok (h : now ≤ ts) (hok : interMs (some ts) now = .ok ms) :
    InLong (secondsLeft ts now * 1000) ∧ InLong (millisLeft ts now) ∧ ms = toInt (millisLeft ts now) := by
  unfold interMs at hok
  dsimp only at hok
  rw [lt_eq_false_iff.mpr h, if_neg Bool.false_ne_true] at hok
  obtain ⟨inter, hinter, hok⟩ := bind_eq_ok.mp hok
  obtain ⟨left, hleft, hok⟩ := bind_eq_ok.mp hok
  obtain ⟨hsec, hmillis, rfl⟩ := Long.toMillSec_eq_ok.mp hleft
  rw [Long.sub_eq hinter, sub_sec] at hsec
  rw [Long.sub_eq hinter, sub_millis] at hmillis hok
  rw [toInt_emod] at hok
  cases hok
  exact ⟨hsec, hmillis, rfl⟩

theorem interMs_ok (hts : ts.IsTimeval) (hnow : now.IsClock) (h : now ≤ ts)
    (hsec : InLong (secondsLeft ts now * 1000)) (hmillis : InLong (millisLeft ts now)) :
    interMs (some ts) now = .ok (toInt (millisLeft ts now)) := by
  unfold interMs
  dsimp only
  rw [lt_eq_false_iff.mpr h, if_neg Bool.false_ne_true, Long.sub_ok hts hnow h hsec.2, ok_bind]
  rw [← sub_sec] at hsec
  rw [← sub_millis] at hmillis ⊢
  rw [Long.toMillSec_eq_ok.mpr ⟨hsec, hmillis, rfl⟩, ok_bind, toInt_emod]
  rfl

/-- A deadline that is not ahead. -/
theorem interMs_past (hts : ts.IsTimeval) (hnow : now.IsClock) (h : ts ≤ now) :
    interMs (some ts) now = .ok 0 := by
  rcases lt_or_eq_of_le h with hlt | rfl
  · unfold interMs
    dsimp only
    rw [lt_iff.mpr hlt, if_pos rfl]
    rfl
  · have hleft : left ts ts = 0 := sub_self _
    have hmillis : millisLeft ts ts = 0 := by
      unfold millisLeft
      rw [hleft]
      split <;> rfl
    have hseconds : secondsLeft ts ts = 0 := by
      unfold secondsLeft
      rw [if_neg (lt_irrefl _), sub_self, sub_self]
      rfl
    rw [interMs_ok hts hnow le_rfl (by rw [hseconds]; decide) (by rw [hmillis]; decide), hmillis]
    rfl

/--
**`poll` gets a timeout with which it returns in time** exactly if the deadline is not ahead, or its
milliseconds fit.
-/
theorem converts_iff (hts : ts.IsTimeval) (hnow : now.IsClock) :
    Converts ts now ↔ ts ≤ now ∨ Fits ts now := by
  constructor
  · rintro ⟨ms, hms, htimely⟩
    by_cases hpast : ts ≤ now
    · exact .inl hpast
    · have hahead := not_le.mp hpast
      obtain ⟨hsec, hmillis, rfl⟩ := interMs_eq_ok hahead.le hms
      have hlow := toInt_nonneg_iff.mp htimely.nonneg
      have hle := htimely.le hahead
      have hround := millisLeft_le ts now
      rw [toInt_eq_emod hlow] at hle
      -- below zero the lower bits would be too large
      exact .inr ⟨by omega, hlow, hmillis.2, hsec.2⟩
  · intro h
    by_cases hpast : ts ≤ now
    · exact ⟨0, interMs_past hts hnow hpast, fun _ => rfl, le_rfl, fun h => absurd hpast (not_le_of_gt h)⟩
    · have hahead := not_le.mp hpast
      obtain ⟨hnonneg, hlow, hmillis, hseconds⟩ := h.resolve_left hpast
      have hbounds := secondsLeft_bounds hts hnow
      have hround := millisLeft_le ts now
      have hsec : now.tvSec ≤ ts.tvSec := by rcases lt_iff_lex.mp hahead with h | ⟨h, -⟩ <;> omega
      refine ⟨_, interMs_ok hts hnow hahead.le ⟨by omega, hseconds⟩ ⟨by omega, hmillis⟩,
        fun h => absurd h hpast, toInt_nonneg_iff.mpr hlow, fun _ => ?_⟩
      rw [toInt_eq_emod hlow]
      omega

/-- An hour ahead, and 50 days: the milliseconds of these have gone round once. -/
theorem converts_iff_hour :
    Converts ⟨4600, 250⟩ ⟨1000, 500000⟩ ∧ Converts ⟨4321000, 0⟩ ⟨1000, 0⟩ :=
  ⟨(converts_iff (by decide) (by decide)).mpr (.inr (by decide)),
    (converts_iff (by decide) (by decide)).mpr (.inr (by decide))⟩

/-- With a deadline 25 days ahead the timeout is negative. -/
theorem far_deadline :
    interMs (some ⟨2161000, 0⟩) ⟨1000, 0⟩ = .ok (-2134967296) ∧ ¬Converts ⟨2161000, 0⟩ ⟨1000, 0⟩ := by
  have hms : interMs (some ⟨2161000, 0⟩) ⟨1000, 0⟩ = .ok (-2134967296) := by decide
  refine ⟨hms, ?_⟩
  rintro ⟨ms, hok, htimely⟩
  have hnonneg := htimely.nonneg
  cases hms.symm.trans hok
  omega

/-! ## Deadlines with microseconds of a second -/

theorem carried_of_near (h0 : 0 ≤ usec) (h : usec ≤ 1000000) : carried usec = 0 := by
  unfold carried
  rw [kMicrosecondsPerSecond_eq, Int.emod_eq_of_lt h0 (by omega)]
  exact if_neg (by omega)

/-- **Up to whole turns of 2^32 milliseconds, a deadline may be 2^31 milliseconds ahead.** -/
theorem fits_iff_of_near (hts : ts.Near) (hnow : now.Near) (h : now < ts) :
    Fits ts now ↔ left ts now / 1000 < 2 ^ 63 ∧ left ts now / 1000 % 2 ^ 32 < 2 ^ 31 := by
  have hmicros : now.micros ≤ ts.micros := micros_le hnow hts h.le
  rw [near_iff] at hts hnow
  have hleft : left ts now = ts.micros - now.micros := rfl
  have hmillis : millisLeft ts now = left ts now / 1000 := if_neg (by omega)
  have hseconds : secondsLeft ts now * 1000 ≤ left ts now / 1000 := by
    unfold micros at hleft
    unfold secondsLeft
    split <;> rw [carried_of_near (by omega) (by omega)] <;> omega
  constructor
  · rintro ⟨-, hlow, hlt, -⟩
    rw [hmillis] at hlow hlt
    exact ⟨hlt, hlow⟩
  · rintro ⟨hlt, hlow⟩
    rw [← hmillis] at hlt hlow hseconds
    exact ⟨by omega, hlow, hlt, by omega⟩

/-! ## How long `poll` waits -/

/-- The microseconds after which `poll` returns without an event: a negative timeout is no limit. -/
def waits (timeout : Int) : Option Int := if timeout < 0 then none else some (timeout * 1000)

/-- With a timely timeout `poll` returns before the millisecond after the deadline has passed. -/
theorem Timely.waits_lt (h : Timely ts now ms) :
    ∃ wait, waits ms = some wait ∧ now.micros + wait < max ts.micros now.micros + 1000 := by
  refine ⟨ms * 1000, if_neg (not_lt.mpr h.nonneg), ?_⟩
  by_cases hpast : ts ≤ now
  · rw [h.past hpast]
    omega
  · have hle := h.le (not_le.mp hpast)
    unfold left at hle
    omega

/-! ## The timeout of `select` -/

/-- The timeout in `PollerSelect::loop_once(ts)`, when `Timestamp::now()` gives `now`. -/
def timeout (ts : Option Timestamp) (now : Timestamp) : Exec (Option Timestamp) :=
  match ts with
  | none => return none
  | some ts =>
    if lt ts now then return some { tvSec := 0, tvUsec := 0 }
    else do
      let inter ← Long.sub ts now
      return some inter

/-- `select` gets the time that is left, however far the deadline is. -/
theorem timeout_eq (h : now ≤ ts) (hok : timeout (some ts) now = .ok (some t)) : t.micros = left ts now := by
  unfold timeout at hok
  dsimp only at hok
  rw [lt_eq_false_iff.mpr h, if_neg Bool.false_ne_true] at hok
  obtain ⟨inter, hinter, hok⟩ := bind_eq_ok.mp hok
  cases hok
  rw [Long.sub_eq hinter]
  exact micros_sub ts now

end Timestamp

end Liby
