import Liby.Infra.Machine
import Liby.Infra.Printf
import Liby.Timer.Timestamp

/-!
# `Timestamp::toString`

`util.cpp`. Each thread saves the second that it has printed last, and its text, in two variables that
start as 0 and the empty string. The text is printed again when the second is another one. So it is that of the
time, with one exception: a thread that begins with second 0 finds the empty string for it.
-/

namespace Liby

open Infra Printf

/-- `struct tm`, as `localtime_r` leaves it. -/
structure Tm where
  tmYear : Int
  tmMon : Fin 12
  tmMday : Fin 32
  tmHour : Fin 24
  tmMin : Fin 60
  tmSec : Fin 61
  /-- The year is an `int`. -/
  year : -2 ^ 31 ≤ tmYear + 1900 ∧ tmYear + 1900 < 2 ^ 31

/-- `savedSec` and `savedSecString`, and the texts that the thread has got so far. -/
structure TimeThread where
  savedSec : Int
  savedSecString : Bytes
  texts : List Bytes
  deriving DecidableEq, Repr

/-- A call of `toString`, with what is in `usecString` before it is printed to. -/
structure TimeCall where
  time : Timestamp
  usecString : Vector UInt8 48
  deriving DecidableEq, Repr

namespace TimeThread

/-- A thread that has printed no time yet. -/
def start : TimeThread where
  savedSec := 0
  savedSecString := List.replicate 128 0
  texts := []

/-- What is printed of the microseconds. -/
def usecText (usec : Int) : Bytes := str " " ++ zeroed 6 usec

/-- What is printed of the seconds, in the time zone `localtime`. -/
def secText (localtime : Int → Tm) (sec : Int) : Bytes :=
  let result := localtime sec
  spaced 4 (result.tmYear + 1900) ++ str "." ++ zeroed 2 (result.tmMon.val + 1) ++ str "." ++
    zeroed 2 result.tmMday.val ++ str " - " ++ zeroed 2 result.tmHour.val ++ str ":" ++
    zeroed 2 result.tmMin.val ++ str ":" ++ zeroed 2 result.tmSec.val ++ str " -"

/-- The text of a time, printed afresh. -/
def text (localtime : Int → Tm) (time : Timestamp) : Bytes :=
  secText localtime time.tvSec ++ usecText time.tvUsec

/-- `toString`. -/
def toString (localtime : Int → Tm) (s : TimeThread) (c : TimeCall) : Exec TimeThread := do
  let usecString ← sprintf c.usecString.toList (usecText c.time.tvUsec)
  let s ←
    if c.time.tvSec ≠ s.savedSec then do
      let savedSecString ← sprintf s.savedSecString (secText localtime c.time.tvSec)
      pure { s with savedSec := c.time.tvSec, savedSecString := savedSecString }
    else pure s
  let sec ← string s.savedSecString
  let usec ← string usecString
  return { s with texts := s.texts ++ [sec ++ usec] }

/-- A number that is a `suseconds_t`. -/
def Fits (usec : Int) : Prop := -2 ^ 63 ≤ usec ∧ usec < 2 ^ 63

instance (usec : Int) : Decidable (Fits usec) := inferInstanceAs (Decidable (_ ∧ _))

variable {localtime : Int → Tm} {s : TimeThread} {c : TimeCall} {usec : Int} {saved : Bytes}

/-! ## The texts fit -/

theorem nul_usecText (usec : Int) : 0 ∉ usecText usec := by
  unfold usecText
  rw [List.mem_append, not_or]
  exact ⟨by decide, nul_zeroed 6 usec⟩

theorem usecText_holds (h : Fits usec) (array : Vector UInt8 48) :
    ∃ array', sprintf array.toList (usecText usec) = .ok array' ∧ Holds array' (usecText usec) := by
  have hlength : (zeroed 6 usec).length ≤ max 6 (19 + 1) :=
    length_zeroed (k := 19) (by unfold Fits at h; omega) (by decide)
  obtain ⟨array', hprint, -, hholds⟩ := sprintf_holds array.toList (nul_usecText usec) (by
    unfold usecText
    rw [List.length_append, Vector.length_toList]
    have hblank : (str " ").length = 1 := rfl
    omega)
  exact ⟨array', hprint, hholds⟩

/-- A field of `struct tm` but the year has two digits. -/
theorem length_field {n : Nat} (h : n < 100) : (zeroed 2 (n : Int)).length ≤ 3 :=
  length_zeroed (k := 2) (by rw [Int.natAbs_natCast]; exact h) (by decide)

theorem length_secText (localtime : Int → Tm) (sec : Int) : (secText localtime sec).length < 128 := by
  unfold secText
  dsimp only
  generalize localtime sec = result
  have hyear : (spaced 4 (result.tmYear + 1900)).length ≤ max 4 (10 + 1) := by
    have hyear := result.year
    exact length_spaced (k := 10) (by omega) (by decide)
  have hmon := length_field (n := result.tmMon.val + 1) (by omega)
  have hmday := length_field (n := result.tmMday.val) (by omega)
  have hhour := length_field (n := result.tmHour.val) (by omega)
  have hmin := length_field (n := result.tmMin.val) (by omega)
  have hsec := length_field (n := result.tmSec.val) (by omega)
  rw [Nat.cast_add, Nat.cast_one] at hmon
  have hpoint : (str ".").length = 1 ∧ (str " - ").length = 3 ∧ (str ":").length = 1 ∧ (str " -").length = 2 :=
    by decide
  simp only [List.length_append]
  omega

theorem nul_secText (localtime : Int → Tm) (sec : Int) : 0 ∉ secText localtime sec := by
  unfold secText
  simp only [List.mem_append, not_or, nul_zeroed, nul_spaced, not_false_eq_true, true_and, and_true]
  decide

theorem secText_ne (localtime : Int → Tm) (sec : Int) : secText localtime sec ≠ [] := by
  unfold secText
  exact List.append_ne_nil_of_right_ne_nil _ (by decide)

/-- A text is a C string that is not empty. -/
theorem text_ne (localtime : Int → Tm) (time : Timestamp) : text localtime time ≠ [] ∧ 0 ∉ text localtime time := by
  unfold text
  rw [List.mem_append, not_or]
  exact ⟨List.append_ne_nil_of_left_ne_nil (secText_ne localtime time.tvSec) _,
    nul_secText localtime time.tvSec, nul_usecText time.tvUsec⟩

/-! ## Calls -/

/-- The array of a thread has `saved` in it. -/
structure Saves (s : TimeThread) (saved : Bytes) : Prop where
  length : s.savedSecString.length = 128
  holds : Holds s.savedSecString saved

theorem saves_start : Saves start [] where
  length := by
    unfold start
    rw [List.length_replicate]
  holds := ⟨List.not_mem_nil, List.replicate 127 0, rfl⟩

/-- **A call prints into its arrays**, and gets the text of its second, or the one that is saved for it. -/
theorem toString_ok (localtime : Int → Tm) (h : Saves s saved) (hfits : Fits c.time.tvUsec) :
    ∃ s', toString localtime s c = .ok s' ∧ s'.savedSec = c.time.tvSec ∧
      if c.time.tvSec ≠ s.savedSec then
        Saves s' (secText localtime c.time.tvSec) ∧ s'.texts = s.texts ++ [text localtime c.time]
      else Saves s' saved ∧ s'.texts = s.texts ++ [saved ++ usecText c.time.tvUsec] := by
  obtain ⟨usecString, husec, hholds⟩ := usecText_holds hfits c.usecString
  unfold toString
  rw [husec, ok_bind]
  by_cases hsec : c.time.tvSec ≠ s.savedSec
  · obtain ⟨savedSecString, hprint, hlength, hsaved⟩ :=
      sprintf_holds s.savedSecString (nul_secText localtime c.time.tvSec)
        ((length_secText localtime c.time.tvSec).trans_eq h.length.symm)
    rw [if_pos hsec, hprint, ok_bind, pure_eq_ok, ok_bind]
    dsimp only
    rw [hsaved.string_eq, ok_bind, hholds.string_eq, ok_bind]
    refine ⟨_, rfl, rfl, ?_⟩
    rw [if_pos hsec]
    exact ⟨⟨hlength.trans h.length, hsaved⟩, rfl⟩
  · rw [if_neg hsec, pure_eq_ok, ok_bind]
    dsimp only
    rw [h.holds.string_eq, ok_bind, hholds.string_eq, ok_bind]
    refine ⟨_, rfl, (not_not.mp hsec).symm, ?_⟩
    rw [if_neg hsec]
    exact ⟨⟨h.length, h.holds⟩, rfl⟩

/-- A thread that has the text of the second that it has saved. -/
def Right (localtime : Int → Tm) (s : TimeThread) : Prop := Saves s (secText localtime s.savedSec)

theorem Right.toString_ok (h : Right localtime s) (hfits : Fits c.time.tvUsec) :
    ∃ s', toString localtime s c = .ok s' ∧ Right localtime s' ∧
      s'.texts = s.texts ++ [text localtime c.time] := by
  obtain ⟨s', hs', hsec, hcase⟩ := TimeThread.toString_ok localtime h hfits
  refine ⟨s', hs', ?_⟩
  unfold Right
  rw [hsec]
  split at hcase
  · exact hcase
  · next hsame =>
    rw [not_not.mp hsame]
    unfold text
    rw [not_not.mp hsame]
    exact hcase

/-- From then on all texts are right. -/
theorem Right.run_ok : ∀ {calls : List TimeCall} {s : TimeThread}, Right localtime s →
    (∀ c ∈ calls, Fits c.time.tvUsec) → ∃ s', run (toString localtime) s calls = .ok s' ∧
      s'.texts = s.texts ++ calls.map fun c => text localtime c.time
  | [], s, _, _ => ⟨s, rfl, (List.append_nil _).symm⟩
  | c :: calls, s, h, hfits => by
    obtain ⟨s1, hs1, hright, htexts1⟩ := h.toString_ok (hfits c List.mem_cons_self)
    obtain ⟨s2, hs2, htexts2⟩ := hright.run_ok fun c' hc' => hfits c' (List.mem_cons_of_mem c hc')
    refine ⟨s2, ?_, ?_⟩
    · rw [run_cons, hs1, ok_bind, hs2]
    · rw [htexts2, htexts1, List.append_assoc, List.map_cons, List.singleton_append]

/-- Whatever is saved, a thread can go on. -/
theorem Saves.run_ok (localtime : Int → Tm) : ∀ {calls : List TimeCall} {s : TimeThread} {saved : Bytes}, Saves s saved →
    (∀ c ∈ calls, Fits c.time.tvUsec) → ∃ s' texts, run (toString localtime) s calls = .ok s' ∧
      s'.texts = s.texts ++ texts ∧ ∃ saved', Saves s' saved'
  | [], s, saved, h, _ => ⟨s, [], rfl, (List.append_nil _).symm, saved, h⟩
  | c :: calls, s, saved, h, hfits => by
    obtain ⟨s1, hs1, -, hcase⟩ := TimeThread.toString_ok localtime h (hfits c List.mem_cons_self)
    obtain ⟨text1, saved1, hsaves1, htexts1⟩ :
        ∃ text1 saved1, Saves s1 saved1 ∧ s1.texts = s.texts ++ [text1] := by
      split at hcase
      · exact ⟨_, _, hcase⟩
      · exact ⟨_, _, hcase⟩
    obtain ⟨s2, texts, hs2, htexts2, hsaves2⟩ :=
      hsaves1.run_ok localtime fun c' hc' => hfits c' (List.mem_cons_of_mem c hc')
    refine ⟨s2, text1 :: texts, ?_, ?_, hsaves2⟩
    · rw [run_cons, hs1, ok_bind, hs2]
    · rw [htexts2, htexts1, List.append_assoc, List.singleton_append]

/-- All texts are right if the first time is not in second 0. -/
theorem run_start (localtime : Int → Tm) {calls : List TimeCall} (hfits : ∀ c ∈ calls, Fits c.time.tvUsec)
    (hfirst : ∀ c ∈ calls.head?, c.time.tvSec ≠ 0) :
    ∃ s, run (toString localtime) start calls = .ok s ∧ s.texts = calls.map fun c => text localtime c.time := by
  cases calls with
  | nil => exact ⟨start, rfl, rfl⟩
  | cons c calls =>
    obtain ⟨s1, hs1, hsec, hcase⟩ :=
      TimeThread.toString_ok localtime saves_start (hfits c List.mem_cons_self)
    have hne : c.time.tvSec ≠ start.savedSec := hfirst c rfl
    rw [if_pos hne] at hcase
    obtain ⟨hsaves, htexts⟩ := hcase
    have hright : Right localtime s1 := by
      unfold Right
      rw [hsec]
      exact hsaves
    obtain ⟨s2, hs2, htexts2⟩ := hright.run_ok fun c' hc' => hfits c' (List.mem_cons_of_mem c hc')
    refine ⟨s2, by rw [run_cons, hs1, ok_bind, hs2], ?_⟩
    rw [htexts2, htexts]
    rfl

/--
**The saved text stands in for the one that would be printed, exactly if the thread does not begin with
second 0.** In every sequence of calls of a thread each text is that of its time, printed afresh, if and only if
the first of the times is not in second 0. In no case is anything printed beyond the end of an array.
-/
theorem toString_saves_iff (localtime : Int → Tm) (calls : List TimeCall)
    (hfits : ∀ c ∈ calls, Fits c.time.tvUsec) :
    ∃ s, run (toString localtime) start calls = .ok s ∧
      (s.texts = calls.map (fun c => text localtime c.time) ↔ ∀ c ∈ calls.head?, c.time.tvSec ≠ 0) := by
  by_cases hfirst : ∀ c ∈ calls.head?, c.time.tvSec ≠ 0
  · obtain ⟨s, hs, htexts⟩ := run_start localtime hfits hfirst
    exact ⟨s, hs, iff_of_true htexts hfirst⟩
  · cases calls with
    | nil => exact absurd nofun hfirst
    | cons c calls =>
      have hsame : ¬c.time.tvSec ≠ start.savedSec := fun hne => hfirst fun c' hc' => by cases hc'; exact hne
      obtain ⟨s1, hs1, -, hcase⟩ :=
        TimeThread.toString_ok localtime saves_start (hfits c List.mem_cons_self)
      rw [if_neg hsame] at hcase
      obtain ⟨hsaves, htexts⟩ := hcase
      obtain ⟨s2, texts, hs2, htexts2, -⟩ :=
        hsaves.run_ok localtime fun c' hc' => hfits c' (List.mem_cons_of_mem c hc')
      refine ⟨s2, by rw [run_cons, hs1, ok_bind, hs2], iff_of_false (fun hall => ?_) hfirst⟩
      rw [htexts2, htexts] at hall
      -- the first text has no second in it
      have hnone : usecText c.time.tvUsec = text localtime c.time := (List.cons.inj hall).1
      exact secText_ne localtime c.time.tvSec (List.self_eq_append_left.mp hnone)

/-- `localtime_r` in the first minute of 1970, in a zone without an offset. -/
def firstMinute (sec : Int) : Tm where
  tmYear := 70
  tmMon := 0
  tmMday := 1
  tmHour := 0
  tmMin := 0
  tmSec := ⟨sec.toNat % 60, by omega⟩
  year := by decide

theorem toString_saves_first :
    let calls : List TimeCall := [⟨⟨5, 42⟩, .replicate 48 1⟩, ⟨⟨5, 1000⟩, .replicate 48 1⟩, ⟨⟨0, 7⟩, .replicate 48 1⟩]
    ∃ s, run (toString firstMinute) start calls = .ok s ∧
      s.texts = calls.map (fun c => text firstMinute c.time) ∧
      s.texts = [str "1970.01.01 - 00:00:05 - 000042", str "1970.01.01 - 00:00:05 - 001000",
        str "1970.01.01 - 00:00:00 - 000007"] := by
  intro calls
  obtain ⟨s, hs, hiff⟩ := toString_saves_iff firstMinute calls (by decide)
  have htexts := hiff.mpr (by decide)
  exact ⟨s, hs, htexts, htexts.trans (by decide +kernel)⟩

end TimeThread

end Liby
