import Liby.Timer.TimersOnce
import Liby.Timer.TimestampArithmetic

/-!
# Periodic timers keep their period

`runEvery` gives its timer the interval itself for the first timeout, so that the first run is due at
once; each later entry is put in by the run before it, at the interval from the clock it reads. The
`ran` of `TimerLog` has the reading of the whole call, so the times of the runs are kept apart from it.
-/

namespace Liby

open Infra

namespace TimerWorld

/-- A loop's timers at a time, when they were made, and their runs with the last one first. -/
structure Clocked where
  world : TimerWorld
  time : Timestamp
  made : List Timestamp
  ran : List (TimerPtr × Timestamp)
  deriving Repr

/-- The runs that a step has logged. -/
def newRuns (log log' : List TimerLog) : List TimerPtr :=
  (log'.take (log'.length - log.length)).filterMap fun
    | .ran ptr _ => some ptr
    | _ => none

namespace Clocked

/-- A new loop. -/
def start : Clocked where
  world := init
  time := ⟨0, 0⟩
  made := []
  ran := []

/-- One event, at its time. -/
def step (c : Clocked) (x : Timestamp × TimerEvent) : Exec Clocked := do
  let world ← c.world.step x.2
  return {
    world := world
    time := x.1
    made := c.made ++ List.replicate (world.timers.length - c.world.timers.length) x.1
    ran := (newRuns c.world.log world.log).map (fun ptr => (ptr, x.1)) ++ c.ran }

/-- The times of the runs of `ptr`, the last one first. -/
def runTimes (c : Clocked) (ptr : TimerPtr) : List Timestamp :=
  c.ran.filterMap fun run => if run.1 = ptr then some run.2 else none

end Clocked

/-- `ptr` is a timer of `runEvery(d, handler)`. -/
def IsEvery (s : TimerWorld) (ptr : TimerPtr) (d : Timestamp) : Prop :=
  ∃ timer, s.timers[ptr]? = some timer ∧ timer.handler_ = .every d

/-- The event can come at time `t`: what it reads of the clock is `t`, and `EventLoop` makes it. -/
def TimerEvent.fits (t : Timestamp) : TimerEvent → Prop
  | .runAfter _ _ now => now = t
  | .handleTimeoutEvents now => now = t
  | .iterate clock => clock = t
  | .runEvery _ timestamp => timestamp.Near
  | .insertTimer _ _ _ => False
  | _ => True

instance (t : Timestamp) : DecidablePred (TimerEvent.fits t)
  | .runAfter _ _ now => inferInstanceAs (Decidable (now = t))
  | .handleTimeoutEvents now => inferInstanceAs (Decidable (now = t))
  | .iterate clock => inferInstanceAs (Decidable (clock = t))
  | .runEvery _ timestamp => inferInstanceAs (Decidable timestamp.Near)
  | .insertTimer _ _ _ => isFalse id
  | .runAt _ _ | .cancelTimer _ _ | .cancelAllTimer _ | .dropHolder _ | .handlerReturned =>
    isTrue trivial

/-- The clock does not go back. -/
def Timely (c : Clocked) (x : Timestamp × TimerEvent) : Prop :=
  c.time ≤ x.1 ∧ x.1.Normalised ∧ TimerEvent.fits x.1 x.2

instance (c : Clocked) (x : Timestamp × TimerEvent) : Decidable (Timely c x) :=
  inferInstanceAs (Decidable (_ ∧ _ ∧ _))

/-- The first run of a periodic timer, if it comes now, is not before its interval has passed. -/
def FirstInTime (c : Clocked) (x : Timestamp × TimerEvent) : Prop :=
  ∀ clock now ptr timer d made, x.2 = .iterate clock → c.world.phase = .draining now →
    c.world.periodicDue now = some (ptr, timer, d) → c.runTimes ptr = [] →
    c.made[ptr]? = some made → made.micros + d.micros ≤ x.1.micros

/-! ## What is kept -/

/-- The `i`-th run is not before `made + i * d`, in a list with the last run first. -/
def NotEarly (made d : Timestamp) : List Timestamp → Prop
  | [] => True
  | run :: runs => made.micros + (runs.length + 1) * d.micros ≤ run.micros ∧ NotEarly made d runs

/-- Every run of a periodic timer is in its time. -/
def OnTime (c : Clocked) : Prop :=
  ∀ ptr d made, c.world.IsEvery ptr d → c.made[ptr]? = some made → NotEarly made d (c.runTimes ptr)

/-- From one run to the next. -/
def Apart (d : Timestamp) (runs : List Timestamp) : Prop :=
  runs.IsChain fun later earlier => earlier.micros + d.micros ≤ later.micros

/-- What holds of periodic timers in any case. -/
structure Steady (c : Clocked) : Prop where
  apart : ∀ ptr d, c.world.IsEvery ptr d → Apart d (c.runTimes ptr)
  /-- At most one entry waits. -/
  single : ∀ ptr d, c.world.IsEvery ptr d → c.world.waiting ptr ≤ 1
  order : NotAfterCancel c.world.log

/-- The timeout of an entry that waits: the interval from the last run, or the interval itself. -/
def Pending (d : Timestamp) (runs : List Timestamp) (timeout : Timestamp) : Prop :=
  timeout.Near ∧ ∀ run ∈ runs.head?, run.micros + d.micros ≤ timeout.micros

/-- What is known of one periodic timer. -/
structure Paced (c : Clocked) (ptr : TimerPtr) (d : Timestamp) : Prop where
  near : d.Near
  single : c.world.waiting ptr ≤ 1
  pending : ∀ w ∈ c.world.settled, w.weakTimerPtr_ = some ptr →
    Pending d (c.runTimes ptr) w.timeout
  apart : Apart d (c.runTimes ptr)

/-- The invariant of the runs. -/
structure Regular (c : Clocked) : Prop where
  tracked : Tracked c.world
  time : c.time.Normalised
  /-- The loop's reading of the clock is not ahead. -/
  reading : ∀ now, c.world.phase = .draining now ∨
    (∃ entry ptr, c.world.phase = .handling now entry ptr) → now.Normalised ∧ now ≤ c.time
  made : c.made.length = c.world.timers.length
  ran : ∀ run ∈ c.ran, run.1 < c.world.timers.length
  paced : ∀ ptr d, c.world.IsEvery ptr d → Paced c ptr d

/-! ## One step -/

theorem newRuns_append (new log : List TimerLog) : newRuns log (new ++ log) =
    new.filterMap fun
      | .ran ptr _ => some ptr
      | _ => none := by
  unfold newRuns
  rw [List.length_append, Nat.add_sub_cancel, List.take_left]

@[simp] theorem newRuns_self (log : List TimerLog) : newRuns log log = [] := newRuns_append [] log

@[simp] theorem newRuns_drop (s : TimerWorld) (cancel : Bool)
    (which : Nat × TimerId × TimerPtr → Bool) : newRuns s.log (s.drop cancel which).log = [] := by
  refine (newRuns_append _ _).trans (List.filterMap_eq_nil_iff.mpr fun l hl => ?_)
  obtain ⟨held, -, rfl⟩ := List.mem_map.mp hl
  cases cancel <;> rfl

@[simp] theorem newRuns_added (log : List TimerLog) (ptr : TimerPtr) :
    newRuns log (.added ptr :: log) = [] := newRuns_append [.added ptr] log

@[simp] theorem newRuns_ran (log : List TimerLog) (ptr : TimerPtr) (now : Timestamp) :
    newRuns log (.ran ptr now :: log) = [ptr] := newRuns_append [.ran ptr now] log

/-- What a step leaves. -/
structure Clocked.Next (c : Clocked) (x : Timestamp × TimerEvent) (c' : Clocked) : Prop where
  world : c.world.step x.2 = .ok c'.world
  time : c'.time = x.1
  made : c'.made = c.made ++ List.replicate (c'.world.timers.length - c.world.timers.length) x.1
  ran : c'.ran = (newRuns c.world.log c'.world.log).map (fun ptr => (ptr, x.1)) ++ c.ran

/-- A step of the clocked loop is one of the loop's own. -/
theorem Clocked.next_of_step {c c' : Clocked} {x : Timestamp × TimerEvent} (h : c.step x = .ok c') :
    c.Next x c' := by
  obtain ⟨world, hstep, hc⟩ := bind_eq_ok.mp h
  cases hc
  exact ⟨hstep, rfl, rfl, rfl⟩

/-- A timer that is not new is one of `runEvery` if it was. -/
theorem isEvery_back {s s' : TimerWorld} {e : TimerEvent} (hstep : Stepped s e s') {ptr : TimerPtr}
    {d : Timestamp} (h : s'.IsEvery ptr d) (hlt : ptr < s.timers.length) : s.IsEvery ptr d := by
  obtain ⟨timer, htimer, hevery⟩ := h
  cases hstep with
  | register =>
    rw [List.getElem?_append_left hlt] at htimer
    exact ⟨timer, htimer, hevery⟩
  | @every now clock timestamp p t q hphase hne hdue hlock ht htevery =>
    by_cases hp : p = ptr
    · subst hp
      rw [List.getElem?_set_self hlt] at htimer
      cases htimer
      exact ⟨t, ht, hevery⟩
    · rw [List.getElem?_set_ne hp] at htimer
      exact ⟨timer, htimer, hevery⟩
  | skip | drop | enter | leave | expired | once | returned => exact ⟨timer, htimer, hevery⟩

theorem isEvery_step {s s' : TimerWorld} {e : TimerEvent} (hstep : Stepped s e s') {ptr : TimerPtr}
    {d : Timestamp} (h : s.IsEvery ptr d) : s'.IsEvery ptr d := by
  obtain ⟨timer, htimer, hevery⟩ := h
  have hlt := (List.getElem?_eq_some_iff.mp htimer).1
  cases hstep with
  | register =>
    refine ⟨timer, ?_, hevery⟩
    rw [List.getElem?_append_left hlt]
    exact htimer
  | @every now clock timestamp p t q hphase hne hdue hlock ht htevery =>
    by_cases hp : p = ptr
    · subst hp
      rw [htimer] at ht
      cases ht
      exact ⟨_, List.getElem?_set_self hlt, hevery⟩
    · refine ⟨timer, ?_, hevery⟩
      rw [List.getElem?_set_ne hp]
      exact htimer
  | skip | drop | enter | leave | expired | once | returned => exact ⟨timer, htimer, hevery⟩

/-- Where user code inserts nothing no timer is made. -/
theorem length_eq_step {s s' : TimerWorld} {e : TimerEvent} (hstep : Stepped s e s')
    (h : s.userCode = true → s.inserts e = none) : s'.timers.length = s.timers.length := by
  cases hstep with
  | register huser hins =>
    rw [h huser] at hins
    cases hins
  | every => simp
  | skip | drop | enter | leave | expired | once | returned => rfl

theorem isEvery_register {s s' : TimerWorld} {owner : Nat} {timer : Timer} {ptr : TimerPtr}
    {d : Timestamp} (hreg : s.register owner timer = .ok s') (h : s'.IsEvery ptr d)
    (hge : s.timers.length ≤ ptr) : timer.handler_ = .every d := by
  obtain ⟨q, -, hs⟩ := bind_eq_ok.mp hreg
  cases hs
  obtain ⟨t, ht, hevery⟩ := h
  rw [List.getElem?_append_right hge] at ht
  rw [List.mem_singleton.mp (List.mem_of_getElem? ht)] at hevery
  exact hevery

/-- A new timer with an interval is made by `runEvery`. -/
theorem isEvery_new {s s' : TimerWorld} {e : TimerEvent} (hb : Base s) (hstep : s.step e = .ok s')
    {ptr : TimerPtr} {d : Timestamp} (h : s'.IsEvery ptr d) (hge : s.timers.length ≤ ptr) :
    ∃ owner, e = .runEvery owner d := by
  have hstepped := stepped_of_step hb.inBounds hstep
  have hlt : ptr < s'.timers.length := by
    obtain ⟨timer, htimer, -⟩ := h
    exact (List.getElem?_eq_some_iff.mp htimer).1
  have hreg : s.timers.length < s'.timers.length := lt_of_le_of_lt hge hlt
  -- a timer has come, so the event is user code that inserts one
  have huser : s.userCode = true := by
    by_contra hnot
    exact absurd hreg (length_eq_step hstepped fun huser => absurd huser hnot).not_gt
  cases e with
  | runAt owner timestamp =>
    dsimp only [step] at hstep
    rw [if_pos huser] at hstep
    cases isEvery_register (s := s.nextId) hstep h hge
  | runAfter owner timestamp now =>
    dsimp only [step] at hstep
    rw [if_pos huser] at hstep
    cases isEvery_register (s := s.nextId) hstep h hge
  | runEvery owner timestamp =>
    dsimp only [step] at hstep
    rw [if_pos huser] at hstep
    cases isEvery_register (s := s.nextId) hstep h hge
    exact ⟨owner, rfl⟩
  | insertTimer owner id timeout =>
    dsimp only [step] at hstep
    rw [if_pos huser] at hstep
    obtain ⟨_, -, hstep⟩ := bind_eq_ok.mp hstep
    cases isEvery_register hstep h hge
  | iterate clock =>
    refine absurd hreg (length_eq_step hstepped fun _ => ?_).not_gt
    dsimp only [inserts]
    split
    · next hphase => simp [userCode, hphase] at huser
    · rfl
  | cancelTimer | cancelAllTimer | dropHolder | handleTimeoutEvents | handlerReturned =>
    exact absurd hreg (length_eq_step hstepped fun _ => rfl).not_gt

/-- The entries of `ptr` that wait. -/
def waits (s : TimerWorld) (ptr : TimerPtr) : Multiset WeakTimerHolder :=
  s.settled.filter fun w => w.weakTimerPtr_ = some ptr

theorem waiting_eq_card (s : TimerWorld) (ptr : TimerPtr) :
    s.waiting ptr = Multiset.card (s.waits ptr) := Multiset.countP_eq_card_filter _ _

theorem waits_le {s s' : TimerWorld} (h : s'.settled ≤ s.settled) (ptr : TimerPtr) :
    s'.waits ptr ≤ s.waits ptr := Multiset.filter_le_filter _ h

/-- Another timer's entry is put in. -/
theorem waits_cons {s s' : TimerWorld} {w : WeakTimerHolder} {m : Multiset WeakTimerHolder}
    {ptr : TimerPtr} (h : s'.settled = w ::ₘ m) (hm : m ≤ s.settled)
    (hw : w.weakTimerPtr_ ≠ some ptr) : s'.waits ptr ≤ s.waits ptr := by
  have hcons : (w ::ₘ m).filter (fun v => v.weakTimerPtr_ = some ptr) =
      m.filter (fun v => v.weakTimerPtr_ = some ptr) := Multiset.filter_cons_of_neg m hw
  unfold waits
  rw [h, hcons]
  exact Multiset.filter_le_filter _ hm

theorem periodicDue_handler {s : TimerWorld} {now d : Timestamp} {ptr : TimerPtr} {timer : Timer}
    (h : s.periodicDue now = some (ptr, timer, d)) : timer.handler_ = .every d := by
  unfold periodicDue at h
  split at h
  · cases h
  · split at h
    · cases h
    · split at h
      · cases h
        rfl
      · cases h

/-- The periodic timer that an iteration inserts again is due. -/
theorem periodicDue_of_inserts {s : TimerWorld} {now clock timeout d : Timestamp} {id : TimerId}
    {ptr : TimerPtr} (hphase : s.phase = .draining now) (hevery : s.IsEvery ptr d)
    (h : s.inserts (.iterate clock) = some ⟨id, timeout, some ptr⟩) :
    ∃ timer, s.periodicDue now = some (ptr, timer, d) := by
  simp only [inserts, hphase] at h
  obtain ⟨⟨p, timer, timestamp⟩, hdue, hentry⟩ := Option.map_eq_some_iff.mp h
  cases hentry
  obtain ⟨t, ht, hd⟩ := hevery
  have htimer := (periodicDue_eq_some hdue).2.2
  rw [ht] at htimer
  cases htimer
  rw [periodicDue_handler hdue] at hd
  cases hd
  exact ⟨timer, hdue⟩

/-- A periodic timer runs: its entry is gone, and one at the interval from the clock is put in. -/
structure RunsEvery (s : TimerWorld) (e : TimerEvent) (s' : TimerWorld) (ptr : TimerPtr)
    (d clock now : Timestamp) : Prop where
  event : e = .iterate clock
  phase : s.phase = .draining now
  periodic : ∃ timer, s.periodicDue now = some (ptr, timer, d)
  due : s.tqueue_.root.timeout ≤ now
  root : s.tqueue_.root.weakTimerPtr_ = some ptr
  entries : ∃ m id, s.settled = s.tqueue_.root ::ₘ m ∧
    s'.settled = ⟨id, d.add clock, some ptr⟩ ::ₘ m
  runs : newRuns s.log s'.log = [ptr]

/-- **What a step does to a periodic timer**: it runs it, or no entry of it comes. -/
theorem every_step {s s' : TimerWorld} {e : TimerEvent} {ptr : TimerPtr} {d : Timestamp}
    (hb : Base s) (hkeep : KeepsRoot s e) (hstep : Stepped s e s') (hevery : s.IsEvery ptr d) :
    s'.waits ptr ≤ s.waits ptr ∧ ptr ∉ newRuns s.log s'.log ∨
      ∃ clock now, RunsEvery s e s' ptr d clock now := by
  obtain ⟨timer, htimer, hd⟩ := hevery
  have hlt := (List.getElem?_eq_some_iff.mp htimer).1
  cases hstep with
  | skip => exact .inl ⟨le_rfl, by simp⟩
  | register huser hins hids hq =>
    have hset := settled_register hb hkeep huser hins hq
    refine .inl ⟨waits_cons hset le_rfl ?_, by simp⟩
    -- the entry put in is of an object that is not there yet
    intro hptr
    cases hptr
    exact lt_irrefl _ hlt
  | drop => exact .inl ⟨le_rfl, by simp⟩
  | enter hphase => exact .inl ⟨waits_le (settled_enter hphase).le ptr, by simp⟩
  | leave hphase hwhy hq => exact .inl ⟨waits_le (settled_leave hb hphase hq).le ptr, by simp⟩
  | expired hphase hne hdue hlock hq =>
    refine .inl ⟨waits_le ?_ ptr, by simp⟩
    rw [settled_expired hb hphase hne hq]
    exact Multiset.le_cons_self _ _
  | @once now clock p t hphase hne hdue hlock ht honce =>
    refine .inl ⟨waits_le ?_ ptr, ?_⟩
    · rw [settled_once hb hphase hne]
      exact Multiset.le_cons_self _ _
    · -- the timer that runs is no periodic one
      simp only [newRuns_ran, List.mem_singleton]
      rintro rfl
      rw [htimer] at ht
      cases ht
      rw [hd] at honce
      cases honce
  | @every now clock timestamp p t q hphase hne hdue hlock ht htevery hins hq =>
    obtain ⟨m, hm, hm'⟩ := settled_every hb hkeep hphase hne hins hq
    by_cases hp : p = ptr
    · subst hp
      rw [htimer] at ht
      cases ht
      rw [hd] at htevery
      cases htevery
      refine .inr ⟨clock, now, rfl, hphase, periodicDue_of_inserts hphase ⟨timer, htimer, hd⟩ hins, hdue,
        (lock_eq_some.mp hlock).1, ⟨m, _, hm, hm' _ _ _⟩, ?_⟩
      exact newRuns_ran _ _ _
    · refine .inl ⟨waits_cons (hm' _ _ _) ?_ fun hptr => hp (Option.some.inj hptr), ?_⟩
      · rw [hm]
        exact Multiset.le_cons_self _ _
      · simp only [newRuns_ran, List.mem_singleton]
        exact fun heq => hp heq.symm
  | returned hphase hq =>
    refine .inl ⟨waits_le ?_ ptr, by simp⟩
    exact (settled_returned hb hphase hq).ge

/-- A periodic timer that is due at the root is run. -/
theorem mem_newRuns_of_due {s s' : TimerWorld} {clock now d : Timestamp} {ptr : TimerPtr}
    {timer : Timer} (hstep : Stepped s (.iterate clock) s') (hphase : s.phase = .draining now)
    (hdue : s.periodicDue now = some (ptr, timer, d)) : ptr ∈ newRuns s.log s'.log := by
  have hins : s.inserts (.iterate clock) = some ⟨timer.id_, d.add clock, some ptr⟩ := by
    simp [inserts, hphase, hdue]
  obtain ⟨hne, hlock, htimer⟩ := periodicDue_eq_some hdue
  have huser : s.userCode = false := by simp [userCode, hphase]
  cases hstep with
  | skip hnone =>
    rw [hnone] at hins
    cases hins
  | register h => simp [h] at huser
  | drop h => simp [h] at huser
  | leave hphase' hwhy =>
    rw [hphase] at hphase'
    cases hphase'
    unfold periodicDue at hdue
    rcases hwhy with hempty | hlt
    · exact absurd hempty hne
    · rw [if_pos (by rw [Timestamp.lt_iff.mpr hlt, Bool.or_true])] at hdue
      cases hdue
  | expired hphase' hne' hdue' hlock' =>
    rw [hlock] at hlock'
    cases hlock'
  | once hphase' hne' hdue' hlock' ht honce =>
    rw [hlock] at hlock'
    cases hlock'
    rw [htimer] at ht
    cases ht
    rw [periodicDue_handler hdue] at honce
    cases honce
  | every hphase' hne' hdue' hlock' =>
    rw [hlock] at hlock'
    cases hlock'
    simp

/-! ## What a step keeps -/

section Step

variable {c c' : Clocked} {x : Timestamp × TimerEvent}

theorem fits_not_ownId {t : Timestamp} {e : TimerEvent} (h : TimerEvent.fits t e) :
    ¬TimerEvent.ownId e := by
  cases e with
  | insertTimer => exact h.elim
  | runAt | runAfter | runEvery | cancelTimer | cancelAllTimer | dropHolder | handleTimeoutEvents | iterate
  | handlerReturned => exact id

/-- A timer that a step does not run. -/
theorem runTimes_of_notMem (hnext : c.Next x c') {ptr : TimerPtr}
    (h : ptr ∉ newRuns c.world.log c'.world.log) : c'.runTimes ptr = c.runTimes ptr := by
  unfold Clocked.runTimes
  rw [hnext.ran, List.filterMap_append, List.filterMap_eq_nil_iff.mpr, List.nil_append]
  intro run hrun
  obtain ⟨p, hp, rfl⟩ := List.mem_map.mp hrun
  refine if_neg ?_
  rintro rfl
  exact h hp

/-- The timer that a step runs. -/
theorem runTimes_ran (hnext : c.Next x c') {ptr : TimerPtr}
    (h : newRuns c.world.log c'.world.log = [ptr]) : c'.runTimes ptr = x.1 :: c.runTimes ptr := by
  unfold Clocked.runTimes
  rw [hnext.ran, h]
  simp

theorem Regular.stepped (h : Regular c) (hnext : c.Next x c') : Stepped c.world x.2 c'.world :=
  stepped_of_step h.tracked.base.inBounds hnext.world

/-- The clock reading of an event is its time. -/
theorem Regular.reading_step (h : Regular c) (ht : Timely c x) (hnext : c.Next x c') :
    ∀ now, c'.world.phase = .draining now ∨
      (∃ entry ptr, c'.world.phase = .handling now entry ptr) → now.Normalised ∧ now ≤ c'.time := by
  obtain ⟨t, e⟩ := x
  obtain ⟨hle, hnorm, hfits⟩ := ht
  have hold : ∀ now, c.world.phase = .draining now ∨
      (∃ entry ptr, c.world.phase = .handling now entry ptr) → now.Normalised ∧ now ≤ t :=
    fun now hphase => ⟨(h.reading now hphase).1, (h.reading now hphase).2.trans hle⟩
  have hstepped := h.stepped hnext
  rw [hnext.time]
  obtain ⟨world, time, made, ran⟩ := c'
  intro now hphase
  cases hstepped with
  | enter =>
    rcases hphase with hphase | ⟨entry, ptr, hphase⟩
    · cases hphase
      have hnow : now = t := hfits
      subst hnow
      exact ⟨hnorm, le_rfl⟩
    · cases hphase
  | leave =>
    rcases hphase with hphase | ⟨entry, ptr, hphase⟩
    · cases hphase
    · cases hphase
  | expired hdraining =>
    rcases hphase with hphase | ⟨entry, ptr, hphase⟩
    · cases hphase
      exact hold _ (.inl hdraining)
    · cases hphase
  | once hdraining | every hdraining =>
    rcases hphase with hphase | ⟨entry, ptr, hphase⟩
    · cases hphase
    · cases hphase
      exact hold _ (.inl hdraining)
  | returned hhandling =>
    rcases hphase with hphase | ⟨entry, ptr, hphase⟩
    · cases hphase
      exact hold _ (.inr ⟨_, _, hhandling⟩)
    · cases hphase
  | skip | register | drop => exact hold now hphase

theorem Regular.tracked_step (h : Regular c) (ht : Timely c x) (hnext : c.Next x c') :
    Tracked c'.world := h.tracked.step (fits_not_ownId ht.2.2) (h.stepped hnext)

theorem Regular.ran_step (h : Regular c) (ht : Timely c x) (hnext : c.Next x c') :
    ∀ run ∈ c'.ran, run.1 < c'.world.timers.length := by
  have htracked := h.tracked_step ht hnext
  intro run hrun
  rw [hnext.ran] at hrun
  rcases List.mem_append.mp hrun with hnew | hold
  · obtain ⟨ptr, hptr, rfl⟩ := List.mem_map.mp hnew
    obtain ⟨l, hl, hran⟩ := List.mem_filterMap.mp hptr
    have hlt := htracked.logged l (List.mem_of_mem_take hl)
    cases l with
    | ran p now =>
      cases hran
      exact hlt
    | added | cancelled | dropped => cases hran
  · exact lt_of_lt_of_le (h.ran run hold) (length_le_step (h.stepped hnext))

theorem runTimes_new (h : Regular c) {ptr : TimerPtr} (hge : c.world.timers.length ≤ ptr) :
    c.runTimes ptr = [] := by
  refine List.filterMap_eq_nil_iff.mpr fun run hrun => if_neg ?_
  rintro rfl
  exact absurd (h.ran run hrun) hge.not_gt

/-- The timer goes on as before where it is not run. -/
theorem Paced.of_waits_le {ptr : TimerPtr} {d : Timestamp} (h : Paced c ptr d)
    (hwaits : c'.world.waits ptr ≤ c.world.waits ptr) (hruns : c'.runTimes ptr = c.runTimes ptr) :
    Paced c' ptr d where
  near := h.near
  single := by
    have hsingle := h.single
    rw [waiting_eq_card] at hsingle ⊢
    exact (Multiset.card_le_card hwaits).trans hsingle
  pending := fun w hw hptr => by
    rw [hruns]
    have hmem : w ∈ c'.world.waits ptr := Multiset.mem_filter.mpr ⟨hw, hptr⟩
    exact h.pending w (Multiset.mem_filter.mp (Multiset.mem_of_le hwaits hmem)).1 hptr
  apart := by
    rw [hruns]
    exact h.apart

/-- The run comes at the interval from the one before it, and leaves one entry at the interval from it. -/
theorem Paced.run {ptr : TimerPtr} {d : Timestamp} {e : TimerEvent} {clock now : Timestamp}
    (h : Paced c ptr d) (hrun : RunsEvery c.world e c'.world ptr d clock now)
    (hruns : c'.runTimes ptr = clock :: c.runTimes ptr) (htime : clock.Normalised)
    (hnow : now.Normalised) (hle : now ≤ clock) : Paced c' ptr d := by
  obtain ⟨m, id, hm, hm'⟩ := hrun.entries
  -- the root was the only entry of the timer
  have hnone : ∀ w ∈ m, w.weakTimerPtr_ ≠ some ptr := by
    have hsingle := h.single
    rw [waiting_cons hm, if_pos hrun.root] at hsingle
    exact Multiset.countP_eq_zero.mp (by omega)
  refine ⟨h.near, ?_, ?_, ?_⟩
  · rw [waiting_cons hm', if_pos rfl, Multiset.countP_eq_zero.mpr hnone]
  · intro w hw hptr
    rw [hm', Multiset.mem_cons] at hw
    rcases hw with rfl | hw
    · refine ⟨Timestamp.near_add h.near htime.near, fun run hrun => ?_⟩
      rw [hruns] at hrun
      cases hrun
      show clock.micros + d.micros ≤ (d.add clock).micros
      rw [Timestamp.micros_add]
      omega
    · exact absurd hptr (hnone w hw)
  · rw [hruns]
    refine List.isChain_cons.mpr ⟨fun run hlast => ?_, h.apart⟩
    have hroot : c.world.tqueue_.root ∈ c.world.settled := by
      rw [hm]
      exact Multiset.mem_cons_self _ _
    obtain ⟨hnear, hpending⟩ := h.pending _ hroot hrun.root
    -- from the last run to the timeout, to the reading of the loop, to the clock
    calc run.micros + d.micros ≤ c.world.tqueue_.root.timeout.micros := hpending run hlast
      _ ≤ now.micros := Timestamp.micros_le hnear hnow.near hrun.due
      _ ≤ clock.micros := Timestamp.micros_le hnow.near htime.near hle

theorem newRuns_runEvery {s s' : TimerWorld} {owner : Nat} {d : Timestamp}
    (h : Stepped s (.runEvery owner d) s') : newRuns s.log s'.log = [] := by
  cases h with
  | skip => exact newRuns_self _
  | register => exact newRuns_added _ _
  | drop => exact newRuns_drop _ _ _

/-- A new periodic timer has one entry, for its interval. -/
theorem Regular.paced_new (h : Regular c) (ht : Timely c x) (hnext : c.Next x c') {ptr : TimerPtr}
    {d : Timestamp} (hevery : c'.world.IsEvery ptr d) (hge : c.world.timers.length ≤ ptr) :
    c'.runTimes ptr = [] ∧ Paced c' ptr d := by
  obtain ⟨t, e⟩ := x
  obtain ⟨owner, rfl⟩ : ∃ owner, e = .runEvery owner d :=
    isEvery_new h.tracked.base hnext.world hevery hge
  have hnear : d.Near := ht.2.2
  have hstepped := h.stepped hnext
  have hkeep := h.tracked.keepsRoot (fits_not_ownId ht.2.2)
  have hnone : ∀ w ∈ c.world.settled, w.weakTimerPtr_ ≠ some ptr := fun w hw hptr =>
    absurd (h.tracked.ptr_lt (Multiset.mem_of_le (settled_le _) hw) hptr) hge.not_gt
  have hruns : c'.runTimes ptr = [] := by
    rw [runTimes_of_notMem hnext (by rw [newRuns_runEvery hstepped]; exact List.not_mem_nil)]
    exact runTimes_new h hge
  refine ⟨hruns, ?_⟩
  obtain ⟨world, time, made, ran⟩ := c'
  cases hstepped with
  | skip =>
    obtain ⟨timer, htimer, -⟩ := hevery
    exact absurd (List.getElem?_eq_some_iff.mp htimer).1 hge.not_gt
  | @register _ _ timer ids q huser hins hids hq =>
    have hset := settled_register h.tracked.base hkeep huser hins hq
    -- `runEvery` makes an entry for the interval itself
    have hentry : some ⟨c.world.timerIds_, d, some c.world.timers.length⟩ =
        some (WeakTimerHolder.ofTimer timer c.world.timers.length) := by
      rw [← hins]
      exact (if_pos huser).symm
    rw [← Option.some.inj hentry] at hset
    refine ⟨hnear, ?_, fun w hw hptr => ?_, ?_⟩
    · show (settledIn q c.world.phase).countP _ ≤ 1
      rw [hset, Multiset.countP_cons, Multiset.countP_eq_zero.mpr hnone]
      split <;> omega
    · rw [hruns]
      refine ⟨?_, fun run hrun => by cases hrun⟩
      have hw : w ∈ settledIn q c.world.phase := hw
      rw [hset, Multiset.mem_cons] at hw
      rcases hw with rfl | hw
      · exact hnear
      · exact absurd hptr (hnone w hw)
    · rw [hruns]
      exact List.isChain_nil
  | drop =>
    obtain ⟨timer, htimer, -⟩ := hevery
    exact absurd (List.getElem?_eq_some_iff.mp htimer).1 hge.not_gt

/-- **What a step does to the runs of a periodic timer**: none, or one more, not before its entry. -/
theorem Regular.runTimes_step (h : Regular c) (ht : Timely c x) (hnext : c.Next x c') {ptr : TimerPtr}
    {d : Timestamp} (hevery : c.world.IsEvery ptr d) :
    c'.world.waits ptr ≤ c.world.waits ptr ∧ c'.runTimes ptr = c.runTimes ptr ∧
        ptr ∉ newRuns c.world.log c'.world.log ∨
      c'.runTimes ptr = x.1 :: c.runTimes ptr ∧ ∃ now,
        RunsEvery c.world x.2 c'.world ptr d x.1 now ∧ now.Normalised ∧ now ≤ x.1 := by
  have hkeep := h.tracked.keepsRoot (fits_not_ownId ht.2.2)
  rcases every_step h.tracked.base hkeep (h.stepped hnext) hevery with
    ⟨hwaits, hnot⟩ | ⟨clock, now, hrun⟩
  · exact .inl ⟨hwaits, runTimes_of_notMem hnext hnot, hnot⟩
  · obtain ⟨hnow, hle⟩ := h.reading now (.inl hrun.phase)
    have hclock : clock = x.1 := by
      have hfits := ht.2.2
      rw [hrun.event] at hfits
      exact hfits
    subst hclock
    exact .inr ⟨runTimes_ran hnext hrun.runs, now, hrun, hnow, hle.trans ht.1⟩

theorem Regular.paced_step (h : Regular c) (ht : Timely c x) (hnext : c.Next x c') :
    ∀ ptr d, c'.world.IsEvery ptr d → Paced c' ptr d := by
  intro ptr d hevery
  by_cases hlt : ptr < c.world.timers.length
  · have hold := isEvery_back (h.stepped hnext) hevery hlt
    rcases h.runTimes_step ht hnext hold with ⟨hwaits, hruns, -⟩ | ⟨hruns, now, hrun, hnow, hle⟩
    · exact (h.paced ptr d hold).of_waits_le hwaits hruns
    · exact (h.paced ptr d hold).run hrun hruns ht.2.1 hnow hle
  · exact (h.paced_new ht hnext hevery (not_lt.mp hlt)).2

theorem Regular.step (h : Regular c) (ht : Timely c x) (hnext : c.Next x c') : Regular c' where
  tracked := h.tracked_step ht hnext
  time := by
    rw [hnext.time]
    exact ht.2.1
  reading := h.reading_step ht hnext
  made := by
    have hle := length_le_step (h.stepped hnext)
    rw [hnext.made, List.length_append, List.length_replicate, h.made]
    omega
  ran := h.ran_step ht hnext
  paced := h.paced_step ht hnext

theorem notEarly_cons {made d time : Timestamp} {runs : List Timestamp} (h : NotEarly made d runs)
    (hpace : ∀ run ∈ runs.head?, run.micros + d.micros ≤ time.micros) :
    NotEarly made d (time :: runs) ↔ (runs = [] → made.micros + d.micros ≤ time.micros) := by
  cases runs with
  | nil =>
    refine ⟨fun hrun _ => ?_, fun hfirst => ⟨?_, trivial⟩⟩
    · simpa [NotEarly] using hrun
    · simpa using hfirst rfl
  | cons run runs =>
    refine ⟨fun _ hnil => (by cases hnil), fun _ => ⟨?_, h⟩⟩
    -- an interval behind a run that was in its time
    have hlast := hpace run rfl
    have hrun := h.1
    rw [List.length_cons, Nat.cast_add, Nat.cast_one, add_mul, one_mul]
    omega

/-- **A step keeps the runs in their time exactly if a first run that it makes is.** -/
theorem Regular.onTime_iff (h : Regular c) (ht : Timely c x) (hnext : c.Next x c') (hon : OnTime c) :
    OnTime c' ↔ FirstInTime c x := by
  have h' := h.step ht hnext
  have hmade : ∀ ptr < c.world.timers.length, c'.made[ptr]? = c.made[ptr]? := by
    intro ptr hlt
    rw [hnext.made, List.getElem?_append_left (by rw [h.made]; exact hlt)]
  constructor
  · intro hon' clock now ptr timer d made hevent hphase hdue hfirst hptr
    have htimer := (periodicDue_eq_some hdue).2.2
    have hold : c.world.IsEvery ptr d := ⟨timer, htimer, periodicDue_handler hdue⟩
    have hlt := (List.getElem?_eq_some_iff.mp htimer).1
    have hstepped := h.stepped hnext
    rw [hevent] at hstepped
    have hmem := mem_newRuns_of_due hstepped hphase hdue
    -- so the step makes the first run of it
    rcases h.runTimes_step ht hnext hold with ⟨-, -, hnot⟩ | ⟨hruns, -⟩
    · exact absurd hmem hnot
    · have hevery := isEvery_step (h.stepped hnext) hold
      have hrun := hon' ptr d made hevery (by rw [hmade ptr hlt]; exact hptr)
      rw [hruns, hfirst] at hrun
      simpa [NotEarly] using hrun
  · intro hfirst ptr d made hevery hptr
    by_cases hlt : ptr < c.world.timers.length
    · have hold := isEvery_back (h.stepped hnext) hevery hlt
      rw [hmade ptr hlt] at hptr
      rcases h.runTimes_step ht hnext hold with ⟨-, hruns, -⟩ | ⟨hruns, now, hrun, -⟩
      · rw [hruns]
        exact hon ptr d made hold hptr
      · have hapart := (h'.paced ptr d hevery).apart
        rw [hruns] at hapart ⊢
        -- only for a first run something is left to show
        refine (notEarly_cons (hon ptr d made hold hptr) (List.isChain_cons.mp hapart).1).mpr ?_
        obtain ⟨timer, hdue⟩ := hrun.periodic
        exact fun hnil => hfirst x.1 now ptr timer d made hrun.event hrun.phase hdue hnil hptr
    · rw [(h.paced_new ht hnext hevery (not_lt.mp hlt)).1]
      trivial

end Step

/-! ## The results -/

theorem regular_start : Regular Clocked.start where
  tracked := tracked_init
  time := by decide
  reading := fun now h => by
    rcases h with h | ⟨entry, ptr, h⟩
    · cases h
    · cases h
  made := rfl
  ran := fun run h => absurd h List.not_mem_nil
  paced := fun ptr d h => by
    obtain ⟨timer, htimer, -⟩ := h
    cases htimer

theorem onTime_start : OnTime Clocked.start := by
  rintro ptr d made ⟨timer, htimer, -⟩
  cases htimer

theorem Regular.steady {c : Clocked} (h : Regular c) : Steady c where
  apart := fun ptr d hevery => (h.paced ptr d hevery).apart
  single := fun ptr d hevery => (h.paced ptr d hevery).single
  order := h.tracked.order

theorem Regular.step_iff {c : Clocked} (h : Regular c) {x : Timestamp × TimerEvent} (ht : Timely c x) :
    (∃ c', c.step x = .ok c') ↔ NotGrown c.world x.2 := by
  refine Iff.trans ?_
    (step_ok_iff h.tracked.base (TimerEvent.valid_of_not_ownId (fits_not_ownId ht.2.2)))
  constructor
  · rintro ⟨c', hc'⟩
    exact ⟨c'.world, (Clocked.next_of_step hc').world⟩
  · rintro ⟨world, hw⟩
    unfold Clocked.step
    rw [hw, ok_bind]
    exact ⟨_, rfl⟩

/-- A step that faults calls no handler. -/
theorem Regular.firstInTime_of_error {c : Clocked} (h : Regular c) {x : Timestamp × TimerEvent}
    (ht : Timely c x) {f : Fault} (herror : c.step x = .error f) : FirstInTime c x := by
  intro clock now ptr timer d made hx
  have hgrown : NotGrown c.world x.2 := by
    rw [hx]
    exact trivial
  obtain ⟨c', hc'⟩ := (h.step_iff ht).mpr hgrown
  rw [herror] at hc'
  cases hc'

/--
**Periodic timers**: their runs are at least an interval apart, at most one entry of each waits, and
none is run after its holder went. The `i`-th run is not before `i` intervals have passed exactly if
every first run is not before one has. A run returns exactly if the heap's vector never grows under a
handler.
-/
theorem periodic_timers_iff {es : List (Timestamp × TimerEvent)}
    (hes : Along Clocked.step Timely Clocked.start es) :
    ((∃ c, run Clocked.step Clocked.start es = .ok c) ↔
        Along Clocked.step (fun c x => NotGrown c.world x.2) Clocked.start es) ∧
      (∀ es' c, es' <+: es → run Clocked.step Clocked.start es' = .ok c → Steady c) ∧
      (Along Clocked.step FirstInTime Clocked.start es ↔
        ∀ es' c, es' <+: es → run Clocked.step Clocked.start es' = .ok c → OnTime c) := by
  have hbase : ∀ c x c', Regular c → Timely c x → c.step x = .ok c' → Regular c' :=
    fun c x c' h ht hc' => h.step ht (Clocked.next_of_step hc')
  refine ⟨run_returns_iff hbase (fun c x h ht => h.step_iff ht) es regular_start hes,
    fun es' c' hes' hc' => ?_, ?_⟩
  · obtain ⟨rest, rfl⟩ := hes'
    exact (run_invariant_along hbase regular_start ((along_append hc').mp hes).1 hc').steady
  · exact along_iff_reached hbase
      (fun c x c' h hon ht hc' => h.onTime_iff ht (Clocked.next_of_step hc') hon)
      (fun c x f h ht herror => h.firstInTime_of_error ht herror) es regular_start onTime_start hes

/-- A timer of ten seconds made at 100 s, whose first run comes in time. -/
theorem periodic_timers_iff_late :
    ∃ c, run Clocked.step Clocked.start [(⟨100, 0⟩, .runEvery 0 ⟨10, 0⟩),
        (⟨110, 0⟩, .handleTimeoutEvents ⟨110, 0⟩), (⟨110, 0⟩, .iterate ⟨110, 0⟩),
        (⟨110, 0⟩, .handlerReturned)] = .ok c ∧ Steady c := by
  have htimely : Along Clocked.step Timely Clocked.start [(⟨100, 0⟩, .runEvery 0 ⟨10, 0⟩),
      (⟨110, 0⟩, .handleTimeoutEvents ⟨110, 0⟩), (⟨110, 0⟩, .iterate ⟨110, 0⟩),
      (⟨110, 0⟩, .handlerReturned)] := by
    decide +kernel
  obtain ⟨hreturns, hsteady, -⟩ := periodic_timers_iff htimely
  obtain ⟨c, hc⟩ := hreturns.mpr (by decide +kernel)
  exact ⟨c, hc, hsteady _ c (List.prefix_refl _) hc⟩

/-- A timer of ten seconds, made at 100 s and run at 101 s. -/
theorem runEvery_runs_early :
    ∃ c, run Clocked.step Clocked.start [(⟨100, 0⟩, .runEvery 0 ⟨10, 0⟩),
        (⟨101, 0⟩, .handleTimeoutEvents ⟨101, 0⟩), (⟨101, 0⟩, .iterate ⟨101, 0⟩)] = .ok c ∧
      c.made = [⟨100, 0⟩] ∧ c.ran = [(0, ⟨101, 0⟩)] ∧ ¬OnTime c := by
  have hrun : (run Clocked.step Clocked.start [(⟨100, 0⟩, .runEvery 0 ⟨10, 0⟩),
      (⟨101, 0⟩, .handleTimeoutEvents ⟨101, 0⟩), (⟨101, 0⟩, .iterate ⟨101, 0⟩)]).toOption.map
        (fun c => (c.made, c.ran, c.world.timers.map Timer.handler_)) =
      some ([⟨100, 0⟩], [(0, ⟨101, 0⟩)], [.every ⟨10, 0⟩]) := by
    decide +kernel
  obtain ⟨c, hc, hview⟩ := ok_of_toOption_map hrun
  simp only [Prod.mk.injEq, List.map_eq_singleton_iff] at hview
  obtain ⟨hmade, hran, timer, htimers, hhandler⟩ := hview
  have hevery : c.world.IsEvery 0 ⟨10, 0⟩ := ⟨timer, by rw [htimers]; rfl, hhandler⟩
  have hruns : c.runTimes 0 = [⟨101, 0⟩] := by
    unfold Clocked.runTimes
    rw [hran]
    rfl
  refine ⟨c, hc, hmade, hran, fun hon => ?_⟩
  have hrun := hon 0 ⟨10, 0⟩ ⟨100, 0⟩ hevery (by rw [hmade]; rfl)
  rw [hruns] at hrun
  exact absurd hrun.1 (by decide)

end TimerWorld

end Liby
