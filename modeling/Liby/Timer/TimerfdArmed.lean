import Liby.Timer.TimerOrder

/-!
# The timerfd is not late

`insert` arms the timer only when the queue was empty, and `handleTimeoutEvents` arms the root
when it is left. `Armed` says that the last value given to `timerfd_settime` is no later than
any timeout in the queue. An insert keeps it exactly when the new timer is not due before that
value (`armed_insert_iff`); the end of a drain restores it when the root is the earliest timer.
-/

namespace Liby

open Infra

namespace TimerWorld

/-- The timer is armed for the earliest timeout or before it. -/
def Armed (s : TimerWorld) : Prop :=
  s.entries ≠ 0 → ∃ v, s.tqueue_.timerfd = some v ∧ ∀ w ∈ s.entries, v ≤ w.timeout

theorem armed_init : Armed init := fun h => absurd (BinaryHeap.contents_ofCapacity 100) h

/-- The first timer is armed for itself. -/
theorem armed_insert_first {s : TimerWorld} {w : WeakTimerHolder} {q : TimerQueue} (hb : Base s)
    (hempty : s.entries = 0) (hq : s.tqueue_.insertWeak w = .ok q) :
    q.timerfd = some w.timeout ∧ ∀ v ∈ q.entries, w.timeout ≤ v.timeout := by
  obtain ⟨-, hent, hfd⟩ := TimerQueue.insertWeak_of_ok hb.inBounds hq
  have hempty' : s.tqueue_.entries = 0 := hempty
  rw [if_pos (TimerQueue.empty_iff.mpr hempty')] at hfd
  refine ⟨hfd, fun v hv => ?_⟩
  rw [hent, hempty', Multiset.cons_zero, Multiset.mem_singleton] at hv
  rw [hv]

/-- A later timer is not armed: what matters is the value set before. -/
theorem armed_insert_next {s : TimerWorld} {w : WeakTimerHolder} {q : TimerQueue} (hb : Base s)
    (hne : s.entries ≠ 0) (hq : s.tqueue_.insertWeak w = .ok q) :
    q.timerfd = s.tqueue_.timerfd := by
  obtain ⟨-, -, hfd⟩ := TimerQueue.insertWeak_of_ok hb.inBounds hq
  rwa [if_neg fun h => hne (TimerQueue.empty_iff.mp h)] at hfd

/--
**An insert keeps the timer armed in time exactly when the new timer is not due before the
value it is armed for.**
-/
theorem armed_insert_iff {s : TimerWorld} {w : WeakTimerHolder} {q : TimerQueue} (hb : Base s)
    (ha : Armed s) (hq : s.tqueue_.insertWeak w = .ok q) :
    (∃ v, q.timerfd = some v ∧ ∀ u ∈ q.entries, v ≤ u.timeout) ↔
      (s.entries ≠ 0 → ∀ v, s.tqueue_.timerfd = some v → v ≤ w.timeout) := by
  by_cases hempty : s.entries = 0
  · obtain ⟨hfd, hle⟩ := armed_insert_first hb hempty hq
    exact ⟨fun _ hne => absurd hempty hne, fun _ => ⟨_, hfd, hle⟩⟩
  · have hfd := armed_insert_next hb hempty hq
    obtain ⟨v, hv, hle⟩ := ha hempty
    have hent := entries_insert hb hq
    constructor
    · rintro ⟨u, hu, hmin⟩ - v' hv'
      rw [hfd, hv'] at hu
      cases hu
      exact hmin w (by rw [hent]; exact Multiset.mem_cons_self w _)
    · intro hc
      refine ⟨v, by rw [hfd, hv], fun u hu => ?_⟩
      rw [hent, Multiset.mem_cons] at hu
      rcases hu with rfl | hu
      · exact hc hempty v hv
      · exact hle u hu

/-- Deleting an entry leaves the timer armed in time. -/
theorem armed_delete {s : TimerWorld} {q : TimerQueue} (hb : Base s)
    (hne : ¬s.tqueue_.queue_.empty = true) (ha : Armed s) (hq : s.tqueue_.deleteMin = .ok q) :
    ∃ v, q.timerfd = some v ∧ ∀ w ∈ q.entries, v ≤ w.timeout := by
  obtain ⟨-, hent, hfd⟩ := TimerQueue.deleteMin_of_ok hb.inBounds hne hq
  obtain ⟨v, hv, hle⟩ := ha fun h => hne (TimerQueue.empty_iff.mpr h)
  refine ⟨v, by rw [hfd, hv], fun w hw => hle w ?_⟩
  show w ∈ s.tqueue_.entries
  rw [hent]
  exact Multiset.mem_cons_of_mem hw

/-- The end of a drain arms the root, which is the earliest timer. -/
theorem armed_rearm {s : TimerWorld} {q : TimerQueue} (hs : Sorted s)
    (hq : s.tqueue_.rearm = .ok q) :
    q.entries ≠ 0 → ∃ v, q.timerfd = some v ∧ ∀ w ∈ q.entries, v ≤ w.timeout := by
  rw [TimerQueue.rearm_ok hs.base.inBounds] at hq
  cases hq
  split
  · next hempty => exact fun hne => absurd (TimerQueue.empty_iff.mp hempty) hne
  · exact fun _ => ⟨_, rfl, hs.root_le⟩

theorem Armed.step {s s' : TimerWorld} {e : TimerEvent} (hs : Sorted s) (ha : Armed s)
    (hc : NotBeforeArmed s e) (h : Stepped s e s') : Armed s' := by
  cases h with
  | skip => exact ha
  | register huser hins hids hq =>
    exact fun _ => (armed_insert_iff hs.base ha hq).mpr (hc _ hins)
  | drop => exact ha
  | enter => exact ha
  | leave hphase hwhy hq => exact armed_rearm hs hq
  | expired hphase hne hdue hlock hq => exact fun _ => armed_delete hs.base hne ha hq
  | once => exact ha
  | every hphase hne hdue hlock htimer hevery hins hq =>
    exact fun _ => (armed_insert_iff hs.base ha hq).mpr (hc _ hins)
  | returned hphase hq => exact fun _ => armed_delete hs.base (hs.base.handling _ _ _ hphase).1 ha hq

/--
**The timerfd is not late.** In a run whose inserts are in order and not due before the value
the timer is armed for, it is always armed for the earliest timeout or before it.
-/
theorem timerfd_not_late {es : List TimerEvent} {s : TimerWorld}
    (hc : Along step (fun t e => InsertsInOrder t e ∧ NotBeforeArmed t e) init es)
    (hrun : run step init es = .ok s) (hne : s.entries ≠ 0) :
    ∃ v, s.tqueue_.timerfd = some v ∧ ∀ w ∈ s.entries, v ≤ w.timeout := by
  have hstep : ∀ t e t', Sorted t ∧ Armed t → InsertsInOrder t e ∧ NotBeforeArmed t e →
      step t e = .ok t' → Sorted t' ∧ Armed t' := by
    intro t e t' hi hce hst
    have hstepped := stepped_of_step hi.1.base.inBounds hst
    exact ⟨hi.1.step hce.1 hstepped, hi.2.step hi.1 hce.2 hstepped⟩
  have hinv := run_invariant_along hstep ⟨sorted_init, armed_init⟩ hc hrun
  exact hinv.2 hne

/-- Three timers made in the order of their timeouts, and a drain that runs the first. -/
theorem timerfd_not_late_three :
    ∃ s : TimerWorld, s.tqueue_.timerfd = some ⟨6, 0⟩ ∧
      ∃ v, s.tqueue_.timerfd = some v ∧ ∀ w ∈ s.entries, v ≤ w.timeout :=
  ⟨stateAfter [.runAt 0 ⟨5, 0⟩, .runAt 1 ⟨6, 0⟩, .runAt 0 ⟨8, 0⟩, .handleTimeoutEvents ⟨5, 0⟩,
      .iterate ⟨5, 0⟩, .handlerReturned, .iterate ⟨5, 0⟩],
    by decide +kernel,
    @timerfd_not_late [.runAt 0 ⟨5, 0⟩, .runAt 1 ⟨6, 0⟩, .runAt 0 ⟨8, 0⟩,
      .handleTimeoutEvents ⟨5, 0⟩, .iterate ⟨5, 0⟩, .handlerReturned, .iterate ⟨5, 0⟩] _
      (by decide +kernel) (by decide +kernel) (by decide +kernel)⟩

/-- The second timer is due first, and the timer stays armed for the first. -/
theorem timerfd_late :
    ∃ s : TimerWorld, run step init [.runAt 0 ⟨10, 0⟩, .runAt 0 ⟨5, 0⟩] = .ok s ∧
      s.entries ≠ 0 ∧ s.tqueue_.timerfd = some ⟨10, 0⟩ ∧ ∃ w ∈ s.entries, w.timeout < ⟨10, 0⟩ :=
  ⟨stateAfter [.runAt 0 ⟨10, 0⟩, .runAt 0 ⟨5, 0⟩], by decide +kernel, by decide +kernel,
    by decide +kernel, ⟨2, ⟨5, 0⟩, some 1⟩, by decide +kernel, by decide +kernel⟩

end TimerWorld

end Liby
