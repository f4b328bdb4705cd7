import Liby.Timer.TimerStep

/-!
# The entries that stay

While a handler runs, the entry it was called for is still at the root, and `delete_min` will
take it. `settled` is the queue without that entry, so what a step does to the queue is one of
three: nothing, an entry more, or an entry less.
-/

namespace Liby

open Infra

namespace TimerWorld

/-- The entries of a queue, without the root if its handler runs. -/
def settledIn (q : TimerQueue) : TimerPhase → Multiset WeakTimerHolder
  | .handling _ _ _ => q.entries.erase q.root
  | _ => q.entries

/-- The entries that stay when the one whose handler runs is set apart. -/
def settled (s : TimerWorld) : Multiset WeakTimerHolder := settledIn s.tqueue_ s.phase

theorem settled_idle {s : TimerWorld} (h : ∀ now entry ptr, s.phase ≠ .handling now entry ptr) :
    s.settled = s.entries := by
  unfold settled settledIn
  split
  · next hphase => exact absurd hphase (h _ _ _)
  · rfl

theorem settled_handling {s : TimerWorld} {now : Timestamp} {entry : WeakTimerHolder}
    {ptr : TimerPtr} (h : s.phase = .handling now entry ptr) :
    s.settled = s.entries.erase s.tqueue_.root := by
  unfold settled
  rw [h]
  rfl

theorem settled_le (s : TimerWorld) : s.settled ≤ s.entries := by
  unfold settled settledIn
  split
  · exact Multiset.erase_le _ _
  · exact le_rfl

/-- What is in the queue: the root, and what stays when it is set apart. -/
theorem mem_root_or_settled {s : TimerWorld} {v : WeakTimerHolder} (hv : v ∈ s.entries) :
    v = s.tqueue_.root ∨ v ∈ s.entries.erase s.tqueue_.root := by
  by_cases h : v = s.tqueue_.root
  · exact Or.inl h
  · exact Or.inr ((Multiset.mem_erase_of_ne h).mpr hv)

/-! ## The queue functions on the entries of a state -/

theorem root_mem {s : TimerWorld} (hb : Base s) (hne : ¬s.tqueue_.queue_.empty = true) :
    s.tqueue_.root ∈ s.entries := (TimerQueue.findMin_root hb.inBounds hne).2

theorem entries_insert {s : TimerWorld} {w : WeakTimerHolder} {q : TimerQueue} (hb : Base s)
    (hq : s.tqueue_.insertWeak w = .ok q) : q.entries = w ::ₘ s.entries :=
  (TimerQueue.insertWeak_of_ok hb.inBounds hq).2.1

theorem entries_delete {s : TimerWorld} {q : TimerQueue} (hb : Base s)
    (hne : ¬s.tqueue_.queue_.empty = true) (hq : s.tqueue_.deleteMin = .ok q) :
    s.entries = s.tqueue_.root ::ₘ q.entries :=
  (TimerQueue.deleteMin_of_ok hb.inBounds hne hq).2.1

theorem queue_rearm {s : TimerWorld} {q : TimerQueue} (hb : Base s)
    (hq : s.tqueue_.rearm = .ok q) : q.queue_ = s.tqueue_.queue_ := by
  rw [TimerQueue.rearm_ok hb.inBounds] at hq
  cases hq
  split <;> rfl

/-! ## What each step does to the entries that stay -/

/-- What stays grows by the entry inserted, whether the root is set apart or not. -/
theorem settled_insert {s : TimerWorld} {w : WeakTimerHolder} {q : TimerQueue}
    {phase : TimerPhase} (hb : Base s) (hmem : phase ≠ .idle → s.tqueue_.root ∈ s.entries)
    (hroot : phase ≠ .idle → q.root = s.tqueue_.root) (hq : s.tqueue_.insertWeak w = .ok q) :
    settledIn q phase = w ::ₘ settledIn s.tqueue_ phase := by
  have hent := entries_insert hb hq
  cases phase with
  | idle => exact hent
  | draining now => exact hent
  | handling now entry ptr =>
    show q.entries.erase q.root = w ::ₘ s.entries.erase s.tqueue_.root
    rw [hroot (by simp), hent]
    conv_lhs => rw [← Multiset.cons_erase (hmem (by simp)), Multiset.cons_swap]
    exact Multiset.erase_cons_head _ _

/-- User code that inserts runs outside the loop, or while the root is set apart. -/
theorem settled_register {s : TimerWorld} {e : TimerEvent} {w : WeakTimerHolder} {q : TimerQueue}
    (hb : Base s) (hkeep : KeepsRoot s e) (huser : s.userCode = true)
    (hins : s.inserts e = some w) (hq : s.tqueue_.insertWeak w = .ok q) :
    settledIn q s.phase = w ::ₘ s.settled := by
  have hne : s.phase ≠ .idle → ¬s.tqueue_.queue_.empty = true := by
    intro hphase
    cases hp : s.phase with
    | idle => exact absurd hp hphase
    | draining now => simp [userCode, hp] at huser
    | handling now entry ptr => exact (hb.handling now entry ptr hp).1
  exact settled_insert hb (fun hp => root_mem hb (hne hp))
    (fun hp => TimerQueue.insertWeak_root hb.inBounds (hne hp) (hkeep w hins hp) hq) hq

theorem settled_enter {s : TimerWorld} {now : Timestamp} (hphase : s.phase = .idle) :
    settled { s with phase := .draining now } = s.settled := by
  rw [settled_idle (s := s) (by simp [hphase])]
  rfl

theorem settled_leave {s : TimerWorld} {now : Timestamp} {q : TimerQueue} (hb : Base s)
    (hphase : s.phase = .draining now) (hq : s.tqueue_.rearm = .ok q) :
    settled { s with tqueue_ := q, phase := .idle } = s.settled := by
  rw [settled_idle (s := s) (by simp [hphase])]
  show BinaryHeap.contents q.queue_ = _
  rw [queue_rearm hb hq]
  rfl

theorem settled_expired {s : TimerWorld} {now : Timestamp} {q : TimerQueue} (hb : Base s)
    (hphase : s.phase = .draining now) (hne : ¬s.tqueue_.queue_.empty = true)
    (hq : s.tqueue_.deleteMin = .ok q) : s.settled = s.tqueue_.root ::ₘ q.entries := by
  rw [settled_idle (by simp [hphase])]
  exact entries_delete hb hne hq

/-- A handler that is called has its entry set apart. -/
theorem settled_once {s : TimerWorld} {now : Timestamp} (hb : Base s)
    (hphase : s.phase = .draining now) (hne : ¬s.tqueue_.queue_.empty = true) :
    s.settled = s.tqueue_.root ::ₘ s.entries.erase s.tqueue_.root := by
  rw [settled_idle (by simp [hphase]), Multiset.cons_erase (root_mem hb hne)]

/-- A periodic timer has its entry set apart, and another one put in. -/
theorem settled_every {s : TimerWorld} {e : TimerEvent} {now : Timestamp} {w : WeakTimerHolder}
    {q : TimerQueue} (hb : Base s) (hkeep : KeepsRoot s e) (hphase : s.phase = .draining now)
    (hne : ¬s.tqueue_.queue_.empty = true) (hins : s.inserts e = some w)
    (hq : s.tqueue_.insertWeak w = .ok q) :
    ∃ m, s.settled = s.tqueue_.root ::ₘ m ∧ ∀ now' entry ptr,
      settledIn q (.handling now' entry ptr) = w ::ₘ m := by
  refine ⟨_, settled_once hb hphase hne, fun now' entry ptr => ?_⟩
  exact settled_insert hb (fun _ => root_mem hb hne)
    (fun _ => TimerQueue.insertWeak_root hb.inBounds hne (hkeep w hins (by simp [hphase])) hq) hq

/-- The entry that `delete_min` takes was set apart. -/
theorem settled_returned {s : TimerWorld} {now : Timestamp} {entry : WeakTimerHolder}
    {ptr : TimerPtr} {q : TimerQueue} (hb : Base s) (hphase : s.phase = .handling now entry ptr)
    (hq : s.tqueue_.deleteMin = .ok q) : s.settled = q.entries := by
  rw [settled_handling hphase, entries_delete hb (hb.handling now entry ptr hphase).1 hq,
    Multiset.erase_cons_head]

end TimerWorld

end Liby
