import Liby.Timer.Settled

/-!
# Timers in order: what is due fires, and the timerfd is not late

`operator<` on `WeakTimerHolder` asks for an earlier timeout **and** a smaller id, so two
entries of which the younger is due earlier are not ordered at all. As long as no such pair
is in the queue, it says the same as the timeouts (`OrderedAgainst`), the heap is a heap and
its root is the earliest timer. `InsertsInOrder` is the condition on an insert that keeps it so.

`timerfd` is set only when the queue was empty and when `handleTimeoutEvents` is left.
`NotBeforeArmed` is the condition on an insert that the timer stays armed early enough.
-/

namespace Liby

open Infra

namespace WeakTimerHolder

/-- The order of the timeouts. -/
def le (a b : WeakTimerHolder) : Prop := a.timeout ≤ b.timeout

theorem le_total (a b : WeakTimerHolder) : le a b ∨ le b a :=
  LinearOrder.le_total a.timeout b.timeout

theorem le_trans (a b c : WeakTimerHolder) : le a b → le b c → le a c :=
  Preorder.le_trans a.timeout b.timeout c.timeout

theorem lt_iff {a b : WeakTimerHolder} : lt a b = true ↔ a.timeout < b.timeout ∧ a.id < b.id := by
  unfold lt
  rw [Bool.and_eq_true, Timestamp.lt_iff, decide_eq_true_eq]

/-- `operator<` says of the two what their timeouts say. -/
def OrderedAgainst (w v : WeakTimerHolder) : Prop :=
  BinaryHeap.Agree lt le w v ∧ BinaryHeap.Agree lt le v w

/-- **Of two entries with different ids, the older must not be due later.** -/
theorem orderedAgainst_of_id_lt {w v : WeakTimerHolder} (h : v.id < w.id) :
    OrderedAgainst w v ↔ v.timeout ≤ w.timeout := by
  unfold OrderedAgainst BinaryHeap.Agree le
  rw [lt_iff, lt_iff]
  constructor
  · rintro ⟨h1, -⟩
    by_contra hlt
    exact lt_asymm h (h1.mpr hlt).2
  · intro hle
    refine ⟨⟨fun hlt => absurd hlt.2 (lt_asymm h), fun hn => absurd hle hn⟩, ?_⟩
    rw [not_le]
    exact ⟨fun hlt => hlt.1, fun hlt => ⟨hlt, h⟩⟩

theorem agree_self (w : WeakTimerHolder) : BinaryHeap.Agree lt le w w := by
  unfold BinaryHeap.Agree le
  rw [lt_iff]
  simp

end WeakTimerHolder

namespace TimerWorld

open WeakTimerHolder (OrderedAgainst)

/-! ## The conditions on an insert -/

/--
The entry inserted is ordered against every entry in the queue by `operator<` as by the
timeouts; while a handler runs, its own entry is set apart and must not be due later.
-/
def InsertsInOrder (s : TimerWorld) (e : TimerEvent) : Prop :=
  ∀ w, s.inserts e = some w →
    (s.phase = .idle → ∀ v ∈ s.entries, OrderedAgainst w v) ∧
    (s.phase ≠ .idle → s.tqueue_.root.timeout ≤ w.timeout ∧
      ∀ v ∈ s.entries.erase s.tqueue_.root, OrderedAgainst w v)

instance (w v : WeakTimerHolder) : Decidable (OrderedAgainst w v) :=
  inferInstanceAs (Decidable ((WeakTimerHolder.lt w v = true ↔ ¬v.timeout ≤ w.timeout) ∧
    (WeakTimerHolder.lt v w = true ↔ ¬w.timeout ≤ v.timeout)))

instance (s : TimerWorld) (e : TimerEvent) : Decidable (InsertsInOrder s e) :=
  match h : s.inserts e with
  | none => isTrue fun w hw => by rw [h] at hw; cases hw
  | some w =>
    decidable_of_iff
      ((s.phase = .idle → ∀ v ∈ s.entries, OrderedAgainst w v) ∧
        (s.phase ≠ .idle → s.tqueue_.root.timeout ≤ w.timeout ∧
          ∀ v ∈ s.entries.erase s.tqueue_.root, OrderedAgainst w v))
      ⟨fun hc w' hw => by rw [h] at hw; cases hw; exact hc, fun hc => hc w h⟩

/-- The entry inserted is not due before the time the timerfd is set to, if it is in use. -/
def NotBeforeArmed (s : TimerWorld) (e : TimerEvent) : Prop :=
  ∀ w, s.inserts e = some w → s.entries ≠ 0 → ∀ v, s.tqueue_.timerfd = some v → v ≤ w.timeout

instance (s : TimerWorld) (e : TimerEvent) : Decidable (NotBeforeArmed s e) :=
  match h : s.inserts e with
  | none => isTrue fun w hw => by rw [h] at hw; cases hw
  | some w =>
    decidable_of_iff (s.entries ≠ 0 → ∀ v ∈ s.tqueue_.timerfd, v ≤ w.timeout)
      ⟨fun hc w' hw => by rw [h] at hw; cases hw; exact hc, fun hc => hc w h⟩

/-! ## The heap is a heap -/

/-- The queue is in heap order, and `operator<` orders what stays in it rightly. -/
structure Sorted (s : TimerWorld) : Prop where
  base : Base s
  heap : s.tqueue_.queue_.IsHeap WeakTimerHolder.le
  agree : ∀ a ∈ s.settled, ∀ b ∈ s.settled,
    BinaryHeap.Agree WeakTimerHolder.lt WeakTimerHolder.le a b

theorem sorted_init : Sorted init where
  base := base_init
  heap := fun i h2 hn => by
    have h0 : init.tqueue_.queue_.size_ = 0 := rfl
    omega
  agree := fun a ha => by
    have h0 : init.settled = 0 := BinaryHeap.contents_ofCapacity 100
    rw [h0] at ha
    simp at ha

/-- **In a sorted queue no entry is due before the root.** -/
theorem Sorted.root_le {s : TimerWorld} (h : Sorted s) :
    ∀ w ∈ s.entries, s.tqueue_.root.timeout ≤ w.timeout :=
  Infra.Heap.Ordered.root_le_cells (fun a => (WeakTimerHolder.le_total a a).elim id id)
    WeakTimerHolder.le_trans h.heap

theorem keepsRoot_of_inOrder {s : TimerWorld} {e : TimerEvent} (h : InsertsInOrder s e) :
    KeepsRoot s e := by
  intro w hw hphase
  have hle := ((h w hw).2 hphase).1
  rw [Bool.eq_false_iff, ne_eq, WeakTimerHolder.lt_iff]
  exact fun hlt => absurd hlt.1 (not_lt.mpr hle)

/-- `operator<` orders the entry inserted rightly against the whole queue, the root included. -/
theorem agree_of_inOrder {s : TimerWorld} {e : TimerEvent} {w : WeakTimerHolder}
    (h : InsertsInOrder s e) (hw : s.inserts e = some w) :
    ∀ v ∈ s.entries, BinaryHeap.Agree WeakTimerHolder.lt WeakTimerHolder.le w v := by
  intro v hv
  by_cases hphase : s.phase = .idle
  · exact ((h w hw).1 hphase v hv).1
  · obtain ⟨hroot, hrest⟩ := (h w hw).2 hphase
    rcases mem_root_or_settled hv with rfl | hv
    · have hlt := keepsRoot_of_inOrder h w hw hphase
      unfold BinaryHeap.Agree WeakTimerHolder.le
      rw [hlt]
      simpa using hroot
    · exact (hrest v hv).1

theorem agree_cons {w : WeakTimerHolder} {m : Multiset WeakTimerHolder}
    (hw : ∀ v ∈ m, OrderedAgainst w v)
    (hm : ∀ a ∈ m, ∀ b ∈ m, BinaryHeap.Agree WeakTimerHolder.lt WeakTimerHolder.le a b) :
    ∀ a ∈ w ::ₘ m, ∀ b ∈ w ::ₘ m,
      BinaryHeap.Agree WeakTimerHolder.lt WeakTimerHolder.le a b := by
  intro a ha b hb
  rw [Multiset.mem_cons] at ha hb
  rcases ha with rfl | ha
  · rcases hb with rfl | hb
    · exact WeakTimerHolder.agree_self _
    · exact (hw b hb).1
  · rcases hb with rfl | hb
    · exact (hw a ha).2
    · exact hm a ha b hb

/-- An insert in order keeps the heap. -/
theorem Sorted.insert {s : TimerWorld} {e : TimerEvent} {w : WeakTimerHolder} {q : TimerQueue}
    (h : Sorted s) (hc : InsertsInOrder s e) (hw : s.inserts e = some w)
    (hq : s.tqueue_.insertWeak w = .ok q) : q.queue_.IsHeap WeakTimerHolder.le :=
  BinaryHeap.insert_ordered WeakTimerHolder.le_total WeakTimerHolder.le_trans h.base.inBounds h.heap
    (agree_of_inOrder hc hw) (TimerQueue.insertWeak_queue hq)

/-- Deleting the root keeps the heap, when `operator<` is right about what stays. -/
theorem Sorted.delete {s : TimerWorld} {q : TimerQueue} (h : Sorted s)
    (hq : s.tqueue_.deleteMin = .ok q)
    (hagree : ∀ a ∈ q.entries, ∀ b ∈ q.entries,
      BinaryHeap.Agree WeakTimerHolder.lt WeakTimerHolder.le a b) :
    q.queue_.IsHeap WeakTimerHolder.le :=
  BinaryHeap.deleteMin_ordered WeakTimerHolder.le_total WeakTimerHolder.le_trans h.base.inBounds
    h.heap (TimerQueue.deleteMin_queue hq) hagree

theorem Sorted.step {s s' : TimerWorld} {e : TimerEvent} (h : Sorted s) (hc : InsertsInOrder s e)
    (hstep : Stepped s e s') : Sorted s' := by
  have hkeep := keepsRoot_of_inOrder hc
  have hb' := h.base.step hkeep hstep
  -- what is taken out of the settled entries leaves `operator<` right about the others
  have hsub : ∀ {m : Multiset WeakTimerHolder} {v : WeakTimerHolder}, s.settled = v ::ₘ m →
      ∀ a ∈ m, ∀ b ∈ m, BinaryHeap.Agree WeakTimerHolder.lt WeakTimerHolder.le a b := by
    intro m v hm a ha b hb
    exact h.agree a (by rw [hm]; exact Multiset.mem_cons_of_mem ha) b
      (by rw [hm]; exact Multiset.mem_cons_of_mem hb)
  cases hstep with
  | skip => exact h
  | @register _ owner timer ids q huser hins hids hq =>
    refine ⟨hb', h.insert hc hins hq, ?_⟩
    dsimp only [settled]
    rw [settled_register h.base hkeep huser hins hq]
    refine agree_cons ?_ h.agree
    obtain ⟨hidle, hbusy⟩ := hc _ hins
    cases hphase : s.phase with
    | idle =>
      rw [settled_idle (by simp [hphase])]
      exact hidle hphase
    | draining now => simp [userCode, hphase] at huser
    | handling now entry ptr =>
      rw [settled_handling hphase]
      exact (hbusy (by simp [hphase])).2
  | drop huser hins => exact ⟨hb', h.heap, h.agree⟩
  | enter hphase hne =>
    refine ⟨hb', h.heap, ?_⟩
    rw [settled_enter hphase]
    exact h.agree
  | @leave now clock q hphase hwhy hq =>
    refine ⟨hb', ?_, ?_⟩
    · show BinaryHeap.IsHeap _ q.queue_
      rw [queue_rearm h.base hq]
      exact h.heap
    · rw [settled_leave h.base hphase hq]
      exact h.agree
  | @expired now clock q hphase hne hdue hlock hq =>
    have hrest := hsub (settled_expired h.base hphase hne hq)
    exact ⟨hb', h.delete hq hrest, hrest⟩
  | once hphase hne hdue hlock htimer honce =>
    exact ⟨hb', h.heap, hsub (settled_once h.base hphase hne)⟩
  | every hphase hne hdue hlock htimer hevery hins hq =>
    refine ⟨hb', h.insert hc hins hq, ?_⟩
    obtain ⟨m, hm, hm'⟩ := settled_every h.base hkeep hphase hne hins hq
    dsimp only [settled]
    rw [hm']
    refine agree_cons (fun v hv => (hc _ hins |>.2 (by simp [hphase])).2 v ?_) (hsub hm)
    rw [settled_idle (by simp [hphase])] at hm
    rwa [hm, Multiset.erase_cons_head]
  | returned hphase hq =>
    have hrest := h.agree
    rw [settled_returned h.base hphase hq] at hrest
    exact ⟨hb', h.delete hq hrest, hrest⟩

end TimerWorld

end Liby
