import Liby.Timer.BinaryHeapSound
import Liby.Timer.TimerQueue

/-!
# What a step of the timers can do

`Stepped s e s'` lists the ways a step can go, each with what it found in `s`.
`stepped_of_step` derives it from the functions once, and every invariant is then a case
analysis on it.

`Base` is the part of the invariants that does not depend on what the timers are for: the
vector has room, every entry points to an object, and while a handler runs the root is the
entry it was called for. The last needs that nothing inserted in the meantime comes before
the root (`KeepsRoot`).
-/

namespace Liby

open Infra

/-! ## The queue functions on the entries -/

namespace TimerQueue

/-- The entries in the queue. -/
def entries (q : TimerQueue) : Multiset WeakTimerHolder := q.queue_.contents

/-- The entry at the root. -/
def root (q : TimerQueue) : WeakTimerHolder := BinaryHeap.cell q.queue_.heap 1

theorem size_ne_zero {q : TimerQueue} (h : ¬q.queue_.empty = true) : q.queue_.size_ ≠ 0 := by
  simpa [BinaryHeap.empty] using h

theorem findMin_root {q : TimerQueue} (hb : q.queue_.InBounds) (h : ¬q.queue_.empty = true) :
    q.queue_.findMin = .ok q.root ∧ q.root ∈ q.entries :=
  BinaryHeap.findMin_ok hb (size_ne_zero h)

theorem insertWeak_eq (q : TimerQueue) (w : WeakTimerHolder) :
    q.insertWeak w = (q.queue_.insert WeakTimerHolder.lt w >>= fun queue_ =>
      .ok { queue_ := queue_,
            timerfd := if q.queue_.empty then some w.timeout else q.timerfd }) := by
  unfold insertWeak
  cases q.queue_.empty <;> rfl

/-- `insertWeak` adds the entry, and arms it only if it is the first. -/
theorem insertWeak_ok {q : TimerQueue} (hb : q.queue_.InBounds) (w : WeakTimerHolder) :
    ∃ q', q.insertWeak w = .ok q' ∧ q'.queue_.InBounds ∧ q'.entries = w ::ₘ q.entries ∧
      q'.timerfd = if q.queue_.empty then some w.timeout else q.timerfd := by
  obtain ⟨h', hok, hb', hcont⟩ := BinaryHeap.insert_ok WeakTimerHolder.lt hb w
  refine ⟨⟨h', if q.queue_.empty then some w.timeout else q.timerfd⟩, ?_, hb', hcont, rfl⟩
  rw [insertWeak_eq, hok, ok_bind]

theorem insertWeak_of_ok {q q' : TimerQueue} {w : WeakTimerHolder} (hb : q.queue_.InBounds)
    (h : q.insertWeak w = .ok q') : q'.queue_.InBounds ∧ q'.entries = w ::ₘ q.entries ∧
      q'.timerfd = if q.queue_.empty then some w.timeout else q.timerfd := by
  obtain ⟨q1, hok, hq1⟩ := insertWeak_ok hb w
  cases h.symm.trans hok
  exact hq1

theorem insertWeak_queue {q q' : TimerQueue} {w : WeakTimerHolder}
    (h : q.insertWeak w = .ok q') : q.queue_.insert WeakTimerHolder.lt w = .ok q'.queue_ := by
  rw [insertWeak_eq] at h
  obtain ⟨queue_, hok, hq⟩ := bind_eq_ok.mp h
  cases hq
  exact hok

/-- An entry that does not come before the root leaves the root where it is. -/
theorem insertWeak_root {q q' : TimerQueue} {w : WeakTimerHolder} (hb : q.queue_.InBounds)
    (hne : ¬q.queue_.empty = true) (hlt : WeakTimerHolder.lt w q.root = false)
    (h : q.insertWeak w = .ok q') : q'.root = q.root :=
  BinaryHeap.insert_root hb (size_ne_zero hne) hlt (insertWeak_queue h)

theorem empty_iff {q : TimerQueue} : q.queue_.empty = true ↔ q.entries = 0 :=
  BinaryHeap.empty_iff

/-- `deleteMin` removes the root and leaves the timer armed as it was. -/
theorem deleteMin_ok {q : TimerQueue} (hb : q.queue_.InBounds) (hne : q.queue_.size_ ≠ 0) :
    ∃ q', q.deleteMin = .ok q' ∧ q'.queue_.InBounds ∧ q.entries = q.root ::ₘ q'.entries ∧
      q'.timerfd = q.timerfd := by
  obtain ⟨h', hok, hb', hcont⟩ := BinaryHeap.deleteMin_ok WeakTimerHolder.lt hb hne
  refine ⟨{ q with queue_ := h' }, ?_, hb', hcont, rfl⟩
  unfold deleteMin
  rw [hok, ok_bind]
  rfl

theorem deleteMin_of_ok {q q' : TimerQueue} (hb : q.queue_.InBounds) (hne : ¬q.queue_.empty = true)
    (h : q.deleteMin = .ok q') : q'.queue_.InBounds ∧ q.entries = q.root ::ₘ q'.entries ∧
      q'.timerfd = q.timerfd := by
  obtain ⟨q1, hok, hq1⟩ := deleteMin_ok hb (size_ne_zero hne)
  cases h.symm.trans hok
  exact hq1

theorem deleteMin_queue {q q' : TimerQueue} (h : q.deleteMin = .ok q') :
    q.queue_.deleteMin WeakTimerHolder.lt = .ok q'.queue_ := by
  unfold deleteMin at h
  obtain ⟨queue_, hok, hq⟩ := bind_eq_ok.mp h
  cases hq
  exact hok

/-- `rearm` arms the root of a queue that is not empty. -/
theorem rearm_ok {q : TimerQueue} (hb : q.queue_.InBounds) :
    q.rearm = .ok (if q.queue_.empty then q else q.updateTimerfd q.root.timeout) := by
  unfold rearm
  split
  · rfl
  · next h =>
    rw [(findMin_root hb h).1, ok_bind]
    rfl

end TimerQueue

namespace TimerWorld

/-- The entries in the queue. -/
def entries (s : TimerWorld) : Multiset WeakTimerHolder := s.tqueue_.entries

/-- The object of an entry, if it has an owner. -/
def lock (s : TimerWorld) (w : WeakTimerHolder) : Option TimerPtr := w.weakTimerPtr_.filter s.alive

theorem lock_eq_some {s : TimerWorld} {w : WeakTimerHolder} {ptr : TimerPtr} :
    s.lock w = some ptr ↔ w.weakTimerPtr_ = some ptr ∧ s.alive ptr = true := by
  unfold lock
  rw [Option.filter_eq_some_iff]

/-! ## What an event inserts -/

/-- The interval of a periodic timer whose pass comes now. -/
def periodicDue (s : TimerWorld) (now : Timestamp) : Option (TimerPtr × Timer × Timestamp) :=
  if s.tqueue_.queue_.empty || Timestamp.lt now s.tqueue_.root.timeout then none
  else
    match s.lock s.tqueue_.root with
    | none => none
    | some ptr =>
      match s.timers[ptr]? with
      | some { id_ := id_, timeout_ := timeout_, handler_ := .every timestamp } =>
        some (ptr, { id_ := id_, timeout_ := timeout_, handler_ := .every timestamp }, timestamp)
      | _ => none

/-- The entry that an event inserts. -/
def inserts (s : TimerWorld) : TimerEvent → Option WeakTimerHolder
  | .runAt _ timestamp =>
    if s.userCode then some ⟨s.timerIds_, timestamp, some s.timers.length⟩ else none
  | .runAfter _ timestamp now =>
    if s.userCode then some ⟨s.timerIds_, timestamp.add now, some s.timers.length⟩ else none
  | .runEvery _ timestamp =>
    if s.userCode then some ⟨s.timerIds_, timestamp, some s.timers.length⟩ else none
  | .insertTimer _ id timeout =>
    if s.userCode then some ⟨id, timeout, some s.timers.length⟩ else none
  | .iterate clock =>
    match s.phase with
    | .draining now =>
      (s.periodicDue now).map fun due =>
        ⟨due.2.1.id_, due.2.2.add clock, some due.1⟩
    | _ => none
  | _ => none

/-- The event numbers its timer itself. -/
def TimerEvent.ownId : TimerEvent → Prop
  | .insertTimer _ _ _ => True
  | _ => False

instance : DecidablePred TimerEvent.ownId
  | .insertTimer _ _ _ => isTrue trivial
  | .runAt _ _ | .runAfter _ _ _ | .runEvery _ _ | .cancelTimer _ _ | .cancelAllTimer _
  | .dropHolder _ | .handleTimeoutEvents _ | .iterate _ | .handlerReturned => isFalse id

/-- The holders that an event drops when user code may run. -/
def TimerEvent.drops : TimerEvent → Nat × TimerId × TimerPtr → Bool
  | .cancelTimer owner id => fun held => held.1 == owner && held.2.1 == id
  | .cancelAllTimer owner => fun held => held.1 == owner
  | .dropHolder ptr => fun held => held.2.2 == ptr
  | _ => fun _ => false

/-- An event that drops holders cancels their timers, save for `dropHolder`. -/
def TimerEvent.cancels : TimerEvent → Bool
  | .dropHolder _ => false
  | _ => true

/-- When a handler returns, the heap's vector has not grown since it was called. -/
def NotGrown (s : TimerWorld) : TimerEvent → Prop
  | .handlerReturned => s.running ≠ none → s.tqueue_.queue_.heap.length = s.minTimer
  | _ => True

instance (s : TimerWorld) : DecidablePred (NotGrown s)
  | .handlerReturned => inferInstanceAs (Decidable (_ → _))
  | .runAt _ _ | .runAfter _ _ _ | .runEvery _ _ | .insertTimer _ _ _ | .cancelTimer _ _
  | .cancelAllTimer _ | .dropHolder _ | .handleTimeoutEvents _ | .iterate _ => isTrue trivial

/-! ## The ways a step can go -/

/-- What a step found and did. -/
inductive Stepped (s : TimerWorld) : TimerEvent → TimerWorld → Prop where
  /-- The event cannot come in this phase, or finds an empty queue. -/
  | skip {e : TimerEvent} (hins : s.inserts e = none) : Stepped s e s
  /-- A new timer, with the next id or one of the caller's. -/
  | register {e : TimerEvent} {owner : Nat} {timer : Timer} {ids : TimerId} {q : TimerQueue}
      (huser : s.userCode = true)
      (hins : s.inserts e = some (WeakTimerHolder.ofTimer timer s.timers.length))
      (hids : timer.id_ = s.timerIds_ ∧ ids = s.timerIds_ + 1 ∨ TimerEvent.ownId e ∧ ids = s.timerIds_)
      (hq : s.tqueue_.insertWeak (WeakTimerHolder.ofTimer timer s.timers.length) = .ok q) :
      Stepped s e { s with
        timerIds_ := ids
        timers := s.timers ++ [timer]
        timerHolders_ := s.timerHolders_ ++ [(owner, timer.id_, s.timers.length)]
        tqueue_ := q
        log := .added s.timers.length :: s.log }
  /-- Timers are cancelled, or lose their holder otherwise. -/
  | drop {e : TimerEvent} (huser : s.userCode = true) (hins : s.inserts e = none) :
      Stepped s e (s.drop (TimerEvent.cancels e) (TimerEvent.drops e))
  /-- `handleTimeoutEvents` finds timers and reads the clock. -/
  | enter {now : Timestamp} (hphase : s.phase = .idle) (hne : ¬s.tqueue_.queue_.empty = true) :
      Stepped s (.handleTimeoutEvents now) { s with phase := .draining now }
  /-- The loop finds nothing due, and is left. -/
  | leave {now clock : Timestamp} {q : TimerQueue} (hphase : s.phase = .draining now)
      (hwhy : s.tqueue_.queue_.empty = true ∨ now < s.tqueue_.root.timeout)
      (hq : s.tqueue_.rearm = .ok q) :
      Stepped s (.iterate clock) { s with tqueue_ := q, phase := .idle }
  /-- The root is due and has no owner any more. -/
  | expired {now clock : Timestamp} {q : TimerQueue} (hphase : s.phase = .draining now)
      (hne : ¬s.tqueue_.queue_.empty = true) (hdue : s.tqueue_.root.timeout ≤ now)
      (hlock : s.lock s.tqueue_.root = none) (hq : s.tqueue_.deleteMin = .ok q) :
      Stepped s (.iterate clock) { s with
        tqueue_ := q, phase := .draining now, minTimer := s.tqueue_.queue_.heap.length }
  /-- The root is due, and the user's handler is called. -/
  | once {now clock : Timestamp} {ptr : TimerPtr} {timer : Timer}
      (hphase : s.phase = .draining now) (hne : ¬s.tqueue_.queue_.empty = true)
      (hdue : s.tqueue_.root.timeout ≤ now) (hlock : s.lock s.tqueue_.root = some ptr)
      (htimer : s.timers[ptr]? = some timer) (honce : timer.handler_ = .once) :
      Stepped s (.iterate clock) { s with
        phase := .handling now s.tqueue_.root ptr
        minTimer := s.tqueue_.queue_.heap.length
        log := .ran ptr now :: s.log }
  /-- The root is due and periodic: it is inserted again, and the user's handler is called. -/
  | every {now clock timestamp : Timestamp} {ptr : TimerPtr} {timer : Timer} {q : TimerQueue}
      (hphase : s.phase = .draining now) (hne : ¬s.tqueue_.queue_.empty = true)
      (hdue : s.tqueue_.root.timeout ≤ now) (hlock : s.lock s.tqueue_.root = some ptr)
      (htimer : s.timers[ptr]? = some timer) (hevery : timer.handler_ = .every timestamp)
      (hins : s.inserts (.iterate clock)
        = some (WeakTimerHolder.ofTimer { timer with timeout_ := timestamp.add clock } ptr))
      (hq : s.tqueue_.insertWeak
        (WeakTimerHolder.ofTimer { timer with timeout_ := timestamp.add clock } ptr) = .ok q) :
      Stepped s (.iterate clock) { s with
        timers := s.timers.set ptr { timer with timeout_ := timestamp.add clock }
        tqueue_ := q
        phase := .handling now s.tqueue_.root ptr
        minTimer := s.tqueue_.queue_.heap.length
        log := .ran ptr now :: s.log }
  /-- The handler returns, and the root is deleted. -/
  | returned {now : Timestamp} {entry : WeakTimerHolder} {ptr : TimerPtr} {q : TimerQueue}
      (hphase : s.phase = .handling now entry ptr) (hq : s.tqueue_.deleteMin = .ok q) :
      Stepped s .handlerReturned { s with tqueue_ := q, phase := .draining now }

theorem register_stepped {s s' : TimerWorld} {e : TimerEvent} {owner : Nat} {timer : Timer}
    (ids : TimerId) (huser : s.userCode = true)
    (hins : s.inserts e = some (WeakTimerHolder.ofTimer timer s.timers.length))
    (hids : timer.id_ = s.timerIds_ ∧ ids = s.timerIds_ + 1 ∨ TimerEvent.ownId e ∧ ids = s.timerIds_)
    (h : ({ s with timerIds_ := ids } : TimerWorld).register owner timer = .ok s') :
    Stepped s e s' := by
  unfold register at h
  obtain ⟨q, hq, hs⟩ := bind_eq_ok.mp h
  cases hs
  exact .register huser hins hids hq

theorem leave_stepped {s s' : TimerWorld} {now clock : Timestamp} (hphase : s.phase = .draining now)
    (hwhy : s.tqueue_.queue_.empty = true ∨ now < s.tqueue_.root.timeout)
    (h : s.leave = .ok s') : Stepped s (.iterate clock) s' := by
  unfold leave at h
  obtain ⟨q, hq, hs⟩ := bind_eq_ok.mp h
  cases hs
  exact .leave hphase hwhy hq

theorem finishPass_eq_ok {s s' : TimerWorld} {now : Timestamp} (h : s.finishPass now = .ok s') :
    s.tqueue_.queue_.heap.length = s.minTimer ∧ ∃ q, s.tqueue_.deleteMin = .ok q ∧
      s' = { s with tqueue_ := q, phase := .draining now } := by
  unfold finishPass at h
  obtain ⟨_, hguard, h⟩ := bind_eq_ok.mp h
  obtain ⟨q, hq, hs⟩ := bind_eq_ok.mp h
  cases hs
  exact ⟨guardOr_eq_ok.mp hguard, q, hq, rfl⟩

theorem iterate_stepped {s s' : TimerWorld} {now clock : Timestamp}
    (hb : s.tqueue_.queue_.InBounds) (hphase : s.phase = .draining now)
    (h : s.iterate now clock = .ok s') : Stepped s (.iterate clock) s' := by
  unfold iterate at h
  split at h
  · next hempty => exact leave_stepped hphase (Or.inl hempty) h
  · next hne =>
    rw [(TimerQueue.findMin_root hb hne).1, ok_bind] at h
    split at h
    · next hlt => exact leave_stepped hphase (Or.inr (Timestamp.lt_iff.mp hlt)) h
    · next hdue =>
      have hle : s.tqueue_.root.timeout ≤ now := by simpa using hdue
      split at h
      · next ptr hlock =>
        have hlock' : s.lock s.tqueue_.root = some ptr := hlock
        unfold runHandler at h
        obtain ⟨timer, htimer, h⟩ := bind_eq_ok.mp h
        rw [readAt_eq_ok] at htimer
        dsimp only at h
        split at h
        · next honce =>
          cases h
          exact .once hphase hne hle hlock' htimer honce
        · next timestamp hevery =>
          obtain ⟨timers, htimers, h⟩ := bind_eq_ok.mp h
          obtain ⟨q, hq, h⟩ := bind_eq_ok.mp h
          cases h
          have hptr : ptr < s.timers.length := by
            have := List.getElem?_eq_some_iff.mp htimer
            exact this.1
          rw [writeAt_of_lt hptr] at htimers
          cases htimers
          refine .every hphase hne hle hlock' htimer hevery ?_ hq
          have hcond : (s.tqueue_.queue_.empty || Timestamp.lt now s.tqueue_.root.timeout)
              = false := by
            simp [hdue, hne]
          obtain ⟨id_, timeout_, handler_⟩ := timer
          simp only at hevery
          subst hevery
          simp only [inserts, hphase, periodicDue, hcond, hlock', htimer]
          rfl
      · next hlock =>
        obtain ⟨-, q, hq, rfl⟩ := finishPass_eq_ok h
        exact .expired hphase hne hle hlock hq

/-- **Every step is one of these.** -/
theorem stepped_of_step {s s' : TimerWorld} {e : TimerEvent} (hb : s.tqueue_.queue_.InBounds)
    (h : s.step e = .ok s') : Stepped s e s' := by
  cases e with
  | runAt owner timestamp | runAfter owner timestamp now | runEvery owner timestamp =>
    dsimp only [step] at h
    split at h
    · next huser =>
      refine register_stepped (s.timerIds_ + 1) huser ?_ (Or.inl ⟨rfl, rfl⟩) h
      simp [inserts, huser, WeakTimerHolder.ofTimer]
    · next huser => cases h; exact .skip (by simp [inserts, huser])
  | insertTimer owner id timeout =>
    dsimp only [step] at h
    split at h
    · next huser =>
      obtain ⟨_, -, h⟩ := bind_eq_ok.mp h
      refine register_stepped s.timerIds_ huser ?_ (Or.inr ⟨trivial, rfl⟩) h
      simp [inserts, huser, WeakTimerHolder.ofTimer]
    · next huser => cases h; exact .skip (by simp [inserts, huser])
  | cancelTimer owner id | cancelAllTimer owner | dropHolder ptr =>
    dsimp only [step] at h
    split at h
    · next huser => cases h; exact .drop huser rfl
    · cases h; exact .skip rfl
  | handleTimeoutEvents now =>
    dsimp only [step] at h
    split at h
    · next hphase =>
      cases h
      unfold handleTimeoutEvents
      split
      · exact .skip rfl
      · next hne => exact .enter hphase hne
    · cases h; exact .skip rfl
  | iterate clock =>
    dsimp only [step] at h
    split at h
    · next now hphase => exact iterate_stepped hb hphase h
    · next hphase =>
      cases h
      exact .skip (by simp only [inserts])
  | handlerReturned =>
    dsimp only [step] at h
    split at h
    · next now entry ptr hphase =>
      obtain ⟨-, q, hq, rfl⟩ := finishPass_eq_ok h
      exact .returned hphase hq
    · cases h; exact .skip rfl

/-! ## The entries and the objects they point to -/

/-- What holds whatever the timers are for. -/
structure Base (s : TimerWorld) : Prop where
  inBounds : s.tqueue_.queue_.InBounds
  /-- Every entry points to an object. -/
  ptrs : ∀ w ∈ s.entries, ∃ ptr, w.weakTimerPtr_ = some ptr ∧ ptr < s.timers.length
  /-- While a handler runs, the root is the entry it was called for. -/
  handling : ∀ now entry ptr, s.phase = .handling now entry ptr →
    ¬s.tqueue_.queue_.empty = true ∧ s.tqueue_.root = entry ∧ entry.weakTimerPtr_ = some ptr

/-- What the event inserts does not come before the root, unless the loop is idle. -/
def KeepsRoot (s : TimerWorld) (e : TimerEvent) : Prop :=
  ∀ w, s.inserts e = some w → s.phase ≠ .idle → WeakTimerHolder.lt w s.tqueue_.root = false

theorem base_init : Base init where
  inBounds := BinaryHeap.inBounds_ofCapacity (by omega)
  ptrs := fun w hw => by
    have h0 : init.entries = 0 := BinaryHeap.contents_ofCapacity 100
    rw [h0] at hw
    simp at hw
  handling := fun now entry ptr h => by cases h

theorem not_empty_of_entries {q q' : TimerQueue} {w : WeakTimerHolder}
    (h : q'.entries = w ::ₘ q.entries) : ¬q'.queue_.empty = true := by
  rw [TimerQueue.empty_iff, h]
  exact Multiset.cons_ne_zero

theorem Base.step {s s' : TimerWorld} {e : TimerEvent} (hb : Base s) (hroot : KeepsRoot s e)
    (h : Stepped s e s') : Base s' := by
  cases h with
  | skip => exact hb
  | @register _ owner timer ids q huser hins hids hq =>
    obtain ⟨hin, hent, -⟩ := TimerQueue.insertWeak_of_ok hb.inBounds hq
    refine ⟨hin, fun w hw => ?_, fun now entry ptr hphase => ?_⟩
    · have hw : w ∈ q.entries := hw
      rw [hent, Multiset.mem_cons] at hw
      rw [List.length_append]
      rcases hw with rfl | hw
      · exact ⟨_, rfl, by simp⟩
      · obtain ⟨ptr, hptr, hlt⟩ := hb.ptrs w hw
        exact ⟨ptr, hptr, Nat.lt_add_right _ hlt⟩
    · obtain ⟨hne, hr, hptr⟩ := hb.handling now entry ptr hphase
      have hphase : s.phase = .handling now entry ptr := hphase
      refine ⟨not_empty_of_entries hent, ?_, hptr⟩
      rw [← hr]
      exact TimerQueue.insertWeak_root hb.inBounds hne (hroot _ hins (by simp [hphase])) hq
  | drop => exact ⟨hb.inBounds, hb.ptrs, hb.handling⟩
  | enter hphase hne => exact ⟨hb.inBounds, hb.ptrs, fun now entry ptr h => by cases h⟩
  | leave hphase hwhy hq =>
    rw [TimerQueue.rearm_ok hb.inBounds] at hq
    cases hq
    refine ⟨?_, fun w hw => hb.ptrs w ?_, fun now entry ptr h => by cases h⟩
    · show (ite _ _ _ : TimerQueue).queue_.InBounds
      split <;> exact hb.inBounds
    · have hw : w ∈ (ite _ _ _ : TimerQueue).entries := hw
      split at hw <;> exact hw
  | expired hphase hne hdue hlock hq =>
    obtain ⟨hin, hent, -⟩ := TimerQueue.deleteMin_of_ok hb.inBounds hne hq
    refine ⟨hin, fun w hw => hb.ptrs w ?_, fun now entry ptr h => by cases h⟩
    show w ∈ s.tqueue_.entries
    rw [hent]
    exact Multiset.mem_cons_of_mem hw
  | @once now clock ptr timer hphase hne hdue hlock htimer honce =>
    refine ⟨hb.inBounds, hb.ptrs, fun now' entry ptr' h => ?_⟩
    cases h
    exact ⟨hne, rfl, (lock_eq_some.mp hlock).1⟩
  | @every now clock timestamp ptr timer q hphase hne hdue hlock htimer hevery hins hq =>
    obtain ⟨hin, hent, -⟩ := TimerQueue.insertWeak_of_ok hb.inBounds hq
    refine ⟨hin, fun w hw => ?_, fun now' entry ptr' h => ?_⟩
    · have hw : w ∈ q.entries := hw
      rw [List.length_set]
      rw [hent, Multiset.mem_cons] at hw
      rcases hw with rfl | hw
      · exact ⟨ptr, rfl, (List.getElem?_eq_some_iff.mp htimer).1⟩
      · exact hb.ptrs w hw
    · cases h
      refine ⟨not_empty_of_entries hent, ?_, (lock_eq_some.mp hlock).1⟩
      exact TimerQueue.insertWeak_root hb.inBounds hne (hroot _ hins (by simp [hphase])) hq
  | @returned now entry ptr q hphase hq =>
    obtain ⟨hne, -, -⟩ := hb.handling now entry ptr hphase
    obtain ⟨hin, hent, -⟩ := TimerQueue.deleteMin_of_ok hb.inBounds hne hq
    refine ⟨hin, fun w hw => hb.ptrs w ?_, fun now entry ptr h => by cases h⟩
    show w ∈ s.tqueue_.entries
    rw [hent]
    exact Multiset.mem_cons_of_mem hw

/-! ## When a step faults -/

theorem register_ok {s : TimerWorld} (hb : s.tqueue_.queue_.InBounds) (owner : Nat)
    (timer : Timer) : ∃ s', s.register owner timer = .ok s' := by
  obtain ⟨q, hq, -⟩ := TimerQueue.insertWeak_ok hb (WeakTimerHolder.ofTimer timer s.timers.length)
  unfold register
  dsimp only
  rw [hq, ok_bind]
  exact ⟨_, rfl⟩

theorem finishPass_ok {s : TimerWorld} (hb : s.tqueue_.queue_.InBounds)
    (hne : ¬s.tqueue_.queue_.empty = true) (hlen : s.tqueue_.queue_.heap.length = s.minTimer)
    (now : Timestamp) : ∃ s', s.finishPass now = .ok s' := by
  obtain ⟨q, hq, -⟩ := TimerQueue.deleteMin_ok hb (TimerQueue.size_ne_zero hne)
  unfold finishPass
  rw [guardOr_pos hlen, ok_bind, hq, ok_bind]
  exact ⟨_, rfl⟩

theorem leave_ok {s : TimerWorld} (hb : s.tqueue_.queue_.InBounds) : ∃ s', s.leave = .ok s' := by
  unfold leave
  rw [TimerQueue.rearm_ok hb, ok_bind]
  exact ⟨_, rfl⟩

theorem iterate_ok {s : TimerWorld} (hb : Base s) (now clock : Timestamp) :
    ∃ s', s.iterate now clock = .ok s' := by
  unfold iterate
  split
  · exact leave_ok hb.inBounds
  · next hne =>
    obtain ⟨hmin, hmem⟩ := TimerQueue.findMin_root hb.inBounds hne
    rw [hmin, ok_bind]
    split
    · exact leave_ok hb.inBounds
    · split
      · next ptr hlock =>
        obtain ⟨_, hptr, hlt⟩ := hb.ptrs _ hmem
        rw [(lock_eq_some.mp (show s.lock s.tqueue_.root = some ptr from hlock)).1] at hptr
        cases hptr
        unfold runHandler
        dsimp only
        rw [readAt_of_lt hlt, ok_bind]
        split
        · exact ⟨_, rfl⟩
        · next timestamp _ =>
          obtain ⟨q, hq, -⟩ := TimerQueue.insertWeak_ok hb.inBounds
            (WeakTimerHolder.ofTimer { s.timers[ptr] with timeout_ := timestamp.add clock } ptr)
          rw [writeAt_of_lt hlt, ok_bind, hq, ok_bind]
          exact ⟨_, rfl⟩
      · exact finishPass_ok (s := { s with minTimer := s.tqueue_.queue_.heap.length }) hb.inBounds hne rfl now

/-- The event does not ask for a timer of id 0. -/
def TimerEvent.valid : TimerEvent → Prop
  | .insertTimer _ id _ => id ≠ 0
  | _ => True

theorem TimerEvent.valid_of_not_ownId {e : TimerEvent} (h : ¬TimerEvent.ownId e) :
    TimerEvent.valid e := by
  cases e with
  | insertTimer => exact absurd trivial h
  | runAt | runAfter | runEvery | cancelTimer | cancelAllTimer | dropHolder | handleTimeoutEvents
  | iterate | handlerReturned => exact trivial

/-- A step returns, save for the exception on a timer id of zero and a reference that dangles. -/
theorem step_ok {s : TimerWorld} (hb : Base s) {e : TimerEvent} (hv : TimerEvent.valid e)
    (hgrown : NotGrown s e) : ∃ s', s.step e = .ok s' := by
  cases e with
  | runAt owner timestamp | runAfter owner timestamp now | runEvery owner timestamp =>
    dsimp only [step]
    split
    · exact register_ok (s := s.nextId) hb.inBounds _ _
    · exact ⟨s, rfl⟩
  | insertTimer owner id timeout =>
    have hid : id ≠ 0 := hv
    dsimp only [step]
    split
    · unfold insertTimer
      rw [guardOr_pos hid, ok_bind]
      exact register_ok hb.inBounds _ _
    · exact ⟨s, rfl⟩
  | cancelTimer | cancelAllTimer | dropHolder | handleTimeoutEvents =>
    dsimp only [step]
    split <;> exact ⟨_, rfl⟩
  | iterate clock =>
    dsimp only [step]
    split
    · exact iterate_ok hb _ _
    · exact ⟨s, rfl⟩
  | handlerReturned =>
    dsimp only [step]
    split
    · next now entry ptr hphase =>
      have hlen := hgrown (by simp [running, hphase])
      exact finishPass_ok hb.inBounds (hb.handling _ _ _ hphase).1 hlen now
    · exact ⟨s, rfl⟩

/-- **A step returns exactly if no reference dangles.** -/
theorem step_ok_iff {s : TimerWorld} (hb : Base s) {e : TimerEvent} (hv : TimerEvent.valid e) :
    (∃ s', s.step e = .ok s') ↔ NotGrown s e := by
  refine ⟨fun ⟨s', hs'⟩ => ?_, step_ok hb hv⟩
  cases e with
  | handlerReturned =>
    intro hrunning
    dsimp only [step] at hs'
    split at hs'
    · exact (finishPass_eq_ok hs').1
    · next hphase =>
      have hnone : s.running = none := by
        unfold running
        split
        · next now entry ptr hp => exact absurd hp (hphase now entry ptr)
        · rfl
      exact absurd hnone hrunning
  | runAt | runAfter | runEvery | insertTimer | cancelTimer | cancelAllTimer | dropHolder
  | handleTimeoutEvents | iterate => exact trivial

end TimerWorld

end Liby
