import Liby.Timer.Settled

/-!
# One-shot timers run once

In a run whose timers are numbered by the counter, a re-inserted or younger entry never comes
before the root, so `delete_min` takes the entry it is meant for. From that, a timer made by
`runAt` or `runAfter` is counted once: either its handler has been run, or it waits in the
queue, or its holder is gone.

`calls` is what can be seen of a run from outside: the handlers that the loop calls. The results
are about it and about the calls of the user; the log is only a means to count.
-/

namespace Liby

open Infra

/-- The object that the log entry is about. -/
def TimerLog.ptr : TimerLog → TimerPtr
  | .added ptr => ptr
  | .ran ptr _ => ptr
  | .cancelled ptr => ptr
  | .dropped ptr => ptr

/-- The entry says that the handler of `ptr` was run. -/
def TimerLog.isRun (ptr : TimerPtr) : TimerLog → Bool
  | .ran ptr' _ => ptr' == ptr
  | _ => false

@[simp] theorem TimerLog.released_ptr (cancel : Bool) (ptr : TimerPtr) :
    (TimerLog.released cancel ptr).ptr = ptr := by
  cases cancel <;> rfl

@[simp] theorem TimerLog.released_ne_ran {cancel : Bool} {ptr p : TimerPtr} {now : Timestamp} :
    TimerLog.released cancel ptr ≠ .ran p now := by
  cases cancel <;> simp [TimerLog.released]

@[simp] theorem TimerLog.released_ne_added {cancel : Bool} {ptr p : TimerPtr} :
    TimerLog.released cancel ptr ≠ .added p := by
  cases cancel <;> simp [TimerLog.released]

theorem TimerLog.released_inj {cancel cancel' : Bool} {ptr p : TimerPtr}
    (h : TimerLog.released cancel ptr = TimerLog.released cancel' p) : ptr = p := by
  have hptr := congrArg TimerLog.ptr h
  simpa using hptr

namespace TimerWorld

/-- How often the handler of `ptr` was run. -/
def runs (s : TimerWorld) (ptr : TimerPtr) : Nat := s.log.countP (TimerLog.isRun ptr)

/-- How many entries of `ptr` wait for their time. -/
def waiting (s : TimerWorld) (ptr : TimerPtr) : Nat :=
  s.settled.countP (fun w => w.weakTimerPtr_ = some ptr)

/-- The objects that have a holder. -/
def held (s : TimerWorld) : List TimerPtr := s.timerHolders_.map fun holder => holder.2.2

/-- `ptr` is a timer of `runAt` or `runAfter`. -/
def IsOnce (s : TimerWorld) (ptr : TimerPtr) (timer : Timer) : Prop :=
  s.timers[ptr]? = some timer ∧ timer.handler_ = .once

/-- The holder of `ptr` is gone. -/
def Released (s : TimerWorld) (ptr : TimerPtr) : Prop := ∃ cancel, .released cancel ptr ∈ s.log

/-- Nothing is run after its holder is gone, in a log with the last event first. -/
def NotAfterCancel (log : List TimerLog) : Prop :=
  log.Pairwise fun later earlier =>
    ∀ ptr now cancel, later = .ran ptr now → earlier ≠ .released cancel ptr

/-- What the run has kept track of. -/
structure Tracked (s : TimerWorld) : Prop where
  base : Base s
  /-- The counter is ahead of every id given. -/
  ids : ∀ timer ∈ s.timers, timer.id_ < s.timerIds_
  /-- An entry is a copy of its timer, save that a periodic timer has moved on. -/
  copies : ∀ w ∈ s.entries, ∀ ptr, w.weakTimerPtr_ = some ptr → ∃ timer,
    s.timers[ptr]? = some timer ∧ w.id = timer.id_ ∧
      (timer.handler_ = .once → w.timeout = timer.timeout_)
  logged : ∀ l ∈ s.log, l.ptr < s.timers.length
  nodup : s.held.Nodup
  /-- A timer is held until its holder goes. -/
  owned : ∀ ptr, ptr ∈ s.held ↔ ptr < s.timers.length ∧ ¬s.Released ptr
  /-- A one-shot timer has run or waits, and not both. -/
  counted : ∀ ptr timer, s.IsOnce ptr timer → s.runs ptr + s.waiting ptr ≤ 1 ∧
    (¬s.Released ptr → s.runs ptr + s.waiting ptr = 1)
  due : ∀ ptr timer now, s.IsOnce ptr timer → .ran ptr now ∈ s.log → timer.timeout_ ≤ now
  order : NotAfterCancel s.log

/-! ## The root stays while a handler runs -/

theorem periodicDue_eq_some {s : TimerWorld} {now timestamp : Timestamp} {ptr : TimerPtr}
    {timer : Timer} (h : s.periodicDue now = some (ptr, timer, timestamp)) :
    ¬s.tqueue_.queue_.empty = true ∧ s.lock s.tqueue_.root = some ptr ∧
      s.timers[ptr]? = some timer := by
  unfold periodicDue at h
  split at h
  · cases h
  · next hcond =>
    split at h
    · cases h
    · next p hlock =>
      split at h
      · next id_ timeout_ ts htimer =>
        cases h
        exact ⟨by simp_all, hlock, htimer⟩
      · cases h

theorem Tracked.id_lt {s : TimerWorld} (h : Tracked s) : ∀ w ∈ s.entries, w.id < s.timerIds_ := by
  intro w hw
  obtain ⟨ptr, hptr, -⟩ := h.base.ptrs w hw
  obtain ⟨timer, htimer, hid, -⟩ := h.copies w hw ptr hptr
  rw [hid]
  exact h.ids timer (List.mem_of_getElem? htimer)

/-- An id of the counter is larger than the root's, and a periodic timer has the root's own. -/
theorem Tracked.keepsRoot {s : TimerWorld} (h : Tracked s) {e : TimerEvent}
    (he : ¬TimerEvent.ownId e) : KeepsRoot s e := by
  have hfresh : ∀ timeout ptr, s.userCode = true → s.phase ≠ .idle →
      WeakTimerHolder.lt ⟨s.timerIds_, timeout, ptr⟩ s.tqueue_.root = false := by
    intro timeout ptr huser hphase
    cases hp : s.phase with
    | idle => exact absurd hp hphase
    | draining now => simp [userCode, hp] at huser
    | handling now entry p =>
      have hlt := h.id_lt _ (root_mem h.base (h.base.handling now entry p hp).1)
      unfold WeakTimerHolder.lt
      rw [Bool.and_eq_false_iff]
      exact Or.inr (decide_eq_false (lt_asymm hlt))
  intro w hw hphase
  cases e with
  | runAt owner timestamp =>
    simp only [inserts, Option.ite_none_right_eq_some] at hw
    obtain ⟨huser, hw⟩ := hw
    cases hw
    exact hfresh _ _ huser hphase
  | runAfter owner timestamp now =>
    simp only [inserts, Option.ite_none_right_eq_some] at hw
    obtain ⟨huser, hw⟩ := hw
    cases hw
    exact hfresh _ _ huser hphase
  | runEvery owner timestamp =>
    simp only [inserts, Option.ite_none_right_eq_some] at hw
    obtain ⟨huser, hw⟩ := hw
    cases hw
    exact hfresh _ _ huser hphase
  | insertTimer => exact absurd trivial he
  | iterate clock =>
    dsimp only [inserts] at hw
    split at hw
    · next now hp =>
      obtain ⟨⟨ptr, timer, timestamp⟩, hdue, hw⟩ := Option.map_eq_some_iff.mp hw
      obtain ⟨hne, hlock, htimer⟩ := periodicDue_eq_some hdue
      obtain ⟨t, ht, hid, -⟩ :=
        h.copies _ (root_mem h.base hne) ptr (lock_eq_some.mp hlock).1
      rw [htimer] at ht
      cases ht
      subst hw
      unfold WeakTimerHolder.lt
      rw [hid]
      simp
    · cases hw
  | cancelTimer | cancelAllTimer | dropHolder | handleTimeoutEvents | handlerReturned => cases hw

/-! ## What one step keeps -/

theorem alive_draining {s : TimerWorld} {now : Timestamp} (hphase : s.phase = .draining now)
    (ptr : TimerPtr) : s.alive ptr = true ↔ ptr ∈ s.held := by
  simp [alive, running, hphase, held]

/-- A timer that a handler is called for has a holder. -/
theorem Tracked.lock_draining {s : TimerWorld} (h : Tracked s) {now : Timestamp}
    (hphase : s.phase = .draining now) {w : WeakTimerHolder} {ptr : TimerPtr}
    (hlock : s.lock w = some ptr) : ¬s.Released ptr := by
  have hheld := (alive_draining hphase ptr).mp (lock_eq_some.mp hlock).2
  exact ((h.owned ptr).mp hheld).2

theorem Tracked.ptr_lt {s : TimerWorld} (h : Tracked s) {w : WeakTimerHolder}
    (hw : w ∈ s.entries) {ptr : TimerPtr} (hptr : w.weakTimerPtr_ = some ptr) :
    ptr < s.timers.length := by
  obtain ⟨p, hp, hlt⟩ := h.base.ptrs w hw
  rw [hptr] at hp
  cases hp
  exact hlt

theorem ids_append {s : TimerWorld} {timer : Timer} {e : TimerEvent} {ids : TimerId}
    (h : ∀ t ∈ s.timers, t.id_ < s.timerIds_) (he : ¬TimerEvent.ownId e)
    (hids : timer.id_ = s.timerIds_ ∧ ids = s.timerIds_ + 1 ∨ TimerEvent.ownId e ∧ ids = s.timerIds_) :
    ∀ t ∈ s.timers ++ [timer], t.id_ < ids := by
  obtain ⟨hid, rfl⟩ | ⟨hown, -⟩ := hids
  · intro t ht
    rcases List.mem_append.mp ht with ht | ht
    · exact Nat.lt_succ_of_lt (h t ht)
    · rw [List.mem_singleton.mp ht, hid]
      exact Nat.lt_succ_self _
  · exact absurd hown he

theorem Tracked.ids_step {s s' : TimerWorld} {e : TimerEvent} (h : Tracked s)
    (he : ¬TimerEvent.ownId e) (hstep : Stepped s e s') : ∀ t ∈ s'.timers, t.id_ < s'.timerIds_ := by
  cases hstep with
  | register huser hins hids hq => exact ids_append h.ids he hids
  | every hphase hne hdue hlock htimer hevery hins hq =>
    intro t ht
    rcases List.mem_or_eq_of_mem_set ht with ht | rfl
    · exact h.ids t ht
    · have hold := h.ids _ (List.mem_of_getElem? htimer)
      exact hold
  | skip | drop | enter | leave | expired | once | returned => exact h.ids

/-- A copy of a timer is still one when timers are made after it. -/
theorem copies_append {timers : List Timer} {timer : Timer} {w : WeakTimerHolder} {ptr : TimerPtr}
    (h : ∃ t, timers[ptr]? = some t ∧ w.id = t.id_ ∧ (t.handler_ = .once → w.timeout = t.timeout_)) :
    ∃ t, (timers ++ [timer])[ptr]? = some t ∧ w.id = t.id_ ∧
      (t.handler_ = .once → w.timeout = t.timeout_) := by
  obtain ⟨t, ht, hcopy⟩ := h
  exact ⟨t, List.getElem?_append_left (List.getElem?_eq_some_iff.mp ht).1 ▸ ht, hcopy⟩

/-- A copy of a timer is still one when a periodic timer has moved on. -/
theorem copies_set {timers : List Timer} {timer : Timer} {timestamp timeout : Timestamp}
    {w : WeakTimerHolder} {p ptr : TimerPtr} (hp : timers[p]? = some timer)
    (hevery : timer.handler_ = .every timestamp)
    (h : ∃ t, timers[ptr]? = some t ∧ w.id = t.id_ ∧ (t.handler_ = .once → w.timeout = t.timeout_)) :
    ∃ t, (timers.set p { timer with timeout_ := timeout })[ptr]? = some t ∧ w.id = t.id_ ∧
      (t.handler_ = .once → w.timeout = t.timeout_) := by
  obtain ⟨t, ht, hcopy⟩ := h
  by_cases hpp : p = ptr
  · subst hpp
    rw [hp] at ht
    cases ht
    refine ⟨_, List.getElem?_set_self (List.getElem?_eq_some_iff.mp hp).1, hcopy.1, fun honce => ?_⟩
    rw [hevery] at honce
    cases honce
  · exact ⟨t, by rw [List.getElem?_set_ne hpp]; exact ht, hcopy⟩

theorem Tracked.copies_step {s s' : TimerWorld} {e : TimerEvent} (h : Tracked s)
    (hstep : Stepped s e s') : ∀ w ∈ s'.entries, ∀ ptr, w.weakTimerPtr_ = some ptr → ∃ timer,
      s'.timers[ptr]? = some timer ∧ w.id = timer.id_ ∧
        (timer.handler_ = .once → w.timeout = timer.timeout_) := by
  have hdel : ∀ {q : TimerQueue}, ¬s.tqueue_.queue_.empty = true → s.tqueue_.deleteMin = .ok q →
      ∀ w ∈ q.entries, w ∈ s.entries := by
    intro q hne hq w hw
    rw [entries_delete h.base hne hq]
    exact Multiset.mem_cons_of_mem hw
  cases hstep with
  | @register _ owner timer ids q huser hins hids hq =>
    intro w hw ptr hptr
    have hw : w ∈ q.entries := hw
    rw [entries_insert h.base hq, Multiset.mem_cons] at hw
    rcases hw with rfl | hw
    · cases hptr
      exact ⟨timer, List.getElem?_concat_length, rfl, fun _ => rfl⟩
    · exact copies_append (h.copies w hw ptr hptr)
  | @every now clock timestamp p timer q hphase hne hdue hlock htimer hevery hins hq =>
    intro w hw ptr hptr
    have hw : w ∈ q.entries := hw
    rw [entries_insert h.base hq, Multiset.mem_cons] at hw
    rcases hw with rfl | hw
    · cases hptr
      exact ⟨_, List.getElem?_set_self (List.getElem?_eq_some_iff.mp htimer).1, rfl, fun _ => rfl⟩
    · exact copies_set htimer hevery (h.copies w hw ptr hptr)
  | leave hphase hwhy hq =>
    intro w hw
    have hw : w ∈ BinaryHeap.contents (TimerQueue.queue_ _) := hw
    rw [queue_rearm h.base hq] at hw
    exact h.copies w hw
  | expired hphase hne hdue hlock hq => exact fun w hw => h.copies w (hdel hne hq w hw)
  | returned hphase hq =>
    exact fun w hw => h.copies w (hdel (h.base.handling _ _ _ hphase).1 hq w hw)
  | skip | drop | enter | once => exact h.copies

theorem length_le_step {s s' : TimerWorld} {e : TimerEvent} (hstep : Stepped s e s') :
    s.timers.length ≤ s'.timers.length := by
  cases hstep with
  | register => simp
  | every => simp
  | skip | drop | enter | leave | expired | once | returned => exact le_rfl

theorem Tracked.logged_drop {s : TimerWorld} (h : Tracked s) (cancel : Bool)
    (which : Nat × TimerId × TimerPtr → Bool) :
    ∀ l ∈ (s.drop cancel which).log, l.ptr < s.timers.length := by
  intro l hl
  rcases List.mem_append.mp hl with hl | hl
  · obtain ⟨holder, hmem, rfl⟩ := List.mem_map.mp hl
    have hheld : holder.2.2 ∈ s.held :=
      List.mem_map.mpr ⟨holder, (List.mem_filter.mp hmem).1, rfl⟩
    rw [TimerLog.released_ptr]
    exact ((h.owned _).mp hheld).1
  · exact h.logged l hl

theorem Tracked.logged_step {s s' : TimerWorld} {e : TimerEvent} (h : Tracked s)
    (hstep : Stepped s e s') : ∀ l ∈ s'.log, l.ptr < s'.timers.length := by
  have hold : ∀ l ∈ s.log, l.ptr < s'.timers.length :=
    fun l hl => lt_of_lt_of_le (h.logged l hl) (length_le_step hstep)
  cases hstep with
  | register =>
    refine List.forall_mem_cons.mpr ⟨?_, hold⟩
    simp [TimerLog.ptr]
  | once hphase hne hdue hlock =>
    exact List.forall_mem_cons.mpr ⟨h.ptr_lt (root_mem h.base hne) (lock_eq_some.mp hlock).1, hold⟩
  | every hphase hne hdue hlock =>
    refine List.forall_mem_cons.mpr ⟨?_, hold⟩
    simpa [TimerLog.ptr] using h.ptr_lt (root_mem h.base hne) (lock_eq_some.mp hlock).1
  | drop => exact h.logged_drop _ _
  | skip | enter | leave | expired | returned => exact hold

theorem Tracked.not_logged {s : TimerWorld} (h : Tracked s) {l : TimerLog}
    (hl : l.ptr = s.timers.length) : l ∉ s.log :=
  fun hmem => absurd (h.logged l hmem) (by rw [hl]; exact lt_irrefl _)

theorem Tracked.nodup_step {s s' : TimerWorld} {e : TimerEvent} (h : Tracked s)
    (hstep : Stepped s e s') : s'.held.Nodup := by
  cases hstep with
  | @register _ owner timer =>
    show (List.map _ (_ ++ [_])).Nodup
    rw [List.map_append]
    refine List.nodup_append.mpr ⟨h.nodup, List.nodup_singleton _, fun a ha b hb => ?_⟩
    rw [List.mem_singleton.mp hb]
    exact ne_of_lt ((h.owned a).mp ha).1
  | drop => exact h.nodup.sublist (List.filter_sublist.map _)
  | skip | enter | leave | expired | once | every | returned => exact h.nodup

/-- The timers that have lost their holder: those dropped now, and those before. -/
theorem released_drop {s : TimerWorld} {cancel : Bool} {which : Nat × TimerId × TimerPtr → Bool}
    {ptr : TimerPtr} : (s.drop cancel which).Released ptr ↔
      (∃ holder ∈ s.timerHolders_, which holder = true ∧ holder.2.2 = ptr) ∨ s.Released ptr := by
  unfold Released drop
  constructor
  · rintro ⟨c, hc⟩
    rcases List.mem_append.mp hc with hc | hc
    · obtain ⟨holder, hmem, heq⟩ := List.mem_map.mp hc
      obtain ⟨hmem, hwhich⟩ := List.mem_filter.mp hmem
      exact .inl ⟨holder, hmem, hwhich, TimerLog.released_inj heq⟩
    · exact .inr ⟨c, hc⟩
  · rintro (⟨holder, hmem, hwhich, rfl⟩ | ⟨c, hc⟩)
    · exact ⟨cancel, List.mem_append_left _
        (List.mem_map.mpr ⟨holder, List.mem_filter.mpr ⟨hmem, hwhich⟩, rfl⟩)⟩
    · exact ⟨c, List.mem_append_right _ hc⟩

/-- Of the timers held, exactly those dropped lose their holder. -/
theorem Tracked.owned_drop {s : TimerWorld} (h : Tracked s) (cancel : Bool)
    (which : Nat × TimerId × TimerPtr → Bool) (ptr : TimerPtr) :
    ptr ∈ (s.drop cancel which).held ↔ ptr < s.timers.length ∧ ¬(s.drop cancel which).Released ptr := by
  have hinj := List.inj_on_of_nodup_map h.nodup
  have hlog : ¬(s.drop cancel which).Released ptr ↔
      (∀ holder ∈ s.timerHolders_, which holder = true → holder.2.2 ≠ ptr) ∧ ¬s.Released ptr := by
    rw [released_drop, not_or]
    simp only [not_exists, not_and]
  rw [hlog]
  constructor
  · intro hp
    obtain ⟨holder, hmem, rfl⟩ := List.mem_map.mp hp
    obtain ⟨hmem, hkeep⟩ := List.mem_filter.mp hmem
    obtain ⟨hlt, hcan⟩ := (h.owned holder.2.2).mp (List.mem_map.mpr ⟨holder, hmem, rfl⟩)
    refine ⟨hlt, fun other hother hwhich heq => ?_, hcan⟩
    rw [hinj hother hmem heq] at hwhich
    simp [hwhich] at hkeep
  · rintro ⟨hlt, hno, hcan⟩
    obtain ⟨holder, hmem, rfl⟩ := List.mem_map.mp ((h.owned ptr).mpr ⟨hlt, hcan⟩)
    refine List.mem_map.mpr ⟨holder, List.mem_filter.mpr ⟨hmem, ?_⟩, rfl⟩
    cases hwhich : which holder with
    | true => exact absurd rfl (hno holder hmem hwhich)
    | false => rfl

theorem Tracked.owned_step {s s' : TimerWorld} {e : TimerEvent} (h : Tracked s)
    (hstep : Stepped s e s') (ptr : TimerPtr) :
    ptr ∈ s'.held ↔ ptr < s'.timers.length ∧ ¬s'.Released ptr := by
  cases hstep with
  | @register _ owner timer =>
    have hnew : ¬s.Released s.timers.length := fun ⟨cancel, hmem⟩ =>
      h.not_logged (TimerLog.released_ptr cancel s.timers.length) hmem
    have hheld : ptr ∈ List.map (fun holder : Nat × TimerId × TimerPtr => holder.2.2)
        (s.timerHolders_ ++ [(owner, timer.id_, s.timers.length)]) ↔
          ptr ∈ s.held ∨ ptr = s.timers.length := by
      simp [held]
    refine hheld.trans ?_
    rw [h.owned, List.length_append, List.length_singleton, Nat.lt_succ_iff_lt_or_eq]
    simp only [Released, List.mem_cons, TimerLog.released_ne_added, false_or]
    constructor
    · rintro (⟨hlt, hcan⟩ | rfl)
      · exact ⟨Or.inl hlt, hcan⟩
      · exact ⟨Or.inr rfl, hnew⟩
    · rintro ⟨hlt | heq, hcan⟩
      · exact Or.inl ⟨hlt, hcan⟩
      · exact Or.inr heq
  | drop => exact h.owned_drop _ _ ptr
  | once =>
    refine (h.owned ptr).trans ?_
    simp [Released]
  | every =>
    refine (h.owned ptr).trans ?_
    simp [Released]
  | skip | enter | leave | expired | returned => exact h.owned ptr

/-- A cancel is no run. -/
theorem NotAfterCancel.drop {s : TimerWorld} (h : NotAfterCancel s.log) (cancel : Bool)
    (which : Nat × TimerId × TimerPtr → Bool) : NotAfterCancel (s.drop cancel which).log := by
  refine List.pairwise_append.mpr ⟨List.pairwise_map.mpr ?_, h, ?_⟩
  · exact List.pairwise_of_forall fun _ _ _ _ _ heq => absurd heq TimerLog.released_ne_ran
  · intro later hlater earlier _ ptr now _ heq
    obtain ⟨holder, -, rfl⟩ := List.mem_map.mp hlater
    exact absurd heq TimerLog.released_ne_ran

theorem Tracked.order_step {s s' : TimerWorld} {e : TimerEvent} (h : Tracked s)
    (hstep : Stepped s e s') : NotAfterCancel s'.log := by
  cases hstep with
  | register => exact List.pairwise_cons.mpr ⟨(fun _ _ _ _ _ heq => by cases heq), h.order⟩
  | drop => exact h.order.drop _ _
  | once hphase hne hdue hlock =>
    refine List.pairwise_cons.mpr ⟨fun earlier hmem ptr now cancel heq hcan => ?_, h.order⟩
    cases heq
    subst hcan
    exact h.lock_draining hphase hlock ⟨cancel, hmem⟩
  | every hphase hne hdue hlock =>
    refine List.pairwise_cons.mpr ⟨fun earlier hmem ptr now cancel heq hcan => ?_, h.order⟩
    cases heq
    subst hcan
    exact h.lock_draining hphase hlock ⟨cancel, hmem⟩
  | skip | enter | leave | expired | returned => exact h.order

/-! ## One-shot timers are counted once -/

/-- A one-shot timer made before the step is what it was. -/
theorem isOnce_back {s s' : TimerWorld} {e : TimerEvent} {ptr : TimerPtr} {timer : Timer}
    (hstep : Stepped s e s') (hlt : ptr < s.timers.length) (h : s'.IsOnce ptr timer) :
    s.IsOnce ptr timer := by
  obtain ⟨htimer, honce⟩ := h
  refine ⟨?_, honce⟩
  cases hstep with
  | register => rwa [List.getElem?_append_left hlt] at htimer
  | @every now clock timestamp p t q hphase hne hdue hlock ht hevery =>
    by_cases hp : p = ptr
    · subst hp
      rw [List.getElem?_set_self hlt] at htimer
      cases htimer
      rw [hevery] at honce
      cases honce
    · rwa [List.getElem?_set_ne hp] at htimer
  | skip | drop | enter | leave | expired | once | returned => exact htimer

theorem ran_of_mem_drop {s : TimerWorld} {cancel : Bool} {which : Nat × TimerId × TimerPtr → Bool}
    {ptr : TimerPtr} {now : Timestamp} (h : .ran ptr now ∈ (s.drop cancel which).log) :
    .ran ptr now ∈ s.log := by
  rcases List.mem_append.mp h with hran | hran
  · obtain ⟨holder, -, heq⟩ := List.mem_map.mp hran
    exact absurd heq TimerLog.released_ne_ran
  · exact hran

theorem Tracked.due_step {s s' : TimerWorld} {e : TimerEvent} (h : Tracked s)
    (hstep : Stepped s e s') : ∀ ptr timer now, s'.IsOnce ptr timer → .ran ptr now ∈ s'.log →
    timer.timeout_ ≤ now := by
  intro ptr timer now honce' hran
  have hold : .ran ptr now ∈ s.log → timer.timeout_ ≤ now := fun hmem =>
    h.due ptr timer now (isOnce_back hstep (h.logged _ hmem) honce') hmem
  -- the handler called by this step is that of a due root, which copies its timer
  have hroot : ∀ {now' : Timestamp}, ¬s.tqueue_.queue_.empty = true →
      s.tqueue_.root.timeout ≤ now' → s.lock s.tqueue_.root = some ptr → s.IsOnce ptr timer →
      timer.timeout_ ≤ now' := by
    rintro now' hne hdue hlock ⟨htimer, honce⟩
    obtain ⟨t, ht, -, hcopy⟩ := h.copies _ (root_mem h.base hne) ptr (lock_eq_some.mp hlock).1
    rw [htimer] at ht
    cases ht
    rwa [hcopy honce] at hdue
  cases hstep with
  | register =>
    rcases List.mem_cons.mp hran with hran | hran
    · cases hran
    · exact hold hran
  | drop => exact hold (ran_of_mem_drop hran)
  | once hphase hne hdue hlock =>
    rcases List.mem_cons.mp hran with hran | hran
    · cases hran
      exact hroot hne hdue hlock honce'
    · exact hold hran
  | every hphase hne hdue hlock htimer hevery hins hq =>
    rcases List.mem_cons.mp hran with hran | hran
    · cases hran
      have hlt := h.ptr_lt (root_mem h.base hne) (lock_eq_some.mp hlock).1
      exact hroot hne hdue hlock
        (isOnce_back (.every hphase hne hdue hlock htimer hevery hins hq) hlt honce')
    · exact hold hran
  | skip | enter | leave | expired | returned => exact hold hran

/-- A one-shot timer has run or waits, and not both. -/
def CountedOnce (s : TimerWorld) (ptr : TimerPtr) : Prop :=
  s.runs ptr + s.waiting ptr ≤ 1 ∧ (¬s.Released ptr → s.runs ptr + s.waiting ptr = 1)

theorem CountedOnce.of_eq {s s' : TimerWorld} {ptr : TimerPtr} (h : s.CountedOnce ptr)
    (hsum : s'.runs ptr + s'.waiting ptr = s.runs ptr + s.waiting ptr)
    (hlog : ∀ l ∈ s.log, l ∈ s'.log) : s'.CountedOnce ptr := by
  refine ⟨hsum ▸ h.1, fun hn => ?_⟩
  rw [hsum]
  exact h.2 fun ⟨cancel, hmem⟩ => hn ⟨cancel, hlog _ hmem⟩

theorem waiting_cons {s : TimerWorld} {w : WeakTimerHolder} {m : Multiset WeakTimerHolder}
    (h : s.settled = w ::ₘ m) (ptr : TimerPtr) :
    s.waiting ptr = m.countP (fun v => v.weakTimerPtr_ = some ptr) +
      if w.weakTimerPtr_ = some ptr then 1 else 0 := by
  unfold waiting
  rw [h, Multiset.countP_cons]

theorem runs_ran (log : List TimerLog) (p ptr : TimerPtr) (now : Timestamp) :
    (TimerLog.ran p now :: log).countP (TimerLog.isRun ptr)
      = log.countP (TimerLog.isRun ptr) + if p = ptr then 1 else 0 := by
  rw [List.countP_cons]
  simp [TimerLog.isRun]

theorem runs_released (holders : List (Nat × TimerId × TimerPtr)) (log : List TimerLog)
    (cancel : Bool) (ptr : TimerPtr) :
    (holders.map (fun holder => TimerLog.released cancel holder.2.2) ++ log).countP (TimerLog.isRun ptr)
      = log.countP (TimerLog.isRun ptr) := by
  rw [List.countP_append, List.countP_map]
  have hzero : holders.countP (TimerLog.isRun ptr ∘ fun holder => .released cancel holder.2.2) = 0 :=
    List.countP_eq_zero.mpr fun _ _ => by cases cancel <;> exact Bool.false_ne_true
  omega

theorem CountedOnce.drop {s : TimerWorld} {ptr : TimerPtr} (h : s.CountedOnce ptr) (cancel : Bool)
    (which : Nat × TimerId × TimerPtr → Bool) : (s.drop cancel which).CountedOnce ptr := by
  refine h.of_eq ?_ fun _ => List.mem_append_right _
  unfold runs
  exact congrArg (· + s.waiting ptr) (runs_released _ _ _ _)

/-- No handler was called for a timer that is not made yet. -/
theorem Tracked.runs_new {s : TimerWorld} {ptr : TimerPtr} (h : Tracked s)
    (hlt : ¬ptr < s.timers.length) : s.runs ptr = 0 := by
  refine List.countP_eq_zero.mpr fun l hl hrun => ?_
  have hlp : l.ptr = ptr := by
    cases l <;> simp_all [TimerLog.isRun, TimerLog.ptr]
  exact hlt (hlp ▸ h.logged l hl)

theorem Tracked.waiting_new {s : TimerWorld} {ptr : TimerPtr} (h : Tracked s)
    (hlt : ¬ptr < s.timers.length) : s.waiting ptr = 0 := by
  refine Multiset.countP_eq_zero.mpr fun w hw heq => hlt ?_
  exact h.ptr_lt (Multiset.mem_of_le (settled_le s) hw) heq

theorem Tracked.counted_step {s s' : TimerWorld} {e : TimerEvent} (h : Tracked s)
    (hkeep : KeepsRoot s e) (hstep : Stepped s e s') (ptr : TimerPtr) (timer : Timer)
    (honce' : s'.IsOnce ptr timer) : s'.CountedOnce ptr := by
  have hold : ptr < s.timers.length → s.CountedOnce ptr := fun hlt =>
    h.counted ptr timer (isOnce_back hstep hlt honce')
  have hlt' : ptr < s'.timers.length := (List.getElem?_eq_some_iff.mp honce'.1).1
  cases hstep with
  | skip => exact hold hlt'
  | @register _ owner t ids q huser hins hids hq =>
    have hset := settled_register h.base hkeep huser hins hq
    by_cases hlt : ptr < s.timers.length
    · -- a timer made before: the entry inserted is another's
      have hw : WeakTimerHolder.weakTimerPtr_ (.ofTimer t s.timers.length) ≠ some ptr := by
        intro heq
        cases heq
        exact lt_irrefl _ hlt
      refine (hold hlt).of_eq ?_ fun _ => List.mem_cons_of_mem _
      unfold waiting
      dsimp only [settled]
      rw [hset, Multiset.countP_cons, if_neg hw]
      rfl
    · -- the new timer: it waits, and the log does not know it
      have hptr : ptr = s.timers.length := by
        have hlt' : ptr < (s.timers ++ [t]).length := hlt'
        rw [List.length_append, List.length_singleton] at hlt'
        exact le_antisymm (Nat.le_of_lt_succ hlt') (not_lt.mp hlt)
      have hwait : s.settled.countP (fun v => v.weakTimerPtr_ = some ptr) = 0 := h.waiting_new hlt
      have hsum : s.runs ptr + waiting { s with tqueue_ := q } ptr = 1 := by
        unfold waiting
        dsimp only [settled]
        rw [hset, Multiset.countP_cons, if_pos (by rw [hptr]; rfl), h.runs_new hlt, hwait]
      exact ⟨le_of_eq hsum, fun _ => hsum⟩
  | drop => exact (hold hlt').drop _ _
  | enter hphase =>
    refine (hold hlt').of_eq ?_ fun _ => id
    unfold waiting
    rw [settled_enter hphase]
    rfl
  | leave hphase hwhy hq =>
    refine (hold hlt').of_eq ?_ fun _ => id
    unfold waiting
    rw [settled_leave h.base hphase hq]
    rfl
  | @expired now clock q hphase hne hdue hlock hq =>
    have hwait := waiting_cons (settled_expired h.base hphase hne hq) ptr
    obtain ⟨hle, heq⟩ := hold hlt'
    by_cases hroot : s.tqueue_.root.weakTimerPtr_ = some ptr
    · -- the timer of an entry found expired is not held
      have hcan : s.Released ptr := by
        by_contra hn
        have hal := (alive_draining hphase ptr).mpr ((h.owned ptr).mpr ⟨hlt', hn⟩)
        rw [lock_eq_some.mpr ⟨hroot, hal⟩] at hlock
        cases hlock
      refine ⟨?_, fun hn => absurd hcan hn⟩
      rw [if_pos hroot] at hwait
      show s.runs ptr + q.entries.countP _ ≤ 1
      omega
    · refine (hold hlt').of_eq ?_ fun _ => id
      rw [hwait, if_neg hroot]
      rfl
  | @once now clock p t hphase hne hdue hlock htimer honce =>
    have hwait := waiting_cons (settled_once h.base hphase hne) ptr
    refine (hold hlt').of_eq ?_ fun _ => List.mem_cons_of_mem _
    have hroot : (if s.tqueue_.root.weakTimerPtr_ = some ptr then 1 else 0)
        = if p = ptr then 1 else 0 := by
      -- the root is what the handler was called for
      simp [(lock_eq_some.mp hlock).1]
    rw [hwait, hroot]
    unfold runs
    rw [runs_ran, Nat.add_assoc, Nat.add_comm (ite _ _ _)]
    rfl
  | @every now clock timestamp p t q hphase hne hdue hlock htimer hevery hins hq =>
    obtain ⟨m, hm, hm'⟩ := settled_every h.base hkeep hphase hne hins hq
    rw [List.length_set] at hlt'
    -- the timer that is inserted again is periodic, so another one
    have hp : p ≠ ptr := by
      rintro rfl
      obtain ⟨ht, honce⟩ := honce'
      rw [List.getElem?_set_self hlt'] at ht
      cases ht
      rw [hevery] at honce
      cases honce
    have hw : (some p : Option TimerPtr) ≠ some ptr := fun heq => hp (Option.some.inj heq)
    have hroot : s.tqueue_.root.weakTimerPtr_ ≠ some ptr := by
      rwa [(lock_eq_some.mp hlock).1]
    refine (hold hlt').of_eq ?_ fun _ => List.mem_cons_of_mem _
    rw [waiting_cons hm, if_neg hroot]
    unfold runs waiting settled
    rw [runs_ran, if_neg hp, hm', Multiset.countP_cons, if_neg]
    · rfl
    · exact hw
  | returned hphase hq =>
    refine (hold hlt').of_eq ?_ fun _ => id
    unfold waiting
    rw [settled_returned h.base hphase hq]
    rfl

theorem Tracked.step {s s' : TimerWorld} {e : TimerEvent} (h : Tracked s)
    (he : ¬TimerEvent.ownId e) (hstep : Stepped s e s') : Tracked s' where
  base := h.base.step (h.keepsRoot he) hstep
  ids := h.ids_step he hstep
  copies := h.copies_step hstep
  logged := h.logged_step hstep
  nodup := h.nodup_step hstep
  owned := h.owned_step hstep
  counted := h.counted_step (h.keepsRoot he) hstep
  due := h.due_step hstep
  order := h.order_step hstep

/-- Holders may be dropped at any time, also where no event of the timers does it. -/
theorem Tracked.drop {s : TimerWorld} (h : Tracked s) (cancel : Bool)
    (which : Nat × TimerId × TimerPtr → Bool) : Tracked (s.drop cancel which) where
  base := ⟨h.base.inBounds, h.base.ptrs, h.base.handling⟩
  ids := h.ids
  copies := h.copies
  logged := h.logged_drop cancel which
  nodup := h.nodup.sublist (List.filter_sublist.map _)
  owned := h.owned_drop cancel which
  counted := fun ptr timer honce => CountedOnce.drop (h.counted ptr timer honce) cancel which
  due := fun ptr timer now honce hran => h.due ptr timer now honce (ran_of_mem_drop hran)
  order := h.order.drop cancel which

theorem tracked_init : Tracked init where
  base := base_init
  ids := fun t ht => absurd ht List.not_mem_nil
  copies := fun w hw => by
    have h0 : init.entries = 0 := BinaryHeap.contents_ofCapacity 100
    rw [h0] at hw
    exact absurd hw (Multiset.notMem_zero w)
  logged := fun l hl => absurd hl List.not_mem_nil
  nodup := List.nodup_nil
  owned := fun ptr => by simp [held, Released, init]
  counted := fun ptr timer h => by simp [IsOnce, init] at h
  due := fun ptr timer now _ hran => absurd hran List.not_mem_nil
  order := List.Pairwise.nil

/-- **A run returns exactly if the heap's vector never grows under a handler.** -/
theorem run_ok_iff {es : List TimerEvent} (hes : ∀ e ∈ es, ¬TimerEvent.ownId e) :
    (∃ s, run step init es = .ok s) ↔ Along step NotGrown init es := by
  refine run_returns_iff (B := Tracked) (K := fun _ e => ¬TimerEvent.ownId e) ?_ ?_ es tracked_init
    (along_of_forall (fun e he _ => hes e he) init)
  · exact fun s e t h he hs => h.step he (stepped_of_step h.base.inBounds hs)
  · exact fun s e h he => step_ok_iff h.base (TimerEvent.valid_of_not_ownId he)

/-! ## What the run shows -/

/-- A call of `runAt` or `runAfter`: who keeps the holder, and the time it asks for. -/
def TimerEvent.oneShot : TimerEvent → Option (Nat × Timestamp)
  | .runAt owner timestamp => some (owner, timestamp)
  | .runAfter owner timestamp now => some (owner, timestamp.add now)
  | _ => none

/-- The handler that the loop calls between the two states, and its reading of the clock. -/
def called (s s' : TimerWorld) : Option (TimerPtr × Timestamp) :=
  match s.phase, s'.phase with
  | .draining _, .handling now _ ptr => some (ptr, now)
  | _, _ => none

/-- The handlers called along a run, the first one first. -/
def calls : TimerWorld → List TimerEvent → List (TimerPtr × Timestamp)
  | _, [] => []
  | s, e :: es =>
    match s.step e with
    | .error _ => []
    | .ok s' => (s.called s').toList ++ calls s' es

/-- User code drops the holder. -/
def Drops (holder : Nat × TimerId × TimerPtr) (s : TimerWorld) (e : TimerEvent) : Prop :=
  s.userCode = true ∧ TimerEvent.drops e holder = true

instance (holder : Nat × TimerId × TimerPtr) (s : TimerWorld) (e : TimerEvent) :
    Decidable (Drops holder s e) :=
  inferInstanceAs (Decidable (_ ∧ _))

/-- The handlers that a log tells of, the last one first. -/
def ranIn (log : List TimerLog) : List (TimerPtr × Timestamp) :=
  log.filterMap fun
    | .ran ptr now => some (ptr, now)
    | _ => none

theorem mem_ranIn {log : List TimerLog} {ptr : TimerPtr} {now : Timestamp} :
    (ptr, now) ∈ ranIn log ↔ .ran ptr now ∈ log := by
  unfold ranIn
  rw [List.mem_filterMap]
  constructor
  · rintro ⟨l, hl, hsome⟩
    cases l with
    | ran p n =>
      cases hsome
      exact hl
    | added | cancelled | dropped => cases hsome
  · exact fun hmem => ⟨_, hmem, rfl⟩

theorem countP_ranIn (log : List TimerLog) (ptr : TimerPtr) :
    (ranIn log).countP (fun call => call.1 == ptr) = log.countP (TimerLog.isRun ptr) := by
  unfold ranIn
  induction log with
  | nil => rfl
  | cons l log ih =>
    rw [List.countP_cons, List.filterMap_cons]
    cases l with
    | ran p n => rw [List.countP_cons, ih]; rfl
    | added | cancelled | dropped => simpa [TimerLog.isRun] using ih

@[simp] theorem called_self (s : TimerWorld) : s.called s = none := by
  unfold called
  cases s.phase <;> rfl

/-- No handler is called by user code. -/
theorem called_userCode {s : TimerWorld} (h : s.userCode = true) (s' : TimerWorld) :
    s.called s' = none := by
  unfold called
  cases hp : s.phase with
  | draining now => simp [userCode, hp] at h
  | idle | handling => rfl

/-- **What a step logs**: the handler that it calls, and no other. -/
theorem log_step {s s' : TimerWorld} {e : TimerEvent} (hstep : Stepped s e s') :
    ∃ new, s'.log = new ++ s.log ∧ ranIn new = (s.called s').toList := by
  cases hstep with
  | skip => exact ⟨[], rfl, by simp [ranIn]⟩
  | register huser => exact ⟨[.added s.timers.length], rfl, by rw [called_userCode huser]; rfl⟩
  | drop huser =>
    refine ⟨_, rfl, ?_⟩
    rw [called_userCode huser]
    refine List.filterMap_eq_nil_iff.mpr fun l hl => ?_
    obtain ⟨holder, -, rfl⟩ := List.mem_map.mp hl
    cases TimerEvent.cancels e <;> rfl
  | enter hphase | leave hphase | expired hphase | returned hphase =>
    exact ⟨[], rfl, by simp [ranIn, called, hphase]⟩
  | once hphase | every hphase =>
    exact ⟨[.ran _ _], rfl, by simp [ranIn, called, hphase]⟩

/-- What has been logged stays. -/
theorem mem_log_step {s s' : TimerWorld} {e : TimerEvent} (hstep : Stepped s e s') {l : TimerLog}
    (hl : l ∈ s.log) : l ∈ s'.log := by
  obtain ⟨new, hlog, -⟩ := log_step hstep
  rw [hlog]
  exact List.mem_append_right _ hl

theorem Released.step {s s' : TimerWorld} {e : TimerEvent} {ptr : TimerPtr} (h : s.Released ptr)
    (hstep : Stepped s e s') : s'.Released ptr := by
  obtain ⟨cancel, hmem⟩ := h
  exact ⟨cancel, mem_log_step hstep hmem⟩

/-- **What a run logs**: the handlers that it calls, and no others. -/
theorem log_run {es : List TimerEvent} (hes : ∀ e ∈ es, ¬TimerEvent.ownId e) {s s' : TimerWorld}
    (h : Tracked s) (hrun : run step s es = .ok s') :
    Tracked s' ∧ ∃ new, s'.log = new ++ s.log ∧ ranIn new = (calls s es).reverse := by
  induction es generalizing s with
  | nil =>
    cases hrun
    exact ⟨h, [], rfl, rfl⟩
  | cons e es ih =>
    obtain ⟨t, ht, hrest⟩ := run_cons_ok hrun
    have hstep := stepped_of_step h.base.inBounds ht
    obtain ⟨new, hlog, hran⟩ := log_step hstep
    obtain ⟨h', new', hlog', hran'⟩ := ih (fun e he => hes e (List.mem_cons_of_mem _ he))
      (h.step (hes e List.mem_cons_self) hstep) hrest
    refine ⟨h', new' ++ new, by rw [hlog', hlog, List.append_assoc], ?_⟩
    have happend : ranIn (new' ++ new) = ranIn new' ++ ranIn new := List.filterMap_append
    rw [happend, hran, hran', calls, ht, List.reverse_append]
    cases s.called t <;> rfl

theorem calls_append {es fs : List TimerEvent} {s t : TimerWorld} (h : run step s es = .ok t) :
    calls s (es ++ fs) = calls s es ++ calls t fs := by
  induction es generalizing s with
  | nil =>
    cases h
    rfl
  | cons e es ih =>
    obtain ⟨u, hu, hrest⟩ := run_cons_ok h
    rw [List.cons_append, calls, calls, hu]
    dsimp only
    rw [ih hrest, List.append_assoc]

/-- A one-shot timer stays what it is. -/
theorem isOnce_step {s s' : TimerWorld} {e : TimerEvent} (hstep : Stepped s e s') {ptr : TimerPtr}
    {timer : Timer} (h : s.IsOnce ptr timer) : s'.IsOnce ptr timer := by
  obtain ⟨htimer, honce⟩ := h
  have hlt := (List.getElem?_eq_some_iff.mp htimer).1
  refine ⟨?_, honce⟩
  cases hstep with
  | register =>
    show (_ ++ _)[ptr]? = _
    rwa [List.getElem?_append_left hlt]
  | @every now clock timestamp p t q hphase hne hdue hlock ht hevery =>
    have hp : p ≠ ptr := by
      rintro rfl
      rw [htimer] at ht
      cases ht
      rw [hevery] at honce
      cases honce
    show (List.set _ _ _)[ptr]? = _
    rwa [List.getElem?_set_ne hp]
  | skip | drop | enter | leave | expired | once | returned => exact htimer

/-- A holder stays until user code drops it. -/
theorem holder_step {s s' : TimerWorld} {e : TimerEvent} (hstep : Stepped s e s')
    {holder : Nat × TimerId × TimerPtr} (h : holder ∈ s.timerHolders_) (hno : ¬Drops holder s e) :
    holder ∈ s'.timerHolders_ := by
  cases hstep with
  | register => exact List.mem_append_left _ h
  | drop huser hins =>
    refine List.mem_filter.mpr ⟨h, ?_⟩
    cases hdrops : TimerEvent.drops e holder with
    | true => exact absurd ⟨huser, hdrops⟩ hno
    | false => rfl
  | skip | enter | leave | expired | once | every | returned => exact h

/-! ## One timer -/

/-- What is known of a one-shot timer from the call that made it on. -/
structure Made (holder : Nat × TimerId × TimerPtr) (timer : Timer) (s : TimerWorld) : Prop where
  tracked : Tracked s
  once : s.IsOnce holder.2.2 timer
  held : holder ∈ s.timerHolders_ ∨ s.Released holder.2.2

variable {holder : Nat × TimerId × TimerPtr} {timer : Timer} {s s' : TimerWorld} {e : TimerEvent}

theorem Drops.released (hdrops : Drops holder s e) (hmem : holder ∈ s.timerHolders_)
    (hstep : s.step e = .ok s') : s'.Released holder.2.2 := by
  obtain ⟨huser, hwhich⟩ := hdrops
  have hrel : ∀ cancel, (s.drop cancel (TimerEvent.drops e)).Released holder.2.2 :=
    fun cancel => released_drop.mpr (.inl ⟨holder, hmem, hwhich, rfl⟩)
  cases e with
  | cancelTimer | cancelAllTimer =>
    simp only [TimerWorld.step, huser, if_true] at hstep
    cases hstep
    exact hrel true
  | dropHolder =>
    simp only [TimerWorld.step, huser, if_true] at hstep
    cases hstep
    exact hrel false
  | runAt | runAfter | runEvery | insertTimer | handleTimeoutEvents | iterate | handlerReturned =>
    cases hwhich

theorem Made.step (h : Made holder timer s) (he : ¬TimerEvent.ownId e) (hs : s.step e = .ok s') :
    Made holder timer s' := by
  have hstep := stepped_of_step h.tracked.base.inBounds hs
  refine ⟨h.tracked.step he hstep, isOnce_step hstep h.once, ?_⟩
  rcases h.held with hmem | hrel
  · by_cases hdrops : Drops holder s e
    · exact .inr (hdrops.released hmem hs)
    · exact .inl (holder_step hstep hmem hdrops)
  · exact .inr (hrel.step hstep)

theorem Made.run {es : List TimerEvent} (h : Made holder timer s)
    (hes : ∀ e ∈ es, ¬TimerEvent.ownId e) (hrun : Infra.run TimerWorld.step s es = .ok s') :
    Made holder timer s' :=
  run_invariant_along (fun _ _ _ hm he hs => hm.step he hs) h
    (along_of_forall (fun e he _ => hes e he) s) hrun

/-- Its holder is there as long as nobody drops it. -/
theorem Made.keeps {es : List TimerEvent} (h : Made holder timer s) (hmem : holder ∈ s.timerHolders_)
    (hes : ∀ e ∈ es, ¬TimerEvent.ownId e) (hno : Along TimerWorld.step (fun t e => ¬Drops holder t e) s es)
    (hrun : Infra.run TimerWorld.step s es = .ok s') : ¬s'.Released holder.2.2 := by
  have hkept : ∀ t e t', Made holder timer t ∧ holder ∈ t.timerHolders_ →
      ¬TimerEvent.ownId e ∧ ¬Drops holder t e → t.step e = .ok t' →
      Made holder timer t' ∧ holder ∈ t'.timerHolders_ := by
    intro t e t' ht he hs
    have hstep := stepped_of_step ht.1.tracked.base.inBounds hs
    exact ⟨ht.1.step he.1 hs, holder_step hstep ht.2 he.2⟩
  have hboth : Along TimerWorld.step (fun t e => ¬TimerEvent.ownId e ∧ ¬Drops holder t e) s es :=
    along_and (along_of_forall (fun e he _ => hes e he) s) hno
  obtain ⟨h', hmem'⟩ := run_invariant_along hkept ⟨h, hmem⟩ hboth hrun
  exact ((h'.tracked.owned _).mp (List.mem_map.mpr ⟨holder, hmem', rfl⟩)).2

/-- After its holder went it is not called. -/
theorem Tracked.not_called {es : List TimerEvent} (h : Tracked s) {ptr : TimerPtr}
    (hrel : s.Released ptr) (hes : ∀ e ∈ es, ¬TimerEvent.ownId e)
    (hrun : Infra.run TimerWorld.step s es = .ok s') (now : Timestamp) : (ptr, now) ∉ calls s es := by
  intro hcall
  obtain ⟨h', new, hlog, hran⟩ := log_run hes h hrun
  obtain ⟨cancel, hmem⟩ := hrel
  have hmem' : .ran ptr now ∈ new := by
    rw [← mem_ranIn, hran]
    exact List.mem_reverse.mpr hcall
  have horder := h'.order
  rw [hlog] at horder
  exact (List.pairwise_append.mp horder).2.2 _ hmem' _ hmem ptr now cancel rfl rfl

/-- The timer that is not released waits in the queue until it is called. -/
theorem Made.queued (h : Made holder timer s) (hruns : s.runs holder.2.2 = 0)
    (hrel : ¬s.Released holder.2.2) : WeakTimerHolder.ofTimer timer holder.2.2 ∈ s.entries := by
  have hsum := (h.tracked.counted _ timer h.once).2 hrel
  rw [hruns, Nat.zero_add] at hsum
  obtain ⟨w, hw, hptr⟩ := Multiset.countP_pos.mp (show 0 < s.waiting holder.2.2 by omega)
  have hmem := Multiset.mem_of_le (settled_le s) hw
  obtain ⟨t, ht, hid, htimeout⟩ := h.tracked.copies w hmem _ hptr
  rw [h.once.1] at ht
  cases ht
  have heq : w = WeakTimerHolder.ofTimer timer holder.2.2 := by
    obtain ⟨id, timeout, weak⟩ := w
    cases hptr
    cases hid
    cases htimeout h.once.2
    rfl
  rwa [heq] at hmem

/-- `runAt` and `runAfter` make a timer with the next id. -/
theorem made_of_oneShot (h : Tracked s) {owner : Nat} {timeout : Timestamp}
    (huser : s.userCode = true) (he : TimerEvent.oneShot e = some (owner, timeout))
    (hs : s.step e = .ok s') :
    (owner, s.timerIds_, s.timers.length) ∈ s'.timerHolders_ ∧
      Made (owner, s.timerIds_, s.timers.length)
        { id_ := s.timerIds_, timeout_ := timeout, handler_ := .once } s' := by
  have hown : ¬TimerEvent.ownId e := by
    cases e with
    | insertTimer => cases he
    | runAt | runAfter | runEvery | cancelTimer | cancelAllTimer | dropHolder | handleTimeoutEvents
    | iterate | handlerReturned => exact id
  have htracked := h.step hown (stepped_of_step h.base.inBounds hs)
  have hreg : s.nextId.register owner { id_ := s.timerIds_, timeout_ := timeout, handler_ := .once }
      = .ok s' := by
    cases e with
    | runAt | runAfter =>
      cases he
      simp only [TimerWorld.step, huser, if_true] at hs
      exact hs
    | runEvery | insertTimer | cancelTimer | cancelAllTimer | dropHolder | handleTimeoutEvents
    | iterate | handlerReturned => cases he
  unfold register at hreg
  obtain ⟨q, hq, hreg⟩ := bind_eq_ok.mp hreg
  cases hreg
  have hmem : (owner, s.timerIds_, s.timers.length) ∈
      s.timerHolders_ ++ [(owner, s.timerIds_, s.timers.length)] :=
    List.mem_append_right _ (List.mem_singleton.mpr rfl)
  exact ⟨hmem, htracked, ⟨List.getElem?_concat_length, rfl⟩, .inl hmem⟩

/-! ## The results -/

/--
What becomes of the timer that a call `e` of `runAt` or `runAfter` makes in the state `s` that the run
`es` leads to, with the events `fs` after it: `s₁` is the state after the call, and `s'` the last one.
-/
structure OneShot (es : List TimerEvent) (e : TimerEvent) (fs : List TimerEvent) (s s₁ s' : TimerWorld)
    (owner : Nat) (timeout : Timestamp) : Prop where
  /-- Its handler is called at most once. -/
  once : (calls init (es ++ e :: fs)).countP (fun call => call.1 == s.timers.length) ≤ 1
  due : ∀ now, (s.timers.length, now) ∈ calls init (es ++ e :: fs) → timeout ≤ now
  /-- It is not called after its holder was dropped. -/
  silent : ∀ fs₁ f fs₂ t, fs = fs₁ ++ f :: fs₂ → run step s₁ fs₁ = .ok t →
    Drops (owner, s.timerIds_, s.timers.length) t f →
    ∀ now, (s.timers.length, now) ∉ calls t (f :: fs₂)
  /-- As long as it is not called and its holder not dropped, it is in the queue. -/
  kept : (∀ now, (s.timers.length, now) ∉ calls init (es ++ e :: fs)) →
    Along step (fun t f => ¬Drops (owner, s.timerIds_, s.timers.length) t f) s₁ fs →
    ⟨s.timerIds_, timeout, some s.timers.length⟩ ∈ s'.entries

/-- The log of a run tells of the handlers called along it, and of each as often as it was. -/
theorem ran_iff_called {es : List TimerEvent} (hes : ∀ e ∈ es, ¬TimerEvent.ownId e)
    (hrun : run step init es = .ok s') (ptr : TimerPtr) :
    (∀ now, (ptr, now) ∈ calls init es ↔ .ran ptr now ∈ s'.log) ∧
      (calls init es).countP (fun call => call.1 == ptr) = s'.runs ptr := by
  obtain ⟨-, new, hlog, hran⟩ := log_run hes tracked_init hrun
  have hcalls : ranIn s'.log = (calls init es).reverse := by
    rw [hlog, ← hran]
    exact congrArg ranIn (List.append_nil new)
  constructor
  · intro now
    rw [← mem_ranIn, hcalls, List.mem_reverse]
  · unfold runs
    rw [← countP_ranIn, hcalls, List.countP_reverse]

/-- A timer is not called from the event on that drops its holder. -/
theorem Made.not_called {f : TimerEvent} {fs : List TimerEvent} (h : Made holder timer s)
    (hfs : ∀ g ∈ f :: fs, ¬TimerEvent.ownId g) (hdrops : Drops holder s f)
    (hrun : Infra.run TimerWorld.step s (f :: fs) = .ok s') (now : Timestamp) :
    (holder.2.2, now) ∉ calls s (f :: fs) := by
  obtain ⟨t, ht, hlast⟩ := run_cons_ok hrun
  have hmade := h.step (hfs f List.mem_cons_self) ht
  -- the holder is gone after `f`, or was gone before
  have hrel : t.Released holder.2.2 := by
    rcases h.held with hheld | hrel
    · exact hdrops.released hheld ht
    · exact hrel.step (stepped_of_step h.tracked.base.inBounds ht)
  rw [calls, ht]
  dsimp only
  rw [called_userCode hdrops.1]
  exact hmade.tracked.not_called hrel (fun g hg => hfs g (List.mem_cons_of_mem _ hg)) hlast now

theorem oneShot_of_run {es fs : List TimerEvent} {s₁ : TimerWorld} {owner : Nat} {timeout : Timestamp}
    (hes : ∀ f ∈ es ++ e :: fs, ¬TimerEvent.ownId f) (hs : run step init es = .ok s)
    (huser : s.userCode = true) (he : TimerEvent.oneShot e = some (owner, timeout))
    (hstep : s.step e = .ok s₁) (hrest : run step s₁ fs = .ok s') :
    OneShot es e fs s s₁ s' owner timeout := by
  have hfs : ∀ f ∈ fs, ¬TimerEvent.ownId f := fun f hf =>
    hes f (List.mem_append_right _ (List.mem_cons_of_mem _ hf))
  have htracked : Tracked s :=
    (log_run (fun f hf => hes f (List.mem_append_left _ hf)) tracked_init hs).1
  obtain ⟨hmem, hmade⟩ := made_of_oneShot htracked huser he hstep
  have hmade' := hmade.run hfs hrest
  have hrun : run step init (es ++ e :: fs) = .ok s' := by
    rw [run_append, hs, ok_bind, run_cons, hstep]
    exact hrest
  obtain ⟨hcalled, hruns⟩ := ran_iff_called hes hrun s.timers.length
  refine ⟨?_, fun now hcall => ?_, ?_, fun hno hkeeps => ?_⟩
  · rw [hruns]
    exact le_trans (Nat.le_add_right _ _) (hmade'.tracked.counted _ _ hmade'.once).1
  · exact hmade'.tracked.due _ _ now hmade'.once ((hcalled now).mp hcall)
  · rintro fs₁ f fs₂ t rfl hpre hdrops
    rw [run_append, hpre, ok_bind] at hrest
    have hmade₁ := hmade.run (fun g hg => hfs g (List.mem_append_left _ hg)) hpre
    exact hmade₁.not_called (fun g hg => hfs g (List.mem_append_right _ hg)) hdrops hrest
  · refine hmade'.queued ?_ (hmade.keeps hmem hfs hkeeps hrest)
    rw [← hruns, List.countP_eq_zero]
    rintro ⟨p, now⟩ hcall hp
    rw [beq_iff_eq] at hp
    subst hp
    exact hno now hcall

/--
What a step takes out of the queue: when a handler returns, its own entry; otherwise nothing, or
an entry that was due and is found expired.
-/
structure DeletesOwn (s : TimerWorld) (e : TimerEvent) (s' : TimerWorld) : Prop where
  returned : ∀ now entry ptr, s.phase = .handling now entry ptr → e = .handlerReturned →
    s.entries = entry ::ₘ s'.entries
  otherwise : (∀ now entry ptr, s.phase = .handling now entry ptr → e ≠ .handlerReturned) →
    s.entries ≤ s'.entries ∨ ∃ now entry, s.phase = .draining now ∧ entry.timeout ≤ now ∧
      s.lock entry = none ∧ s.entries = entry ::ₘ s'.entries

theorem Base.deletesOwn {s s' : TimerWorld} {e : TimerEvent} (hb : Base s)
    (h : s.step e = .ok s') : DeletesOwn s e s' where
  returned := fun now entry ptr hphase he => by
    subst he
    simp only [TimerWorld.step, hphase] at h
    obtain ⟨-, q, hq, rfl⟩ := finishPass_eq_ok h
    obtain ⟨hne, hroot, -⟩ := hb.handling _ _ _ hphase
    rw [← hroot]
    exact entries_delete hb hne hq
  otherwise := fun hno => by
    have hstep := stepped_of_step hb.inBounds h
    cases hstep with
    | skip | drop | enter | once => exact Or.inl le_rfl
    | register huser hins hids hq =>
      refine Or.inl ?_
      show s.entries ≤ TimerQueue.entries _
      rw [entries_insert hb hq]
      exact Multiset.le_cons_self _ _
    | every hphase hne hdue hlock htimer hevery hins hq =>
      refine Or.inl ?_
      show s.entries ≤ TimerQueue.entries _
      rw [entries_insert hb hq]
      exact Multiset.le_cons_self _ _
    | leave hphase hwhy hq =>
      refine Or.inl (le_of_eq ?_)
      show s.entries = BinaryHeap.contents (TimerQueue.queue_ _)
      rw [queue_rearm hb hq]
      rfl
    | expired hphase hne hdue hlock hq =>
      exact Or.inr ⟨_, _, hphase, hdue, hlock, entries_delete hb hne hq⟩
    | returned hphase hq => exact absurd rfl (hno _ _ _ hphase)

/--
**One-shot timers are not lost and do not misfire.** In a run of timers that the counter numbers, in which
the heap's vector does not grow under a handler, the handler of a timer of `runAt` or `runAfter` is called at
most once, not before its time, and not after its holder was dropped; one that was neither called nor dropped
is in the queue. Every step deletes only the entry it is meant for.
-/
theorem one_shot_timers {es : List TimerEvent} (hes : ∀ e ∈ es, ¬TimerEvent.ownId e)
    (hgrown : Along step NotGrown init es) :
    ∃ s', run step init es = .ok s' ∧
      (∀ es₁ e fs s s₁ owner timeout, es = es₁ ++ e :: fs → run step init es₁ = .ok s →
        s.userCode = true → TimerEvent.oneShot e = some (owner, timeout) → s.step e = .ok s₁ →
        OneShot es₁ e fs s s₁ s' owner timeout) ∧
      ∀ e s'', ¬TimerEvent.ownId e → s'.step e = .ok s'' → DeletesOwn s' e s'' := by
  obtain ⟨s', hrun⟩ := (run_ok_iff hes).mpr hgrown
  have htracked := (log_run hes tracked_init hrun).1
  refine ⟨s', hrun, ?_, fun e s'' _ hs'' => htracked.base.deletesOwn hs''⟩
  rintro es₁ e fs s s₁ owner timeout rfl hs huser he hstep
  refine oneShot_of_run hes hs huser he hstep ?_
  rw [run_append, hs, ok_bind, run_cons, hstep] at hrun
  exact hrun

/-- Two one-shot timers with a periodic one in between. -/
def threeTimers : List TimerEvent :=
  [.runAt 0 ⟨5, 0⟩, .runEvery 1 ⟨3, 0⟩, .runAfter 0 ⟨2, 0⟩ ⟨4, 0⟩]

/-- A call that runs the first handler, which cancels the timers of its mixin, and the periodic one. -/
def cancellingDrain : List TimerEvent :=
  [.handleTimeoutEvents ⟨9, 0⟩, .iterate ⟨9, 0⟩, .cancelAllTimer 0, .handlerReturned, .iterate ⟨9, 0⟩,
    .handlerReturned, .iterate ⟨9, 0⟩, .iterate ⟨9, 0⟩]

/-- A fourth timer, not due yet, is in the queue after the call. -/
theorem one_shot_timers_four :
    calls init (threeTimers ++ .runAt 2 ⟨20, 0⟩ :: cancellingDrain) = [(0, ⟨9, 0⟩), (1, ⟨9, 0⟩)] ∧
      ∃ s, run step init (threeTimers ++ .runAt 2 ⟨20, 0⟩ :: cancellingDrain) = .ok s ∧
        ⟨4, ⟨20, 0⟩, some 3⟩ ∈ s.entries := by
  have hcalls : calls init (threeTimers ++ .runAt 2 ⟨20, 0⟩ :: cancellingDrain)
      = [(0, ⟨9, 0⟩), (1, ⟨9, 0⟩)] := by decide +kernel
  obtain ⟨s, hrun, hone, -⟩ :=
    @one_shot_timers (threeTimers ++ .runAt 2 ⟨20, 0⟩ :: cancellingDrain) (by decide) (by decide +kernel)
  have hfourth := hone threeTimers (.runAt 2 ⟨20, 0⟩) cancellingDrain (stateAfter threeTimers)
    (stateAfter (threeTimers ++ [.runAt 2 ⟨20, 0⟩])) 2 ⟨20, 0⟩ rfl (by decide +kernel)
    (by decide +kernel) rfl (by decide +kernel)
  have hkept := hfourth.kept
  have hid : (stateAfter threeTimers).timerIds_ = 4 := by decide +kernel
  have hptr : (stateAfter threeTimers).timers.length = 3 := by decide +kernel
  rw [hcalls, hid, hptr] at hkept
  exact ⟨hcalls, s, hrun, hkept (fun now hcall => by simp at hcall) (by decide +kernel)⟩

/-- A timer whose holder is dropped at once, and a call when it is due. -/
def discardedRun : List TimerEvent :=
  [.runAt 0 ⟨5, 0⟩, .dropHolder 0, .handleTimeoutEvents ⟨9, 0⟩, .iterate ⟨9, 0⟩, .iterate ⟨9, 0⟩]

/-- A handler makes the hundredth timer. -/
def grownRun : List TimerEvent :=
  List.replicate 99 (.runAt 0 ⟨5, 0⟩) ++
    [.handleTimeoutEvents ⟨9, 0⟩, .iterate ⟨9, 0⟩, .runAt 0 ⟨20, 0⟩, .handlerReturned]

/--
A timer without a holder is neither called nor cancelled, and is not in the queue any more; and a handler that
makes the heap's vector grow leaves `minTimer` dangling.
-/
theorem discarded_or_grown :
    (∃ s, run step init discardedRun = .ok s ∧ s.timers = [⟨1, ⟨5, 0⟩, .once⟩] ∧
      calls init discardedRun = [] ∧
      (∀ e ∈ discardedRun, TimerEvent.cancels e = true → TimerEvent.drops e (0, 1, 0) = false) ∧
      s.entries = 0) ∧
    run step init grownRun = .error .outOfBounds :=
  ⟨⟨stateAfter discardedRun, by decide +kernel, by decide +kernel, by decide +kernel, by decide +kernel,
    by decide +kernel⟩, by decide +kernel⟩

end TimerWorld

end Liby
