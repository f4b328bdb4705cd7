import Liby.Timer.TimerOwner

/-!
# Timers after destroy

A timer registered through a connection before `destroy` still runs after it, unless it was
cancelled or the last `shared_ptr` to the connection is gone when its time comes. Both ways
lead through the holders: `destructed` means that no holder of the connection's is left, and
no owner means `destructed`.
-/

namespace Liby

open Infra

/-! ## What an event of the timers does to holders and handlers -/

namespace TimerWorld

theorem register_holders {s s' : TimerWorld} {owner : Nat} {timer : Timer}
    (h : s.register owner timer = .ok s') :
    s'.timerHolders_ = s.timerHolders_ ++ [(owner, timer.id_, s.timers.length)] := by
  unfold register at h
  obtain ⟨q, -, hs⟩ := bind_eq_ok.mp h
  cases hs
  rfl

/-- Every holder after the event was one before it, or holds the new object for its mixin. -/
theorem mem_register {s s' : TimerWorld} {owner : Nat} {timer : Timer}
    (h : s.register owner timer = .ok s') {holder : Nat × TimerId × TimerPtr}
    (hmem : holder ∈ s'.timerHolders_) :
    holder ∈ s.timerHolders_ ∨ owner = holder.1 ∧ holder.2.2 = s.timers.length := by
  rw [register_holders h, List.mem_append, List.mem_singleton] at hmem
  rcases hmem with hmem | rfl
  · exact Or.inl hmem
  · exact Or.inr ⟨rfl, rfl⟩

/-- An event that registers nothing adds no holder. -/
theorem mem_holders_of_stepped {s s' : TimerWorld} {e : TimerEvent} (hstep : Stepped s e s')
    (hno : s.inserts e = none ∨ s.userCode = false) {holder : Nat × TimerId × TimerPtr}
    (hmem : holder ∈ s'.timerHolders_) : holder ∈ s.timerHolders_ := by
  cases hstep with
  | register huser hins =>
    rcases hno with hno | hno
    · rw [hno] at hins
      cases hins
    · rw [hno] at huser
      cases huser
  | drop => exact (List.mem_filter.mp hmem).1
  | skip | enter | leave | expired | once | every | returned => exact hmem

theorem mem_holders_of_step {s s' : TimerWorld} {e : TimerEvent}
    (hb : s.tqueue_.queue_.InBounds) (he : ¬TimerEvent.ownId e) (h : s.step e = .ok s')
    {holder : Nat × TimerId × TimerPtr} (hmem : holder ∈ s'.timerHolders_) :
    holder ∈ s.timerHolders_ ∨ e.owner? = some holder.1 ∧ holder.2.2 = s.timers.length := by
  have hreg : ∀ {owner : Nat} {timer : Timer}, e.owner? = some owner →
      (if s.userCode then s.nextId.register owner timer else .ok s) = .ok s' →
      holder ∈ s.timerHolders_ ∨ e.owner? = some holder.1 ∧ holder.2.2 = s.timers.length := by
    intro owner timer howner h
    split at h
    · rcases mem_register h hmem with hold | ⟨rfl, hnew⟩
      · exact Or.inl hold
      · exact Or.inr ⟨howner, hnew⟩
    · cases h
      exact Or.inl hmem
  cases e with
  | runAt owner timestamp => exact hreg rfl h
  | runAfter owner timestamp now => exact hreg rfl h
  | runEvery owner timestamp => exact hreg rfl h
  | insertTimer => exact absurd trivial he
  | iterate clock =>
    refine Or.inl (mem_holders_of_stepped (stepped_of_step hb h) ?_ hmem)
    cases hphase : s.phase with
    | draining now => exact Or.inr (by simp only [userCode, hphase])
    | idle | handling => exact Or.inl (by simp only [inserts, hphase])
  | cancelTimer | cancelAllTimer | dropHolder | handleTimeoutEvents | handlerReturned =>
    exact Or.inl (mem_holders_of_stepped (stepped_of_step hb h) (Or.inl rfl) hmem)

/-- A cancel is no drop. -/
theorem dropped_of_cancel {s : TimerWorld} {which : Nat × TimerId × TimerPtr → Bool} {ptr : TimerPtr}
    (h : .dropped ptr ∈ (s.drop true which).log) : .dropped ptr ∈ s.log := by
  rcases List.mem_append.mp h with hmem | hmem
  · obtain ⟨holder, -, heq⟩ := List.mem_map.mp hmem
    cases heq
  · exact hmem

/-- A holder that goes without a cancel is dropped by its own event. -/
theorem dropped_step {s s' : TimerWorld} {e : TimerEvent} (hstep : Stepped s e s') {ptr : TimerPtr}
    (h : .dropped ptr ∈ s'.log) : .dropped ptr ∈ s.log ∨ e = .dropHolder ptr := by
  cases hstep with
  | register | once | every => exact Or.inl (by simpa using h)
  | drop huser hins =>
    cases e with
    | dropHolder p =>
      rcases List.mem_append.mp h with hmem | hmem
      · obtain ⟨holder, hholder, heq⟩ := List.mem_map.mp hmem
        have hp : holder.2.2 = p := beq_iff_eq.mp (List.mem_filter.mp hholder).2
        cases heq
        exact Or.inr (by rw [hp])
      · exact Or.inl hmem
    | runAt | runAfter | runEvery | insertTimer | cancelTimer | cancelAllTimer | handleTimeoutEvents
    | iterate | handlerReturned => exact Or.inl (dropped_of_cancel h)
  | skip | enter | leave | expired | returned => exact Or.inl h

/-! ### The handler called -/

theorem runHandler_running {s s' : TimerWorld} {ptr : TimerPtr} {clock : Timestamp}
    (h : s.runHandler ptr clock = .ok s') : s'.running = s.running := by
  unfold runHandler at h
  obtain ⟨timer, -, h⟩ := bind_eq_ok.mp h
  dsimp only at h
  split at h
  · cases h
    rfl
  · obtain ⟨timers, -, h⟩ := bind_eq_ok.mp h
    obtain ⟨q, -, h⟩ := bind_eq_ok.mp h
    cases h
    rfl

theorem due_eq_some {s : TimerWorld} {ptr : TimerPtr} : s.due = some ptr ↔ ∃ now,
    s.phase = .draining now ∧ ¬s.tqueue_.queue_.empty = true ∧ s.tqueue_.root.timeout ≤ now ∧
      s.tqueue_.root.weakTimerPtr_ = some ptr := by
  unfold due
  constructor
  · intro h
    split at h
    · next now hphase =>
      split at h
      · cases h
      · next hcond =>
        rw [Bool.or_eq_true, not_or] at hcond
        exact ⟨now, hphase, hcond.1, by simpa using hcond.2, h⟩
    · cases h
  · rintro ⟨now, hphase, hne, hdue, hptr⟩
    simp [hphase, hne, hdue, hptr]

/-- The loop calls the handler of a due root that has an owner. -/
theorem iterate_running {s s' : TimerWorld} {now clock : Timestamp} {ptr : TimerPtr}
    (hb : s.tqueue_.queue_.InBounds) (hphase : s.phase = .draining now) (hdue : s.due = some ptr)
    (hal : s.alive ptr = true) (h : s.iterate now clock = .ok s') : s'.running = some ptr := by
  obtain ⟨now', hphase', hne, hle, hptr⟩ := due_eq_some.mp hdue
  rw [hphase] at hphase'
  cases hphase'
  have hlock : s.tqueue_.root.weakTimerPtr_.filter s.alive = some ptr := lock_eq_some.mpr ⟨hptr, hal⟩
  have hlt : ¬Timestamp.lt now s.tqueue_.root.timeout = true := by simpa using hle
  unfold iterate at h
  rw [if_neg hne, (TimerQueue.findMin_root hb hne).1, ok_bind, if_neg hlt, hlock] at h
  exact runHandler_running h

theorem started_eq_some {s s' : TimerWorld} {e : TimerEvent} (hb : s.tqueue_.queue_.InBounds)
    (h : s.step e = .ok s') (ptr : TimerPtr) :
    s.started s' = some ptr ↔
      (∃ clock, e = .iterate clock) ∧ s.due = some ptr ∧ s.alive ptr = true := by
  constructor
  · intro hst
    unfold started at hst
    split at hst
    · next hidle =>
      cases stepped_of_step hb h with
      | @once now clock p timer hphase hne hdue hlock =>
        cases hst
        obtain ⟨hptr, hal⟩ := lock_eq_some.mp hlock
        exact ⟨⟨clock, rfl⟩, due_eq_some.mpr ⟨now, hphase, hne, hdue, hptr⟩, hal⟩
      | @every now clock timestamp p timer q hphase hne hdue hlock =>
        cases hst
        obtain ⟨hptr, hal⟩ := lock_eq_some.mp hlock
        exact ⟨⟨clock, rfl⟩, due_eq_some.mpr ⟨now, hphase, hne, hdue, hptr⟩, hal⟩
      | skip | register | drop =>
        have hst : s.running = some ptr := hst
        rw [hidle] at hst
        cases hst
      | enter | leave | expired | returned => cases hst
    · cases hst
  · rintro ⟨⟨clock, rfl⟩, hdue, hal⟩
    obtain ⟨now, hphase, -⟩ := due_eq_some.mp hdue
    have hidle : s.running = none := by simp [running, hphase]
    unfold started
    rw [if_pos hidle]
    refine @iterate_running _ _ _ clock _ hb hphase hdue hal ?_
    rw [step, hphase] at h
    exact h

end TimerWorld

namespace ConnTimers

open TimerWorld

/-! ## Who owns what -/

/-- The holders of the connection's timers, and what is left of them after `~Connection`. -/
structure Held (t : ConnTimers) : Prop where
  tracked : Tracked t.loop
  bound : ∀ ptr ∈ t.bound, ptr < t.loop.timers.length
  /-- A timer registered through the connection is held by it. -/
  owner : ∀ holder ∈ t.loop.timerHolders_, holder.2.2 ∈ t.bound → holder.1 = conn
  gone : t.destructed = true → ∀ holder ∈ t.loop.timerHolders_, holder.1 ≠ conn
  /-- Its timers go only by a cancel. -/
  kept : ∀ ptr ∈ t.bound, .dropped ptr ∉ t.loop.log

/-- What every event keeps. -/
structure Sound (t : ConnTimers) : Prop where
  held : Held t
  /-- Without an owner the connection is gone. -/
  kept : t.owned = false → t.destructed = true

theorem sound_init : Sound init where
  held :=
    { tracked := tracked_init
      bound := fun ptr hptr => absurd hptr List.not_mem_nil
      owner := fun holder hmem => absurd hmem List.not_mem_nil
      gone := fun h => by cases h
      kept := fun ptr hptr => absurd hptr List.not_mem_nil }
  kept := fun h => by cases h

theorem Held.settle {t : ConnTimers} (h : Held t) : Sound (settle t) := by
  unfold ConnTimers.settle
  split
  · next hcond =>
    refine ⟨h, fun hno => ?_⟩
    rw [hno, Bool.false_or] at hcond
    exact hcond
  · refine ⟨⟨h.tracked.drop _ _, h.bound, fun holder hmem => ?_, fun _ holder hmem => ?_,
      fun ptr hptr hmem => ?_⟩, fun _ => rfl⟩
    · exact h.owner holder (List.mem_filter.mp hmem).1
    · simpa using (List.mem_filter.mp hmem).2
    · exact h.kept ptr hptr (dropped_of_cancel hmem)

@[simp] theorem settle_late (t : ConnTimers) : (settle t).late = t.late := by
  unfold settle
  split <;> rfl

@[simp] theorem settle_bound (t : ConnTimers) : (settle t).bound = t.bound := by
  unfold settle
  split <;> rfl

theorem settle_destructed {t : ConnTimers} (h : t.owned = false) : (settle t).destructed = true := by
  unfold settle
  split
  · next hcond =>
    rw [h, Bool.false_or] at hcond
    exact hcond
  · rfl

@[simp] theorem destroy_late (t : ConnTimers) : t.destroy.late = t.late := by
  unfold destroy
  split
  · rfl
  · exact settle_late _

/-- The holders of the connection's timers after an event of the timers. -/
theorem Sound.follow {t : ConnTimers} (h : Sound t) {e : TimerEvent} {captures : Bool}
    {loop : TimerWorld} (hpos : ¬t.impossible e captures) (hloop : t.loop.step e = .ok loop) :
    Held (t.follow e captures loop) := by
  obtain ⟨⟨htracked, hbound, howner, hgone, hkept⟩, -⟩ := h
  have he : ¬TimerEvent.ownId e := fun hown => hpos (Or.inl hown)
  have hstep := stepped_of_step htracked.base.inBounds hloop
  have hmem := fun holder => @mem_holders_of_step _ _ _ htracked.base.inBounds he hloop holder
  have hnew : ∀ {ptr}, ptr ∈ (t.follow e captures loop).bound → ptr ∈ t.bound ∨
      ptr = t.loop.timers.length ∧ t.loop.timers.length < loop.timers.length ∧
        e.owner? = some conn := by
    intro ptr hptr
    dsimp only [ConnTimers.follow] at hptr
    split at hptr
    · next hcond =>
      rcases List.mem_cons.mp hptr with rfl | hptr
      · simp only [Bool.and_eq_true, decide_eq_true_eq] at hcond
        exact Or.inr ⟨rfl, hcond.1⟩
      · exact Or.inl hptr
    · exact Or.inl hptr
  refine ⟨htracked.step he hstep, fun ptr hptr => ?_, fun holder hh hptr => ?_, fun hd holder hh => ?_,
    fun ptr hptr hdropped => ?_⟩
  · rcases hnew hptr with hold | ⟨rfl, hlt, -⟩
    · exact lt_of_lt_of_le (hbound ptr hold) (length_le_step hstep)
    · exact hlt
  · rcases hmem holder hh with hold | ⟨how, heq⟩
    · refine howner holder hold ?_
      rcases hnew hptr with hptr | ⟨heq, -⟩
      · exact hptr
      · -- an old holder does not hold the new timer
        have hlt := ((htracked.owned holder.2.2).mp (List.mem_map.mpr ⟨holder, hold, rfl⟩)).1
        exact absurd heq (ne_of_lt hlt)
    · rcases hnew hptr with hptr | ⟨-, -, hconn⟩
      · exact absurd heq (ne_of_lt (hbound _ hptr))
      · rw [how] at hconn
        exact Option.some.inj hconn
  · rcases hmem holder hh with hold | ⟨how, -⟩
    · exact hgone hd holder hold
    · intro heq
      rw [heq] at how
      exact hpos (Or.inr (Or.inr ⟨hd, Or.inl how⟩))
  · rcases hnew hptr with hold | ⟨rfl, -, hconn⟩
    · rcases dropped_step hstep hdropped with hmem | rfl
      · exact hkept ptr hold hmem
      · exact hpos (Or.inr (Or.inl ⟨ptr, hold, rfl⟩))
    · rcases dropped_step hstep hdropped with hmem | rfl
      · exact lt_irrefl _ (htracked.logged _ hmem)
      · cases hconn

theorem Sound.destroy {t : ConnTimers} (h : Sound t) : Sound t.destroy := by
  unfold ConnTimers.destroy
  split
  · exact h
  · exact Held.settle ⟨h.held.tracked, h.held.bound, h.held.owner, h.held.gone, h.held.kept⟩

/-- No reference of `handleTimeoutEvents` dangles when the event comes. -/
def NotGrown (t : ConnTimers) : ConnEvent → Prop
  | .timer e captures => t.impossible e captures ∨ t.loop.NotGrown e
  | _ => True

/-- **A step returns exactly if no reference dangles.** -/
theorem Sound.step_ok_iff {t : ConnTimers} (h : Sound t) (e : ConnEvent) :
    (∃ t', t.step e = .ok t') ↔ t.NotGrown e := by
  cases e with
  | timer e captures =>
    by_cases hpos : t.impossible e captures
    · exact iff_of_true ⟨t, if_pos hpos⟩ (Or.inl hpos)
    · have he : ¬TimerEvent.ownId e := fun hown => hpos (Or.inl hown)
      have hloop := TimerWorld.step_ok_iff h.held.tracked.base (TimerEvent.valid_of_not_ownId he)
      refine Iff.trans ?_ (hloop.trans (or_iff_right hpos).symm)
      dsimp only [ConnTimers.step]
      rw [if_neg hpos]
      constructor
      · rintro ⟨t', ht'⟩
        obtain ⟨loop, hstep, -⟩ := bind_eq_ok.mp ht'
        exact ⟨loop, hstep⟩
      · rintro ⟨loop, hstep⟩
        exact ⟨_, by rw [hstep, ok_bind]; rfl⟩
  | own | release | destroy => exact iff_of_true ⟨_, rfl⟩ trivial

theorem Sound.step {t t' : ConnTimers} {e : ConnEvent} (h : Sound t) (ht : t.step e = .ok t') :
    Sound t' := by
  have hheld : ∀ {refs : Nat}, Held { t with refs := refs } := fun {refs} =>
    ⟨h.held.tracked, h.held.bound, h.held.owner, h.held.gone, h.held.kept⟩
  cases e with
  | timer e captures =>
    dsimp only [ConnTimers.step] at ht
    split at ht
    · cases ht
      exact h
    · next hpos =>
      obtain ⟨loop, hloop, ht⟩ := bind_eq_ok.mp ht
      cases ht
      exact (h.follow hpos hloop).settle
  | own =>
    cases ht
    split
    · exact h
    · refine ⟨hheld, fun hno => ?_⟩
      simp [owned] at hno
  | release =>
    cases ht
    split
    · exact h
    · exact hheld.settle
  | destroy =>
    cases ht
    split
    · exact h
    · exact h.destroy

/-! ## When a timer comes after destroy -/

/--
If the due root is a timer that was registered before `destroy`, and some `shared_ptr` to the
connection is left, then the timer was cancelled.
-/
def CancelledBefore (t : ConnTimers) : ConnEvent → Prop
  | .timer (.iterate _) _ => ∀ ptr ∈ t.loop.due, t.destroy_ = true → ptr ∈ t.bound →
      t.owned = true → .cancelled ptr ∈ t.loop.log
  | _ => True

theorem Held.alive_iff {t : ConnTimers} (h : Held t) {ptr : TimerPtr} (hdue : t.loop.due = some ptr)
    (hbound : ptr ∈ t.bound) : t.loop.alive ptr = true ↔ .cancelled ptr ∉ t.loop.log := by
  obtain ⟨now, hphase, -⟩ := due_eq_some.mp hdue
  rw [alive_draining hphase, h.tracked.owned, and_iff_right (h.bound ptr hbound)]
  refine not_congr ⟨fun ⟨cancel, hmem⟩ => ?_, fun hmem => ⟨true, hmem⟩⟩
  cases cancel with
  | true => exact hmem
  | false => exact absurd hmem (h.kept ptr hbound)

/-- `~Connection` has cancelled whatever timer of the connection was left. -/
theorem Held.cancelled_of_destructed {t : ConnTimers} (h : Held t) (hd : t.destructed = true)
    {ptr : TimerPtr} (hbound : ptr ∈ t.bound) : .cancelled ptr ∈ t.loop.log := by
  by_contra hcan
  have hrel : ¬t.loop.Released ptr := by
    rintro ⟨cancel, hmem⟩
    cases cancel with
    | true => exact hcan hmem
    | false => exact h.kept ptr hbound hmem
  have hheld := (h.tracked.owned ptr).mpr ⟨h.bound ptr hbound, hrel⟩
  obtain ⟨holder, hmem, rfl⟩ := List.mem_map.mp hheld
  exact h.gone hd holder hmem (h.owner holder hmem hbound)

/-- A timer of the connection that still has an owner shows that the connection has one. -/
theorem Sound.owned_of_alive {t : ConnTimers} (h : Sound t) {ptr : TimerPtr}
    (hdue : t.loop.due = some ptr) (hbound : ptr ∈ t.bound) (hal : t.loop.alive ptr = true) :
    t.owned = true := by
  by_contra hno
  have hd := h.kept (Bool.eq_false_iff.mpr hno)
  exact (h.held.alive_iff hdue hbound).mp hal (h.held.cancelled_of_destructed hd hbound)

theorem follow_late {t : ConnTimers} (hlate : t.late = []) (e : TimerEvent) (captures : Bool)
    (loop : TimerWorld) : (settle (t.follow e captures loop)).late = [] ↔
      ∀ ptr, t.loop.started loop = some ptr → t.destroy_ = true → ptr ∉ t.bound := by
  rw [settle_late]
  dsimp only [follow]
  rw [hlate, List.append_nil, List.filter_eq_nil_iff]
  simp

/-- A pass calls a handler of `bound` after `destroy` exactly where one was due and not cancelled. -/
theorem Sound.late_iterate {t : ConnTimers} (h : Sound t) {clock : Timestamp} {loop : TimerWorld}
    {captures : Bool} (hloop : t.loop.step (.iterate clock) = .ok loop) :
    (∀ ptr, t.loop.started loop = some ptr → t.destroy_ = true → ptr ∉ t.bound) ↔
      t.CancelledBefore (.timer (.iterate clock) captures) := by
  have hstarted := started_eq_some h.held.tracked.base.inBounds hloop
  constructor
  · intro hno ptr hdue hdestroy hbound _
    by_contra hcan
    have hal := (h.held.alive_iff hdue hbound).mpr hcan
    exact hno ptr ((hstarted ptr).mpr ⟨⟨clock, rfl⟩, hdue, hal⟩) hdestroy hbound
  · intro hc ptr hst hdestroy hbound
    obtain ⟨-, hdue, hal⟩ := (hstarted ptr).mp hst
    have hcan := hc ptr hdue hdestroy hbound (h.owned_of_alive hdue hbound hal)
    exact (h.held.alive_iff hdue hbound).mp hal hcan

theorem Sound.late_step {t t' : ConnTimers} {e : ConnEvent} (h : Sound t) (hlate : t.late = [])
    (hstep : t.step e = .ok t') : t'.late = [] ↔ t.CancelledBefore e := by
  cases e with
  | timer e captures =>
    by_cases hpos : t.impossible e captures
    · -- nothing is called; after `~Connection` every timer of it is cancelled
      rw [ConnTimers.step, if_pos hpos] at hstep
      cases hstep
      refine iff_of_true hlate ?_
      cases e with
      | iterate clock =>
        intro ptr _ _ hbound _
        rcases hpos with hown | ⟨p, -, heq⟩ | ⟨hd, -⟩
        · exact absurd hown id
        · cases heq
        · exact h.held.cancelled_of_destructed hd hbound
      | runAt | runAfter | runEvery | insertTimer | cancelTimer | cancelAllTimer | dropHolder
      | handleTimeoutEvents | handlerReturned => exact trivial
    · rw [ConnTimers.step, if_neg hpos] at hstep
      obtain ⟨loop, hloop, hstep⟩ := bind_eq_ok.mp hstep
      cases hstep
      rw [follow_late hlate]
      cases e with
      | iterate clock => exact h.late_iterate hloop
      | runAt | runAfter | runEvery | insertTimer | cancelTimer | cancelAllTimer | dropHolder
      | handleTimeoutEvents | handlerReturned =>
        refine iff_of_true (fun ptr hst => ?_) trivial
        obtain ⟨⟨clock, he⟩, -⟩ :=
          (started_eq_some h.held.tracked.base.inBounds hloop ptr).mp hst
        cases he
  | own =>
    cases hstep
    refine iff_of_true ?_ trivial
    split <;> exact hlate
  | release =>
    cases hstep
    refine iff_of_true ?_ trivial
    split
    · exact hlate
    · rw [settle_late]
      exact hlate
  | destroy =>
    cases hstep
    refine iff_of_true ?_ trivial
    split
    · exact hlate
    · rw [destroy_late]
      exact hlate

/-! ## The results -/

/-- Where nobody else owns the connection, `destroy` does cancel its timers. -/
theorem Sound.destroy_cancels {t : ConnTimers} (h : Sound t) (hfirst : t.destroy_ = false)
    (hrefs : t.refs = 0) (hcap : ∀ ptr ∈ t.captured, t.loop.alive ptr = false) :
    ∀ ptr ∈ t.bound, .cancelled ptr ∈ t.destroy.loop.log := by
  have heq : t.destroy = settle { t with destroy_ := true, self_ := false } :=
    if_neg (by rw [hfirst]; exact Bool.false_ne_true)
  have hno : owned { t with destroy_ := true, self_ := false } = false := by
    simpa [owned, hrefs] using hcap
  intro ptr hptr
  refine h.destroy.held.cancelled_of_destructed ?_ ?_
  · rw [heq, settle_destructed hno]
  · rw [heq, settle_bound]
    exact hptr

theorem late_faults {t : ConnTimers} (h : Sound t) {e : ConnEvent} {f : Fault}
    (herror : t.step e = .error f) : t.CancelledBefore e := by
  -- only a handler that returns can find a reference that dangles
  have hgrown : ¬t.NotGrown e := fun hgrown => by
    obtain ⟨t', ht'⟩ := (h.step_ok_iff e).mpr hgrown
    rw [herror] at ht'
    cases ht'
  cases e with
  | timer e captures =>
    cases e with
    | iterate clock => exact absurd (Or.inr trivial) hgrown
    | runAt | runAfter | runEvery | insertTimer | cancelTimer | cancelAllTimer | dropHolder
    | handleTimeoutEvents | handlerReturned => exact trivial
  | own | release | destroy => exact trivial

/--
**`destroy` leaves the timers to the owners of the connection.** No handler of a timer registered before
`destroy` is called after it exactly if at every pass over a due timer of these, it was cancelled or no
`shared_ptr` to the connection is left. A run returns exactly if the heap's vector never grows under a handler.
-/
theorem silent_after_destroy_iff (es : List ConnEvent) :
    ((∃ t, run step init es = .ok t) ↔ Along step NotGrown init es) ∧
      (Along step CancelledBefore init es ↔
        ∀ es' t', es' <+: es → run step init es' = .ok t' → t'.late = []) := by
  have hall : Along step (fun _ _ => True) init es := along_of_forall (fun _ _ _ => trivial) init
  constructor
  · exact run_returns_iff (fun _ _ _ hs _ ht => Sound.step hs ht)
      (fun _ e hs _ => Sound.step_ok_iff hs e) es sound_init hall
  · exact along_iff_reached (fun _ _ _ hs _ ht => Sound.step hs ht)
      (fun _ _ _ hs hlate _ ht => hs.late_step hlate ht) (fun _ _ _ hs _ herror => late_faults hs herror)
      es sound_init rfl hall

/-- A timer whose handler has captured the `ConnPtr` outlives `destroy`. -/
def capturedRun : List ConnEvent :=
  [.timer (.runAfter conn ⟨1, 0⟩ ⟨4, 0⟩) true, .destroy,
    .timer (.handleTimeoutEvents ⟨9, 0⟩) false, .timer (.iterate ⟨9, 0⟩) false]

/-- Its handler is called, though `destroy` has returned. -/
theorem captured_runs_late : ¬∀ es : List ConnEvent, ∀ es' t', es' <+: es →
    run step init es' = .ok t' → t'.late = [] := by
  intro hall
  have hsees : (run step init capturedRun).toOption.map (fun t => (t.destroy_, t.late))
      = some (true, [0]) := by decide +kernel
  obtain ⟨t, hrun, hlate⟩ := ok_of_toOption_map hsees
  have hnil := hall capturedRun capturedRun t (List.prefix_refl _) hrun
  rw [Prod.mk.injEq, hnil] at hlate
  cases hlate.2

end ConnTimers

end Liby
