import Liby.Timer.TimerOrder

/-!
# Timers fire when due

A call of `handleTimeoutEvents` is a run from an idle loop to an idle loop with no idle state in
between (`Call`). In a run whose inserts are in order, such a call leaves nothing in the queue
that was due, and the handlers it runs come in the order of their timeouts.
-/

namespace Liby

open Infra

namespace TimerWorld

/-- A whole call of `handleTimeoutEvents`, with what the handlers do in `body`. -/
structure Call (s : TimerWorld) (now : Timestamp) (body : List TimerEvent) (s' : TimerWorld) :
    Prop where
  starts : s.phase = .idle
  ends : s'.phase = .idle
  inside : Along step (fun t _ => t.phase ≠ .idle) (s.handleTimeoutEvents now) body
  runs : run step (s.handleTimeoutEvents now) body = .ok s'

/-- The entries whose handlers are run, in order. -/
def firedAlong : TimerWorld → List TimerEvent → List WeakTimerHolder
  | _, [] => []
  | s, e :: es =>
    match s.step e with
    | .error _ => []
    | .ok s' =>
      match s.phase, s'.phase with
      | .draining _, .handling _ entry _ => entry :: firedAlong s' es
      | _, _ => firedAlong s' es

/-- The reading of the clock that the loop is working with. -/
def drainNow (s : TimerWorld) : Option Timestamp :=
  match s.phase with
  | .idle => none
  | .draining now => some now
  | .handling now _ _ => some now

theorem drainNow_eq_none {s : TimerWorld} : s.drainNow = none ↔ s.phase = .idle := by
  unfold drainNow
  split <;> simp_all

/-- What one step in a call does: it goes on with the same reading, or leaves with nothing due. -/
theorem drainNow_step {s s' : TimerWorld} {e : TimerEvent} {now : Timestamp} (hs : Sorted s)
    (hnow : s.drainNow = some now) (h : Stepped s e s') :
    s'.drainNow = some now ∨ s'.phase = .idle ∧ ∀ w ∈ s'.entries, now < w.timeout := by
  cases h with
  | skip => exact Or.inl hnow
  | register => exact Or.inl hnow
  | drop => exact Or.inl hnow
  | enter hphase => simp [drainNow, hphase] at hnow
  | @leave now' clock q hphase hwhy hq =>
    simp only [drainNow, hphase, Option.some.injEq] at hnow
    subst hnow
    refine Or.inr ⟨rfl, fun w hw => ?_⟩
    have hw : w ∈ BinaryHeap.contents q.queue_ := hw
    rw [queue_rearm hs.base hq] at hw
    rcases hwhy with hempty | hlt
    · rw [BinaryHeap.empty_iff] at hempty
      rw [hempty] at hw
      simp at hw
    · exact lt_of_lt_of_le hlt (hs.root_le w hw)
  | expired hphase => simp_all [drainNow]
  | once hphase => simp_all [drainNow]
  | every hphase => simp_all [drainNow]
  | returned hphase => simp_all [drainNow]

/-- In a call, nothing that comes into the queue is due before what was there. -/
theorem lower_bound_step {s s' : TimerWorld} {e : TimerEvent} {c : Timestamp} (hs : Sorted s)
    (hc : InsertsInOrder s e) (hphase : s.phase ≠ .idle) (hlow : ∀ w ∈ s.entries, c ≤ w.timeout)
    (h : Stepped s e s') : ∀ w ∈ s'.entries, c ≤ w.timeout := by
  -- an entry inserted in a call is not due before the root
  have hins : ∀ {w : WeakTimerHolder} {q : TimerQueue}, s.inserts e = some w →
      s.tqueue_.root ∈ s.entries → s.tqueue_.insertWeak w = .ok q →
      ∀ v ∈ q.entries, c ≤ v.timeout := by
    intro w q hw hmem hq v hv
    rw [entries_insert hs.base hq, Multiset.mem_cons] at hv
    rcases hv with rfl | hv
    · exact le_trans (hlow _ hmem) ((hc _ hw).2 hphase).1
    · exact hlow v hv
  have hdel : ∀ {q : TimerQueue}, ¬s.tqueue_.queue_.empty = true → s.tqueue_.deleteMin = .ok q →
      ∀ v ∈ q.entries, c ≤ v.timeout := by
    intro q hne hq v hv
    refine hlow v ?_
    rw [entries_delete hs.base hne hq]
    exact Multiset.mem_cons_of_mem hv
  cases h with
  | skip => exact hlow
  | @register _ owner timer ids q huser hw hids hq =>
    cases hp : s.phase with
    | idle => exact absurd hp hphase
    | draining now => simp [userCode, hp] at huser
    | handling now entry ptr =>
      have hne := (hs.base.handling now entry ptr hp).1
      exact hins hw (TimerQueue.findMin_root hs.base.inBounds hne).2 hq
  | drop => exact hlow
  | enter hp => exact absurd hp hphase
  | @leave now clock q hp hwhy hq =>
    intro w hw
    have hw : w ∈ BinaryHeap.contents q.queue_ := hw
    rw [queue_rearm hs.base hq] at hw
    exact hlow w hw
  | expired hp hne hdue hlock hq => exact hdel hne hq
  | once => exact hlow
  | every hp hne hdue hlock htimer hevery hw hq =>
    exact hins hw (TimerQueue.findMin_root hs.base.inBounds hne).2 hq
  | @returned now entry ptr q hp hq => exact hdel (hs.base.handling now entry ptr hp).1 hq

/-- A step into a handler calls the handler of the root. -/
theorem handling_step {s s' : TimerWorld} {e : TimerEvent} {now now' : Timestamp}
    {entry : WeakTimerHolder} {ptr : TimerPtr} (hs : Sorted s) (hphase : s.phase = .draining now)
    (hphase' : s'.phase = .handling now' entry ptr) (h : Stepped s e s') :
    entry = s.tqueue_.root ∧ entry ∈ s.entries := by
  have hroot : ¬s.tqueue_.queue_.empty = true → s.tqueue_.root ∈ s.entries :=
    fun hne => (TimerQueue.findMin_root hs.base.inBounds hne).2
  cases h with
  | skip => simp [hphase] at hphase'
  | register => simp [hphase] at hphase'
  | drop => simp [drop, hphase] at hphase'
  | enter => cases hphase'
  | leave => cases hphase'
  | expired => cases hphase'
  | once hp hne => cases hphase'; exact ⟨rfl, hroot hne⟩
  | every hp hne => cases hphase'; exact ⟨rfl, hroot hne⟩
  | returned => cases hphase'

/-- The handlers of a call go on from the one that the step enters, if it enters one. -/
theorem firedAlong_cons {s s' : TimerWorld} {e : TimerEvent} (h : s.step e = .ok s')
    (es : List TimerEvent) :
    firedAlong s (e :: es) = firedAlong s' es ∨
      ∃ now now' entry ptr, s.phase = .draining now ∧ s'.phase = .handling now' entry ptr ∧
        firedAlong s (e :: es) = entry :: firedAlong s' es := by
  rw [firedAlong, h]
  dsimp only
  split
  · next now now' entry ptr hphase hphase' =>
    exact Or.inr ⟨now, now', entry, ptr, hphase, hphase', rfl⟩
  · exact Or.inl rfl

/-- What the rest of a call does, from inside its loop. -/
theorem call_body {now : Timestamp} : ∀ {body : List TimerEvent} {t s' : TimerWorld}, Sorted t →
    t.drainNow = some now → Along step InsertsInOrder t body →
    Along step (fun u _ => u.phase ≠ .idle) t body → run step t body = .ok s' →
    s'.phase = .idle →
    (∀ w ∈ s'.entries, now < w.timeout) ∧
      (firedAlong t body).Pairwise (fun a b => a.timeout ≤ b.timeout) ∧
      ∀ c, (∀ w ∈ t.entries, c ≤ w.timeout) → ∀ f ∈ firedAlong t body, c ≤ f.timeout
  | [], t, s', hs, hnow, _, _, hrun, hidle => by
    cases hrun
    rw [drainNow_eq_none.mpr hidle] at hnow
    cases hnow
  | e :: es, t, s', hs, hnow, hc, hin, hrun, hidle => by
    obtain ⟨t', ht, hrest⟩ := run_cons_ok hrun
    have hst := stepped_of_step hs.base.inBounds ht
    have hs' := hs.step hc.1 hst
    have hlow : ∀ c, (∀ w ∈ t.entries, c ≤ w.timeout) → ∀ w ∈ t'.entries, c ≤ w.timeout :=
      fun c hlow => lower_bound_step hs hc.1 hin.1 hlow hst
    rcases drainNow_step hs hnow hst with hnow' | ⟨hidle', hdue⟩
    · obtain ⟨h1, h2, h3⟩ := call_body hs' hnow' (hc.2 t' ht) (hin.2 t' ht) hrest hidle
      rcases firedAlong_cons ht es with hf | ⟨n, n', entry, ptr, hp, hp', hf⟩
      · rw [hf]
        exact ⟨h1, h2, fun c hcw => h3 c (hlow c hcw)⟩
      · -- the entry fired was the root, and all that comes later was in the queue or after it
        obtain ⟨hroot, hmem⟩ := handling_step hs hp hp' hst
        have hmin : ∀ f ∈ firedAlong t' es, entry.timeout ≤ f.timeout := by
          refine h3 _ (hlow _ ?_)
          rw [hroot]
          exact hs.root_le
        rw [hf]
        refine ⟨h1, List.pairwise_cons.mpr ⟨hmin, h2⟩, fun c hcw f hfm => ?_⟩
        rcases List.mem_cons.mp hfm with rfl | hfm
        · exact hcw _ hmem
        · exact h3 c (hlow c hcw) f hfm
    · -- the call is over: nothing can follow
      cases es with
      | cons e' es' => exact absurd hidle' (hin.2 t' ht).1
      | nil =>
        cases hrest
        rcases firedAlong_cons ht [] with hf | ⟨_, _, _, _, _, hp', _⟩
        · rw [hf]
          exact ⟨hdue, List.Pairwise.nil, fun c _ f hfm => by simp [firedAlong] at hfm⟩
        · rw [hidle'] at hp'
          cases hp'

theorem sorted_run {es : List TimerEvent} {s : TimerWorld} (hc : Along step InsertsInOrder init es)
    (h : run step init es = .ok s) : Sorted s :=
  run_invariant_along (fun _ _ _ hi hce hst => hi.step hce (stepped_of_step hi.base.inBounds hst))
    sorted_init hc h

/--
**Timers fire when due.** In a run whose inserts are all in order, a call of
`handleTimeoutEvents` leaves no timer in the queue that was due, and runs the handlers in
the order of their timeouts.
-/
theorem call_fires_due {es body : List TimerEvent} {s s' : TimerWorld} {now : Timestamp}
    (hrun : run step init es = .ok s) (hcall : Call s now body s')
    (hc : Along step InsertsInOrder init (es ++ .handleTimeoutEvents now :: body)) :
    (∀ w ∈ s'.entries, s'.lock w ≠ none → ¬w.timeout ≤ now) ∧
      (firedAlong s (.handleTimeoutEvents now :: body)).Pairwise
        (fun a b => a.timeout ≤ b.timeout) := by
  obtain ⟨hc1, hc2, hcbody⟩ := (along_append hrun).mp hc
  have hs := sorted_run hc1 hrun
  have hstep : s.step (.handleTimeoutEvents now) = .ok (s.handleTimeoutEvents now) := by
    simp only [step, hcall.starts]
  have hst := stepped_of_step hs.base.inBounds hstep
  have hs1 := hs.step hc2 hst
  -- reading the clock fires nothing
  have hfired : firedAlong s (.handleTimeoutEvents now :: body)
      = firedAlong (s.handleTimeoutEvents now) body := by
    rcases firedAlong_cons hstep body with hf | ⟨_, _, _, _, hp, _, _⟩
    · exact hf
    · rw [hcall.starts] at hp
      cases hp
  rw [hfired]
  by_cases hempty : s.tqueue_.queue_.empty = true
  · -- with an empty queue the call returns at once
    have hsame : s.handleTimeoutEvents now = s := by
      unfold handleTimeoutEvents
      rw [if_pos hempty]
    have hbody : body = [] := by
      cases hb : body with
      | nil => rfl
      | cons e es' =>
        have hin := hcall.inside
        rw [hsame, hb] at hin
        exact absurd hcall.starts hin.1
    have hend := hcall.runs
    rw [hsame, hbody] at hend ⊢
    cases hend
    rw [TimerQueue.empty_iff] at hempty
    refine ⟨fun w hw => ?_, List.Pairwise.nil⟩
    have hw : w ∈ s.tqueue_.entries := hw
    rw [hempty] at hw
    simp at hw
  · have hnow : (s.handleTimeoutEvents now).drainNow = some now := by
      unfold handleTimeoutEvents
      rw [if_neg hempty]
      rfl
    obtain ⟨h1, h2, -⟩ := call_body hs1 hnow (hcbody _ hstep) hcall.inside hcall.runs hcall.ends
    exact ⟨fun w hw _ => not_le.mpr (h1 w hw), h2⟩

/-- Two timers made in the order of their timeouts, both due. -/
theorem call_fires_due_both :
    ∃ s s' : TimerWorld, ∃ body,
      (∀ w ∈ s'.entries, s'.lock w ≠ none → ¬w.timeout ≤ ⟨7, 0⟩) ∧
        (firedAlong s (.handleTimeoutEvents ⟨7, 0⟩ :: body)).map (·.id) = [1, 2] ∧
        (firedAlong s (.handleTimeoutEvents ⟨7, 0⟩ :: body)).Pairwise
          (fun a b => a.timeout ≤ b.timeout) := by
  have h := @call_fires_due [.runAt 0 ⟨5, 0⟩, .runAt 1 ⟨6, 0⟩]
    [.iterate ⟨7, 0⟩, .handlerReturned, .iterate ⟨7, 0⟩, .handlerReturned, .iterate ⟨7, 0⟩]
    (stateAfter [.runAt 0 ⟨5, 0⟩, .runAt 1 ⟨6, 0⟩])
    (stateAfter [.runAt 0 ⟨5, 0⟩, .runAt 1 ⟨6, 0⟩, .handleTimeoutEvents ⟨7, 0⟩,
      .iterate ⟨7, 0⟩, .handlerReturned, .iterate ⟨7, 0⟩, .handlerReturned, .iterate ⟨7, 0⟩])
    ⟨7, 0⟩ (by decide +kernel)
    ⟨by decide +kernel, by decide +kernel, by decide +kernel, by decide +kernel⟩
    (by decide +kernel)
  exact ⟨_, _, _, h.1, by decide +kernel, h.2⟩

/-- A timer that was due stays in the queue, below a root that is not due. -/
theorem due_timer_left :
    ∃ s s' : TimerWorld, run step init [.runAt 0 ⟨10, 0⟩, .runAt 0 ⟨5, 0⟩] = .ok s ∧
      Call s ⟨7, 0⟩ [.iterate ⟨7, 0⟩] s' ∧
      firedAlong s [.handleTimeoutEvents ⟨7, 0⟩, .iterate ⟨7, 0⟩] = [] ∧
      ∃ w ∈ s'.entries, s'.lock w ≠ none ∧ w.timeout ≤ ⟨7, 0⟩ :=
  ⟨stateAfter [.runAt 0 ⟨10, 0⟩, .runAt 0 ⟨5, 0⟩],
    stateAfter [.runAt 0 ⟨10, 0⟩, .runAt 0 ⟨5, 0⟩, .handleTimeoutEvents ⟨7, 0⟩, .iterate ⟨7, 0⟩],
    by decide +kernel,
    ⟨by decide +kernel, by decide +kernel, by decide +kernel, by decide +kernel⟩,
    by decide +kernel, ⟨2, ⟨5, 0⟩, some 1⟩, by decide +kernel, by decide +kernel, by decide +kernel⟩

end TimerWorld

end Liby
