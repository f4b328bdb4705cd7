import Liby.Infra.Cursor
import Liby.Loop.EventQueue

/-!
# ResolverThread

`Resolver.cpp` and what it uses of `BlockingQueue.h`: the worker, any number of loops that issue
requests, and one call of `stop`. Between any two steps of one of them the others may take theirs.

`E` is the type of the endpoints. What `getaddrinfo` gives comes with the step; it is assumed to
return.
-/

namespace Liby

open Infra

variable {L H E : Type}

/-- The `tuple` of a request; both pointers may be null. -/
structure ResolveRequest (L H : Type) where
  name : Bytes
  port : Bytes
  loop : Option L
  handler : Option H
  deriving DecidableEq, Repr

/-- A call of `async_resolve` in a loop, with a handler. -/
structure Issue (L H : Type) where
  loop : L
  host : Bytes
  service : Bytes
  handler : H
  deriving DecidableEq, Repr

/-- What `async_resolve` puts in the queue. -/
def Issue.request (i : Issue L H) : ResolveRequest L H where
  name := i.host
  port := i.service
  loop := some i.loop
  handler := some i.handler

/-- What `stop` puts in the queue. -/
def ResolveRequest.sentinel : ResolveRequest L H :=
  { name := [], port := [], loop := none, handler := none }

/-- The call that a request comes from. -/
def ResolveRequest.issue? (r : ResolveRequest L H) : Option (Issue L H) :=
  match r.loop, r.handler with
  | some loop, some handler => some { loop := loop, host := r.name, service := r.port, handler := handler }
  | _, _ => none

@[simp] theorem Issue.issue?_request (i : Issue L H) : i.request.issue? = some i := rfl

@[simp] theorem ResolveRequest.issue?_sentinel : (sentinel : ResolveRequest L H).issue? = none := rfl

/-- `Resolver::resolve`, by what `getaddrinfo` answered: an error gives no endpoint. -/
def Resolver.resolve : Option (List E) → List E
  | none => []
  | some ailist => ailist

/-- A call of `runEventHandler`, on a loop, with the handler and the endpoints it will be called with. -/
structure Posted (L H E : Type) where
  loop : L
  handler : H
  eps : List E
  deriving DecidableEq, Repr

/-- What is to be posted for a call. -/
def Issue.post (i : Issue L H) (answer : Option (List E)) : Posted L H E where
  loop := i.loop
  handler := i.handler
  eps := Resolver.resolve answer

/-- Where the worker is in `func`. -/
inductive WorkerPoint (L H : Type) where
  /-- Before `while (keep_running)`. -/
  | test
  /-- In `pop_wait`, with the mutex, before it looks at the queue. -/
  | popWait
  /-- In `cond_.wait`, without the mutex. -/
  | asleep
  /-- With a request that it has popped. -/
  | popped (request : ResolveRequest L H)
  | ended
  deriving DecidableEq, Repr

/-- Where the thread is that calls `stop`. -/
inductive StopPoint where
  | notCalled
  /-- After `keep_running = false`. -/
  | stored
  | returned
  deriving DecidableEq, Repr

/--
`class ResolverThread` with its threads. `issued` are the calls of `async_resolve`, `answered` the
requests that were resolved, with the answers, and `posted` the calls of `runEventHandler`.
-/
structure ResolverThread (L H E : Type) where
  keepRunning : Bool
  requests_ : BlockingQueue (ResolveRequest L H)
  worker : WorkerPoint L H
  stopping : StopPoint
  issued : List (Issue L H)
  answered : List (Issue L H × Option (List E))
  posted : List (Posted L H E)
  deriving DecidableEq, Repr

/-- A step of one of the threads. -/
inductive ResolverStep (L H E : Type) where
  | asyncResolve (i : Issue L H)
  | test
  | look
  /-- `cond_.wait` may come back without a notification. -/
  | wake
  /-- The rest of the pass, with the answer of `getaddrinfo` if it is asked. -/
  | handle (answer : Option (List E))
  | store
  | push
  deriving DecidableEq, Repr

namespace ResolverThread

/-- After the constructor, with the worker started. -/
def init : ResolverThread L H E where
  keepRunning := true
  requests_ := { queue_ := [] }
  worker := .test
  stopping := .notCalled
  issued := []
  answered := []
  posted := []

/-- `push_notify`. -/
def pushNotify (s : ResolverThread L H E) (r : ResolveRequest L H) : ResolverThread L H E :=
  { s with
    requests_ := s.requests_.pushBack r
    worker := match s.worker with
      | .asleep => .popWait
      | worker => worker }

/-- `async_resolve`. -/
def asyncResolve (s : ResolverThread L H E) (i : Issue L H) : ResolverThread L H E :=
  { s.pushNotify i.request with issued := s.issued ++ [i] }

/-- `pop_wait`, up to the request or to `cond_.wait`. -/
def look (s : ResolverThread L H E) : ResolverThread L H E :=
  match s.requests_.queue_ with
  | [] => { s with worker := .asleep }
  | r :: rs => { s with requests_ := { queue_ := rs }, worker := .popped r }

/-- The pass of `func` from the request on. -/
def handle (s : ResolverThread L H E) (r : ResolveRequest L H) (answer : Option (List E)) :
    Exec (ResolverThread L H E) :=
  match r.handler with
  | none => .ok { s with worker := .test }
  | some handler =>
    -- `loop->runEventHandler`
    match r.loop with
    | none => .error .nullDeref
    | some loop =>
      .ok { s with
        worker := .test
        answered := s.answered ++
          [({ loop := loop, host := r.name, service := r.port, handler := handler }, answer)]
        posted := s.posted ++ [{ loop := loop, handler := handler, eps := Resolver.resolve answer }] }

/-- One step. A step that its thread is not at is no behaviour of the system. -/
def step (s : ResolverThread L H E) : ResolverStep L H E → Exec (ResolverThread L H E)
  | .asyncResolve i => .ok (s.asyncResolve i)
  | .test =>
    match s.worker with
    | .test => .ok { s with worker := if s.keepRunning then .popWait else .ended }
    | _ => .error .environment
  | .look =>
    match s.worker with
    | .popWait => .ok s.look
    | _ => .error .environment
  | .wake =>
    match s.worker with
    | .asleep => .ok { s with worker := .popWait }
    | _ => .error .environment
  | .handle answer =>
    match s.worker with
    | .popped r => s.handle r answer
    | _ => .error .environment
  | .store =>
    match s.stopping with
    | .notCalled => .ok { s with keepRunning := false, stopping := .stored }
    | _ => .error .environment
  | .push =>
    match s.stopping with
    | .stored => .ok { s.pushNotify .sentinel with stopping := .returned }
    | _ => .error .environment

/-! ## No request is lost, no worker stays -/

/-- The worker waits in `pop_wait`. -/
def Waiting (s : ResolverThread L H E) : Prop := s.worker = .popWait ∨ s.worker = .asleep

/-- The requests that were issued and not answered. -/
def pending (s : ResolverThread L H E) : List (Issue L H) :=
  (match s.worker with
    | .popped r => r.issue?.toList
    | _ => []) ++ s.requests_.queue_.filterMap ResolveRequest.issue?

/-- A request comes from a call of `async_resolve`, or from `stop`. -/
def Requested (r : ResolveRequest L H) : Prop := (∃ i : Issue L H, r = i.request) ∨ r = .sentinel

/--
The pass of the worker over a request, from `s` to `t`: it has posted once for a call, on the loop of the call, and
nothing for `stop`, and goes back to its test.
-/
structure Passes (r : ResolveRequest L H) (answer : Option (List E)) (s t : ResolverThread L H E) : Prop where
  posted : (∃ i : Issue L H, r = i.request ∧ t.posted = s.posted ++ [i.post answer]) ∨
    (r = .sentinel ∧ t.posted = s.posted)
  worker : t.worker = .test
  issued : t.issued = s.issued
  requests : t.requests_ = s.requests_
  stopping : t.stopping = s.stopping

structure Kept (s : ResolverThread L H E) : Prop where
  order : s.issued = s.answered.map Prod.fst ++ s.pending
  posted : s.posted = s.answered.map fun a => a.1.post a.2
  queued : ∀ r ∈ s.requests_.queue_, Requested r
  popped : ∀ r, s.worker = .popped r → Requested r
  running : s.keepRunning = true ↔ s.stopping = .notCalled
  /-- Only a push lets the worker sleep no more. -/
  asleep : s.worker = .asleep → s.requests_.queue_ = []
  /-- The worker that waits when `stop` has returned has waited since before, and will pop. -/
  stopped : s.stopping = .returned → s.Waiting → s.requests_.queue_ ≠ []

theorem kept_init : Kept (init : ResolverThread L H E) where
  order := rfl
  posted := rfl
  queued := nofun
  popped := nofun
  running := ⟨fun _ => rfl, fun _ => rfl⟩
  asleep := nofun
  stopped := nofun

variable {s s' : ResolverThread L H E}

theorem pushNotify_pending (s : ResolverThread L H E) (r : ResolveRequest L H) :
    (s.pushNotify r).pending = s.pending ++ r.issue?.toList := by
  have hqueue : (s.requests_.queue_ ++ [r]).filterMap ResolveRequest.issue?
      = s.requests_.queue_.filterMap ResolveRequest.issue? ++ r.issue?.toList := by
    rw [List.filterMap_append]
    cases hr : r.issue? <;> simp [hr]
  unfold pending pushNotify BlockingQueue.pushBack
  dsimp only
  rw [hqueue, ← List.append_assoc]
  cases s.worker <;> rfl

theorem pushNotify_asleep (s : ResolverThread L H E) (r : ResolveRequest L H) :
    (s.pushNotify r).worker ≠ .asleep := by
  unfold pushNotify
  dsimp only
  split
  · exact nofun
  · next hnot => exact hnot

theorem pushNotify_popped {r q : ResolveRequest L H} (h : (s.pushNotify r).worker = .popped q) :
    s.worker = .popped q := by
  unfold pushNotify at h
  dsimp only at h
  split at h
  · cases h
  · exact h

/-- A push, by `async_resolve` or by `stop`, and what goes with it. -/
theorem Kept.push (h : Kept s) {r : ResolveRequest L H} (hr : Requested r) {stopping : StopPoint}
    (hstopping : s.keepRunning = true ↔ stopping = .notCalled) :
    Kept { s.pushNotify r with stopping := stopping, issued := s.issued ++ r.issue?.toList } where
  order := by
    show s.issued ++ r.issue?.toList = s.answered.map Prod.fst ++ (s.pushNotify r).pending
    rw [pushNotify_pending, h.order, List.append_assoc]
  posted := h.posted
  queued := by
    intro q hq
    rcases List.mem_append.mp hq with hold | hnew
    · exact h.queued q hold
    · rw [List.mem_singleton.mp hnew]
      exact hr
  popped := fun q hq => h.popped q (pushNotify_popped (r := r) hq)
  running := hstopping
  asleep := fun hasleep => absurd hasleep (pushNotify_asleep s r)
  stopped := fun _ _ => List.append_ne_nil_of_right_ne_nil _ (List.cons_ne_nil _ _)

/-- The worker looks at the queue: it sleeps, or it has the request at the front. -/
theorem Kept.look (h : Kept s) (hworker : s.worker = .popWait) : Kept s.look := by
  have hpending : s.pending = s.requests_.queue_.filterMap ResolveRequest.issue? := by
    unfold pending
    rw [hworker]
    rfl
  unfold ResolverThread.look
  split
  · next hnil =>
    refine ⟨?_, h.posted, h.queued, nofun, h.running, fun _ => hnil, fun hreturned _ => ?_⟩
    · rw [h.order, hpending]
      rfl
    · exact h.stopped hreturned (.inl hworker)
  · next r rs hcons =>
    refine ⟨?_, h.posted, ?_, ?_, h.running, nofun, ?_⟩
    · rw [h.order, hpending, hcons, List.filterMap_cons]
      unfold pending
      cases hr : r.issue? <;> simp [hr]
    · exact fun q hq => h.queued q (by rw [hcons]; exact List.mem_cons_of_mem r hq)
    · rintro q hq
      cases hq
      exact h.queued r (by rw [hcons]; exact List.mem_cons_self)
    · rintro - (hwait | hwait) <;> cases hwait

/-- **The request that was popped is posted once, on its loop, and the worker goes on.** -/
theorem Kept.handle (h : Kept s) {r : ResolveRequest L H} (hworker : s.worker = .popped r)
    (answer : Option (List E)) : ∃ t, s.handle r answer = .ok t ∧ Kept t ∧ Passes r answer s t := by
  have hpending : s.pending = r.issue?.toList ++ s.requests_.queue_.filterMap ResolveRequest.issue? := by
    unfold pending
    rw [hworker]
  have hwaiting : ∀ {t : ResolverThread L H E}, t.worker = .test → ¬t.Waiting := by
    rintro t ht (hwait | hwait) <;> rw [ht] at hwait <;> cases hwait
  rcases h.popped r hworker with ⟨i, rfl⟩ | rfl
  · refine ⟨_, rfl, ⟨?_, ?_, h.queued, nofun, h.running, nofun, fun _ hwait => absurd hwait (hwaiting rfl)⟩,
      .inl ⟨i, rfl, rfl⟩, rfl, rfl, rfl, rfl⟩
    · rw [h.order, hpending, List.map_append, List.append_assoc]
      rfl
    · rw [h.posted, List.map_append]
      rfl
  · refine ⟨_, rfl, ⟨?_, h.posted, h.queued, nofun, h.running, nofun, fun _ hwait => absurd hwait (hwaiting rfl)⟩,
      .inr ⟨rfl, rfl⟩, rfl, rfl, rfl, rfl⟩
    rw [h.order, hpending]
    rfl

theorem step_handle {r : ResolveRequest L H} (hworker : s.worker = .popped r) (answer : Option (List E)) :
    s.step (.handle answer) = s.handle r answer := by
  unfold ResolverThread.step
  dsimp only
  rw [hworker]

/-- Only the pass over a request posts. -/
theorem step_posted {e : ResolverStep L H E} {t : ResolverThread L H E} (he : ∀ answer, e ≠ .handle answer)
    (h : s.step e = .ok t) : t.posted = s.posted := by
  unfold ResolverThread.step at h
  cases e with
  | asyncResolve i =>
    cases h
    rfl
  | handle answer => exact absurd rfl (he answer)
  | look =>
    dsimp only at h
    split at h
    · cases h
      unfold ResolverThread.look
      split <;> rfl
    · cases h
  | test | wake | store | push =>
    dsimp only at h
    split at h <;> cases h
    rfl

/-- **No step of any thread loses a request.** -/
theorem Kept.step (h : Kept s) (e : ResolverStep L H E) : Guarantees Kept (s.step e) := by
  cases e with
  | asyncResolve i => exact h.push (r := i.request) (.inl ⟨i, rfl⟩) h.running
  | test =>
    unfold ResolverThread.step
    dsimp only
    split
    · next hworker =>
      have hpending : s.pending = s.requests_.queue_.filterMap ResolveRequest.issue? := by
        unfold pending
        rw [hworker]
        rfl
      split
      · next hkeep =>
        refine ⟨h.order.trans (by rw [hpending]; rfl), h.posted, h.queued, nofun, h.running, nofun, ?_⟩
        -- while `keep_running` is set, `stop` has not been called
        intro hreturned _
        have hnot := h.running.mp hkeep
        rw [show s.stopping = .returned from hreturned] at hnot
        cases hnot
      · refine ⟨h.order.trans (by rw [hpending]; rfl), h.posted, h.queued, nofun, h.running, nofun, ?_⟩
        rintro - (hwait | hwait) <;> cases hwait
    · rfl
  | look =>
    unfold ResolverThread.step
    dsimp only
    split
    · next hworker => exact h.look hworker
    · rfl
  | wake =>
    unfold ResolverThread.step
    dsimp only
    split
    · next hworker =>
      refine ⟨h.order.trans ?_, h.posted, h.queued, nofun, h.running, nofun, fun hreturned _ => ?_⟩
      · unfold pending
        rw [hworker]
      · exact h.stopped hreturned (.inr hworker)
    · rfl
  | handle answer =>
    unfold ResolverThread.step
    dsimp only
    split
    · next r hworker =>
      obtain ⟨t, hok, ht, -⟩ := h.handle hworker answer
      rw [hok]
      exact ht
    · rfl
  | store =>
    unfold ResolverThread.step
    dsimp only
    split
    · exact ⟨h.order, h.posted, h.queued, h.popped, ⟨nofun, nofun⟩, h.asleep, nofun⟩
    · rfl
  | push =>
    unfold ResolverThread.step
    dsimp only
    split
    · next hstored =>
      have hkeep : s.keepRunning = true ↔ StopPoint.returned = .notCalled := by
        rw [h.running, hstored]
        exact ⟨nofun, nofun⟩
      have hpush := h.push (r := .sentinel) (.inr rfl) hkeep
      rw [ResolveRequest.issue?_sentinel, Option.toList_none, List.append_nil] at hpush
      exact hpush
    · rfl

/-! ## Runs -/

/-- What holds after any steps of the threads. -/
theorem run_kept (es : List (ResolverStep L H E)) :
    Guarantees Kept (run step (init : ResolverThread L H E) es) :=
  run_guarantees (C := fun _ => True) (fun _ e h _ => h.step e) kept_init fun _ _ => trivial

/--
**Resolution is right**: there is one call of `runEventHandler` for each of the first calls of `async_resolve`, in their
order, on its loop and with its handler, whatever `getaddrinfo` has answered, and for the others the worker or
the queue has the request; the pass over a request that was popped posts once and goes on, and nothing else posts;
and once `stop` has returned the worker does not wait on an empty queue.
-/
structure Resolves (s : ResolverThread L H E) : Prop where
  order : ∃ answers : List (Option (List E)),
    s.posted = List.zipWith Issue.post (s.issued.take answers.length) answers ∧
      s.issued.drop answers.length = s.pending ∧ answers.length ≤ s.issued.length
  pass : ∀ r, s.worker = .popped r → ∀ answer, ∃ t, s.step (.handle answer) = .ok t ∧ Passes r answer s t
  other : ∀ e t, (∀ answer, e ≠ .handle answer) → s.step e = .ok t → t.posted = s.posted
  stopped : s.stopping = .returned → ¬(s.Waiting ∧ s.requests_.empty = true)

theorem Kept.resolves (h : Kept s) : Resolves s where
  order := by
    have hlength : (s.answered.map Prod.snd).length = (s.answered.map Prod.fst).length := by simp
    refine ⟨s.answered.map Prod.snd, ?_, ?_, ?_⟩
    · rw [h.order, hlength, List.take_left, List.zipWith_map, List.zipWith_self]
      exact h.posted
    · rw [h.order, hlength]
      exact List.drop_left
    · rw [h.order, hlength, List.length_append]
      exact Nat.le_add_right _ _
  pass r hworker answer := by
    obtain ⟨t, ht, -, hpasses⟩ := h.handle hworker answer
    exact ⟨t, (step_handle hworker answer).trans ht, hpasses⟩
  other _ _ := step_posted
  stopped := by
    rintro hreturned ⟨hwait, hempty⟩
    exact h.stopped hreturned hwait (List.isEmpty_iff.mp hempty)

/--
**Async resolution answers in order, and stops**, whatever the steps of the loops, of the worker and of `stop` were.
-/
theorem resolver_run (es : List (ResolverStep L H E)) :
    Guarantees Resolves (run step (init : ResolverThread L H E) es) :=
  (run_kept es).imp_ok fun _ _ h => h.resolves

/-- Two calls from two loops, of which the first cannot be resolved. -/
def resolveTwo : List (ResolverStep Nat Nat Nat) :=
  [.test, .look, .asyncResolve ⟨1, [1], [2], 10⟩, .look, .asyncResolve ⟨2, [3], [4], 20⟩, .handle none, .test,
    .look, .handle (some [7])]

theorem resolver_run_two : ∃ s : ResolverThread Nat Nat Nat, run step init resolveTwo = .ok s ∧ Resolves s ∧
    s.posted = [⟨1, 10, []⟩, ⟨2, 20, [7]⟩] := by
  have hsees : (run step (init : ResolverThread Nat Nat Nat) resolveTwo).toOption.map (·.posted) =
      some [⟨1, 10, []⟩, ⟨2, 20, [7]⟩] := by decide
  obtain ⟨s, hs, hposted⟩ := ok_of_toOption_map hsees
  exact ⟨s, hs, (resolver_run resolveTwo).of_ok hs, hposted⟩

/-- `stop` comes between a request that the worker has and one that it will not see. -/
example : (run step (init : ResolverThread Nat Nat Nat)
    [.test, .look, .asyncResolve ⟨1, [1], [2], 10⟩, .look, .asyncResolve ⟨2, [3], [4], 20⟩, .store,
      .handle none, .push, .test]).map (fun s => (s.posted, s.pending.length, s.worker))
    = .ok ([⟨1, 10, []⟩], 1, .ended) := by decide

/-! ## The worker ends -/

/-- After `stop` the test of the loop ends the worker. -/
theorem Kept.ends_test (h : Kept s) (hreturned : s.stopping = .returned) (hworker : s.worker = .test) :
    ∃ s', s.step .test = .ok s' ∧ s'.worker = .ended := by
  have hkeep : s.keepRunning = false := by
    rw [← Bool.not_eq_true, h.running, hreturned]
    exact nofun
  unfold ResolverThread.step
  dsimp only
  rw [hworker]
  exact ⟨_, rfl, by rw [hkeep]; rfl⟩

theorem Kept.ends_popped (h : Kept s) (hreturned : s.stopping = .returned) {r : ResolveRequest L H}
    (hworker : s.worker = .popped r) :
    ∃ s', run ResolverThread.step s [.handle none, .test] = .ok s' ∧ s'.worker = .ended := by
  obtain ⟨t, ht, hkept, hpasses⟩ := h.handle hworker none
  obtain ⟨s', hs', hended⟩ := hkept.ends_test (hpasses.stopping.trans hreturned) hpasses.worker
  refine ⟨s', ?_, hended⟩
  rw [run_cons, step_handle hworker, ht, ok_bind, run_cons, hs']
  rfl

/--
**Once `stop` has returned the worker ends**, within three steps of its own, so that the join of
`~ResolverImp` returns.
-/
theorem Kept.ends (h : Kept s) (hreturned : s.stopping = .returned) :
    ∃ es s', run ResolverThread.step s es = .ok s' ∧ s'.worker = .ended ∧ es.length ≤ 3 := by
  cases hworker : s.worker with
  | test =>
    obtain ⟨s', hs', hended⟩ := h.ends_test hreturned hworker
    refine ⟨[.test], s', ?_, hended, by simp⟩
    rw [run_cons, hs']
    rfl
  | popWait =>
    obtain ⟨r, rs, hcons⟩ := List.exists_cons_of_ne_nil (h.stopped hreturned (.inl hworker))
    have hstep : s.step .look = .ok s.look := by
      unfold ResolverThread.step
      dsimp only
      rw [hworker]
    have hlook : s.look.stopping = s.stopping ∧ s.look.worker = .popped r := by
      unfold ResolverThread.look
      rw [hcons]
      exact ⟨rfl, rfl⟩
    obtain ⟨s', hs', hended⟩ := (h.look hworker).ends_popped (hlook.1.trans hreturned) hlook.2
    refine ⟨[.look, .handle none, .test], s', ?_, hended, by simp⟩
    rw [run_cons, hstep, ok_bind, hs']
  | asleep => exact absurd (h.asleep hworker) (h.stopped hreturned (.inr hworker))
  | popped r =>
    obtain ⟨s', hs', hended⟩ := h.ends_popped hreturned hworker
    exact ⟨[.handle none, .test], s', hs', hended, by simp⟩
  | ended => exact ⟨[], s, rfl, hworker, by simp⟩

end ResolverThread

end Liby
