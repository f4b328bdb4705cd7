import Liby.Infra.Machine

/-!
# EventQueue

`EventQueue.cpp`, `BlockingQueue.h` and `EventLoop::runEventHandler`, with any number of threads that
hand handlers over to the loop. Between any two steps of a thread the others may take theirs.

A handler may be anything that returns; what it does to the queue it does by calls of
`runEventHandler`, which are steps of the loop thread.
-/

namespace Liby

open Infra

/-! ## The parts -/

/-- `BlockingQueue`. Each function but `empty` holds the mutex. -/
structure BlockingQueue (H : Type _) where
  queue_ : List H
  deriving DecidableEq, Repr

namespace BlockingQueue

variable {H : Type _}

/-- `push_back`. -/
def pushBack (q : BlockingQueue H) (e : H) : BlockingQueue H := { queue_ := q.queue_ ++ [e] }

/-- `pop_front`: `front` and `pop_front` of a `std::list`. -/
def popFront (q : BlockingQueue H) : Exec (H × BlockingQueue H) :=
  match q.queue_ with
  | [] => .error .emptyContainer
  | e :: es => .ok (e, { queue_ := es })

/-- `empty`. -/
def empty (q : BlockingQueue H) : Bool := q.queue_.isEmpty

end BlockingQueue

/-- The largest value of an eventfd. -/
def eventfdMax : Nat := 2 ^ 64 - 2

/-- `class EventQueue`: the count of its eventfd, which does not block, and its handlers. -/
structure EventQueue (H : Type _) where
  eventfd_ : Nat
  eventHandlers_ : BlockingQueue H
  deriving DecidableEq, Repr

namespace EventQueue

variable {H : Type _}

/-- The constructor: `::eventfd(1000, ..)`. -/
def init : EventQueue H := { eventfd_ := 1000, eventHandlers_ := { queue_ := [] } }

/-- `wakeup`. A `write` that would go over the largest value fails, and leaves the count. -/
def wakeup (q : EventQueue H) : EventQueue H :=
  if q.eventfd_ + 1 ≤ eventfdMax then { q with eventfd_ := q.eventfd_ + 1 } else q

/-- `pushHandler`. -/
def pushHandler (q : EventQueue H) (handler : H) : EventQueue H :=
  { q with eventHandlers_ := q.eventHandlers_.pushBack handler }

/-- `::read(eventfd_, ..)`, and whether it gave something: it takes the whole count. -/
def read (q : EventQueue H) : Bool × EventQueue H :=
  if q.eventfd_ = 0 then (false, q) else (true, { q with eventfd_ := 0 })

end EventQueue

/-! ## The threads -/

/-- Where the loop thread is. -/
inductive LoopPoint (H : Type _) where
  /-- Not in the read handler of the eventfd. -/
  | idle
  /-- Before `eventHandlers_.empty()`. -/
  | look
  /-- Before `pop_front()`. -/
  | pop
  /-- In a handler that was popped. -/
  | handler (handler : H)
  deriving DecidableEq, Repr

/-- The steps. The thread `none` is the loop thread, and `some t` another. -/
inductive QueueStep (T H : Type _) where
  /-- The first half of `runEventHandler`. -/
  | pushHandler (thread : Option T) (handler : H)
  /-- The second half. -/
  | wakeup (thread : Option T)
  | read
  | look
  | pop
  | finish
  deriving DecidableEq, Repr

/--
The queue, the threads that have pushed and not woken the loop up, and the loop thread. `pushed` and
`ran` tell what happened: all handlers pushed, and all that the loop has called, in their order.
-/
structure QueueThreads (T H : Type _) where
  queue : EventQueue H
  between : List (Option T)
  point : LoopPoint H
  pushed : List H
  ran : List H
  deriving DecidableEq, Repr

namespace QueueThreads

variable {T H : Type _}

/-- After the constructor. -/
def init : QueueThreads T H where
  queue := EventQueue.init
  between := []
  point := .idle
  pushed := []
  ran := []

variable [DecidableEq T]

/-- A thread calls `runEventHandler`: the loop thread does so outside of the handler and in a handler. -/
def mayPush (s : QueueThreads T H) (thread : Option T) : Bool :=
  !s.between.contains thread &&
    match thread, s.point with
    | none, .look => false
    | none, .pop => false
    | _, _ => true

/-- One step. A step that its thread is not at is no behaviour of the system. -/
def step (s : QueueThreads T H) : QueueStep T H → Exec (QueueThreads T H)
  | .pushHandler thread handler => do
    guardOr .environment (s.mayPush thread)
    return { s with
      queue := s.queue.pushHandler handler
      between := thread :: s.between
      pushed := s.pushed ++ [handler] }
  | .wakeup thread => do
    guardOr .environment (thread ∈ s.between)
    return { s with queue := s.queue.wakeup, between := s.between.erase thread }
  | .read =>
    match s.point with
    | .idle => do
      guardOr .environment (none ∉ s.between)
      let (some_, queue) := s.queue.read
      return { s with queue := queue, point := if some_ then .look else .idle }
    | _ => .error .environment
  | .look =>
    match s.point with
    | .look => .ok { s with point := if s.queue.eventHandlers_.empty then .idle else .pop }
    | _ => .error .environment
  | .pop =>
    match s.point with
    | .pop => do
      let (handler, queue) ← s.queue.eventHandlers_.popFront
      return { s with
        queue := { s.queue with eventHandlers_ := queue }
        point := .handler handler
        ran := s.ran ++ [handler] }
    | _ => .error .environment
  | .finish =>
    match s.point with
    | .handler _ => do
      guardOr .environment (none ∉ s.between)
      return { s with point := .look }
    | _ => .error .environment

/-! ## No handler is lost -/

/-- What is pushed and was not run is in the queue, and somebody sees to it. -/
structure Kept (s : QueueThreads T H) : Prop where
  order : s.pushed = s.ran ++ s.queue.eventHandlers_.queue_
  /-- A queue with handlers is drained, or will be. -/
  woken : s.queue.eventHandlers_.queue_ ≠ [] →
    0 < s.queue.eventfd_ ∨ s.point ≠ .idle ∨ s.between ≠ []
  /-- Only the loop pops, so what it has seen stays. -/
  seen : s.point = .pop → s.queue.eventHandlers_.queue_ ≠ []

omit [DecidableEq T] in
theorem kept_init : Kept (init : QueueThreads T H) where
  order := rfl
  woken h := absurd rfl h
  seen h := by cases h

variable {s : QueueThreads T H}

theorem wakeup_pos (q : EventQueue H) : 0 < q.wakeup.eventfd_ := by
  unfold EventQueue.wakeup
  split
  · exact Nat.succ_pos _
  · next hfull =>
    have hmax : 0 < eventfdMax := by decide
    omega

theorem wakeup_handlers (q : EventQueue H) : q.wakeup.eventHandlers_ = q.eventHandlers_ := by
  unfold EventQueue.wakeup
  split <;> rfl

/-- **No step of any thread loses a handler.** -/
theorem Kept.step (h : Kept s) (a : QueueStep T H) : Guarantees Kept (s.step a) := by
  cases a with
  | pushHandler thread handler =>
    refine Guarantees.guard fun hmay => ?_
    refine ⟨?_, fun _ => .inr (.inr (List.cons_ne_nil _ _)), fun _ => ?_⟩
    · show s.pushed ++ [handler] = s.ran ++ (s.queue.eventHandlers_.queue_ ++ [handler])
      rw [h.order, List.append_assoc]
    · exact List.append_ne_nil_of_right_ne_nil _ (List.cons_ne_nil _ _)
  | wakeup thread =>
    refine Guarantees.guard fun hmem => ?_
    refine ⟨?_, fun _ => .inl (wakeup_pos _), fun hpoint => ?_⟩
    · rw [wakeup_handlers]
      exact h.order
    · rw [wakeup_handlers]
      exact h.seen hpoint
  | read =>
    unfold QueueThreads.step
    dsimp only
    split
    · next hpoint =>
      refine Guarantees.guard fun hloop => ?_
      unfold EventQueue.read
      split
      · next hzero =>
        -- nothing was written to the eventfd, and the loop stays where it is
        exact ⟨h.order, fun hne => by
          rcases h.woken hne with hpos | hbusy | hbetween
          · exact .inl hpos
          · exact absurd hpoint hbusy
          · exact .inr (.inr hbetween), fun hpop => by cases hpop⟩
      · exact ⟨h.order, fun _ => .inr (.inl nofun), nofun⟩
    · rfl
  | look =>
    unfold QueueThreads.step
    dsimp only
    split
    · unfold BlockingQueue.empty
      split
      · next hempty =>
        have hnil := List.isEmpty_iff.mp hempty
        exact ⟨h.order, fun hne => absurd hnil hne, nofun⟩
      · next hfull =>
        exact ⟨h.order, fun _ => .inr (.inl nofun), fun _ hnil => hfull (List.isEmpty_iff.mpr hnil)⟩
    · rfl
  | pop =>
    unfold QueueThreads.step
    dsimp only
    split
    · next hpoint =>
      -- the loop has looked, and nobody else takes from the queue
      obtain ⟨handler, queue, hcons⟩ := List.exists_cons_of_ne_nil (h.seen hpoint)
      unfold BlockingQueue.popFront
      rw [hcons, ok_bind]
      refine ⟨?_, fun _ => .inr (.inl nofun), nofun⟩
      show s.pushed = s.ran ++ [handler] ++ queue
      rw [h.order, hcons, List.append_assoc, List.singleton_append]
    · rfl
  | finish =>
    unfold QueueThreads.step
    dsimp only
    split
    · refine Guarantees.guard fun hloop => ?_
      exact ⟨h.order, fun _ => .inr (.inl nofun), nofun⟩
    · rfl

/-- What holds after any steps of the threads. -/
theorem run_kept (actions : List (QueueStep T H)) :
    Guarantees Kept (run step (init : QueueThreads T H) actions) :=
  run_guarantees (C := fun _ => True) (fun _ a h _ => h.step a) kept_init fun _ _ => trivial

/-! ## What is in the queue is run -/

/-- The steps of the drain loop over `n` handlers that push nothing. -/
def drainSteps : Nat → List (QueueStep T H)
  | 0 => [.look]
  | n + 1 => .look :: .pop :: .finish :: drainSteps n

/-- The drain loop calls all handlers that are there. -/
theorem run_drain : ∀ (handlers : List H) {s : QueueThreads T H}, s.point = .look →
    s.between = [] → s.queue.eventHandlers_.queue_ = handlers →
    ∃ s', run step s (drainSteps handlers.length) = .ok s' ∧ s'.ran = s.ran ++ handlers ∧
      s'.queue.eventHandlers_.queue_ = []
  | [], s, hpoint, hbetween, hqueue => by
    have hlook : s.step .look = .ok { s with point := .idle } := by
      unfold QueueThreads.step BlockingQueue.empty
      dsimp only
      rw [hpoint, hqueue]
      rfl
    refine ⟨{ s with point := .idle }, ?_, (List.append_nil _).symm, hqueue⟩
    rw [List.length_nil, drainSteps, run_cons, hlook, ok_bind, run_nil]
  | handler :: handlers, s, hpoint, hbetween, hqueue => by
    let t : QueueThreads T H := { s with
      queue := { s.queue with eventHandlers_ := { queue_ := handlers } }
      ran := s.ran ++ [handler] }
    have hlook : s.step .look = .ok { s with point := .pop } := by
      unfold QueueThreads.step BlockingQueue.empty
      dsimp only
      rw [hpoint, hqueue]
      rfl
    have hpop : QueueThreads.step { s with point := .pop } .pop
        = .ok { t with point := .handler handler } := by
      unfold QueueThreads.step BlockingQueue.popFront
      dsimp only
      rw [hqueue]
      rfl
    have hfinish : QueueThreads.step { t with point := .handler handler } .finish = .ok t := by
      have hnone : (none : Option T) ∉ s.between := by
        rw [hbetween]
        exact List.not_mem_nil
      unfold QueueThreads.step
      dsimp only
      rw [guardOr_pos hnone, ok_bind]
      have ht : ({ t with point := .look } : QueueThreads T H) = t := by
        dsimp only [t]
        rw [hpoint]
      exact congrArg Except.ok ht
    obtain ⟨s', hrun, hran, hqueue'⟩ := run_drain (s := t) handlers hpoint hbetween rfl
    refine ⟨s', ?_, by rw [hran]; exact List.append_assoc _ _ _, hqueue'⟩
    rw [List.length_cons, drainSteps, run_cons, hlook, ok_bind, run_cons, hpop, ok_bind, run_cons,
      hfinish, ok_bind]
    exact hrun

/--
**A handler that was pushed is run.** When no thread is between its two calls and the loop is idle,
a read of the eventfd and the drain loop after it call every handler in the queue.
-/
theorem idle_drains {s : QueueThreads T H} (h : Kept s) (hpoint : s.point = .idle)
    (hbetween : s.between = []) (hne : s.queue.eventHandlers_.queue_ ≠ []) :
    ∃ s', run step s (.read :: drainSteps s.queue.eventHandlers_.queue_.length) = .ok s' ∧
      s'.ran = s.pushed ∧ s'.queue.eventHandlers_.queue_ = [] := by
  have hpos : s.queue.eventfd_ ≠ 0 := by
    rcases h.woken hne with hpos | hbusy | hbetween'
    · omega
    · exact absurd hpoint hbusy
    · exact absurd hbetween hbetween'
  have hread : s.step .read
      = .ok { s with queue := { s.queue with eventfd_ := 0 }, point := .look } := by
    have hnone : (none : Option T) ∉ s.between := by
      rw [hbetween]
      exact List.not_mem_nil
    unfold QueueThreads.step EventQueue.read
    dsimp only
    rw [hpoint]
    dsimp only
    rw [guardOr_pos hnone, ok_bind, if_neg hpos]
    rfl
  let t : QueueThreads T H := { s with queue := { s.queue with eventfd_ := 0 }, point := .look }
  obtain ⟨s', hrun, hran, hqueue⟩ := run_drain (s := t) s.queue.eventHandlers_.queue_ rfl hbetween rfl
  refine ⟨s', ?_, hran.trans h.order.symm, hqueue⟩
  rw [run_cons, hread, ok_bind]
  exact hrun

theorem queue_ne_nil {q : BlockingQueue H} (h : q.empty = false) : q.queue_ ≠ [] := by
  intro hnil
  unfold BlockingQueue.empty at h
  rw [hnil] at h
  cases h

/--
**No wakeup is lost.** Whatever the steps of the threads were, the handlers that the loop has called
are the first of those that were pushed, each once and in their order; and when others are in the
queue, then the count of the eventfd is positive, or the loop is in its drain loop, or a thread has
pushed and is about to wake it up. Where neither of the last two is so, the read of the eventfd and the
drain loop after it call all of them.
-/
theorem no_lost_wakeup (actions : List (QueueStep T H)) :
    Guarantees (fun s => s.pushed = s.ran ++ s.queue.eventHandlers_.queue_ ∧
      (s.queue.eventHandlers_.empty = false →
        0 < s.queue.eventfd_ ∨ s.point ≠ .idle ∨ ∃ thread, thread ∈ s.between) ∧
      (s.queue.eventHandlers_.empty = false → s.point = .idle → s.between = [] →
        ∃ s', run step s (.read :: drainSteps s.queue.eventHandlers_.queue_.length) = .ok s' ∧
          s'.ran = s.pushed))
      (run step (init : QueueThreads T H) actions) := by
  refine (run_kept actions).imp_ok fun s _ h => ⟨h.order, fun hfull => ?_, fun hfull hpoint hbetween => ?_⟩
  · have hwoken := h.woken (queue_ne_nil hfull)
    exact hwoken.imp_right fun hrest => hrest.imp_right (List.exists_mem_of_ne_nil _)
  · obtain ⟨s', hrun, hran, -⟩ := idle_drains h hpoint hbetween (queue_ne_nil hfull)
    exact ⟨s', hrun, hran⟩

/-- Two threads push while the loop is in a handler of the first. -/
example : (run step (init : QueueThreads Nat Nat) [.pushHandler (some 1) 10, .read, .look, .pop,
    .pushHandler (some 2) 20, .pushHandler none 30, .wakeup (some 1), .wakeup none, .finish, .look,
    .pop]).map (fun s => (s.ran, s.queue.eventHandlers_.queue_, s.queue.eventfd_, s.between))
      = .ok ([10, 20], [30], 2, [some 2]) := by decide

end QueueThreads

end Liby
