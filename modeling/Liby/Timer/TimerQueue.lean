import Liby.Infra.Machine
import Liby.Timer.BinaryHeap
import Liby.Timer.Timestamp

/-!
# TimerQueue

`TimerQueue.h`, `TimerQueue.cpp`, the timer functions of `EventLoop.cpp` and `TimerMixin.cpp`.

A `Timer` object is owned by the `TimerHolder`s that share it; the queue has weak references.
`TimerWorld` is one loop's queue with all `Timer` objects ever made for it (a `TimerPtr` is
a position in `timers`) and the holders that own them. A holder is in the `timerHolders_` of a
`TimerMixin`, or where the caller of `EventLoop::runAt` keeps the one that is returned. One that
is not kept is dropped at once, and its timer has no owner when its time comes.

`handleTimeoutEvents` runs user code in the middle of its loop, and that code may insert and
cancel timers. So the call is cut at the points where control passes: `handleTimeoutEvents`
reads the clock, `iterate` runs the loop up to the next handler (or to the end), and
`handlerReturned` goes on after the handler. Between the last two any user call may come.
-/

namespace Liby

open Infra

/-! ## Timer, TimerHolder, WeakTimerHolder -/

/-- `TimerId`. -/
abbrev TimerId := Nat

/-- A shared `Timer` object. -/
abbrev TimerPtr := Nat

/-- What the handler of a `Timer` does to the queue by itself. -/
inductive TimerHandler where
  /-- A handler the user gave to `runAt` or `runAfter`. -/
  | once
  /-- The lambda of `runEvery`: it inserts its timer again and then runs the user's handler. -/
  | every (timestamp : Timestamp)
  deriving DecidableEq, Repr

/-- `class Timer`. -/
structure Timer where
  id_ : TimerId
  timeout_ : Timestamp
  handler_ : TimerHandler
  deriving DecidableEq, Repr

/-- `class WeakTimerHolder`: a copy of the id and the timeout, and a weak pointer. -/
structure WeakTimerHolder where
  id : TimerId
  timeout : Timestamp
  weakTimerPtr_ : Option TimerPtr
  deriving DecidableEq, Repr

instance : Inhabited WeakTimerHolder := ⟨{ id := 0, timeout := ⟨0, 0⟩, weakTimerPtr_ := none }⟩

namespace WeakTimerHolder

/-- `WeakTimerHolder(const std::shared_ptr<Timer> &)`. -/
def ofTimer (timer : Timer) (ptr : TimerPtr) : WeakTimerHolder where
  id := timer.id_
  timeout := timer.timeout_
  weakTimerPtr_ := some ptr

/-- `operator<`: earlier **and** of a smaller id. -/
def lt (lhs rhs : WeakTimerHolder) : Bool :=
  Timestamp.lt lhs.timeout rhs.timeout && decide (lhs.id < rhs.id)

end WeakTimerHolder

/-! ## The queue -/

/-- `class TimerQueue`: the heap, and the last value given to `timerfd_settime`. -/
structure TimerQueue where
  queue_ : BinaryHeap WeakTimerHolder
  timerfd : Option Timestamp
  deriving DecidableEq, Repr

namespace TimerQueue

/-- `TimerQueue(Poller *)`. -/
def new : TimerQueue where
  queue_ := BinaryHeap.ofCapacity 100
  timerfd := none

/-- `updateTimerfd`. -/
def updateTimerfd (q : TimerQueue) (timeout : Timestamp) : TimerQueue :=
  { q with timerfd := some timeout }

/-- What the three `insert`s share: the timer is armed only if the queue was empty. -/
def insertWeak (q : TimerQueue) (weak_holder : WeakTimerHolder) : Exec TimerQueue := do
  let q := if q.queue_.empty then q.updateTimerfd weak_holder.timeout else q
  let queue_ ← q.queue_.insert WeakTimerHolder.lt weak_holder
  return { q with queue_ := queue_ }

/-- What `handleTimeoutEvents` does when its loop is left: the root is armed. -/
def rearm (q : TimerQueue) : Exec TimerQueue :=
  if q.queue_.empty then .ok q
  else do
    let root ← q.queue_.findMin
    return q.updateTimerfd root.timeout

/-- `queue_.delete_min()`. -/
def deleteMin (q : TimerQueue) : Exec TimerQueue := do
  let queue_ ← q.queue_.deleteMin WeakTimerHolder.lt
  return { q with queue_ := queue_ }

end TimerQueue

/-! ## The loop's timers -/

/-- Where the loop thread is. -/
inductive TimerPhase where
  /-- Outside `handleTimeoutEvents`. -/
  | idle
  /-- In the loop of `handleTimeoutEvents`, no handler running. -/
  | draining (now : Timestamp)
  /-- In a handler that the loop called for the entry it found at the root. -/
  | handling (now : Timestamp) (entry : WeakTimerHolder) (ptr : TimerPtr)
  deriving DecidableEq, Repr

/-- What has happened, for the theorems to speak of. -/
inductive TimerLog where
  | added (ptr : TimerPtr)
  | ran (ptr : TimerPtr) (now : Timestamp)
  | cancelled (ptr : TimerPtr)
  /-- The holder went without a cancel. -/
  | dropped (ptr : TimerPtr)
  deriving DecidableEq, Repr

/-- The holder of `ptr` went, by a cancel or without one. -/
def TimerLog.released (cancel : Bool) (ptr : TimerPtr) : TimerLog :=
  if cancel then .cancelled ptr else .dropped ptr

/-- One loop's timers. `log` has the last event first. -/
structure TimerWorld where
  timerIds_ : TimerId
  timers : List Timer
  /--
  `timerHolders_` of every `TimerMixin`, and the holders kept elsewhere: the number of the place,
  the id and the object held.
  -/
  timerHolders_ : List (Nat × TimerId × TimerPtr)
  tqueue_ : TimerQueue
  phase : TimerPhase
  /--
  The vector that the reference `minTimer` of `handleTimeoutEvents` points into, by its length: one
  that has grown is in another place.
  -/
  minTimer : Nat
  log : List TimerLog
  deriving DecidableEq, Repr

namespace TimerWorld

/-- A new loop. No timer id is ever 0. -/
def init : TimerWorld where
  timerIds_ := 1
  timers := []
  timerHolders_ := []
  tqueue_ := TimerQueue.new
  phase := .idle
  minTimer := 0
  log := []

/-- The object a running handler keeps alive: `TimerPtr` in `handleTimeoutEvents`. -/
def running (s : TimerWorld) : Option TimerPtr :=
  match s.phase with
  | .handling _ _ ptr => some ptr
  | _ => none

/-- The object has an owner. -/
def alive (s : TimerWorld) (ptr : TimerPtr) : Bool :=
  decide (s.running = some ptr) || s.timerHolders_.any (fun held => held.2.2 == ptr)

/-- User code may run: outside the loop of `handleTimeoutEvents`, or in a handler. -/
def userCode (s : TimerWorld) : Bool :=
  match s.phase with
  | .draining _ => false
  | _ => true

/--
A new `Timer` object is inserted, and the `TimerHolder` returned is kept by `owner`: a mixin
(`runHelper`), or the caller.
-/
def register (s : TimerWorld) (owner : Nat) (timer : Timer) : Exec TimerWorld := do
  let ptr := s.timers.length
  let tqueue_ ← s.tqueue_.insertWeak (WeakTimerHolder.ofTimer timer ptr)
  return { s with
    timers := s.timers ++ [timer]
    timerHolders_ := s.timerHolders_ ++ [(owner, timer.id_, ptr)]
    tqueue_ := tqueue_
    log := .added ptr :: s.log }

/-- `getOneValidId`: the counter goes up with each `Timer` it numbers. -/
def nextId (s : TimerWorld) : TimerWorld := { s with timerIds_ := s.timerIds_ + 1 }

/-- `runAt`, through `TimerQueue::insert(const Timestamp &, const BasicHandler &)`. -/
def runAt (s : TimerWorld) (owner : Nat) (timestamp : Timestamp) : Exec TimerWorld :=
  s.nextId.register owner { id_ := s.timerIds_, timeout_ := timestamp, handler_ := .once }

/-- `runAfter`, with the clock reading it adds. -/
def runAfter (s : TimerWorld) (owner : Nat) (timestamp now : Timestamp) : Exec TimerWorld :=
  s.runAt owner (timestamp.add now)

/--
`runEvery`, through `TimerQueue::insert(const std::shared_ptr<Timer> &)`. The interval itself is
the first timeout.
-/
def runEvery (s : TimerWorld) (owner : Nat) (timestamp : Timestamp) : Exec TimerWorld :=
  s.nextId.register owner
    { id_ := s.timerIds_, timeout_ := timestamp, handler_ := .every timestamp }

/-- `TimerQueue::insert(const Timer &)`, with an id of the caller's. -/
def insertTimer (s : TimerWorld) (owner : Nat) (id : TimerId) (timeout : Timestamp) :
    Exec TimerWorld := do
  guardOr .exception (id ≠ 0)
  s.register owner { id_ := id, timeout_ := timeout, handler_ := .once }

/-- Holders go, and with them their timers. -/
def drop (s : TimerWorld) (cancel : Bool) (which : Nat × TimerId × TimerPtr → Bool) : TimerWorld :=
  { s with
    timerHolders_ := s.timerHolders_.filter (fun held => !which held)
    log := (s.timerHolders_.filter which).map (fun held => .released cancel held.2.2) ++ s.log }

/-- `cancelTimer`. -/
def cancelTimer (s : TimerWorld) (owner : Nat) (id : TimerId) : TimerWorld :=
  s.drop true (fun held => held.1 == owner && held.2.1 == id)

/-- `cancelAllTimer`. -/
def cancelAllTimer (s : TimerWorld) (owner : Nat) : TimerWorld :=
  s.drop true (fun held => held.1 == owner)

/-- `~TimerHolder` of the last holder: one that the caller did not keep, or whose place goes. -/
def dropHolder (s : TimerWorld) (ptr : TimerPtr) : TimerWorld :=
  s.drop false (fun held => held.2.2 == ptr)

/-! ## handleTimeoutEvents -/

/-- The call, up to the reading of the clock. -/
def handleTimeoutEvents (s : TimerWorld) (now : Timestamp) : TimerWorld :=
  if s.tqueue_.queue_.empty then s else { s with phase := .draining now }

/-- The loop is left. -/
def leave (s : TimerWorld) : Exec TimerWorld := do
  let tqueue_ ← s.tqueue_.rearm
  return { s with tqueue_ := tqueue_, phase := .idle }

/--
The end of a pass: `minTimer.id()` is read for the log, and `delete_min` follows. The reference
dangles if the heap's vector has grown since `find_min`.
-/
def finishPass (s : TimerWorld) (now : Timestamp) : Exec TimerWorld := do
  guardOr .outOfBounds (s.tqueue_.queue_.heap.length = s.minTimer)
  let tqueue_ ← s.tqueue_.deleteMin
  return { s with tqueue_ := tqueue_, phase := .draining now }

/--
`runHandler`, up to the user's code. The lambda of `runEvery` moves its timeout and inserts
its timer, with the reading `clock`, before it calls the user.
-/
def runHandler (s : TimerWorld) (ptr : TimerPtr) (clock : Timestamp) : Exec TimerWorld := do
  let timer ← readAt s.timers ptr
  match timer.handler_ with
  | .once => return s
  | .every timestamp =>
    let timer := { timer with timeout_ := timestamp.add clock }
    let timers ← writeAt s.timers ptr timer
    let tqueue_ ← s.tqueue_.insertWeak (WeakTimerHolder.ofTimer timer ptr)
    return { s with timers := timers, tqueue_ := tqueue_ }

/-- One pass of the loop, up to the user's code or to the end of the pass. -/
def iterate (s : TimerWorld) (now clock : Timestamp) : Exec TimerWorld :=
  if s.tqueue_.queue_.empty then s.leave
  else do
    let weak_holder ← s.tqueue_.queue_.findMin
    if Timestamp.lt now weak_holder.timeout then s.leave
    else
      let minTimer := s.tqueue_.queue_.heap.length
      match weak_holder.weakTimerPtr_.filter s.alive with
      | some ptr =>
        runHandler { s with
          phase := .handling now weak_holder ptr
          minTimer := minTimer
          log := .ran ptr now :: s.log } ptr clock
      | none => finishPass { s with minTimer := minTimer } now

/-! ## Steps -/

/-- A call into the timers, or a point where control passes in `handleTimeoutEvents`. -/
inductive TimerEvent where
  | runAt (owner : Nat) (timestamp : Timestamp)
  | runAfter (owner : Nat) (timestamp now : Timestamp)
  | runEvery (owner : Nat) (timestamp : Timestamp)
  | insertTimer (owner : Nat) (id : TimerId) (timeout : Timestamp)
  | cancelTimer (owner : Nat) (id : TimerId)
  | cancelAllTimer (owner : Nat)
  | dropHolder (ptr : TimerPtr)
  | handleTimeoutEvents (now : Timestamp)
  | iterate (clock : Timestamp)
  | handlerReturned
  deriving DecidableEq, Repr

/-- One event. An event that cannot come in the phase the loop is in changes nothing. -/
def step (s : TimerWorld) : TimerEvent → Exec TimerWorld
  | .runAt owner timestamp => if s.userCode then s.runAt owner timestamp else .ok s
  | .runAfter owner timestamp now => if s.userCode then s.runAfter owner timestamp now else .ok s
  | .runEvery owner timestamp => if s.userCode then s.runEvery owner timestamp else .ok s
  | .insertTimer owner id timeout =>
    if s.userCode then s.insertTimer owner id timeout else .ok s
  | .cancelTimer owner id => if s.userCode then .ok (s.cancelTimer owner id) else .ok s
  | .cancelAllTimer owner => if s.userCode then .ok (s.cancelAllTimer owner) else .ok s
  | .dropHolder ptr => if s.userCode then .ok (s.dropHolder ptr) else .ok s
  | .handleTimeoutEvents now =>
    match s.phase with
    | .idle => .ok (s.handleTimeoutEvents now)
    | _ => .ok s
  | .iterate clock =>
    match s.phase with
    | .draining now => s.iterate now clock
    | _ => .ok s
  | .handlerReturned =>
    match s.phase with
    | .handling now _ _ => s.finishPass now
    | _ => .ok s

/-- The state that the events lead a new loop to. -/
def stateAfter (es : List TimerEvent) : TimerWorld :=
  match run step init es with
  | .ok s => s
  | .error _ => init

end TimerWorld

end Liby
