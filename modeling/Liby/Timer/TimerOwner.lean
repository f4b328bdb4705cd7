import Liby.Timer.TimersOnce

/-!
# The timers of a connection

`Connection::destroy` and the destructors of `Connection` and `TimerMixin`, over the timers of
the connection's loop.

A connection owns its timers through the `timerHolders_` of its `TimerMixin`. `destroy` drops
the channel, the socket, the tasks and `self_`, and leaves `timerHolders_` as they are: they go
with the connection, when the last `shared_ptr` to it is dropped. A handler that has captured
a `ConnPtr` owns the connection for as long as its timer lives, also if the connection in turn
owns the timer.
-/

namespace Liby

open Infra

namespace TimerWorld

/-- The mixin that a call is made on. -/
def TimerEvent.owner? : TimerEvent → Option Nat
  | .runAt owner _ => some owner
  | .runAfter owner _ _ => some owner
  | .runEvery owner _ => some owner
  | .insertTimer owner _ _ => some owner
  | .cancelTimer owner _ => some owner
  | .cancelAllTimer owner => some owner
  | .dropHolder _ => none
  | .handleTimeoutEvents _ => none
  | .iterate _ => none
  | .handlerReturned => none

/-- The object whose handler was called between the two states. -/
def started (s s' : TimerWorld) : Option TimerPtr :=
  if s.running = none then s'.running else none

/-- The object of the root, where the loop of `handleTimeoutEvents` finds it due. -/
def due (s : TimerWorld) : Option TimerPtr :=
  match s.phase with
  | .draining now =>
    if s.tqueue_.queue_.empty || Timestamp.lt now s.tqueue_.root.timeout then none
    else s.tqueue_.root.weakTimerPtr_
  | _ => none

end TimerWorld

/-- A connection with its loop's timers. It has been made and `init` has set `self_`. -/
structure ConnTimers where
  loop : TimerWorld
  destroy_ : Bool
  /-- `self_` is not null. -/
  self_ : Bool
  /-- The other `shared_ptr`s to the connection, outside of the handlers of timers. -/
  refs : Nat
  /-- The timers whose handler has captured a `ConnPtr`. -/
  captured : List TimerPtr
  /-- `~Connection` has run. -/
  destructed : Bool
  /-- The timers registered through the connection before `destroy`. -/
  bound : List TimerPtr
  /-- Those of `bound` whose handler was called after `destroy`. -/
  late : List TimerPtr
  deriving DecidableEq, Repr

namespace ConnTimers

open TimerWorld

/-- The connection's number among the mixins of its loop. -/
def conn : Nat := 0

def init : ConnTimers where
  loop := TimerWorld.init
  destroy_ := false
  self_ := true
  refs := 0
  captured := []
  destructed := false
  bound := []
  late := []

/-- Some `shared_ptr` to the connection is left. -/
def owned (t : ConnTimers) : Bool :=
  t.self_ || decide (t.refs ≠ 0) || t.captured.any t.loop.alive

/-- With the last `shared_ptr` the connection goes, and its `timerHolders_` with it. -/
def settle (t : ConnTimers) : ConnTimers :=
  if t.owned || t.destructed then t
  else { t with destructed := true, loop := t.loop.cancelAllTimer conn }

/-- `Connection::destroy`. -/
def destroy (t : ConnTimers) : ConnTimers :=
  if t.destroy_ then t
  else settle { t with destroy_ := true, self_ := false }

/-! ## Steps -/

/-- What may happen to the connection and its loop's timers. -/
inductive ConnEvent where
  /-- An event of the timers. If it registers one, its handler may capture a `ConnPtr`. -/
  | timer (e : TimerEvent) (captures : Bool)
  /-- Someone copies a `ConnPtr`. -/
  | own
  /-- One of the copies is dropped. -/
  | release
  | destroy
  deriving DecidableEq, Repr

/--
An event that the program cannot make: a timer that is not registered through a mixin, the drop of a
holder that the connection keeps to itself, or a use of the connection after `~Connection`.
-/
def impossible (t : ConnTimers) (e : TimerEvent) (captures : Bool) : Prop :=
  TimerEvent.ownId e ∨ (∃ ptr ∈ t.bound, e = .dropHolder ptr) ∨
    t.destructed = true ∧ (e.owner? = some conn ∨ captures = true)

instance (t : ConnTimers) (e : TimerEvent) (captures : Bool) :
    Decidable (t.impossible e captures) := by
  unfold impossible
  infer_instance

/-- The event of the timers has led to `loop`. -/
def follow (t : ConnTimers) (e : TimerEvent) (captures : Bool) (loop : TimerWorld) : ConnTimers :=
  let fresh := decide (t.loop.timers.length < loop.timers.length)
  { t with
    loop := loop
    captured := if fresh && captures then t.loop.timers.length :: t.captured else t.captured
    bound := if fresh && decide (e.owner? = some conn) && !t.destroy_
      then t.loop.timers.length :: t.bound else t.bound
    late := (t.loop.started loop).toList.filter (fun ptr => t.destroy_ && decide (ptr ∈ t.bound))
      ++ t.late }

/-- One event. One that cannot come changes nothing. -/
def step (t : ConnTimers) : ConnEvent → Exec ConnTimers
  | .timer e captures =>
    if t.impossible e captures then .ok t
    else do
      let loop ← t.loop.step e
      return settle (t.follow e captures loop)
  | .own => .ok (if t.destructed then t else { t with refs := t.refs + 1 })
  | .release => .ok (if t.refs = 0 then t else settle { t with refs := t.refs - 1 })
  | .destroy => .ok (if t.destructed then t else t.destroy)

end ConnTimers

end Liby
