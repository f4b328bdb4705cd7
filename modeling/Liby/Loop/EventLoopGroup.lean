import Liby.Loop.EventQueue

/-!
# EventLoopGroup

`EventLoopGroup.cpp`, `TcpServer::handleAcceptEvent` and, of `Connection.cpp` and `TimerMixin.cpp`, what
has to do with loops. The thread of a loop runs its poller, its event queue and its timer queue; a loop
is its place in `ploops_`, and so is the thread that is bound to it. Between any two events of a
loop the others may have theirs.
-/

namespace Liby

open Infra

/-! ## Loops -/

/-- A handler in an event queue: what `handleAcceptEvent` hands over for a connection. -/
inductive GroupHandler where
  | accepted (conn : Nat)
  deriving DecidableEq, Repr

/-- A timer that was registered through a connection. -/
structure ConnTimer where
  id : Nat
  owner : Nat
  every : Bool
  deriving DecidableEq, Repr

/--
`class EventLoop`: its event queue, the connections whose channels its poller has, and the timers
that its `TimerQueue` has, whatever their order.
-/
structure EventLoop where
  equeue_ : EventQueue GroupHandler
  channels : List Nat
  tqueue_ : List ConnTimer
  deriving DecidableEq, Repr

namespace EventLoop

/-- The constructor. -/
def new : EventLoop := { equeue_ := .init, channels := [], tqueue_ := [] }

/-- `runEventHandler`. -/
def runEventHandler (loop : EventLoop) (handler : GroupHandler) : EventLoop :=
  { loop with equeue_ := (loop.equeue_.pushHandler handler).wakeup }

/-- The poller gets a channel. -/
def addChannel (loop : EventLoop) (conn : Nat) : EventLoop :=
  { loop with channels := loop.channels ++ [conn] }

/-- The poller loses a channel. -/
def removeChannel (loop : EventLoop) (conn : Nat) : EventLoop :=
  { loop with channels := loop.channels.filter (· ≠ conn) }

/-- `TimerQueue::insert`. -/
def insert (loop : EventLoop) (timer : ConnTimer) : EventLoop :=
  { loop with tqueue_ := loop.tqueue_ ++ [timer] }

end EventLoop

/-- `class EventLoopGroup`. -/
structure EventLoopGroup where
  n_ : Nat
  ploops_ : List EventLoop
  deriving DecidableEq, Repr

namespace EventLoopGroup

/-- The constructor. -/
def new (n : Nat) : EventLoopGroup := { n_ := n, ploops_ := List.replicate (n + 1) .new }

/-- `robinLoop`. -/
def robinLoop (g : EventLoopGroup) (fd : Nat) : Nat := fd % (g.n_ + 1)

end EventLoopGroup

/-- The loop of the servers of a group: `std::make_shared<TcpServer>(ploops_[0])`. -/
def serverLoop : Nat := 0

/-! ## Connections -/

/-- A connection, with `TimerMixin::loop_` as `timerLoop_`, and whether the user has seen it. -/
structure GroupConn where
  fd : Nat
  poller_ : Nat
  loop_ : Nat
  timerLoop_ : Nat
  timerHolders_ : List Nat
  self_ : Bool
  chan_ : Bool
  destroy_ : Bool
  known : Bool
  deriving DecidableEq, Repr

/--
`Connection(loop, socket)` and `setChannel`, on the thread of the loop `curr_thread_loop`. The base class
`TimerMixin` takes the loop of the thread.
-/
def GroupConn.new (curr_thread_loop loop fd : Nat) : GroupConn where
  fd := fd
  poller_ := loop
  loop_ := loop
  timerLoop_ := curr_thread_loop
  timerHolders_ := []
  self_ := false
  chan_ := true
  destroy_ := false
  known := false

namespace GroupConn

/-- `init`, after which the user sees the connection. -/
def init (conn : GroupConn) : GroupConn := { conn with self_ := true, known := true }

/-- `timerHolders_[id] = timerHolder`. -/
def hold (conn : GroupConn) (id : Nat) : GroupConn :=
  { conn with timerHolders_ := conn.timerHolders_ ++ [id] }

/-- `cancelTimer`. -/
def cancelTimer (conn : GroupConn) (id : Nat) : GroupConn :=
  { conn with timerHolders_ := conn.timerHolders_.filter (· ≠ id) }

/-- What `destroy` does to the connection itself. -/
def reset (conn : GroupConn) : GroupConn :=
  { conn with destroy_ := true, chan_ := false, self_ := false }

end GroupConn

/-- The callbacks of a connection. -/
inductive ConnCallback where
  | accept | read | writ | erro
  | timer (id : Nat)
  deriving DecidableEq, Repr

/-- A callback that has run, with the loop of its thread. -/
structure GroupCall where
  loop : Nat
  conn : Nat
  callback : ConnCallback
  deriving DecidableEq, Repr

/-- What a callback does with a connection. -/
inductive ConnOp where
  /-- `runAt`, `runAfter` or `runEvery`. -/
  | runTimer (conn : Nat) (every : Bool)
  | cancelTimer (conn id : Nat)
  | destroy (conn : Nat)
  deriving DecidableEq, Repr

/-- The connection of a call. -/
def ConnOp.conn : ConnOp → Nat
  | .runTimer conn _ | .cancelTimer conn _ | .destroy conn => conn

/-- The connection that gets a timer. -/
def ConnOp.registered : ConnOp → List Nat
  | .runTimer conn _ => [conn]
  | .cancelTimer _ _ | .destroy _ => []

/-- A group with the connections of its server, and the callbacks that have run. -/
structure GroupWorld where
  group : EventLoopGroup
  conns : List GroupConn
  acceptorCallback_ : Bool
  timerIds_ : Nat
  calls : List GroupCall
  deriving DecidableEq, Repr

namespace GroupWorld

/-- A group of `n` worker loops with a server that was started. -/
def started (n : Nat) (acceptorCallback_ : Bool) : GroupWorld where
  group := .new n
  conns := []
  acceptorCallback_ := acceptorCallback_
  timerIds_ := 1
  calls := []

/-- Something changes in a loop. -/
def onLoop (w : GroupWorld) (i : Nat) (f : EventLoop → EventLoop) : GroupWorld :=
  { w with group := { w.group with ploops_ := w.group.ploops_.modify i f } }

/-- Something changes in a connection. -/
def onConn (w : GroupWorld) (c : Nat) (f : GroupConn → GroupConn) : GroupWorld :=
  { w with conns := w.conns.modify c f }

/-- The loop at a place; there is nothing at the places that no loop has. -/
def loopAt (w : GroupWorld) (i : Nat) : EventLoop := w.group.ploops_.getD i .new

/-- A callback runs on the thread of a loop. -/
def call (w : GroupWorld) (loop conn : Nat) (callback : ConnCallback) : GroupWorld :=
  { w with calls := w.calls ++ [{ loop := loop, conn := conn, callback := callback }] }

/-- The connection at a place. -/
def connAt (w : GroupWorld) (c : Nat) : Exec GroupConn := readAt w.conns c

/-- `Connection::destroy`. The destructor of the channel takes it out of the poller. -/
def destroy (w : GroupWorld) (c : Nat) (conn : GroupConn) : GroupWorld :=
  if conn.destroy_ then w
  else
    (w.onConn c GroupConn.reset).onLoop conn.poller_ fun loop => loop.removeChannel c

/-- `TimerMixin::runAt`, `runAfter` or `runEvery`, and `runHelper`. -/
def runTimer (w : GroupWorld) (c : Nat) (conn : GroupConn) (every : Bool) : GroupWorld :=
  let id := w.timerIds_
  let w := { w with timerIds_ := id + 1 }
  let w := w.onLoop conn.timerLoop_ fun loop => loop.insert { id := id, owner := c, every := every }
  w.onConn c fun conn => conn.hold id

/-- What a callback does. It knows the connections whose acceptor callback has run. -/
def runOp (w : GroupWorld) (op : ConnOp) : Exec GroupWorld :=
  match w.conns[op.conn]? with
  | none => .error .environment
  | some conn => do
    guardOr .environment conn.known
    match op with
    | .runTimer c every => return w.runTimer c conn every
    | .cancelTimer c id => return w.onConn c fun conn => conn.cancelTimer id
    | .destroy c => return w.destroy c conn

/-- What a callback does, one thing after the other. -/
def runOps (w : GroupWorld) : List ConnOp → Exec GroupWorld
  | [] => .ok w
  | op :: ops => do
    let w ← w.runOp op
    runOps w ops

/-- A pass of the loop of `handleAcceptEvent` with a socket. -/
def acceptSocket (w : GroupWorld) (curr_thread_loop fd : Nat) : GroupWorld :=
  let loop := w.group.robinLoop fd
  let c := w.conns.length
  let w := { w with conns := w.conns ++ [GroupConn.new curr_thread_loop loop fd] }
  w.onLoop loop fun loop => loop.runEventHandler (.accepted c)

/-- `handleAcceptEvent`, with the sockets that come before `EAGAIN`. -/
def handleAcceptEvent (w : GroupWorld) (curr_thread_loop : Nat) (fds : List Nat) : GroupWorld :=
  fds.foldl (fun w fd => w.acceptSocket curr_thread_loop fd) w

/-- The handler that `handleAcceptEvent` handed over, on the thread of a loop. -/
def runAccepted (w : GroupWorld) (loop c : Nat) (ops : List ConnOp) : Exec GroupWorld := do
  let conn ← w.connAt c
  guardOr .nullDeref conn.chan_
  -- `init`, `init1` and `enableRead`
  let w := w.onConn c GroupConn.init
  let w := w.onLoop conn.poller_ fun loop => loop.addChannel c
  if w.acceptorCallback_ then (w.call loop c .accept).runOps ops
  else do
    guardOr .environment (ops = [])
    return w

/-- The poller of a loop reports an event of a connection. -/
def handleEvent (w : GroupWorld) (loop c : Nat) (callback : ConnCallback) (ops : List ConnOp) :
    Exec GroupWorld := do
  let w ← (w.call loop c callback).runOps ops
  if callback = .erro then do
    let conn ← w.connAt c
    return w.destroy c conn
  else return w

/-- `handleTimeoutEvents` of a loop comes to a timer, which is the next one of its queue. -/
def handleTimeout (w : GroupWorld) (loop : Nat) (timer : ConnTimer) (ops : List ConnOp) :
    Exec GroupWorld := do
  let conn ← w.connAt timer.owner
  let w := w.onLoop loop fun loop => { loop with tqueue_ := loop.tqueue_.erase timer }
  if timer.id ∈ conn.timerHolders_ then
    -- the handler of `runEvery` inserts the timer again, into the loop it was made by
    let w := if timer.every then w.onLoop loop fun loop => loop.insert timer else w
    (w.call loop timer.owner (.timer timer.id)).runOps ops
  else do
    guardOr .environment (ops = [])
    return w

end GroupWorld

/-! ## Runs -/

/-- An event of a group, with the loop whose thread it is on and what the callback does. -/
inductive GroupEvent where
  /-- The listening socket has connections. -/
  | accept (fds : List Nat)
  /-- The event queue of a loop runs its first handler. -/
  | handler (loop : Nat) (ops : List ConnOp)
  /-- The poller of a loop reports an event of a connection. -/
  | channel (loop conn : Nat) (callback : ConnCallback) (ops : List ConnOp)
  /-- The timer queue of a loop comes to a timer. -/
  | timeout (loop : Nat) (timer : ConnTimer) (ops : List ConnOp)
  deriving DecidableEq, Repr

/-- What the callback of an event does. -/
def GroupEvent.ops : GroupEvent → List ConnOp
  | .accept _ => []
  | .handler _ ops | .channel _ _ _ ops | .timeout _ _ ops => ops

/-- The connections through which the callback of an event registers timers. -/
def GroupEvent.registered (e : GroupEvent) : List Nat := e.ops.flatMap ConnOp.registered

namespace GroupWorld

/-- What an event does. -/
def step (w : GroupWorld) : GroupEvent → Exec GroupWorld
  | .accept fds => .ok (w.handleAcceptEvent serverLoop fds)
  | .handler loop ops =>
    match (w.loopAt loop).equeue_.eventHandlers_.popFront with
    | .error _ => .error .environment
    | .ok (.accepted c, handlers) =>
      (w.onLoop loop fun loop => { loop with
        equeue_ := { loop.equeue_ with eventHandlers_ := handlers } }).runAccepted loop c ops
  | .channel loop c callback ops => do
    guardOr .environment (c ∈ (w.loopAt loop).channels ∧ callback ∈ [.read, .writ, .erro])
    w.handleEvent loop c callback ops
  | .timeout loop timer ops => do
    guardOr .environment (timer ∈ (w.loopAt loop).tqueue_)
    w.handleTimeout loop timer ops

end GroupWorld

end Liby
