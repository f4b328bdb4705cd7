import Liby.Loop.ResolverThread
import Liby.Net.Connection
import Liby.Net.Poller

/-!
# TcpClient

`EventLoopGroup::creatTcpClient`, `TcpClient.cpp` and `Socket::connect`.

An attempt to connect goes from thread to thread. Its request waits for the resolver thread, the
answer waits in the event queue of the loop that made the call, `start` may have to wait in the
event queue of the loop that gets the socket, and then the channel waits for the poller of that
loop. Any number of attempts are under way at the same time.

In every back end the `DeferCaller` of the loop over the events runs `nextTickHandlers_` after the
handlers of an fd, and the channel of a `TcpClient` has no read handler. So an event of a channel
is one handler, and then the handlers that it has put off.
-/

namespace Liby

open Infra

variable {E : Type}

/-! ## Socket -/

/-- `class Socket`: the fd that it holds, and its endpoint. -/
structure TcpSocket (E : Type) where
  fd_ : Nat
  ep_ : E
  deriving DecidableEq, Repr

/-- What `::connect` says: 0, `EINPROGRESS`, or any other error. -/
inductive ConnectResult where
  | connected
  | inProgress
  | failed
  deriving DecidableEq, Repr

/--
What the kernel says to a handler: the fd that `::socket` gives, what `::connect` says, and whether
the poller takes the channel.
-/
structure ConnectEnv where
  socket : Option Nat
  connect : ConnectResult
  ctl : Bool
  deriving DecidableEq, Repr

namespace TcpSocket

/-- `Socket(const Endpoint &)`, which calls `createSocket`. -/
def new (ep : E) (socket : Option Nat) : Exec (TcpSocket E) := do
  let fd_ ← derefOr .exception socket
  return { fd_ := fd_, ep_ := ep }

/-- `connect`. -/
def connect (result : ConnectResult) : Exec Unit := guardOr .exception (result ≠ .failed)

end TcpSocket

/-! ## The objects of an attempt -/

/-- Whose handler a channel has. -/
inductive ChanCallback where
  | client
  | conn
  deriving DecidableEq, Repr

/-- The channel of an attempt, which a poller has. -/
structure TcpChannel where
  poller_ : Nat
  interest : Channel
  readEventCallback_ : Option ChanCallback
  writEventCallback_ : Option ChanCallback
  erroEventCallback_ : Option ChanCallback
  deriving DecidableEq, Repr

namespace TcpChannel

/-- What a handler of the channel calls. -/
def callback (ch : TcpChannel) : Handler → Option ChanCallback
  | .read => ch.readEventCallback_
  | .writ => ch.writEventCallback_
  | .erro => ch.erroEventCallback_

/-- `enableRead`, `enableWrit` and `addChannel` or `updateChannel`. -/
def poll (ch : TcpChannel) (readable writable : Bool) : TcpChannel :=
  { ch with interest :=
    { ch.interest with readable_ := readable, writable_ := writable }.updateChannel }

end TcpChannel

/-- What the connector is given of a `Connection`. -/
structure TcpConn (E : Type) where
  loop_ : Nat
  socket_ : TcpSocket E
  context_ : Option Nat
  /-- `self_`, which `init` sets. -/
  self_ : Bool
  deriving DecidableEq, Repr

/-- `class TcpClient`. Handlers and contexts are numbers, and so are loops and their pollers. -/
structure TcpClient (E : Type) where
  loop_ : Option Nat
  poller_ : Option Nat
  socket_ : Option (TcpSocket E)
  chan_ : Bool
  connector_ : Option Nat
  context_ : Option Nat
  self_ : Bool
  deriving DecidableEq, Repr

/-- The ways an attempt can come out, up to what leaves a handler as an exception. -/
inductive ConnectOutcome (E : Type) where
  /-- The resolution returned no endpoint. -/
  | unresolved
  /-- The channel reported an error. -/
  | failed
  /-- The channel became writable, and the connection was made. -/
  | connected (conn : TcpConn E)
  deriving DecidableEq, Repr

/--
A `TcpClient` of `creatTcpClient` with what belongs to it. `outcome` is how the attempt came out and
the connector that was set by then, and `answers` are the connectors called, with what they were
given.
-/
structure ConnectAttempt (E : Type) where
  client : TcpClient E
  /-- The caller has kept the `shared_ptr` that was returned. -/
  user : Bool
  /-- The channel under the fd of the attempt. -/
  channel : Option TcpChannel
  /-- The connection, which shares the channel. -/
  conn : Option (TcpConn E)
  /-- The loop and the socket that the handler of `creatTcpClient` chose. -/
  target : Option (Nat × TcpSocket E)
  outcome : Option (ConnectOutcome E × Option Nat)
  answers : List (Nat × Option (TcpConn E))
  deriving DecidableEq, Repr

namespace ConnectAttempt

/-- `std::make_shared<TcpClient>()`. -/
def new : ConnectAttempt E where
  client := {
    loop_ := none, poller_ := none, socket_ := none, chan_ := false
    connector_ := none, context_ := none, self_ := false }
  user := true
  channel := none
  conn := none
  target := none
  outcome := none
  answers := []

/-- The attempt comes out. -/
def comesOut (a : ConnectAttempt E) (outcome : ConnectOutcome E) : ConnectAttempt E :=
  { a with outcome := some (outcome, a.client.connector_) }

/-- The connector is called, if there is one. -/
def answer (a : ConnectAttempt E) (connector : Option Nat) (conn : Option (TcpConn E)) :
    ConnectAttempt E :=
  { a with answers := a.answers ++ connector.toList.map fun k => (k, conn) }

/-- `onConnect`. -/
def onConnect (a : ConnectAttempt E) (connector : Nat) : ConnectAttempt E :=
  { a with client := { a.client with connector_ := some connector } }

/-- `context() = ..`. -/
def setContext (a : ConnectAttempt E) (context : Nat) : ConnectAttempt E :=
  { a with client := { a.client with context_ := some context } }

/-- `setEventLoop` and `setSocket`. -/
def setTarget (a : ConnectAttempt E) (loop : Nat) (socket : TcpSocket E) : ConnectAttempt E :=
  { a with
    client := { a.client with loop_ := some loop, poller_ := some loop, socket_ := some socket }
    target := some (loop, socket) }

/-- `destroy`. The channel goes unless the connection shares it. -/
def destroy (a : ConnectAttempt E) : ConnectAttempt E :=
  { a with
    client := { a.client with
      poller_ := none, loop_ := none, chan_ := false, socket_ := none
      connector_ := none, self_ := false }
    channel := if a.conn.isSome then a.channel else none }

/-- `start`. `addChannel` throws where the poller does not take the fd. -/
def start (a : ConnectAttempt E) (ctl : Bool) : Exec (ConnectAttempt E) := do
  let _ ← derefOr .assertFailed a.client.loop_
  let _ ← derefOr .assertFailed a.client.socket_
  let poller ← derefOr .assertFailed a.client.poller_
  let chan : TcpChannel := {
    poller_ := poller
    interest := { readable_ := false, writable_ := false, polledIn := false, polledOut := false }
    readEventCallback_ := none
    writEventCallback_ := some .client
    erroEventCallback_ := some .client }
  guardOr .exception ctl
  return { a with
    client := { a.client with chan_ := true, self_ := true }
    channel := some (chan.poll false true) }

/-- The handler that `onWrit` got, up to `nextTick`: the loop to call it on, and what it captures. -/
def handleWritEvent (a : ConnectAttempt E) :
    Exec (ConnectAttempt E × Nat × TcpConn E × Option Nat) := do
  let loop ← derefOr .nullDeref a.client.loop_
  let socket ← derefOr .assertFailed a.client.socket_
  let chan ← derefOr .nullDeref a.channel
  let connPtr : TcpConn E :=
    { loop_ := loop, socket_ := socket, context_ := a.client.context_, self_ := false }
  let a := a.comesOut (.connected connPtr)
  return ({ a with conn := some connPtr, channel := some (chan.poll false false) },
    loop, connPtr, a.client.connector_)

/-- The handler that was put off. -/
def connected (a : ConnectAttempt E) (connPtr : TcpConn E) (connector : Option Nat) :
    Exec (ConnectAttempt E) := do
  guardOr .nullDeref a.client.chan_
  let chan ← derefOr .nullDeref a.channel
  let a := { a with
    channel := some { chan with writEventCallback_ := none, erroEventCallback_ := none } }
  let a := a.destroy
  -- `connPtr->init()` and `connPtr->enableRead()`
  let chan ← derefOr .nullDeref a.channel
  let chan := { chan with
    readEventCallback_ := some .conn, writEventCallback_ := some .conn, erroEventCallback_ := some .conn }
  let connPtr := { connPtr with self_ := true }
  let a := { a with conn := some connPtr, channel := some (chan.poll true chan.interest.writable_) }
  return a.answer connector (some connPtr)

/-- The handler that `onErro` got. -/
def handleErroEvent (a : ConnectAttempt E) : ConnectAttempt E :=
  ((a.comesOut .failed).answer a.client.connector_ none).destroy

end ConnectAttempt

/-! ## The group -/

/-- What waits in the event queue of a loop for an attempt. -/
inductive ConnectHandler (E : Type) where
  /-- The handler of `creatTcpClient`, with the endpoints it is called with. -/
  | resolved (client : Nat) (eps : List E)
  /-- `tcpClient->start()`. -/
  | start (client : Nat)
  deriving DecidableEq, Repr

/-- What waits in `nextTickHandlers_`. -/
structure ConnectTick (E : Type) where
  loop : Nat
  client : Nat
  connPtr : TcpConn E
  connector : Option Nat
  deriving DecidableEq, Repr

/-- A group with the resolver's requests and its loops, and the attempts made. -/
structure ConnectWorld (E : Type) where
  n_ : Nat
  requests_ : BlockingQueue (ResolveRequest Nat Nat)
  equeues : List (EventQueue (ConnectHandler E))
  nextTickHandlers_ : List (ConnectTick E)
  attempts : List (ConnectAttempt E)
  deriving DecidableEq, Repr

namespace ConnectWorld

/-- A group of `n` worker loops. -/
def init (n : Nat) : ConnectWorld E where
  n_ := n
  requests_ := { queue_ := [] }
  equeues := List.replicate (n + 1) .init
  nextTickHandlers_ := []
  attempts := []

/-- `robinLoop1`. -/
def robinLoop1 (w : ConnectWorld E) (fd : Nat) : Nat := if w.n_ = 0 then 0 else fd % w.n_ + 1

/-- `loop->runEventHandler(handler)`. -/
def runEventHandler (w : ConnectWorld E) (loop : Nat) (handler : ConnectHandler E) :
    ConnectWorld E :=
  { w with equeues := w.equeues.modify loop fun q => (q.pushHandler handler).wakeup }

/-- Something is done with an attempt. -/
def onAttempt (w : ConnectWorld E) (c : Nat) (f : ConnectAttempt E → Exec (ConnectAttempt E)) :
    Exec (ConnectWorld E) := do
  let a ← readAt w.attempts c
  let a ← f a
  return { w with attempts := w.attempts.set c a }

/-- The caller does something with the client that it was given. -/
def onUser (w : ConnectWorld E) (c : Nat) (f : ConnectAttempt E → ConnectAttempt E) :
    ConnectWorld E :=
  { w with attempts := w.attempts.modify c fun a => if a.user then f a else a }

/-- `creatTcpClient`, up to `async_resolve`. -/
def creatTcpClient (w : ConnectWorld E) (curr_thread_loop : Option Nat) (host service : Bytes) :
    ConnectWorld E :=
  { w with
    attempts := w.attempts ++ [.new]
    requests_ := w.requests_.pushBack
      { name := host, port := service, loop := curr_thread_loop, handler := some w.attempts.length } }

/-- The resolver thread answers the request at the front. -/
def resolve (w : ConnectWorld E) (answer : Option (List E)) : Exec (ConnectWorld E) :=
  match w.requests_.queue_ with
  | [] => .ok w
  | request :: requests => do
    let w := { w with requests_ := { queue_ := requests } }
    match request.handler with
    | none => return w
    | some client => do
      let loop ← derefOr .nullDeref request.loop
      return w.runEventHandler loop (.resolved client (Resolver.resolve answer))

/-- `tcpClient->start()`. -/
def start (w : ConnectWorld E) (c : Nat) (ctl : Bool) : Exec (ConnectWorld E) :=
  w.onAttempt c fun a => a.start ctl

/-- The handler of `creatTcpClient`, on the thread of the loop `curr_thread_loop`. -/
def resolved (w : ConnectWorld E) (curr_thread_loop c : Nat) (eps : List E) (env : ConnectEnv) :
    Exec (ConnectWorld E) := do
  let a ← readAt w.attempts c
  -- `weakTcpClient.expired()`
  if a.user = false then return w
  else
    match eps with
    | [] => return { w with attempts := w.attempts.set c (a.comesOut .unresolved) }
    | ep :: _ => do
      let sockPtr ← TcpSocket.new ep env.socket
      let _ ← TcpSocket.connect env.connect
      let loop := w.robinLoop1 sockPtr.fd_
      let w := { w with attempts := w.attempts.set c (a.setTarget loop sockPtr) }
      if loop = curr_thread_loop then w.start c env.ctl
      else return w.runEventHandler loop (.start c)

/-- The event queue of a loop runs its first handler. -/
def runHandler (w : ConnectWorld E) (loop : Nat) (env : ConnectEnv) : Exec (ConnectWorld E) :=
  match w.equeues[loop]? with
  | none => .ok w
  | some q =>
    match q.eventHandlers_.popFront with
    | .error _ => .ok w
    | .ok (handler, handlers) =>
      let w := { w with equeues := w.equeues.set loop { q with eventHandlers_ := handlers } }
      match handler with
      | .resolved c eps => w.resolved loop c eps env
      | .start c => w.start c env.ctl

/-- `runNextTickHandlers`, of the poller of a loop. -/
def runNextTickHandlers (w : ConnectWorld E) (loop : Nat) : Exec (ConnectWorld E) :=
  (w.nextTickHandlers_.filter (·.loop = loop)).foldlM
    (fun w tick => w.onAttempt tick.client fun a => a.connected tick.connPtr tick.connector)
    { w with nextTickHandlers_ := w.nextTickHandlers_.filter (·.loop ≠ loop) }

/-- The handler that `onWrit` got, with `nextTick`. -/
def handleWritEvent (w : ConnectWorld E) (c : Nat) (a : ConnectAttempt E) :
    Exec (ConnectWorld E) := do
  let (a, loop, connPtr, connector) ← a.handleWritEvent
  return { w with
    attempts := w.attempts.set c a
    nextTickHandlers_ := w.nextTickHandlers_ ++
      [{ loop := loop, client := c, connPtr := connPtr, connector := connector }] }

/-- The poller reports an event of an attempt's fd. -/
def handleEvent (w : ConnectWorld E) (c : Nat) (handler : Handler) : Exec (ConnectWorld E) :=
  match w.attempts[c]? with
  | none => .ok w
  | some a =>
    match a.channel with
    | none => .ok w
    | some ch => do
      let w ← match ch.callback handler, handler with
        | some .client, .writ => w.handleWritEvent c a
        | some .client, .erro => .ok { w with attempts := w.attempts.set c a.handleErroEvent }
        -- no callback, or one of the connection
        | _, _ => .ok w
      w.runNextTickHandlers ch.poller_

end ConnectWorld

/-! ## Steps -/

/-- What can happen. -/
inductive ConnectEvent (E : Type) where
  /-- `creatTcpClient` is called, on a thread that a loop may be bound to. -/
  | creatTcpClient (curr_thread_loop : Option Nat) (host service : Bytes)
  /-- The caller sets a connector or a context, or drops the client. -/
  | onConnect (client connector : Nat)
  | setContext (client context : Nat)
  | release (client : Nat)
  /-- The resolver thread has an answer of `getaddrinfo`. -/
  | resolve (answer : Option (List E))
  /-- The event queue of a loop runs a handler. -/
  | handler (loop : Nat) (env : ConnectEnv)
  /-- A poller reports an event of the fd of an attempt. -/
  | channel (client : Nat) (handler : Handler)
  deriving DecidableEq, Repr

namespace ConnectWorld

/-- One event. One that cannot come changes nothing. -/
def step (w : ConnectWorld E) : ConnectEvent E → Exec (ConnectWorld E)
  | .creatTcpClient curr_thread_loop host service =>
    -- a thread is bound to one of the loops, or to none
    if ∀ loop ∈ curr_thread_loop, loop ≤ w.n_ then
      .ok (w.creatTcpClient curr_thread_loop host service)
    else .ok w
  | .onConnect c connector => .ok (w.onUser c fun a => a.onConnect connector)
  | .setContext c context => .ok (w.onUser c fun a => a.setContext context)
  | .release c => .ok (w.onUser c fun a => { a with user := false })
  | .resolve answer => w.resolve answer
  | .handler loop env => w.runHandler loop env
  | .channel c handler => w.handleEvent c handler

end ConnectWorld

end Liby
