import Liby.Infra.KeyMap
import Liby.Infra.Machine
import Liby.Net.Connection

/-!
# UdpSocket

`Endpoint.h`, `UdpConnection.cpp` and `UdpSocket.cpp`. A `UdpConnection` is an object that `conns_`
owns and to which the callbacks and the tasks have plain pointers; a pointer is a place in the list
of all objects made. Memory that was freed belongs to no block.
-/

namespace Liby

open Infra

variable {H : Type}

/-! ## Endpoint -/

/-- `struct Endpoint`. -/
structure Endpoint where
  port_ : UInt16
  addr_ : UInt32
  deriving DecidableEq, Repr

/-- `operator<`. -/
def Endpoint.lt (ep1 ep2 : Endpoint) : Bool :=
  if ep1.addr_ < ep2.addr_ then true
  else if ep1.addr_ = ep2.addr_ ∧ ep1.port_ < ep2.port_ then true
  else false

/-- **The order tells all endpoints apart.** -/
theorem separates_endpoint : Separates Endpoint.lt := by
  intro ep1 ep2
  obtain ⟨port1, addr1⟩ := ep1
  obtain ⟨port2, addr2⟩ := ep2
  unfold sameKey Endpoint.lt
  simp only [Endpoint.mk.injEq, UInt32.lt_iff_toNat_lt, UInt16.lt_iff_toNat_lt, ← UInt32.toNat_inj,
    ← UInt16.toNat_inj]
  split <;> split <;> simp <;> omega

/-! ## The objects -/

/-- `class UdpConnection`. -/
structure UdpConnection where
  peer_ : Endpoint
  readBuf_ : Buffer
  deriving DecidableEq, Repr

/-- The constructor. -/
def UdpConnection.new (ep : Endpoint) : UdpConnection := { peer_ := ep, readBuf_ := .ofLength 1024 }

/-- A `UdpConnection` in memory, with the bytes that were taken from its buffer. -/
structure UdpObject where
  uconn : UdpConnection
  freed : Bool
  taken : Bytes
  deriving DecidableEq, Repr

/-- `struct udp_io_task`; `dest_` points to the `peer_` of a connection. -/
structure UdpTask (H : Type) where
  dest_ : Nat
  buffer_ : Buffer
  handler_ : Option H
  deriving DecidableEq, Repr

/-- The back ends among which the `chooser` of `EventLoop` decides. -/
inductive Chooser where
  /-- The default. -/
  | epoll
  | poll
  | select
  deriving DecidableEq, Repr

/--
`class UdpSocket`. A pointer that is only tested or reset is a `Bool`, and `poller_` is known by its kind. `socket_`
is the only `SockPtr` to its `Socket`.
-/
structure UdpSocket (H : Type) where
  poller_ : Chooser
  destroy_ : Bool
  self_ : Bool
  socket_ : Bool
  chan_ : Option Channel
  conns_ : KeyMap Endpoint Nat
  writTasks_ : List (UdpTask H)
  acceptorCallback_ : Bool
  readEventCallback_ : Bool
  connectorCallback_ : Bool
  erroEventCallback_ : Bool
  deriving DecidableEq, Repr

/-- A callback that has run, with the peer of the connection it was given. -/
inductive UdpCall where
  | accept (peer : Endpoint)
  | connect (peer : Endpoint)
  | read (peer : Endpoint) (payload : Bytes)
  | erro
  deriving DecidableEq, Repr

/-- A datagram to be sent. -/
structure UdpMessage (H : Type) where
  dest : Endpoint
  payload : Bytes
  handler : Option H
  deriving DecidableEq, Repr

/--
A socket with its surroundings: all connections made, the callbacks that have run, the datagrams
given to `send` and those that `sendto` took, the completion handlers that have run, and whether
`sendto` failed with an error that is not `EAGAIN`.
-/
structure UdpWorld (H : Type) where
  socket : UdpSocket H
  uconns : List UdpObject
  calls : List UdpCall
  queued : List (UdpMessage H)
  handed : List (UdpMessage H)
  ran : List H
  failed : Bool
  deriving DecidableEq, Repr

namespace UdpWorld

/-- A socket after `start`, with its callbacks set. -/
def started (poller_ : Chooser) : UdpWorld H where
  socket := {
    poller_ := poller_
    destroy_ := false
    self_ := true
    socket_ := true
    chan_ := some { readable_ := true, writable_ := false, polledIn := true, polledOut := false }
    conns_ := []
    writTasks_ := []
    acceptorCallback_ := true
    readEventCallback_ := true
    connectorCallback_ := true
    erroEventCallback_ := true }
  uconns := []
  calls := []
  queued := []
  handed := []
  ran := []
  failed := false

/-- The object at a pointer; one that was freed must not be touched. -/
def access (w : UdpWorld H) (p : Nat) : Exec UdpObject :=
  match w.uconns[p]? with
  | none => .error .outOfBounds
  | some o => if o.freed then .error .outOfBounds else .ok o

theorem access_eq_ok {w : UdpWorld H} {p : Nat} {o : UdpObject} :
    w.access p = .ok o ↔ w.uconns[p]? = some o ∧ o.freed = false := by
  unfold access
  cases w.uconns[p]? with
  | none => exact ⟨nofun, nofun⟩
  | some o' =>
    dsimp only
    cases hfreed : o'.freed with
    | true =>
      rw [if_pos rfl]
      constructor
      · nofun
      · rintro ⟨h, hlive⟩
        cases h
        rw [hfreed] at hlive
        cases hlive
    | false =>
      rw [if_neg nofun]
      constructor
      · intro h
        cases h
        exact ⟨rfl, hfreed⟩
      · rintro ⟨h, -⟩
        cases h
        rfl

/-- The object at a pointer changes. -/
def store (w : UdpWorld H) (p : Nat) (o : UdpObject) : UdpWorld H :=
  { w with uconns := w.uconns.set p o }

/-- The last owner of a connection is gone. -/
def free (w : UdpWorld H) (p : Nat) : UdpWorld H :=
  { w with uconns := w.uconns.modify p fun o => { o with freed := true } }

/-- `enableWrit`. -/
def enableWrit (w : UdpWorld H) (flag : Bool) : Exec (UdpWorld H) :=
  match w.socket.chan_ with
  | none => .error .nullDeref
  | some ch =>
    .ok { w with socket := { w.socket with
      chan_ := some { ch with writable_ := flag }.updateChannel } }

/-- `UdpSocket::send(udp_io_task &&)`, of a task for the connection `o`. -/
def send (w : UdpWorld H) (o : UdpObject) (task : UdpTask H) : Exec (UdpWorld H) :=
  let m : UdpMessage H :=
    { dest := o.uconn.peer_, payload := task.buffer_.contents, handler := task.handler_ }
  let w : UdpWorld H := { w with
    socket := { w.socket with writTasks_ := w.socket.writTasks_ ++ [task] }
    queued := w.queued ++ [m] }
  w.enableWrit true

/--
`destroyConn`. The connection that is erased is freed, unless it is the one that a local
`shared_ptr` still holds.
-/
def destroyConn (w : UdpWorld H) (held : Option Nat) (ep : Endpoint) : UdpWorld H :=
  match w.socket.conns_.find Endpoint.lt ep with
  | none => w
  | some p =>
    let w := { w with socket := { w.socket with conns_ := w.socket.conns_.erase Endpoint.lt ep } }
    if held = some p then w else w.free p

/-- The end of a local `shared_ptr`. -/
def release (w : UdpWorld H) (p : Nat) : UdpWorld H :=
  if w.socket.conns_.any (fun e => e.2 = p) then w else w.free p

/--
`chan_.reset()`. `~Channel` calls `removeChanel`; `EPOLL_CTL_DEL` fails for a descriptor that is closed, and what is
thrown there leaves a destructor, which ends the process.
-/
def resetChan (w : UdpWorld H) : Exec (UdpWorld H) := do
  guardOr .exception
    (w.socket.chan_.isNone ∨ w.socket.poller_ ≠ .epoll ∨ w.socket.socket_ = true)
  return { w with socket := { w.socket with chan_ := none } }

/-- `UdpSocket::destroy`, while no local `shared_ptr` holds a connection. -/
def destroy (w : UdpWorld H) : Exec (UdpWorld H) :=
  if w.socket.destroy_ then .ok w
  else do
    -- `socket_.reset()` closes the descriptor before the channel goes
    let w : UdpWorld H := { w with
      socket := { w.socket with
        destroy_ := true, acceptorCallback_ := false, readEventCallback_ := false
        erroEventCallback_ := false, writTasks_ := [], conns_ := [], socket_ := false }
      uconns := w.uconns.map fun o => { o with freed := true } }
    let w ← w.resetChan
    return { w with socket := { w.socket with self_ := false } }

/-- What is left of a socket that was destroyed. -/
def destroyed (w : UdpWorld H) : UdpWorld H :=
  { w with
    socket := { w.socket with
      destroy_ := true, acceptorCallback_ := false, readEventCallback_ := false
      erroEventCallback_ := false, writTasks_ := [], conns_ := [], socket_ := false
      chan_ := none, self_ := false }
    uconns := w.uconns.map fun o => { o with freed := true } }

/-- `UdpSocket::destroy` on a socket that is destroyed. -/
theorem destroy_destroyed {w : UdpWorld H} (h : w.socket.destroy_ = true) : w.destroy = .ok w := by
  unfold destroy
  exact if_pos h

/-- **`UdpSocket::destroy` on a socket with a channel: over a `PollerEpoll` the process ends.** -/
theorem destroy_live {w : UdpWorld H} (h : w.socket.destroy_ = false) (hchan : w.socket.chan_.isSome = true) :
    w.destroy = if w.socket.poller_ = .epoll then .error .exception else .ok w.destroyed := by
  unfold destroy resetChan
  rw [if_neg (by rw [h]; exact Bool.false_ne_true)]
  have hnone : w.socket.chan_.isNone = false := by rw [← Option.not_isSome, hchan]; rfl
  dsimp only
  by_cases hpoller : w.socket.poller_ = .epoll
  · rw [if_pos hpoller, guardOr_neg (by simp [hnone, hpoller])]
    rfl
  · rw [if_neg hpoller, guardOr_pos (.inr (.inl hpoller))]
    rfl

/-- Where `UdpSocket::destroy` returns. -/
theorem destroy_cases {w w' : UdpWorld H} (h : w.destroy = .ok w') :
    (w.socket.destroy_ = true ∧ w' = w) ∨ (w.socket.destroy_ = false ∧ w' = w.destroyed) := by
  by_cases hdestroy : w.socket.destroy_ = true
  · rw [destroy_destroyed hdestroy] at h
    cases h
    exact .inl ⟨hdestroy, rfl⟩
  · unfold destroy resetChan at h
    rw [if_neg hdestroy] at h
    obtain ⟨w₁, h₁, h⟩ := bind_eq_ok.mp h
    obtain ⟨-, -, h₁⟩ := bind_eq_ok.mp h₁
    cases h₁
    cases h
    exact .inr ⟨by simpa using hdestroy, rfl⟩

/-- A callback runs, if it is set. -/
def callback (w : UdpWorld H) (set : Bool) (x : UdpCall) : UdpWorld H :=
  if set then { w with calls := w.calls ++ [x] } else w

/-- `handleErroEvent`. -/
def handleErroEvent (w : UdpWorld H) : Exec (UdpWorld H) :=
  (w.callback w.socket.erroEventCallback_ .erro).destroy

/-- `std::make_shared<UdpConnection>(this, ep)` and `conns_.insert`. -/
def makeConn (w : UdpWorld H) (ep : Endpoint) : UdpWorld H :=
  { w with
    socket := { w.socket with conns_ := w.socket.conns_.insert Endpoint.lt ep w.uconns.length }
    uconns := w.uconns ++ [{ uconn := .new ep, freed := false, taken := [] }] }

/-- `handleConnectEvent`. -/
def handleConnectEvent (w : UdpWorld H) (ep : Endpoint) : UdpWorld H :=
  match w.socket.conns_.find Endpoint.lt ep with
  | some _ => w
  | none => (w.makeConn ep).callback w.socket.connectorCallback_ (.connect ep)

end UdpWorld

/-! ## The read path -/

/-- What a read callback does with its connection. -/
inductive UdpOp (H : Type) where
  | retrieve
  | retrieveLength (len : Nat)
  /-- `retriveveAsString`, if the buffer is not empty. -/
  | retriveveAsString (len : Nat)
  /-- `send(read(), handler)`. -/
  | send (handler : Option H)
  | destroy
  deriving DecidableEq, Repr

/-- A datagram that `recvfrom` gives, and what the read callback does when it comes. -/
structure Datagram (H : Type) where
  peer : Endpoint
  payload : Bytes
  ops : List (UdpOp H)
  payload_ne : payload ≠ []
  /-- It fits into the local array. -/
  payload_le : payload.length ≤ 4096
  deriving DecidableEq, Repr

namespace UdpWorld

/-- The buffer of a connection is taken from. -/
def take (w : UdpWorld H) (p : Nat) (o : UdpObject) (ret : Bytes) (readBuf : Buffer) : UdpWorld H :=
  w.store p { o with uconn := { o.uconn with readBuf_ := readBuf }, taken := o.taken ++ ret }

/-- A call of the read callback on its connection. -/
def runOp (held : Option Nat) (p : Nat) (w : UdpWorld H) (op : UdpOp H) : Exec (UdpWorld H) := do
  let o ← w.access p
  match op with
  | .retrieve => return w.take p o o.uconn.readBuf_.contents o.uconn.readBuf_.clear
  | .retrieveLength len => do
    let readBuf ← o.uconn.readBuf_.retrieve len
    return w.take p o (o.uconn.readBuf_.contents.take len) readBuf
  | .retriveveAsString len =>
    if o.uconn.readBuf_.empty then return w
    else do
      let (ret, readBuf) ← o.uconn.readBuf_.retriveveAsString len
      return w.take p o ret readBuf
  | .send handler => do
    let buf := o.uconn.readBuf_
    guardOr .assertFailed (0 < buf.capacity_ ∧ buf.leftIndex_ ≤ buf.rightIndex_)
    let w := w.take p o buf.contents (.ofLength buf.capacity_)
    w.send o { dest_ := p, buffer_ := buf, handler_ := handler }
  | .destroy => return w.destroyConn held o.uconn.peer_

/-- The calls of a read callback, one after the other. -/
def runOps (held : Option Nat) (p : Nat) (w : UdpWorld H) : List (UdpOp H) → Exec (UdpWorld H)
  | [] => .ok w
  | op :: ops => do
    let w ← w.runOp held p op
    runOps held p w ops

/-- `getReadBuf().append(buffer, n)` and the read callback. -/
def deliver (held : Option Nat) (p : Nat) (w : UdpWorld H) (g : Datagram H) : Exec (UdpWorld H) := do
  let o ← w.access p
  let readBuf ← o.uconn.readBuf_.append g.payload
  let w := w.store p { o with uconn := { o.uconn with readBuf_ := readBuf } }
  if w.socket.readEventCallback_ then
    (w.callback true (.read o.uconn.peer_ g.payload)).runOps held p g.ops
  else return w

/-- A pass of the loop of `handleReadEvent` with a datagram. -/
def recvfrom (w : UdpWorld H) (g : Datagram H) : Exec (UdpWorld H) :=
  match w.socket.conns_.find Endpoint.lt g.peer with
  | none => do
    let p := w.uconns.length
    let w := (w.makeConn g.peer).callback w.socket.acceptorCallback_ (.accept g.peer)
    -- `uconn` is a `shared_ptr` in this branch only
    let w ← w.deliver (some p) p g
    return w.release p
  | some p => w.deliver none p g

/-- `handleReadEvent`, with the datagrams that come before `EAGAIN`. -/
def handleReadEvent (w : UdpWorld H) : List (Datagram H) → Exec (UdpWorld H)
  | [] => .ok w
  | g :: gs => do
    guardOr .nullDeref w.socket.socket_
    let w ← w.recvfrom g
    handleReadEvent w gs

end UdpWorld

/-! ## The write path -/

/-- The overloads of `UdpConnection::send`. -/
inductive UdpSend (H : Type) where
  | base (base : Bytes) (handler : Option H)
  | buffer (buf : Buffer) (handler : Option H)
  | moved (buf : Buffer) (handler : Option H)
  | cString (buf : Bytes) (handler : Option H)
  | string (str : Bytes) (handler : Option H)
  deriving DecidableEq, Repr

namespace UdpSend

/-- The buffer of the task. -/
def buf : UdpSend H → Exec Buffer
  | .base bytes _ => .ok (.ofBytes bytes)
  | .buffer buf _ => do
    guardOr .assertFailed (0 < buf.capacity_ ∧ buf.leftIndex_ ≤ buf.rightIndex_)
    return buf
  | .moved buf _ => .ok buf
  | .cString buf _ => .ok (.ofBytes (buf.takeWhile (· ≠ 0)))
  | .string str _ => .ok (.ofBytes str)

def handler : UdpSend H → Option H
  | .base _ handler | .buffer _ handler | .moved _ handler | .cString _ handler | .string _ handler =>
    handler

/-- There is something to send. -/
def Sends : UdpSend H → Prop
  | .base bytes _ => bytes ≠ []
  | .buffer buf _ | .moved buf _ => buf.Wf ∧ buf.contents ≠ []
  | .cString buf _ => buf.takeWhile (· ≠ 0) ≠ []
  | .string str _ => str ≠ []

end UdpSend

/-- A call of `send` on a connection, with something to send. -/
structure UdpSendCall (H : Type) where
  uconn : Nat
  send : UdpSend H
  sends : send.Sends

/--
The answer to `sendto`: the whole datagram went out, with the calls of `send` that its completion
handler makes, if it has one; or it failed, with `EAGAIN` or with another error.
-/
inductive SendAnswer (H : Type) where
  | sent (calls : List (UdpSendCall H))
  | again
  | failed

/-- `EAGAIN`. -/
def EAGAIN : Int := 11

/-- What `sendto` returns for a datagram of `size` bytes. -/
def SendAnswer.result (size : Nat) : SendAnswer H → Int
  | .sent _ => size
  | .again | .failed => -1

/-- The calls that the completion handler makes. -/
def SendAnswer.calls : SendAnswer H → List (UdpSendCall H)
  | .sent calls => calls
  | .again | .failed => []

namespace UdpWorld

/-- `UdpConnection::send`. -/
def sendOn (w : UdpWorld H) (p : Nat) (x : UdpSend H) : Exec (UdpWorld H) := do
  let o ← w.access p
  let buf ← x.buf
  w.send o { dest_ := p, buffer_ := buf, handler_ := x.handler }

/-- A call of `send` by the user, on a connection that is there. -/
def call (w : UdpWorld H) (x : UdpSendCall H) : Exec (UdpWorld H) := do
  guardOr .environment (w.socket.conns_.any (fun e => e.2 = x.uconn))
  w.sendOn x.uconn x.send

/-- The calls of a completion handler, one after the other. -/
def callAll (w : UdpWorld H) : List (UdpSendCall H) → Exec (UdpWorld H)
  | [] => .ok w
  | x :: xs => do
    let w ← w.call x
    callAll w xs

/-- What is known of a `sendto` afterwards. -/
def record (w : UdpWorld H) (m : UdpMessage H) : SendAnswer H → UdpWorld H
  | .sent _ => { w with handed := w.handed ++ [m] }
  | .again => w
  | .failed => { w with failed := true }

/-- A completion handler runs. -/
def complete (w : UdpWorld H) (handler_ : Option H) (calls : List (UdpSendCall H)) : Exec (UdpWorld H) :=
  match handler_ with
  | none => .ok w
  | some handler => callAll { w with ran := w.ran ++ [handler] } calls

/-- `writTasks_.pop_front()`. -/
def popFront (w : UdpWorld H) : Exec (UdpWorld H) :=
  match w.socket.writTasks_ with
  | [] => .error .emptyContainer
  | _ :: tasks => .ok { w with socket := { w.socket with writTasks_ := tasks } }

/-- A pass of the loop of `handleWritEvent`, for the task at the front. -/
def writPass (w : UdpWorld H) (first : UdpTask H) (a : SendAnswer H) :
    Exec (Pass (UdpWorld H) (UdpWorld H)) := do
  let base ← first.buffer_.data
  let size ← first.buffer_.size
  let dest ← w.access first.dest_
  guardOr .nullDeref w.socket.socket_
  let n := a.result size
  let w := w.record { dest := dest.uconn.peer_, payload := base, handler := first.handler_ } a
  if n < 0 then
    -- the test is on the result, and not on `errno`
    let w ← (if n ≠ EAGAIN then w.handleErroEvent else .ok w)
    return .done w
  else do
    let buffer ← first.buffer_.retrieve n
    let rest ← buffer.size
    if rest = 0 then do
      let w ← w.complete first.handler_ a.calls
      let w ← w.popFront
      return .next w
    else
      return .next { w with socket := { w.socket with
        writTasks_ := { first with buffer_ := buffer } :: w.socket.writTasks_.tail } }

/-- `while (!writTasks_.empty())`, with the answer to each `sendto`. -/
def writLoop (w : UdpWorld H) : List (SendAnswer H) → Exec (UdpWorld H)
  | [] => if w.socket.writTasks_ = [] then .ok w else .error .environment
  | a :: as =>
    match w.socket.writTasks_ with
    | [] => .error .environment
    | first :: _ => do
      let pass ← w.writPass first a
      match pass with
      | .done w => if as.isEmpty then .ok w else .error .environment
      | .next w => w.writLoop as

/-- `handleWritEvent`. The `DeferCaller` has no name, so that it runs before the loop. -/
def handleWritEvent (w : UdpWorld H) (as : List (SendAnswer H)) : Exec (UdpWorld H) := do
  let w ←
    if w.socket.destroy_ then pure w
    else if w.socket.writTasks_ = [] then w.enableWrit false
    else pure w
  w.writLoop as

end UdpWorld

end Liby
