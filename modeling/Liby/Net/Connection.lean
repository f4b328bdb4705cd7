import Liby.Buffer.Contents
import Liby.Infra.Loop
import Liby.Infra.Outbox

/-!
# Connection

`Connection.h` and `Connection.cpp`: the queue of things to write, and the events of the socket.
What callbacks and completion handlers do is a parameter (`Callbacks`); what the kernel answers to
a call comes with the event. A handler of type `H` is what the user gave to `send`.
-/

namespace Liby

open Infra

variable {σ H : Type _}

/-- `class Channel`: its interest, and the interest that the poller was told last. -/
structure Channel where
  readable_ : Bool
  writable_ : Bool
  polledIn : Bool
  polledOut : Bool
  deriving DecidableEq, Repr

/-- `updateChannel`. -/
def Channel.updateChannel (ch : Channel) : Channel :=
  { ch with polledIn := ch.readable_, polledOut := ch.writable_ }

/-- `struct io_task`. A file descriptor is the bytes of its file. -/
structure IoTask (H : Type _) where
  fp_ : Option Bytes
  offset_ : Nat
  len_ : Nat
  buffer_ : Option Buffer
  handler_ : Option H
  deriving DecidableEq, Repr

/-- `class Connection`. A pointer that is only tested or reset is a `Bool`. -/
structure Connection (H : Type _) where
  destroy_ : Bool
  self_ : Bool
  socket_ : Bool
  chan_ : Option Channel
  readBuf_ : Buffer
  writTasks_ : List (IoTask H)
  readEventCallback_ : Bool
  erroEventCallback_ : Bool
  /-- The calls of `destroy` that `destroyLater` has put off. -/
  nextTicks : Nat
  deriving DecidableEq, Repr

/-- A call on the connection by its user. -/
inductive ConnCall (H : Type _) where
  | send (base : Bytes) (handler : Option H)
  | sendBuffer (buf : Buffer) (handler : Option H)
  | sendMoved (buf : Buffer) (handler : Option H)
  | sendCString (buf : Bytes) (handler : Option H)
  | sendString (str : Bytes) (handler : Option H)
  | sendFile (fp : Bytes) (off len : Nat) (handler : Option H)
  | enableRead (flag : Bool)
  | destroy
  | destroyLater
  deriving DecidableEq, Repr

namespace IoTask

/-- `io_task()`, with `handler_` set. -/
def new (handler : Option H) : IoTask H where
  fp_ := none
  offset_ := 0
  len_ := 0
  buffer_ := none
  handler_ := handler

/-- A task with a buffer. -/
def ofBuffer (buf : Buffer) (handler : Option H) : IoTask H :=
  { new handler with buffer_ := some buf }

/-- A task with a part of a file. -/
def ofFile (fp : Bytes) (off len : Nat) (handler : Option H) : IoTask H :=
  { new handler with fp_ := some fp, offset_ := off, len_ := len }

end IoTask

namespace Connection

/-- A connection that was just accepted, with both callbacks set and the read interest on. -/
def accepted : Connection H where
  destroy_ := false
  self_ := true
  socket_ := true
  chan_ := some { readable_ := true, writable_ := false, polledIn := true, polledOut := false }
  readBuf_ := .ofLength 1024
  writTasks_ := []
  readEventCallback_ := true
  erroEventCallback_ := true
  nextTicks := 0

/-- `destroy`. -/
def destroy (c : Connection H) : Connection H :=
  if c.destroy_ then c
  else
    { c with
      destroy_ := true, chan_ := none, socket_ := false, writTasks_ := []
      erroEventCallback_ := false, readEventCallback_ := false, self_ := false }

/-- The channel; every function that reaches it has `chan_` set, or faults. -/
def channel (c : Connection H) : Exec Channel :=
  match c.chan_ with
  | some ch => .ok ch
  | none => .error .nullDeref

/-- `enableRead`. -/
def enableRead (c : Connection H) (flag : Bool) : Exec (Connection H) := do
  let ch ← c.channel
  return { c with chan_ := some { ch with readable_ := flag }.updateChannel }

/-- `enableWrit`. -/
def enableWrit (c : Connection H) (flag : Bool) : Exec (Connection H) := do
  let ch ← c.channel
  return { c with chan_ := some { ch with writable_ := flag }.updateChannel }

/-- `writTasks_.emplace_back` and `enableWrit`, the end of every `send`. -/
def emplace (c : Connection H) (task : IoTask H) : Exec (Connection H) :=
  { c with writTasks_ := c.writTasks_ ++ [task] }.enableWrit true

/-- `send(const char *, off_t, ..)`. -/
def send (c : Connection H) (base : Bytes) (handler : Option H) : Exec (Connection H) :=
  c.emplace (.ofBuffer (.ofBytes base) handler)

/-- `send(Buffer &, ..)`, with the buffer that the caller is left with. -/
def sendBuffer (c : Connection H) (buf : Buffer) (handler : Option H) :
    Exec (Connection H × Buffer) := do
  guardOr .assertFailed (0 < buf.capacity_ ∧ buf.leftIndex_ ≤ buf.rightIndex_)
  let c ← c.emplace (.ofBuffer buf handler)
  return (c, .ofLength buf.capacity_)

/-- `send(Buffer &&, ..)`. -/
def sendMoved (c : Connection H) (buf : Buffer) (handler : Option H) : Exec (Connection H) :=
  c.emplace (.ofBuffer buf handler)

/-- `send(const char *, ..)`, which sends what comes before the NUL. -/
def sendCString (c : Connection H) (buf : Bytes) (handler : Option H) : Exec (Connection H) :=
  c.send (buf.takeWhile (· ≠ 0)) handler

/-- `send(const std::string &, ..)`. -/
def sendString (c : Connection H) (str : Bytes) (handler : Option H) : Exec (Connection H) :=
  if str = [] then .ok c else c.send str handler

/-- `sendFile`. -/
def sendFile (c : Connection H) (fp : Bytes) (off len : Nat) (handler : Option H) :
    Exec (Connection H) :=
  c.emplace (.ofFile fp off len handler)

/-- `destroyLater`. -/
def destroyLater (c : Connection H) : Connection H := { c with nextTicks := c.nextTicks + 1 }

/--
The handlers of the next tick, each of which destroys the connection. Where nobody else holds it
(`held`), it is freed when it is destroyed, and a handler that comes later is called on what is no more.
-/
def runNextTickHandlers (held : Bool) (c : Connection H) : Exec (Connection H) := do
  guardOr .outOfBounds (held = true ∨ c.nextTicks = 0 ∨ (c.destroy_ = false ∧ c.nextTicks = 1))
  return if c.nextTicks = 0 then c else { c with nextTicks := 0 }.destroy

/-- A call by the user. -/
def call (c : Connection H) : ConnCall H → Exec (Connection H)
  | .send base handler => c.send base handler
  | .sendBuffer buf handler => do
    let (c, _) ← c.sendBuffer buf handler
    return c
  | .sendMoved buf handler => c.sendMoved buf handler
  | .sendCString buf handler => c.sendCString buf handler
  | .sendString str handler => c.sendString str handler
  | .sendFile fp off len handler => c.sendFile fp off len handler
  | .enableRead flag => c.enableRead flag
  | .destroy => .ok c.destroy
  | .destroyLater => .ok c.destroyLater

/-- `sizeof(extraBuffer)`. -/
def extraBufferSize : Nat := 16384

/-- `readv` into the end of `readBuf_` and into `extraBuffer`, which gave `bytes`. -/
def receive (c : Connection H) (bytes : Bytes) : Exec (Connection H) := do
  let availble ← c.readBuf_.availbleSize
  guardOr .environment (bytes ≠ [] ∧ bytes.length ≤ availble + extraBufferSize)
  let buffer ← c.readBuf_.writeAtEnd (bytes.take availble)
  if availble < bytes.length then do
    let buffer ← buffer.appendLength availble
    let buffer ← buffer.append (bytes.drop availble)
    return { c with readBuf_ := buffer }
  else do
    let buffer ← buffer.appendLength bytes.length
    return { c with readBuf_ := buffer }

/-- `writTasks_.pop_front()`. -/
def popFront (c : Connection H) : Exec (Connection H) :=
  match c.writTasks_ with
  | [] => .error .emptyContainer
  | _ :: tasks => .ok { c with writTasks_ := tasks }

end Connection

/-- What a call sends, and the handler that goes with it. -/
def ConnCall.messages : ConnCall H → List (Message UInt8 (Option H))
  | .send base handler => [{ payload := base, tag := handler }]
  | .sendBuffer buf handler | .sendMoved buf handler =>
    [{ payload := buf.contents, tag := handler }]
  | .sendCString buf handler => [{ payload := buf.takeWhile (· ≠ 0), tag := handler }]
  | .sendString str handler => if str = [] then [] else [{ payload := str, tag := handler }]
  | .sendFile fp off len handler => [{ payload := (fp.drop off).take len, tag := handler }]
  | .enableRead _ | .destroy | .destroyLater => []

/--
What the user's code does: a completion handler and the error callback. Each gives what it leaves,
and what it calls on the connection.
-/
structure Callbacks (σ H : Type _) where
  complete : σ → H → σ × List (ConnCall H)
  onErro : σ → σ × List (ConnCall H)

/--
A connection with its surroundings: the state of its user, the bytes that the kernel has accepted,
what was given to `send` so far, and the handlers that have run.
-/
structure Link (σ H : Type _) where
  conn : Connection H
  world : σ
  wire : Bytes
  sent : List (Message UInt8 (Option H))
  ran : List H
  deriving DecidableEq, Repr

/-- The answer to `writev` or `sendfile`. -/
inductive WriteAnswer where
  | again
  | accepted (n : Nat)
  | failed
  deriving DecidableEq, Repr

/-- The answer to `readv`: bytes, the end of the stream, or an error. -/
inductive ReadAnswer where
  | again
  | received (bytes : Bytes)
  | closed
  | failed
  deriving DecidableEq, Repr

/-- The most entries that `writev` takes. -/
def IOV_MAX : Nat := 1024

namespace Link

/-- A call by the user. -/
def call (l : Link σ H) (x : ConnCall H) : Exec (Link σ H) := do
  let conn ← l.conn.call x
  return { l with conn := conn, sent := l.sent ++ x.messages }

/-- The calls of a callback, one after the other. -/
def calls (l : Link σ H) : List (ConnCall H) → Exec (Link σ H)
  | [] => .ok l
  | x :: xs => do
    let l ← l.call x
    l.calls xs

variable (cb : Callbacks σ H)

/-- A completion handler runs. -/
def complete (l : Link σ H) (handler : H) : Exec (Link σ H) :=
  let (world, xs) := cb.complete l.world handler
  { l with world := world, ran := l.ran ++ [handler] }.calls xs

/-- `handleErroEvent`. -/
def handleErroEvent (l : Link σ H) : Exec (Link σ H) := do
  let l ←
    if l.conn.erroEventCallback_ then
      let (world, xs) := cb.onErro l.world
      { l with world := world }.calls xs
    else pure l
  return { l with conn := l.conn.destroy }

/-- `handleReadEvent`; `onRead` is the read callback. -/
def handleReadEvent (onRead : Link σ H → Exec (Link σ H)) (l : Link σ H) (a : ReadAnswer) :
    Exec (Link σ H) := do
  -- `wdata` and `availbleSize` assert that there is a block
  let _ ← l.conn.readBuf_.availbleSize
  guardOr .nullDeref l.conn.socket_
  match a with
  | .again => return l
  | .closed | .failed => l.handleErroEvent cb
  | .received bytes => do
    let conn ← l.conn.receive bytes
    let l := { l with conn := conn }
    if conn.readEventCallback_ then onRead l else return l

/-! ## handleWritEvent -/

/-- The entries of `iov`: the buffers up to the first task with a file. -/
def gather : List (IoTask H) → Exec (List Bytes)
  | [] => .ok []
  | x :: tasks =>
    match x.fp_, x.buffer_ with
    | none, some buffer => do
      let base ← buffer.data
      let iov ← gather tasks
      return base :: iov
    | _, _ => .ok []

/-- The task at the front is over: its handler, and `pop_front`. -/
def finishFile (l : Link σ H) (first : IoTask H) : Exec (Link σ H) := do
  let l ←
    match first.handler_ with
    | none => pure l
    | some handler => l.complete cb handler
  -- the file path does not look at `destroy_` here
  let conn ← l.conn.popFront
  return { l with conn := conn }

/-- The same for a task with a buffer; the event is over if the handler destroyed the connection. -/
def finishBuffer (l : Link σ H) (first : IoTask H) : Exec (Pass (Link σ H) (Link σ H)) :=
  match first.handler_ with
  | none => do
    let conn ← l.conn.popFront
    return .next { l with conn := conn }
  | some handler => do
    let l ← l.complete cb handler
    if l.conn.destroy_ then return .done l
    else do
      let conn ← l.conn.popFront
      return .next { l with conn := conn }

/--
`while (ret > 0)`: the buffers that the `ret` accepted bytes come from. They were gathered for the
call, so that their number bounds the passes.
-/
def drain : Nat → Nat → Link σ H → Exec (Pass (Link σ H) (Link σ H))
  | _, 0, l => .ok (.next l)
  | 0, _ + 1, _ => .error .diverges
  | gathered + 1, ret + 1, l =>
    match l.conn.writTasks_ with
    | [] => .error .emptyContainer
    | first :: tasks =>
      match first.buffer_ with
      | none => .error .nullDeref
      | some buffer => do
        let firstBufferSize ← buffer.size
        if firstBufferSize ≤ ret + 1 then do
          let pass ← l.finishBuffer cb first
          match pass with
          | .done l => return .done l
          | .next l => drain gathered (ret + 1 - firstBufferSize) l
        else do
          let buffer ← buffer.retrieve (ret + 1 : Nat)
          return .done { l with conn := { l.conn with
            writTasks_ := { first with buffer_ := some buffer } :: tasks } }

/-- The loop's pass for a task with a file, with the answer to `sendfile`. -/
def filePass (l : Link σ H) (first : IoTask H) (fp : Bytes) (a : WriteAnswer) :
    Exec (Pass (Link σ H) (Link σ H)) := do
  guardOr .nullDeref l.conn.socket_
  match a with
  | .again => return .done l
  | .failed => do
    let l ← l.handleErroEvent cb
    return .done l
  | .accepted ret => do
    -- `ret` is an `int`, and what the kernel takes is there to be taken
    guardOr .environment (ret ≤ first.len_ ∧ first.offset_ + ret ≤ fp.length ∧ ret < 2 ^ 31)
    if ret = 0 then do
      let l ← l.handleErroEvent cb
      return .done l
    else do
      let l := { l with wire := l.wire ++ (fp.drop first.offset_).take ret }
      if ret = first.len_ then do
        let l ← l.finishFile cb first
        return .next l
      else
        return .done { l with conn := { l.conn with
          writTasks_ := { first with len_ := first.len_ - ret, offset_ := first.offset_ + ret } ::
            l.conn.writTasks_.tail } }

/-- The loop's pass for a task without a file, with the answer to `writev`. -/
def bufferPass (l : Link σ H) (a : WriteAnswer) : Exec (Pass (Link σ H) (Link σ H)) := do
  let iov ← gather l.conn.writTasks_
  -- `&iov[0]`
  guardOr .outOfBounds (iov ≠ [])
  guardOr .nullDeref l.conn.socket_
  match a with
  | .again => return .done l
  | .failed => do
    let l ← l.handleErroEvent cb
    return .done l
  | .accepted ret => do
    guardOr .environment (ret ≤ iov.flatten.length ∧ iov.length ≤ IOV_MAX ∧ ret < 2 ^ 31)
    if ret = 0 then do
      let l ← l.handleErroEvent cb
      return .done l
    else drain cb iov.length ret { l with wire := l.wire ++ iov.flatten.take ret }

/-- A pass of the loop, for the task at the front. -/
def writPass (l : Link σ H) (first : IoTask H) (a : WriteAnswer) :
    Exec (Pass (Link σ H) (Link σ H)) :=
  match first.fp_ with
  | some fp => l.filePass cb first fp a
  | none => l.bufferPass cb a

/-- `while (!writTasks_.empty())`, with one answer of the kernel for each pass. -/
def writLoop (l : Link σ H) : List WriteAnswer → Exec (Link σ H)
  | [] => if l.conn.writTasks_ = [] then .ok l else .error .environment
  | a :: as =>
    match l.conn.writTasks_ with
    | [] => .ok l
    | first :: _ => do
      let pass ← l.writPass cb first a
      match pass with
      | .done l => return l
      | .next l => l.writLoop as

/--
`handleWritEvent`. The `DeferCaller` has no name, so it is gone, and has run, before the loop
starts.
-/
def handleWritEvent (l : Link σ H) (as : List WriteAnswer) : Exec (Link σ H) := do
  let l ←
    if l.conn.destroy_ then pure l
    else if l.conn.writTasks_ = [] then do
      let conn ← l.conn.enableWrit false
      pure { l with conn := conn }
    else pure l
  l.writLoop cb as

/-- An event of the write path: a call by the user, or the socket can be written. -/
inductive Event (H : Type _) where
  | call (x : ConnCall H)
  | writ (as : List WriteAnswer)
  deriving DecidableEq, Repr

/-- What an event does. -/
def step (l : Link σ H) : Event H → Exec (Link σ H)
  | .call x => l.call x
  | .writ as => l.handleWritEvent cb as

/-- A connection on which nothing was sent yet. -/
def start (conn : Connection H) (world : σ) : Link σ H where
  conn := conn
  world := world
  wire := []
  sent := []
  ran := []

end Link

end Liby
