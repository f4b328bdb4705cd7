import Liby.Http.HttpClient
import Liby.Http.HttpDef
import Liby.Net.ReadPath

/-!
# HttpClient with its connections

All of `HttpClient.cpp`: the requests with their text, the connections that `onConnect` handed over, and
the completions of what was sent. Each event runs up to the next one; the loop of `handleReadEvent`
need not end, and is taken pass by pass.

A list copies a request when it takes it over; the copy is the request here.
-/

namespace Liby.Http

open Infra

variable {σ H : Type _}

/-- What was given to `get`. An empty handler is `none`. -/
structure Get (H : Type _) where
  request : Request
  wf : request.body_.Wf
  handler : Option H

/-- What a reply handler calls on the client. -/
inductive GetCall (H : Type _) where
  | get (request : Get H)
  | destroy

/-- What a reply handler does: what it leaves of `content_`, and what it calls. -/
structure Response (σ H : Type _) where
  world : σ
  content_ : Buffer
  wf : content_.Wf
  calls : List (GetCall H)

/-- What reply handlers do; `none` is an exception. -/
abbrev ReplyHandle (σ H : Type _) := σ → H → ReplyParser → Option (Response σ H)

/--
`class HttpClient` with its surroundings. `http_conn_` is an index into the connections, and `reading`
is the connection whose `handleReadEvent` is in its loop. The rest is a record: what was given to
`get`, what to `Connection::send`, the replies with the requests they were taken for, and whether
`destroy` was called.
-/
structure ClientLink (σ H : Type _) where
  parser_ : ReplyParser
  requestLists_ : List (Get H)
  sendReqeustLists_ : List (Get H)
  httpClient_ : Bool
  httpConn_ : Option Nat
  connections : List (Connection Unit)
  reading : Option Nat
  world : σ
  gets : List (Get H)
  sent : List (Get H)
  replied : List (Get H × ReplyParser)
  destroyed : Bool

/-- The buffer that `sendRequest` makes. -/
def Request.buffer (r : Request) : Exec Buffer := do
  let text ← r.toString
  let buffer ← (Buffer.ofLength 1024).appendString text
  buffer.appendBuffer r.body_

namespace ClientLink

/-- The constructor. -/
def init (status_ : Int) (world : σ) : ClientLink σ H where
  parser_ := .init status_
  requestLists_ := []
  sendReqeustLists_ := []
  httpClient_ := true
  httpConn_ := none
  connections := []
  reading := none
  world := world
  gets := []
  sent := []
  replied := []
  destroyed := false

/-- A call through `http_conn_`. -/
def through (c : ClientLink σ H) (f : Connection Unit → Exec (Connection Unit)) :
    Exec (ClientLink σ H) :=
  match c.httpConn_ with
  | none => .error .nullDeref
  | some i => do
    let conn ← readAt c.connections i
    let conn ← f conn
    return { c with connections := c.connections.set i conn }

/-- `sendRequest`. The completion is the one handler that the client gives to `send`. -/
def sendRequest (c : ClientLink σ H) : Exec (ClientLink σ H) :=
  match c.requestLists_ with
  | [] => .error .emptyContainer
  | request :: requests => do
    let buffer ← request.request.buffer
    let c ← c.through fun conn => do
      let (conn, _) ← conn.sendBuffer buffer (some ())
      return conn
    return { c with
      requestLists_ := requests
      sendReqeustLists_ := c.sendReqeustLists_ ++ [request]
      sent := c.sent ++ [request] }

/-- `get`. -/
def get (c : ClientLink σ H) (request : Get H) : Exec (ClientLink σ H) :=
  let c := { c with requestLists_ := c.requestLists_ ++ [request], gets := c.gets ++ [request] }
  if c.httpConn_.isSome then c.sendRequest else .ok c

/-- `destroy`. -/
def destroy (c : ClientLink σ H) : ClientLink σ H :=
  { c with requestLists_ := [], httpClient_ := false, httpConn_ := none, destroyed := true }

/-- `handleErroEvent`. -/
def handleErroEvent (c : ClientLink σ H) : ClientLink σ H := c.destroy

/-- The connection that a `TcpClient` makes, before the client has set its callbacks. -/
def fresh : Connection Unit :=
  { Connection.accepted with readEventCallback_ := false, erroEventCallback_ := false }

/-- `handleConnection`. -/
def handleConnection (c : ClientLink σ H) (conn : Option (Connection Unit)) :
    Exec (ClientLink σ H) := do
  let c := match conn with
    | none => { c with httpConn_ := none }
    | some conn =>
      { c with httpConn_ := some c.connections.length, connections := c.connections ++ [conn] }
  let c ← c.through fun conn => .ok { conn with readEventCallback_ := true }
  let c ← c.through fun conn => .ok { conn with erroEventCallback_ := true }
  if c.requestLists_ ≠ [] then c.sendRequest else return c

/-- The handler that `sendRequest` gives to `send`. -/
def sendDone (c : ClientLink σ H) : Exec (ClientLink σ H) := do
  let c ← c.through fun conn => conn.enableRead true
  if c.requestLists_ = [] then return c else c.sendRequest

/-- One call of a reply handler. -/
def call (c : ClientLink σ H) : GetCall H → Exec (ClientLink σ H)
  | .get request => c.get request
  | .destroy => .ok c.destroy

/-! ## handleReadEvent -/

/-- What a pass does up to the outcome of the parser. -/
def take (c : ClientLink σ H) (i : Nat) : Exec (ClientLink σ H) := do
  let conn ← readAt c.connections i
  let savedBytes := c.parser_.bytes_
  let (block, first, last) ← conn.readBuf_.range
  let f ← c.parser_.parse block first last
  let length ← subInt f.parser.bytes_ savedBytes
  let readBuf ← conn.readBuf_.retrieve length
  return { c with
    parser_ := f.parser, connections := c.connections.set i { conn with readBuf_ := readBuf } }

/-- `handler(parser_)`, unless the handler is empty. -/
def callHandler (handle : ReplyHandle σ H) (c : ClientLink σ H) (handler : Option H) :
    Exec (ClientLink σ H) :=
  match handler with
  | none => .ok c
  | some handler =>
    match handle c.world handler c.parser_ with
    | none => .error .exception
    | some response =>
      run call { c with
        world := response.world
        parser_ := { c.parser_ with content_ := response.content_ } } response.calls

/-- The branch for a parser that is good. -/
def reply (handle : ReplyHandle σ H) (c : ClientLink σ H) : Exec (ClientLink σ H) :=
  match c.sendReqeustLists_ with
  | [] => .error .emptyContainer
  | first :: _ => do
    let p := c.parser_
    let c ← c.callHandler handle first.handler
    return { c with
      parser_ := c.parser_.clear
      sendReqeustLists_ := c.sendReqeustLists_.tail
      replied := c.replied ++ [(first, p)] }

/-- One pass of the loop of `handleReadEvent`. -/
def pass (handle : ReplyHandle σ H) (c : ClientLink σ H) : Exec (ClientLink σ H) :=
  match c.reading with
  | none => .error .environment
  | some i => do
    let conn ← readAt c.connections i
    if conn.readBuf_.empty then return { c with reading := none }
    else do
      let c ← c.take i
      if c.parser_.isError then return { c.handleErroEvent with reading := none }
      else if c.parser_.isGood then c.reply handle
      else return c

end ClientLink

/-! ## Events -/

/-- What may happen to the client. The number is that of a connection. -/
inductive ClientEvent (H : Type _) where
  | get (request : Get H)
  | destroy
  /-- `onConnect` with a connection. -/
  | connected
  /-- `onConnect` with `nullptr`. -/
  | connectFailed
  /-- All bytes of what was sent first are written. -/
  | completed (i : Nat)
  | arrived (i : Nat) (bytes : Bytes)
  /-- The loop of `handleReadEvent` goes on. -/
  | pass
  /-- The end of the stream, or an error of the socket. -/
  | failed (i : Nat)

namespace ClientLink

/-- A connection that the poller knows, outside of the loop. -/
def alive (c : ClientLink σ H) (i : Nat) : Exec (Connection Unit) :=
  match c.reading, c.connections[i]? with
  | none, some conn => if conn.destroy_ then .error .environment else .ok conn
  | _, _ => .error .environment

/-- The end of a task: its handler, and `pop_front` unless the handler destroyed the connection. -/
def completed (c : ClientLink σ H) (i : Nat) : Exec (ClientLink σ H) := do
  let conn ← c.alive i
  match conn.writTasks_ with
  | [] => .error .environment
  | task :: _ => do
    let c ← match task.handler_ with
      | none => pure c
      | some () => c.sendDone
    let conn ← readAt c.connections i
    if conn.destroy_ then return c
    else do
      let conn ← conn.popFront
      return { c with connections := c.connections.set i conn }

/-- `Connection::handleReadEvent` up to the callback. -/
def arrived (c : ClientLink σ H) (i : Nat) (bytes : Bytes) : Exec (ClientLink σ H) := do
  let conn ← c.alive i
  let conn ← conn.receive bytes
  let c := { c with connections := c.connections.set i conn }
  if conn.readEventCallback_ then return { c with reading := some i } else return c

/-- `Connection::handleErroEvent`. -/
def failed (c : ClientLink σ H) (i : Nat) : Exec (ClientLink σ H) := do
  let conn ← c.alive i
  let c := if conn.erroEventCallback_ then c.handleErroEvent else c
  return { c with connections := c.connections.set i conn.destroy }

/-- What an event does. Outside of the loop there is one event at a time. -/
def step (handle : ReplyHandle σ H) (c : ClientLink σ H) : ClientEvent H → Exec (ClientLink σ H)
  | .pass => c.pass handle
  | .completed i => c.completed i
  | .arrived i bytes => c.arrived i bytes
  | .failed i => c.failed i
  | .get request => do
    guardOr .environment (c.reading = none)
    c.get request
  | .destroy => do
    guardOr .environment (c.reading = none)
    return c.destroy
  | .connected => do
    guardOr .environment (c.reading = none)
    c.handleConnection (some fresh)
  | .connectFailed => do
    guardOr .environment (c.reading = none)
    c.handleConnection none

end ClientLink

end Liby.Http
