import Liby.Http.HttpDef
import Liby.Infra.Machine
import Liby.Net.WriteFrame

/-!
# HttpServer

`HttpServer.h` and `HttpServer.cpp` on one connection, and what they use of `getMimeType` and
`FileDescriptor.cpp`. The handlers that the server gives to `send` and `sendFile` are the
constructors of `HttpHandler`.
-/

namespace Liby.Http

open Infra

/-! ## MIME types -/

/-- `file_mime`. -/
def fileMime : List (Bytes × Bytes) :=
  [(str ".html", str "text/html"), (str ".xml", str "text/xml"),
    (str ".xhtml", str "application/xhtml+xml"), (str ".txt", str "text/plain"),
    (str ".rtf", str "application/rtf"), (str ".pdf", str "application/pdf"),
    (str ".word", str "application/msword"), (str ".png", str "image/png"),
    (str ".gif", str "image/gif"), (str ".jpg", str "image/jpeg"), (str ".jpeg", str "image/jpeg"),
    (str ".au", str "audio/basic"), (str ".mpeg", str "video/mpeg"), (str ".mpg", str "video/mpeg"),
    (str ".avi", str "video/x-msvideo"), (str ".gz", str "application/x-gzip"),
    (str ".tar", str "application/x-tar"), (str ".css", str "text/css"),
    (str ".cgi", str "text/html"), ([], str "text/plain")]

/-- `getMimeType`: by what comes from the last full stop on. -/
def getMimeType (uri : Bytes) : Bytes :=
  if 46 ∈ uri then
    let type := 46 :: (uri.reverse.takeWhile (· ≠ 46)).reverse
    (fileMime.lookup type).getD (str "text/plain")
  else str "text/plain"

/-! ## Files -/

/-- A file that is open; `fstat` may fail on it. -/
structure OpenedFile where
  content : Bytes
  stat : Bool
  deriving DecidableEq, Repr

/-- What `open` gives for a path. -/
abbrev FileSystem := Bytes → Option OpenedFile

/-- `openFile`. -/
def openFile (fs : FileSystem) (filepath : Bytes) : Option OpenedFile :=
  if filepath = [] then none else fs filepath

/-- `getFileSize`; an exception is `none`. -/
def OpenedFile.getFileSize (fp : OpenedFile) : Option Nat :=
  if fp.stat then some fp.content.length else none

/-! ## HttpServer -/

/-- The handlers of `HttpServer.cpp`. -/
inductive HttpHandler where
  /-- A head is out: the file is to follow. -/
  | headSent (fp : Bytes) (filesize : Nat)
  /-- A file is out. -/
  | fileSent
  /-- An error reply is out. -/
  | errorSent
  deriving DecidableEq, Repr

/--
`struct HttpContext`, with a record: how many requests the parser has recognised, and for each
response that was queued the number of its request.
-/
structure HttpContext where
  keepAlive_ : Bool
  requestParser : RequestParser
  recognised : Nat
  answered : List Nat
  deriving DecidableEq, Repr

/-- A connection of the server. -/
abbrev HttpLink := Link HttpContext HttpHandler

/-- What the handlers and the error callback do. -/
def httpCallbacks : Callbacks HttpContext HttpHandler where
  complete := fun context handler =>
    match handler with
    | .headSent fp filesize => (context, [.sendFile fp 0 filesize (some .fileSent)])
    | .fileSent => (context, if context.keepAlive_ then [] else [.destroyLater])
    | .errorSent => (context, [.destroy])
  onErro := fun context => (context, [.destroy])

theorem still_httpCallbacks : httpCallbacks.Still where
  complete := fun _ handler => by cases handler <;> rfl
  onErro := fun _ => rfl

namespace HttpLink

/-- `handleAcceptEvent`, on a connection that was just accepted. -/
def accepted : HttpLink :=
  Link.start Connection.accepted
    { keepAlive_ := true, requestParser := RequestParser.clear, recognised := 0, answered := [] }

/-- The reply to a request for a file. -/
def okReply (uri : Bytes) (filesize : Nat) : Reply where
  status_ := 200
  content_ := Buffer.init
  headers_ := [(str "Content-Length", stdToString filesize), (str "Content-Type", getMimeType uri)]

/-- What `parse` and `retrieve` leave. -/
def parsed (l : HttpLink) (p : RequestParser) (readBuf : Buffer) : HttpLink :=
  { l with
    conn := { l.conn with readBuf_ := readBuf }
    world := { l.world with
      requestParser := p
      recognised :=
        if p.isGood ∧ ¬l.world.requestParser.isGood then l.world.recognised + 1
        else l.world.recognised } }

/-- A response was queued for the request in the parser. -/
def answer (l : HttpLink) : HttpLink :=
  { l with world := { l.world with answered := l.world.answered ++ [l.world.recognised - 1] } }

/-- The branch for a parser that is good. -/
def respond (root_ : Bytes) (fs : FileSystem) (walk : Walk) (l : HttpLink) : Exec (Pass HttpLink HttpLink) :=
  let parser := l.world.requestParser
  match openFile fs (root_ ++ parser.uri_) with
  | none => .ok (.done l)
  | some fp =>
    match fp.getFileSize with
    | none => .ok (.done l)
    | some filesize => do
      let rep ← (okReply parser.uri_ filesize).toString walk
      let l ← l.call (.sendString rep (some (.headSent fp.content filesize)))
      let l := answer l
      if parser.headers_.get (str "Connection") ≠ str "keep-alive" then
        return .done { l with world := { l.world with
          keepAlive_ := false
          requestParser := { parser with headers_ := parser.headers_.touch (str "Connection") } } }
      else return .next { l with world := { l.world with requestParser := RequestParser.clear } }

/-- One pass of the loop of `handleReadEvent`. -/
def handleReadEventPass (root_ : Bytes) (fs : FileSystem) (walk : Walk) (l : HttpLink) :
    Exec (Pass HttpLink HttpLink) :=
  if l.conn.readBuf_.empty then .ok (.done l)
  else do
    let savedBytes := l.world.requestParser.bytes_
    let d ← l.conn.readBuf_.data
    let f ← l.world.requestParser.parse d
    let length ← subInt f.parser.bytes_ savedBytes
    let readBuf ← l.conn.readBuf_.retrieve length
    let l := parsed l f.parser readBuf
    if f.parser.isError then do
      let l ← l.call (.sendString (Reply.Error 404) (some .errorSent))
      return .done l
    else if f.parser.isGood then respond root_ fs walk l
    else return .done l

/--
`handleReadEvent`. A pass that goes on has cleared the parser and, the first one apart, taken what
the parser counted; a loop that is not over within these passes comes back to the same buffer.
-/
def handleReadEvent (root_ : Bytes) (fs : FileSystem) (walk : Walk) (l : HttpLink) : Exec HttpLink :=
  match Loop.passes (handleReadEventPass root_ fs walk) (l.conn.readBuf_.contents.length + 2) l with
  | some r => r
  | none => .error .diverges

end HttpLink

/--
An event of a connection of the server; `fs` is what the files are at the time, and `walk` the order of
the headers in the replies.
-/
inductive HttpEvent where
  | read (bytes : Bytes) (fs : FileSystem) (walk : Walk)
  | writ (as : List WriteAnswer)
  | tick

/-- What an event does. Handlers that were put off run before the next event of the poller. -/
def HttpLink.step (root_ : Bytes) (l : HttpLink) : HttpEvent → Exec HttpLink
  | .read bytes fs walk => do
    guardOr .environment (l.conn.destroy_ = false ∧ l.conn.nextTicks = 0)
    Link.handleReadEvent httpCallbacks (HttpLink.handleReadEvent root_ fs walk) l (.received bytes)
  | .writ as => do
    guardOr .environment (l.conn.destroy_ = false ∧ l.conn.nextTicks = 0)
    Link.handleWritEvent httpCallbacks l as
  | .tick => do
    let conn ← l.conn.runNextTickHandlers false
    return { l with conn := conn }

end Liby.Http
