import Liby.Http.ReplyParser
import Liby.Infra.Loop
import Liby.Infra.Machine

/-!
# HttpClient

`HttpClient.h` and `HttpClient.cpp`, as far as a read event goes. Of a request only its handler
counts here. A handler of type `H` is what the user gave to `get`; what it does is a parameter.
-/

namespace Liby.Http

open Infra

variable {σ H : Type _}

/-- `class HttpClient`. An empty handler is `none`. -/
structure HttpClient (H : Type _) where
  parser_ : ReplyParser
  requestLists_ : List (Option H)
  sendReqeustLists_ : List (Option H)
  httpClient_ : Bool
  httpConn_ : Bool
  deriving DecidableEq, Repr

/-- What a handler may call on the client. -/
inductive ClientCall (H : Type _) where
  | get (handler : Option H)
  | destroy
  deriving DecidableEq, Repr

/--
What a handler does with a reply: what it leaves of `content_`, which it may take, and what it
calls on the client. `world` is whatever else it reads and writes.
-/
structure Answer (σ H : Type _) where
  world : σ
  content_ : Buffer
  calls : List (ClientCall H)

namespace HttpClient

/-- `sendRequest`. -/
def sendRequest (c : HttpClient H) : Exec (HttpClient H) :=
  match c.requestLists_ with
  | [] => .error .emptyContainer
  | request :: requests => do
    guardOr .nullDeref c.httpConn_
    return { c with
      requestLists_ := requests, sendReqeustLists_ := c.sendReqeustLists_ ++ [request] }

/-- `get`. -/
def get (c : HttpClient H) (handler : Option H) : Exec (HttpClient H) :=
  let c := { c with requestLists_ := c.requestLists_ ++ [handler] }
  if c.httpConn_ then c.sendRequest else .ok c

/-- `destroy`. -/
def destroy (c : HttpClient H) : HttpClient H :=
  { c with requestLists_ := [], httpClient_ := false, httpConn_ := false }

/-- `handleErroEvent`. -/
def handleErroEvent (c : HttpClient H) : HttpClient H := c.destroy

/-- One call of a handler. -/
def call (c : HttpClient H) : ClientCall H → Exec (HttpClient H)
  | .get handler => c.get handler
  | .destroy => .ok c.destroy

end HttpClient

/-- The client in `handleReadEvent`, with the read buffer of its connection. -/
structure ReadingClient (σ H : Type _) where
  client : HttpClient H
  readBuf : Buffer
  world : σ
  deriving DecidableEq, Repr

namespace ReadingClient

/-- What handlers do. -/
abbrev Handle (σ H : Type _) := σ → H → ReplyParser → Exec (Answer σ H)

/-- `handler(parser_)`, unless the handler is empty. -/
def callHandler (handle : Handle σ H) (world : σ) (handler : Option H) (p : ReplyParser) :
    Exec (Answer σ H) :=
  match handler with
  | none => .ok { world := world, content_ := p.content_, calls := [] }
  | some handler => handle world handler p

/-- The branch for a parser that is good: the handler, `clear` and `pop_front`. -/
def reply (handle : Handle σ H) (client : HttpClient H) (world : σ) : Exec (HttpClient H × σ) :=
  match client.sendReqeustLists_ with
  | [] => .error .emptyContainer
  | handler :: _ => do
    let answer ← callHandler handle world handler client.parser_
    let client ← run HttpClient.call client answer.calls
    return ({ client with
      parser_ := { client.parser_ with content_ := answer.content_ }.clear
      sendReqeustLists_ := client.sendReqeustLists_.tail }, answer.world)

/-- One pass of the loop of `handleReadEvent`. -/
def handleReadEventPass (handle : Handle σ H) (s : ReadingClient σ H) :
    Exec (Pass (ReadingClient σ H) (ReadingClient σ H)) :=
  if s.readBuf.empty then .ok (.done s)
  else do
    let savedBytes := s.client.parser_.bytes_
    let (block, first, last) ← s.readBuf.range
    let f ← s.client.parser_.parse block first last
    let length ← subInt f.parser.bytes_ savedBytes
    let readBuf ← s.readBuf.retrieve length
    let s := { s with client := { s.client with parser_ := f.parser }, readBuf := readBuf }
    if f.parser.isError then return .done { s with client := s.client.handleErroEvent }
    else if f.parser.isGood then do
      let (client, world) ← reply handle s.client s.world
      return .next { s with client := client, world := world }
    else return .next s

end ReadingClient

end Liby.Http
