import Liby.Http.ReplyParser

/-!
# Replies and requests as text

`struct Reply` and `struct Request` of `HttpDef.h`, and their `toString`. The map of a request is
written in the order of its list, which stands for whatever order the map is walked in; that of a
reply, in which `toString` sets an entry, in the order that a `Walk` gives.
-/

namespace Liby.Http

open Infra

/-! ## Replies -/

/-- `struct Reply`. -/
structure Reply where
  status_ : Int
  content_ : Buffer
  headers_ : Headers
  deriving DecidableEq, Repr

/-- `status_string`. -/
def statusString (status : Int) : Option Bytes :=
  [((200 : Int), str "Ok"), (201, str "Created"), (202, str "Accepted"), (204, str "No Content"),
    (300, str "Multiple Choices"), (301, str "Moved Permanently"), (302, str "Moved Temporarily"),
    (304, str "Not Modified"), (400, str "Bad RequestParser"), (401, str "Unauthorized"),
    (403, str "Forbidden"), (404, str "Not Found"), (500, str "Internal Server Error"),
    (501, str "Not Implemented"), (502, str "Bad Gateway"),
    (503, str "Service Unavailable")].lookup status

/-- An order in which a map is walked, whatever was put in and when. -/
structure Walk where
  order : Headers → Headers
  perm : ∀ headers, (order headers).Perm headers

/-- The order of the list. -/
def Walk.listed : Walk := ⟨id, fun _ => .rfl⟩

/-- The other way round. -/
def Walk.backwards : Walk := ⟨List.reverse, List.reverse_perm⟩

namespace Reply

/-- `Reply::Error`. -/
def Error (_errcode : Int) : Bytes := []

/-- The lines of headers, one after the other. -/
def headerLines (headers : Headers) : Bytes :=
  headers.flatMap fun header => header.1 ++ str ": " ++ header.2 ++ str "\r\n"

/-- `toString`. -/
def toString (walk : Walk) (r : Reply) : Exec Bytes := do
  let start := str "HTTP/1.1 " ++ (statusNumber r.status_).getD [] ++ str " " ++
    (statusString r.status_).getD [] ++ str "\r\n"
  if r.content_.empty then return start ++ headerLines (walk.order r.headers_) ++ str "\r\n"
  else do
    let content ← r.content_.data
    let headers := r.headers_.set (str "Content-Length") (stdToString content.length)
    return start ++ headerLines (walk.order headers) ++ str "\r\n" ++ content

end Reply

/-! ## Requests -/

/-- `struct Request`. -/
structure Request where
  method_ : Method
  uri_ : Bytes
  query_ : Bytes
  headers_ : Headers
  body_ : Buffer
  deriving DecidableEq, Repr

/-- `methods_string[method]`, which makes an empty entry for a method that it does not have. -/
def methodsString : Method → Bytes
  | .GET => str "GET"
  | .POST => str "POST"
  | .HEAD => str "HEAD"
  | .OPTIONS => str "OPTIONS"
  | .INVALID_METHOD => []

namespace Request

/-- `toString` up to the blank line. -/
def head (r : Request) : Bytes :=
  methodsString r.method_ ++ str " " ++ r.uri_ ++
    (if r.query_ = [] then [] else str "?" ++ r.query_) ++ str " HTTP/1.1\r\n" ++
    Reply.headerLines r.headers_ ++ str "\r\n"

/-- `toString`. -/
def toString (r : Request) : Exec Bytes :=
  if r.body_.empty then .ok r.head
  else do
    let body ← r.body_.data
    return r.head ++ body

end Request

end Liby.Http
