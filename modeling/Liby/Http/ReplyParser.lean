import Liby.Buffer.Buffer
import Liby.Http.RequestParser
import Liby.Infra.Decimal

/-!
# ReplyParser

`ReplyParser` of `HttpDef.h` and `HttpDef.cpp`. The parser reads from `first` to `last` in a block
`d` that may be larger: that is how a `Buffer` holds its bytes.

As in `RequestParser`, no test of `std::find`'s result for `nullptr` holds, and none appears below.
-/

namespace Liby.Http

open Infra

/-- `status_number`. -/
def statusNumber (status : Int) : Option Bytes :=
  [((200 : Int), str "200"), (201, str "201"), (202, str "202"), (204, str "204"),
    (300, str "300"), (301, str "301"), (302, str "302"), (304, str "304"), (400, str "400"),
    (401, str "401"), (403, str "403"), (404, str "404"), (500, str "500"), (501, str "501"),
    (502, str "502"), (503, str "503")].lookup status

/-- `progress_` of `ReplyParser`. -/
inductive ReplyProgress where
  | ParseStarting | ParsingVersion | ParsingStatus | ParsingStatusString | ParsingHeaders
  | ParsingBody | Good
  | InvalidVersion | InvalidStatus | InvalidStatusString | InvalidHeader
  deriving DecidableEq, Repr

/-- `class ReplyParser`. `status_` and `bytes_` have the value of an `int`. -/
structure ReplyParser where
  status_ : Int
  content_ : Buffer
  headers_ : Headers
  progress_ : ReplyProgress
  bytes_ : Int
  deriving DecidableEq, Repr

namespace ReplyParser

/-- A new parser; the constructor leaves `status_` open. -/
def init (status_ : Int) : ReplyParser where
  status_ := status_
  content_ := Buffer.init
  headers_ := []
  progress_ := .ParseStarting
  bytes_ := 0

/-- `clear`. -/
def clear (p : ReplyParser) : ReplyParser where
  status_ := 0
  content_ := p.content_.clear
  headers_ := []
  progress_ := .ParseStarting
  bytes_ := 0

/-- `isError`. -/
def isError (p : ReplyParser) : Bool :=
  match p.progress_ with
  | .InvalidVersion | .InvalidStatus | .InvalidStatusString | .InvalidHeader => true
  | _ => false

/-- `isGood`. -/
def isGood (p : ReplyParser) : Bool := p.progress_ == .Good

/-! ## The parts of a reply -/

/-- `ParseHttpVersion`. The length is an `int`. -/
def ParseHttpVersion (p : ReplyParser) (d : Bytes) (first last : Nat) :
    Exec (Bool × ReplyParser) := do
  guardOr .assertFailed (first ≤ last)
  if toInt (last - first) ≠ 8 then return (false, { p with progress_ := .InvalidVersion })
  else if (d.drop first).take 8 = str "HTTP/1.1" then
    return (true, { p with progress_ := .ParsingStatus })
  else return (false, { p with progress_ := .InvalidVersion })

/-- `ParseStatus`. A number that is not in the table leaves `progress_` as it is. -/
def ParseStatus (p : ReplyParser) (d : Bytes) (first last : Nat) : Exec (Bool × ReplyParser) := do
  let text ← Cursor.string d first last
  let status ← stoi text
  match statusNumber status with
  | none => return (false, p)
  | some _ => return (true, { p with progress_ := .ParsingStatusString, status_ := status })

/-- `ParseStatusString`, which does not look at the text. -/
def ParseStatusString (p : ReplyParser) : Bool × ReplyParser :=
  (true, { p with progress_ := .ParsingHeaders })

end ReplyParser

/-! ## parse -/

/-- A parser in the course of `parse`, with the sum of what was added to `bytes_`. -/
structure ReplyParsing where
  parser : ReplyParser
  added : Nat
  deriving DecidableEq, Repr

namespace ReplyParsing

/-- `bytes_ += n`, where `n` is a difference of pointers. -/
def advance (f : ReplyParsing) (n : Nat) : ReplyParsing where
  parser := { f.parser with bytes_ := toInt (f.parser.bytes_ + n) }
  added := f.added + n

/-- The parser has changed. -/
def update (f : ReplyParsing) (parser : ReplyParser) : ReplyParsing := { f with parser := parser }

/-- `case ParsingBody`. -/
def parseBody (f : ReplyParsing) (d : Bytes) (first last : Nat) : Exec ReplyParsing := do
  -- `headers_[..]` of a header that did not come is empty, and no number
  let len ← stoi (f.parser.headers_.get (str "Content-Length"))
  if len = 0 then return f.update { f.parser with progress_ := .Good }
  else if (last : Int) - first < len then return f
  else do
    let bytes_ ← addInt f.parser.bytes_ len
    -- `content_.append(begin, len)` asserts its length before it copies
    guardOr .assertFailed (0 < len)
    let body ← Block.read d first len.toNat
    let content_ ← f.parser.content_.append body
    return {
      parser := { f.parser with progress_ := .Good, bytes_ := bytes_, content_ := content_ }
      added := f.added + len.toNat }

/-- From `case ParsingHeaders` on. The loop may end without the empty line. -/
def parseHeaders (f : ReplyParsing) (d : Bytes) (first last : Nat) : Exec ReplyParsing :=
  if first = last then f.parseBody d first last
  else
    match h : Cursor.find d first last 10 with
    | .error e => .error e
    | .ok finish =>
      if first = finish ∨ first + 1 = finish then
        ((f.update { f.parser with progress_ := .ParsingBody }).advance (finish + 1 - first)).parseBody
          d (finish + 1) last
      else
        lineEnd d finish >>= fun stop =>
        ParseHeader f.parser.headers_ d first stop >>= fun headers_ =>
        parseHeaders ((f.update { f.parser with headers_ := headers_ }).advance (finish + 1 - first))
          d (finish + 1) last
termination_by last + 1 - first
decreasing_by
  unfold Cursor.find at h
  split at h
  · cases h
    omega
  · cases h

/-- From `case ParsingStatusString` on. -/
def parseStatusString (f : ReplyParsing) (d : Bytes) (first last : Nat) : Exec ReplyParsing := do
  let finish ← Cursor.find d first last 10
  let _ ← lineEnd d finish
  let (flag, parser) := f.parser.ParseStatusString
  if flag then ((f.update parser).advance (finish + 1 - first)).parseHeaders d (finish + 1) last
  else return f.update parser

/-- From `case ParsingStatus` on. -/
def parseStatus (f : ReplyParsing) (d : Bytes) (first last : Nat) : Exec ReplyParsing := do
  let finish ← Cursor.find d first last 32
  let (flag, parser) ← f.parser.ParseStatus d first finish
  if flag then ((f.update parser).advance (finish + 1 - first)).parseStatusString d (finish + 1) last
  else return f.update parser

/-- From `case ParsingVersion` on. -/
def parseVersion (f : ReplyParsing) (d : Bytes) (first last : Nat) : Exec ReplyParsing := do
  let finish ← Cursor.find d first last 32
  let (flag, parser) ← f.parser.ParseHttpVersion d first finish
  if flag then ((f.update parser).advance (finish + 1 - first)).parseStatus d (finish + 1) last
  else return f.update parser

end ReplyParsing

/-- `parse`, over the bytes from `first` to `last`. -/
def ReplyParser.parse (p : ReplyParser) (d : Bytes) (first last : Nat) : Exec ReplyParsing :=
  let f : ReplyParsing := { parser := p, added := 0 }
  match p.progress_ with
  | .ParseStarting => (f.update { p with progress_ := .ParsingVersion }).parseVersion d first last
  | .ParsingVersion => f.parseVersion d first last
  | .ParsingStatus => f.parseStatus d first last
  | .ParsingStatusString => f.parseStatusString d first last
  | .ParsingHeaders => f.parseHeaders d first last
  | .ParsingBody => f.parseBody d first last
  | _ => .ok f

end Liby.Http
