import Liby.Infra.Cursor

/-!
# RequestParser

`RequestParser` of `HttpDef.h` and `HttpDef.cpp`, over one block of bytes from `begin` to `end`.
Pointers are positions in the block.

`std::find` returns `last` when it finds nothing, and the code compares the result with
`nullptr`. So those tests never hold, and none appears below: a token that is not complete
is taken as if the end of the block delimited it.
-/

namespace Liby.Http

open Infra

/-- `INVALID_METHOD`, `GET`, `POST`, `OPTIONS`, `HEAD`. -/
inductive Method where
  | INVALID_METHOD | GET | POST | OPTIONS | HEAD
  deriving DecidableEq, Repr

/-- `methods`. -/
def methods (name : Bytes) : Option Method :=
  if name = str "GET" then some .GET
  else if name = str "POST" then some .POST
  else if name = str "HEAD" then some .HEAD
  else if name = str "OPTIONS" then some .OPTIONS
  else none

/-- `std::unordered_map<std::string, std::string>`. -/
abbrev Headers := List (Bytes × Bytes)

/-- `headers[key] = value`. -/
def Headers.set (headers : Headers) (key value : Bytes) : Headers :=
  headers.filter (fun header => header.1 ≠ key) ++ [(key, value)]

/-- `headers[key]`, read. -/
def Headers.get (headers : Headers) (key : Bytes) : Bytes := (headers.lookup key).getD []

/-- The entry that `headers[key]` adds when there is none. -/
def Headers.touch (headers : Headers) (key : Bytes) : Headers :=
  if (headers.lookup key).isSome then headers else headers ++ [(key, [])]

/-- `progress_` of `RequestParser`. -/
inductive RequestProgress where
  | ParsingMethod | ParsingURI | ParsingVersion | ParsingHeaders | Good
  | InvalidMethod | InvalidURI | InvalidVersion | InvalidHeader
  deriving DecidableEq, Repr

/-- `class RequestParser`. `bytes_` has the value of an `int`. -/
structure RequestParser where
  method_ : Method
  uri_ : Bytes
  query_ : Bytes
  headers_ : Headers
  progress_ : RequestProgress
  bytes_ : Int
  httpVersionMajor_ : Nat
  httpVersionMinor_ : Nat
  deriving DecidableEq, Repr

namespace RequestParser

/-- A new parser, and what `clear` makes of any. -/
def clear : RequestParser where
  method_ := .INVALID_METHOD
  uri_ := []
  query_ := []
  headers_ := []
  progress_ := .ParsingMethod
  bytes_ := 0
  httpVersionMajor_ := 0
  httpVersionMinor_ := 0

/-- `isError`. -/
def isError (p : RequestParser) : Bool :=
  match p.progress_ with
  | .InvalidMethod | .InvalidURI | .InvalidVersion | .InvalidHeader => true
  | _ => false

/-- `isGood`. -/
def isGood (p : RequestParser) : Bool := p.progress_ == .Good

end RequestParser

/-! ## The parts of a request -/

/-- One digit of `parse_hex`, in `char` arithmetic. -/
def hexDigit (c : UInt8) : UInt8 :=
  if 48 ≤ c ∧ c ≤ 57 then c - 48 else (c ||| 32) - 97 + 10

/-- `parse_hex`. -/
def parseHex (d : Bytes) (s : Nat) : Exec UInt8 := do
  let n1 ← readAt d s
  let n2 ← readAt d (s + 1)
  return hexDigit n1 * 16 + hexDigit n2

/-- What the loop of `ParseURI` has written: `temp[0..j)`, and `query_index`. -/
structure Decoded where
  temp : Bytes
  queryIndex : Option Nat
  deriving DecidableEq, Repr

/-- `temp[j] = c`, and a NUL for a question mark. -/
def Decoded.put (t : Decoded) (c : UInt8) : Decoded :=
  if c = 63 then { temp := t.temp ++ [0], queryIndex := some t.temp.length }
  else { t with temp := t.temp ++ [c] }

/-- The loop of `ParseURI` over the `n` bytes from `src` on. -/
def decodeURI (d : Bytes) : Nat → Nat → Decoded → Exec Decoded
  | _, 0, t => .ok t
  | src, n + 1, t => do
    let c ← readAt d src
    if c = 37 then
      let c ← parseHex d (src + 1)
      -- the index skips the two digits, even past the end of the token
      decodeURI d (src + 3) (n - 2) (t.put c)
    else decodeURI d (src + 1) n (t.put c)

/-- The C string at the start of `temp`. -/
def cString (temp : Bytes) : Bytes := temp.takeWhile (· ≠ 0)

namespace RequestParser

/-- `ParseMethod`. -/
def ParseMethod (p : RequestParser) (d : Bytes) (first last : Nat) :
    Exec (Bool × RequestParser) := do
  guardOr .assertFailed (first ≤ last)
  let method ← Cursor.string d first last
  match methods method with
  | none => return (false, { p with progress_ := .InvalidMethod })
  | some method => return (true, { p with method_ := method, progress_ := .ParsingURI })

/-- `uri_` and `query_` of a decoded token. -/
def setURI (p : RequestParser) (t : Decoded) : RequestParser :=
  { p with
    query_ := match t.queryIndex with
      | none => p.query_
      | some i => cString (t.temp.drop (i + 1))
    uri_ := cString t.temp
    progress_ := .ParsingVersion }

/--
`ParseURI`. The length is an `int`, and `new (std::nothrow)` of a negative length gives a null
pointer.
-/
def ParseURI (p : RequestParser) (d : Bytes) (first last : Nat) :
    Exec (Bool × RequestParser) := do
  guardOr .assertFailed (first ≤ last)
  let n := toInt (last - first)
  guardOr .signedOverflow (n + 1 < 2 ^ 31)
  if n + 1 < 0 then return (false, { p with progress_ := .InvalidURI })
  else do
    -- `temp[j] = '\0'` needs a block that is not empty
    guardOr .outOfBounds (0 < n + 1)
    let t ← decodeURI d first n.toNat { temp := [], queryIndex := none }
    return (true, p.setURI t)

/-- `ParseHttpVersion`. The length is an `int`. -/
def ParseHttpVersion (p : RequestParser) (d : Bytes) (first last : Nat) :
    Exec (Bool × RequestParser) := do
  guardOr .assertFailed (first ≤ last)
  if toInt (last - first) ≠ 8 then return (false, { p with progress_ := .InvalidVersion })
  else if (d.drop first).take 8 = str "HTTP/1.1" then
    return (true, { p with
      httpVersionMajor_ := 1, httpVersionMinor_ := 1, progress_ := .ParsingHeaders })
  else if (d.drop first).take 8 = str "HTTP/1.0" then
    return (true, { p with
      httpVersionMajor_ := 1, httpVersionMinor_ := 0, progress_ := .ParsingHeaders })
  else return (false, { p with progress_ := .InvalidVersion })

end RequestParser

/-- `ParseHeader`, of both parsers: the map with the header in it. -/
def ParseHeader (headers_ : Headers) (d : Bytes) (first last : Nat) : Exec Headers := do
  guardOr .assertFailed (first ≤ last)
  let mid ← Cursor.find d first last 58
  let left ← Cursor.skipBack d mid
  let right ← Cursor.skipForward d (mid + 1)
  let key ← Cursor.string d first left
  let value ← Cursor.string d right last
  return headers_.set key value

/-- `*(finish - 1) == '\r' ? finish - 1 : finish`. -/
def lineEnd (d : Bytes) (finish : Nat) : Exec Nat := do
  let c ← Cursor.readBefore d finish
  return if c = 13 then finish - 1 else finish

/-! ## parse -/

/-- A parser in the course of `parse`, with the sum of what was added to `bytes_`. -/
structure Parsing where
  parser : RequestParser
  added : Nat
  deriving DecidableEq, Repr

namespace Parsing

/-- `bytes_ += n`. -/
def advance (f : Parsing) (n : Nat) : Parsing where
  parser := { f.parser with bytes_ := toInt (f.parser.bytes_ + n) }
  added := f.added + n

/-- The parser has changed. -/
def update (f : Parsing) (parser : RequestParser) : Parsing := { f with parser := parser }

/-- From `case ParsingHeaders` on. -/
def parseHeaders (f : Parsing) (d : Bytes) (first : Nat) : Exec Parsing :=
  if first = d.length then .ok f
  else
    match h : Cursor.find d first d.length 10 with
    | .error e => .error e
    | .ok finish =>
      if first = finish ∨ first + 1 = finish then
        .ok ((f.update { f.parser with progress_ := .Good }).advance (finish + 1 - first))
      else
        lineEnd d finish >>= fun last =>
        ParseHeader f.parser.headers_ d first last >>= fun headers_ =>
        parseHeaders ((f.update { f.parser with headers_ := headers_ }).advance (finish + 1 - first))
          d (finish + 1)
termination_by d.length + 1 - first
decreasing_by
  unfold Cursor.find at h
  split at h
  · cases h
    omega
  · cases h

/-- From `case ParsingVersion` on. -/
def parseVersion (f : Parsing) (d : Bytes) (first : Nat) : Exec Parsing := do
  let finish ← Cursor.find d first d.length 10
  let last ← lineEnd d finish
  let (flag, parser) ← f.parser.ParseHttpVersion d first last
  if flag then ((f.update parser).advance (finish + 1 - first)).parseHeaders d (finish + 1)
  else return f.update parser

/-- From `case ParsingURI` on. -/
def parseURI (f : Parsing) (d : Bytes) (first : Nat) : Exec Parsing := do
  let finish ← Cursor.find d first d.length 32
  let (flag, parser) ← f.parser.ParseURI d first finish
  if flag then ((f.update parser).advance (finish + 1 - first)).parseVersion d (finish + 1)
  else return f.update parser

/-- From `case ParsingMethod` on. -/
def parseMethod (f : Parsing) (d : Bytes) (first : Nat) : Exec Parsing := do
  let finish ← Cursor.find d first d.length 32
  let (flag, parser) ← f.parser.ParseMethod d first finish
  if flag then ((f.update parser).advance (finish + 1 - first)).parseURI d (finish + 1)
  else return f.update parser

end Parsing

/-- `parse`, over the whole block. -/
def RequestParser.parse (p : RequestParser) (d : Bytes) : Exec Parsing :=
  let f : Parsing := { parser := p, added := 0 }
  match p.progress_ with
  | .ParsingMethod => f.parseMethod d 0
  | .ParsingURI => f.parseURI d 0
  | .ParsingVersion => f.parseVersion d 0
  | .ParsingHeaders => f.parseHeaders d 0
  | _ => .ok f

end Liby.Http
