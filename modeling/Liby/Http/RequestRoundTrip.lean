import Liby.Buffer.Contents
import Liby.Http.PlainHeaders
import Liby.Infra.Loop

/-!
# Requests read back

What `Request::toString` writes, `RequestParser` reads back: a request first, and then any number
of them that stand in one buffer one after the other.
-/

namespace Liby.Http

open Infra
open Reply (headerLines)

/-! ## URIs without escapes -/

theorem Decoded.put_plain {c : UInt8} (t : Decoded) (h : c ≠ 63) :
    t.put c = { t with temp := t.temp ++ [c] } := if_neg h

/-- Bytes that are no question marks are copied. -/
theorem foldl_put : ∀ (token : Bytes) (t : Decoded), 63 ∉ token →
    token.foldl Decoded.put t = { t with temp := t.temp ++ token }
  | [], t, _ => by simp
  | c :: token, t, h => by
    have hc : c ≠ 63 := fun heq => h (by simp [heq])
    rw [List.foldl_cons, t.put_plain hc, foldl_put token _ fun hmem => h (List.mem_cons_of_mem c hmem)]
    simp

/-- A token without a percent sign is gone through byte by byte. -/
theorem decodeURI_plain {d : Bytes} : ∀ (token before after : Bytes) (t : Decoded),
    d = before ++ token ++ after → 37 ∉ token →
    decodeURI d before.length token.length t = .ok (token.foldl Decoded.put t)
  | [], _, _, _, _, _ => by rw [List.length_nil, decodeURI]; rfl
  | c :: token, before, after, t, hd, h => by
    have hread : readAt d before.length = .ok c := by
      rw [hd, readAt_eq_ok]
      simp
    have hrest := decodeURI_plain (d := d) token (before ++ [c]) after (t.put c) (by simp [hd])
      fun hmem => h (List.mem_cons_of_mem c hmem)
    rw [List.length_append, List.length_singleton] at hrest
    rw [List.length_cons, decodeURI, hread, ok_bind, if_neg fun heq => h (by simp [heq]), hrest]
    rfl

/-- A C string ends at its NUL. -/
theorem cString_append {bytes : Bytes} (h : 0 ∉ bytes) (rest : Bytes) :
    cString (bytes ++ 0 :: rest) = bytes := by
  have hbytes : ∀ c ∈ bytes, decide (c ≠ 0) = true :=
    fun c hc => decide_eq_true fun heq => h (heq ▸ hc)
  unfold cString
  rw [List.takeWhile_append_of_pos hbytes]
  simp

theorem cString_plain {bytes : Bytes} (h : 0 ∉ bytes) : cString bytes = bytes := by
  unfold cString
  rw [List.takeWhile_eq_self_iff]
  exact fun c hc => decide_eq_true fun heq => h (heq ▸ hc)

namespace Request

/-- The URI and the query as `toString` writes them. -/
def target (r : Request) : Bytes := r.uri_ ++ if r.query_ = [] then [] else 63 :: r.query_

/-- What the loop of `ParseURI` makes of `target`. -/
def decoded (r : Request) : Decoded := r.target.foldl Decoded.put Decoded.empty

/--
A request without a body that its `toString` tells in full: a known method, a URI and a query
without blank, percent sign, question mark and NUL, and headers that are plain text.
-/
structure Printable (r : Request) : Prop where
  method : r.method_ ≠ .INVALID_METHOD
  body : r.body_.empty = true
  uri : ∀ c ∈ r.uri_, c ≠ 32 ∧ c ≠ 37 ∧ c ≠ 63 ∧ c ≠ 0
  query : ∀ c ∈ r.query_, c ≠ 32 ∧ c ≠ 37 ∧ c ≠ 63 ∧ c ≠ 0
  headers : r.headers_.Plain

variable {r : Request}

theorem Printable.target_token (h : r.Printable) : 32 ∉ r.target ∧ 37 ∉ r.target := by
  have huri := h.uri
  have hquery := h.query
  unfold target
  split
  · exact ⟨fun hc => (huri 32 (by simpa using hc)).1 rfl,
      fun hc => (huri 37 (by simpa using hc)).2.1 rfl⟩
  · simp only [List.mem_append, List.mem_cons, not_or]
    exact ⟨⟨fun hc => (huri 32 hc).1 rfl, by decide, fun hc => (hquery 32 hc).1 rfl⟩,
      ⟨fun hc => (huri 37 hc).2.1 rfl, by decide, fun hc => (hquery 37 hc).2.1 rfl⟩⟩

/-- **`ParseURI` tells the URI and the query apart.** -/
theorem Printable.setURI_decoded (h : r.Printable) {p : RequestParser} (hp : p.query_ = []) :
    p.setURI r.decoded
      = { p with uri_ := r.uri_, query_ := r.query_, progress_ := .ParsingVersion } := by
  have huri : 63 ∉ r.uri_ ∧ 0 ∉ r.uri_ :=
    ⟨fun hc => (h.uri 63 hc).2.2.1 rfl, fun hc => (h.uri 0 hc).2.2.2 rfl⟩
  have hquery : 63 ∉ r.query_ ∧ 0 ∉ r.query_ :=
    ⟨fun hc => (h.query 63 hc).2.2.1 rfl, fun hc => (h.query 0 hc).2.2.2 rfl⟩
  unfold decoded target
  split
  · next hnone =>
    rw [List.append_nil, foldl_put _ _ huri.1]
    simp [RequestParser.setURI, Decoded.empty, cString_plain huri.2, hp, hnone]
  · have hmark : ∀ t : Decoded, t.put 63
        = { temp := t.temp ++ [0], queryIndex := some t.temp.length } := fun t => if_pos rfl
    rw [List.foldl_append, foldl_put _ _ huri.1, List.foldl_cons, hmark, foldl_put _ _ hquery.1]
    simp [RequestParser.setURI, Decoded.empty, cString_append huri.2, cString_plain hquery.2]

/-- The parser with all of a request. -/
def parsed (r : Request) : RequestParser where
  method_ := r.method_
  uri_ := r.uri_
  query_ := r.query_
  headers_ := r.headers_
  progress_ := .Good
  bytes_ := r.head.length
  httpVersionMajor_ := 1
  httpVersionMinor_ := 1

theorem methodsString_known (h : r.method_ ≠ .INVALID_METHOD) :
    methods (methodsString r.method_) = some r.method_ := by
  cases hm : r.method_ with
  | INVALID_METHOD => exact absurd hm h
  | GET | POST | OPTIONS | HEAD => decide

/-- The first line, the headers and what comes after them. -/
theorem head_append (r : Request) (rest : Bytes) :
    r.head ++ rest = methodsString r.method_ ++ 32 :: (r.target ++ 32 ::
      (str "HTTP/1.1" ++ [13] ++ 10 :: (headerLines r.headers_ ++ [13] ++ 10 :: rest))) := by
  have hblank : str " " = [32] := rfl
  have hmark : str "?" = [63] := rfl
  have hversion : str " HTTP/1.1\r\n" = 32 :: (str "HTTP/1.1" ++ [13, 10]) := rfl
  have hend : str "\r\n" = [13, 10] := rfl
  unfold head target
  rw [hblank, hmark, hversion, hend]
  simp

end Request

/-! ## The header lines -/

/-- **The parser takes up the headers that `toString` has written.** -/
theorem Parsing.parseHeaders_plain {d : Bytes} : ∀ (headers : Headers) (f : Parsing)
    (before rest : Bytes), (∀ header ∈ headers, PlainHeader header) →
    ((f.parser.headers_ ++ headers).map Prod.fst).Nodup →
    d = before ++ (headerLines headers ++ [13] ++ 10 :: rest) → 0 ≤ f.parser.bytes_ →
    f.parser.bytes_ + ((headerLines headers).length + 2) < 2 ^ 31 →
    ∃ g, f.parseHeaders d before.length = .ok g ∧ g.parser = { f.parser with
      headers_ := f.parser.headers_ ++ headers
      progress_ := .Good
      bytes_ := f.parser.bytes_ + ((headerLines headers).length + 2) }
  | [], f, before, rest, _, _, hd, h0, hlen => by
    have hblank := f.parseHeaders_blank before [13] rest (d := d) (by simp [hd, headerLines]) rfl
      (by decide) (by decide)
    have hnil : headerLines [] = [] := rfl
    have htwo : toInt (f.parser.bytes_ + 2) = f.parser.bytes_ + 2 :=
      toInt_of_lt (by omega) (by omega)
    refine ⟨_, hblank, ?_⟩
    simp [good, advance, update, hnil, htwo]
  | header :: headers, f, before, rest, hplain, hnames, hd, h0, hlen => by
    have hheader := hplain header List.mem_cons_self
    -- a new name goes to the end of the headers
    obtain ⟨hnew, hnames'⟩ := nodup_step hnames
    have hline := hheader.length_text
    have hlength : (headerLines (header :: headers)).length
        = hheader.text.line.length + 1 + (headerLines headers).length := by
      rw [headerLines_cons, List.length_append, hline]
    have hd' : d = before ++ (hheader.text.line ++ 10 :: (headerLines headers ++ [13] ++ 10 :: rest)) := by
      rw [hd, headerLines_cons, ← hheader.line_text]
      simp only [List.append_assoc]
    let f' : Parsing :=
      { parser := f.parser.addHeader hheader.text, added := f.added + (hheader.text.line.length + 1) }
    have hheaders : f'.parser.headers_ = f.parser.headers_ ++ [header] := by
      show f.parser.headers_.set (headerKey _) (headerValue _) = _
      rw [hheader.headerKey_text, hheader.headerValue_text, Headers.set_new hnew]
    have hbytes : f'.parser.bytes_ = f.parser.bytes_ + (hheader.text.line.length + 1 : Nat) :=
      RequestParser.count_bytes (p := { f.parser with headers_ := _ }) h0
        (by dsimp only; omega)
    obtain ⟨g, hg, hparser⟩ := parseHeaders_plain (d := d) headers f'
      (before ++ (hheader.text.line ++ [10])) rest
      (fun header' hmem => hplain header' (List.mem_cons_of_mem header hmem))
      (by rw [hheaders]; exact hnames') (by rw [hd']; simp) (by omega) (by omega)
    refine ⟨g, ?_, ?_⟩
    · rw [f.parseHeaders_text before (headerLines headers ++ [13] ++ 10 :: rest) hd' rfl
        hheader.filled_text]
      rw [List.length_append, List.length_append, List.length_singleton, ← Nat.add_assoc] at hg
      exact hg
    · rw [hparser, hheaders, hbytes, List.append_assoc, List.singleton_append]
      have hsum : f.parser.bytes_ + (hheader.text.line.length + 1 : Nat)
          + ((headerLines headers).length + 2)
            = f.parser.bytes_ + ((headerLines (header :: headers)).length + 2) := by omega
      rw [hsum]
      rfl

/-! ## One request -/

/-- What the first line leaves of a new parser. -/
def Request.lineParsed (r : Request) : RequestParser where
  method_ := r.method_
  uri_ := r.uri_
  query_ := r.query_
  headers_ := []
  progress_ := .ParsingHeaders
  bytes_ := (methodsString r.method_).length + 1 + (r.target.length + 1) + 10
  httpVersionMajor_ := 1
  httpVersionMinor_ := 1

theorem Request.Printable.line_eq {r : Request} (h : r.Printable)
    (hlen : (methodsString r.method_).length + 1 + (r.target.length + 1) + 10 < 2 ^ 31) :
    ((((({ RequestParser.clear with method_ := r.method_, progress_ := .ParsingURI } :
      RequestParser).count ((methodsString r.method_).length + 1)).setURI r.decoded).count
        (r.target.length + 1)).withVersion (str "HTTP/1.1")).count 10 = r.lineParsed := by
  have h1 : toInt (0 + ((methodsString r.method_).length + 1 : Nat))
      = (methodsString r.method_).length + 1 := by
    rw [toInt_of_lt (by omega) (by omega)]
    omega
  have h2 : toInt ((methodsString r.method_).length + 1 + (r.target.length + 1 : Nat))
      = (methodsString r.method_).length + 1 + (r.target.length + 1) := by
    rw [toInt_of_lt (by omega) (by omega)]
    omega
  have h3 : toInt ((methodsString r.method_).length + 1 + (r.target.length + 1) + (10 : Nat))
      = (methodsString r.method_).length + 1 + (r.target.length + 1) + 10 :=
    toInt_of_lt (by omega) (by omega)
  rw [h.setURI_decoded rfl]
  simp only [RequestParser.count, RequestParser.withVersion, RequestParser.clear, Request.lineParsed]
  rw [h1, h2, h3]
  rfl

/-- **A request that `toString` has written is read back**, whatever comes after it. -/
theorem Request.Printable.parse_eq {r : Request} (h : r.Printable) (rest : Bytes)
    (hlen : r.head.length < 2 ^ 31) :
    ∃ g, RequestParser.clear.parse (r.head ++ rest) = .ok g ∧ g.parser = r.parsed := by
  have htext := r.head_append rest
  have hlength := congrArg List.length (r.head_append [])
  have h8 : (str "HTTP/1.1").length = 8 := by decide
  simp only [List.length_append, List.length_cons, List.length_nil, h8] at hlength
  have hdecode := decodeURI_plain (d := r.head ++ rest) r.target
    (methodsString r.method_ ++ [32]) (32 :: (str "HTTP/1.1" ++ [13] ++ 10 ::
      (headerLines r.headers_ ++ [13] ++ 10 :: rest))) Decoded.empty
    (by rw [htext]; simp) h.target_token.2
  rw [List.length_append, List.length_singleton] at hdecode
  have hfirst := Parsing.parseMethod_firstLine { parser := RequestParser.clear, added := 0 }
    (methodsString r.method_) r.target (str "HTTP/1.1") (headerLines r.headers_ ++ [13] ++ 10 :: rest)
    htext (methodsString_known h.method) h.target_token.1 (by decide) (by decide) (by omega) hdecode
  let before : Bytes := methodsString r.method_ ++ 32 :: (r.target ++ 32 :: (str "HTTP/1.1" ++ [13, 10]))
  have hbefore : before.length
      = (methodsString r.method_).length + 1 + (r.target.length + 1) + ((str "HTTP/1.1").length + 2) := by
    simp only [before, List.length_append, List.length_cons, List.length_nil]
    omega
  obtain ⟨g, hg, hparser⟩ := Parsing.parseHeaders_plain (d := r.head ++ rest) r.headers_
    { parser := r.lineParsed, added := 0 + ((methodsString r.method_).length + 1) +
      (r.target.length + 1) + ((str "HTTP/1.1").length + 2) } before rest h.headers.entries
    h.headers.names (by rw [htext]; simp [before]) (by simp only [lineParsed]; omega)
    (by simp only [lineParsed]; omega)
  refine ⟨g, ?_, ?_⟩
  · have hline := h.line_eq (by omega)
    show Parsing.parseMethod _ _ 0 = _
    rw [hfirst]
    simp only [h8] at hbefore hg ⊢
    rw [← hbefore, show r.target.foldl Decoded.put Decoded.empty = r.decoded from rfl, hline]
    exact hg
  · have hsum : ((methodsString r.method_).length : Int) + 1 + (r.target.length + 1) + 10
        + ((headerLines r.headers_).length + 2) = r.head.length := by omega
    rw [hparser]
    simp only [lineParsed, parsed, List.nil_append, hsum]

/-! ## Requests one after the other -/

/-- A parser and the buffer it reads, with the requests that were recorded. -/
structure Pipeline where
  requestParser : RequestParser
  readBuf : Buffer
  recorded : List RequestParser
  deriving DecidableEq, Repr

namespace Pipeline

/-- One pass of the loop: parse, retrieve what was counted, and record and clear when good. -/
def pass (s : Pipeline) : Exec (Pass Pipeline Pipeline) :=
  if s.readBuf.empty then .ok (.done s)
  else do
    let savedBytes := s.requestParser.bytes_
    let d ← s.readBuf.data
    let f ← s.requestParser.parse d
    let length ← subInt f.parser.bytes_ savedBytes
    let readBuf ← s.readBuf.retrieve length
    if f.parser.isGood then
      return .next {
        requestParser := RequestParser.clear
        readBuf := readBuf
        recorded := s.recorded ++ [f.parser] }
    else return .done { s with requestParser := f.parser, readBuf := readBuf }

/-- A pass over a buffer that starts with a request. -/
theorem pass_request {r : Request} (h : r.Printable) {readBuf : Buffer} (hwf : readBuf.Wf)
    {rest : Bytes} (hcontents : readBuf.contents = r.head ++ rest) (hlen : r.head.length < 2 ^ 31)
    (recorded : List RequestParser) :
    ∃ readBuf' : Buffer, readBuf'.Wf ∧ readBuf'.contents = rest ∧
      pass { requestParser := RequestParser.clear, readBuf := readBuf, recorded := recorded } =
        .ok (.next {
          requestParser := RequestParser.clear
          readBuf := readBuf'
          recorded := recorded ++ [r.parsed] }) := by
  obtain ⟨g, hparse, hparser⟩ := h.parse_eq rest hlen
  obtain ⟨readBuf', hretrieve, hwf', hrest, -⟩ := hwf.retrieve_ok r.head.length
  have hne : readBuf.contents ≠ [] := by
    rw [hcontents, r.head_append]
    simp
  have hfull : readBuf.empty = false := by
    rw [← Bool.not_eq_true, hwf.empty_iff]
    exact hne
  have hcount : subInt r.parsed.bytes_ RequestParser.clear.bytes_ = .ok (r.head.length : Int) := by
    have hbytes : r.parsed.bytes_ - RequestParser.clear.bytes_ = r.head.length := Int.sub_zero _
    rw [subInt_ok (by omega) (by omega), hbytes]
  refine ⟨readBuf', hwf', by rw [hrest, hcontents, List.drop_left], ?_⟩
  unfold pass
  rw [if_neg (by simp [hfull]), hwf.data_eq hne, ok_bind, hcontents, hparse, ok_bind, hparser,
    hcount, ok_bind, hretrieve]
  rfl

/-- The loop over the heads of requests. -/
theorem passes_requests : ∀ (requests : List Request), (∀ r ∈ requests, r.Printable) →
    ∀ (readBuf : Buffer), readBuf.Wf → readBuf.contents = (requests.map Request.head).flatten →
    readBuf.contents.length < 2 ^ 31 → ∀ recorded : List RequestParser,
    ∃ s, Loop.passes pass (requests.length + 1)
        { requestParser := RequestParser.clear, readBuf := readBuf, recorded := recorded } =
          some (.ok s) ∧
      s.recorded = recorded ++ requests.map Request.parsed ∧ s.readBuf.empty = true ∧
      s.requestParser = RequestParser.clear
  | [], _, readBuf, hwf, hcontents, _, recorded => by
    have hempty : readBuf.empty = true := hwf.empty_iff.mpr hcontents
    refine ⟨{ requestParser := RequestParser.clear, readBuf := readBuf, recorded := recorded }, ?_,
      (List.append_nil _).symm, hempty, rfl⟩
    rw [Loop.passes, pass, if_pos hempty]
  | r :: requests, h, readBuf, hwf, hcontents, hlen, recorded => by
    rw [List.map_cons, List.flatten_cons] at hcontents
    have hsplit := congrArg List.length hcontents
    rw [List.length_append] at hsplit
    obtain ⟨readBuf', hwf', hrest, hpass⟩ := pass_request (h r List.mem_cons_self) hwf hcontents
      (by omega) recorded
    obtain ⟨s, hs, hrecorded, hempty, hclear⟩ := passes_requests requests
      (fun r' hr' => h r' (List.mem_cons_of_mem r hr')) readBuf' hwf' hrest (by rw [hrest]; omega)
      (recorded ++ [r.parsed])
    refine ⟨s, ?_, by rw [hrecorded]; simp, hempty, hclear⟩
    rw [List.length_cons, Loop.passes, hpass]
    exact hs

theorem mapM_toString : ∀ {requests : List Request}, (∀ r ∈ requests, r.Printable) →
    requests.mapM Request.toString = .ok (requests.map Request.head)
  | [], _ => rfl
  | r :: requests, h => by
    have hhead : r.toString = .ok r.head := if_pos (h r List.mem_cons_self).body
    rw [List.mapM_cons, hhead, ok_bind, mapM_toString fun r' hr' => h r' (List.mem_cons_of_mem r hr')]
    rfl

/--
**Requests that were written one after the other are read back in order**: the loop over a buffer
that holds their texts records the same methods, URIs, queries and headers, with version 1.1, and
leaves the buffer empty.
-/
theorem requests_round_trip {requests : List Request} (h : ∀ r ∈ requests, r.Printable) :
    ∃ texts, requests.mapM Request.toString = .ok texts ∧
      ∀ readBuf : Buffer, readBuf.Wf → readBuf.contents = texts.flatten →
        texts.flatten.length < 2 ^ 31 →
        ∃ s, Loop.passes pass (requests.length + 1)
            { requestParser := RequestParser.clear, readBuf := readBuf, recorded := [] } =
              some (.ok s) ∧
          s.recorded = requests.map Request.parsed ∧ s.readBuf.empty = true ∧
          s.requestParser = RequestParser.clear := by
  refine ⟨_, mapM_toString h, fun readBuf hwf hcontents hlen => ?_⟩
  obtain ⟨s, hs, hrecorded, hempty, hclear⟩ :=
    passes_requests requests h readBuf hwf hcontents (by rw [hcontents]; exact hlen) []
  exact ⟨s, hs, by rw [hrecorded, List.nil_append], hempty, hclear⟩

/-- `GET /a?b` and `POST` with no URI, with and without headers. -/
def twoRequests : List Request :=
  [{ method_ := .GET, uri_ := str "/a", query_ := str "b",
     headers_ := [(str "Host", str "liby"), (str "Accept", str "a: b")], body_ := Buffer.init },
   { method_ := .POST, uri_ := [], query_ := [], headers_ := [], body_ := Buffer.init }]

theorem requests_round_trip_two :
    ∃ s, Loop.passes pass 3
        { requestParser := RequestParser.clear,
          readBuf := Buffer.ofBytes (str
            "GET /a?b HTTP/1.1\r\nHost: liby\r\nAccept: a: b\r\n\r\nPOST  HTTP/1.1\r\n\r\n"),
          recorded := [] } = some (.ok s) ∧
      s.recorded = twoRequests.map Request.parsed ∧ s.readBuf.empty = true ∧
      s.requestParser = RequestParser.clear := by
  have hplain : ∀ header ∈ [(str "Host", str "liby"), (str "Accept", str "a: b")],
      PlainHeader header := by
    intro header hheader
    rcases List.mem_cons.mp hheader with rfl | hheader
    · exact ⟨by decide, by decide +kernel, by decide, by decide, by decide +kernel⟩
    · rw [List.mem_singleton.mp hheader]
      exact ⟨by decide, by decide +kernel, by decide, by decide, by decide +kernel⟩
  have hprintable : ∀ r ∈ twoRequests, r.Printable := by
    intro r hr
    rcases List.mem_cons.mp hr with rfl | hr
    · exact ⟨by decide, rfl, by decide +kernel, by decide +kernel, by decide +kernel, hplain⟩
    · rw [List.mem_singleton.mp hr]
      exact ⟨by decide, rfl, by decide +kernel, by decide +kernel, by decide +kernel, by simp⟩
  obtain ⟨texts, htexts, hloop⟩ := requests_round_trip hprintable
  cases htexts
  exact hloop (Buffer.ofBytes _) (Buffer.wf_ofBytes _) (by decide) (by decide)

end Pipeline

end Liby.Http
