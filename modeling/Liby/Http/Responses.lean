import Liby.Http.HttpServer
import Liby.Http.RequestPieces
import Liby.Net.ReadPath

/-!
# Responses

What a request for a file should be answered with: a head and then the file. Read in one piece, a
complete request leaves the parser good and the read buffer empty, and `respond` queues its head.
-/

namespace Liby.Http

open Infra Outbox

namespace RequestText

/-- The parser with all of a request. -/
def parsed (r : RequestText) : RequestParser := (Rest.all r).finish RequestParser.clear

/-- The connection is to be kept after the response. -/
def KeepAlive (r : RequestText) : Prop := r.parsed.headers_.get (str "Connection") = str "keep-alive"

instance (r : RequestText) : Decidable r.KeepAlive := inferInstanceAs (Decidable (_ = _))

/-- The length fits in an `int`, and every header value has a byte that is not blank. -/
structure Parses (r : RequestText) : Prop where
  length : r.bytes.length < 2 ^ 31
  filled : ∀ h ∈ r.headers, h.Filled

theorem bytes_ne (r : RequestText) : r.bytes ≠ [] := by simp [bytes]

/-- **A complete request is taken up as a whole.** -/
theorem Parses.parse_eq {r : RequestText} (h : r.Parses) :
    ∃ added, RequestParser.clear.parse r.bytes = .ok { parser := r.parsed, added := added } ∧
      r.parsed.isGood = true ∧ r.parsed.bytes_ = r.bytes.length := by
  obtain ⟨g, rest, hg, hrest, ⟨hawaits, -, hfinish⟩⟩ := @parse_piece r.bytes.length h.length
    RequestParser.clear (.all r) r.bytes [] r.bytes_ne (List.append_nil _)
    (.inr (Reading.bytes_getLast r)) h.filled ⟨rfl, rfl⟩
  obtain rfl := Reading.rest_nothing hrest
  have hparser : g.parser = r.parsed := hfinish
  rw [← hparser]
  exact ⟨g.added, hg, hawaits⟩

end RequestText

/-- A request, what the file has that it names, and the order of the headers in the response. -/
structure Asked where
  request : RequestText
  content : Bytes
  walk : Walk

namespace Asked

/-- The headers of the response. -/
def headers (q : Asked) : Headers :=
  [(str "Content-Length", stdToString q.content.length),
    (str "Content-Type", getMimeType q.request.parsed.uri_)]

/-- What should be sent before the file. -/
def head (q : Asked) : Bytes :=
  str "HTTP/1.1 200 Ok\r\n" ++ Reply.headerLines (q.walk.order q.headers) ++ str "\r\n"

/-- The response. -/
def response (q : Asked) : Bytes := q.head ++ q.content

/-- The head as it is sent: the file is to follow. -/
def headMessage (q : Asked) : Message UInt8 (Option HttpHandler) :=
  { payload := q.head, tag := some (.headSent q.content q.content.length) }

/-- The file as it is sent. -/
def fileMessage (q : Asked) : Message UInt8 (Option HttpHandler) :=
  { payload := q.content, tag := some .fileSent }

theorem head_ne (q : Asked) : q.head ≠ [] := by
  simp [head, str]

/-- What the reply of `respond` is turned into. -/
theorem okReply_toString (q : Asked) :
    (HttpLink.okReply q.request.parsed.uri_ q.content.length).toString q.walk = .ok q.head := by
  have hstart : str "HTTP/1.1 " ++ (statusNumber 200).getD [] ++ str " " ++
      (statusString 200).getD [] ++ str "\r\n" = str "HTTP/1.1 200 Ok\r\n" := by decide
  unfold Reply.toString HttpLink.okReply
  dsimp only
  rw [if_pos (show Buffer.init.empty = true from rfl), hstart]
  rfl

end Asked

/-- The responses to some requests, one after the other. -/
def responses (qs : List Asked) : Bytes := qs.flatMap Asked.response

/-- The same as they should be sent. -/
def messages (qs : List Asked) : List (Message UInt8 (Option HttpHandler)) :=
  qs.flatMap fun q => [q.headMessage, q.fileMessage]

@[simp] theorem messages_nil : messages [] = [] := rfl

@[simp] theorem messages_append (qs qs' : List Asked) :
    messages (qs ++ qs') = messages qs ++ messages qs' := List.flatMap_append

@[simp] theorem messages_singleton (q : Asked) :
    messages [q] = [q.headMessage, q.fileMessage] := rfl

theorem stream_messages : ∀ qs : List Asked, stream (messages qs) = responses qs
  | [] => rfl
  | q :: qs => by
    have hrest := stream_messages qs
    simp only [messages, responses, List.flatMap_cons, stream_append] at hrest ⊢
    rw [hrest]
    simp [Asked.response, Asked.headMessage, Asked.fileMessage]

theorem length_messages : ∀ qs : List Asked, (messages qs).length = 2 * qs.length
  | [] => rfl
  | q :: qs => by
    have hrest := length_messages qs
    simp only [messages, List.flatMap_cons, List.length_append, List.length_cons,
      List.length_nil] at hrest ⊢
    omega

theorem length_tags (qs : List Asked) :
    ((messages qs).filterMap Message.tag).length = 2 * qs.length := by
  rw [List.filterMap_length_eq_length.mpr, length_messages]
  intro m hm
  obtain ⟨q, -, hm⟩ := List.mem_flatMap.mp hm
  rcases List.mem_cons.mp hm with rfl | hm
  · rfl
  · rw [List.mem_singleton.mp hm]
    rfl

/-! ## A request in one piece -/

namespace HttpLink

variable {root_ : Bytes} {fs : FileSystem} {walk : Walk} {l : HttpLink} {q : Asked}

/-- The file of a request is there, can be measured, and is not empty. -/
structure Served (root_ : Bytes) (fs : FileSystem) (q : Asked) : Prop where
  parses : q.request.Parses
  file : openFile fs (root_ ++ q.request.parsed.uri_) = some { content := q.content, stat := true }
  filled : q.content ≠ []

/-- A pass that finds a complete request and a new parser takes it off the buffer and responds. -/
theorem pass_request (hq : q.request.Parses) (hparser : l.world.requestParser = RequestParser.clear)
    (hbuf : l.conn.readBuf_.Readable) (hcontents : l.conn.readBuf_.contents = q.request.bytes) :
    ∃ readBuf : Buffer, readBuf.Readable ∧ readBuf.contents = [] ∧
      handleReadEventPass root_ fs walk l = respond root_ fs walk (parsed l q.request.parsed readBuf) := by
  obtain ⟨added, hparse, hgood, hbytes⟩ := hq.parse_eq
  obtain ⟨readBuf, hretrieve, hreadable, hrest⟩ := hbuf.retrieve_ok q.request.bytes.length
  have hne : l.conn.readBuf_.contents ≠ [] := by
    rw [hcontents]
    exact q.request.bytes_ne
  have hfull : l.conn.readBuf_.empty = false := by
    rw [← Bool.not_eq_true, hbuf.wf.empty_iff]
    exact hne
  have hclear : RequestParser.clear.bytes_ = 0 := rfl
  have hlength := hq.length
  refine ⟨readBuf, hreadable, by rw [hrest, hcontents, List.drop_length], ?_⟩
  unfold handleReadEventPass
  rw [if_neg (by simp [hfull]), hbuf.wf.data_eq hne, ok_bind, hparser, hcontents, hparse, ok_bind]
  dsimp only
  rw [hbytes, subInt_ok (by omega) (by omega), ok_bind, hclear, Int.sub_zero, hretrieve, ok_bind]
  have herror : q.request.parsed.isError = false := by
    have hprogress : q.request.parsed.progress_ = .Good := by
      simpa [RequestParser.isGood] using hgood
    unfold RequestParser.isError
    rw [hprogress]
  rw [herror, hgood]
  rfl

/-- The head of the response is sent; the rest depends on `keep-alive`. -/
theorem respond_request (hq : Served root_ fs q) (hparser : l.world.requestParser = q.request.parsed)
    {l1 : HttpLink} (hcall : l.call (.sendString q.head
      (some (.headSent q.content q.content.length))) = .ok l1) :
    respond root_ fs q.walk l = .ok (if q.request.KeepAlive then
        .next { answer l1 with world :=
          { (answer l1).world with requestParser := RequestParser.clear } }
      else
        .done { answer l1 with world := { (answer l1).world with
          keepAlive_ := false
          requestParser := { q.request.parsed with
            headers_ := q.request.parsed.headers_.touch (str "Connection") } } }) := by
  unfold respond
  dsimp only
  rw [hparser, hq.file]
  dsimp only [OpenedFile.getFileSize]
  rw [if_pos rfl]
  dsimp only
  rw [q.okReply_toString, ok_bind, hcall, ok_bind]
  by_cases hkeep : q.request.KeepAlive
  · have hget : q.request.parsed.headers_.get (str "Connection") = str "keep-alive" := hkeep
    rw [if_neg (not_not_intro hget), if_pos hkeep]
    rfl
  · have hget : q.request.parsed.headers_.get (str "Connection") ≠ str "keep-alive" := hkeep
    rw [if_pos hget, if_neg hkeep]
    rfl

end HttpLink

end Liby.Http
