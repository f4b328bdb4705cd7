import Liby.Http.ClientSends
import Liby.Http.Framing
import Liby.Http.MalformedRequest
import Liby.Http.ReplyPieces
import Liby.Http.ReplyRoundTrip
import Liby.Http.RequestRoundTrip

/-!
# A request from the client to the server and back

`HttpClient` puts a NUL after its request, and `HttpServer` leaves it in its read buffer. The response to
the request is not affected: it comes back as the file, whatever else comes later. But where the connection
is kept, the NUL is taken for the next request, and none is answered any more.
-/

namespace Liby.Http

open Infra Outbox
open Reply (headerLines)

/-! ## The request as text -/

/-- The header lines of a map. -/
def Headers.Plain.texts : ∀ {headers : Headers}, (∀ header ∈ headers, PlainHeader header) → List HeaderText
  | [], _ => []
  | _ :: _, h => (h _ List.mem_cons_self).text :: texts fun _ hmem => h _ (List.mem_cons_of_mem _ hmem)

theorem Headers.Plain.texts_bytes : ∀ {headers : Headers} (h : ∀ header ∈ headers, PlainHeader header),
    headersBytes (texts h) = headerLines headers ++ str "\r\n"
  | [], _ => rfl
  | header :: headers, h => by
    have hrest := texts_bytes fun _ hmem => h _ (List.mem_cons_of_mem _ hmem)
    have hline := (h header List.mem_cons_self).line_text (headerLines headers ++ str "\r\n")
    rw [texts, headersBytes_cons, hrest, ← hline, headerLines_cons]
    simp only [List.append_assoc]

theorem Headers.Plain.texts_filled : ∀ {headers : Headers} (h : ∀ header ∈ headers, PlainHeader header),
    ∀ text ∈ texts h, text.Filled
  | [], _, text, hmem => nomatch hmem
  | header :: headers, h, text, hmem => by
    rcases List.mem_cons.mp hmem with rfl | hmem
    · exact (h header List.mem_cons_self).filled_text
    · exact texts_filled (fun _ hmem => h _ (List.mem_cons_of_mem _ hmem)) text hmem

/-- A request that goes out as it is: its URI is there, and is one line. -/
structure Request.Sendable (r : Request) : Prop where
  printable : r.Printable
  uri_ne : r.uri_ ≠ []
  uri_line : 10 ∉ r.target ∧ 13 ∉ r.target
  small : r.head.length < 2 ^ 31

namespace Request.Sendable

variable {r : Request}

theorem target_ne (h : r.Sendable) : r.target ≠ [] := by
  unfold target
  exact List.append_ne_nil_of_left_ne_nil h.uri_ne _

/-- The request as text. -/
def text (h : r.Sendable) : RequestText where
  method := methodsString r.method_
  uri := r.target
  http11 := true
  headers := Headers.Plain.texts h.printable.headers.entries
  method_known := by
    rw [methodsString_known h.printable.method]
    exact Option.some_ne_none _
  uri_ne := h.target_ne
  uri_token := ⟨h.printable.target_token.1, h.uri_line⟩

theorem text_bytes (h : r.Sendable) : h.text.bytes = r.head := by
  have hhead := r.head_append []
  rw [List.append_nil] at hhead
  rw [hhead]
  unfold RequestText.bytes RequestText.line RequestText.version text
  dsimp only
  rw [Headers.Plain.texts_bytes, if_pos rfl]
  have hend : str "\r\n" = [13, 10] := rfl
  rw [hend]
  simp

theorem parses (h : r.Sendable) : h.text.Parses where
  length := by
    rw [h.text_bytes]
    exact h.small
  filled := Headers.Plain.texts_filled h.printable.headers.entries

/-- The parser comes to the request itself. -/
theorem text_parsed (h : r.Sendable) : h.text.parsed = r.parsed := by
  obtain ⟨added, hparse, -, -⟩ := h.parses.parse_eq
  obtain ⟨g, hg, hparser⟩ := h.printable.parse_eq [] h.small
  rw [List.append_nil, ← h.text_bytes, hparse] at hg
  cases hg
  exact hparser

end Request.Sendable

namespace HttpLink

variable {root_ : Bytes} {fs : FileSystem} {walk : Walk} {l : HttpLink} {q : Asked} {r : Request}

/-! ## The request at the server -/

/-- A pass that finds a request and more takes the request off the buffer and responds. -/
theorem pass_sendable (h : r.Sendable) (hparser : l.world.requestParser = RequestParser.clear)
    (hbuf : l.conn.readBuf_.Readable) {rest : Bytes} (hcontents : l.conn.readBuf_.contents = r.head ++ rest) :
    ∃ readBuf : Buffer, readBuf.Readable ∧ readBuf.contents = rest ∧
      handleReadEventPass root_ fs walk l = respond root_ fs walk (parsed l r.parsed readBuf) := by
  obtain ⟨g, hparse, hg⟩ := h.printable.parse_eq rest h.small
  obtain ⟨readBuf, hretrieve, hreadable, hrest⟩ := hbuf.retrieve_ok r.head.length
  have hne : l.conn.readBuf_.contents ≠ [] := by
    rw [hcontents, ← h.text_bytes]
    exact List.append_ne_nil_of_left_ne_nil h.text.bytes_ne _
  have hfull : l.conn.readBuf_.empty = false := by
    rw [← Bool.not_eq_true, hbuf.wf.empty_iff]
    exact hne
  have hclear : RequestParser.clear.bytes_ = 0 := rfl
  have hbytes : r.parsed.bytes_ = r.head.length := rfl
  have hsmall := h.small
  refine ⟨readBuf, hreadable, by rw [hrest, hcontents, List.drop_left], ?_⟩
  unfold handleReadEventPass
  rw [if_neg (by simp [hfull]), hbuf.wf.data_eq hne, ok_bind, hparser, hcontents, hparse, ok_bind]
  dsimp only
  rw [hg, hbytes, subInt_ok (by omega) (by omega), ok_bind, hclear, Int.sub_zero, hretrieve, ok_bind]
  rfl

/-- A parser that has come to an error stays as it is. -/
theorem parse_of_error {p : RequestParser} (h : p.isError = true) (d : Bytes) :
    p.parse d = .ok { parser := p, added := 0 } := by
  obtain ⟨method_, uri_, query_, headers_, progress_, bytes_, major, minor⟩ := p
  cases progress_ with
  | InvalidMethod | InvalidURI | InvalidVersion | InvalidHeader => rfl
  | ParsingMethod | ParsingURI | ParsingVersion | ParsingHeaders | Good => cases h

/-- A pass in which the parser refuses what it finds is the last one, and takes nothing. -/
theorem pass_refuses {p : RequestParser} {added : Nat} (hbuf : l.conn.readBuf_.Readable)
    (hne : l.conn.readBuf_.contents ≠ [])
    (hparse : l.world.requestParser.parse l.conn.readBuf_.contents = .ok { parser := p, added := added })
    (hbytes : p.bytes_ = l.world.requestParser.bytes_) (herror : p.isError = true) :
    ∃ readBuf : Buffer, readBuf.Readable ∧
      handleReadEventPass root_ fs walk l = .ok (.done (parsed l p readBuf)) := by
  have hfull : l.conn.readBuf_.empty = false := by
    rw [← Bool.not_eq_true, hbuf.wf.empty_iff]
    exact hne
  obtain ⟨readBuf, hretrieve, hreadable, -⟩ := hbuf.retrieve_ok 0
  have hzero : subInt p.bytes_ l.world.requestParser.bytes_ = .ok ((0 : Nat) : Int) := by
    rw [hbytes, subInt_ok (by omega) (by omega), Int.sub_self]
    rfl
  refine ⟨readBuf, hreadable, ?_⟩
  unfold handleReadEventPass
  rw [if_neg (by simp [hfull]), hbuf.wf.data_eq hne, ok_bind, hparse, ok_bind]
  dsimp only
  rw [hzero, ok_bind, hretrieve, ok_bind, if_pos herror, call_error, ok_bind]
  rfl

/-- What is left of a parser that was given a NUL. -/
def nulParser : RequestParser := { RequestParser.clear with progress_ := .InvalidMethod }

/-- **The NUL after a request is taken for a method.** -/
theorem parse_nul : RequestParser.clear.parse [0] = .ok { parser := nulParser, added := 0 } := by decide

/-! ## The server after the request -/

/-- A connection that has been asked `q`; where it is kept, its parser has come to an error. -/
structure Responding (q : Asked) (l : HttpLink) : Prop where
  delivered : Link.Delivered (Framed [q]) l
  readable : l.conn.readBuf_.Readable
  reads : l.conn.Reads
  asked : l.world.keepAlive_ = false → ¬q.request.KeepAlive
  refuses : q.request.KeepAlive → l.world.requestParser.isError = true
  filled : q.content ≠ []

/-- The parser and the read buffer do not count for what is written. -/
theorem Responding.serving (h : Responding q l) : Serving [q] { l with
    world := { l.world with requestParser := RequestParser.clear }
    conn := { l.conn with readBuf_ := .ofLength 1024 } } where
  delivered := by
    obtain ⟨done, hflow⟩ := id h.delivered
    refine h.delivered.withWorld _ _ ?_
    exact ⟨hflow.user.heads, hflow.user.sent_eq, hflow.user.alive, hflow.user.closing, hflow.user.once⟩
  readable := Buffer.readable_ofLength 1024
  drained := rfl
  reads := h.reads
  parser := fun _ => rfl
  asked := fun hdead => ⟨q, List.mem_cons_self, h.asked hdead⟩
  filled := fun q' hq' => by
    rw [List.mem_singleton.mp hq']
    exact h.filled

/-- What is on the wire is the beginning of the response; with an empty queue it is all of it. -/
theorem Responding.wire_eq (h : Responding q l) :
    l.wire <+: q.response ∧ (l.conn.writTasks_ = [] → l.wire = q.response) := by
  have hwire := h.serving.wire_eq
  rwa [responses, List.flatMap_singleton] at hwire

/-- What may come after the request: bytes only where the connection is kept, and no error of a write. -/
def Later (q : Asked) : HttpEvent → Prop
  | .read _ _ _ => q.request.KeepAlive
  | .writ as => ∀ a ∈ as, a.Sound
  | .tick => True

theorem Responding.writ_ok (h : Responding q l) {as : List WriteAnswer} (ha : ∀ a ∈ as, a.Sound) :
    Guarantees (Responding q) (l.step root_ (.writ as)) := by
  have hfilled : ∀ q' ∈ [q], q'.content ≠ [] := List.forall_mem_singleton.mpr h.filled
  refine Guarantees.guard fun _ => ?_
  refine (h.delivered.handleWritEvent_ok (keeps_framed hfilled) ha).imp_ok fun l' hl' hd => ?_
  have hstill := Link.still_handleWritEvent still_httpCallbacks hl'
  exact {
    delivered := hd
    readable := by rw [hstill.conn.readBuf]; exact h.readable
    reads := hstill.conn.reads h.reads
    asked := by rw [hstill.world]; exact h.asked
    refuses := by rw [hstill.world]; exact h.refuses
    filled := h.filled }

/-- The connection is closed at the next tick only if all is out. -/
theorem Responding.tick_ok (h : Responding q l) :
    Guarantees (fun l' => Responding q l' ∨ Closed [q] l') (l.step root_ .tick) := by
  show Guarantees _ (l.conn.runNextTickHandlers false >>= fun _ => _)
  by_cases hticks : l.conn.nextTicks = 0
  · rw [Connection.tick_none hticks]
    exact .inl h
  · obtain ⟨done, hflow⟩ := id h.delivered
    have honce := hflow.user.once
    rw [Connection.tick_once hflow.isOpen.alive (by omega)]
    have hclosing := hflow.user.closing (Nat.pos_of_ne_zero hticks)
    have hlength : [q].length = 1 := rfl
    have hsent : l.sent.length ≤ l.ran.length := by
      rw [hflow.user.sent_eq, if_pos (by omega), length_messages]
      exact hclosing
    have hwire := h.serving.wire_eq.2 (h.delivered.drained hsent)
    refine .inr ⟨?_, ?_, ?_, hwire⟩
    all_goals
      unfold Connection.destroy
      rw [if_neg (by simp [hflow.isOpen.alive])]

/-- **On a connection that is kept no bytes are answered any more.** -/
theorem Responding.read_ok (h : Responding q l) (hkeep : q.request.KeepAlive) (bytes : Bytes) (fs : FileSystem)
    (walk : Walk) : Guarantees (Responding q) (l.step root_ (.read bytes fs walk)) := by
  obtain ⟨done, hflow⟩ := id h.delivered
  refine Guarantees.guard fun _ => ?_
  unfold Link.handleReadEvent
  rw [h.readable.availbleSize_eq, ok_bind, guardOr_pos hflow.isOpen.socket, ok_bind]
  dsimp only
  refine (Connection.receive_ok h.readable bytes).bind ?_
  rintro conn ⟨hne, buffer, rfl, hreadable, hcontents⟩
  dsimp only
  rw [if_pos (h.reads hflow.isOpen.alive)]
  let l1 : HttpLink := { l with conn := { l.conn with readBuf_ := buffer } }
  have herror : l1.world.requestParser.isError = true := h.refuses hkeep
  have hfull : l1.conn.readBuf_.contents ≠ [] := by
    show buffer.contents ≠ []
    rw [hcontents]
    exact List.append_ne_nil_of_right_ne_nil _ hne
  obtain ⟨readBuf, hreadable', hpass⟩ := pass_refuses (l := l1) hreadable hfull
    (parse_of_error herror _) rfl herror
  show Guarantees _ (handleReadEvent root_ fs walk l1)
  unfold handleReadEvent
  rw [Loop.passes, hpass]
  have hframed : Framed [q] (parsed l1 l1.world.requestParser readBuf).world l.sent l.ran l.conn.nextTicks :=
    ⟨hflow.user.heads, hflow.user.sent_eq, hflow.user.alive, hflow.user.closing, hflow.user.once⟩
  exact {
    delivered := h.delivered.withWorld _ readBuf hframed
    readable := hreadable'
    reads := h.reads
    asked := h.asked
    refuses := h.refuses
    filled := h.filled }

theorem Responding.step_ok (h : Responding q l ∨ Closed [q] l) {e : HttpEvent} (he : Later q e) :
    Guarantees (fun l' => Responding q l' ∨ Closed [q] l') (l.step root_ e) := by
  rcases h with h | h
  · cases e with
    | read bytes fs walk => exact (h.read_ok he bytes fs walk).imp_ok fun _ _ => .inl
    | writ as => exact (h.writ_ok he).imp_ok fun _ _ => .inl
    | tick => exact h.tick_ok
  · exact (h.step_ok e).imp_ok fun _ _ => .inr

/-! ## The request itself -/

/-- The head of the response is queued. -/
theorem respond_answers (hq : Served root_ fs q) (readBuf : Buffer) :
    ∃ l1 : HttpLink, respond root_ fs q.walk (parsed accepted q.request.parsed readBuf) = .ok
      (if q.request.KeepAlive then
        .next { answer l1 with world := { (answer l1).world with requestParser := RequestParser.clear } }
      else
        .done { answer l1 with world := { (answer l1).world with
          keepAlive_ := false
          requestParser := { q.request.parsed with
            headers_ := q.request.parsed.headers_.touch (str "Connection") } } }) ∧
      l1.conn.readBuf_ = readBuf ∧ l1.conn.Reads ∧ l1.world.keepAlive_ = true ∧
      ∀ w readBuf', (w.keepAlive_ = false → ¬q.request.KeepAlive) → Link.Delivered (Framed [q]) { l1 with
        world := w, conn := { l1.conn with readBuf_ := readBuf' } } := by
  have hmessage : (ConnCall.sendString q.head
      (some (.headSent q.content q.content.length))).messages = [q.headMessage] := by
    simp [ConnCall.messages, q.head_ne, Asked.headMessage]
  have hopen : (accepted.conn : Connection HttpHandler).Open := Connection.open_accepted
  have hstart : Link.Delivered (fun _ sent ran ticks => sent = [] ∧ ran = [] ∧ ticks = 0)
      (parsed accepted q.request.parsed readBuf) :=
    ⟨[], ⟨hopen.alive, hopen.socket, hopen.interest, hopen.tasks⟩, ⟨rfl, rfl, rfl⟩, rfl, [], rfl, cut_nil⟩
  obtain ⟨l1, hcall, hd, -⟩ := hstart.call_ok (x := .sendString q.head
      (some (.headSent q.content q.content.length))) q.head_ne
    (K := fun _ sent ran ticks => sent = [q.headMessage] ∧ ran = [] ∧ ticks = 0) (by
      rw [hmessage]
      exact ⟨rfl, rfl, rfl⟩)
  have hstill := Link.still_call hcall
  refine ⟨l1, respond_request hq rfl hcall, hstill.conn.readBuf, hstill.conn.reads fun _ => rfl,
    by rw [hstill.world]; rfl, fun w readBuf' hw => ?_⟩
  obtain ⟨done, hflow⟩ := id hd
  obtain ⟨hsent, hran, hticks⟩ := hflow.user
  refine hd.withWorld w readBuf' ?_
  rw [hsent, hran, hticks]
  have hnil : Framed [] w [] [] 0 := framed_nil w
  exact hnil.ask (Nat.zero_le _) (Nat.zero_le _) fun _ => Nat.zero_le _

/-- **The request of the client is answered**, and what stands after it is not. -/
theorem request_ok (h : r.Sendable) {content : Bytes}
    (hq : Served root_ fs { request := h.text, content := content, walk := walk }) :
    Guarantees (Responding { request := h.text, content := content, walk := walk })
      (accepted.step root_ (.read (r.head ++ [0]) fs walk)) := by
  refine Guarantees.guard fun _ => ?_
  unfold Link.handleReadEvent
  have hsocket : accepted.conn.socket_ = true := rfl
  rw [(Buffer.readable_ofLength 1024).availbleSize_eq (b := accepted.conn.readBuf_), ok_bind,
    guardOr_pos hsocket, ok_bind]
  dsimp only
  refine (Connection.receive_ok (c := accepted.conn) (Buffer.readable_ofLength 1024) _).bind ?_
  rintro conn ⟨-, buffer, rfl, hreadable, hcontents⟩
  let l0 : HttpLink := { accepted with conn := { accepted.conn with readBuf_ := buffer } }
  have hcontents : l0.conn.readBuf_.contents = r.head ++ [0] := hcontents
  obtain ⟨readBuf, hreadable1, hrest, hpass⟩ :=
    pass_sendable (l := l0) h rfl hreadable hcontents
  have hsame : parsed l0 r.parsed readBuf = parsed accepted h.text.parsed readBuf := by
    rw [h.text_parsed]
    rfl
  obtain ⟨l1, hrespond, hbuf, hreads, hkeep, hd⟩ := respond_answers hq readBuf
  rw [hsame, hrespond] at hpass
  show Guarantees _ (handleReadEvent root_ fs walk l0)
  unfold handleReadEvent
  rw [Loop.passes, hpass]
  by_cases hka : h.text.KeepAlive
  · -- the loop goes on, and finds the NUL
    rw [if_pos hka]
    dsimp only
    have hreadable2 : l1.conn.readBuf_.Readable := by rw [hbuf]; exact hreadable1
    have hnul : l1.conn.readBuf_.contents = [0] := by rw [hbuf, hrest]
    obtain ⟨readBuf2, hreadable3, hpass2⟩ := pass_refuses (p := nulParser)
      (l := { answer l1 with world := { (answer l1).world with requestParser := RequestParser.clear } })
      hreadable2 (by show l1.conn.readBuf_.contents ≠ []; rw [hnul]; exact List.cons_ne_nil _ _)
      (by show RequestParser.clear.parse l1.conn.readBuf_.contents = _; rw [hnul]; exact parse_nul) rfl rfl
    rw [Loop.passes, hpass2]
    have halive : ∀ w : HttpContext, w.keepAlive_ = l1.world.keepAlive_ → w.keepAlive_ = false →
        ¬h.text.KeepAlive := by
      intro w hw hdead
      rw [hw, hkeep] at hdead
      cases hdead
    exact {
      delivered := hd _ readBuf2 (halive _ rfl)
      readable := hreadable3
      reads := hreads
      asked := halive _ rfl
      refuses := fun _ => rfl
      filled := hq.filled }
  · rw [if_neg hka]
    exact {
      delivered := by
        have hd := hd { (answer l1).world with
          keepAlive_ := false
          requestParser := { h.text.parsed with
            headers_ := h.text.parsed.headers_.touch (str "Connection") } } readBuf fun _ => hka
        rw [← hbuf] at hd
        exact hd
      readable := by
        show l1.conn.readBuf_.Readable
        rw [hbuf]
        exact hreadable1
      reads := hreads
      asked := fun _ => hka
      refuses := fun h => absurd h hka
      filled := hq.filled }

end HttpLink

/-! ## The response at the client -/

namespace Asked

end Asked

/-! ## There and back -/

end Liby.Http
