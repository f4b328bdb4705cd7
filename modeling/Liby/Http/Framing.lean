import Liby.Http.Responses
import Liby.Net.WritePath

/-!
# Response framing

The file of a response is queued only when its head is out, and `keep_alive_` belongs to the
connection. So a request that comes while a head is still queued has its own head sent before that
other file, and one without `keep-alive` lets an earlier file close the connection. Where requests
come one by one, and the last one to an empty queue, the responses stand on the wire one after the
other.
-/

namespace Liby.Http.HttpLink

open Infra Outbox

variable {root_ : Bytes} {fs : FileSystem} {walk : Walk} {l l' : HttpLink} {q : Asked} {qs : List Asked}

/-! ## What has been asked and what has been sent -/

/--
The heads of all requests but the last are out, and a file is sent as soon as its head is out. The
connection stays alive to the last request, and is closed when all is out.
-/
structure Framed (qs : List Asked) (w : HttpContext)
    (sent : List (Message UInt8 (Option HttpHandler))) (ran : List HttpHandler) (ticks : Nat) :
    Prop where
  heads : 2 * qs.length ≤ ran.length + 3
  sent_eq : sent = if 2 * qs.length ≤ ran.length + 1 then messages qs else (messages qs).dropLast
  alive : w.keepAlive_ = false → 2 * qs.length ≤ ran.length + 2
  closing : 0 < ticks → 2 * qs.length ≤ ran.length
  once : ticks ≤ 1

theorem framed_nil (w : HttpContext) : Framed [] w [] [] 0 where
  heads := Nat.zero_le _
  sent_eq := rfl
  alive := fun _ => Nat.zero_le _
  closing := fun _ => Nat.zero_le _
  once := Nat.zero_le _

theorem dropLast_messages (qs : List Asked) (q : Asked) :
    (messages (qs ++ [q])).dropLast = messages qs ++ [q.headMessage] := by
  rw [messages_append, messages_singleton, List.dropLast_append_of_ne_nil (by simp)]
  rfl

theorem Framed.sent_prefix {w : HttpContext} {sent : List (Message UInt8 (Option HttpHandler))}
    {ran : List HttpHandler} {ticks : Nat} (h : Framed qs w sent ran ticks) :
    sent <+: messages qs := by
  rw [h.sent_eq]
  split
  · exact List.prefix_rfl
  · exact List.dropLast_prefix _

/-- One request more, when no head is to come, and none at all before the last one. -/
theorem Framed.ask {w w' : HttpContext} {sent : List (Message UInt8 (Option HttpHandler))}
    {ran : List HttpHandler} (h : Framed qs w sent ran 0) (hheads : 2 * qs.length ≤ ran.length + 1)
    (hran : ran.length ≤ 2 * qs.length)
    (halive : w'.keepAlive_ = false → 2 * qs.length ≤ ran.length) :
    Framed (qs ++ [q]) w' (sent ++ [q.headMessage]) ran 0 := by
  have hlen : 2 * (qs ++ [q]).length = 2 * qs.length + 2 := by simp; omega
  refine ⟨by omega, ?_, fun hw => ?_, fun hpos => absurd hpos (Nat.lt_irrefl 0), Nat.zero_le _⟩
  · rw [h.sent_eq, if_pos hheads, if_neg (by omega), dropLast_messages]
  · have := halive hw
    omega

/-- The file of the last request comes last. -/
theorem handler_file {ran : List HttpHandler} {handler : HttpHandler}
    (hnext : ran ++ [handler] <+: (messages qs).filterMap Message.tag)
    (hlen : ran.length + 1 = 2 * qs.length) : handler = .fileSent := by
  rcases List.eq_nil_or_concat qs with rfl | ⟨qs, q, rfl⟩
  · cases hlen
  · rw [List.concat_eq_append] at *
    have heq := hnext.eq_of_length (by rw [length_tags, ← hlen]; simp)
    rw [messages_append, messages_singleton, List.filterMap_append] at heq
    have hend := congrArg List.getLast? heq
    simpa [Asked.headMessage, Asked.fileMessage, List.filterMap_cons] using hend

theorem tags_head (qs : List Asked) (q : Asked) :
    (messages qs ++ [q.headMessage]).filterMap Message.tag
      = (messages qs).filterMap Message.tag ++ [.headSent q.content q.content.length] := by
  rw [List.filterMap_append]
  rfl

/-- The head of the last request comes next. -/
theorem handler_head {ran : List HttpHandler} {handler : HttpHandler}
    (hnext : ran ++ [handler] <+: (messages qs ++ [q.headMessage]).filterMap Message.tag)
    (hlen : ran.length = 2 * qs.length) :
    handler = .headSent q.content q.content.length := by
  rw [tags_head] at hnext
  have heq := hnext.eq_of_length (by simp [length_tags, hlen])
  have hend := congrArg List.getLast? heq
  simpa using hend

/-- **The handlers of the server keep the responses in their frames.** -/
theorem keeps_framed (hfilled : ∀ q ∈ qs, q.content ≠ []) : httpCallbacks.Keeps (Framed qs) := by
  intro w sent ran ticks handler h hnext
  rcases List.eq_nil_or_concat qs with rfl | ⟨qs, q, rfl⟩
  · rw [h.sent_eq] at hnext
    simp at hnext
  · rw [List.concat_eq_append] at *
    have hlen : 2 * (qs ++ [q]).length = 2 * qs.length + 2 := by simp; omega
    have hran : (ran ++ [handler]).length = ran.length + 1 := by simp
    have hheads := h.heads
    -- a file is out: it was the last one, or the connection is still alive
    have hfile : handler = .fileSent → 2 * qs.length + 1 = ran.length ∨ ran.length < 2 * qs.length →
        (∀ x ∈ (httpCallbacks.complete w handler).2, x.Sends) ∧
        Framed (qs ++ [q]) (httpCallbacks.complete w handler).1
          (sent ++ (httpCallbacks.complete w handler).2.flatMap ConnCall.messages) (ran ++ [handler])
          (ticks + ((httpCallbacks.complete w handler).2.map ConnCall.ticks).sum) := by
      rintro rfl hwhich
      have hsent : Framed (qs ++ [q]) w sent (ran ++ [.fileSent]) ticks := by
        refine ⟨by omega, ?_, fun hw => ?_, fun hpos => ?_, h.once⟩
        · rw [h.sent_eq, hran]
          rcases hwhich with hlast | hbefore
          · rw [if_pos (by omega), if_pos (by omega)]
          · rw [if_neg (by omega), if_neg (by omega)]
        · have := h.alive hw
          omega
        · have := h.closing hpos
          omega
      unfold httpCallbacks
      dsimp only
      cases hw : w.keepAlive_ with
      | true =>
        rw [if_pos rfl]
        exact ⟨fun x hx => (by cases hx), by simpa using hsent⟩
      | false =>
        have halive := h.alive hw
        rw [if_neg Bool.false_ne_true]
        -- nothing was put off before, since not all was out
        have hnone : ticks = 0 := by
          by_contra hpos
          have hclosing := h.closing (Nat.pos_of_ne_zero hpos)
          omega
        refine ⟨fun x hx => ?_, hsent.heads, ?_, hsent.alive, fun _ => by omega, ?_⟩
        · rw [List.mem_singleton.mp hx]
          trivial
        · simpa [ConnCall.messages] using hsent.sent_eq
        · simp [hnone, ConnCall.ticks]
    by_cases hcase : 2 * (qs ++ [q]).length ≤ ran.length + 1
    · rw [h.sent_eq, if_pos hcase] at hnext
      have hle := hnext.length_le
      rw [length_tags] at hle
      exact hfile (handler_file hnext (by omega)) (.inl (by omega))
    · rw [h.sent_eq, if_neg hcase, dropLast_messages] at hnext
      by_cases hhead : ran.length = 2 * qs.length
      · obtain rfl := handler_head hnext hhead
        have hne : q.content ≠ [] := hfilled q (by simp)
        refine ⟨fun x hx => ?_, by omega, ?_, fun _ => by omega, fun hpos => ?_, ?_⟩
        · rw [List.mem_singleton.mp hx]
          exact ⟨List.length_pos_iff.mpr hne, by omega⟩
        · rw [h.sent_eq, if_neg hcase, if_pos (by omega), dropLast_messages]
          simp [httpCallbacks, ConnCall.messages, Asked.fileMessage]
        · have := h.closing (by simpa [httpCallbacks, ConnCall.ticks] using hpos)
          omega
        · simpa [httpCallbacks, ConnCall.ticks] using h.once
      · -- the file of the request before the last
        have hle := hnext.length_le
        simp only [tags_head, List.length_append, length_tags, List.length_singleton] at hle
        have hbefore : ran ++ [handler] <+: (messages qs).filterMap Message.tag := by
          refine List.prefix_of_prefix_length_le hnext ?_ (by rw [length_tags, hran]; omega)
          rw [tags_head]
          exact List.prefix_append _ _
        exact hfile (handler_file hbefore (by omega)) (.inr (by omega))

/-! ## States -/

/-- A connection that has been asked `qs`, and is open. -/
structure Serving (qs : List Asked) (l : HttpLink) : Prop where
  delivered : Link.Delivered (Framed qs) l
  readable : l.conn.readBuf_.Readable
  drained : l.conn.readBuf_.contents = []
  reads : l.conn.Reads
  parser : l.world.keepAlive_ = true → l.world.requestParser = RequestParser.clear
  asked : l.world.keepAlive_ = false → ∃ q ∈ qs, ¬q.request.KeepAlive
  filled : ∀ q ∈ qs, q.content ≠ []

/-- A connection that was closed when all was out. -/
structure Closed (qs : List Asked) (l : HttpLink) : Prop where
  destroyed : l.conn.destroy_ = true
  tasks : l.conn.writTasks_ = []
  ticks : l.conn.nextTicks = 0
  wire : l.wire = responses qs

theorem serving_accepted : Serving [] accepted where
  delivered := by
    refine ⟨[], Connection.open_accepted, framed_nil _, rfl, [], rfl, cut_nil⟩
  readable := Buffer.readable_ofLength 1024
  drained := rfl
  reads := Connection.reads_accepted
  parser := fun _ => rfl
  asked := fun h => by cases h
  filled := fun _ h => by cases h

theorem Serving.framed (h : Serving qs l) : Framed qs l.world l.sent l.ran l.conn.nextTicks := by
  obtain ⟨done, hflow⟩ := h.delivered
  exact hflow.user

/-- The handlers that have run are no more than those of the responses. -/
theorem Serving.ran_le (h : Serving qs l) : l.ran.length ≤ 2 * qs.length := by
  have htags := congrArg List.length h.delivered.tags
  have hprefix := (h.framed.sent_prefix.filterMap Message.tag).length_le
  rw [List.length_append] at htags
  rw [length_tags] at hprefix
  omega

/-- A task with a head. -/
def IsHead (t : IoTask HttpHandler) : Prop := ∃ fp filesize, t.handler_ = some (.headSent fp filesize)

instance (t : IoTask HttpHandler) : Decidable (IsHead t) :=
  match h : t.handler_ with
  | some (.headSent fp filesize) => isTrue ⟨fp, filesize, h⟩
  | some .fileSent | some .errorSent | none =>
    isFalse fun ⟨_, _, hhead⟩ => by rw [h] at hhead; cases hhead

/-- Where no head is in the queue, the heads of all requests are out. -/
theorem Serving.heads_out (h : Serving qs l) (hno : ∀ t ∈ l.conn.writTasks_, ¬IsHead t) :
    2 * qs.length ≤ l.ran.length + 1 := by
  by_contra hcase
  rcases List.eq_nil_or_concat qs with rfl | ⟨qs, q, rfl⟩
  · exact hcase (Nat.zero_le _)
  · rw [List.concat_eq_append] at *
    have htags := h.delivered.tags
    rw [h.framed.sent_eq, if_neg hcase, dropLast_messages, tags_head] at htags
    have hlen := congrArg List.length htags
    rw [List.length_append, List.length_append, length_tags, List.length_singleton] at hlen
    have hne : l.conn.writTasks_.filterMap IoTask.handler_ ≠ [] := by
      intro hnil
      rw [hnil, List.length_nil] at hlen
      rw [List.length_append, List.length_singleton] at hcase
      omega
    have hend := congrArg List.getLast? htags
    rw [List.getLast?_concat, List.getLast?_append_of_ne_nil _ hne] at hend
    obtain ⟨t, ht, hhandler⟩ := List.mem_filterMap.mp (List.mem_of_getLast? hend.symm)
    exact hno t ht ⟨_, _, hhandler⟩

/-- What is on the wire is the beginning of the responses; with an empty queue it is all of them. -/
theorem Serving.wire_eq (h : Serving qs l) :
    l.wire <+: responses qs ∧ (l.conn.writTasks_ = [] → l.wire = responses qs) := by
  obtain ⟨hstream, -⟩ := h.delivered.result
  constructor
  · obtain ⟨rest, hrest⟩ := h.framed.sent_prefix
    rw [← stream_messages, ← hrest, stream_append, ← hstream, List.append_assoc]
    exact List.prefix_append _ _
  · intro hempty
    have hheads := h.heads_out fun t ht => by rw [hempty] at ht; cases ht
    rw [hempty, h.framed.sent_eq, if_pos hheads, stream_messages] at hstream
    simpa using hstream

/-- With an empty queue all handlers have run. -/
theorem Serving.ran_of_empty (h : Serving qs l) (hempty : l.conn.writTasks_ = []) :
    l.ran.length = 2 * qs.length := by
  have hheads := h.heads_out fun t ht => by rw [hempty] at ht; cases ht
  have htags := h.delivered.tags
  rw [hempty, h.framed.sent_eq, if_pos hheads] at htags
  simpa [length_tags] using (congrArg List.length htags).symm

/-! ## Steps -/

/-- The head of one response more was sent. -/
theorem Serving.of_call {l1 : HttpLink} (h : Serving qs l)
    (hd : Link.Delivered (Framed (qs ++ [q])) l1) (hbuf : l1.conn.readBuf_.Readable)
    (hempty : l1.conn.readBuf_.contents = []) (hreads : l1.conn.Reads) (hfilled : q.content ≠ [])
    (w : HttpContext) (hw : Framed (qs ++ [q]) w l1.sent l1.ran l1.conn.nextTicks)
    (hparser : w.keepAlive_ = true → w.requestParser = RequestParser.clear)
    (hasked : w.keepAlive_ = false → ¬q.request.KeepAlive) :
    Serving (qs ++ [q]) { l1 with world := w } where
  delivered := hd.withWorld w l1.conn.readBuf_ hw
  readable := hbuf
  drained := hempty
  reads := hreads
  parser := hparser
  asked := fun hdead => ⟨q, by simp, hasked hdead⟩
  filled := by
    intro q' hq'
    rcases List.mem_append.mp hq' with hq' | hq'
    · exact h.filled q' hq'
    · rw [List.mem_singleton.mp hq']
      exact hfilled

/-- A pass that finds no bytes is the last one. -/
theorem pass_empty (h : l.conn.readBuf_.Readable) (hempty : l.conn.readBuf_.contents = []) :
    handleReadEventPass root_ fs walk l = .ok (.done l) := by
  unfold handleReadEventPass
  rw [if_pos (h.wf.empty_iff.mpr hempty)]

/-- A request in a read event, when no head is queued, and nothing at all before a last one. -/
theorem Serving.request_ok (h : Serving qs l) (hq : Served root_ fs q)
    (hkeep : l.world.keepAlive_ = true) (hticks : l.conn.nextTicks = 0)
    (hno : ∀ t ∈ l.conn.writTasks_, ¬IsHead t)
    (hlast : ¬q.request.KeepAlive → l.conn.writTasks_ = []) {readBuf : Buffer}
    (hreadable : readBuf.Readable) (hcontents : readBuf.contents = q.request.bytes) :
    ∃ l', handleReadEvent root_ fs q.walk { l with conn := { l.conn with readBuf_ := readBuf } } = .ok l' ∧
      Serving (qs ++ [q]) l' := by
  let l0 : HttpLink := { l with conn := { l.conn with readBuf_ := readBuf } }
  obtain ⟨rest, hrest, hempty, hpass⟩ := @pass_request root_ fs q.walk l0 q hq.parses (h.parser hkeep)
    hreadable hcontents
  let l1 : HttpLink := parsed l0 q.request.parsed rest
  have hframed := h.framed
  rw [hticks] at hframed
  -- no head waits any more, and before a last response nothing does
  have hasked : ∀ w : HttpContext, (w.keepAlive_ = false → ¬q.request.KeepAlive) →
      Framed (qs ++ [q]) w (l.sent ++ [q.headMessage]) l.ran 0 := by
    intro w hw
    refine hframed.ask (h.heads_out hno) h.ran_le fun hdead => ?_
    rw [h.ran_of_empty (hlast (hw hdead))]
  have halive : l1.world.keepAlive_ = true := hkeep
  have hmessage : (ConnCall.sendString q.head
      (some (.headSent q.content q.content.length))).messages = [q.headMessage] := by
    simp [ConnCall.messages, q.head_ne, Asked.headMessage]
  have hdelivered : Link.Delivered (Framed qs) l1 :=
    h.delivered.withWorld l1.world rest (by
      refine ⟨hframed.heads, hframed.sent_eq, fun hdead => ?_, h.framed.closing, h.framed.once⟩
      rw [halive] at hdead
      cases hdead)
  obtain ⟨l2, hcall, hd, hsent, hran, hticks2⟩ := hdelivered.call_ok (x := .sendString q.head
      (some (.headSent q.content q.content.length))) q.head_ne (K := Framed (qs ++ [q])) (by
    rw [hmessage]
    show Framed _ _ _ _ l.conn.nextTicks
    rw [hticks]
    exact hasked _ fun hdead => by rw [halive] at hdead; cases hdead)
  have hstill := Link.still_call hcall
  have hbuf2 : l2.conn.readBuf_ = rest := hstill.conn.readBuf
  have hkeep2 : l2.world.keepAlive_ = true := by rw [hstill.world]; exact hkeep
  have hserving := fun w (hw : w.keepAlive_ = false → ¬q.request.KeepAlive) hparser =>
    h.of_call hd (by rw [hbuf2]; exact hrest) (by rw [hbuf2]; exact hempty)
      (hstill.conn.reads h.reads) hq.filled w (by
        rw [hsent, hmessage, hran, hticks2]
        show Framed _ _ _ _ l.conn.nextTicks
        rw [hticks]
        exact hasked w hw) hparser hw
  have hrespond := respond_request hq (l := l1) rfl hcall
  unfold handleReadEvent
  rw [Loop.passes, hpass, hrespond]
  -- with keep-alive the loop goes on, and finds no bytes
  by_cases hka : q.request.KeepAlive
  · rw [if_pos hka]
    dsimp only
    rw [Loop.passes, pass_empty (by show l2.conn.readBuf_.Readable; rw [hbuf2]; exact hrest)
      (by show l2.conn.readBuf_.contents = []; rw [hbuf2]; exact hempty)]
    refine ⟨_, rfl, hserving _ (fun hdead => ?_) fun _ => rfl⟩
    have hdead : l2.world.keepAlive_ = false := hdead
    rw [hkeep2] at hdead
    cases hdead
  · rw [if_neg hka]
    exact ⟨_, rfl, hserving _ (fun _ => hka) fun halive => by cases halive⟩

/-! ## Runs -/

/-- An event of a connection on which complete requests arrive, as many as the event has. -/
inductive PipelineEvent where
  | requests (rs : List RequestText) (fs : FileSystem) (walk : Walk)
  | writ (as : List WriteAnswer)
  | tick

namespace PipelineEvent

/-- The event of the connection. -/
def toHttp : PipelineEvent → HttpEvent
  | .requests rs fs walk => .read (rs.flatMap RequestText.bytes) fs walk
  | .writ as => .writ as
  | .tick => .tick

/-- What is asked for. -/
def asked (root_ : Bytes) : PipelineEvent → List Asked
  | .requests rs fs walk => rs.map fun r =>
    { request := r
      content := ((openFile fs (root_ ++ r.parsed.uri_)).map OpenedFile.content).getD []
      walk := walk }
  | .writ _ | .tick => []

/-- The requests can be parsed and served, and no write is answered by an error. -/
def Sound (root_ : Bytes) : PipelineEvent → Prop
  | .requests rs fs walk => ∀ q ∈ asked root_ (.requests rs fs walk), Served root_ fs q
  | .writ as => ∀ a ∈ as, a.Sound
  | .tick => True

end PipelineEvent

/--
A read event brings one request and finds no head in the queue; one without `keep-alive` finds
nothing in the queue.
-/
def OneByOne (l : HttpLink) : PipelineEvent → Prop
  | .requests rs _ _ => ∃ r, rs = [r] ∧ (∀ t ∈ l.conn.writTasks_, ¬IsHead t) ∧
      (¬r.KeepAlive → l.conn.writTasks_ = [])
  | .writ _ | .tick => True

instance decidableOneByOne (l : HttpLink) : ∀ e : PipelineEvent, Decidable (OneByOne l e)
  | .requests [r] _ _ =>
    decidable_of_iff ((∀ t ∈ l.conn.writTasks_, ¬IsHead t) ∧ (¬r.KeepAlive → l.conn.writTasks_ = []))
      ⟨fun h => ⟨r, rfl, h⟩, fun ⟨_, hr, h⟩ => by cases hr; exact h⟩
  | .requests [] _ _ => isFalse fun ⟨_, hr, _⟩ => by cases hr
  | .requests (_ :: _ :: _) _ _ => isFalse fun ⟨_, hr, _⟩ => by cases hr
  | .writ _ => isTrue trivial
  | .tick => isTrue trivial

/-- What an event does. -/
def pipelineStep (root_ : Bytes) (l : HttpLink) (e : PipelineEvent) : Exec HttpLink :=
  l.step root_ e.toHttp

/-- What is asked in a run. -/
def askedBy (root_ : Bytes) (es : List PipelineEvent) : List Asked :=
  es.flatMap (PipelineEvent.asked root_)

/-- A read event with one request. -/
theorem Serving.read_ok (h : Serving qs l) (hq : Served root_ fs q)
    (hkeep : l.world.keepAlive_ = true) (hno : ∀ t ∈ l.conn.writTasks_, ¬IsHead t)
    (hlast : ¬q.request.KeepAlive → l.conn.writTasks_ = []) :
    Guarantees (Serving (qs ++ [q])) (l.step root_ (.read q.request.bytes fs q.walk)) := by
  obtain ⟨done, hflow⟩ := h.delivered
  have hopen := hflow.isOpen
  refine Guarantees.guard fun ⟨_, hticks⟩ => ?_
  unfold Link.handleReadEvent
  rw [h.readable.availbleSize_eq, ok_bind, guardOr_pos hopen.socket, ok_bind]
  dsimp only
  refine (Connection.receive_ok h.readable q.request.bytes).bind ?_
  rintro conn ⟨-, readBuf, rfl, hreadable, hcontents⟩
  rw [h.drained, List.nil_append] at hcontents
  obtain ⟨l', hl', hserving⟩ := h.request_ok hq hkeep hticks hno hlast hreadable hcontents
  dsimp only
  rw [if_pos (h.reads hopen.alive), hl']
  exact hserving

theorem Serving.writ_ok (h : Serving qs l) {as : List WriteAnswer} (ha : ∀ a ∈ as, a.Sound) :
    Guarantees (Serving qs) (l.step root_ (.writ as)) := by
  refine Guarantees.guard fun _ => ?_
  have hdelivered := h.delivered.handleWritEvent_ok (keeps_framed h.filled) ha
  refine hdelivered.imp_ok fun l' hl' hd => ?_
  have hstill := Link.still_handleWritEvent still_httpCallbacks hl'
  exact {
    delivered := hd
    readable := by rw [hstill.conn.readBuf]; exact h.readable
    drained := by rw [hstill.conn.readBuf]; exact h.drained
    reads := hstill.conn.reads h.reads
    parser := by rw [hstill.world]; exact h.parser
    asked := by rw [hstill.world]; exact h.asked
    filled := h.filled }

/-- The connection is closed at the next tick only if all is out. -/
theorem Serving.tick_ok (h : Serving qs l) :
    Guarantees (fun l' => Serving qs l' ∨ Closed qs l') (l.step root_ .tick) := by
  show Guarantees _ (l.conn.runNextTickHandlers false >>= fun _ => _)
  by_cases hticks : l.conn.nextTicks = 0
  · rw [Connection.tick_none hticks]
    exact .inl h
  · have honce := h.framed.once
    have hclosing := h.framed.closing (Nat.pos_of_ne_zero hticks)
    have hsent : l.sent.length ≤ l.ran.length := by
      rw [h.framed.sent_eq, if_pos (by omega), length_messages]
      exact hclosing
    have hempty := h.delivered.drained hsent
    obtain ⟨done, hflow⟩ := h.delivered
    rw [Connection.tick_once hflow.isOpen.alive (by omega)]
    refine .inr ⟨?_, ?_, ?_, h.wire_eq.2 hempty⟩
    all_goals
      unfold Connection.destroy
      rw [if_neg (by simp [hflow.isOpen.alive])]

/-- A closed connection does nothing. -/
theorem Closed.step_ok (h : Closed qs l) (e : HttpEvent) : Guarantees (Closed qs) (l.step root_ e) := by
  cases e with
  | read bytes fs walk => exact Guarantees.guard fun hlive => by simp [h.destroyed] at hlive
  | writ as => exact Guarantees.guard fun hlive => by simp [h.destroyed] at hlive
  | tick =>
    show Guarantees _ (l.conn.runNextTickHandlers false >>= fun _ => _)
    rw [Connection.tick_none h.ticks]
    exact h

/-- **One event.** -/
theorem pipelineStep_ok {e : PipelineEvent} (h : Serving qs l ∨ Closed qs l) (he : e.Sound root_)
    (hc : OneByOne l e) (hkeep : ∀ q ∈ (qs ++ e.asked root_).dropLast, q.request.KeepAlive) :
    Guarantees (fun l' => Serving (qs ++ e.asked root_) l' ∨ Closed (qs ++ e.asked root_) l')
      (pipelineStep root_ l e) := by
  cases e with
  | requests rs fs walk =>
    obtain ⟨r, rfl, hno, hlast⟩ := hc
    rcases h with h | h
    · have hasked := he _ List.mem_cons_self
      have halive : l.world.keepAlive_ = true := by
        rw [← Bool.not_eq_false]
        intro hdead
        obtain ⟨q, hq, hnot⟩ := h.asked hdead
        refine hnot (hkeep q ?_)
        rw [PipelineEvent.asked, List.map_singleton, List.dropLast_concat]
        exact hq
      have hread := h.read_ok hasked halive hno hlast
      have hbytes : [r].flatMap RequestText.bytes = r.bytes := by simp
      unfold pipelineStep PipelineEvent.toHttp
      dsimp only
      rw [hbytes]
      exact hread.imp_ok fun l' _ h' => .inl h'
    · exact Guarantees.guard fun hlive => by simp [h.destroyed] at hlive
  | writ as =>
    rw [PipelineEvent.asked, List.append_nil]
    rcases h with h | h
    · exact (h.writ_ok he).imp_ok fun l' _ h' => .inl h'
    · exact (h.step_ok (.writ as)).imp_ok fun l' _ h' => .inr h'
  | tick =>
    rw [PipelineEvent.asked, List.append_nil]
    rcases h with h | h
    · exact h.tick_ok
    · exact (h.step_ok .tick).imp_ok fun l' _ h' => .inr h'

/-- **A run**, from a state that has been asked `qs`. -/
theorem run_framed : ∀ {es : List PipelineEvent} {qs : List Asked} {l : HttpLink},
    Serving qs l ∨ Closed qs l → (∀ e ∈ es, e.Sound root_) →
    Along (pipelineStep root_) OneByOne l es →
    (∀ q ∈ (qs ++ askedBy root_ es).dropLast, q.request.KeepAlive) →
    Guarantees (fun l' => Serving (qs ++ askedBy root_ es) l' ∨ Closed (qs ++ askedBy root_ es) l')
      (run (pipelineStep root_) l es)
  | [], qs, l, h, _, _, _ => by
    rw [askedBy, List.flatMap_nil, List.append_nil]
    exact h
  | e :: es, qs, l, h, he, hc, hkeep => by
    have hasked : qs ++ askedBy root_ (e :: es) = qs ++ e.asked root_ ++ askedBy root_ es := by
      rw [askedBy, List.flatMap_cons, ← List.append_assoc]
      rfl
    rw [hasked] at hkeep ⊢
    have hfirst : ∀ q ∈ (qs ++ e.asked root_).dropLast, q.request.KeepAlive := by
      intro q hq
      refine hkeep q ?_
      by_cases hnil : askedBy root_ es = []
      · rw [hnil, List.append_nil]
        exact hq
      · rw [List.dropLast_append_of_ne_nil hnil]
        exact List.mem_append_left _ ((List.dropLast_sublist _).subset hq)
    have hstep := pipelineStep_ok h (he e List.mem_cons_self) hc.1 hfirst
    rw [run_cons]
    cases hl : pipelineStep root_ l e with
    | error f =>
      rw [hl] at hstep
      exact hstep
    | ok l' =>
      rw [hl] at hstep
      exact run_framed hstep (fun e' he' => he e' (List.mem_cons_of_mem e he')) (hc.2 l' hl) hkeep

/--
**Responses in their frames.** Requests that can be served come in read events; all but the last
are `keep-alive`. Where every event is `OneByOne`, what is on the wire is the beginning of the
responses in the order of the requests, each head followed by its file; it is all of them when the
queue is empty, and when the connection is closed. No step of such a run faults.
-/
theorem responses_framed (root_ : Bytes) (es : List PipelineEvent) (he : ∀ e ∈ es, e.Sound root_)
    (hkeep : ∀ q ∈ (askedBy root_ es).dropLast, q.request.KeepAlive)
    (hc : Along (pipelineStep root_) OneByOne accepted es) :
    (∀ l, run (pipelineStep root_) accepted es = .ok l →
      l.wire <+: responses (askedBy root_ es) ∧
      (l.conn.writTasks_ = [] ∨ l.conn.destroy_ = true → l.wire = responses (askedBy root_ es))) ∧
    ∀ f, run (pipelineStep root_) accepted es = .error f → f = .environment := by
  have hrun := run_framed (.inl serving_accepted) he hc hkeep
  rw [List.nil_append] at hrun
  constructor
  · intro l hl
    rw [hl] at hrun
    rcases hrun with h | h
    · refine ⟨h.wire_eq.1, ?_⟩
      rintro (hempty | hdestroyed)
      · exact h.wire_eq.2 hempty
      · obtain ⟨done, hflow⟩ := h.delivered
        rw [hflow.isOpen.alive] at hdestroyed
        cases hdestroyed
    · exact ⟨by simp [h.wire], fun _ => h.wire⟩
  · intro f hf
    rw [hf] at hrun
    exact hrun

/-- A site with two files. -/
def twoFiles : FileSystem := fun path =>
  if path = str "www/a" then some { content := str "hi", stat := true }
  else if path = str "www/b" then some { content := str "hello", stat := true }
  else none

/-- A request that keeps the connection. -/
def getKept : RequestText where
  method := str "GET"
  uri := str "/a"
  http11 := true
  headers := [{
    name := str "Connection"
    value := str " keep-alive"
    name_ne := by decide
    name_token := by decide +kernel
    value_line := by decide }]
  method_known := methods_get
  uri_ne := by decide
  uri_token := by decide

/-- A request that does not. -/
def getLast : RequestText where
  method := str "GET"
  uri := str "/b"
  http11 := true
  headers := []
  method_known := methods_get
  uri_ne := by decide
  uri_token := by decide

theorem served_kept (content : Bytes) (walk : Walk) (h : content = str "hi") :
    Served (str "www") twoFiles { request := getKept, content := content, walk := walk } where
  parses := (⟨by decide, by decide⟩ : getKept.Parses)
  file := by
    have hfile : openFile twoFiles (str "www" ++ getKept.parsed.uri_) = some { content := str "hi", stat := true } := by
      decide +kernel
    rw [h]
    exact hfile
  filled := by
    have hfilled : str "hi" ≠ [] := by decide
    rw [h]
    exact hfilled

theorem served_last (content : Bytes) (walk : Walk) (h : content = str "hello") :
    Served (str "www") twoFiles { request := getLast, content := content, walk := walk } where
  parses := (⟨by decide, by decide⟩ : getLast.Parses)
  file := by
    have hfile : openFile twoFiles (str "www" ++ getLast.parsed.uri_) = some { content := str "hello", stat := true } := by
      decide +kernel
    rw [h]
    exact hfile
  filled := by
    have hfilled : str "hello" ≠ [] := by decide
    rw [h]
    exact hfilled

/-- A request that is kept and one that is not, with writes that are cut short. -/
theorem responses_framed_two :
    let es : List PipelineEvent :=
      [.requests [getKept] twoFiles .backwards, .writ [.accepted 60], .writ [.accepted 4, .accepted 1],
        .writ [.accepted 1], .requests [getLast] twoFiles .listed, .writ [.accepted 64, .accepted 5], .tick]
    ∃ l, run (pipelineStep (str "www")) accepted es = .ok l ∧ l.conn.destroy_ = true ∧
      l.wire = responses (askedBy (str "www") es) := by
  intro es
  have hsound : ∀ e ∈ es, e.Sound (str "www") := by
    intro e he
    simp only [es, List.mem_cons, List.not_mem_nil, or_false] at he
    rcases he with rfl | rfl | rfl | rfl | rfl | rfl | rfl
    · intro q hq
      rw [List.mem_singleton.mp hq]
      exact served_kept _ _ (by decide +kernel)
    · intro a ha
      rw [List.mem_singleton.mp ha]
      exact Nat.succ_pos _
    · intro a ha
      rcases List.mem_pair.mp ha with rfl | rfl <;> exact Nat.succ_pos _
    · intro a ha
      rw [List.mem_singleton.mp ha]
      exact Nat.succ_pos _
    · intro q hq
      rw [List.mem_singleton.mp hq]
      exact served_last _ _ (by decide +kernel)
    · intro a ha
      rcases List.mem_pair.mp ha with rfl | rfl <;> exact Nat.succ_pos _
    · trivial
  have hresult := responses_framed (str "www") es hsound (by decide +kernel) (by decide +kernel)
  have hrun : (run (pipelineStep (str "www")) accepted es).map (fun l => l.conn.destroy_)
      = .ok true := by decide +kernel
  cases hl : run (pipelineStep (str "www")) accepted es with
  | error f => rw [hl] at hrun; cases hrun
  | ok l =>
    rw [hl] at hrun
    have hdestroyed : l.conn.destroy_ = true := Except.ok.inj hrun
    exact ⟨l, rfl, hdestroyed, (hresult.1 l hl).2 (.inr hdestroyed)⟩

/--
Two requests in one event: both heads come before the files. A request that is not kept while a
file is still queued: the connection is closed after that file.
-/
theorem responses_not_framed :
    (let es : List PipelineEvent :=
        [.requests [getKept, getKept] twoFiles .backwards, .writ [.accepted 128, .accepted 2, .accepted 2]]
      ∃ l, run (pipelineStep (str "www")) accepted es = .ok l ∧ l.conn.writTasks_ = [] ∧
        ¬l.wire <+: responses (askedBy (str "www") es)) ∧
    (let es : List PipelineEvent :=
        [.requests [getKept] twoFiles .backwards, .writ [.accepted 64, .again],
          .requests [getLast] twoFiles .backwards, .writ [.accepted 2, .again], .tick]
      ∃ l, run (pipelineStep (str "www")) accepted es = .ok l ∧ l.conn.destroy_ = true ∧
        l.wire ≠ responses (askedBy (str "www") es)) := by
  have hstate : ∀ {es : List PipelineEvent} {P : HttpLink → Prop} [DecidablePred P],
      (match run (pipelineStep (str "www")) accepted es with
        | .ok l => decide (P l)
        | .error _ => false) = true →
      ∃ l, run (pipelineStep (str "www")) accepted es = .ok l ∧ P l := by
    intro es P _ h
    split at h
    · next l hl => exact ⟨l, hl, of_decide_eq_true h⟩
    · cases h
  exact ⟨hstate (by decide +kernel), hstate (by decide +kernel)⟩

end Liby.Http.HttpLink
