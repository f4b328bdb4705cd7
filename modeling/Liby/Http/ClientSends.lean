import Liby.Http.ClientLink
import Liby.Net.WritePath

/-!
# What HttpClient sends

`sendRequest` puts one task at the end of the queue of its connection. The task holds more than the
request: `Buffer::append(const std::string &)` takes the NUL after the text along, and the body, which
`toString` has written already, is appended once more.
-/

namespace Liby

open Infra

variable {σ H : Type _}

/-- The bytes that the tasks of a connection have still to send. -/
def Connection.queued (conn : Connection H) : Bytes := conn.writTasks_.flatMap IoTask.remaining

/-- A connection with a channel takes a buffer that is not empty, and is otherwise as before. -/
theorem Connection.sendBuffer_ok {conn : Connection H} (hchan : conn.chan_.isSome) {buffer : Buffer}
    (hwf : buffer.Wf) (hne : buffer.contents ≠ []) (handler : Option H) :
    ∃ ch rest, conn.sendBuffer buffer handler = .ok ({ conn with
      chan_ := some ch, writTasks_ := conn.writTasks_ ++ [.ofBuffer buffer handler] }, rest) := by
  obtain ⟨ch, hch⟩ := Option.isSome_iff_exists.mp hchan
  have hcap : 0 < buffer.capacity_ := by
    have hlen := hwf.length_contents
    have hright := hwf.right_le
    have hpos := List.length_pos_iff.mpr hne
    omega
  unfold Connection.sendBuffer Connection.emplace Connection.enableWrit Connection.channel
  rw [guardOr_pos ⟨hcap, hwf.left_le⟩, ok_bind, hch]
  exact ⟨_, _, rfl⟩

namespace Http

/-! ## The bytes of a request -/

namespace Request

/-- The request line, the headers, the blank line, and the body. -/
def plain (r : Request) : Bytes := r.head ++ r.body_.contents

/-- What `sendRequest` adds to that. -/
def excess (r : Request) : Bytes := 0 :: r.body_.contents

variable {r : Request}

theorem toString_eq (h : r.body_.Wf) : r.toString = .ok r.plain := by
  unfold toString plain
  split
  · next hempty => rw [h.empty_iff.mp hempty, List.append_nil]
  · next hfull =>
    have hne : r.body_.contents ≠ [] := fun hnil => hfull (h.empty_iff.mpr hnil)
    rw [h.data_eq hne]
    rfl

/-- **The buffer that `sendRequest` makes holds a NUL after the request, and then the body again.** -/
theorem buffer_ok (h : r.body_.Wf) :
    ∃ buffer, r.buffer = .ok buffer ∧ buffer.Wf ∧ buffer.contents = r.plain ++ r.excess := by
  obtain ⟨b, happend, hwf, hcontents⟩ :=
    (Buffer.wf_ofLength 1024).append_ok
      (List.append_ne_nil_of_right_ne_nil r.plain (List.cons_ne_nil 0 []))
  obtain ⟨buffer, hbody, hwf', hcontents'⟩ := hwf.appendBuffer_ok h
  have hempty : (Buffer.ofLength 1024).contents = [] := by
    rw [← (Buffer.wf_ofLength 1024).empty_iff]
    rfl
  refine ⟨buffer, ?_, hwf', ?_⟩
  · unfold Request.buffer Buffer.appendString
    rw [toString_eq h, ok_bind, happend, ok_bind, hbody]
  · rw [hcontents', hcontents, hempty]
    simp [excess]

theorem plain_ne (r : Request) : r.plain ++ r.excess ≠ [] := by simp [excess]

end Request

namespace ClientLink

variable {c : ClientLink σ H} {i : Nat} {conn : Connection Unit}

/-- `conn'` is `conn` with one more task, for a request. -/
def Queues (conn : Connection Unit) (r : Request) (conn' : Connection Unit) : Prop :=
  ∃ ch buffer, buffer.Wf ∧ buffer.contents = r.plain ++ r.excess ∧
    conn' = { conn with
      chan_ := some ch, writTasks_ := conn.writTasks_ ++ [.ofBuffer buffer (some ())] }

theorem Queues.queued_eq {r : Request} {conn' : Connection Unit} (h : Queues conn r conn') :
    conn'.queued = conn.queued ++ (r.plain ++ r.excess) := by
  obtain ⟨ch, buffer, -, hcontents, rfl⟩ := h
  unfold Connection.queued
  rw [List.flatMap_append, List.flatMap_singleton, IoTask.remaining_buffer rfl rfl, hcontents]

/-- A call through `http_conn_` reaches its connection. -/
theorem through_eq (hi : c.httpConn_ = some i) (hconn : c.connections[i]? = some conn)
    {f : Connection Unit → Exec (Connection Unit)} {conn' : Connection Unit}
    (hf : f conn = .ok conn') :
    c.through f = .ok { c with connections := c.connections.set i conn' } := by
  unfold through
  rw [hi]
  dsimp only
  rw [readAt_eq_ok.mpr hconn, ok_bind, hf]
  rfl

/-- **`sendRequest` hands over the request at the front.** -/
theorem sendRequest_ok (hi : c.httpConn_ = some i) (hconn : c.connections[i]? = some conn)
    (hchan : conn.chan_.isSome) {request : Get H} {requests : List (Get H)}
    (hlist : c.requestLists_ = request :: requests) :
    ∃ conn', Queues conn request.request conn' ∧ c.sendRequest = .ok { c with
      requestLists_ := requests
      sendReqeustLists_ := c.sendReqeustLists_ ++ [request]
      connections := c.connections.set i conn'
      sent := c.sent ++ [request] } := by
  obtain ⟨buffer, hbuffer, hwf, hcontents⟩ := Request.buffer_ok request.wf
  obtain ⟨ch, rest, hsend⟩ := Connection.sendBuffer_ok hchan hwf
    (by rw [hcontents]; exact request.request.plain_ne) (some ())
  refine ⟨_, ⟨ch, buffer, hwf, hcontents, rfl⟩, ?_⟩
  unfold sendRequest
  rw [hlist]
  dsimp only
  rw [hbuffer, ok_bind, through_eq hi hconn (by rw [hsend]; rfl)]
  rfl

/-- `get` on a client with a connection: the new request waits, and the one at the front is sent. -/
theorem get_ok (hi : c.httpConn_ = some i) (hconn : c.connections[i]? = some conn)
    (hchan : conn.chan_.isSome) (request : Get H) :
    ∃ first requests conn', c.requestLists_ ++ [request] = first :: requests ∧
      Queues conn first.request conn' ∧ c.get request = .ok { c with
        requestLists_ := requests
        sendReqeustLists_ := c.sendReqeustLists_ ++ [first]
        connections := c.connections.set i conn'
        gets := c.gets ++ [request]
        sent := c.sent ++ [first] } := by
  obtain ⟨first, requests, hlist⟩ :=
    List.exists_cons_of_ne_nil (List.append_ne_nil_of_right_ne_nil c.requestLists_
      (List.cons_ne_nil request []))
  obtain ⟨conn', hqueues, hsend⟩ := sendRequest_ok
    (c := { c with requestLists_ := c.requestLists_ ++ [request], gets := c.gets ++ [request] })
    hi hconn hchan hlist
  refine ⟨first, requests, conn', hlist, hqueues, ?_⟩
  unfold get
  dsimp only
  rw [if_pos (by rw [hi]; rfl)]
  exact hsend

/-! ## The bytes of one request after the other -/

/-- The bytes that wait on a connection. -/
def queued (c : ClientLink σ H) (i : Nat) : Bytes :=
  match c.connections[i]? with
  | some conn => conn.queued
  | none => []

theorem queued_eq (hconn : c.connections[i]? = some conn) : c.queued i = conn.queued := by
  unfold queued
  rw [hconn]

/-- The connection that a call has changed. -/
theorem connections_set {connections : List (Connection Unit)} {conn' : Connection Unit}
    (hconn : connections[i]? = some conn) : (connections.set i conn')[i]? = some conn' := by
  obtain ⟨hlt, -⟩ := List.getElem?_eq_some_iff.mp hconn
  rw [List.getElem?_set_self hlt]

/-- **Calls of `get` queue a request each, from the front of what waited before.** -/
theorem gets_ok : ∀ (gets : List (Get H)) {c : ClientLink σ H} {conn : Connection Unit},
    c.httpConn_ = some i → c.connections[i]? = some conn → conn.chan_.isSome →
    ∃ c', run get c gets = .ok c' ∧ c'.queued i = c.queued i ++
      ((c.requestLists_ ++ gets).take gets.length).flatMap
        fun g => g.request.plain ++ g.request.excess
  | [], c, _, _, _, _ => ⟨c, rfl, by simp⟩
  | request :: gets, c, conn, hi, hconn, hchan => by
    obtain ⟨first, requests, conn', hlist, hqueues, hget⟩ := get_ok hi hconn hchan request
    have hconn' : (c.connections.set i conn')[i]? = some conn' := connections_set hconn
    have hchan' : conn'.chan_.isSome := by
      obtain ⟨ch, buffer, -, -, rfl⟩ := hqueues
      rfl
    obtain ⟨c', hc', hqueued⟩ := gets_ok gets
      (c := { c with
        requestLists_ := requests
        sendReqeustLists_ := c.sendReqeustLists_ ++ [first]
        connections := c.connections.set i conn'
        gets := c.gets ++ [request]
        sent := c.sent ++ [first] }) hi hconn' hchan'
    refine ⟨c', by rw [run_cons, hget]; exact hc', ?_⟩
    have hsplit : c.requestLists_ ++ request :: gets = first :: (requests ++ gets) := by
      rw [← List.singleton_append, ← List.append_assoc, hlist, List.cons_append]
    rw [hqueued, queued_eq hconn', hqueues.queued_eq, queued_eq hconn, hsplit, List.length_cons,
      List.take_succ_cons, List.flatMap_cons, List.append_assoc]

/-- What was queued on connection `i` since is the plain text of the requests. -/
def AddsPlain (c c' : ClientLink σ H) (i : Nat) (requests : List (Get H)) : Prop :=
  c'.queued i = c.queued i ++ requests.flatMap fun g => g.request.plain

/-- What `sendRequest` adds is at least a byte for each request. -/
theorem length_excess : ∀ requests : List (Get H),
    (requests.flatMap fun g => g.request.plain).length + requests.length ≤
      (requests.flatMap fun g => g.request.plain ++ g.request.excess).length
  | [] => le_rfl
  | g :: requests => by
    have hrest := length_excess requests
    rw [List.flatMap_cons, List.flatMap_cons, List.length_append, List.length_append,
      List.length_append, List.length_cons]
    have hpos : 0 < g.request.excess.length := Nat.succ_pos _
    omega

theorem excess_eq_iff {requests : List (Get H)} :
    ((requests.flatMap fun g => g.request.plain ++ g.request.excess) =
      requests.flatMap fun g => g.request.plain) ↔ requests = [] := by
  constructor
  · intro heq
    have hlen := length_excess requests
    rw [heq] at hlen
    exact List.length_eq_zero_iff.mp (by omega)
  · rintro rfl
    rfl

/--
**No request is queued as its plain text**: whichever call of `sendRequest` sends it, a NUL and the body
follow it once more, so that calls of `get` give the plain concatenation only where there are none.
-/
theorem addsPlain_iff (hi : c.httpConn_ = some i) (hconn : c.connections[i]? = some conn)
    (hchan : conn.chan_.isSome) :
    (∀ request requests, c.requestLists_ = request :: requests → ∃ c', c.sendRequest = .ok c' ∧
      c'.queued i = c.queued i ++ (request.request.plain ++ request.request.excess) ∧
      ¬AddsPlain c c' i [request]) ∧
    ∀ gets : List (Get H), ∃ c', run get c gets = .ok c' ∧
      (AddsPlain c c' i ((c.requestLists_ ++ gets).take gets.length) ↔ gets = []) := by
  constructor
  · intro request requests hlist
    obtain ⟨conn', hqueues, hsend⟩ := sendRequest_ok hi hconn hchan hlist
    have hqueued : ({ c with
        requestLists_ := requests
        sendReqeustLists_ := c.sendReqeustLists_ ++ [request]
        connections := c.connections.set i conn'
        sent := c.sent ++ [request] } : ClientLink σ H).queued i =
        c.queued i ++ (request.request.plain ++ request.request.excess) := by
      rw [queued_eq (connections_set hconn), hqueues.queued_eq, queued_eq hconn]
    refine ⟨_, hsend, hqueued, fun hadds => ?_⟩
    unfold AddsPlain at hadds
    rw [hqueued] at hadds
    have heq := List.append_cancel_left hadds
    exact absurd (excess_eq_iff.mp (by simpa using heq)) (List.cons_ne_nil request [])
  · intro gets
    obtain ⟨c', hc', hqueued⟩ := gets_ok gets hi hconn hchan
    refine ⟨c', hc', ?_⟩
    unfold AddsPlain
    rw [hqueued, List.append_cancel_left_eq, excess_eq_iff, List.take_eq_nil_iff]
    constructor
    · rintro (hzero | hnil)
      · exact List.length_eq_zero_iff.mp hzero
      · exact (List.append_eq_nil_iff.mp hnil).2
    · rintro rfl
      exact Or.inl rfl

/-- A client with a connection on which nothing was sent yet. -/
def connected : ClientLink Unit Unit :=
  { init 0 () with httpConn_ := some 0, connections := [.accepted] }

/-- `GET /` with a body and a handler. -/
def getWith (body : Bytes) (handler : Option Unit) : Get Unit where
  request := {
    method_ := .GET, uri_ := str "/", query_ := [], headers_ := [], body_ := .ofBytes body }
  wf := Buffer.wf_ofBytes body
  handler := handler

theorem addsPlain_iff_connected :
    (∀ request requests, connected.requestLists_ = request :: requests →
      ∃ c', connected.sendRequest = .ok c' ∧ c'.queued 0 =
        connected.queued 0 ++ (request.request.plain ++ request.request.excess) ∧
        ¬AddsPlain connected c' 0 [request]) ∧
    ∀ gets : List (Get Unit), ∃ c', run get connected gets = .ok c' ∧
      (AddsPlain connected c' 0 ((connected.requestLists_ ++ gets).take gets.length) ↔ gets = []) :=
  addsPlain_iff rfl rfl rfl

/-- Two requests, without a body and with one: the second comes after a NUL. -/
theorem not_addsPlain_two :
    ¬∃ c', run get connected [getWith [] none, getWith (str "x") none] = .ok c' ∧
      AddsPlain connected c' 0 [getWith [] none, getWith (str "x") none] := by
  have hqueued : (run get connected [getWith [] none, getWith (str "x") none]).map (queued · 0) = .ok
      (str "GET / HTTP/1.1\r\n\r\n" ++ [0] ++ str "GET / HTTP/1.1\r\n\r\nx" ++ [0] ++ str "x") := by
    decide +kernel
  rintro ⟨c', hc', hadds⟩
  rw [hc'] at hqueued
  unfold AddsPlain at hadds
  have heq := (Except.ok.inj hqueued).symm.trans hadds
  exact absurd heq (by decide +kernel)

end ClientLink

end Http

end Liby
