import Liby.Http.ClientRecord
import Liby.Http.ReplyRoundTrip

/-!
# Requests and replies match

A client whose reply handlers call `get` at most, and to which whole replies come, for requests that it
has sent. The replies that have come and wait for the loop are the rest of what has arrived; each of them
has its request in `sendReqeustLists_`.
-/

namespace Liby.Http

open Infra

variable {σ H : Type _}

/-- The client, the replies that have arrived so far, and the requests that were given to `get`. -/
structure Matching (σ H : Type _) where
  client : ClientLink σ H
  arrived : List WholeReply
  gets : List (Get H)

/-- What happens to the client: calls of `get`, a connection, completions, replies, and the loop. -/
inductive MatchEvent (H : Type _) where
  | get (request : Get H)
  | connected
  | completed (i : Nat)
  | replies (i : Nat) (replies : List WholeReply)
  | pass

namespace Matching

/-- A client as it is constructed. -/
def init (status_ : Int) (world : σ) : Matching σ H where
  client := .init status_ world
  arrived := []
  gets := []

/--
What an event does. A reply answers a request that was sent before. A pass that has handed over a reply
has called `get` for the requests that the reply's handler gives to it.
-/
def step (handle : ReplyHandle σ H) (m : Matching σ H) : MatchEvent H → Exec (Matching σ H)
  | .get request => do
    let client ← m.client.step handle (.get request)
    return { m with client := client, gets := m.gets ++ [request] }
  | .connected => do
    let client ← m.client.step handle .connected
    return { m with client := client }
  | .completed i => do
    let client ← m.client.step handle (.completed i)
    return { m with client := client }
  | .pass => do
    let client ← m.client.step handle .pass
    let handed := client.replied.drop m.client.replied.length
    return { m with
      client := client, gets := m.gets ++ handed.flatMap (handlerGets handle m.client.world) }
  | .replies i replies => do
    guardOr .environment (m.arrived.length + replies.length ≤ m.client.sent.length)
    let client ← m.client.step handle (.arrived i (replies.flatMap WholeReply.bytes))
    return { m with client := client, arrived := m.arrived ++ replies }

end Matching

/-- Handlers that call nothing but `get`. -/
def OnlyGets (handle : ReplyHandle σ H) : Prop :=
  ∀ world handler p response, handle world handler p = some response →
    ∀ call ∈ response.calls, ∃ request, call = .get request

/-- The exception of a handler. -/
def Throws (handle : ReplyHandle σ H) (f : Fault) : Prop :=
  f = .exception ∧ ∃ world handler p, handle world handler p = none

namespace ClientLink

variable {c c' : ClientLink σ H} {i : Nat} {conn : Connection Unit} {handle : ReplyHandle σ H}

/-! ## A pass -/

/-- **What a pass takes when a whole reply is there.** -/
theorem take_whole (hparser : Cleared c.parser_)
    (hconn : c.connections[i]? = some conn) (hserved : Served conn) (r : WholeReply) {rest : Bytes}
    (hcontents : conn.readBuf_.contents = r.bytes ++ rest) :
    ∃ p readBuf, c.take i = .ok { c with
        parser_ := p, connections := c.connections.set i { conn with readBuf_ := readBuf } } ∧
      readBuf.Readable ∧ readBuf.contents = rest ∧ p.isGood = true ∧ p.isError = false ∧
      p.content_.Wf ∧ p.told = r.told := by
  obtain ⟨block, left, right, g, b, -, hrange, hg, hcount, hretrieve, hwf, hrest, hgood, herror,
    hcontent, htold⟩ := r.read hparser hserved.readBuf.wf hcontents
  have hblock : b.buffer_.isSome := by
    rw [Buffer.retrieve_buffer hretrieve]
    exact hserved.readBuf.block
  refine ⟨g.parser, b, ?_, ⟨hwf, hblock⟩, hrest, hgood, herror, hcontent, htold⟩
  unfold take
  rw [readAt_eq_ok.mpr hconn, ok_bind, hrange, ok_bind]
  dsimp only
  rw [hg, ok_bind, hcount, ok_bind, hretrieve]
  rfl

/-- Calls of `get` that a handler makes. -/
theorem calls_ok : ∀ {calls : List (GetCall H)} {c : ClientLink σ H},
    (∀ call ∈ calls, ∃ request, call = .get request) → Linked c → Covered c →
    ∃ c', run call c calls = .ok c' ∧ Linked c' ∧ Grows c c' ∧ Covered c'
  | [], c, _, h, hcovered => ⟨c, rfl, h, .refl c, hcovered⟩
  | x :: calls, c, honly, h, _ => by
    obtain ⟨request, rfl⟩ := honly x List.mem_cons_self
    obtain ⟨c1, hc1, hlinked1, hgrows1, hcovered1⟩ := h.get request
    obtain ⟨c', hc', hlinked, hgrows, hcovered⟩ :=
      calls_ok (fun call hcall => honly call (List.mem_cons_of_mem _ hcall)) hlinked1 hcovered1
    refine ⟨c', ?_, hlinked, hgrows1.trans hgrows, hcovered⟩
    rw [run_cons]
    show (c.get request >>= _) = _
    rw [hc1]
    exact hc'

/-- What a reply has changed: its request is no longer waited for, and what the handler has sent is. -/
structure Replied (c c' : ClientLink σ H) (first : Get H) (waiting : List (Get H)) : Prop where
  linked : Linked c'
  covered : Covered c'
  parser : Cleared c'.parser_
  reading : c'.reading = c.reading
  replied : c'.replied = c.replied ++ [(first, c.parser_)]
  connections : Each Same c.connections c'.connections
  httpConn : c'.httpConn_ = c.httpConn_
  order : c.gets = c.sent ++ c.requestLists_ → c'.gets = c'.sent ++ c'.requestLists_
  sends : ∃ new, c'.sent = c.sent ++ new ∧ c'.sendReqeustLists_ = waiting ++ new

/-- **The handler of the first request that waits gets the reply.** -/
theorem Linked.reply (h : Linked c) (hcovered : Covered c) (honly : OnlyGets handle)
    (hwf : c.parser_.content_.Wf) {first : Get H} {waiting : List (Get H)}
    (hlist : c.sendReqeustLists_ = first :: waiting) :
    Outcome (Throws handle) (fun c' => Replied c c' first waiting) (c.reply handle) := by
  have hafter : Outcome (Throws handle)
      (fun c1 : ClientLink σ H => Linked c1 ∧ Covered c1 ∧ c1.parser_.content_.Wf ∧
        c1.reading = c.reading ∧ c1.replied = c.replied ∧ Each Same c.connections c1.connections ∧
        c1.httpConn_ = c.httpConn_ ∧
        (c.gets = c.sent ++ c.requestLists_ → c1.gets = c1.sent ++ c1.requestLists_) ∧
        ∃ new, c1.sent = c.sent ++ new ∧ c1.sendReqeustLists_ = c.sendReqeustLists_ ++ new)
      (c.callHandler handle first.handler) := by
    unfold callHandler
    split
    · exact ⟨h, hcovered, hwf, rfl, rfl, .refl .refl _, rfl, id,
        [], (List.append_nil _).symm, (List.append_nil _).symm⟩
    · next handler hhandler =>
      split
      · next hnone => exact ⟨rfl, _, _, _, hnone⟩
      · next response hresponse =>
        obtain ⟨c1, hc1, hlinked1, hgrows1, hcovered1⟩ := calls_ok
          (c := { c with
            world := response.world
            parser_ := { c.parser_ with content_ := response.content_ } })
          (honly _ _ _ _ hresponse) ⟨h.served, h.conn⟩ hcovered
        rw [hc1]
        refine ⟨hlinked1, hcovered1, ?_, hgrows1.reading, hgrows1.replied, hgrows1.connections,
          hgrows1.httpConn, hgrows1.order, hgrows1.sends⟩
        rw [hgrows1.parser]
        exact response.wf
  unfold ClientLink.reply
  rw [hlist]
  refine hafter.bind fun c1 ⟨hlinked, hcov, hwf1, hreading, hreplied, hconns, hhttp, horder, hsends⟩ => ?_
  obtain ⟨new, hsent, hlists⟩ := hsends
  exact ⟨⟨hlinked.served, hlinked.conn⟩, hcov, cleared_clear hwf1, hreading,
    congrArg (· ++ [(first, c.parser_)]) hreplied, hconns, hhttp, horder,
    new, hsent, by show c1.sendReqeustLists_.tail = _; rw [hlists, hlist]; rfl⟩

end ClientLink

/-! ## The invariant -/

namespace Matching

open ClientLink

variable {m : Matching σ H} {c c' : ClientLink σ H} {rest : List WholeReply} {i : Nat}
  {handle : ReplyHandle σ H}

/--
What holds of a client whose loop has `rest` before it. What waits on the connection of the loop are
the bytes of `rest`, and nothing waits elsewhere.
-/
structure Inv (c : ClientLink σ H) (arrived rest : List WholeReply) : Prop where
  linked : Linked c
  parser : Cleared c.parser_
  alive : ∀ conn ∈ c.connections, conn.destroy_ = false
  order : c.gets = c.sent ++ c.requestLists_
  waiting : c.sent = c.replied.map Prod.fst ++ c.sendReqeustLists_
  told : arrived.map WholeReply.told = c.replied.map (fun r => r.2.told) ++ rest.map WholeReply.told
  known : arrived.length ≤ c.sent.length
  unread : ∀ (i : Nat) (conn : Connection Unit), c.connections[i]? = some conn →
    conn.readBuf_.contents = if c.reading = some i then rest.flatMap WholeReply.bytes else []
  idle : c.reading = none → rest = []
  inside : ∀ i, c.reading = some i → i < c.connections.length
  unconnected : c.httpConn_ = none → c.connections = []

variable {arrived : List WholeReply}

theorem inv_init (status_ : Int) (world : σ) :
    Inv (.init status_ world : ClientLink σ H) [] [] where
  linked := ⟨fun _ hconn => (by cases hconn), fun _ hi => (by cases hi)⟩
  parser := cleared_init status_
  alive := fun _ hconn => by cases hconn
  order := rfl
  waiting := rfl
  told := rfl
  known := le_rfl
  unread := fun _ _ hconn => by cases hconn
  idle := fun _ => rfl
  inside := fun _ hi => by cases hi
  unconnected := fun _ => rfl

theorem alive_set {connections : List (Connection Unit)} {conn' : Connection Unit}
    (h : ∀ conn ∈ connections, conn.destroy_ = false) (halive : conn'.destroy_ = false) :
    ∀ conn ∈ connections.set i conn', conn.destroy_ = false := fun conn hconn => by
  rcases List.mem_or_eq_of_mem_set hconn with hconn | rfl
  · exact h conn hconn
  · exact halive

theorem alive_each (h : ∀ conn ∈ c.connections, conn.destroy_ = false)
    (heach : Each Same c.connections c'.connections) :
    ∀ conn ∈ c'.connections, conn.destroy_ = false := fun conn' hconn' => by
  obtain ⟨i, hi⟩ := List.mem_iff_getElem?.mp hconn'
  obtain ⟨conn, hconn, hsame⟩ := heach.backward hi
  rw [hsame.destroy]
  exact h conn (List.mem_of_getElem? hconn)

theorem length_each {before after : List (Connection Unit)} (heach : Each Same before after)
    (hi : i < before.length) : i < after.length := by
  obtain ⟨conn', hconn', -⟩ := heach.forward (List.getElem?_eq_getElem hi)
  exact (List.getElem?_eq_some_iff.mp hconn').1

theorem nil_each {before after : List (Connection Unit)} (heach : Each Same before after)
    (hnil : before = []) : after = [] := by
  refine List.eq_nil_iff_forall_not_mem.mpr fun conn' hconn' => ?_
  obtain ⟨i, hi⟩ := List.mem_iff_getElem?.mp hconn'
  obtain ⟨conn, hconn, -⟩ := heach.backward hi
  rw [hnil] at hconn
  cases hconn

/-- **Calls of `get` and completions keep the invariant.** -/
theorem Inv.grows (h : Inv c arrived rest) (hlinked : Linked c') (hgrows : Grows c c') :
    Inv c' arrived rest where
  linked := hlinked
  parser := by
    rw [hgrows.parser]
    exact h.parser
  alive := alive_each h.alive hgrows.connections
  order := hgrows.order h.order
  waiting := by
    obtain ⟨new, hsent, hlist⟩ := hgrows.sends
    rw [hsent, hlist, hgrows.replied, h.waiting, List.append_assoc]
  told := by
    rw [hgrows.replied]
    exact h.told
  known := by
    obtain ⟨new, hsent, -⟩ := hgrows.sends
    have hknown := h.known
    rw [hsent, List.length_append]
    omega
  unread := fun i conn' hconn' => by
    obtain ⟨conn, hconn, hsame⟩ := hgrows.connections.backward hconn'
    rw [hsame.readBuf, hgrows.reading]
    exact h.unread i conn hconn
  idle := fun hidle => h.idle (hgrows.reading.symm.trans hidle)
  inside := fun i hi => by
    rw [hgrows.reading] at hi
    exact length_each hgrows.connections (h.inside i hi)
  unconnected := fun hnone =>
    nil_each hgrows.connections (h.unconnected (hgrows.httpConn.symm.trans hnone))

/-- Outside of the loop there may be one more connection. -/
theorem Inv.joined (h : Inv c arrived rest) (hidle : c.reading = none) :
    Inv c.joined arrived rest where
  linked := h.linked.joined
  parser := h.parser
  alive := fun conn hconn => by
    rcases List.mem_append.mp hconn with hconn | hconn
    · exact h.alive conn hconn
    · rw [List.mem_singleton.mp hconn]
      rfl
  order := h.order
  waiting := h.waiting
  told := h.told
  known := h.known
  unread := fun i conn hconn => by
    have hnone : ¬c.joined.reading = some i := fun hi => by
      cases hi.symm.trans hidle
    rw [if_neg hnone]
    rcases List.mem_append.mp (List.mem_of_getElem? hconn) with hconn | hconn
    · obtain ⟨j, hj⟩ := List.mem_iff_getElem?.mp hconn
      have hempty := h.unread j conn hj
      rwa [if_neg (by simp [hidle])] at hempty
    · rw [List.mem_singleton.mp hconn]
      rfl
  idle := h.idle
  inside := fun i hi => by cases hi.symm.trans hidle
  unconnected := fun hnone => by cases hnone

/-! ## The loop -/

/-- What waits for the loop. -/
theorem Inv.reading_ok (h : Inv c arrived rest) (hi : c.reading = some i) :
    ∃ conn, c.connections[i]? = some conn ∧ conn.destroy_ = false ∧ Served conn ∧
      conn.readBuf_.contents = rest.flatMap WholeReply.bytes := by
  have hlt := h.inside i hi
  have hconn := List.getElem?_eq_getElem hlt
  have halive := h.alive _ (List.mem_of_getElem? hconn)
  have hunread := h.unread i _ hconn
  rw [if_pos hi] at hunread
  exact ⟨_, hconn, halive, h.linked.served _ (List.mem_of_getElem? hconn) halive, hunread⟩

/-- With nothing left, the loop ends. -/
theorem Inv.pass_nil (h : Inv c arrived []) (hi : c.reading = some i) :
    c.pass handle = .ok { c with reading := none } ∧ Inv { c with reading := none } arrived [] := by
  obtain ⟨conn, hconn, -, hserved, hcontents⟩ := h.reading_ok hi
  have hempty : conn.readBuf_.empty = true := hserved.readBuf.wf.empty_iff.mpr hcontents
  constructor
  · unfold ClientLink.pass
    rw [hi]
    dsimp only
    rw [readAt_eq_ok.mpr hconn, ok_bind, if_pos hempty]
    rfl
  · refine ⟨⟨h.linked.served, h.linked.conn⟩, h.parser, h.alive, h.order, h.waiting, h.told, h.known,
      fun j conn' hconn' => ?_, fun _ => rfl, fun j hj => (by cases hj), h.unconnected⟩
    have hunread := h.unread j conn' hconn'
    rw [List.flatMap_nil, ite_self] at hunread
    rw [List.flatMap_nil, ite_self, hunread]

/-- **A pass hands over the reply at the front.** -/
theorem Inv.pass_cons {r : WholeReply} (h : Inv c arrived (r :: rest)) (hcovered : Covered c)
    (honly : OnlyGets handle) (hi : c.reading = some i) :
    Outcome (Throws handle) (fun c' => Inv c' arrived rest ∧ Covered c' ∧ c'.reading = some i)
      (c.pass handle) := by
  obtain ⟨conn, hconn, halive, hserved, hcontents⟩ := h.reading_ok hi
  rw [List.flatMap_cons] at hcontents
  obtain ⟨p, readBuf, htake, hreadable, hleft, hgood, herror, hwf, htold⟩ :=
    take_whole h.parser hconn hserved r hcontents
  let conn1 := { conn with readBuf_ := readBuf }
  let c1 := { c with parser_ := p, connections := c.connections.set i conn1 }
  have hfull : ¬conn.readBuf_.empty = true := by
    rw [hserved.readBuf.wf.empty_iff, hcontents]
    exact List.append_ne_nil_of_left_ne_nil r.nonempty _
  have hserved1 : Served conn1 :=
    ⟨hserved.chan, hserved.onRead, hserved.onErro, hreadable, hserved.tasks⟩
  have hlinked1 : Linked c1 := h.linked.set hconn (fun _ => hserved1) rfl rfl rfl
  -- the reply belongs to a request that was sent, and its handler has not got one yet
  obtain ⟨first, waiting, hlist⟩ : ∃ first waiting, c.sendReqeustLists_ = first :: waiting := by
    refine List.exists_cons_of_ne_nil fun hnil => ?_
    have hlen := congrArg List.length h.told
    have hsent := congrArg List.length h.waiting
    have hknown := h.known
    rw [hnil, List.append_nil, List.length_map] at hsent
    rw [List.length_map, List.length_append, List.length_map, List.length_map, List.length_cons] at hlen
    omega
  have hpass : c.pass handle = c1.reply handle := by
    unfold ClientLink.pass
    rw [hi]
    dsimp only
    rw [readAt_eq_ok.mpr hconn, ok_bind, if_neg hfull, htake, ok_bind, if_neg (by simp [herror]),
      if_pos hgood]
  rw [hpass]
  have hcovered1 : Covered c1 := hcovered.set hconn rfl rfl rfl rfl
  refine (hlinked1.reply hcovered1 honly hwf hlist).imp fun c' hreplied => ?_
  obtain ⟨new, hsent, hlists⟩ := hreplied.sends
  have halive1 : ∀ conn ∈ c1.connections, conn.destroy_ = false := alive_set h.alive halive
  refine ⟨⟨hreplied.linked, hreplied.parser, alive_each halive1 hreplied.connections,
    hreplied.order h.order, ?_, ?_, ?_, fun j x hx => ?_, fun hnone => ?_, fun j hj => ?_,
    fun hnone => ?_⟩,
    hreplied.covered, hreplied.reading.trans hi⟩
  · rw [hsent, hlists, hreplied.replied]
    show c.sent ++ new = _
    rw [h.waiting, hlist]
    simp [c1]
  · rw [h.told, hreplied.replied, List.map_append]
    simp [c1, htold]
  · have hknown := h.known
    rw [hsent, List.length_append]
    exact Nat.le_add_right_of_le hknown
  · obtain ⟨x1, hx1, hsame⟩ := hreplied.connections.backward hx
    rw [hsame.readBuf, hreplied.reading]
    by_cases hij : i = j
    · subst hij
      cases (connections_set hconn).symm.trans hx1
      rw [if_pos hi]
      exact hleft
    · have hij' : ¬c.reading = some j := fun hj => hij (Option.some.inj (hi.symm.trans hj))
      have hunread := h.unread j x1 (by rwa [List.getElem?_set_ne hij] at hx1)
      rw [if_neg hij'] at hunread
      rw [if_neg hij', hunread]
  · cases (hreplied.reading.trans hi).symm.trans hnone
  · refine length_each hreplied.connections ?_
    rw [List.length_set]
    exact h.inside j (hreplied.reading.symm.trans hj)
  · have hnil := h.unconnected (hreplied.httpConn.symm.trans hnone)
    rw [hnil] at hconn
    cases hconn

/-! ## Every run -/

/--
The client's record is what the events show: the requests given to `get`, and the handlers called, each with
its own reply.
-/
structure Recorded (handle : ReplyHandle σ H) (world : σ) (m : Matching σ H) : Prop where
  gets : m.client.gets = m.gets
  world : m.client.world = m.client.replied.foldl (worldAfter handle) world

theorem Recorded.step {world : σ} {m' : Matching σ H} {e : MatchEvent H} (h : Recorded handle world m)
    (hstep : m.step handle e = .ok m') : Recorded handle world m' := by
  have hkeep : ∀ {c' : ClientLink σ H} {arrived : List WholeReply}, Notes m.client c' [] →
      Recorded handle world { m with client := c', arrived := arrived } := by
    intro c' arrived hnotes
    refine ⟨(hnotes.gets.trans (List.append_nil _)).trans h.gets, ?_⟩
    rw [hnotes.world, hnotes.replied]
    exact h.world
  cases e with
  | get request =>
    obtain ⟨c', hc', hs⟩ := bind_eq_ok.mp hstep
    cases hs
    obtain ⟨_, -, hc'⟩ := bind_eq_ok.mp hc'
    have hnotes := notes_get hc'
    refine ⟨hnotes.gets.trans (congrArg (· ++ [request]) h.gets), ?_⟩
    rw [hnotes.world, hnotes.replied]
    exact h.world
  | connected =>
    obtain ⟨c', hc', hs⟩ := bind_eq_ok.mp hstep
    cases hs
    obtain ⟨_, -, hc'⟩ := bind_eq_ok.mp hc'
    exact hkeep (notes_handleConnection hc')
  | completed i =>
    obtain ⟨c', hc', hs⟩ := bind_eq_ok.mp hstep
    cases hs
    exact hkeep (notes_completed hc')
  | replies i replies =>
    obtain ⟨_, -, hstep⟩ := bind_eq_ok.mp hstep
    obtain ⟨c', hc', hs⟩ := bind_eq_ok.mp hstep
    cases hs
    exact hkeep (notes_arrived hc')
  | pass =>
    obtain ⟨c', hc', hs⟩ := bind_eq_ok.mp hstep
    cases hs
    rcases record_pass hc' with hnotes | ⟨r, hr⟩
    · -- no reply was handed over
      rw [hnotes.replied, List.drop_length, List.flatMap_nil, List.append_nil]
      exact hkeep hnotes
    · rw [hr.replied, List.drop_left, List.flatMap_singleton]
      refine ⟨hr.gets.trans (congrArg (· ++ _) h.gets), ?_⟩
      rw [hr.world, hr.replied, List.foldl_append, ← h.world]
      rfl

/-- The invariant, with all that waits covered. -/
def Kept (m : Matching σ H) : Prop := ∃ rest, Inv m.client m.arrived rest ∧ Covered m.client

/-- An event that the environment cannot cause, or the exception of a handler. -/
def Allowed (handle : ReplyHandle σ H) (f : Fault) : Prop := f = .environment ∨ Throws handle f

/-- Whole replies are put where the loop takes them. -/
theorem Inv.arrived_ok (h : Inv c arrived rest) (i : Nat) (replies : List WholeReply)
    (hknown : arrived.length + replies.length ≤ c.sent.length) :
    Guarantees (fun c' => Inv c' (arrived ++ replies) replies ∧ (Covered c → Covered c'))
      (c.arrived i (replies.flatMap WholeReply.bytes)) := by
  unfold ClientLink.arrived ClientLink.alive
  split
  · next conn hreading hconn =>
    split
    · rfl
    next halive =>
    have halive : conn.destroy_ = false := by simpa using halive
    have hserved := h.linked.served conn (List.mem_of_getElem? hconn) halive
    -- the buffer has no rest of an earlier reply
    have hempty := h.unread i conn hconn
    rw [if_neg (by simp [hreading])] at hempty
    rw [ok_bind]
    refine (Connection.receive_ok hserved.readBuf _).bind ?_
    rintro conn1 ⟨-, buffer, rfl, hreadable, hcontents⟩
    rw [hempty, List.nil_append] at hcontents
    dsimp only
    rw [if_pos hserved.onRead]
    let conn1 := { conn with readBuf_ := buffer }
    have hserved1 : Served conn1 :=
      ⟨hserved.chan, hserved.onRead, hserved.onErro, hreadable, hserved.tasks⟩
    let c1 := { c with connections := c.connections.set i conn1, reading := some i }
    have hlinked1 : Linked c1 := h.linked.set hconn (fun _ => hserved1) rfl rfl rfl
    have hrest := h.idle hreading
    refine (⟨⟨hlinked1, h.parser, alive_set h.alive halive, h.order, h.waiting, ?_, ?_,
      fun j x hx => ?_, fun hnone => (by cases hnone), fun j hj => ?_, fun hnone => ?_⟩,
      fun hcovered => hcovered.set hconn rfl rfl rfl rfl⟩ :
      Inv c1 (arrived ++ replies) replies ∧ (Covered c → Covered c1))
    · rw [List.map_append, h.told, hrest, List.map_nil, List.append_nil]
    · rw [List.length_append]
      exact hknown
    · by_cases hij : i = j
      · subst hij
        cases (connections_set hconn).symm.trans hx
        rw [if_pos rfl]
        exact hcontents
      · have hunread := h.unread j x (by rwa [List.getElem?_set_ne hij] at hx)
        rw [if_neg (by simp [hreading])] at hunread
        rw [if_neg (by simpa [c1] using hij), hunread]
    · cases hj
      rw [List.length_set]
      exact (List.getElem?_eq_some_iff.mp hconn).1
    · rw [h.unconnected hnone] at hconn
      cases hconn
  · rfl

/-- **Every event keeps the invariant.** -/
theorem step_kept (honly : OnlyGets handle) (m : Matching σ H) (e : MatchEvent H) (hm : Kept m) :
    Outcome (Allowed handle) Kept (m.step handle e) := by
  obtain ⟨rest, h, hcovered⟩ := hm
  cases e with
  | get request =>
    obtain ⟨c', hc', hlinked, hgrows, hcovered'⟩ := h.linked.get request
    refine Outcome.bind (P := fun c => Inv c m.arrived rest ∧ Covered c) ?_
      fun c hc => ⟨rest, hc⟩
    refine Outcome.guard (.inl rfl) fun _ => ?_
    rw [hc']
    exact ⟨h.grows hlinked hgrows, hcovered'⟩
  | connected =>
    obtain ⟨c', hc', hlinked, hgrows, hcovered'⟩ := h.linked.handleConnection
    refine Outcome.bind (P := fun c => Inv c m.arrived rest ∧ Covered c) ?_
      fun c hc => ⟨rest, hc⟩
    refine Outcome.guard (.inl rfl) fun hidle => ?_
    rw [hc']
    exact ⟨(h.joined hidle).grows hlinked hgrows, hcovered'⟩
  | completed i =>
    refine Outcome.bind (P := fun c => Inv c m.arrived rest ∧ Covered c) ?_
      fun c hc => ⟨rest, hc⟩
    refine Guarantees.outcome ?_ (.inl rfl)
    -- without a connection no connect is due
    by_cases hsome : m.client.httpConn_.isSome
    · refine (h.linked.completed hsome i).imp_ok fun c' _ ⟨hlinked, hgrows, hcovered'⟩ => ?_
      exact ⟨h.grows hlinked hgrows, hcovered'⟩
    · show Guarantees _ (m.client.completed i)
      unfold ClientLink.completed alive
      rw [h.unconnected (by simpa using hsome)]
      simp
  | replies i replies =>
    refine Outcome.guard (.inl rfl) fun hknown => ?_
    refine ((h.arrived_ok i replies hknown).outcome (.inl rfl)).bind fun c' ⟨h', hcovered'⟩ => ?_
    exact ⟨replies, h', hcovered' hcovered⟩
  | pass =>
    refine Outcome.bind (P := fun c => ∃ rest, Inv c m.arrived rest ∧ Covered c) ?_ fun c hc => hc
    show Outcome (Allowed handle) _ (m.client.pass handle)
    cases hi : m.client.reading with
    | none =>
      unfold ClientLink.pass
      rw [hi]
      exact .inl rfl
    | some i =>
      -- no reply is left, or the next one is handed over
      cases rest with
      | nil =>
        obtain ⟨hpass, h'⟩ : m.client.pass handle = .ok { m.client with reading := none } ∧ _ :=
          h.pass_nil hi
        rw [hpass]
        exact ⟨[], h', hcovered⟩
      | cons r rest =>
        have hpass := h.pass_cons hcovered honly hi
        revert hpass
        cases m.client.pass handle with
        | error f => exact fun hf => .inr hf
        | ok c' => exact fun hc' => ⟨rest, hc'.1, hc'.2.1⟩

/-- The loop over what has arrived comes to its end. -/
theorem Inv.passes (honly : OnlyGets handle) : ∀ {rest : List WholeReply} {c : ClientLink σ H}
    {gets : List (Get H)}, Inv c arrived rest → Covered c → c.reading = some i →
    Outcome (Throws handle) (fun m => Kept m ∧ m.arrived = arrived ∧ m.client.reading = none)
      (run (step handle) { client := c, arrived := arrived, gets := gets }
        (List.replicate (rest.length + 1) .pass))
  | [], c, gets, h, hcovered, hi => by
    obtain ⟨hpass, h'⟩ : c.pass handle = .ok { c with reading := none } ∧ _ := h.pass_nil hi
    rw [List.length_nil, List.replicate_succ, List.replicate_zero, run_cons]
    show Outcome _ _ ((c.pass handle >>= fun client => _) >>= _)
    rw [hpass]
    exact ⟨⟨[], h', hcovered⟩, rfl, rfl⟩
  | r :: rest, c, gets, h, hcovered, hi => by
    have hpass := h.pass_cons hcovered honly hi
    rw [List.length_cons, List.replicate_succ, run_cons]
    show Outcome _ _ ((c.pass handle >>= fun client => _) >>= _)
    rw [bind_assoc]
    exact hpass.bind fun c' ⟨h', hcovered', hi'⟩ => Inv.passes honly h' hcovered' hi'

/-- A `send` is to be completed whose handler, the one of `sendRequest`, will send what waits. -/
def Outstanding (c : ClientLink σ H) : Prop :=
  c.httpConn_.isSome → c.requestLists_ ≠ [] → ∃ conn ∈ c.connections, conn.destroy_ = false ∧
    ∃ task ∈ conn.writTasks_, task.handler_ = some ()

theorem Inv.outstanding (h : Inv c arrived rest) (hcovered : Covered c) : Outstanding c := by
  intro hsome hne
  obtain ⟨conn, hconn, htasks⟩ := hcovered hsome hne
  have halive := h.alive conn hconn
  obtain ⟨task, tasks, hcons⟩ := List.exists_cons_of_ne_nil htasks
  have htask : task ∈ conn.writTasks_ := by
    rw [hcons]
    exact List.mem_cons_self
  exact ⟨conn, hconn, halive, task, htask, (h.linked.served conn hconn halive).tasks task htask⟩

/--
Requests are sent once each, in the order of `get`, replies belong to requests in the order in which
they were sent, and each reply that has arrived was handed over once the loop is over. The handlers called
are those of these requests, each with its reply, and no others. For what waits while there is a connection
a completion is outstanding.
-/
structure Matched (handle : ReplyHandle σ H) (world : σ) (m : Matching σ H) : Prop where
  order : m.gets = m.client.sent ++ m.client.requestLists_
  waiting : m.client.sent = m.client.replied.map Prod.fst ++ m.client.sendReqeustLists_
  told : m.client.replied.map (fun r => r.2.told) <+: m.arrived.map WholeReply.told
  settled : m.client.reading = none →
    m.client.replied.map (fun r => r.2.told) = m.arrived.map WholeReply.told
  handled : m.client.world = m.client.replied.foldl (worldAfter handle) world
  outstanding : Outstanding m.client

theorem Kept.matched {world : σ} (hm : Kept m) (hrecord : Recorded handle world m) :
    Matched handle world m := by
  obtain ⟨rest, h, hcovered⟩ := hm
  refine ⟨hrecord.gets.symm.trans h.order, h.waiting, ?_, fun hidle => ?_, hrecord.world,
    h.outstanding hcovered⟩
  · rw [h.told]
    exact List.prefix_append _ _
  · rw [h.told, h.idle hidle, List.map_nil, List.append_nil]

/--
**Requests and replies match in every run**: the only faults are those of the environment and the
exceptions of handlers, and the loop over what has arrived comes to its end.
-/
theorem run_matched (honly : OnlyGets handle) (status_ : Int) (world : σ) (es : List (MatchEvent H)) :
    Outcome (Allowed handle) (fun m => Matched handle world m ∧ ∃ n, Outcome (Throws handle)
        (fun m' => Matched handle world m' ∧ m'.arrived = m.arrived ∧ m'.client.reading = none)
        (run (step handle) m (List.replicate n .pass)))
      (run (step handle) (init status_ world) es) := by
  have hinit : Kept (init status_ world : Matching σ H) :=
    ⟨[], inv_init status_ world, fun hsome => by cases hsome⟩
  have hrecord : Recorded handle world (init status_ world : Matching σ H) := ⟨rfl, rfl⟩
  refine Outcome.imp_ok (run_outcome (step_kept honly) es hinit) fun m hrun hm => ?_
  have hrecord := run_invariant (fun _ _ _ h hs => h.step hs) hrecord hrun
  refine ⟨hm.matched hrecord, ?_⟩
  obtain ⟨rest, h, hcovered⟩ := hm
  cases hi : m.client.reading with
  | none => exact ⟨0, Kept.matched ⟨rest, h, hcovered⟩ hrecord, rfl, hi⟩
  | some i =>
    refine ⟨rest.length + 1, Outcome.imp_ok (h.passes honly hcovered hi)
      fun m' hrun' ⟨hm', harrived, hidle⟩ => ?_⟩
    exact ⟨hm'.matched (run_invariant (fun _ _ _ h hs => h.step hs) hrecord hrun'), harrived, hidle⟩

/-- A reply without a body. -/
def notFound : WholeReply :=
  ReplyText.toWhole {
    status := 404
    number := str "404"
    reason := str "Not Found"
    headers := [{
      name := str "Content-Length"
      value := str " 0"
      name_ne := contentLength_ne
      name_token := contentLength_token
      value_line := by decide }]
    body := []
    status_known := by decide
    reason_line := by decide
    length_header := by decide
    length_value := by
      intro h hh _
      rw [List.mem_singleton.mp hh]
      exact @writesNumber_blank (str "0") (by decide) (by decide +kernel) }
    (by unfold ReplyText.Filled; decide) (by decide)

/-- A handler that takes the content, and calls `get` the first time. -/
def getAgain : ReplyHandle Bool Unit := fun first _ _ =>
  some {
    world := false, content_ := .init, wf := Buffer.wf_init
    calls := if first then [.get (getWith [] (some ()))] else [] }

/-- Two requests before there is a connection, and a third one that the first handler makes. -/
def twoReplies : List (MatchEvent Unit) :=
  [.get (getWith [] (some ())), .get (getWith [] (some ())), .connected, .completed 0, .replies 0 [notFound, notFound],
    .pass, .pass, .pass]

theorem run_matched_again :
    ∃ m, run (step getAgain) (init 0 true) twoReplies = .ok m ∧ Matched getAgain true m ∧
      m.client.replied.length = 2 ∧ m.client.sent.length = 3 ∧ m.client.world = false := by
  have honly : OnlyGets getAgain := by
    intro world handler p response hresponse call hcall
    unfold getAgain at hresponse
    rw [Option.some.injEq] at hresponse
    subst hresponse
    cases world with
    | false => cases hcall
    | true => exact ⟨_, List.mem_singleton.mp hcall⟩
  have hcounts : (run (step getAgain) (init 0 true) twoReplies).map
      (fun m => (m.client.replied.length, m.client.sent.length, m.client.world))
        = .ok (2, 3, false) := by
    decide +kernel
  cases hm : run (step getAgain) (init 0 true) twoReplies with
  | error f =>
    rw [hm] at hcounts
    cases hcounts
  | ok m =>
    rw [hm] at hcounts
    simp only [Except.map, Except.ok.injEq, Prod.mk.injEq] at hcounts
    have hmatched := Outcome.of_ok (run_matched honly 0 true _) hm
    exact ⟨m, rfl, hmatched.1, hcounts⟩

end Matching

end Liby.Http
