import Liby.Http.ClientSends

/-!
# The client and its connections

A connection that is not destroyed has a channel, a block to read into and the callbacks of the client,
and its tasks are those of `sendRequest`; `http_conn_` points at such a connection. Every call keeps that
(`Linked`), and leaves alone what a reply needs (`Keeps`).
-/

namespace Liby.Http

open Infra

variable {σ H : Type _}

namespace ClientLink

variable {c c' c'' : ClientLink σ H} {i : Nat} {conn conn' conn'' : Connection Unit}

/-- A connection as the client has set it up. -/
structure Served (conn : Connection Unit) : Prop where
  chan : conn.chan_.isSome
  onRead : conn.readEventCallback_ = true
  onErro : conn.erroEventCallback_ = true
  readBuf : conn.readBuf_.Readable
  tasks : ∀ t ∈ conn.writTasks_, t.handler_ = some ()

theorem served_accepted : Served .accepted where
  chan := rfl
  onRead := rfl
  onErro := rfl
  readBuf := Buffer.readable_ofLength 1024
  tasks := fun _ ht => by cases ht

/-- The connections are served, and `http_conn_` is one that is not destroyed. -/
structure Linked (c : ClientLink σ H) : Prop where
  served : ∀ conn ∈ c.connections, conn.destroy_ = false → Served conn
  conn : ∀ i, c.httpConn_ = some i →
    ∃ conn, c.connections[i]? = some conn ∧ conn.destroy_ = false

/-- Something is on its way whose completion will call `sendRequest` for what waits. -/
def Covered (c : ClientLink σ H) : Prop :=
  c.httpConn_.isSome → c.requestLists_ ≠ [] → ∃ conn ∈ c.connections, conn.writTasks_ ≠ []

/-! ## What calls leave alone -/

/-- `conn'` is `conn` but for its channel, its callbacks and its tasks. -/
structure Same (conn conn' : Connection Unit) : Prop where
  destroy : conn'.destroy_ = conn.destroy_
  readBuf : conn'.readBuf_ = conn.readBuf_

/-- The tasks are those that were there, and perhaps more. -/
structure Extends (conn conn' : Connection Unit) : Prop extends Same conn conn' where
  tasks : ∃ new, conn'.writTasks_ = conn.writTasks_ ++ new

theorem Same.refl (conn : Connection Unit) : Same conn conn := ⟨rfl, rfl⟩

theorem Extends.refl (conn : Connection Unit) : Extends conn conn :=
  ⟨.refl conn, [], (List.append_nil _).symm⟩

theorem Same.trans (h : Same conn conn') (h' : Same conn' conn'') : Same conn conn'' :=
  ⟨h'.destroy.trans h.destroy, h'.readBuf.trans h.readBuf⟩

theorem Extends.trans (h : Extends conn conn') (h' : Extends conn' conn'') :
    Extends conn conn'' := by
  obtain ⟨new, hnew⟩ := h.tasks
  obtain ⟨new', hnew'⟩ := h'.tasks
  exact ⟨h.toSame.trans h'.toSame, new ++ new', by rw [hnew', hnew, List.append_assoc]⟩

theorem Queues.extends {r : Request} (h : Queues conn r conn') : Extends conn conn' := by
  obtain ⟨ch, buffer, -, -, rfl⟩ := h
  exact ⟨⟨rfl, rfl⟩, _, rfl⟩

/-- Each connection of `before` is in `after` under its index, and they are related. -/
def Each (r : Connection Unit → Connection Unit → Prop) (before after : List (Connection Unit)) :
    Prop :=
  ∀ i : Nat, Option.Rel r before[i]? after[i]?

section Each

variable {r : Connection Unit → Connection Unit → Prop} {before middle after : List (Connection Unit)}

theorem Each.refl (hrefl : ∀ conn, r conn conn) (conns : List (Connection Unit)) :
    Each r conns conns := fun i => by
  cases conns[i]? with
  | none => exact .none
  | some conn => exact .some (hrefl conn)

theorem Each.forward (h : Each r before after) (hconn : before[i]? = some conn) :
    ∃ conn', after[i]? = some conn' ∧ r conn conn' := by
  have hrel := h i
  rw [hconn] at hrel
  cases hafter : after[i]? with
  | none =>
    rw [hafter] at hrel
    cases hrel
  | some conn' =>
    rw [hafter] at hrel
    cases hrel with
    | some hr => exact ⟨conn', rfl, hr⟩

theorem Each.backward (h : Each r before after) (hconn : after[i]? = some conn') :
    ∃ conn, before[i]? = some conn ∧ r conn conn' := by
  have hrel := h i
  rw [hconn] at hrel
  cases hbefore : before[i]? with
  | none =>
    rw [hbefore] at hrel
    cases hrel
  | some conn =>
    rw [hbefore] at hrel
    cases hrel with
    | some hr => exact ⟨conn, rfl, hr⟩

theorem Each.trans (htrans : ∀ conn conn' conn'', r conn conn' → r conn' conn'' → r conn conn'')
    (h : Each r before middle) (h' : Each r middle after) : Each r before after := fun i => by
  have hrel := h i
  have hrel' := h' i
  revert hrel hrel'
  generalize before[i]? = x, middle[i]? = y, after[i]? = z
  rintro (hr | _) (hr' | _)
  · exact .some (htrans _ _ _ hr hr')
  · exact .none

/-- One connection was changed, and the other ones are as before. -/
theorem Each.set (hrefl : ∀ conn, r conn conn) (hconn : before[i]? = some conn)
    (hr : r conn conn') : Each r before (before.set i conn') := fun j => by
  by_cases hij : i = j
  · subst hij
    rw [connections_set hconn, hconn]
    exact .some hr
  · rw [List.getElem?_set_ne hij]
    exact Each.refl hrefl before j

end Each

/-- What a call of the client leaves as it was: the parser, the loop, and what was read. -/
structure Keeps (c c' : ClientLink σ H) : Prop where
  parser : c'.parser_ = c.parser_
  reading : c'.reading = c.reading
  replied : c'.replied = c.replied
  connections : Each Same c.connections c'.connections

theorem Keeps.refl (c : ClientLink σ H) : Keeps c c where
  parser := rfl
  reading := rfl
  replied := rfl
  connections := .refl .refl c.connections

theorem Keeps.trans (h : Keeps c c') (h' : Keeps c' c'') : Keeps c c'' where
  parser := h'.parser.trans h.parser
  reading := h'.reading.trans h.reading
  replied := h'.replied.trans h.replied
  connections := h.connections.trans (fun _ _ _ => Same.trans) h'.connections

/-- What `get` and its `sendRequest` leave as it was, too, and what they add. -/
structure Grows (c c' : ClientLink σ H) : Prop extends Keeps c c' where
  httpConn : c'.httpConn_ = c.httpConn_
  destroyed : c'.destroyed = c.destroyed
  sends : ∃ new, c'.sent = c.sent ++ new ∧ c'.sendReqeustLists_ = c.sendReqeustLists_ ++ new
  order : c.gets = c.sent ++ c.requestLists_ → c'.gets = c'.sent ++ c'.requestLists_

/-- Nothing is sent. -/
theorem Grows.of_keeps (h : Keeps c c') (hhttp : c'.httpConn_ = c.httpConn_)
    (hdestroyed : c'.destroyed = c.destroyed) (hsent : c'.sent = c.sent)
    (hlist : c'.sendReqeustLists_ = c.sendReqeustLists_)
    (horder : c.gets = c.sent ++ c.requestLists_ → c'.gets = c'.sent ++ c'.requestLists_) :
    Grows c c' where
  toKeeps := h
  httpConn := hhttp
  destroyed := hdestroyed
  sends := ⟨[], by rw [hsent, List.append_nil], by rw [hlist, List.append_nil]⟩
  order := horder

theorem Grows.refl (c : ClientLink σ H) : Grows c c := .of_keeps (.refl c) rfl rfl rfl rfl id

/-- A connection changes in what `Same` does not speak of. -/
theorem Grows.set (hconn : c.connections[i]? = some conn) (hsame : Same conn conn') :
    Grows c { c with connections := c.connections.set i conn' } :=
  .of_keeps ⟨rfl, rfl, rfl, .set .refl hconn hsame⟩ rfl rfl rfl rfl id

theorem Grows.trans (h : Grows c c') (h' : Grows c' c'') : Grows c c'' where
  toKeeps := h.toKeeps.trans h'.toKeeps
  httpConn := h'.httpConn.trans h.httpConn
  destroyed := h'.destroyed.trans h.destroyed
  sends := by
    obtain ⟨new, hsent, hlist⟩ := h.sends
    obtain ⟨new', hsent', hlist'⟩ := h'.sends
    exact ⟨new ++ new', by rw [hsent', hsent, List.append_assoc],
      by rw [hlist', hlist, List.append_assoc]⟩
  order := fun horder => h'.order (h.order horder)

/-! ## One connection changes -/

theorem Linked.set (h : Linked c) (hconn : c.connections[i]? = some conn)
    (hserved : conn'.destroy_ = false → Served conn') (halive : conn'.destroy_ = conn.destroy_)
    (hconns : c'.connections = c.connections.set i conn') (hhttp : c'.httpConn_ = c.httpConn_) :
    Linked c' where
  served := fun x hx hxalive => by
    rw [hconns] at hx
    rcases List.mem_or_eq_of_mem_set hx with hx | rfl
    · exact h.served x hx hxalive
    · exact hserved hxalive
  conn := fun j hj => by
    rw [hhttp] at hj
    obtain ⟨x, hx, hxalive⟩ := h.conn j hj
    rw [hconns]
    by_cases hij : i = j
    · subst hij
      rw [hconn] at hx
      cases hx
      exact ⟨conn', connections_set hconn, halive.trans hxalive⟩
    · exact ⟨x, by rw [List.getElem?_set_ne hij, hx], hxalive⟩

/-- The connection behind `http_conn_`. -/
theorem Linked.exists_conn (h : Linked c) (hi : c.httpConn_ = some i) :
    ∃ conn, c.connections[i]? = some conn ∧ conn.destroy_ = false ∧ Served conn := by
  obtain ⟨conn, hconn, halive⟩ := h.conn i hi
  exact ⟨conn, hconn, halive, h.served conn (List.mem_of_getElem? hconn) halive⟩

theorem Served.queues {r : Request} (h : Served conn) (hqueues : Queues conn r conn') :
    Served conn' := by
  obtain ⟨ch, buffer, -, -, rfl⟩ := hqueues
  refine ⟨rfl, h.onRead, h.onErro, h.readBuf, fun t ht => ?_⟩
  rcases List.mem_append.mp ht with ht | ht
  · exact h.tasks t ht
  · rw [List.mem_singleton.mp ht]
    rfl

/-! ## The calls -/

/-- **`sendRequest` sends the request at the front, and all else stays.** -/
theorem Linked.sendRequest (h : Linked c) (hi : c.httpConn_ = some i) {request : Get H}
    {requests : List (Get H)} (hlist : c.requestLists_ = request :: requests) :
    ∃ conn conn' c', c.connections[i]? = some conn ∧ Queues conn request.request conn' ∧
      c.sendRequest = .ok c' ∧ c'.connections = c.connections.set i conn' ∧ Linked c' ∧
      Grows c c' := by
  obtain ⟨conn, hconn, halive, hserved⟩ := h.exists_conn hi
  obtain ⟨conn', hqueues, hsend⟩ := sendRequest_ok hi hconn hserved.chan hlist
  have hext := hqueues.extends
  refine ⟨conn, conn', _, hconn, hqueues, hsend, rfl,
    h.set hconn (fun _ => hserved.queues hqueues) hext.destroy rfl rfl, ?_⟩
  exact ⟨⟨rfl, rfl, rfl, .set .refl hconn hext.toSame⟩, rfl, rfl, ⟨[request], rfl, rfl⟩,
    fun horder => by simpa [hlist] using horder⟩

theorem Queues.writTasks_ne {r : Request} (h : Queues conn r conn') : conn'.writTasks_ ≠ [] := by
  obtain ⟨ch, buffer, -, -, rfl⟩ := h
  simp

/-- What `sendRequest` has put into a queue covers what still waits. -/
theorem covered_set (hconn : c.connections[i]? = some conn) (hne : conn'.writTasks_ ≠ [])
    (hconns : c'.connections = c.connections.set i conn') : Covered c' := fun _ _ =>
  ⟨conn', by rw [hconns]; exact List.mem_of_getElem? (connections_set hconn), hne⟩

/-- What is covered stays covered while the tasks are the same. -/
theorem Covered.set (h : Covered c) (hconn : c.connections[i]? = some conn)
    (hconns : c'.connections = c.connections.set i conn')
    (htasks : conn'.writTasks_ = conn.writTasks_) (hhttp : c'.httpConn_ = c.httpConn_)
    (hlist : c'.requestLists_ = c.requestLists_) : Covered c' := fun hsome hne => by
  rw [hhttp] at hsome
  rw [hlist] at hne
  obtain ⟨x, hx, hxne⟩ := h hsome hne
  obtain ⟨j, hj⟩ := List.mem_iff_getElem?.mp hx
  rw [hconns]
  by_cases hij : i = j
  · subst hij
    cases hconn.symm.trans hj
    exact ⟨conn', List.mem_of_getElem? (connections_set hconn), by rwa [htasks]⟩
  · exact ⟨x, List.mem_of_getElem? (by rw [List.getElem?_set_ne hij, hj]), hxne⟩

/-- **`get` returns**, with a connection and without one. -/
theorem Linked.get (h : Linked c) (request : Get H) :
    ∃ c', c.get request = .ok c' ∧ Linked c' ∧ Grows c c' ∧ Covered c' := by
  let c0 := { c with requestLists_ := c.requestLists_ ++ [request], gets := c.gets ++ [request] }
  have hlinked0 : Linked c0 := ⟨h.served, h.conn⟩
  have hgrows0 : Grows c c0 := by
    refine .of_keeps ⟨rfl, rfl, rfl, (Keeps.refl c).connections⟩ rfl rfl rfl rfl fun horder => ?_
    show c.gets ++ [request] = c.sent ++ (c.requestLists_ ++ [request])
    rw [horder, List.append_assoc]
  have hget : c.get request = if c.httpConn_.isSome then c0.sendRequest else .ok c0 := rfl
  rw [hget]
  cases hi : c.httpConn_ with
  | none =>
    exact ⟨c0, rfl, hlinked0, hgrows0, fun hsome => absurd (hsome.symm.trans (congrArg _ hi)) (by simp)⟩
  | some i =>
    obtain ⟨first, requests, hlist⟩ := List.exists_cons_of_ne_nil
      (List.append_ne_nil_of_right_ne_nil c.requestLists_ (List.cons_ne_nil request []))
    obtain ⟨conn, conn', c', hconn, hqueues, hsend, hconns, hlinked, hgrows⟩ :=
      hlinked0.sendRequest hi hlist
    exact ⟨c', hsend, hlinked, hgrows0.trans hgrows, covered_set hconn hqueues.writTasks_ne hconns⟩

/-- The client with one more connection, as `handleConnection` sets it up. -/
def joined (c : ClientLink σ H) : ClientLink σ H :=
  { c with
    httpConn_ := some c.connections.length, connections := c.connections ++ [.accepted] }

theorem Linked.joined (h : Linked c) : Linked c.joined where
  served := fun conn hconn halive => by
    rcases List.mem_append.mp hconn with hconn | hconn
    · exact h.served conn hconn halive
    · rw [List.mem_singleton.mp hconn]
      exact served_accepted
  conn := fun i hi => by
    cases hi
    exact ⟨.accepted, by simp [ClientLink.joined], rfl⟩

theorem handleConnection_eq (c : ClientLink σ H) : c.handleConnection (some fresh) =
    if c.requestLists_ ≠ [] then c.joined.sendRequest else .ok c.joined := by
  unfold handleConnection through joined
  simp [readAt, fresh, Connection.accepted]

/-- **`handleConnection` with a connection returns.** -/
theorem Linked.handleConnection (h : Linked c) :
    ∃ c', c.handleConnection (some fresh) = .ok c' ∧ Linked c' ∧ Grows c.joined c' ∧
      Covered c' := by
  rw [handleConnection_eq]
  cases hlist : c.requestLists_ with
  | nil =>
    exact ⟨c.joined, rfl, h.joined, .refl _, fun _ hne => absurd hlist hne⟩
  | cons request requests =>
    obtain ⟨conn, conn', c', hconn, hqueues, hsend, hconns, hlinked, hgrows⟩ :=
      h.joined.sendRequest rfl hlist
    exact ⟨c', by rw [if_pos (List.cons_ne_nil _ _), hsend], hlinked, hgrows,
      covered_set hconn hqueues.writTasks_ne hconns⟩

/-! ## The end of what was sent -/

/-- The handler of `sendRequest` with a connection: reading is on, and what waits is sent. -/
theorem Linked.sendDone (h : Linked c) (hi : c.httpConn_ = some i) :
    ∃ c', c.sendDone = .ok c' ∧ Linked c' ∧ Grows c c' ∧
      Each Extends c.connections c'.connections ∧
      (c'.requestLists_ ≠ [] → ∃ (j : Nat) (conn conn' : Connection Unit) (task : IoTask Unit),
        c.connections[j]? = some conn ∧
        c'.connections[j]? = some conn' ∧ conn'.writTasks_ = conn.writTasks_ ++ [task]) := by
  obtain ⟨conn, hconn, halive, hserved⟩ := h.exists_conn hi
  obtain ⟨ch, hch⟩ := Option.isSome_iff_exists.mp hserved.chan
  let conn1 := { conn with chan_ := some { ch with readable_ := true }.updateChannel }
  let c1 := { c with connections := c.connections.set i conn1 }
  have henable : conn.enableRead true = .ok conn1 := by
    unfold Connection.enableRead Connection.channel
    rw [hch]
    rfl
  have hserved1 : Served conn1 :=
    ⟨rfl, hserved.onRead, hserved.onErro, hserved.readBuf, hserved.tasks⟩
  have hlinked1 : Linked c1 := h.set hconn (fun _ => hserved1) rfl rfl rfl
  have hext1 : Extends conn conn1 := ⟨⟨rfl, rfl⟩, [], (List.append_nil _).symm⟩
  have heach1 : Each Extends c.connections c1.connections := .set .refl hconn hext1
  have hgrows1 : Grows c c1 := .set hconn hext1.toSame
  have hdone : c.sendDone = if c.requestLists_ = [] then .ok c1 else c1.sendRequest := by
    unfold ClientLink.sendDone
    rw [through_eq hi hconn henable]
    rfl
  rw [hdone]
  by_cases hlist : c.requestLists_ = []
  · exact ⟨c1, if_pos hlist, hlinked1, hgrows1, heach1, fun hne => absurd hlist hne⟩
  · obtain ⟨request, requests, hcons⟩ := List.exists_cons_of_ne_nil hlist
    obtain ⟨x, x', c', hx, hqueues, hsend, hconns, hlinked, hgrows⟩ :=
      hlinked1.sendRequest (i := i) hi hcons
    have heach : Each Extends c1.connections c'.connections := by
      rw [hconns]
      exact .set .refl hx hqueues.extends
    rw [if_neg hlist]
    refine ⟨c', hsend, hlinked, hgrows1.trans hgrows,
      heach1.trans (fun _ _ _ => Extends.trans) heach, fun _ => ?_⟩
    cases (connections_set hconn).symm.trans hx
    obtain ⟨ch', buffer, -, -, rfl⟩ := hqueues
    exact ⟨i, conn, _, _, hconn, by rw [hconns]; exact connections_set hx, rfl⟩

/-- **The end of what was sent**: reading is on, and what waits is covered again. -/
theorem Linked.completed (h : Linked c) (hsome : c.httpConn_.isSome) (i : Nat) :
    Guarantees (fun c' => Linked c' ∧ Grows c c' ∧ Covered c') (c.completed i) := by
  unfold ClientLink.completed alive
  split
  · next conn hreading hconn =>
    split
    · rfl
    next halive =>
    rw [ok_bind]
    split
    · rfl
    next task tasks htasks =>
    have hserved := h.served conn (List.mem_of_getElem? hconn) (by simpa using halive)
    obtain ⟨j, hj⟩ := Option.isSome_iff_exists.mp hsome
    obtain ⟨c1, hc1, hlinked1, hgrows1, heach1, hnew1⟩ := h.sendDone hj
    obtain ⟨conn1, hconn1, hext1⟩ := heach1.forward hconn
    obtain ⟨new, hnew⟩ := hext1.tasks
    have halive1 : conn1.destroy_ = false := hext1.destroy.trans (by simpa using halive)
    have hserved1 := hlinked1.served conn1 (List.mem_of_getElem? hconn1) halive1
    rw [htasks, List.cons_append] at hnew
    have hhandler : task.handler_ = some () := hserved.tasks task (by simp [htasks])
    let conn2 := { conn1 with writTasks_ := tasks ++ new }
    let c2 := { c1 with connections := c1.connections.set i conn2 }
    have hpop : conn1.popFront = .ok conn2 := by
      unfold Connection.popFront
      rw [hnew]
    have hserved2 : Served conn2 :=
      ⟨hserved1.chan, hserved1.onRead, hserved1.onErro, hserved1.readBuf,
        fun t ht => hserved1.tasks t (by rw [hnew]; exact List.mem_cons_of_mem _ ht)⟩
    have hlinked2 : Linked c2 := hlinked1.set hconn1 (fun _ => hserved2) rfl rfl rfl
    have hgrows2 : Grows c1 c2 := .set hconn1 ⟨rfl, rfl⟩
    simp only [hhandler, hc1, ok_bind, readAt_eq_ok.mpr hconn1, halive1, hpop]
    refine (⟨hlinked2, hgrows1.trans hgrows2, ?_⟩ : Linked c2 ∧ Grows c c2 ∧ Covered c2)
    · intro _ hne
      obtain ⟨k, x, x', t, hx, hx', htask⟩ := hnew1 hne
      by_cases hik : i = k
      · subst hik
        -- the task that was sent for what waits stands behind the one that is taken off
        cases hconn.symm.trans hx
        cases hconn1.symm.trans hx'
        rw [htasks, hnew, List.cons_append, List.cons.injEq] at htask
        refine ⟨conn2, List.mem_of_getElem? (connections_set hconn1), ?_⟩
        show tasks ++ new ≠ []
        rw [htask.2]
        simp
      · refine ⟨x', List.mem_of_getElem? (i := k) ?_, by rw [htask]; simp⟩
        rw [List.getElem?_set_ne hik, hx']
  · rfl

end ClientLink

end Liby.Http
