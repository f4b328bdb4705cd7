import Liby.Net.Poller
import Liby.Net.ReadPath
import Liby.Net.WriteFrame
import Liby.Net.WritePath

/-!
# The peer closes

A connection with the kernel behind it: bytes arrive, then perhaps the end of the stream, and
`loop_once` runs at any time in between. `EPOLLRDHUP` comes before `EPOLLIN` in the loops of
`PollerEpoll` and `PollerPoll`, so a connection whose last bytes are still in the kernel when the end
is seen is destroyed without reading them.
-/

namespace Liby

open Infra

variable {σ H : Type _}

/--
A read callback: from the user's state and what `readBuf_` holds, the new state, how many bytes are
retrieved, and the calls on the connection.
-/
abbrev Reader (σ H : Type _) := σ → Bytes → σ × Nat × List (ConnCall H)

/-- The read callback runs. -/
def Link.onRead (reader : Reader σ H) (l : Link σ H) : Exec (Link σ H) := do
  let (world, n, xs) := reader l.world l.conn.readBuf_.contents
  let readBuf ← l.conn.readBuf_.retrieve n
  { l with world := world, conn := { l.conn with readBuf_ := readBuf } }.calls xs

/--
A connection and its kernel side: the bytes that arrived and were not read, and whether the end of
the stream has arrived; with a record of all bytes that arrived, and of those that were put into
`readBuf_` and announced by the read callback.
-/
structure Peer (σ H : Type _) where
  link : Link σ H
  /-- The user holds a pointer to the connection. -/
  held : Bool
  pending : Bytes
  fin : Bool
  arrived : Bytes
  announced : Bytes
  deriving DecidableEq, Repr

/-- The two back ends. -/
inductive Backend where
  | epoll
  | poll
  deriving DecidableEq, Repr

/--
What happens to the connection. A `loop_once` comes with the answers of the kernel: how many bytes
`readv` takes at most, whether the socket can be written, and the answers to the writes.
-/
inductive PeerEvent where
  | arrive (bytes : Bytes)
  | fin
  | loopOnce (n : Nat) (writable : Bool) (as : List WriteAnswer)
  deriving DecidableEq, Repr

instance (a : WriteAnswer) : Decidable a.Sound :=
  match a with
  | .again => isTrue trivial
  | .accepted n => inferInstanceAs (Decidable (0 < n))
  | .failed => isFalse id

namespace Peer

variable (cb : Callbacks σ H) (reader : Reader σ H)

/-- A connection that was just accepted. -/
def accepted (held : Bool) (world : σ) : Peer σ H where
  link := Link.start .accepted world
  held := held
  pending := []
  fin := false
  arrived := []
  announced := []

/-- `readv` answers with what is there, with the end of the stream, or with `EAGAIN`. -/
def readAnswer (p : Peer σ H) (n : Nat) : ReadAnswer :=
  if p.pending = [] then if p.fin then .closed else .again
  else .received (p.pending.take n)

/-- `handleReadEvent` of the connection, with the record. -/
def handleReadEvent (n : Nat) (p : Peer σ H) : Exec (Peer σ H) := do
  let link ← p.link.handleReadEvent cb (Link.onRead reader) (p.readAnswer n)
  return { p with
    link := link
    pending := p.pending.drop n
    announced :=
      if p.link.conn.readEventCallback_ then p.announced ++ p.pending.take n else p.announced }

/-- The connection as a poller sees it. -/
def reactor (n : Nat) (as : List WriteAnswer) : Reactor (Peer σ H) Channel where
  getChannel := fun p _ => p.link.conn.chan_
  handle := fun _ _ handler p =>
    match handler with
    | .read => p.handleReadEvent cb reader n
    | .writ => do
      let link ← p.link.handleWritEvent cb as
      return { p with link := link }
    | .erro => do
      let link ← p.link.handleErroEvent cb
      return { p with link := link }
  runNextTickHandlers := fun p => do
    let conn ← p.link.conn.runNextTickHandlers p.held
    return { p with link := { p.link with conn := conn } }

/--
What the kernel reports: `EPOLLIN` while bytes are pending and the read interest is on,
`EPOLLRDHUP` once the end has arrived. Nothing is reported for a connection without a channel.
-/
def revents (p : Peer σ H) (writable : Bool) : Revents :=
  match p.link.conn.chan_ with
  | none => ⟨false, false, false, false, false⟩
  | some ch => {
      pollin := ch.polledIn && decide (p.pending ≠ [])
      pollout := ch.polledOut && writable
      pollerr := false
      pollhup := false
      pollrdhup := p.fin }

/-- `loop_once` of a back end, for a connection with some fd. -/
def loopOnce (backend : Backend) (p : Peer σ H) (n : Nat) (writable : Bool)
    (as : List WriteAnswer) : Exec (Peer σ H) :=
  match backend with
  | .epoll => PollerEpoll.loopOnce (reactor cb reader n as) p [(0, p.revents writable)]
  | .poll => PollerPoll.loopOnce (reactor cb reader n as) p [(0, p.revents writable)] 1

/-- What an event does. The peer sends nothing after the end, and writes meet no error. -/
def step (backend : Backend) (p : Peer σ H) : PeerEvent → Exec (Peer σ H)
  | .arrive bytes => do
    guardOr .environment (p.fin = false)
    return { p with pending := p.pending ++ bytes, arrived := p.arrived ++ bytes }
  | .fin => .ok { p with fin := true }
  | .loopOnce n writable as => do
    guardOr .environment (0 < n ∧ ∀ a ∈ as, a.Sound)
    p.loopOnce cb reader backend n writable as

end Peer

/-! ## A connection that its user does not close -/

/-- A call that sends, and that does not put `destroy` off. -/
def ConnCall.Stays (x : ConnCall H) : Prop := x.Sends ∧ x.ticks = 0

/-- Completion handlers that leave the connection open. -/
def Callbacks.Stays (cb : Callbacks σ H) : Prop :=
  ∀ w handler, ∀ x ∈ (cb.complete w handler).2, x.Stays

/-- A read callback that leaves the connection open. -/
def Reader.Stays (reader : Reader σ H) : Prop := ∀ w bytes, ∀ x ∈ (reader w bytes).2.2, x.Stays

/-- No `destroy` is put off. -/
def Settled : History σ H := fun _ _ _ ticks => ticks = 0

variable {cb : Callbacks σ H} {reader : Reader σ H} {l l' : Link σ H}

theorem Callbacks.Stays.keeps (hcb : cb.Stays) : cb.Keeps Settled := by
  intro w sent ran ticks handler hticks _
  refine ⟨fun x hx => (hcb w handler x hx).1, ?_⟩
  have hsum : ((cb.complete w handler).2.map ConnCall.ticks).sum = 0 := by
    rw [List.sum_eq_zero_iff_forall_eq_nat]
    intro n hn
    obtain ⟨x, hx, rfl⟩ := List.mem_map.mp hn
    exact (hcb w handler x hx).2
  show ticks + _ = 0
  rw [hsum]
  exact hticks

theorem Link.Delivered.calls_ok : ∀ {xs : List (ConnCall H)} {l : Link σ H},
    Link.Delivered Settled l → (∀ x ∈ xs, x.Stays) →
    ∃ l', l.calls xs = .ok l' ∧ Link.Delivered Settled l'
  | [], l, h, _ => ⟨l, rfl, h⟩
  | x :: xs, l, h, hx => by
    obtain ⟨hsends, hticks⟩ := hx x List.mem_cons_self
    obtain ⟨done, hflow⟩ := h
    have hsettled : l.conn.nextTicks = 0 := hflow.user
    obtain ⟨l1, hcall, hd, -⟩ := Link.Delivered.call_ok ⟨done, hflow⟩ hsends (K := Settled) (by
      show l.conn.nextTicks + x.ticks = 0
      rw [hsettled, hticks])
    obtain ⟨l', hcalls, hd'⟩ := hd.calls_ok fun x' hx' => hx x' (List.mem_cons_of_mem x hx')
    exact ⟨l', by rw [Link.calls, hcall]; exact hcalls, hd'⟩

namespace Peer

variable {p q : Peer σ H} {n : Nat} {as : List WriteAnswer} {writable : Bool} {backend : Backend}

/-- The connection is open and reads. -/
structure Live (p : Peer σ H) : Prop where
  delivered : Link.Delivered Settled p.link
  readable : p.link.conn.readBuf_.Readable
  reads : p.link.conn.Reads
  unlisted : p.link.conn.Unlisted

/-- What a handler does to the bytes: it may announce some that were pending. -/
structure Carries (p q : Peer σ H) : Prop where
  fin : q.fin = p.fin
  arrived : q.arrived = p.arrived
  bytes : q.announced ++ q.pending = p.announced ++ p.pending

/-- A handler that leaves the bytes alone. -/
structure SameBytes (p q : Peer σ H) : Prop where
  arrived : q.arrived = p.arrived
  announced : q.announced = p.announced
  pending : q.pending = p.pending

theorem Carries.trans {r : Peer σ H} (h : Carries p q) (h' : Carries q r) : Carries p r :=
  ⟨h'.fin.trans h.fin, h'.arrived.trans h.arrived, h'.bytes.trans h.bytes⟩

theorem Live.alive (h : Live p) : p.link.conn.destroy_ = false := by
  obtain ⟨done, hflow⟩ := h.delivered
  exact hflow.isOpen.alive

theorem live_accepted (held : Bool) (world : σ) : Live (accepted held world : Peer σ H) where
  delivered := ⟨[], Connection.open_accepted, rfl, rfl, [], rfl, Outbox.cut_nil⟩
  readable := Buffer.readable_ofLength 1024
  reads := Connection.reads_accepted
  unlisted := Connection.unlisted_accepted

/-- The read callback takes bytes off, and sends. -/
theorem onRead_ok (hreader : reader.Stays) (h : Link.Delivered Settled l)
    (hbuf : l.conn.readBuf_.Readable) (hreads : l.conn.Reads) (hunlisted : l.conn.Unlisted) :
    ∃ l', l.onRead reader = .ok l' ∧ Link.Delivered Settled l' ∧ l'.conn.readBuf_.Readable ∧
      l'.conn.Reads ∧ l'.conn.Unlisted := by
  obtain ⟨rest, hretrieve, hrest, -⟩ :=
    hbuf.retrieve_ok (reader l.world l.conn.readBuf_.contents).2.1
  have hd := h.withWorld (K := Settled) (reader l.world l.conn.readBuf_.contents).1 rest (by
    obtain ⟨done, hflow⟩ := h
    exact hflow.user)
  obtain ⟨l', hcalls, hd'⟩ := hd.calls_ok (hreader l.world l.conn.readBuf_.contents)
  have hstill := (Link.still_calls hcalls).conn
  refine ⟨l', ?_, hd', ?_, hstill.reads hreads, hstill.unlisted hunlisted⟩
  · unfold Link.onRead
    dsimp only
    rw [hretrieve, ok_bind]
    exact hcalls
  · rw [hstill.readBuf]
    exact hrest

/-- Bytes that are pending are read and announced. -/
theorem Live.read_ok (h : Live p) (hreader : reader.Stays) (hpending : p.pending ≠ []) :
    Guarantees (fun q => Live q ∧ Carries p q) (p.handleReadEvent cb reader n) := by
  obtain ⟨done, hflow⟩ := h.delivered
  have hcallback := h.reads hflow.isOpen.alive
  unfold handleReadEvent Link.handleReadEvent readAnswer
  rw [if_neg hpending, h.readable.availbleSize_eq, ok_bind, guardOr_pos hflow.isOpen.socket, ok_bind]
  dsimp only
  refine Guarantees.bind (P := fun l' => Link.Delivered Settled l' ∧ l'.conn.readBuf_.Readable ∧
    l'.conn.Reads ∧ l'.conn.Unlisted) ?_ ?_
  · refine (Connection.receive_ok h.readable (p.pending.take n)).bind ?_
    rintro conn ⟨-, buffer, rfl, hreadable, -⟩
    dsimp only
    rw [if_pos hcallback]
    obtain ⟨l', hl', hall⟩ := onRead_ok hreader
      (h.delivered.withWorld (K := Settled) p.link.world buffer hflow.user) hreadable h.reads
      h.unlisted
    rw [hl']
    exact hall
  · rintro link ⟨hd, hreadable, hreads, hunlisted⟩
    refine ⟨⟨hd, hreadable, hreads, hunlisted⟩, rfl, rfl, ?_⟩
    dsimp only
    rw [if_pos hcallback, List.append_assoc, List.take_append_drop]

theorem Live.writ_ok (h : Live p) (hcb : cb.Stays) (has : ∀ a ∈ as, a.Sound) :
    Guarantees (fun q => Live q ∧ Carries p q)
      (p.link.handleWritEvent cb as >>= fun link => .ok { p with link := link }) := by
  refine ((h.delivered.handleWritEvent_ok hcb.keeps has).imp_ok (Q := fun link =>
    Live { p with link := link }) ?_).bind fun link hlive => ⟨hlive, rfl, rfl, rfl⟩
  intro link hlink hd
  have hstill := (Link.stillBy_handleWritEvent hlink).conn
  refine ⟨hd, ?_, hstill.reads h.reads, hstill.unlisted h.unlisted⟩
  show link.conn.readBuf_.Readable
  rw [hstill.readBuf]
  exact h.readable

/-- The tick does nothing to a connection that nobody wants to destroy. -/
theorem Live.tick_eq (h : Live p) : (reactor cb reader n as).runNextTickHandlers p = .ok p := by
  obtain ⟨done, hflow⟩ := h.delivered
  have hticks : p.link.conn.nextTicks = 0 := hflow.user
  show (p.link.conn.runNextTickHandlers p.held >>= fun _ => _) = _
  rw [Connection.tick_none hticks]
  rfl

/-! ## loop_once -/

/-- A connection that was destroyed after the end was seen. -/
structure Gone (p : Peer σ H) : Prop where
  destroyed : p.link.conn.destroy_ = true
  unlisted : p.link.conn.chan_ = none
  fin : p.fin = true

/-- `handleErroEvent` leaves nothing of the connection. -/
theorem erro_gone (h : p.link.conn.Unlisted) (hl : p.link.handleErroEvent cb = .ok l') :
    l'.conn.destroy_ = true ∧ l'.conn.chan_ = none := by
  have hunlisted := (Link.still_handleErroEvent hl).conn.unlisted h
  have hdestroyed : l'.conn.destroy_ = true := by
    have hdestroy : ∀ c : Connection H, c.destroy.destroy_ = true := by
      intro c
      unfold Connection.destroy
      split
      · next hc => exact hc
      · rfl
    unfold Link.handleErroEvent at hl
    dsimp only at hl
    split at hl
    · obtain ⟨l1, -, hl⟩ := bind_eq_ok.mp hl
      cases hl
      exact hdestroy _
    · cases hl
      exact hdestroy _
  exact ⟨hdestroyed, hunlisted hdestroyed⟩

theorem destroyed_tick {held : Bool} {c c' : Connection H} (h : c.destroy_ = true) (hnone : c.chan_ = none)
    (htick : c.runNextTickHandlers held = .ok c') : c'.destroy_ = true ∧ c'.chan_ = none := by
  rcases Connection.tick_cases htick with rfl | rfl
  · exact ⟨h, hnone⟩
  · unfold Connection.destroy
    rw [if_pos h]
    exact ⟨h, hnone⟩

/-- The tick leaves nothing of a connection that is destroyed. -/
theorem Gone.tick (h : Gone p) (hq : (reactor cb reader n as).runNextTickHandlers p = .ok q) :
    Gone q ∧ SameBytes p q := by
  obtain ⟨c, hc, hq⟩ := bind_eq_ok.mp hq
  cases hq
  obtain ⟨hdestroyed, hnone⟩ := destroyed_tick h.destroyed h.unlisted hc
  exact ⟨⟨hdestroyed, hnone, h.fin⟩, rfl, rfl, rfl⟩

/-- Nothing is done for a connection without a channel. -/
theorem Gone.loopOnce (h : Gone p) (hq : p.loopOnce cb reader backend n writable as = .ok q) :
    Gone q ∧ SameBytes p q := by
  have hget : ∀ fd, (reactor cb reader n as).getChannel p fd = none := fun _ => h.unlisted
  cases backend with
  | epoll =>
    unfold Peer.loopOnce at hq
    dsimp only at hq
    rw [PollerEpoll.loopOnce_single, PollerEpoll.handleEvent_of_none (hget 0), ok_bind] at hq
    exact h.tick hq
  | poll =>
    unfold Peer.loopOnce at hq
    dsimp only at hq
    rw [PollerPoll.loopOnce_single, ← Int.natCast_zero, PollerPoll.handleEntry_none (hget 0),
      ok_bind] at hq
    exact h.tick hq

theorem Live.chan (h : Live p) : ∃ ch, p.link.conn.chan_ = some ch := by
  obtain ⟨done, hflow⟩ := h.delivered
  obtain ⟨ch, hch, -⟩ := hflow.isOpen.interest
  exact ⟨ch, hch⟩

/-- The error handler runs, and then the handlers that were put off. -/
theorem erro_tick_ok (h : Live p) {ch : Channel} (hfin : p.fin = true)
    (hq : ((reactor cb reader n as).handle 0 ch .erro p >>=
      (reactor cb reader n as).runNextTickHandlers) = .ok q) : Gone q ∧ SameBytes p q := by
  obtain ⟨p1, hp1, hq⟩ := bind_eq_ok.mp hq
  obtain ⟨link, hlink, hp1⟩ := bind_eq_ok.mp hp1
  cases hp1
  obtain ⟨hdestroyed, hnone⟩ := erro_gone h.unlisted hlink
  have hgone : Gone { p with link := link } := ⟨hdestroyed, hnone, hfin⟩
  obtain ⟨hq, hpending, harrived, hannounced⟩ := hgone.tick hq
  exact ⟨hq, hpending, harrived, hannounced⟩

/-- **Once the end has arrived, the connection is destroyed, whatever is pending.** -/
theorem Live.loopOnce_fin (h : Live p) (hfin : p.fin = true)
    (hq : p.loopOnce cb reader backend n writable as = .ok q) : Gone q ∧ SameBytes p q := by
  obtain ⟨ch, hch⟩ := h.chan
  have hfailed : (p.revents writable).failed = true := by
    unfold revents
    rw [hch]
    simp [Revents.failed, hfin]
  have hget : ∀ fd, (reactor cb reader n as).getChannel p fd = some ch := fun _ => hch
  cases backend with
  | epoll =>
    unfold Peer.loopOnce at hq
    dsimp only at hq
    rw [PollerEpoll.loopOnce_single, PollerEpoll.handleEvent_of_channel (hget 0),
      PollerEpoll.selected_failed hfailed] at hq
    exact erro_tick_ok h hfin hq
  | poll =>
    unfold Peer.loopOnce at hq
    dsimp only at hq
    rw [PollerPoll.loopOnce_single, ← Int.natCast_zero,
      PollerPoll.handleEntry_failed (hget 0) hfailed] at hq
    obtain ⟨⟨p1, flag⟩, hp1, hq⟩ := bind_eq_ok.mp hq
    obtain ⟨p2, hp2, hp1⟩ := bind_eq_ok.mp hp1
    cases hp1
    exact erro_tick_ok h hfin (bind_eq_ok.mpr ⟨p1, hp2, hq⟩)

/-- Before the end has arrived, bytes are carried on and the connection stays. -/
theorem Live.loopOnce_ok (h : Live p) (hcb : cb.Stays) (hreader : reader.Stays)
    (has : ∀ a ∈ as, a.Sound) (hfin : p.fin = false) :
    Guarantees (fun q => Live q ∧ Carries p q)
      (p.loopOnce cb reader backend n writable as) := by
  obtain ⟨ch, hch⟩ := h.chan
  have hget : ∀ fd, (reactor cb reader n as).getChannel p fd = some ch := fun _ => hch
  have hsame : Live p ∧ Carries p p := ⟨h, rfl, rfl, rfl⟩
  have hfailed : (p.revents writable).failed = false := by
    unfold revents
    rw [hch]
    simp [Revents.failed, hfin]
  have hread : (p.revents writable).pollin = true → ∀ fd,
      Guarantees (fun q => Live q ∧ Carries p q)
        ((reactor cb reader n as).handle fd ch .read p) := by
    intro hin fd
    unfold revents at hin
    rw [hch] at hin
    -- `pollin` without a FIN is bytes that came
    exact h.read_ok hreader (by simpa using (Bool.and_eq_true_iff.mp hin).2)
  have hwrit : ∀ {p' : Peer σ H} fd ch', Live p' →
      Guarantees (fun q => Live q ∧ Carries p' q) ((reactor cb reader n as).handle fd ch' .writ p') :=
    fun _ _ h' => h'.writ_ok hcb has
  cases backend with
  | epoll =>
    unfold Peer.loopOnce
    dsimp only
    rw [PollerEpoll.loopOnce_single, PollerEpoll.handleEvent_of_channel (hget 0)]
    refine Guarantees.bind (P := fun q => Live q ∧ Carries p q) ?_ fun q hq => by
      rw [hq.1.tick_eq]
      exact hq
    unfold PollerEpoll.selected
    -- epoll calls one handler, with reading before writing
    rw [hfailed, if_neg Bool.false_ne_true]
    cases hin : (p.revents writable).pollin with
    | true => exact hread hin 0
    | false =>
      cases (p.revents writable).pollout with
      | true => exact hwrit 0 ch h
      | false => exact hsame
  | poll =>
    unfold Peer.loopOnce
    dsimp only
    rw [PollerPoll.loopOnce_single, ← Int.natCast_zero,
      PollerPoll.handleEntry_of_channel (hget 0) hfailed]
    refine Guarantees.bind (P := fun x => Live x.1 ∧ Carries p x.1) ?_ fun x hx => by
      rw [hx.1.tick_eq]
      exact hx
    have hfirst : Guarantees (fun q => Live q ∧ Carries p q)
        (if (p.revents writable).pollin = true then (reactor cb reader n as).handle 0 ch .read p
          else .ok p) := by
      split
      · next hin => exact hread hin 0
      · exact hsame
    -- poll calls both
    refine hfirst.bind fun p1 hp1 => ?_
    split
    · exact hp1
    · next ch' _ =>
      refine (hwrit 0 ch' hp1.1).bind fun p2 hp2 => ?_
      exact ⟨hp2.1, hp1.2.trans hp2.2⟩

/-! ## Runs -/

/-- When the connection is destroyed, all that arrived has been announced. -/
def NoLoss (p : Peer σ H) : Prop := p.link.conn.destroy_ = true → p.announced = p.arrived

/-- A `loop_once` that sees the end on a connection that is open finds no bytes pending. -/
def DrainedBefore (p : Peer σ H) : PeerEvent → Prop
  | .loopOnce _ _ _ => p.fin = true → p.link.conn.destroy_ = false → p.pending = []
  | .arrive _ | .fin => True

instance (p : Peer σ H) : ∀ e, Decidable (DrainedBefore p e)
  | .loopOnce _ _ _ => inferInstanceAs (Decidable (_ → _ → _))
  | .arrive _ | .fin => isTrue trivial

/-- All that arrived was announced or is pending. -/
structure Kept (p : Peer σ H) : Prop where
  bytes : p.arrived = p.announced ++ p.pending
  phase : Live p ∨ Gone p

theorem kept_accepted (held : Bool) (world : σ) : Kept (accepted held world : Peer σ H) where
  bytes := rfl
  phase := .inl (live_accepted held world)

/-- A connection that is gone lost nothing exactly if nothing is pending. -/
theorem Kept.noLoss_iff (h : Kept p) :
    NoLoss p ↔ (p.link.conn.destroy_ = true → p.pending = []) := by
  refine forall_congr' fun _ => ?_
  rw [h.bytes]
  exact List.self_eq_append_right

theorem Carries.kept (h : Carries p q) (hp : Kept p) (hq : Live q ∨ Gone q) : Kept q where
  bytes := by rw [h.arrived, hp.bytes, h.bytes]
  phase := hq

theorem SameBytes.kept (h : SameBytes p q) (hp : Kept p) (hq : Live q ∨ Gone q) : Kept q where
  bytes := by rw [h.arrived, h.announced, h.pending, hp.bytes]
  phase := hq

theorem Live.touch (h : Live p) (fin : Bool) (pending arrived : Bytes) :
    Live { p with fin := fin, pending := pending, arrived := arrived } :=
  ⟨h.delivered, h.readable, h.reads, h.unlisted⟩

/-- An arrival is on an open connection. -/
theorem Kept.arrive_ok (h : Kept p) {bytes : Bytes} (hq : p.step cb reader backend (.arrive bytes) = .ok q) :
    Live p ∧ q = { p with pending := p.pending ++ bytes, arrived := p.arrived ++ bytes } := by
  obtain ⟨u, hguard, hq⟩ := bind_eq_ok.mp hq
  have hfin : p.fin = false := guardOr_eq_ok.mp hguard
  cases hq
  rcases h.phase with hlive | hgone
  · exact ⟨hlive, rfl⟩
  · rw [hgone.fin] at hfin
    cases hfin

/--
A `loop_once` on an open connection keeps it open, unless it sees the end: then the connection goes and
no byte is read. On one that is gone it does nothing.
-/
theorem Kept.loopOnce_cases (hcb : cb.Stays) (hreader : reader.Stays) (h : Kept p) {n : Nat}
    {writable : Bool} {as : List WriteAnswer}
    (hq : p.step cb reader backend (.loopOnce n writable as) = .ok q) :
    (Live p ∧ p.fin = false ∧ Live q ∧ Carries p q) ∨
      (Live p ∧ p.fin = true ∧ Gone q ∧ SameBytes p q) ∨ (Gone p ∧ Gone q ∧ SameBytes p q) := by
  obtain ⟨u, hguard, hq⟩ := bind_eq_ok.mp hq
  obtain ⟨-, has⟩ := guardOr_eq_ok.mp hguard
  rcases h.phase with hlive | hgone
  · cases hfin : p.fin with
    | false =>
      have hlive' := Guarantees.of_ok (hlive.loopOnce_ok hcb hreader has hfin) hq
      exact .inl ⟨hlive, rfl, hlive'⟩
    | true => exact .inr (.inl ⟨hlive, rfl, hlive.loopOnce_fin hfin hq⟩)
  · exact .inr (.inr ⟨hgone, hgone.loopOnce hq⟩)

/-- **An event keeps the bytes.** -/
theorem step_kept (hcb : cb.Stays) (hreader : reader.Stays) {e : PeerEvent} (h : Kept p)
    (hq : p.step cb reader backend e = .ok q) : Kept q := by
  cases e with
  | arrive bytes =>
    obtain ⟨hlive, rfl⟩ := h.arrive_ok hq
    refine ⟨?_, .inl (hlive.touch _ _ _)⟩
    rw [h.bytes, List.append_assoc]
  | fin =>
    cases hq
    rcases h.phase with hlive | hgone
    · exact ⟨h.bytes, .inl (hlive.touch _ _ _)⟩
    · exact ⟨h.bytes, .inr ⟨hgone.destroyed, hgone.unlisted, rfl⟩⟩
  | loopOnce n writable as =>
    rcases h.loopOnce_cases hcb hreader hq with ⟨-, -, hlive, hcarries⟩ | ⟨-, -, hgone, hsame⟩ |
      ⟨-, hgone, hsame⟩
    · exact hcarries.kept h (.inl hlive)
    · exact hsame.kept h (.inr hgone)
    · exact hsame.kept h (.inr hgone)

/-- **An event loses nothing exactly if the end is not seen together with bytes.** -/
theorem step_noLoss_iff (hcb : cb.Stays) (hreader : reader.Stays) {e : PeerEvent} (h : Kept p)
    (hloss : NoLoss p) (hq : p.step cb reader backend e = .ok q) : NoLoss q ↔ DrainedBefore p e := by
  have hlive_noLoss : ∀ {q : Peer σ H}, Live q → NoLoss q := by
    intro q hlive hdestroyed
    rw [hlive.alive] at hdestroyed
    cases hdestroyed
  cases e with
  | arrive bytes =>
    obtain ⟨hlive, rfl⟩ := h.arrive_ok hq
    exact ⟨fun _ => trivial, fun _ => hlive_noLoss (hlive.touch _ _ _)⟩
  | fin =>
    cases hq
    exact ⟨fun _ => trivial, fun _ => hloss⟩
  | loopOnce n writable as =>
    have hkept := step_kept hcb hreader h hq
    rcases h.loopOnce_cases hcb hreader hq with ⟨-, hfin, hlive, -⟩ | ⟨hlive, hfin, hgone, hsame⟩ |
      ⟨hgone, -, hsame⟩
    · refine ⟨fun _ hend => ?_, fun _ => hlive_noLoss hlive⟩
      rw [hfin] at hend
      cases hend
    · refine hkept.noLoss_iff.trans ⟨fun hnone _ _ => ?_, fun hnone _ => ?_⟩
      · rw [← hsame.pending]
        exact hnone hgone.destroyed
      · rw [hsame.pending]
        exact hnone hfin hlive.alive
    · refine ⟨fun _ _ halive => ?_, fun _ _ => ?_⟩
      · rw [hgone.destroyed] at halive
        cases halive
      · rw [hsame.announced, hsame.arrived]
        exact hloss hgone.destroyed

/--
**No byte is lost at the close exactly if the end is never seen together with bytes.** For a user
who does not close the connection: in every state of the run that is destroyed, all bytes that
arrived have been put into `readBuf_` and announced, if and only if every `loop_once` that sees the
end on the open connection finds no bytes pending.
-/
theorem no_loss_iff (hcb : cb.Stays) (hreader : reader.Stays) (backend : Backend) (held : Bool) (world : σ)
    (es : List PeerEvent) (p : Peer σ H)
    (hrun : run (step cb reader backend) (accepted held world) es = .ok p) :
    (∀ es' q, es' <+: es → run (step cb reader backend) (accepted held world) es' = .ok q → NoLoss q) ↔
      Along (step cb reader backend) DrainedBefore (accepted held world) es :=
  (along_iff_invariant_of (fun _ _ _ h hq => step_kept hcb hreader h hq)
    (fun _ _ _ h hloss hq => step_noLoss_iff hcb hreader h hloss hq) (kept_accepted held world)
    (fun h => by cases h) hrun).symm

/-- A user who collects what comes. -/
def collect : Reader Bytes Unit := fun w bytes => (w ++ bytes, bytes.length, [])

/-- And has nothing else to do. -/
def idle : Callbacks Bytes Unit where
  complete := fun w _ => (w, [])
  onErro := fun w => (w, [])

/-- The end comes after all bytes were read. -/
theorem no_loss_iff_drained :
    let es : List PeerEvent := [.arrive (str "abc"), .loopOnce 2 false [], .arrive (str "d"),
      .loopOnce 9 false [], .fin, .loopOnce 9 false []]
    ∃ p, run (step idle collect .epoll) (accepted false []) es = .ok p ∧
      p.link.conn.destroy_ = true ∧ p.link.world = str "abcd" ∧
      ((∀ es' q, es' <+: es → run (step idle collect .epoll) (accepted false []) es' = .ok q → NoLoss q) ↔
        Along (step idle collect .epoll) DrainedBefore (accepted false []) es) := by
  intro es
  have hrun : (run (step idle collect .epoll) (accepted false []) es).map
      (fun p => (p.link.conn.destroy_, p.link.world)) = .ok (true, str "abcd") := by decide +kernel
  have hcb : idle.Stays := fun _ _ x hx => by cases hx
  have hreader : collect.Stays := fun _ _ x hx => by cases hx
  cases hp : run (step idle collect .epoll) (accepted false []) es with
  | error f => rw [hp] at hrun; cases hrun
  | ok p =>
    rw [hp] at hrun
    obtain ⟨hdestroyed, hworld⟩ := Prod.mk.inj (Except.ok.inj hrun)
    exact ⟨p, rfl, hdestroyed, hworld, no_loss_iff hcb hreader .epoll false [] es p hp⟩

/-- The end is seen in the same `loop_once` as the last bytes: they are never read. -/
theorem bytes_lost :
    let es : List PeerEvent := [.arrive (str "abc"), .fin, .loopOnce 9 false []]
    (∃ p, run (step idle collect .epoll) (accepted false []) es = .ok p ∧ p.link.conn.destroy_ = true ∧
      p.announced = [] ∧ p.arrived = str "abc" ∧ ¬NoLoss p) ∧
    (∃ p, run (step idle collect .poll) (accepted false []) es = .ok p ∧ p.link.conn.destroy_ = true ∧
      p.announced = [] ∧ p.arrived = str "abc" ∧ ¬NoLoss p) := by
  intro es
  have hlost : ∀ backend, (run (step idle collect backend) (accepted false []) es).map
        (fun p => (p.link.conn.destroy_, p.announced, p.arrived)) = .ok (true, [], str "abc") →
      ∃ p, run (step idle collect backend) (accepted false []) es = .ok p ∧ p.link.conn.destroy_ = true ∧
        p.announced = [] ∧ p.arrived = str "abc" ∧ ¬NoLoss p := by
    intro backend hrun
    cases hp : run (step idle collect backend) (accepted false []) es with
    | error f => rw [hp] at hrun; cases hrun
    | ok p =>
      rw [hp] at hrun
      obtain ⟨hdestroyed, hbytes⟩ := Prod.mk.inj (Except.ok.inj hrun)
      obtain ⟨hannounced, harrived⟩ := Prod.mk.inj hbytes
      refine ⟨p, rfl, hdestroyed, hannounced, harrived, fun hloss => ?_⟩
      have heq := hloss hdestroyed
      rw [hannounced, harrived] at heq
      cases heq
  exact ⟨hlost .epoll (by decide +kernel), hlost .poll (by decide +kernel)⟩

end Peer

end Liby
