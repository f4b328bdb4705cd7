import Liby.Net.ReadAll

/-!
# The TCP relayer

`examples/tcp_relayer.cpp`: an accepted connection is paired with one to another host, and what is read from
the one is sent to the other. An error of one of them destroys both. The relayer runs in one loop, so that
the events of its connections come one after the other.
-/

namespace Liby.Relay

open Infra Outbox Link

/-- One of the two connections, and the bytes that were received from it. -/
structure Side where
  link : Link Unit Empty
  received : Bytes
  deriving DecidableEq, Repr

/-- `destroy` of one of them. -/
def Side.destroy (s : Side) : Side :=
  { s with link := { s.link with conn := s.link.conn.destroy } }

/-- A connection with its peer, the `weak_conn` of its `RelayerContext`; `none` is no `context_`. -/
abbrev Peered := Link (Option Side) Empty

/-- `onErro`. Before there is a `context_` the callback of the `TcpServer` stands around it. -/
def callbacks : Callbacks (Option Side) Empty where
  complete := fun w _ => (w, [])
  onErro := fun
    | none => (none, [.destroy])
    | some peer => (some peer.destroy, [])

/-- `onRead`. Between two events a connection that is destroyed is gone, and its `weak_ptr` expired. -/
def onRead (l : Peered) : Exec Peered :=
  match l.world with
  | none => .ok { l with conn := l.conn.destroy }
  | some peer =>
    if peer.link.conn.destroy_ then .ok { l with conn := l.conn.destroy }
    else do
      let (conn, readBuf) ← peer.link.conn.sendBuffer l.conn.readBuf_ none
      return { l with
        conn := { l.conn with readBuf_ := readBuf }
        world := some { peer with link := { peer.link with
          conn := conn
          sent := peer.link.sent ++ [{ payload := l.conn.readBuf_.contents, tag := none }] } } }

/-- What the poller tells a connection. -/
inductive SideEvent where
  | read (a : ReadAnswer)
  | writ (as : List WriteAnswer)
  deriving DecidableEq, Repr

/-- The bytes that come with an event. -/
def SideEvent.bytes : SideEvent → Bytes
  | .read a => a.bytes
  | .writ _ => []

/-- An event of a connection. -/
def handle (l : Peered) : SideEvent → Exec Peered
  | .read a => l.handleReadEvent callbacks onRead a
  | .writ as => l.handleWritEvent callbacks as

/-- An event of one side; a connection that is destroyed is not in the poller. -/
def sideStep (own : Side) (peer : Option Side) (e : SideEvent) : Exec (Side × Option Side) :=
  if own.link.conn.destroy_ then .ok (own, peer)
  else do
    let l ← handle (own.link.within peer) e
    return ({ link := l.within (), received := own.received ++ e.bytes }, l.world)

/-- The accepted connection, the connection to the other host, and whether the `TcpClient` is done. -/
structure State where
  conn : Side
  c : Option Side
  answered : Bool
  deriving DecidableEq, Repr

/-- What happens to a pair of connections. -/
inductive Event where
  /-- The `TcpClient` comes to its end, with a connection or without. -/
  | connected (ok : Bool)
  | conn (e : SideEvent)
  | c (e : SideEvent)
  deriving DecidableEq, Repr

/-- The connection that the `TcpClient` gives to its callback: nothing is set yet but the read interest. -/
def connected : Connection Empty :=
  { Connection.accepted with readEventCallback_ := false, erroEventCallback_ := false }

/-- `onRead`, `onErro` and `enableRead`, by the callback of the `TcpClient`. -/
def setCallbacks (conn : Connection Empty) : Exec (Connection Empty) :=
  { conn with readEventCallback_ := true, erroEventCallback_ := true }.enableRead true

/-- The callback of the `TcpClient`. -/
def onConnect (s : State) (ok : Bool) : Exec State :=
  if ok && !s.conn.link.conn.destroy_ then do
    let c ← setCallbacks connected
    let conn ← setCallbacks s.conn.link.conn
    return {
      conn := { s.conn with link := { s.conn.link with conn := conn } }
      c := some { link := .start c (), received := [] }
      answered := true }
  else
    .ok {
      conn := s.conn.destroy
      c := if ok then some { link := .start connected.destroy (), received := [] } else none
      answered := true }

/-- A step of the relayer. -/
def step (s : State) : Event → Exec State
  | .connected ok => do
    -- the `TcpClient` answers once
    guardOr .environment (s.answered = false)
    onConnect s ok
  | .conn e => do
    let (conn, c) ← sideStep s.conn s.c e
    return { s with conn := conn, c := c }
  | .c e =>
    match s.c with
    | none => .error .environment
    | some c => do
      let (c, conn) ← sideStep c (some s.conn) e
      return { s with conn := conn.getD s.conn, c := some c }

/-- A connection was accepted. -/
def start : State where
  conn := { link := .start .accepted (), received := [] }
  c := none
  answered := false

/-! ## The invariant -/

/-- Two connections between two events: both are up or both are down, and what was received from the one was
sent to the other. -/
structure Paired (own peer : Side) : Prop where
  together : (Up own.link ∧ Up peer.link) ∨ (Down own.link ∧ Down peer.link)
  forth : stream peer.link.sent = own.received
  back : stream own.link.sent = peer.received

theorem Paired.symm {own peer : Side} (h : Paired own peer) : Paired peer own where
  together := h.together.imp And.symm And.symm
  forth := h.back
  back := h.forth

variable {l : Link Unit Empty} {own peer : Side} {J K : History (Option Side) Empty}

/-! ## Two connections that are paired -/

/-- The peer is as it was, and was sent what it received from it. -/
def Stays (peer : Side) : History (Option Side) Empty := fun w sent _ _ =>
  w = some peer ∧ stream sent = peer.received

/-- The peer is destroyed. -/
def Goes (peer : Side) : History (Option Side) Empty := fun w sent _ _ =>
  w = some peer.destroy ∧ stream sent = peer.received

theorem keeps_stays (peer : Side) : callbacks.Keeps (Stays peer) := fun _ _ _ _ handler => nomatch handler

theorem fails_stays (peer : Side) : callbacks.Fails true (Stays peer) (Goes peer) := by
  rintro w sent ran ticks ⟨rfl, hsent⟩
  refine ⟨⟨[], [], rfl, nofun, nofun⟩, rfl, ?_⟩
  show stream (sent ++ []) = peer.received
  rw [List.append_nil]
  exact hsent

/-- A connection that is paired after its event. -/
def Leaves (received : Bytes) (l : Peered) : Prop :=
  ∃ peer, l.world = some peer ∧ Paired { link := l.within (), received := received } peer

/-- A connection that goes on, or has failed and taken its peer with it. -/
theorem leaves_of_survives {l : Peered} {received : Bytes} (hpeer : Up peer.link)
    (hforth : stream peer.link.sent = received)
    (h : Link.Survives true (Stays peer) (Goes peer) l) (htaken : l.conn.Taken) : Leaves received l := by
  obtain ⟨hdelivered, hcalled⟩ | hbroken := h
  · obtain ⟨done, hflow⟩ := id hdelivered
    obtain ⟨hworld, hsent⟩ := hflow.user
    exact ⟨peer, hworld, .inl ⟨hdelivered.up hcalled htaken, hpeer⟩, hforth, hsent⟩
  · obtain ⟨hworld, hsent⟩ := hbroken.user
    exact ⟨peer.destroy, hworld, .inr ⟨hbroken.down, hpeer.destroy⟩, hforth, hsent⟩

/-- The callback sends what was read to the peer. -/
theorem onRead_ok {l : Peered} {received : Bytes} (hdelivered : Link.Delivered (Stays peer) l)
    (hcalled : l.conn.Announces true) (hreads : l.conn.Reads) (hpeer : Up peer.link)
    (hforth : stream peer.link.sent = received) {buffer : Buffer} (husable : buffer.Usable)
    (hne : buffer.contents ≠ []) :
    Guarantees (Leaves (received ++ buffer.contents))
      (onRead { l with conn := { l.conn with readBuf_ := buffer } }) := by
  obtain ⟨done, hflow⟩ := id hdelivered
  obtain ⟨hworld, hback⟩ := hflow.user
  obtain ⟨c, hsend, hsent, hstill, hannounces⟩ := hpeer.delivered.sendBuffer_ok husable hne none
    (K := fun _ _ _ _ => True) trivial
  have hpeer' : Up { peer.link with
      conn := c, sent := peer.link.sent ++ [{ payload := buffer.contents, tag := none }] } :=
    ⟨hsent, hannounces true hpeer.announces, hpeer.taken.still hstill⟩
  have hown := hdelivered.withWorld (K := fun _ _ _ _ => True) (some { peer with link := { peer.link with
    conn := c, sent := peer.link.sent ++ [{ payload := buffer.contents, tag := none }] } })
    (.ofLength buffer.capacity_) trivial
  unfold onRead
  dsimp only
  rw [hworld]
  dsimp only
  rw [if_neg (by rw [hpeer.alive]; exact Bool.false_ne_true), hsend, ok_bind]
  refine ⟨_, rfl, .inl ⟨hown.up hcalled (.swapped husable hreads), hpeer'⟩, ?_, hback⟩
  show stream (peer.link.sent ++ [_]) = received ++ buffer.contents
  rw [stream_append, hforth]
  simp

/-- **An event of one connection leaves the two paired.** -/
theorem handle_ok (hown : Up own.link) (hpeer : Up peer.link) (hforth : stream peer.link.sent = own.received)
    (hback : stream own.link.sent = peer.received) (e : SideEvent) :
    Guarantees (Leaves (own.received ++ e.bytes)) (handle (own.link.within (some peer)) e) := by
  have hdelivered : Link.Delivered (Stays peer) (own.link.within (some peer)) :=
    hown.within ⟨rfl, hback⟩
  have hsurvives : Link.Survives true (Stays peer) (Goes peer) (own.link.within (some peer)) :=
    .inl ⟨hdelivered, hown.announces⟩
  cases e with
  | writ as =>
    refine (hsurvives.handleWritEvent_ok (keeps_stays peer) (fails_stays peer) as).imp_ok
      fun l hl hout => ?_
    rw [SideEvent.bytes, List.append_nil]
    exact leaves_of_survives hpeer hforth hout (hown.taken.still (Link.stillBy_handleWritEvent hl).conn)
  | read a =>
    obtain ⟨done, hflow⟩ := id hdelivered
    rw [SideEvent.bytes]
    refine Link.handleReadEvent_ok (l := own.link.within (some peer)) hown.taken hown.alive
      hflow.isOpen.socket (fun hnone => ?_) (fun hnone => ?_) fun buffer husable hcontents hne => ?_
    · rw [hnone, List.append_nil]
      exact leaves_of_survives hpeer hforth hsurvives hown.taken
    · obtain ⟨l, hl, hbroken⟩ := hdelivered.handleErroEvent_ok hown.announces (fails_stays peer)
      rw [hnone, List.append_nil, hl]
      exact leaves_of_survives hpeer hforth (.inr hbroken)
        (hown.taken.still (Link.still_handleErroEvent hl).conn)
    · rw [← hcontents]
      exact onRead_ok hdelivered hown.announces hown.taken.reads hpeer hforth husable
        (by rw [hcontents]; exact hne)

theorem Paired.sideStep_ok (h : Paired own peer) (e : SideEvent) :
    Guarantees (fun r => ∃ peer', r.2 = some peer' ∧ Paired r.1 peer') (sideStep own (some peer) e) := by
  unfold sideStep
  split
  · exact ⟨peer, rfl, h⟩
  · next halive =>
    obtain ⟨hown, hpeer⟩ | ⟨hown, -⟩ := h.together
    · exact (handle_ok hown hpeer h.forth h.back e).bind fun l ⟨peer', hworld, hpaired⟩ =>
        ⟨peer', hworld, hpaired⟩
    · exact absurd hown.destroyed halive

/-! ## A connection that waits for its peer -/

/-- Nothing was sent. -/
def Waits : History (Option Side) Empty := fun w sent _ _ => w = none ∧ sent = []

theorem keeps_waits : callbacks.Keeps Waits := fun _ _ _ _ handler => nomatch handler

theorem fails_waits : callbacks.Fails true Waits Waits := by
  rintro w sent ran ticks ⟨rfl, rfl⟩
  exact ⟨⟨[], [.destroy], rfl, nofun, fun z hz => List.mem_singleton.mp hz⟩, rfl, rfl⟩

/-- A connection without a peer: nothing was sent, and after bytes have come it is destroyed. -/
structure Waiting (own : Side) : Prop where
  link : Up own.link ∧ own.received = [] ∨ Down own.link
  unsent : own.link.sent = []

/-- A connection that waits after its event. -/
def Alone (received : Bytes) (l : Peered) : Prop :=
  l.world = none ∧ Waiting { link := l.within (), received := received }

theorem alone_of_survives {l : Peered} (h : Link.Survives true Waits Waits l) (htaken : l.conn.Taken) :
    Alone [] l := by
  obtain ⟨hdelivered, hcalled⟩ | hbroken := h
  · obtain ⟨done, hflow⟩ := id hdelivered
    exact ⟨hflow.user.1, .inl ⟨hdelivered.up hcalled htaken, rfl⟩, hflow.user.2⟩
  · exact ⟨hbroken.user.1, .inr (hbroken.down), hbroken.user.2⟩

theorem waiting_handle (hown : Up own.link) (hnone : own.received = []) (hunsent : own.link.sent = [])
    (e : SideEvent) :
    Guarantees (Alone (own.received ++ e.bytes)) (handle (own.link.within none) e) := by
  have hdelivered : Link.Delivered Waits (own.link.within none) := hown.within ⟨rfl, hunsent⟩
  have hsurvives : Link.Survives true Waits Waits (own.link.within none) :=
    .inl ⟨hdelivered, hown.announces⟩
  rw [hnone, List.nil_append]
  cases e with
  | writ as =>
    refine (hsurvives.handleWritEvent_ok keeps_waits fails_waits as).imp_ok fun l hl hout => ?_
    exact alone_of_survives hout (hown.taken.still (Link.stillBy_handleWritEvent hl).conn)
  | read a =>
    obtain ⟨done, hflow⟩ := id hdelivered
    rw [SideEvent.bytes]
    refine Link.handleReadEvent_ok (l := own.link.within none) hown.taken hown.alive
      hflow.isOpen.socket (fun hnil => ?_) (fun hnil => ?_) fun buffer husable hcontents hne => ?_
    · rw [hnil]
      exact alone_of_survives hsurvives hown.taken
    · obtain ⟨l, hl, hbroken⟩ := hdelivered.handleErroEvent_ok hown.announces fails_waits
      rw [hnil, hl]
      exact alone_of_survives (.inr hbroken) (hown.taken.still (Link.still_handleErroEvent hl).conn)
    · -- there is no `context_`: the callback destroys the connection
      have hread := hdelivered.withWorld (K := Waits) none buffer hflow.user
      have hbroken := hread.destroyed (K := Waits) hflow.user
      exact ⟨rfl, .inr (hbroken.down), hunsent⟩

theorem Waiting.sideStep_ok (h : Waiting own) (e : SideEvent) :
    Guarantees (fun r => r.2 = none ∧ Waiting r.1) (sideStep own none e) := by
  unfold sideStep
  split
  · exact ⟨rfl, h⟩
  · next halive =>
    obtain ⟨hown, hnone⟩ | hown := h.link
    · exact (waiting_handle hown hnone h.unsent e).bind fun l hl => hl
    · exact absurd hown.destroyed halive

theorem Waiting.destroy (h : Waiting own) : Waiting own.destroy ∧ Down own.destroy.link := by
  have hdown : Down own.destroy.link := by
    obtain ⟨hown, -⟩ | hown := h.link
    · exact hown.destroy
    · unfold Side.destroy Connection.destroy
      rw [if_pos hown.destroyed]
      exact hown
  exact ⟨⟨.inr hdown, h.unsent⟩, hdown⟩

/-! ## Runs -/

/-- The relayer between two events. -/
inductive Relays (s : State) : Prop where
  | waiting : s.c = none → Waiting s.conn → (s.answered = true → Down s.conn.link) → Relays s
  /-- The accepted connection was gone when the other one came. -/
  | refused {c : Side} : s.c = some c → Down s.conn.link → Down c.link → s.conn.link.sent = [] →
      c.link.sent = [] → s.answered = true → Relays s
  | paired {c : Side} : s.c = some c → Paired s.conn c → s.answered = true → Relays s

variable {s : State}

/-- The callbacks are there already. -/
theorem setCallbacks_ok (h : Up l) : ∃ c, setCallbacks l.conn = .ok c ∧ Up { l with conn := c } := by
  have hsame : { l.conn with readEventCallback_ := true, erroEventCallback_ := true } = l.conn := by
    have hread := h.taken.reads h.alive
    have herro := h.announces h.alive
    cases hconn : l.conn
    rw [hconn] at hread herro
    cases hread
    cases herro
    rfl
  obtain ⟨l', hl', hdelivered, -⟩ :=
    h.delivered.call_ok (x := .enableRead true) trivial (K := fun _ _ _ _ => True) trivial
  obtain ⟨c, hc, hl'⟩ := bind_eq_ok.mp hl'
  cases hl'
  refine ⟨c, ?_, ?_, h.announces.call hc, h.taken.still (Connection.still_call hc)⟩
  · unfold setCallbacks
    rw [hsame]
    exact hc
  · rw [show ConnCall.messages (.enableRead true : ConnCall Empty) = [] from rfl, List.append_nil]
      at hdelivered
    exact hdelivered

/-- The new connection has no callbacks yet. -/
theorem up_connected : ∃ c, setCallbacks connected = .ok c ∧ Up (.start c ()) :=
  ⟨_, rfl, up_start ⟨rfl, rfl, ⟨_, rfl, fun h => absurd rfl h⟩, nofun⟩ rfl
    ⟨Connection.taken_accepted.usable, Connection.taken_accepted.empty, fun _ => rfl⟩ fun _ => rfl⟩

theorem down_connected : Down (.start connected.destroy ()) := by
  exact ⟨rfl, rfl, rfl, trivial, List.prefix_rfl, rfl⟩

theorem Waiting.onConnect_ok (h : Waiting s.conn) (ok : Bool) : Guarantees Relays (onConnect s ok) := by
  unfold onConnect
  split
  · next hpair =>
    obtain ⟨-, halive⟩ := Bool.and_eq_true_iff.mp hpair
    obtain ⟨hup, hnone⟩ | hdown := h.link
    · obtain ⟨c, hc, hupc⟩ := up_connected
      obtain ⟨conn, hconn, hupconn⟩ := setCallbacks_ok hup
      rw [hc, ok_bind, hconn, ok_bind]
      exact .paired rfl ⟨.inl ⟨hupconn, hupc⟩, hnone.symm, by rw [h.unsent]; rfl⟩ rfl
    · rw [hdown.destroyed] at halive
      cases halive
  · obtain ⟨hwaiting, hdown⟩ := h.destroy
    cases ok with
    | false => exact .waiting rfl hwaiting fun _ => hdown
    | true => exact .refused rfl hdown down_connected hwaiting.unsent rfl rfl

/-- A connection that is destroyed gets no events. -/
theorem sideStep_down {own : Side} (h : Down own.link) (peer : Option Side) (e : SideEvent) :
    sideStep own peer e = .ok (own, peer) := if_pos h.destroyed

theorem Relays.step_ok (h : Relays s) (e : Event) : Guarantees Relays (step s e) := by
  cases e with
  | connected ok =>
    refine Guarantees.guard fun hanswered => ?_
    cases h with
    | waiting _ hwaiting _ => exact hwaiting.onConnect_ok ok
    | refused _ _ _ _ _ hdone | paired _ _ hdone =>
      rw [hdone] at hanswered
      cases hanswered
  | conn e =>
    unfold step
    dsimp only
    cases h with
    | waiting hnone hwaiting hdone =>
      rw [hnone]
      by_cases hanswered : s.answered = true
      · rw [sideStep_down (hdone hanswered)]
        exact .waiting rfl hwaiting hdone
      · refine (hwaiting.sideStep_ok e).bind fun r hr => ?_
        exact .waiting hr.1 hr.2 fun h => absurd h hanswered
    | refused hsome hconn hc hunsent hunsentc hdone =>
      rw [sideStep_down hconn]
      exact .refused hsome hconn hc hunsent hunsentc hdone
    | paired hsome hpaired hdone =>
      rw [hsome]
      refine (hpaired.sideStep_ok e).bind fun r hr => ?_
      obtain ⟨c, hc, hpaired'⟩ := hr
      exact .paired hc hpaired' hdone
  | c e =>
    unfold step
    dsimp only
    cases h with
    | waiting hnone _ _ =>
      rw [hnone]
      rfl
    | refused hsome hconn hc hunsent hunsentc hdone =>
      rw [hsome]
      dsimp only
      rw [sideStep_down hc]
      exact .refused rfl hconn hc hunsent hunsentc hdone
    | paired hsome hpaired hdone =>
      rw [hsome]
      refine (hpaired.symm.sideStep_ok e).bind fun r hr => ?_
      obtain ⟨conn, hconn, hpaired'⟩ := hr
      rw [hconn]
      exact .paired rfl hpaired'.symm hdone

/-- Bytes go both ways, and an error of the one ends the other. -/
example : (run step start
    [.connected true, .conn (.read (.received [1, 2])), .c (.writ [.accepted 1]),
      .c (.read (.received [3])), .conn (.writ [.accepted 1]), .c (.read .closed)]).map (fun s =>
        (s.conn.link.wire, s.c.map fun c => c.link.wire, s.conn.link.conn.destroy_))
    = .ok ([3], some [1], true) := by decide +kernel

end Liby.Relay
