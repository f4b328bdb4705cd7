import Liby.Examples.Echo

/-!
# The echo client and the echo server

`examples/echo_client.cpp` against `examples/echo.cpp`: the client sends a message and sends back whatever it
reads, until it has read enough; the server sends back too. Between the two the network gives to each
side what the other has put on the wire, in any pieces and at any time. The message goes round, and
nothing else.

The client is taken up when all of them are connected. `conns` keeps a `Connection *` of each until then, and
an error in this wait would free one and leave its pointer dangling; no event comes in it here.
-/

namespace Liby.EchoClient

open Infra Outbox Echo

/-- `*pBytes`, an `unsigned long`, with the bytes that were read and whether the error callback has run. -/
structure Client where
  pBytes : Nat
  received : Bytes
  erred : Bool
  deriving DecidableEq, Repr

/-- The error callback counts the client off, and no more. -/
def callbacks : Callbacks Client Empty where
  complete := fun w _ => (w, [])
  onErro := fun w => ({ w with erred := true }, [])

/-- `*pBytes += c.read().size()`. -/
def Client.read (w : Client) (bytes : Bytes) : Client :=
  { w with pBytes := (w.pBytes + bytes.length) % 2 ^ 64, received := w.received ++ bytes }

/-- The read callback, up to the handler that counts the client off. -/
def onRead (bytesPerClients : Nat) (l : Link Client Empty) : Exec (Link Client Empty) := do
  let buffer := l.conn.readBuf_
  let _ ← buffer.size
  let (conn, readBuf) ← l.conn.sendBuffer buffer none
  let l := { l with
    conn := { conn with readBuf_ := readBuf }
    world := l.world.read buffer.contents
    sent := l.sent ++ [{ payload := buffer.contents, tag := none }] }
  if bytesPerClients ≤ l.world.pBytes then return { l with conn := l.conn.destroy }
  else return l

/-- The connection of a client once all are connected, with no event since it was, and its callbacks set. -/
def start (last : Bool) (buf : Bytes) : Exec (Link Client Empty) :=
  (Link.start .accepted { pBytes := 0, received := [], erred := false }).calls
    -- only the client that is connected last goes on reading until all of them start
    ((if last then [] else [.enableRead false]) ++ [.enableRead true, .send buf none])

/-- An event of the client; a connection that is destroyed is not in the poller. -/
def clientStep (bytesPerClients : Nat) (l : Link Client Empty) (e : Event) : Exec (Link Client Empty) :=
  if l.conn.destroy_ then .ok l
  else
    match e with
    | .read a => l.handleReadEvent callbacks (onRead bytesPerClients) a
    | .writ as => l.handleWritEvent callbacks as

/-- A client and its connection at the server. -/
structure Session where
  client : Link Client Empty
  server : Link Bytes Empty
  deriving DecidableEq, Repr

/-- An event of one of the two. -/
inductive SessionEvent where
  | client (e : Event)
  | server (e : Event)
  deriving DecidableEq, Repr

/-- The bytes that an event brings. -/
def bytesOf : Event → Bytes
  | .read a => a.bytes
  | .writ _ => []

/-- What can be read is what comes next of what the other side has put on the wire. -/
def step (bytesPerClients : Nat) (s : Session) : SessionEvent → Exec Session
  | .client e => do
    guardOr .environment (s.client.world.received ++ bytesOf e <+: s.server.wire)
    let client ← clientStep bytesPerClients s.client e
    return { s with client := client }
  | .server e => do
    guardOr .environment (s.server.world ++ bytesOf e <+: s.client.wire)
    let server ← Echo.step s.server e
    return { s with server := server }

/-! ## The client -/

/-- What the client has sent is the message and what it has read. -/
structure Counts (buf : Bytes) (w : Client) (sent : List (Message UInt8 (Option Empty))) : Prop where
  stream : stream sent = buf ++ w.received
  pBytes : w.pBytes = w.received.length % 2 ^ 64

/-- The client has not read enough. -/
def Rallies (buf : Bytes) (bytesPerClients : Nat) : History Client Empty := fun w sent _ _ =>
  Counts buf w sent ∧ (w.received = [] ∨ w.pBytes < bytesPerClients)

/-- It has, or the error callback has run. -/
def Ended (buf : Bytes) (bytesPerClients : Nat) : History Client Empty := fun w sent _ _ =>
  Counts buf w sent ∧ (w.erred = true ∨ bytesPerClients ≤ w.pBytes)

variable {buf : Bytes} {n : Nat} {l l' : Link Client Empty}

/-- A client between two events. -/
structure Plays (buf : Bytes) (bytesPerClients : Nat) (l : Link Client Empty) : Prop where
  survives : Link.Survives true (Rallies buf bytesPerClients) (Ended buf bytesPerClients) l
  taken : l.conn.Taken

theorem keeps_rallies : callbacks.Keeps (Rallies buf n) := fun _ _ _ _ handler => nomatch handler

theorem fails_rallies : callbacks.Fails true (Rallies buf n) (Ended buf n) := by
  rintro w sent ran ticks ⟨hcounts, -⟩
  refine ⟨⟨[], [], rfl, nofun, nofun⟩, ?_, .inl rfl⟩
  show Counts buf { w with erred := true } (sent ++ [])
  rw [List.append_nil]
  exact ⟨hcounts.stream, hcounts.pBytes⟩

/-- The counter has the length of what was read. -/
theorem Counts.read {w : Client} {sent : List (Message UInt8 (Option Empty))} (h : Counts buf w sent) (bytes : Bytes) :
    Counts buf (w.read bytes) (sent ++ [{ payload := bytes, tag := none }]) where
  stream := by
    rw [stream_append, h.stream]
    show buf ++ w.received ++ (bytes ++ []) = buf ++ (w.received ++ bytes)
    rw [List.append_nil, List.append_assoc]
  pBytes := by
    show (w.pBytes + bytes.length) % 2 ^ 64 = (w.received ++ bytes).length % 2 ^ 64
    rw [h.pBytes, List.length_append, Nat.mod_add_mod]

/-- What an event of the client does with `bytes`. -/
structure Takes (buf : Bytes) (n : Nat) (l : Link Client Empty) (bytes : Bytes) (l' : Link Client Empty) : Prop where
  plays : Plays buf n l'
  received : l'.world.received = l.world.received ++ bytes
  advances : Link.Advances l l'

/-- The callback sends what was read, and destroys the connection where that is enough. -/
theorem onRead_ok (hdelivered : Link.Delivered (Rallies buf n) l) (hcalled : l.conn.Announces true)
    (hreads : l.conn.Reads) {buffer : Buffer} (husable : buffer.Usable) (hne : buffer.contents ≠ []) :
    Guarantees (Takes buf n l buffer.contents)
      (onRead n { l with conn := { l.conn with readBuf_ := buffer } }) := by
  obtain ⟨done, hflow⟩ := id hdelivered
  obtain ⟨hcounts, -⟩ := id hflow.user
  have hread := hdelivered.withWorld (K := fun _ _ _ _ => True) (l.world.read buffer.contents) buffer trivial
  obtain ⟨c, hsend, hsent, hstill, hannounces⟩ := hread.sendBuffer_ok husable hne none
    (K := fun w sent _ _ => Counts buf w sent) (hcounts.read buffer.contents)
  have hlistens : l.conn.Listens → c.Listens := fun h =>
    Connection.Listens.sendBuffer (c := { l.conn with readBuf_ := buffer }) h hsend
  obtain ⟨done', hflow'⟩ := id hsent
  unfold onRead
  dsimp only
  rw [husable.readable.wf.size_eq, ok_bind, hsend, ok_bind]
  split
  · next henough =>
    have hended := hsent.withWorld (K := Ended buf n) (l.world.read buffer.contents) (.ofLength buffer.capacity_)
      ⟨hflow'.user, .inr henough⟩
    have hbroken := hended.destroyed (K := Ended buf n) ⟨hflow'.user, .inr henough⟩
    refine ⟨⟨.inr hbroken, ?_⟩, rfl, List.prefix_rfl, fun _ halive => ?_⟩
    · exact (Connection.Taken.swapped husable (hstill.reads hreads)).still (Connection.still_destroy _)
    · cases hbroken.destroyed.symm.trans halive
  · next hmore =>
    have hgoes := hsent.withWorld (K := Rallies buf n) (l.world.read buffer.contents) (.ofLength buffer.capacity_)
      ⟨hflow'.user, .inr (not_le.mp hmore)⟩
    refine ⟨⟨.inl ⟨hgoes, ?_⟩, .swapped husable (hstill.reads hreads)⟩, rfl, List.prefix_rfl, hlistens⟩
    exact hannounces true hcalled

theorem received_handleErroEvent (h : l.handleErroEvent callbacks = .ok l') :
    l'.world.received = l.world.received := by
  unfold Link.handleErroEvent at h
  dsimp only at h
  split at h
  · obtain ⟨l1, hcalls, h⟩ := bind_eq_ok.mp h
    cases hcalls
    cases h
    rfl
  · cases h
    rfl

/-- What was read stays as it is in a write event. -/
theorem steady_received (bytes : Bytes) : Link.Steady callbacks fun l => l.world.received = bytes where
  complete := fun {_ _ handler} => nomatch handler
  handleErroEvent := fun hl h => (received_handleErroEvent h).trans hl
  popFront := fun hl _ => hl
  shorten := fun hl _ _ => hl
  accept := id

/-- **An event of a client that is not destroyed.** -/
theorem Plays.step_ok (h : Plays buf n l) (e : Event) :
    Guarantees (fun l' => if l.conn.destroy_ then l' = l else Takes buf n l (bytesOf e) l') (clientStep n l e) := by
  unfold clientStep
  split
  · rfl
  · next halive =>
    obtain ⟨hdelivered, hcalled⟩ | hbroken := id h.survives
    · have hnone : Takes buf n l [] l := ⟨h, (List.append_nil _).symm, .refl l⟩
      obtain ⟨done, hflow⟩ := id hdelivered
      cases e with
      | read a =>
        refine Link.handleReadEvent_ok h.taken hflow.isOpen.alive hflow.isOpen.socket (fun hnil => ?_)
          (fun hnil => ?_) fun buffer husable hcontents hne => ?_
        · rw [bytesOf, hnil]
          exact hnone
        · obtain ⟨l', hl', hbroken⟩ := hdelivered.handleErroEvent_ok hcalled fails_rallies
          have hstill := Link.still_handleErroEvent hl'
          rw [hl', bytesOf, hnil]
          refine ⟨⟨.inr hbroken, h.taken.still hstill.conn⟩, ?_, Link.advances_handleErroEvent hl'⟩
          rw [received_handleErroEvent hl', List.append_nil]
        · rw [bytesOf, ← hcontents]
          exact onRead_ok hdelivered hcalled h.taken.reads husable (by rw [hcontents]; exact hne)
      | writ as =>
        refine (h.survives.handleWritEvent_ok keeps_rallies fails_rallies as).imp_ok fun l' hl' hout => ?_
        refine ⟨⟨hout, h.taken.still (Link.stillBy_handleWritEvent hl').conn⟩, ?_,
          Link.advances_handleWritEvent hl'⟩
        rw [bytesOf, List.append_nil]
        exact (steady_received l.world.received).handleWritEvent (fun _ _ _ hsame => hsame) rfl hl'
    · exact absurd hbroken.destroyed halive

/-- The bytes that a connection has still to send. -/
def queued {σ : Type} (l : Link σ Empty) : Bytes := (l.conn.writTasks_.map IoTask.remaining).flatten

/-- The two sides between two events, each of which has read the start of what the other has written. -/
structure Rally (buf : Bytes) (n : Nat) (s : Session) : Prop where
  client : Plays buf n s.client
  server : Echo.Serves s.server
  listens : s.client.conn.Listens ∧ s.server.conn.Listens
  back : s.client.world.received <+: s.server.wire
  forth : s.server.world <+: s.client.wire

variable {s : Session}

/-- The read callback of the server only sends. -/
theorem echo_onRead {l l' : Link Bytes Empty} (h : Echo.onRead l = .ok l') :
    Link.Advances l l' ∧ l'.world = l.world := by
  obtain ⟨⟨conn, readBuf⟩, hsend, h⟩ := bind_eq_ok.mp h
  cases h
  have hlistens : l.conn.Listens → conn.Listens := fun h => h.sendBuffer hsend
  exact ⟨⟨List.prefix_rfl, hlistens⟩, rfl⟩

/-- An event of the server. -/
theorem echo_step {l l' : Link Bytes Empty} {e : Event} (h : Echo.step l e = .ok l') :
    l' = l ∨ (Link.Advances l l' ∧ l'.world = l.world ++ bytesOf e) := by
  have hstill : Echo.callbacks.Still := ⟨fun _ _ => rfl, fun _ => rfl⟩
  unfold Echo.step at h
  split at h
  · cases h
    exact .inl rfl
  · right
    cases e with
    | read a =>
      obtain ⟨l1, hread, h⟩ := bind_eq_ok.mp h
      cases h
      have hsame : Link.Advances l l1 ∧ l1.world = l.world := by
        rcases Link.handleReadEvent_cases hread with ⟨-, rfl | herro⟩ | ⟨readBuf, rfl | honRead⟩
        · exact ⟨.refl _, rfl⟩
        · exact ⟨Link.advances_handleErroEvent herro, (Link.still_handleErroEvent herro).world hstill⟩
        · exact ⟨⟨List.prefix_rfl, id⟩, rfl⟩
        · obtain ⟨hadvances, hworld⟩ := echo_onRead honRead
          exact ⟨⟨hadvances.wire, hadvances.listens⟩, hworld⟩
      exact ⟨⟨hsame.1.wire, hsame.1.listens⟩, congrArg (· ++ a.bytes) hsame.2⟩
    | writ as =>
      refine ⟨Link.advances_handleWritEvent h, ?_⟩
      rw [bytesOf, List.append_nil]
      exact (Link.stillBy_handleWritEvent h).world hstill

theorem Rally.step_ok (h : Rally buf n s) (e : SessionEvent) : Guarantees (Rally buf n) (step n s e) := by
  cases e with
  | client e =>
    refine Guarantees.guard fun hnext => (h.client.step_ok e).bind fun client hclient => ?_
    split at hclient
    · rw [hclient]
      exact h
    · refine ⟨hclient.plays, h.server, ⟨hclient.advances.listens h.listens.1, h.listens.2⟩, ?_, ?_⟩
      · show client.world.received <+: s.server.wire
        rw [hclient.received]
        exact hnext
      · exact h.forth.trans hclient.advances.wire
  | server e =>
    refine Guarantees.guard fun hnext => ?_
    refine Guarantees.bind ((h.server.step_ok e).imp_ok (Q := fun server => Echo.Serves server ∧
      (server = s.server ∨ (Link.Advances s.server server ∧ server.world = s.server.world ++ bytesOf e)))
      fun server hserver hserves => ⟨hserves, echo_step hserver⟩) fun server hserver => ?_
    obtain ⟨hserves, rfl | ⟨hadvances, hworld⟩⟩ := hserver
    · exact h
    · refine ⟨h.client, hserves, ⟨h.listens.1, hadvances.listens h.listens.2⟩, h.back.trans hadvances.wire, ?_⟩
      show server.world <+: s.client.wire
      rw [hworld]
      exact hnext

end Liby.EchoClient
