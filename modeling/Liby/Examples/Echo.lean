import Liby.Net.ReadAll

/-!
# The echo server

`examples/echo.cpp`: the read callback of every connection is `conn.send(conn.read())`. What a connection
gets back is what it has sent, whatever the socket answers on the way.
-/

namespace Liby.Echo

open Infra Outbox

/-- There are no completion handlers, and the error callback of a `TcpServer` destroys the connection. -/
def callbacks : Callbacks Bytes Empty where
  complete := fun w _ => (w, [])
  onErro := fun w => (w, [.destroy])

/-- The read callback. -/
def onRead (l : Link Bytes Empty) : Exec (Link Bytes Empty) := do
  let (conn, readBuf) ← l.conn.sendBuffer l.conn.readBuf_ none
  return { l with
    conn := { conn with readBuf_ := readBuf }
    sent := l.sent ++ [{ payload := l.conn.readBuf_.contents, tag := none }] }

/-- What the poller tells a connection. -/
inductive Event where
  | read (a : ReadAnswer)
  | writ (as : List WriteAnswer)
  deriving DecidableEq, Repr

/--
An event; a connection that is destroyed is not in the poller. The server has no state of its own: in its
place stand the bytes that were received.
-/
def step (l : Link Bytes Empty) (e : Event) : Exec (Link Bytes Empty) :=
  if l.conn.destroy_ then .ok l
  else
    match e with
    | .read a => do
      let l ← l.handleReadEvent callbacks onRead a
      return { l with world := l.world ++ a.bytes }
    | .writ as => l.handleWritEvent callbacks as

/-- What was sent is what was received. -/
def Echoes : History Bytes Empty := fun received sent _ _ => stream sent = received

/-- A connection of the server between two events. -/
structure Serves (l : Link Bytes Empty) : Prop where
  survives : Link.Survives true Echoes Echoes l
  taken : l.conn.Taken

theorem keeps_echoes : callbacks.Keeps Echoes := fun _ _ _ _ handler => nomatch handler

theorem fails_echoes : callbacks.Fails true Echoes Echoes := by
  intro w sent ran ticks h
  refine ⟨⟨[], [.destroy], rfl, nofun, fun z hz => List.mem_singleton.mp hz⟩, ?_⟩
  show stream (sent ++ []) = w
  rw [List.append_nil]
  exact h

theorem serves_start : Serves (Link.start .accepted []) where
  survives := .inl ⟨⟨[], Connection.open_accepted, rfl, rfl, [], rfl, cut_nil⟩, fun _ => rfl⟩
  taken := Connection.taken_accepted

variable {l : Link Bytes Empty}

/-- The bytes that were received are noted. -/
def noted (l : Link Bytes Empty) (bytes : Bytes) : Link Bytes Empty :=
  { l with world := l.world ++ bytes }

theorem Serves.noted_nil (h : Serves l) : Serves (noted l []) := by
  unfold noted
  rw [List.append_nil]
  exact h

/-- The callback sends what was read. -/
theorem onRead_ok (hdelivered : Link.Delivered Echoes l) (hcalled : l.conn.Announces true)
    (hreads : l.conn.Reads) {buffer : Buffer} (husable : buffer.Usable) (hne : buffer.contents ≠ []) :
    Guarantees (fun l' => Serves (noted l' buffer.contents))
      (onRead { l with conn := { l.conn with readBuf_ := buffer } }) := by
  obtain ⟨done, hflow⟩ := id hdelivered
  have hecho : stream l.sent = l.world := hflow.user
  have hread := hdelivered.withWorld (K := Echoes) l.world buffer hflow.user
  obtain ⟨c, hsend, hsent, hstill, hannounces⟩ := hread.sendBuffer_ok husable hne none
    (K := fun received sent _ _ => stream sent = received ++ buffer.contents) (by
      show stream (l.sent ++ [_]) = _
      rw [stream_append, hecho]
      simp)
  unfold onRead
  rw [hsend, ok_bind]
  refine ⟨.inl ⟨hsent.withWorld (K := Echoes) (l.world ++ buffer.contents) _ ?_, ?_⟩,
    .swapped husable (hstill.reads hreads)⟩
  · obtain ⟨done', hflow'⟩ := hsent
    exact hflow'.user
  · exact hannounces true hcalled

/-- A read event notes what has come. -/
theorem read_ok (h : Serves l) (hdelivered : Link.Delivered Echoes l) (hcalled : l.conn.Announces true)
    (a : ReadAnswer) : Guarantees (fun l' => Serves (noted l' a.bytes))
      (l.handleReadEvent callbacks onRead a) := by
  obtain ⟨done, hflow⟩ := id hdelivered
  refine Link.handleReadEvent_ok h.taken hflow.isOpen.alive hflow.isOpen.socket (fun hnone => ?_)
    (fun hnone => ?_) fun buffer husable hcontents hne => ?_
  · rw [hnone]
    exact h.noted_nil
  · obtain ⟨l', hl', hbroken⟩ := hdelivered.handleErroEvent_ok hcalled fails_echoes
    have hserves : Serves l' := ⟨.inr hbroken, h.taken.still (Link.still_handleErroEvent hl').conn⟩
    rw [hl', hnone]
    exact hserves.noted_nil
  · rw [← hcontents]
    exact onRead_ok hdelivered hcalled h.taken.reads husable (by rw [hcontents]; exact hne)

theorem Serves.step_ok (h : Serves l) (e : Event) : Guarantees Serves (step l e) := by
  unfold step
  split
  · exact h
  · next halive =>
    obtain ⟨hdelivered, hcalled⟩ | hbroken := id h.survives
    · cases e with
      | read a => exact (read_ok h hdelivered hcalled a).bind fun l' hl' => hl'
      | writ as =>
        refine (h.survives.handleWritEvent_ok keeps_echoes fails_echoes as).imp_ok fun l' hl' hout => ?_
        exact ⟨hout, h.taken.still (Link.stillBy_handleWritEvent hl').conn⟩
    · exact absurd hbroken.destroyed halive

/-- What went out is the start of what came in, and the rest waits. -/
theorem Serves.result (h : Serves l) : l.wire <+: l.world ∧ (l.conn.destroy_ = false →
    l.wire ++ (l.conn.writTasks_.map IoTask.remaining).flatten = l.world) := by
  have hecho : stream l.sent = l.world := by
    obtain ⟨⟨done, hflow⟩, -⟩ | hbroken := h.survives
    · exact hflow.user
    · exact hbroken.user
  obtain ⟨hwire, -, hrest⟩ := h.survives.result
  rw [hecho] at hwire hrest
  exact ⟨hwire, hrest⟩

/--
**A client of the echo server gets back what it has sent.** After any events of its connection, errors
among them, the bytes that went out to the client are the start of those that were received from it; while
the connection is not destroyed, the rest of them is in `writTasks_`. Nothing faults.
-/
theorem echo_returns (es : List Event) : Guarantees
    (fun l => l.wire <+: l.world ∧ (l.conn.destroy_ = false →
      l.wire ++ (l.conn.writTasks_.map IoTask.remaining).flatten = l.world))
    (run step (Link.start .accepted []) es) := by
  have hrun : Guarantees Serves (run step (Link.start .accepted []) es) :=
    run_guarantees (C := fun _ => True) (fun _ e h _ => h.step_ok e) serves_start fun _ _ => trivial
  exact hrun.imp_ok fun l _ h => h.result

/-- A part of what came goes back, and then the socket fails. -/
example : (run step (Link.start .accepted [])
    [.read (.received [1, 2, 3]), .writ [.accepted 2], .read (.received [4]), .writ [.accepted 2, .failed],
      .read .closed]).map (fun l => (l.wire, l.world, l.conn.destroy_))
    = .ok ([1, 2, 3, 4], [1, 2, 3, 4], true) := by decide +kernel

end Liby.Echo
