import Liby.Examples.Echo
import Liby.Net.GracefulClose
import Liby.Util.TimeString

/-!
# The daytime server

`examples/daytime.cpp`: a connection that is accepted is sent the time and a newline, and the handler of the
newline destroys it. The client gets the whole line before the connection goes, whatever the socket takes at a
time, unless an error comes first.
-/

namespace Liby.Daytime

open Infra Outbox TimeThread
open Echo (Event)

/--
The handler and the error callback of a `TcpServer` destroy the connection. The server has no state of its own:
in its place stands whether the error callback has run.
-/
def callbacks : Callbacks Bool Unit where
  complete := fun w _ => (w, [.destroy])
  onErro := fun _ => (true, [.destroy])

/-- A connection of the server, which has no read callback. -/
def connection : Connection Unit := { (.accepted : Connection Unit) with readEventCallback_ := false }

/-- `onAccept`. -/
def onAccept (localtime : Int → Tm) (s : TimeThread) (now : TimeCall) : Exec (Link Bool Unit) := do
  let s ← s.toString localtime now
  (Link.start connection false).calls
    [.sendCString (s.texts.getLast?.getD []) none, .sendCString (str "\n") (some ())]

/-- An event; a connection that is destroyed is not in the poller. What is read stays where it is. -/
def step (l : Link Bool Unit) (e : Event) : Exec (Link Bool Unit) :=
  if l.conn.destroy_ then .ok l
  else
    match e with
    | .read a => l.handleReadEvent callbacks pure a
    | .writ as => l.handleWritEvent callbacks as

/-- What is sent: the time, and the newline with its handler. -/
def lineOf (now : Bytes) : List (Message UInt8 (Option Unit)) :=
  [{ payload := now, tag := none }, { payload := str "\n", tag := some () }]

/-- The line is all that was sent. -/
def Says (now : Bytes) : History Bool Unit := fun _ sent _ _ => sent = lineOf now

/-- The handler has run, or the error callback. -/
def Over (now : Bytes) : History Bool Unit := fun w sent ran _ => sent = lineOf now ∧ (ran ≠ [] ∨ w = true)

/-- A connection of the server between two events. -/
structure Serves (now : Bytes) (l : Link Bool Unit) : Prop where
  ends : Link.Ends true (Says now) (Over now) l
  noFiles : l.conn.NoFiles
  readable : l.conn.readBuf_.Readable

variable {now : Bytes} {l : Link Bool Unit}

theorem handlers_end : callbacks.HandlersEnd :=
  fun _ _ => ⟨[], [.destroy], rfl, nofun, fun _ hz => List.mem_singleton.mp hz⟩

theorem keeps_says : callbacks.stays.Keeps (Says now) := by
  intro w sent ran ticks handler h _
  refine ⟨handlers_end.stays_send w handler, ?_⟩
  show sent ++ [] = lineOf now
  rw [List.append_nil]
  exact h

theorem fails_says : callbacks.Fails true (Says now) (Over now) := by
  intro w sent ran ticks h
  refine ⟨⟨[], [.destroy], rfl, nofun, fun _ hz => List.mem_singleton.mp hz⟩, ?_, .inr rfl⟩
  show sent ++ [] = lineOf now
  rw [List.append_nil]
  exact h

theorem seals_says : Link.Seals (Says now) (Over now) := fun _ _ _ _ h hran => ⟨h, .inl hran⟩

theorem noFiles_callbacks : callbacks.NoFiles where
  complete := fun _ _ x hx => by rw [List.mem_singleton.mp hx]; rfl
  onErro := fun _ x hx => by rw [List.mem_singleton.mp hx]; rfl

/-- A read event keeps what was read, or ends with the error callback. -/
theorem read_ok (h : Serves now l) (hdelivered : Link.Delivered (Says now) l)
    (hcalled : l.conn.Announces true) (a : ReadAnswer) :
    Guarantees (Serves now) (l.handleReadEvent callbacks pure a) := by
  obtain ⟨done, hflow⟩ := id hdelivered
  have herro : Guarantees (Serves now) (l.handleErroEvent callbacks) := by
    obtain ⟨l', hl', hbroken⟩ := hdelivered.handleErroEvent_ok hcalled fails_says
    rw [hl']
    refine ⟨.inr hbroken.closed, Link.noFiles_handleErroEvent noFiles_callbacks h.noFiles hl', ?_⟩
    rw [(Link.still_handleErroEvent hl').conn.readBuf]
    exact h.readable
  unfold Link.handleReadEvent
  rw [h.readable.availbleSize_eq, ok_bind, guardOr_pos hflow.isOpen.socket, ok_bind]
  cases a with
  | again => exact h
  | closed => exact herro
  | failed => exact herro
  | received bytes =>
    refine (Connection.receive_ok h.readable bytes).bind fun conn hconn => ?_
    obtain ⟨-, buffer, rfl, hreadable, -⟩ := hconn
    have hserves : Serves now { l with conn := { l.conn with readBuf_ := buffer } } :=
      ⟨.inl ⟨hdelivered.withWorld l.world buffer hflow.user, hcalled⟩, h.noFiles, hreadable⟩
    dsimp only
    split
    · exact hserves
    · exact hserves

theorem Serves.step_ok (h : Serves now l) (e : Event) : Guarantees (Serves now) (step l e) := by
  unfold step
  split
  · exact h
  · next halive =>
    obtain ⟨hdelivered, hcalled⟩ | hclosed := id h.ends
    · cases e with
      | read a => exact read_ok h hdelivered hcalled a
      | writ as =>
        refine (h.ends.handleWritEvent_ok handlers_end keeps_says seals_says fails_says
          (Link.fileStays_of_noFiles noFiles_callbacks h.noFiles)).imp_ok fun l' hl' hout => ?_
        refine ⟨hout, Link.noFiles_handleWritEvent noFiles_callbacks h.noFiles hl', ?_⟩
        rw [(Link.stillBy_handleWritEvent hl').conn.readBuf]
        exact h.readable
    · exact absurd hclosed.destroyed halive

/-- A start of the line that has a handler is the whole line. -/
theorem prefix_lineOf {done : List (Message UInt8 (Option Unit))} (h : done <+: lineOf now)
    (hhandler : done.filterMap Message.tag ≠ []) : done = lineOf now := by
  obtain ⟨rest, hrest⟩ := h
  match done with
  | [] => exact absurd rfl hhandler
  | [m] =>
    cases hrest
    exact absurd rfl hhandler
  | [m, m'] =>
    cases hrest
    rfl
  | m :: m' :: m'' :: done => cases hrest

/-- The client has the line, or the start of it after an error. -/
theorem Serves.result (h : Serves now l) : l.wire <+: now ++ str "\n" ∧
    (l.conn.destroy_ = false → l.conn.Interested ∧
      l.wire ++ (l.conn.writTasks_.map IoTask.remaining).flatten = now ++ str "\n") ∧
    (l.conn.destroy_ = true → l.wire = now ++ str "\n" ∨ l.world = true) := by
  have hline : stream (lineOf now) = now ++ str "\n" := by
    show now ++ (str "\n" ++ []) = _
    rw [List.append_nil]
  obtain ⟨hwire, hthrough, hrest⟩ := h.ends.result
  obtain ⟨⟨done, hflow⟩, -⟩ | hclosed := h.ends
  · have hsent : l.sent = lineOf now := hflow.user
    rw [hsent, hline] at hwire hrest
    refine ⟨hwire, fun halive => ⟨hflow.isOpen.interest, (hrest halive).1⟩, fun hdestroyed => ?_⟩
    rw [hflow.isOpen.alive] at hdestroyed
    cases hdestroyed
  · obtain ⟨hsent, hover⟩ : l.sent = lineOf now ∧ (l.ran ≠ [] ∨ l.world = true) := hclosed.user
    rw [hsent, hline] at hwire
    refine ⟨hwire, fun halive => ?_, fun _ => hover.imp_left fun hran => ?_⟩
    · rw [hclosed.destroyed] at halive
      cases halive
    · obtain ⟨done, hdone, hran', hstream⟩ := hthrough
      rw [hsent] at hdone
      rw [prefix_lineOf hdone (by rw [← hran']; exact hran), hline] at hstream
      exact hwire.eq_of_length (Nat.le_antisymm hwire.length_le hstream.length_le)

/-- What is sent to a connection that is accepted. -/
theorem serves_start (hne : now ≠ []) (hnul : 0 ∉ now) : ∃ l, (Link.start connection false).calls
    [.sendCString now none, .sendCString (str "\n") (some ())] = .ok l ∧ Serves now l := by
  have htake : now.takeWhile (· ≠ 0) = now := by
    refine List.takeWhile_eq_self_iff.mpr fun c hc => ?_
    simpa using fun hzero : c = 0 => hnul (hzero ▸ hc)
  have hstart : Link.Delivered (fun _ _ _ _ => True) (Link.start connection false) :=
    ⟨[], ⟨rfl, rfl, ⟨_, rfl, fun h => absurd rfl h⟩, nofun⟩, trivial, rfl, [], rfl, cut_nil⟩
  have hsends : ∀ x ∈ [ConnCall.sendCString now none, .sendCString (str "\n") (some ())], x.Sends := by
    intro x hx
    rcases List.mem_pair.mp hx with rfl | rfl
    · show now.takeWhile (· ≠ 0) ≠ []
      rw [htake]
      exact hne
    · show (str "\n").takeWhile (· ≠ 0) ≠ []
      decide
  obtain ⟨l, hl, hdelivered, -⟩ := hstart.calls_delivered hsends false (L := Says now) (by
    show [{ payload := now.takeWhile (· ≠ 0), tag := none }, _] = lineOf now
    rw [htake]
    rfl)
  refine ⟨l, hl, .inl ⟨hdelivered, ?_⟩, ?_, ?_⟩
  · exact Link.announces_calls (fun _ => rfl) hl
  · refine Link.noFiles_calls (l := Link.start connection false) nofun (fun x hx => ?_) hl
    rcases List.mem_pair.mp hx with rfl | rfl <;> rfl
  · rw [(Link.still_calls hl).conn.readBuf]
    exact (Buffer.usable_ofLength (Nat.succ_pos 1023)).readable

/--
**A client of the daytime server gets the whole line before its connection goes.** The thread has printed
other times before, the first of them not in second 0. Then whatever the socket takes at a time, what has gone out
to the client is the start of the time and a newline; while the connection is not destroyed, the rest is in
`writTasks_` and the write interest is on; and it is destroyed with the whole line out, unless the error callback
has run. Nothing faults.
-/
theorem daytime_sends (localtime : Int → Tm) (before : List TimeCall) (now : TimeCall)
    (hfits : ∀ c ∈ before ++ [now], Fits c.time.tvUsec)
    (hfirst : ∀ c ∈ (before ++ [now]).head?, c.time.tvSec ≠ 0) (es : List Event) :
    let line := text localtime now.time ++ str "\n"
    ∃ s l, run (TimeThread.toString localtime) TimeThread.start before = .ok s ∧
      onAccept localtime s now = .ok l ∧
      (∀ l', run step l es = .ok l' → l'.wire <+: line ∧
        (l'.conn.destroy_ = false → l'.conn.Interested ∧
          l'.wire ++ (l'.conn.writTasks_.map IoTask.remaining).flatten = line) ∧
        (l'.conn.destroy_ = true → l'.wire = line ∨ l'.world = true)) ∧
      ∀ f, run step l es = .error f → f = .environment := by
  intro line
  obtain ⟨s', hs', htexts⟩ := run_start localtime hfits hfirst
  rw [run_append] at hs'
  obtain ⟨s, hs, hnow⟩ := bind_eq_ok.mp hs'
  obtain ⟨s'', hnow, hnil⟩ := run_cons_ok hnow
  cases hnil
  obtain ⟨hne, hnul⟩ := text_ne localtime now.time
  obtain ⟨l, hl, hserves⟩ := serves_start hne hnul
  have haccept : onAccept localtime s now = .ok l := by
    unfold onAccept
    rw [hnow, ok_bind, htexts, List.map_append, List.map_singleton, List.getLast?_append]
    exact hl
  have hrun : Guarantees (Serves (text localtime now.time)) (run step l es) :=
    run_guarantees (C := fun _ => True) (fun _ e h _ => h.step_ok e) hserves fun _ _ => trivial
  refine ⟨s, l, hs, haccept, fun l' hl' => ?_, fun f hf => ?_⟩
  · rw [hl'] at hrun
    exact hrun.result
  · rw [hf] at hrun
    exact hrun

theorem daytime_sends_pieces :
    let before : List TimeCall := [⟨⟨5, 42⟩, .replicate 48 1⟩]
    let now : TimeCall := ⟨⟨6, 7⟩, .replicate 48 1⟩
    let es : List Event := [.writ [.accepted 10], .read (.received [1, 2]), .writ [.again], .writ [.accepted 21]]
    ∃ s l l', run (TimeThread.toString firstMinute) TimeThread.start before = .ok s ∧
      onAccept firstMinute s now = .ok l ∧ run step l es = .ok l' ∧ l'.conn.destroy_ = true ∧
      l'.wire = text firstMinute now.time ++ str "\n" ∧
      l'.wire = str "1970.01.01 - 00:00:06 - 000007\n" := by
  intro before now es
  obtain ⟨s, l, hs, haccept, hsends, -⟩ := daytime_sends firstMinute before now (by decide) (by decide) es
  have hrun : (do
      let s ← run (TimeThread.toString firstMinute) TimeThread.start before
      let l ← onAccept firstMinute s now
      let l' ← run step l es
      return (l'.conn.destroy_, l'.world, l'.wire)) =
        .ok (true, false, str "1970.01.01 - 00:00:06 - 000007\n") := by decide +kernel
  rw [hs, ok_bind, haccept, ok_bind] at hrun
  obtain ⟨l', hl', hrun⟩ := bind_eq_ok.mp hrun
  have hrun := Except.ok.inj hrun
  simp only [Prod.mk.injEq] at hrun
  obtain ⟨hdestroyed, hworld, hwire⟩ := hrun
  refine ⟨s, l, l', hs, haccept, hl', hdestroyed, ?_, hwire⟩
  refine ((hsends l' hl').2.2 hdestroyed).resolve_right ?_
  rw [hworld]
  exact Bool.false_ne_true

end Liby.Daytime
