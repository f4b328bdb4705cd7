import Liby.Net.TcpClient

/-!
# Every attempt to connect is answered

The connector of an attempt is called once, when the channel reports an error or becomes writable.
It is not called when the resolution returns no endpoint, and where `::socket` or `::connect` fails
at once an exception leaves the handler of `creatTcpClient` instead.

An attempt waits in one place at most: as a request, or in one event queue. While it does, it has no
channel; with its channel it is `Connecting`; after that no handler of the `TcpClient` is left on
the channel.
-/

namespace Liby

open Infra

variable {E : Type}

/-! ## Answers -/

/-- What the connector is to be given. -/
def ConnectOutcome.conn : ConnectOutcome E → Option (TcpConn E)
  | .unresolved => none
  | .failed => none
  | .connected conn => some { conn with self_ := true }

namespace ConnectAttempt

/-- The calls of a connector that the outcome asks for: one of the connector that was set. -/
def expected (a : ConnectAttempt E) : List (Nat × Option (TcpConn E)) :=
  match a.outcome with
  | none => []
  | some (outcome, connector) => connector.toList.map fun k => (k, outcome.conn)

/-- The attempt is answered once as soon as it has come out, and not before. -/
structure Answered (a : ConnectAttempt E) : Prop where
  answers : a.answers = a.expected
  /-- A connection is on the loop and the socket that were chosen. -/
  made : ∀ conn connector, a.outcome = some (.connected conn, connector) →
    a.target = some (conn.loop_, conn.socket_)

/-! ## Where an attempt is -/

/-- It has not come out, and was not answered. -/
structure Undecided (a : ConnectAttempt E) : Prop where
  outcome : a.outcome = none
  answers : a.answers = []
  conn : a.conn = none

/-- `setEventLoop` and `setSocket` have been called. -/
def Ready (a : ConnectAttempt E) (loop : Nat) : Prop :=
  a.client.loop_ = some loop ∧ a.client.poller_ = some loop ∧
    ∃ socket, a.client.socket_ = some socket ∧ a.target = some (loop, socket)

/-- It waits for the resolver or in an event queue. -/
structure Waiting (a : ConnectAttempt E) : Prop extends Undecided a where
  channel : a.channel = none

/-- Its channel has the handlers of the client. -/
structure Connecting (a : ConnectAttempt E) : Prop extends Undecided a where
  chan_ : a.client.chan_ = true
  channel : ∃ ch, a.channel = some ch ∧ a.Ready ch.poller_ ∧ ch.readEventCallback_ = none ∧
    ch.writEventCallback_ = some .client ∧ ch.erroEventCallback_ = some .client

/-- No channel has a handler of the client. -/
def Quiet (a : ConnectAttempt E) : Prop :=
  ∀ ch, a.channel = some ch → ∀ handler, ch.callback handler ≠ some .client

variable {a a' : ConnectAttempt E}

theorem expected_eq {outcome : ConnectOutcome E} {connector : Option Nat}
    (h : a.outcome = some (outcome, connector)) :
    a.expected = connector.toList.map fun k => (k, outcome.conn) := by
  unfold expected
  rw [h]

theorem Undecided.answered (h : Undecided a) : Answered a where
  answers := by
    unfold expected
    rw [h.outcome, h.answers]
  made conn connector hout := by
    rw [h.outcome] at hout
    cases hout

theorem Waiting.quiet (h : Waiting a) : Quiet a := by
  intro ch hch
  rw [h.channel] at hch
  cases hch

theorem waiting_new : Waiting (new : ConnectAttempt E) :=
  { outcome := rfl, answers := rfl, conn := rfl, channel := rfl }

/-- The resolution gave nothing: the attempt is answered only if nobody asked. -/
theorem Waiting.unresolved (h : Waiting a) :
    (a.comesOut .unresolved).Answered ↔ a.client.connector_ = none := by
  have hanswers : (a.comesOut .unresolved).answers = [] := h.answers
  have hexpected : (a.comesOut .unresolved).expected
      = a.client.connector_.toList.map fun k => (k, none) := rfl
  constructor
  · intro hall
    have heq := hall.answers
    rw [hanswers, hexpected] at heq
    cases hconnector : a.client.connector_ with
    | none => rfl
    | some k =>
      rw [hconnector] at heq
      cases heq
  · intro hnone
    refine ⟨?_, fun conn connector hout => by cases hout⟩
    rw [hanswers, hexpected, hnone]
    rfl

/-- `start` needs nothing but the poller. -/
theorem Waiting.start (h : Waiting a) {loop : Nat} (hready : a.Ready loop) (ctl : Bool) :
    (ctl = false ∧ a.start ctl = .error .exception) ∨
      ctl = true ∧ ∃ a', a.start ctl = .ok a' ∧ Connecting a' ∧ a'.user = a.user := by
  obtain ⟨hloop, hpoller, socket, hsocket, htarget⟩ := hready
  unfold ConnectAttempt.start
  rw [hloop, hsocket, hpoller]
  cases ctl with
  | false => exact Or.inl ⟨rfl, rfl⟩
  | true =>
    refine Or.inr ⟨rfl, _, rfl, ?_, rfl⟩
    exact
      { outcome := h.outcome, answers := h.answers, conn := h.conn, chan_ := rfl
        channel := ⟨_, rfl, ⟨hloop, hpoller, socket, hsocket, htarget⟩, rfl, rfl, rfl⟩ }

/-- After an error the connector has been called with `nullptr`, and the channel is gone. -/
theorem Connecting.handleErroEvent (h : Connecting a) :
    Answered a.handleErroEvent ∧ Quiet a.handleErroEvent := by
  constructor
  · refine ⟨?_, fun conn connector hout => by cases hout⟩
    show a.answers ++ _ = _
    rw [h.answers]
    rfl
  · intro ch hch
    have hnone : a.handleErroEvent.channel = if a.conn.isSome then a.channel else none := rfl
    rw [hnone, h.conn] at hch
    cases hch

/-- Between a write event and the handler that it has put off. -/
structure PutOff (a : ConnectAttempt E) (connPtr : TcpConn E) (connector : Option Nat) : Prop where
  chan_ : a.client.chan_ = true
  channel : ∃ ch, a.channel = some ch
  conn : a.conn = some connPtr
  target : a.target = some (connPtr.loop_, connPtr.socket_)
  outcome : a.outcome = some (.connected connPtr, connector)
  answers : a.answers = []

/-- A write event makes the connection and puts the rest off, on the loop of the channel. -/
theorem Connecting.handleWritEvent (h : Connecting a) {ch : TcpChannel} (hch : a.channel = some ch) :
    ∃ a' connPtr connector, a.handleWritEvent = .ok (a', ch.poller_, connPtr, connector) ∧
      PutOff a' connPtr connector ∧ a'.user = a.user := by
  obtain ⟨ch', hch', ⟨hloop, -, socket, hsocket, htarget⟩, -⟩ := h.channel
  rw [hch] at hch'
  cases hch'
  unfold ConnectAttempt.handleWritEvent
  rw [hloop, hsocket, hch]
  exact ⟨_, _, _, rfl,
    { chan_ := h.chan_, channel := ⟨_, rfl⟩, conn := rfl, target := htarget, outcome := rfl
      answers := h.answers }, rfl⟩

/-- The handler that was put off calls the connector with the connection, which has the channel. -/
theorem PutOff.connected {connPtr : TcpConn E} {connector : Option Nat}
    (h : PutOff a connPtr connector) : ∃ a', a.connected connPtr connector = .ok a' ∧
      Answered a' ∧ Quiet a' ∧ a'.user = a.user := by
  obtain ⟨ch, hch⟩ := h.channel
  have hkept : ∀ chan, ({ a with channel := some chan } : ConnectAttempt E).destroy.channel
      = some chan := by
    intro chan
    unfold destroy
    dsimp only
    rw [h.conn]
    rfl
  unfold ConnectAttempt.connected
  rw [guardOr_pos h.chan_, ok_bind, hch, derefOr_some, ok_bind]
  dsimp only
  rw [hkept, derefOr_some, ok_bind]
  refine ⟨_, rfl, ⟨?_, ?_⟩, ?_, rfl⟩
  · refine Eq.trans ?_ (expected_eq h.outcome).symm
    show a.answers ++ _ = _
    rw [h.answers]
    rfl
  · intro conn connector' hout
    have hout : a.outcome = some (.connected conn, connector') := hout
    rw [h.outcome] at hout
    cases hout
    exact h.target
  · rintro ch' hch' handler
    cases hch'
    cases handler <;> simp [TcpChannel.callback, TcpChannel.poll]

/-- What the caller does with a client leaves the attempt where it is. -/
structure SameCourse (a a' : ConnectAttempt E) : Prop where
  outcome : a'.outcome = a.outcome
  answers : a'.answers = a.answers
  target : a'.target = a.target
  conn : a'.conn = a.conn
  channel : a'.channel = a.channel
  chan_ : a'.client.chan_ = a.client.chan_
  loop_ : a'.client.loop_ = a.client.loop_
  poller_ : a'.client.poller_ = a.client.poller_
  socket_ : a'.client.socket_ = a.client.socket_
  user : a'.user = true → a.user = true

namespace SameCourse

theorem refl (a : ConnectAttempt E) : SameCourse a a := ⟨rfl, rfl, rfl, rfl, rfl, rfl, rfl, rfl, rfl, id⟩

theorem undecided (hs : SameCourse a a') (h : Undecided a) : Undecided a' where
  outcome := hs.outcome.trans h.outcome
  answers := hs.answers.trans h.answers
  conn := hs.conn.trans h.conn

theorem waiting (hs : SameCourse a a') (h : Waiting a) : Waiting a' :=
  { hs.undecided h.toUndecided with channel := hs.channel.trans h.channel }

theorem ready (hs : SameCourse a a') {loop : Nat} (h : a.Ready loop) : a'.Ready loop := by
  obtain ⟨hloop, hpoller, socket, hsocket, htarget⟩ := h
  exact ⟨hs.loop_.trans hloop, hs.poller_.trans hpoller, socket, hs.socket_.trans hsocket,
    hs.target.trans htarget⟩

theorem connecting (hs : SameCourse a a') (h : Connecting a) : Connecting a' := by
  obtain ⟨ch, hch, hready, hcallbacks⟩ := h.channel
  exact { hs.undecided h.toUndecided with
    chan_ := hs.chan_.trans h.chan_
    channel := ⟨ch, hs.channel.trans hch, hs.ready hready, hcallbacks⟩ }

theorem quiet (hs : SameCourse a a') (h : Quiet a) : Quiet a' :=
  fun ch hch => h ch (hs.channel ▸ hch)

theorem answered (hs : SameCourse a a') (h : Answered a) : Answered a' where
  answers := by
    unfold expected
    rw [hs.outcome, hs.answers]
    exact h.answers
  made conn connector hout := by
    rw [hs.outcome] at hout
    exact hs.target.trans (h.made conn connector hout)

end SameCourse

end ConnectAttempt

/-! ## Queues -/

/-- An element of a list changes, and with it what it stands for. -/
theorem flatMap_set_perm {α β : Type _} (f : α → List β) : ∀ {l : List α} {i : Nat} {x : α},
    l[i]? = some x → ∀ y, ((l.set i y).flatMap f ++ f x).Perm (l.flatMap f ++ f y)
  | [], _, _, h => by cases h
  | x :: l, 0, x', h => fun y => by
    cases h
    rw [List.set_cons_zero, List.flatMap_cons, List.flatMap_cons, List.append_assoc, List.append_assoc]
    -- the two ends change places
    refine List.perm_append_comm.trans ((List.perm_append_comm.append_right (f y)).trans ?_)
    rw [List.append_assoc]
  | x' :: l, i + 1, x, h => fun y => by
    rw [List.set_cons_succ, List.flatMap_cons, List.flatMap_cons, List.append_assoc, List.append_assoc]
    exact (flatMap_set_perm f (by simpa using h) y).append_left (f x')

theorem modify_of_getElem? {α : Type _} {l : List α} {i : Nat} {x : α} (h : l[i]? = some x)
    (f : α → α) : l.modify i f = l.set i (f x) := by
  rw [List.modify_eq_set_getElem?, h]
  rfl

/-- The attempt that a handler is for. -/
def ConnectHandler.client : ConnectHandler E → Nat
  | .resolved c _ => c
  | .start c => c

namespace ConnectWorld

/-- The attempts that wait in an event queue. -/
def queued (q : EventQueue (ConnectHandler E)) : List Nat :=
  q.eventHandlers_.queue_.map ConnectHandler.client

/-- The attempts that wait, for the resolver and in event queues. -/
def waits (w : ConnectWorld E) : List Nat :=
  w.requests_.queue_.filterMap (·.handler) ++ w.equeues.flatMap queued

/-- The handler waits in the event queue of some loop. -/
def Queued (w : ConnectWorld E) (handler : ConnectHandler E) : Prop :=
  ∃ q ∈ w.equeues, handler ∈ q.eventHandlers_.queue_

/-- What every event keeps. -/
structure Sound (w : ConnectWorld E) : Prop where
  loops : w.equeues.length = w.n_ + 1
  /-- What an event puts off is run before the next one. -/
  ticks : w.nextTickHandlers_ = []
  /-- An attempt waits in one place. -/
  nodup : w.waits.Nodup
  requests : ∀ r ∈ w.requests_.queue_, (∃ c, r.handler = some c) ∧ ∀ loop, r.loop = some loop → loop ≤ w.n_
  waiting : ∀ c ∈ w.waits, ∃ a, w.attempts[c]? = some a ∧ a.Waiting
  ready : ∀ (c : Nat) (a : ConnectAttempt E), w.Queued (.start c) → w.attempts[c]? = some a → ∃ loop, a.Ready loop
  points : ∀ (c : Nat) (a : ConnectAttempt E), w.attempts[c]? = some a → a.Quiet ∨ a.Connecting

/-- Every attempt whose client the caller keeps is answered as it came out. -/
def Answered (w : ConnectWorld E) : Prop := ∀ a ∈ w.attempts, a.user = true → a.Answered

theorem waits_init (n : Nat) : (init n : ConnectWorld E).waits = [] := by
  refine List.flatMap_eq_nil_iff.mpr fun q hq => ?_
  rw [List.eq_of_mem_replicate hq]
  rfl

theorem sound_init (n : Nat) : Sound (init n : ConnectWorld E) where
  loops := List.length_replicate
  ticks := rfl
  nodup := by
    rw [waits_init]
    exact List.nodup_nil
  requests := nofun
  waiting c hc := by
    rw [waits_init] at hc
    cases hc
  ready := fun c a h ha => by cases ha
  points := fun c a ha => by cases ha

variable {w : ConnectWorld E} {c loop : Nat} {a a' : ConnectAttempt E}

theorem Sound.lt_of_waits (h : Sound w) (hc : c ∈ w.waits) : c < w.attempts.length := by
  obtain ⟨a, ha, -⟩ := h.waiting c hc
  exact (List.getElem?_eq_some_iff.mp ha).1

theorem Queued.waits {handler : ConnectHandler E} (h : w.Queued handler) :
    handler.client ∈ w.waits := by
  obtain ⟨q, hq, hmem⟩ := h
  refine List.mem_append_right _ (List.mem_flatMap.mpr ⟨q, hq, ?_⟩)
  exact List.mem_map_of_mem hmem

/-! ## What the parts of an event keep -/

/-- An attempt that does not wait changes. -/
theorem Sound.set (h : Sound w) (hc : c ∉ w.waits) (ha' : a'.Quiet ∨ a'.Connecting) :
    Sound { w with attempts := w.attempts.set c a' } where
  loops := h.loops
  ticks := h.ticks
  nodup := h.nodup
  requests := h.requests
  waiting c' hc' := by
    have hne : c ≠ c' := fun heq => hc (heq ▸ hc')
    obtain ⟨b, hb, hwait⟩ := h.waiting c' hc'
    exact ⟨b, (List.getElem?_set_ne hne).trans hb, hwait⟩
  ready c' b hq hb := by
    have hne : c ≠ c' := fun heq => hc (heq ▸ Queued.waits (w := w) hq)
    rw [List.getElem?_set_ne hne] at hb
    exact h.ready c' b hq hb
  points c' b hb := by
    rw [List.getElem?_set] at hb
    split at hb
    · split at hb
      · cases hb
        exact ha'
      · cases hb
    · exact h.points c' b hb

/-- Only the attempt that changes has to be looked at. -/
theorem Answered.set (hans : Answered w) (ha : w.attempts[c]? = some a) :
    Answered { w with attempts := w.attempts.set c a' } ↔ (a'.user = true → a'.Answered) := by
  have hlt := (List.getElem?_eq_some_iff.mp ha).1
  constructor
  · exact fun hall => hall a' (List.mem_set hlt a')
  · intro ha' b hb
    rcases List.mem_or_eq_of_mem_set hb with hb | rfl
    · exact hans b hb
    · exact ha'

/-- The world with another event queue for a loop. -/
abbrev setQueue (w : ConnectWorld E) (loop : Nat) (q : EventQueue (ConnectHandler E)) :
    ConnectWorld E := { w with equeues := w.equeues.set loop q }

theorem runEventHandler_eq {q : EventQueue (ConnectHandler E)} (hq : w.equeues[loop]? = some q)
    (handler : ConnectHandler E) : w.runEventHandler loop handler =
      w.setQueue loop (q.pushHandler handler).wakeup := by
  unfold runEventHandler
  rw [modify_of_getElem? hq]

theorem queue_pushHandler (q : EventQueue (ConnectHandler E)) (handler : ConnectHandler E) :
    (q.pushHandler handler).wakeup.eventHandlers_.queue_ = q.eventHandlers_.queue_ ++ [handler] := by
  rw [QueueThreads.wakeup_handlers]
  rfl

/-- What waits after an event queue has changed. -/
theorem waits_set {q : EventQueue (ConnectHandler E)} (hq : w.equeues[loop]? = some q)
    (q' : EventQueue (ConnectHandler E)) :
    ((w.setQueue loop q').waits ++ queued q).Perm (w.waits ++ queued q') := by
  unfold waits
  dsimp only
  rw [List.append_assoc, List.append_assoc]
  exact (flatMap_set_perm queued hq q').append_left _

theorem waits_runEventHandler {q : EventQueue (ConnectHandler E)} (hq : w.equeues[loop]? = some q)
    (handler : ConnectHandler E) :
    (w.runEventHandler loop handler).waits.Perm (handler.client :: w.waits) := by
  have hqueued : queued (q.pushHandler handler).wakeup = queued q ++ [handler.client] := by
    unfold queued
    rw [queue_pushHandler, List.map_append]
    rfl
  have hperm := waits_set hq (q.pushHandler handler).wakeup
  rw [← runEventHandler_eq hq, hqueued, ← List.append_assoc] at hperm
  -- the part that waited in the queue before is on both sides
  have hcons : (w.waits ++ queued q ++ [handler.client]).Perm
      (handler.client :: w.waits ++ queued q) := List.perm_append_singleton _ _
  exact (List.perm_append_right_iff _).mp (hperm.trans hcons)

/-- The first handler of a queue is taken. -/
theorem waits_pop {q : EventQueue (ConnectHandler E)} (hq : w.equeues[loop]? = some q)
    {handler : ConnectHandler E} {handlers : List (ConnectHandler E)}
    (hcons : q.eventHandlers_.queue_ = handler :: handlers) :
    w.waits.Perm (handler.client ::
      (w.setQueue loop { q with eventHandlers_ := { queue_ := handlers } }).waits) := by
  have hqueued : queued q
      = handler.client :: queued { q with eventHandlers_ := { queue_ := handlers } } := by
    unfold queued
    rw [hcons]
    rfl
  have hperm := waits_set hq { q with eventHandlers_ := { queue_ := handlers } }
  rw [hqueued] at hperm
  exact (List.perm_append_right_iff _).mp
    (hperm.symm.trans List.perm_middle)

theorem queued_set {q' : EventQueue (ConnectHandler E)} {handler : ConnectHandler E}
    (h : (w.setQueue loop q').Queued handler) : w.Queued handler ∨ handler ∈ q'.eventHandlers_.queue_ := by
  obtain ⟨q, hq, hmem⟩ := h
  rcases List.mem_or_eq_of_mem_set hq with hq | rfl
  · exact Or.inl ⟨q, hq, hmem⟩
  · exact Or.inr hmem

/-- A handler is taken out of the queue where it waited. -/
theorem Sound.pop (h : Sound w) {q : EventQueue (ConnectHandler E)}
    (hq : w.equeues[loop]? = some q) {handler : ConnectHandler E}
    {handlers : List (ConnectHandler E)} (hcons : q.eventHandlers_.queue_ = handler :: handlers) :
    Sound (w.setQueue loop { q with eventHandlers_ := { queue_ := handlers } }) ∧
      handler.client ∉ (w.setQueue loop { q with eventHandlers_ := { queue_ := handlers } }).waits := by
  have hperm := waits_pop hq hcons
  obtain ⟨hnot, hnodup⟩ := List.nodup_cons.mp (hperm.nodup_iff.mp h.nodup)
  refine ⟨⟨(List.length_set ..).trans h.loops, h.ticks, hnodup, h.requests, ?_, ?_, h.points⟩, hnot⟩
  · exact fun c hc => h.waiting c (hperm.mem_iff.mpr (List.mem_cons_of_mem _ hc))
  · intro c a hc ha
    rcases queued_set hc with hold | hmem
    · exact h.ready c a hold ha
    · exact h.ready c a ⟨q, List.mem_of_getElem? hq, hcons ▸ List.mem_cons_of_mem _ hmem⟩ ha

/-- An attempt that does not wait is put into an event queue. -/
theorem Sound.runEventHandler (h : Sound w) (hloop : loop ≤ w.n_) {handler : ConnectHandler E}
    (hnot : handler.client ∉ w.waits) (ha : w.attempts[handler.client]? = some a) (hwait : a.Waiting)
    (hready : ∀ c, handler = .start c → ∃ loop, a.Ready loop) :
    Sound (w.runEventHandler loop handler) := by
  obtain ⟨q, hq⟩ : ∃ q, w.equeues[loop]? = some q := by
    have hlt : loop < w.equeues.length := by
      rw [h.loops]
      exact Nat.lt_succ_of_le hloop
    exact ⟨_, List.getElem?_eq_getElem hlt⟩
  have hperm := waits_runEventHandler hq handler
  refine ⟨(List.length_modify ..).trans h.loops, h.ticks, ?_, h.requests, ?_, ?_, h.points⟩
  · exact hperm.nodup_iff.mpr (List.nodup_cons.mpr ⟨hnot, h.nodup⟩)
  · intro c hc
    rcases List.mem_cons.mp (hperm.mem_iff.mp hc) with rfl | hc
    · exact ⟨a, ha, hwait⟩
    · exact h.waiting c hc
  · intro c b hc hb
    rw [runEventHandler_eq hq] at hc
    rcases queued_set hc with hold | hmem
    · exact h.ready c b hold hb
    · rw [queue_pushHandler] at hmem
      rcases List.mem_append.mp hmem with hmem | hmem
      · exact h.ready c b ⟨q, List.mem_of_getElem? hq, hmem⟩ hb
      · have heq := List.mem_singleton.mp hmem
        subst heq
        have hb : w.attempts[c]? = some b := hb
        have ha : w.attempts[c]? = some a := ha
        rw [ha] at hb
        cases hb
        exact hready c rfl

/-! ## What an event comes to -/

/-- A result that keeps the places, and that has every attempt answered exactly if `good` holds. -/
def Judged (good : Prop) : Exec (ConnectWorld E) → Prop
  | .ok w => Sound w ∧ (Answered w ↔ good)
  | .error _ => ¬good

theorem Judged.congr {p q : Prop} {x : Exec (ConnectWorld E)} (h : Judged p x) (hpq : p ↔ q) :
    Judged q x := propext hpq ▸ h

theorem onAttempt_eq (ha : w.attempts[c]? = some a)
    (f : ConnectAttempt E → Exec (ConnectAttempt E)) : w.onAttempt c f =
      f a >>= fun a' => .ok { w with attempts := w.attempts.set c a' } := by
  unfold onAttempt
  rw [readAt_eq_ok.mpr ha]
  rfl

/-- `start` of an attempt that does not wait any more. -/
theorem Sound.start (h : Sound w) (hans : Answered w) (hnot : c ∉ w.waits)
    (ha : w.attempts[c]? = some a) (hwait : a.Waiting) (hready : a.Ready loop) (ctl : Bool) :
    Judged (ctl = true) (w.start c ctl) := by
  unfold ConnectWorld.start
  rw [onAttempt_eq ha]
  rcases hwait.start hready ctl with ⟨rfl, hfault⟩ | ⟨rfl, a', hok, hconn, -⟩
  · rw [hfault]
    exact Bool.false_ne_true
  · rw [hok, ok_bind]
    refine ⟨h.set hnot (Or.inr hconn), iff_of_true ((hans.set ha).mpr fun _ => ?_) rfl⟩
    exact hconn.toUndecided.answered

theorem robinLoop1_le (w : ConnectWorld E) (fd : Nat) : w.robinLoop1 fd ≤ w.n_ := by
  unfold robinLoop1
  split
  · exact Nat.zero_le _
  · next hn => exact Nat.mod_lt fd (Nat.pos_of_ne_zero hn)

/-- The rest of the handler, with a socket that connects. -/
theorem Sound.chosen (h : Sound w) (hans : Answered w) (hnot : c ∉ w.waits)
    (ha : w.attempts[c]? = some a) (hwait : a.Waiting) (curr : Nat) (socket : TcpSocket E)
    (ctl : Bool) : Judged (w.robinLoop1 socket.fd_ = curr → ctl = true)
      (if w.robinLoop1 socket.fd_ = curr then
        ConnectWorld.start { w with
          attempts := w.attempts.set c (a.setTarget (w.robinLoop1 socket.fd_) socket) } c ctl
      else .ok (ConnectWorld.runEventHandler { w with
          attempts := w.attempts.set c (a.setTarget (w.robinLoop1 socket.fd_) socket) }
        (w.robinLoop1 socket.fd_) (.start c))) := by
  have hwait' : (a.setTarget (w.robinLoop1 socket.fd_) socket).Waiting :=
    { outcome := hwait.outcome, answers := hwait.answers, conn := hwait.conn
      channel := hwait.channel }
  have hready : (a.setTarget (w.robinLoop1 socket.fd_) socket).Ready (w.robinLoop1 socket.fd_) :=
    ⟨rfl, rfl, socket, rfl, rfl⟩
  have h' := h.set hnot (Or.inl hwait'.quiet)
  have hans' := (hans.set ha).mpr fun _ => hwait'.toUndecided.answered
  have ha' := List.getElem?_set_self (a := a.setTarget (w.robinLoop1 socket.fd_) socket)
    (List.getElem?_eq_some_iff.mp ha).1
  split
  · next hcurr =>
    refine (h'.start hans' hnot ha' hwait' hready ctl).congr ?_
    exact ⟨fun hctl _ => hctl, fun hall => hall hcurr⟩
  · next hcurr =>
    refine ⟨h'.runEventHandler (robinLoop1_le w _) hnot ha' hwait' ?_, ?_⟩
    · exact fun _ _ => ⟨_, hready⟩
    · exact iff_of_true hans' fun heq => absurd heq hcurr

/-- What the handler of `creatTcpClient` needs, if the client is still there. -/
def Resolves (w : ConnectWorld E) (curr_thread_loop : Nat) (a : ConnectAttempt E) (eps : List E)
    (env : ConnectEnv) : Prop :=
  match eps with
  | [] => a.client.connector_ = none
  | _ :: _ => ∃ fd, env.socket = some fd ∧ env.connect ≠ .failed ∧
      (w.robinLoop1 fd = curr_thread_loop → env.ctl = true)

/-- The handler of `creatTcpClient`, for an attempt that does not wait any more. -/
theorem Sound.resolved (h : Sound w) (hans : Answered w) (hnot : c ∉ w.waits)
    (ha : w.attempts[c]? = some a) (hwait : a.Waiting) (curr : Nat) (eps : List E) (env : ConnectEnv) :
    Judged (a.user = true → w.Resolves curr a eps env) (w.resolved curr c eps env) := by
  unfold ConnectWorld.resolved
  rw [readAt_eq_ok.mpr ha, ok_bind]
  by_cases huser : a.user = false
  · rw [if_pos huser]
    exact ⟨h, iff_of_true hans fun hu => by rw [hu] at huser; cases huser⟩
  rw [if_neg huser]
  have hu : a.user = true := by simpa using huser
  cases eps with
  | nil =>
    refine ⟨h.set hnot (Or.inl fun ch hch => ?_), ?_⟩
    · have hch : a.channel = some ch := hch
      rw [hwait.channel] at hch
      cases hch
    · rw [hans.set ha]
      exact imp_congr_right fun _ => hwait.unresolved
  | cons ep eps =>
    dsimp only [Resolves]
    unfold TcpSocket.new TcpSocket.connect
    cases hsocket : env.socket with
    | none =>
      intro hall
      obtain ⟨fd, hfd, -⟩ := hall hu
      cases hfd
    | some fd =>
      rw [derefOr_some, ok_bind, pure_eq_ok, ok_bind]
      by_cases hconnect : env.connect ≠ .failed
      · rw [guardOr_pos hconnect, ok_bind]
        exact (h.chosen hans hnot ha hwait _ _ env.ctl).congr
          ⟨fun hctl _ => ⟨fd, rfl, hconnect, hctl⟩, fun hall => by
            obtain ⟨fd', hfd, -, hctl⟩ := hall hu
            cases hfd
            exact hctl⟩
      · rw [guardOr_neg hconnect]
        intro hall
        obtain ⟨-, -, hok, -⟩ := hall hu
        exact hconnect hok

/-- The first handler in the event queue of a loop. -/
def front (w : ConnectWorld E) (loop : Nat) : Option (ConnectHandler E) :=
  w.equeues[loop]?.bind fun q => q.eventHandlers_.queue_.head?

/-- What a handler of an event queue needs. -/
def HandlerMet (w : ConnectWorld E) (loop : Nat) (env : ConnectEnv) : ConnectHandler E → Prop
  | .resolved c eps => ∀ a, w.attempts[c]? = some a → a.user = true → w.Resolves loop a eps env
  | .start _ => env.ctl = true

/-- The handler that was taken out of the event queue runs. -/
theorem Sound.handler (h : Sound w) (hans : Answered w) {handler : ConnectHandler E}
    (hnot : handler.client ∉ w.waits) (ha : w.attempts[handler.client]? = some a) (hwait : a.Waiting)
    (hready : ∀ c, handler = .start c → ∃ loop, a.Ready loop) (env : ConnectEnv) :
    Judged (w.HandlerMet loop env handler)
      (match handler with
        | .resolved c eps => w.resolved loop c eps env
        | .start c => w.start c env.ctl) := by
  cases handler with
  | resolved c eps =>
    have ha : w.attempts[c]? = some a := ha
    refine (h.resolved hans hnot ha hwait loop eps env).congr ⟨fun hmet b hb hu => ?_, fun hall => hall a ha⟩
    rw [ha] at hb
    cases hb
    exact hmet hu
  | start c =>
    obtain ⟨_, hready⟩ := hready c rfl
    exact h.start hans hnot ha hwait hready env.ctl

theorem Sound.runHandler (h : Sound w) (hans : Answered w) (loop : Nat) (env : ConnectEnv) :
    Judged (∀ handler, w.front loop = some handler → w.HandlerMet loop env handler)
      (w.runHandler loop env) := by
  unfold ConnectWorld.runHandler front
  cases hq : w.equeues[loop]? with
  | none => exact ⟨h, iff_of_true hans nofun⟩
  | some q =>
    unfold BlockingQueue.popFront
    dsimp only [Option.bind_some]
    cases hcons : q.eventHandlers_.queue_ with
    | nil => exact ⟨h, iff_of_true hans nofun⟩
    | cons handler handlers =>
      obtain ⟨h', hnot⟩ := h.pop hq hcons
      have hmem : w.Queued handler :=
        ⟨q, List.mem_of_getElem? hq, hcons ▸ List.mem_cons_self⟩
      obtain ⟨a, ha, hwait⟩ := h.waiting handler.client hmem.waits
      refine (h'.handler hans hnot ha hwait ?_ env).congr ?_
      · rintro c rfl
        exact h.ready c a hmem ha
      · exact ⟨fun hmet _ heq => Option.some.inj heq ▸ hmet, fun hall => hall handler rfl⟩

/-! ### The resolver -/

theorem Sound.resolve (h : Sound w) (hans : Answered w) (answer : Option (List E)) :
    Judged (∀ request, w.requests_.queue_.head? = some request → request.loop.isSome = true)
      (w.resolve answer) := by
  unfold ConnectWorld.resolve
  cases hcons : w.requests_.queue_ with
  | nil => exact ⟨h, iff_of_true hans nofun⟩
  | cons request requests =>
    obtain ⟨⟨c, hc⟩, hloop⟩ := h.requests request (hcons ▸ List.mem_cons_self)
    have hwaits : w.waits
        = c :: ({ w with requests_ := { queue_ := requests } } : ConnectWorld E).waits := by
      unfold waits
      rw [hcons, List.filterMap_cons, hc]
      rfl
    have hnodup := h.nodup
    rw [hwaits, List.nodup_cons] at hnodup
    dsimp only
    rw [hc]
    cases hl : request.loop with
    | none =>
      intro hall
      have hsome := hall request rfl
      rw [hl] at hsome
      cases hsome
    | some loop =>
      obtain ⟨a, ha, hwait⟩ := h.waiting c (hwaits ▸ List.mem_cons_self)
      have h' : Sound { w with requests_ := { queue_ := requests } } :=
        { loops := h.loops, ticks := h.ticks, nodup := hnodup.2
          requests := fun r hr => h.requests r (hcons ▸ List.mem_cons_of_mem _ hr)
          waiting := fun c' hc' => h.waiting c' (hwaits ▸ List.mem_cons_of_mem _ hc')
          ready := h.ready, points := h.points }
      refine ⟨h'.runEventHandler (hloop loop hl) hnodup.1 ha hwait nofun, iff_of_true hans ?_⟩
      rintro _ ⟨⟩
      rw [hl]
      rfl

/-! ### Channels -/

theorem runNextTickHandlers_nil (h : w.nextTickHandlers_ = []) (loop : Nat) :
    w.runNextTickHandlers loop = .ok w := by
  unfold runNextTickHandlers
  rw [h]
  cases w
  cases h
  rfl

theorem runNextTickHandlers_single {tick : ConnectTick E} (h : w.nextTickHandlers_ = [tick]) :
    w.runNextTickHandlers tick.loop = ({ w with nextTickHandlers_ := [] } : ConnectWorld E).onAttempt
      tick.client fun a => a.connected tick.connPtr tick.connector := by
  have hmine : w.nextTickHandlers_.filter (·.loop = tick.loop) = [tick] := by
    rw [h]
    exact List.filter_cons_of_pos (decide_eq_true rfl)
  have hothers : w.nextTickHandlers_.filter (·.loop ≠ tick.loop) = [] := by
    rw [h]
    exact List.filter_cons_of_neg (by simp)
  unfold runNextTickHandlers
  rw [hmine, hothers, List.foldlM_cons]
  exact bind_pure _

/-- A write event, with the handler that it puts off. -/
theorem Sound.handleWritEvent (h : Sound w) (hans : Answered w) (hnot : c ∉ w.waits)
    (ha : w.attempts[c]? = some a) (hconn : a.Connecting) {ch : TcpChannel}
    (hch : a.channel = some ch) :
    Judged True (w.handleWritEvent c a >>= fun w => w.runNextTickHandlers ch.poller_) := by
  obtain ⟨a1, connPtr, connector, hwrit, hput, -⟩ := hconn.handleWritEvent hch
  obtain ⟨a2, hconnected, hanswered, hquiet, -⟩ := hput.connected
  have hlt := (List.getElem?_eq_some_iff.mp ha).1
  let tick : ConnectTick E :=
    { loop := ch.poller_, client := c, connPtr := connPtr, connector := connector }
  have hworld : w.handleWritEvent c a
      = .ok { w with attempts := w.attempts.set c a1, nextTickHandlers_ := [tick] } := by
    unfold ConnectWorld.handleWritEvent
    rw [hwrit, h.ticks]
    rfl
  have htick : ({ w with attempts := w.attempts.set c a1, nextTickHandlers_ := [tick] } :
      ConnectWorld E).runNextTickHandlers ch.poller_
        = .ok { w with attempts := w.attempts.set c a2 } := by
    refine (@runNextTickHandlers_single E _ tick rfl).trans ?_
    rw [onAttempt_eq (List.getElem?_set_self hlt), hconnected, ok_bind]
    dsimp only
    rw [List.set_set, ← h.ticks]
  rw [hworld, ok_bind, htick]
  exact ⟨h.set hnot (Or.inl hquiet), iff_of_true ((hans.set ha).mpr fun _ => hanswered) trivial⟩

/-- An attempt with a channel does not wait. -/
theorem Sound.not_waits (h : Sound w) (ha : w.attempts[c]? = some a) {ch : TcpChannel}
    (hch : a.channel = some ch) : c ∉ w.waits := by
  intro hc
  obtain ⟨b, hb, hwait⟩ := h.waiting c hc
  rw [ha] at hb
  cases hb
  rw [hwait.channel] at hch
  cases hch

/-- **An event of a channel has the attempt answered, if it is its first one.** -/
theorem Sound.handleEvent (h : Sound w) (hans : Answered w) (c : Nat) (handler : Handler) :
    Judged True (w.handleEvent c handler) := by
  have hsame : ∀ loop, Judged True (w.runNextTickHandlers loop) := by
    intro loop
    rw [runNextTickHandlers_nil h.ticks]
    exact ⟨h, iff_of_true hans trivial⟩
  unfold ConnectWorld.handleEvent
  split
  · exact ⟨h, iff_of_true hans trivial⟩
  · next a ha =>
    split
    · exact ⟨h, iff_of_true hans trivial⟩
    · next ch hch =>
      have hnot := h.not_waits ha hch
      rcases h.points c a ha with hquiet | hconn
      · -- the handlers of the client are not on the channel any more
        have hother := hquiet ch hch handler
        split
        · next hcall => exact absurd hcall hother
        · next hcall => exact absurd hcall hother
        · exact hsame _
      · split
        · exact h.handleWritEvent hans hnot ha hconn hch
        · obtain ⟨hanswered, hquiet⟩ := hconn.handleErroEvent
          rw [ok_bind]
          dsimp only
          rw [runNextTickHandlers_nil]
          · refine ⟨h.set hnot (Or.inl hquiet), iff_of_true ?_ trivial⟩
            exact (hans.set ha).mpr fun _ => hanswered
          · exact h.ticks
        · exact hsame _

/-! ### The caller -/

/-- What the caller does with a client, for every attempt. -/
theorem onUser_sameCourse {f : ConnectAttempt E → ConnectAttempt E}
    (hf : ∀ a : ConnectAttempt E, a.SameCourse (f a)) (c c' : Nat) : ∃ g,
      (∀ a : ConnectAttempt E, a.SameCourse (g a)) ∧
        (w.onUser c f).attempts[c']? = w.attempts[c']?.map g := by
  refine ⟨fun a => if c = c' then (if a.user then f a else a) else a, fun a => ?_, ?_⟩
  · dsimp only
    split
    · split
      · exact hf a
      · exact .refl a
    · exact .refl a
  · exact List.getElem?_modify _ c w.attempts c'

theorem Sound.onUser (h : Sound w) (hans : Answered w) (c : Nat)
    {f : ConnectAttempt E → ConnectAttempt E} (hf : ∀ a : ConnectAttempt E, a.SameCourse (f a)) :
    Judged True (.ok (w.onUser c f)) := by
  have hback : ∀ {c' : Nat} {b' : ConnectAttempt E}, (w.onUser c f).attempts[c']? = some b' →
      ∃ b : ConnectAttempt E, w.attempts[c']? = some b ∧ b.SameCourse b' := by
    intro c' b' hb'
    obtain ⟨g, hg, hget⟩ := onUser_sameCourse (w := w) hf c c'
    rw [hget] at hb'
    obtain ⟨b, hb, rfl⟩ := Option.map_eq_some_iff.mp hb'
    exact ⟨b, hb, hg b⟩
  refine ⟨⟨h.loops, h.ticks, h.nodup, h.requests, fun c' hc' => ?_, fun c' b' hq hb' => ?_,
    fun c' b' hb' => ?_⟩, iff_of_true (fun b' hmem huser => ?_) trivial⟩
  · obtain ⟨b, hb, hwait⟩ := h.waiting c' hc'
    obtain ⟨g, hg, hget⟩ := onUser_sameCourse (w := w) hf c c'
    exact ⟨g b, by rw [hget, hb]; rfl, (hg b).waiting hwait⟩
  · obtain ⟨b, hb, hs⟩ := hback hb'
    obtain ⟨loop, hready⟩ := h.ready c' b hq hb
    exact ⟨loop, hs.ready hready⟩
  · obtain ⟨b, hb, hs⟩ := hback hb'
    exact (h.points c' b hb).imp hs.quiet hs.connecting
  · obtain ⟨c', hc'⟩ := List.getElem?_of_mem hmem
    obtain ⟨b, hb, hs⟩ := hback hc'
    exact hs.answered (hans b (List.mem_of_getElem? hb) (hs.user huser))

theorem Sound.creatTcpClient (h : Sound w) (hans : Answered w) {curr_thread_loop : Option Nat}
    (hcurr : ∀ loop ∈ curr_thread_loop, loop ≤ w.n_) (host service : Bytes) :
    Judged True (.ok (w.creatTcpClient curr_thread_loop host service)) := by
  have hperm : (w.creatTcpClient curr_thread_loop host service).waits.Perm
      (w.attempts.length :: w.waits) := by
    unfold waits ConnectWorld.creatTcpClient BlockingQueue.pushBack
    dsimp only
    rw [List.filterMap_append, List.append_assoc]
    exact List.perm_middle
  have hold : ∀ {c : Nat} {b}, w.attempts[c]? = some b → (w.attempts ++ [.new])[c]? = some b := by
    intro c b hb
    exact List.getElem?_append_left (List.getElem?_eq_some_iff.mp hb).1 ▸ hb
  have hnew : ∀ {c : Nat} {b}, (w.attempts ++ [ConnectAttempt.new])[c]? = some b →
      w.attempts[c]? = some b ∨ c = w.attempts.length ∧ b = .new := by
    intro c b hb
    rcases lt_or_ge c w.attempts.length with hlt | hge
    · exact Or.inl (List.getElem?_append_left hlt ▸ hb)
    · rw [List.getElem?_append_right hge, List.getElem?_singleton] at hb
      split at hb
      · cases hb
        exact Or.inr ⟨by omega, rfl⟩
      · cases hb
  refine ⟨⟨h.loops, h.ticks, ?_, fun r hr => ?_, fun c hc => ?_, fun c b hq hb => ?_,
    fun c b hb => ?_⟩, iff_of_true (fun b hb huser => ?_) trivial⟩
  · refine hperm.nodup_iff.mpr (List.nodup_cons.mpr ⟨fun hmem => ?_, h.nodup⟩)
    exact lt_irrefl _ (h.lt_of_waits hmem)
  · rcases List.mem_append.mp hr with hr | hr
    · exact h.requests r hr
    · rw [List.mem_singleton.mp hr]
      exact ⟨⟨_, rfl⟩, hcurr⟩
  · rcases List.mem_cons.mp (hperm.mem_iff.mp hc) with rfl | hc
    · exact ⟨.new, List.getElem?_concat_length, ConnectAttempt.waiting_new⟩
    · obtain ⟨b, hb, hwait⟩ := h.waiting c hc
      exact ⟨b, hold hb, hwait⟩
  · rcases hnew hb with hb | ⟨rfl, -⟩
    · exact h.ready c b hq hb
    · exact absurd (h.lt_of_waits (Queued.waits (w := w) hq)) (lt_irrefl _)
  · rcases hnew hb with hb | ⟨-, rfl⟩
    · exact h.points c b hb
    · exact Or.inl ConnectAttempt.waiting_new.quiet
  · rcases List.mem_append.mp hb with hb | hb
    · exact hans b hb huser
    · rw [List.mem_singleton.mp hb]
      exact ConnectAttempt.waiting_new.toUndecided.answered

/-! ## Runs -/

/--
What an event needs for every attempt to be answered: a loop for the thread of a request that is
answered; an endpoint for a client that has a connector, a socket that connects, and a poller that
takes its channel.
-/
def Met (w : ConnectWorld E) : ConnectEvent E → Prop
  | .resolve _ => ∀ request, w.requests_.queue_.head? = some request → request.loop.isSome = true
  | .handler loop env => ∀ handler, w.front loop = some handler → w.HandlerMet loop env handler
  | _ => True

/-- **What an event comes to.** -/
theorem Sound.step (h : Sound w) (hans : Answered w) (e : ConnectEvent E) :
    Judged (w.Met e) (w.step e) := by
  cases e with
  | creatTcpClient curr_thread_loop host service =>
    dsimp only [ConnectWorld.step]
    split
    · next hcurr => exact h.creatTcpClient hans hcurr host service
    · exact ⟨h, iff_of_true hans trivial⟩
  | onConnect c connector => exact h.onUser hans c fun a => ⟨rfl, rfl, rfl, rfl, rfl, rfl, rfl, rfl, rfl, id⟩
  | setContext c context => exact h.onUser hans c fun a => ⟨rfl, rfl, rfl, rfl, rfl, rfl, rfl, rfl, rfl, id⟩
  | release c => exact h.onUser hans c fun a => ⟨rfl, rfl, rfl, rfl, rfl, rfl, rfl, rfl, rfl, nofun⟩
  | resolve answer => exact h.resolve hans answer
  | handler loop env => exact h.runHandler hans loop env
  | channel c handler => exact h.handleEvent hans c handler

theorem Judged.iff {good : Prop} {x : Exec (ConnectWorld E)} (h : Judged good x) :
    good ↔ ∃ t, x = .ok t ∧ Answered t := by
  cases x with
  | error f => exact ⟨fun hgood => absurd hgood h, fun ⟨_, ht, _⟩ => by cases ht⟩
  | ok t => exact ⟨fun hgood => ⟨t, rfl, h.2.mpr hgood⟩, fun ⟨t', ht, hans⟩ => by cases ht; exact h.2.mp hans⟩

/--
**When every attempt to connect is answered exactly once.** A run of any calls and events has no
exception, and in every state it comes to each attempt that has come out has had its connector
called once, with the connection or with `nullptr`, exactly if every event of the run finds what it
needs.
-/
theorem connects_answered_iff (n : Nat) (es : List (ConnectEvent E)) :
    Along step Met (init n) es ↔ ∃ w, run step (init n) es = .ok w ∧
      ∀ es' w', es' <+: es → run step (init n) es' = .ok w' → w'.Answered := by
  have hans : Answered (init n : ConnectWorld E) := fun a ha => absurd ha List.not_mem_nil
  refine along_iff_run ?_ ?_ es (sound_init n) hans
  · intro w e w' h hans hstep
    have hjudged := h.step hans e
    rw [hstep] at hjudged
    exact hjudged.1
  · exact fun w e h hans => (h.step hans e).iff

/-- A client with a connector, whose host has no address. -/
def unresolvedRun : List (ConnectEvent Nat) :=
  [.creatTcpClient (some 0) [] [], .onConnect 0 7, .resolve none,
    .handler 0 { socket := some 5, connect := .inProgress, ctl := true }]

/-- The connector is not called, though the resolution has failed. -/
theorem unresolved_unanswered : ¬∀ (n : Nat) (es : List (ConnectEvent Nat)),
    ∃ w, run step (init n) es = .ok w ∧
      ∀ es' w', es' <+: es → run step (init n) es' = .ok w' → w'.Answered := by
  intro hall
  obtain ⟨w, hrun, hanswered⟩ := hall 0 unresolvedRun
  have hsees : (run step (init 0) unresolvedRun).toOption.map
      (fun w => w.attempts.map fun a => (a.user, a.answers.length, a.expected.length))
        = some [(true, 0, 1)] := by decide +kernel
  obtain ⟨w', hrun', hattempts⟩ := ok_of_toOption_map hsees
  obtain ⟨a, hmem, ha⟩ : ∃ a ∈ w'.attempts, (a.user, a.answers.length, a.expected.length) = (true, 0, 1) :=
    List.mem_map.mp (hattempts ▸ List.mem_singleton_self _)
  obtain ⟨huser, hlengths⟩ := Prod.mk.inj ha
  have hall := (hanswered unresolvedRun w' (List.prefix_refl _) hrun' a hmem huser).answers
  rw [hall] at hlengths
  obtain ⟨h0, h1⟩ := Prod.mk.inj hlengths
  omega

end ConnectWorld

end Liby
