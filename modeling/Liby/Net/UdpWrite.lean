import Liby.Net.ReadStream
import Liby.Net.UdpSocket

/-!
# The write path of UdpSocket

The datagrams that were given to `send` reach `sendto` in their order, each once, and each is followed
by its completion handler. What comes of a failed `sendto` is decided by its result, which is -1
whatever the error was, so that a full kernel buffer destroys the socket. Over a `PollerEpoll` this ends
the process, as every `destroy` of the socket does.
-/

namespace Liby

open Infra

variable {H : Type}

/-- An event of the write path. The peers stay as long as the socket. -/
inductive UdpEvent (H : Type) where
  | connect (ep : Endpoint)
  | send (x : UdpSendCall H)
  | writ (as : List (SendAnswer H))

/-- No `sendto` fails with `EAGAIN`, and over a `PollerEpoll` none fails with another error. -/
def Calm (poller_ : Chooser) (as : List (SendAnswer H)) : Prop :=
  .again ∉ as ∧ (poller_ = .epoll → .failed ∉ as)

/-- The answers to the `sendto`s of an event are calm. -/
def UdpEvent.Calm (poller_ : Chooser) : UdpEvent H → Prop
  | .writ as => Liby.Calm poller_ as
  | .connect _ | .send _ => True

/-- The buffer of a call that has something to send. -/
theorem UdpSend.Sends.buf_ok {x : UdpSend H} (hx : x.Sends) :
    ∃ buf, x.buf = .ok buf ∧ buf.Wf ∧ buf.contents ≠ [] := by
  cases x with
  | base bytes handler =>
    exact ⟨_, rfl, Buffer.wf_ofBytes bytes, by rw [Buffer.contents_ofBytes]; exact hx⟩
  | buffer buf handler =>
    obtain ⟨hwf, hne⟩ := hx
    refine ⟨buf, ?_, hwf, hne⟩
    rw [UdpSend.buf, guardOr_pos ⟨hwf.capacity_pos hne, hwf.left_le⟩]
    rfl
  | moved buf handler => exact ⟨buf, rfl, hx⟩
  | cString buf handler =>
    exact ⟨_, rfl, Buffer.wf_ofBytes _, by rw [Buffer.contents_ofBytes]; exact hx⟩
  | string str handler =>
    exact ⟨_, rfl, Buffer.wf_ofBytes str, by rw [Buffer.contents_ofBytes]; exact hx⟩

namespace UdpWorld

/-- What an event does. -/
def step (w : UdpWorld H) : UdpEvent H → Exec (UdpWorld H)
  | .connect ep => do
    guardOr .environment (w.socket.destroy_ = false)
    return w.handleConnectEvent ep
  | .send x => w.call x
  | .writ as => do
    guardOr .environment (w.socket.destroy_ = false)
    w.handleWritEvent as

/-- A task is the datagram `m`, for a connection that is there. -/
structure Says (uconns : List UdpObject) (t : UdpTask H) (m : UdpMessage H) : Prop where
  dest : ∃ o, uconns[t.dest_]? = some o ∧ o.freed = false ∧ m.dest = o.uconn.peer_
  wf : t.buffer_.Wf
  payload : t.buffer_.contents = m.payload
  payload_ne : m.payload ≠ []
  handler : t.handler_ = m.handler

/-- The socket is in use, with its callbacks, and waits to write while there is something to write. -/
structure InUse (s : UdpSocket H) : Prop where
  destroy : s.destroy_ = false
  socket : s.socket_ = true
  interest : ∃ ch, s.chan_ = some ch ∧ (s.writTasks_ ≠ [] → ch.writable_ = true ∧ ch.polledOut = true)
  acceptor : s.acceptorCallback_ = true
  reader : s.readEventCallback_ = true
  erro : s.erroEventCallback_ = true

/-- Between two events the queue is what was given to `send` and not handed over. -/
structure Queued (poller_ : Chooser) (w : UdpWorld H) (done pending : List (UdpMessage H)) : Prop where
  inUse : InUse w.socket
  poller : w.socket.poller_ = poller_
  conns : ∀ e ∈ w.socket.conns_, ∃ o, w.uconns[e.2]? = some o ∧ o.freed = false
  tasks : List.Forall₂ (Says w.uconns) w.socket.writTasks_ pending
  queued : w.queued = done ++ pending
  failed : w.failed = false

/--
**The write path is right**: a socket that is not destroyed has its callbacks, and its queue is what
was given to `send` and not handed over; what was handed over came in the order of the calls, each
datagram once and followed by its completion handler; and the socket was destroyed for an error that
is not `EAGAIN`.
-/
structure WritesRight (w : UdpWorld H) : Prop where
  queue : w.socket.destroy_ = false → InUse w.socket ∧
    ∃ pending, List.Forall₂ (Says w.uconns) w.socket.writTasks_ pending ∧ w.queued = w.handed ++ pending
  handed : w.handed <+: w.queued
  ran : w.ran = w.handed.filterMap UdpMessage.handler
  error : w.socket.destroy_ = true → w.failed = true

variable {w w' : UdpWorld H} {done pending : List (UdpMessage H)} {poller_ : Chooser}

theorem Says.append {uconns : List UdpObject} {t : UdpTask H} {m : UdpMessage H} (h : Says uconns t m)
    (more : List UdpObject) : Says (uconns ++ more) t m where
  dest := by
    obtain ⟨o, ho, hrest⟩ := h.dest
    exact ⟨o, by rw [List.getElem?_append_left (List.getElem?_eq_some_iff.mp ho).1]; exact ho, hrest⟩
  wf := h.wf
  payload := h.payload
  payload_ne := h.payload_ne
  handler := h.handler

/-! ## Sending -/

/-- **A call puts its datagram at the end of the queue.** -/
theorem Queued.call_ok (h : Queued poller_ w done pending) (x : UdpSendCall H) :
    Guarantees (fun w' => ∃ m, Queued poller_ w' done (pending ++ [m]) ∧ w'.handed = w.handed ∧
      w'.ran = w.ran) (w.call x) := by
  unfold call
  refine Guarantees.guard fun hthere => ?_
  obtain ⟨e, he, huconn⟩ := List.any_eq_true.mp hthere
  obtain ⟨o, ho, hfreed⟩ := h.conns e he
  rw [of_decide_eq_true huconn] at ho
  obtain ⟨buf, hbuf, hwf, hne⟩ := x.sends.buf_ok
  obtain ⟨ch, hch, -⟩ := h.inUse.interest
  unfold sendOn
  rw [access_eq_ok.mpr ⟨ho, hfreed⟩, ok_bind, hbuf, ok_bind]
  unfold UdpWorld.send enableWrit
  dsimp only
  rw [hch]
  refine ⟨{ dest := o.uconn.peer_, payload := buf.contents, handler := x.send.handler },
    ⟨?_, h.poller, h.conns, ?_, ?_, h.failed⟩, rfl, rfl⟩
  · exact ⟨h.inUse.destroy, h.inUse.socket, ⟨_, rfl, fun _ => ⟨rfl, rfl⟩⟩, h.inUse.acceptor,
      h.inUse.reader, h.inUse.erro⟩
  · refine List.rel_append h.tasks (.cons ?_ .nil)
    exact ⟨⟨o, ho, hfreed, rfl⟩, hwf, rfl, hne, rfl⟩
  · show w.queued ++ [_] = done ++ (pending ++ [_])
    rw [h.queued, List.append_assoc]

/-- The calls of a completion handler. -/
theorem Queued.callAll_ok : ∀ (xs : List (UdpSendCall H)) {w : UdpWorld H}
    {pending : List (UdpMessage H)}, Queued poller_ w done pending →
    Guarantees (fun w' => ∃ more, Queued poller_ w' done (pending ++ more) ∧ w'.handed = w.handed ∧
      w'.ran = w.ran) (w.callAll xs)
  | [], w, pending, h => ⟨[], by rw [List.append_nil]; exact h, rfl, rfl⟩
  | x :: xs, w, pending, h => by
    rw [callAll]
    refine (h.call_ok x).bind ?_
    rintro w1 ⟨m, h1, hhanded1, hran1⟩
    refine (Queued.callAll_ok xs h1).imp_ok ?_
    rintro w' - ⟨more, h', hhanded', hran'⟩
    rw [List.append_assoc] at h'
    exact ⟨[m] ++ more, h', hhanded'.trans hhanded1, hran'.trans hran1⟩

/-- The completion handler of a datagram, and what it sends. -/
theorem Queued.complete_ok (h : Queued poller_ w done pending) (handler_ : Option H)
    (xs : List (UdpSendCall H)) :
    Guarantees (fun w' => ∃ more, Queued poller_ w' done (pending ++ more) ∧ w'.handed = w.handed ∧
      w'.ran = w.ran ++ handler_.toList) (w.complete handler_ xs) := by
  cases handler_ with
  | none => exact ⟨[], by rw [List.append_nil]; exact h, rfl, (List.append_nil _).symm⟩
  | some handler =>
    have h1 : Queued poller_ { w with ran := w.ran ++ [handler] } done pending :=
      ⟨h.inUse, h.poller, h.conns, h.tasks, h.queued, h.failed⟩
    exact Queued.callAll_ok xs h1

theorem Queued.popFront_ok {m : UdpMessage H} (h : Queued poller_ w done (m :: pending)) :
    ∃ w', w.popFront = .ok w' ∧ Queued poller_ w' (done ++ [m]) pending ∧ w'.handed = w.handed ∧
      w'.ran = w.ran := by
  obtain ⟨t, tasks, -, htasks, hcons⟩ := List.forall₂_cons_right_iff.mp h.tasks
  obtain ⟨ch, hch, hinterest⟩ := h.inUse.interest
  unfold popFront
  rw [hcons]
  refine ⟨_, rfl, ⟨?_, h.poller, h.conns, htasks, ?_, h.failed⟩, rfl, rfl⟩
  · refine ⟨h.inUse.destroy, h.inUse.socket, ⟨ch, hch, fun _ => ?_⟩, h.inUse.acceptor,
      h.inUse.reader, h.inUse.erro⟩
    exact hinterest (by rw [hcons]; exact List.cons_ne_nil _ _)
  · show w.queued = _
    rw [h.queued, List.append_assoc]
    rfl

/-! ## Writing -/

/-- Between two events: the queue is what was not handed over. -/
structure Rests (poller_ : Chooser) (w : UdpWorld H) : Prop where
  queue : ∃ pending, Queued poller_ w w.handed pending
  ran : w.ran = w.handed.filterMap UdpMessage.handler

/-- After the destruction of the socket; `failed` says if it was for an error that is not `EAGAIN`. -/
structure Gone (w : UdpWorld H) (failed : Bool) : Prop where
  destroy : w.socket.destroy_ = true
  conns : w.socket.conns_ = []
  handed : w.handed <+: w.queued
  ran : w.ran = w.handed.filterMap UdpMessage.handler
  failed : w.failed = failed

theorem Rests.writesRight (h : Rests poller_ w) : WritesRight w where
  queue := fun _ => h.queue.elim fun pending hq => ⟨hq.inUse, pending, hq.tasks, hq.queued⟩
  handed := h.queue.elim fun pending hq => ⟨pending, hq.queued.symm⟩
  ran := h.ran
  error := fun hdestroy => h.queue.elim fun _ hq =>
    absurd (hq.inUse.destroy.symm.trans hdestroy) Bool.false_ne_true

theorem Gone.writesRight_iff {failed : Bool} (h : Gone w failed) : WritesRight w ↔ failed = true := by
  rw [← h.failed]
  refine ⟨fun hright => hright.error h.destroy, fun hfailed => ⟨fun halive => ?_, h.handed, h.ran,
    fun _ => hfailed⟩⟩
  exact absurd (halive.symm.trans h.destroy) Bool.false_ne_true

variable {F : Fault → Prop}

/-- `handleErroEvent` destroys the socket, and over a `PollerEpoll` it ends the process. -/
theorem gone (huse : InUse w.socket) (hpoller : w.socket.poller_ = poller_) (hhanded : w.handed <+: w.queued)
    (hran : w.ran = w.handed.filterMap UdpMessage.handler) (hF : poller_ = .epoll → F .exception) :
    Outcome F (fun w' => poller_ ≠ .epoll ∧ Gone w' w.failed) w.handleErroEvent := by
  obtain ⟨ch, hch, -⟩ := huse.interest
  have hdestroy : w.handleErroEvent = if w.socket.poller_ = .epoll then .error .exception
      else .ok ({ w with calls := w.calls ++ [.erro] } : UdpWorld H).destroyed := by
    unfold handleErroEvent callback
    rw [if_pos huse.erro]
    exact destroy_live huse.destroy (by rw [hch]; rfl)
  rw [hdestroy, hpoller]
  split
  · next hepoll => exact hF hepoll
  · next hepoll => exact ⟨hepoll, rfl, rfl, hhanded, hran, rfl⟩

/--
**A pass of the loop**: the datagram at the front goes out and is completed, or the socket is
destroyed, whatever the error was.
-/
theorem Rests.writPass_ok (h : Rests poller_ w) {first : UdpTask H} {tasks : List (UdpTask H)}
    (htasks : w.socket.writTasks_ = first :: tasks) (a : SendAnswer H) (henv : F .environment)
    (hF : ¬Calm poller_ [a] → F .exception) :
    Outcome F (fun pass => match a, pass with
      | .sent _, .next w' => Rests poller_ w'
      | .again, .done w' => Gone w' false
      | .failed, .done w' => poller_ ≠ .epoll ∧ Gone w' true
      | _, _ => False) (w.writPass first a) := by
  obtain ⟨pending, hq⟩ := h.queue
  have hsays := hq.tasks
  rw [htasks] at hsays
  obtain ⟨m, rest, hfirst, -, rfl⟩ := List.forall₂_cons_left_iff.mp hsays
  obtain ⟨o, ho, hfreed, hdest⟩ := hfirst.dest
  have hne : first.buffer_.contents ≠ [] := by
    rw [hfirst.payload]
    exact hfirst.payload_ne
  have hm : ({ dest := o.uconn.peer_, payload := first.buffer_.contents, handler := first.handler_ } :
      UdpMessage H) = m := by
    rw [← hdest, hfirst.payload, hfirst.handler]
  unfold writPass
  rw [hfirst.wf.data_eq hne, ok_bind, hfirst.wf.size_eq, ok_bind, access_eq_ok.mpr ⟨ho, hfreed⟩, ok_bind,
    guardOr_pos hq.inUse.socket, ok_bind]
  dsimp only
  rw [hm]
  cases a with
  | again =>
    rw [SendAnswer.result, if_pos neg_one_lt_zero, if_pos (by decide)]
    have hnot : ¬Calm poller_ [(.again : SendAnswer H)] := fun hcalm => hcalm.1 (List.mem_singleton_self _)
    refine (gone hq.inUse hq.poller ⟨_, hq.queued.symm⟩ h.ran fun _ => hF hnot).bind fun w' hgone => ?_
    rw [hq.failed] at hgone
    exact hgone.2
  | failed =>
    rw [SendAnswer.result, if_pos neg_one_lt_zero, if_pos (by decide)]
    have hnot : poller_ = .epoll → ¬Calm poller_ [(.failed : SendAnswer H)] :=
      fun hpoller hcalm => hcalm.2 hpoller (List.mem_singleton_self _)
    have hgone := gone (w := { w with failed := true }) hq.inUse hq.poller ⟨_, hq.queued.symm⟩ h.ran
      fun hpoller => hF (hnot hpoller)
    exact hgone.bind fun w' hw' => hw'
  | sent xs =>
    have hsize : ¬(SendAnswer.sent xs).result first.buffer_.contents.length < 0 :=
      not_lt.mpr (Int.natCast_nonneg _)
    -- a datagram goes out whole
    obtain ⟨buffer, hretrieve, hwf, hcontents, -⟩ :=
      hfirst.wf.retrieve_ok first.buffer_.contents.length
    have hzero : buffer.contents.length = 0 := by
      rw [hcontents, List.drop_length, List.length_nil]
    rw [if_neg hsize]
    show Outcome F _ (first.buffer_.retrieve first.buffer_.contents.length >>= _)
    rw [hretrieve, ok_bind, hwf.size_eq, ok_bind, if_pos hzero]
    have hq1 : Queued poller_ (w.record m (.sent xs)) w.handed (m :: rest) :=
      ⟨hq.inUse, hq.poller, hq.conns, hq.tasks, hq.queued, hq.failed⟩
    refine ((hq1.complete_ok first.handler_ xs).outcome henv).bind ?_
    rintro w2 ⟨more, hq2, hhanded2, hran2⟩
    obtain ⟨w3, hw3, hq3, hhanded3, hran3⟩ := hq2.popFront_ok
    rw [hw3, ok_bind]
    have hhanded : w3.handed = w.handed ++ [m] := hhanded3.trans hhanded2
    refine ⟨⟨rest ++ more, by rw [hhanded]; exact hq3⟩, ?_⟩
    -- the handler of the task, if it has one, is the next that ran
    rw [hran3, hran2, hhanded, List.filterMap_append, ← h.ran, hfirst.handler]
    show w.ran ++ _ = w.ran ++ _
    cases hhandler : m.handler with
    | none => rw [List.filterMap_cons_none hhandler]; rfl
    | some handler => rw [List.filterMap_cons_some hhandler]; rfl

/-- **The loop ends in a destroyed socket without an error exactly if `sendto` failed with `EAGAIN`.** -/
theorem Rests.writLoop_ok (henv : F .environment) : ∀ (as : List (SendAnswer H)) {w : UdpWorld H},
    Rests poller_ w → (¬Calm poller_ as → F .exception) →
    Outcome F (fun w' => (Calm poller_ as ∧ (Rests poller_ w' ∨ Gone w' true)) ∨ (¬Calm poller_ as ∧ Gone w' false))
      (w.writLoop as)
  | [], w, h, _ => by
    rw [writLoop]
    split
    · exact .inl ⟨⟨List.not_mem_nil, fun _ => List.not_mem_nil⟩, .inl h⟩
    · exact henv
  | a :: as, w, h, hF => by
    have hhead : ¬Calm poller_ [a] → F .exception := fun hnot => hF fun hcalm =>
      hnot ⟨fun ha => hcalm.1 (List.mem_singleton.mp ha ▸ List.mem_cons_self),
        fun hpoller ha => hcalm.2 hpoller (List.mem_singleton.mp ha ▸ List.mem_cons_self)⟩
    rw [writLoop]
    split
    · exact henv
    · next first tasks htasks =>
      refine (h.writPass_ok htasks a henv hhead).bind fun pass hpass => ?_
      cases pass with
      | next w1 =>
        cases a with
        | again => exact hpass.elim
        | failed => exact hpass.elim
        | sent xs =>
          have hsame : Calm poller_ (.sent xs :: as) ↔ Calm poller_ as := by simp [Calm]
          rw [hsame] at hF ⊢
          exact Rests.writLoop_ok henv as hpass hF
      | done w1 =>
        dsimp only
        split
        · next hempty =>
          rw [List.isEmpty_iff.mp hempty]
          cases a with
          | sent xs => exact hpass.elim
          | again => exact .inr ⟨fun hcalm => hcalm.1 (List.mem_singleton_self _), hpass⟩
          | failed =>
            obtain ⟨hpoller, hgone⟩ := hpass
            exact .inl ⟨⟨by simp, fun h => absurd h hpoller⟩, .inr hgone⟩
        · exact henv

theorem Rests.handleWritEvent_ok (h : Rests poller_ w) (as : List (SendAnswer H)) (henv : F .environment)
    (hF : ¬Calm poller_ as → F .exception) :
    Outcome F (fun w' => (Calm poller_ as ∧ (Rests poller_ w' ∨ Gone w' true)) ∨ (¬Calm poller_ as ∧ Gone w' false))
      (w.handleWritEvent as) := by
  obtain ⟨pending, hq⟩ := h.queue
  obtain ⟨ch, hch, -⟩ := hq.inUse.interest
  unfold handleWritEvent
  rw [if_neg (by rw [hq.inUse.destroy]; exact Bool.false_ne_true)]
  split
  · next hempty =>
    unfold enableWrit
    rw [hch]
    refine Rests.writLoop_ok henv as
      ⟨⟨pending, ⟨?_, hq.poller, hq.conns, hq.tasks, hq.queued, hq.failed⟩⟩, h.ran⟩ hF
    exact ⟨hq.inUse.destroy, hq.inUse.socket, ⟨_, rfl, fun hne => absurd hempty hne⟩,
      hq.inUse.acceptor, hq.inUse.reader, hq.inUse.erro⟩
  · exact Rests.writLoop_ok henv as h hF

/-! ## Runs -/

/-- A new connection changes nothing about the queue. -/
theorem Rests.connect_ok (h : Rests poller_ w) (ep : Endpoint) : Rests poller_ (w.handleConnectEvent ep) := by
  unfold handleConnectEvent
  split
  · exact h
  · next hnone =>
    obtain ⟨pending, hq⟩ := h.queue
    have hnew : Rests poller_ (w.makeConn ep) := by
      refine ⟨⟨pending, ⟨?_, hq.poller, ?_, ?_, hq.queued, hq.failed⟩⟩, h.ran⟩
      · exact ⟨hq.inUse.destroy, hq.inUse.socket, hq.inUse.interest, hq.inUse.acceptor,
          hq.inUse.reader, hq.inUse.erro⟩
      · intro e he
        have he : e ∈ w.socket.conns_.insert Endpoint.lt ep w.uconns.length := he
        rw [KeyMap.insert_new hnone] at he
        rcases List.mem_append.mp he with he | he
        · obtain ⟨o, ho, hfreed⟩ := hq.conns e he
          refine ⟨o, ?_, hfreed⟩
          exact (List.getElem?_append_left (List.getElem?_eq_some_iff.mp ho).1).trans ho
        · rw [List.mem_singleton.mp he]
          exact ⟨_, List.getElem?_concat_length, rfl⟩
      · exact hq.tasks.imp fun t m ht => ht.append _
    unfold callback
    split
    · obtain ⟨pending, hq⟩ := hnew.queue
      exact ⟨⟨pending, hq.inUse, hq.poller, hq.conns, hq.tasks, hq.queued, hq.failed⟩, hnew.ran⟩
    · exact hnew

/-- **An event keeps the write path right exactly if its answers are calm.** -/
theorem Rests.step_ok (h : Rests poller_ w) (e : UdpEvent H) :
    Outcome (fun f => f = .environment ∨ (f = .exception ∧ ¬e.Calm poller_))
      (fun w' => (e.Calm poller_ ∧ (Rests poller_ w' ∨ Gone w' true)) ∨ (¬e.Calm poller_ ∧ Gone w' false))
      (w.step e) := by
  cases e with
  | connect ep => exact Outcome.guard (.inl rfl) fun _ => .inl ⟨trivial, .inl (h.connect_ok ep)⟩
  | send x =>
    obtain ⟨pending, hq⟩ := h.queue
    refine ((hq.call_ok x).imp_ok ?_).outcome (.inl rfl)
    rintro w' - ⟨m, hq', hhanded, hran⟩
    exact .inl ⟨trivial, .inl ⟨⟨_, by rw [hhanded]; exact hq'⟩, by rw [hran, hhanded]; exact h.ran⟩⟩
  | writ as =>
    exact Outcome.guard (.inl rfl) fun _ => h.handleWritEvent_ok as (.inl rfl) fun hnot => .inr ⟨rfl, hnot⟩

/-- Nothing is sent on a socket that was destroyed. -/
theorem Gone.step_ok {failed : Bool} (h : Gone w failed) (e : UdpEvent H) :
    w.step e = .error .environment := by
  have hdestroy : ¬w.socket.destroy_ = false := by
    rw [h.destroy]
    exact Bool.noConfusion
  cases e with
  | connect ep =>
    rw [step, guardOr_neg hdestroy]
    rfl
  | send x =>
    rw [step, call, guardOr_neg (by rw [h.conns]; exact Bool.false_ne_true)]
    rfl
  | writ as =>
    rw [step, guardOr_neg hdestroy]
    rfl

/-- What every run keeps. -/
def Kept (poller_ : Chooser) (w : UdpWorld H) : Prop := Rests poller_ w ∨ ∃ failed, Gone w failed

theorem Kept.step_ok (h : Kept poller_ w) (e : UdpEvent H) :
    Outcome (fun f => f = .environment ∨ (f = .exception ∧ ¬e.Calm poller_))
      (fun w' => Kept poller_ w' ∧ (WritesRight w' ↔ e.Calm poller_)) (w.step e) := by
  rcases h with h | ⟨failed, h⟩
  · refine (h.step_ok e).imp ?_
    rintro w' (⟨hcalm, h' | h'⟩ | ⟨hnot, h'⟩)
    · exact ⟨.inl h', iff_of_true h'.writesRight hcalm⟩
    · exact ⟨.inr ⟨_, h'⟩, iff_of_true (h'.writesRight_iff.mpr rfl) hcalm⟩
    · exact ⟨.inr ⟨_, h'⟩, iff_of_false (fun hright => nomatch h'.writesRight_iff.mp hright) hnot⟩
  · rw [h.step_ok e]
    exact .inl rfl

theorem rests_started : Rests poller_ (started poller_ : UdpWorld H) where
  queue := ⟨[], ⟨rfl, rfl, ⟨_, rfl, fun hne => absurd rfl hne⟩, rfl, rfl, rfl⟩, rfl, nofun, .nil, rfl, rfl⟩
  ran := rfl

/--
**UDP write path.** A run in which the environment keeps its contract returns, and in all of it the datagrams
handed over are those given to `send`, in their order, each once and followed by its completion handler, the
rest is in the queue, and the socket is destroyed only for an error that is not `EAGAIN`, exactly if no `sendto`
fails with `EAGAIN` and, over a `PollerEpoll`, none fails at all.
-/
theorem udp_write_iff (poller_ : Chooser) (es : List (UdpEvent H))
    (h : run step (started poller_ : UdpWorld H) es ≠ .error .environment) :
    ((∃ w, run step (started poller_ : UdpWorld H) es = .ok w) ∧
      ∀ es' t, es' <+: es → run step (started poller_) es' = .ok t → WritesRight t) ↔
      ∀ e ∈ es, e.Calm poller_ := by
  have halong : Along step (fun _ e => e.Calm poller_) (started poller_ : UdpWorld H) es ↔ _ :=
    along_iff_returns (F := (· ≠ .environment)) (B := Kept poller_) (I := WritesRight)
      (fun w e w' hw hstep => ((hw.step_ok e).of_ok hstep).1)
      (fun w e w' hw _ hstep => ((hw.step_ok e).of_ok hstep).2)
      (fun w e f hw _ hstep hf => by
        have hfault := hw.step_ok e
        rw [hstep] at hfault
        exact (hfault.resolve_left hf).2)
      (.inl rests_started) rests_started.writesRight (fun f hf hne => h (hne ▸ hf))
  rw [← halong]
  refine ⟨fun hall => ?_, fun hall => along_of_forall (fun e he _ => hall e he) _⟩
  obtain ⟨w, hw⟩ := (halong.mp hall).1
  exact (along_iff_forall hw).mp hall

theorem sends_oneByte : (UdpSend.string [7] (some ())).Sends := List.cons_ne_nil _ _

/-- A datagram of one byte for the first connection. -/
def oneByteCall : UdpSendCall Unit where
  uconn := 0
  send := .string [7] (some ())
  sends := sends_oneByte

/-- A datagram that is handed over, over the default back end. -/
def sendOne : List (UdpEvent Unit) :=
  [.connect { port_ := 80, addr_ := 1 }, .send oneByteCall, .writ [.sent []]]

theorem udp_write_one : (∃ w, run step (started .epoll) sendOne = .ok w) ∧
    ∀ es' t, es' <+: sendOne → run step (started .epoll) es' = .ok t → WritesRight t := by
  have hrun : (run step (started .epoll) sendOne).toOption.map (fun _ => ()) = some () := by
    decide +kernel
  obtain ⟨w, hw, -⟩ := ok_of_toOption_map hrun
  refine (udp_write_iff .epoll sendOne fun henv => ?_).mpr ?_
  · cases hw.symm.trans henv
  · simp [sendOne, UdpEvent.Calm, Calm]

/-- One datagram, and a full kernel buffer. -/
def sendAgain : List (UdpEvent Unit) :=
  [.connect { port_ := 80, addr_ := 1 }, .send oneByteCall, .writ [.again]]

/-- A full kernel buffer ends the process, or destroys the socket, and the datagram is lost. -/
theorem udp_write_lost : run step (started .epoll) sendAgain = .error .exception ∧
    ∃ w, run step (started .poll) sendAgain = .ok w ∧
      w.socket.destroy_ = true ∧ w.failed = false ∧ w.socket.writTasks_ = [] ∧ w.handed = [] ∧
      ¬WritesRight w := by
  have hsees : (run step (started .poll) sendAgain).toOption.map
      (fun w => (w.socket.destroy_, w.failed, w.socket.writTasks_, w.handed)) =
      some (true, false, [], []) := by
    decide +kernel
  obtain ⟨w, hrun, heq⟩ := ok_of_toOption_map hsees
  simp only [Prod.mk.injEq] at heq
  obtain ⟨hdestroy, hfailed, htasks, hhanded⟩ := heq
  refine ⟨by decide +kernel, w, hrun, hdestroy, hfailed, htasks, hhanded, fun hright => ?_⟩
  rw [hright.error hdestroy] at hfailed
  cases hfailed

end UdpWorld

end Liby
