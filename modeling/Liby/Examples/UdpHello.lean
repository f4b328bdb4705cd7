import Liby.Net.UdpWrite

/-!
# The UDP hello server

`examples/udp_hello.cpp`: a new peer is greeted, and every datagram is sent back to the peer that it came from.
The server has no error callback. A call that fails destroys its socket, also `sendto` with `EAGAIN`, and over the
`PollerEpoll` of the program the process ends there.
-/

namespace Liby.UdpHello

open Infra UdpWorld

/-- A datagram as `recvfrom` gives it, with its peer. -/
abbrev Received : Type := Endpoint × Bytes

/-- The text of the accept callback. -/
def greeting : Bytes := str "Hello World\n"

/-- The socket after `start`, with the callbacks of `main`, in an `EventLoopGroup` with the default `chooser`. -/
def started : UdpWorld Unit :=
  { (UdpWorld.started .epoll : UdpWorld Unit) with
    socket := { (UdpWorld.started .epoll : UdpWorld Unit).socket with
      connectorCallback_ := false, erroEventCallback_ := false } }

/-- The accept callback. -/
def onAccept (w : UdpWorld Unit) (uconn : Nat) : Exec (UdpWorld Unit) :=
  w.sendOn uconn (.cString greeting none)

/-- The read callback, `uconn.send(uconn.read())`. -/
def onRead (w : UdpWorld Unit) (uconn : Nat) : Exec (UdpWorld Unit) :=
  w.runOp none uconn (.send none)

/-- The end of a pass of `handleReadEvent`: `getReadBuf().append(buffer, n)` and the read callback. -/
def deliver (w : UdpWorld Unit) (uconn : Nat) (buffer : Bytes) : Exec (UdpWorld Unit) := do
  let o ← w.access uconn
  let readBuf ← o.uconn.readBuf_.append buffer
  let w := w.store uconn { o with uconn := { o.uconn with readBuf_ := readBuf } }
  if w.socket.readEventCallback_ then
    onRead (w.callback true (.read o.uconn.peer_ buffer)) uconn
  else return w

/-- A pass of the loop of `handleReadEvent` with a datagram. -/
def recvfrom (w : UdpWorld Unit) (g : Received) : Exec (UdpWorld Unit) := do
  guardOr .environment (g.2.length ≤ 4096)
  match w.socket.conns_.find Endpoint.lt g.1 with
  | none => do
    let uconn := w.uconns.length
    let w := w.makeConn g.1
    let w ← (if w.socket.acceptorCallback_ then onAccept (w.callback true (.accept g.1)) uconn else .ok w)
    let w ← deliver w uconn g.2
    return w.release uconn
  | some uconn => deliver w uconn g.2

/-- `handleReadEvent`. After the datagrams `recvfrom` fails, with `EAGAIN` or with another error. -/
def handleReadEvent (w : UdpWorld Unit) (failed : Bool) : List Received → Exec (UdpWorld Unit)
  | [] => do
    guardOr .nullDeref w.socket.socket_
    if failed then w.handleErroEvent else .ok w
  | g :: gs => do
    guardOr .nullDeref w.socket.socket_
    let w ← recvfrom w g
    handleReadEvent w failed gs

/-- What the poller reports. -/
inductive Event where
  | read (gs : List Received) (failed : Bool)
  | writ (as : List (SendAnswer Unit))
  | erro

/-- An event. -/
def step (w : UdpWorld Unit) : Event → Exec (UdpWorld Unit)
  | .read gs failed => handleReadEvent w failed gs
  | .writ as => w.handleWritEvent as
  | .erro => w.handleErroEvent

/-! ## What should come of datagrams -/

/-- The answer of `sendto` is an error, be it `EAGAIN`. -/
def fails : SendAnswer Unit → Bool
  | .sent _ => false
  | .again | .failed => true

namespace Event

/-- The datagrams of an event. -/
def received : Event → List Received
  | .read gs _ => gs
  | .writ _ | .erro => []

/-- A call on the socket fails. -/
def breaks : Event → Bool
  | .read _ failed => failed
  | .writ as => as.any fails
  | .erro => true

end Event

/-- The datagrams that came before a call has failed. -/
def receivedBy : List Event → List Received
  | [] => []
  | e :: es => e.received ++ if e.breaks then [] else receivedBy es

/-- A datagram to a peer. -/
def toPeer (peer : Endpoint) (payload : Bytes) : UdpMessage Unit :=
  { dest := peer, payload := payload, handler := none }

/-- What is sent for a datagram, if the peers `known` have a connection. -/
def answer (known : List Endpoint) (g : Received) : List (UdpMessage Unit) :=
  (if g.1 ∈ known then [] else [toPeer g.1 greeting]) ++ [toPeer g.1 g.2]

/-- What is sent for datagrams. -/
def answers (known : List Endpoint) : List Received → List (UdpMessage Unit)
  | [] => []
  | g :: gs => answer known g ++ answers (known ++ [g.1]) gs

/-- The payloads that go to a peer. -/
def payloadsTo (ep : Endpoint) (ms : List (UdpMessage Unit)) : List Bytes :=
  (ms.filter fun m => m.dest = ep).map UdpMessage.payload

/-- The payloads that came from a peer. -/
def payloadsOf (ep : Endpoint) (gs : List Received) : List Bytes :=
  (gs.filter fun g => g.1 = ep).map Prod.snd

theorem payloadsTo_append (ep : Endpoint) (ms ms' : List (UdpMessage Unit)) :
    payloadsTo ep (ms ++ ms') = payloadsTo ep ms ++ payloadsTo ep ms' := by
  unfold payloadsTo
  rw [List.filter_append, List.map_append]

theorem answers_append (known : List Endpoint) (gs hs : List Received) :
    answers known (gs ++ hs) = answers known gs ++ answers (known ++ gs.map Prod.fst) hs := by
  induction gs generalizing known with
  | nil => simp [answers]
  | cons g gs ih =>
    rw [List.cons_append, answers, answers, ih, List.append_assoc, List.append_assoc]
    rfl

/-- The answer to a datagram goes to its peer. -/
theorem payloadsTo_answer (ep : Endpoint) (known : List Endpoint) (g : Received) :
    payloadsTo ep (answer known g) =
      if g.1 = ep then (if ep ∈ known then [] else [greeting]) ++ [g.2] else [] := by
  unfold answer payloadsTo toPeer
  by_cases hep : g.1 = ep
  · subst hep
    by_cases hknown : g.1 ∈ known <;> simp [hknown]
  · by_cases hknown : g.1 ∈ known <;> simp [hknown, hep]

/-- **A peer that sends something gets the greeting, if it is new, and then what it has sent.** -/
theorem payloadsTo_answers (ep : Endpoint) (known : List Endpoint) (gs : List Received) :
    payloadsTo ep (answers known gs) =
      (if ep ∈ known ∨ payloadsOf ep gs = [] then [] else [greeting]) ++ payloadsOf ep gs := by
  induction gs generalizing known with
  | nil => simp [answers, payloadsOf, payloadsTo]
  | cons g gs ih =>
    rw [answers, payloadsTo_append, payloadsTo_answer, ih]
    by_cases hep : g.1 = ep
    · subst hep
      by_cases hknown : g.1 ∈ known <;> simp [payloadsOf, hknown]
    · have hsame : payloadsOf ep (g :: gs) = payloadsOf ep gs := by
        unfold payloadsOf
        rw [List.filter_cons_of_neg (by simpa using hep)]
      have hknown : ep ∈ known ++ [g.1] ↔ ep ∈ known := by
        simpa using fun h => absurd h.symm hep
      rw [if_neg hep, List.nil_append, hsame]
      simp only [hknown]

/-! ## The server between two events -/

/-- A connection of `ep` whose read buffer was taken by the last read callback. -/
structure Idle (o : UdpObject) (ep : Endpoint) : Prop where
  live : o.freed = false
  peer : o.uconn.peer_ = ep
  usable : o.uconn.readBuf_.Usable
  contents : o.uconn.readBuf_.contents = []

/--
The socket is there, with the connections of the peers `known`; what was handed over and what waits is `log`, and
the write interest is on while something waits.
-/
structure Serving (w : UdpWorld Unit) (known : List Endpoint) (log : List (UdpMessage Unit)) : Prop where
  poller : w.socket.poller_ = .epoll
  alive : w.socket.destroy_ = false
  socket : w.socket.socket_ = true
  acceptor : w.socket.acceptorCallback_ = true
  reader : w.socket.readEventCallback_ = true
  interest : ∃ ch, w.socket.chan_ = some ch ∧
    (w.socket.writTasks_ ≠ [] → ch.writable_ = true ∧ ch.polledOut = true)
  known : ∀ ep, ep ∈ known ↔ (w.socket.conns_.find Endpoint.lt ep).isSome = true
  conns : ∀ ep p, w.socket.conns_.find Endpoint.lt ep = some p → ∃ o, w.uconns[p]? = some o ∧ Idle o ep
  tasks : ∃ pending, List.Forall₂ (Says w.uconns) w.socket.writTasks_ pending ∧ w.handed ++ pending = log
  plain : ∀ task ∈ w.socket.writTasks_, task.handler_ = none

variable {w : UdpWorld Unit} {known : List Endpoint} {log : List (UdpMessage Unit)} {p : Nat}

theorem serving_started : Serving started [] [] where
  poller := rfl
  alive := rfl
  socket := rfl
  acceptor := rfl
  reader := rfl
  interest := ⟨_, rfl, fun h => absurd rfl h⟩
  known := fun _ => ⟨nofun, nofun⟩
  conns := nofun
  tasks := ⟨[], .nil, rfl⟩
  plain := nofun

/-- What is known of the server says nothing of the callbacks that have run. -/
theorem Serving.same {w' : UdpWorld Unit} (h : Serving w known log) (hsocket : w'.socket = w.socket)
    (huconns : w'.uconns = w.uconns) (hhanded : w'.handed = w.handed) : Serving w' known log where
  poller := by rw [hsocket]; exact h.poller
  alive := by rw [hsocket]; exact h.alive
  socket := by rw [hsocket]; exact h.socket
  acceptor := by rw [hsocket]; exact h.acceptor
  reader := by rw [hsocket]; exact h.reader
  interest := by rw [hsocket]; exact h.interest
  known := by rw [hsocket]; exact h.known
  conns := by rw [hsocket, huconns]; exact h.conns
  tasks := by rw [hsocket, huconns, hhanded]; exact h.tasks
  plain := by rw [hsocket]; exact h.plain

/-- A task does not mind a change of the buffer of a connection. -/
theorem Says.set {uconns : List UdpObject} {t : UdpTask Unit} {m : UdpMessage Unit} (h : Says uconns t m)
    {o o' : UdpObject} (ho : uconns[p]? = some o) (hfreed : o'.freed = false)
    (hpeer : o'.uconn.peer_ = o.uconn.peer_) : Says (uconns.set p o') t m where
  dest := by
    obtain ⟨o₁, ho₁, hlive, hdest⟩ := h.dest
    by_cases hp : p = t.dest_
    · subst hp
      cases ho.symm.trans ho₁
      refine ⟨o', List.getElem?_set_self (List.getElem?_eq_some_iff.mp ho).1, hfreed, ?_⟩
      rw [hpeer]
      exact hdest
    · exact ⟨o₁, (List.getElem?_set_ne hp).trans ho₁, hlive, hdest⟩
  wf := h.wf
  payload := h.payload
  payload_ne := h.payload_ne
  handler := h.handler

/-- The buffer of a connection changes, and is empty as before. -/
theorem Serving.store (h : Serving w known log) {o o' : UdpObject} {ep : Endpoint}
    (ho : w.uconns[p]? = some o) (hpeer : o.uconn.peer_ = ep) (hidle : Idle o' ep) :
    Serving (w.store p o') known log where
  poller := h.poller
  alive := h.alive
  socket := h.socket
  acceptor := h.acceptor
  reader := h.reader
  interest := h.interest
  known := h.known
  conns := by
    intro ep' q hq
    obtain ⟨o₁, ho₁, hidle₁⟩ := h.conns ep' q hq
    by_cases hpq : p = q
    · subst hpq
      cases ho.symm.trans ho₁
      obtain rfl : ep = ep' := hpeer.symm.trans hidle₁.peer
      exact ⟨o', List.getElem?_set_self (List.getElem?_eq_some_iff.mp ho).1, hidle⟩
    · exact ⟨o₁, (List.getElem?_set_ne hpq).trans ho₁, hidle₁⟩
  tasks := by
    obtain ⟨pending, htasks, hlog⟩ := h.tasks
    exact ⟨pending, htasks.imp fun t m ht => Says.set ht ho hidle.live (hidle.peer.trans hpeer.symm), hlog⟩
  plain := h.plain

/-- **`send` puts its datagram at the end of the log.** -/
theorem Serving.send_ok (h : Serving w known log) {o o' : UdpObject} {buf : Buffer} (ho : w.uconns[p]? = some o')
    (hlive : o'.freed = false) (hpeer : o.uconn.peer_ = o'.uconn.peer_) (hwf : buf.Wf)
    (hne : buf.contents ≠ []) :
    ∃ w', w.send o { dest_ := p, buffer_ := buf, handler_ := none } = .ok w' ∧
      Serving w' known (log ++ [toPeer o.uconn.peer_ buf.contents]) ∧ w'.uconns = w.uconns ∧
      w'.socket.conns_ = w.socket.conns_ := by
  obtain ⟨ch, hch, -⟩ := h.interest
  obtain ⟨pending, htasks, hlog⟩ := h.tasks
  unfold UdpWorld.send enableWrit
  dsimp only
  rw [hch]
  refine ⟨_, rfl, ⟨h.poller, h.alive, h.socket, h.acceptor, h.reader, ⟨_, rfl, fun _ => ⟨rfl, rfl⟩⟩, h.known,
    h.conns, ?_, ?_⟩, rfl, rfl⟩
  · refine ⟨pending ++ [toPeer o.uconn.peer_ buf.contents], List.rel_append htasks (.cons ?_ .nil), ?_⟩
    · exact ⟨⟨o', ho, hlive, hpeer⟩, hwf, rfl, hne, rfl⟩
    · show w.handed ++ (pending ++ _) = _
      rw [← List.append_assoc, hlog]
  · intro task htask
    rcases List.mem_append.mp htask with htask | htask
    · exact h.plain task htask
    · rw [List.mem_singleton.mp htask]

/-! ## Reading -/

variable {F : Fault → Prop}

/-- **A datagram is sent back, and an empty one fails the assertion of `append`.** -/
theorem Serving.deliver_ok (h : Serving w known log) {o : UdpObject} {ep : Endpoint} (ho : w.uconns[p]? = some o)
    (hidle : Idle o ep) {buffer : Bytes} (hF : buffer = [] → F .assertFailed) :
    Outcome F (fun w' => buffer ≠ [] ∧ Serving w' known (log ++ [toPeer ep buffer]) ∧
      w'.socket.conns_ = w.socket.conns_) (deliver w p buffer) := by
  have hp := (List.getElem?_eq_some_iff.mp ho).1
  unfold deliver
  rw [access_eq_ok.mpr ⟨ho, hidle.live⟩, ok_bind]
  by_cases hne : buffer = []
  · subst hne
    exact hF rfl
  · obtain ⟨readBuf, happend, husable, hcontents⟩ := hidle.usable.append_ok hne
    rw [hidle.contents, List.nil_append] at hcontents
    rw [happend, ok_bind]
    dsimp only
    rw [if_pos (show (w.store p _).socket.readEventCallback_ = true from h.reader)]
    -- `send` swaps the buffer with a new one
    let o₁ : UdpObject := { o with uconn := { o.uconn with readBuf_ := readBuf } }
    let o₂ : UdpObject := { o₁ with
      uconn := { o₁.uconn with readBuf_ := .ofLength readBuf.capacity_ }, taken := o₁.taken ++ readBuf.contents }
    have hidle₂ : Idle o₂ ep :=
      ⟨hidle.live, hidle.peer, Buffer.usable_ofLength husable.capacity, Buffer.contents_ofLength _⟩
    have hserves : Serving { w.store p o₂ with calls := w.calls ++ [.read o.uconn.peer_ buffer] } known log :=
      (h.store ho hidle.peer hidle₂).same rfl rfl rfl
    have hthere : (w.uconns.set p o₂)[p]? = some o₂ := List.getElem?_set_self hp
    obtain ⟨w', hw', hserves', -, hconns⟩ := hserves.send_ok (o := o₁) hthere hidle.live rfl husable.readable.wf
      (by rw [hcontents]; exact hne)
    have hread : onRead ((w.store p o₁).callback true (.read o.uconn.peer_ buffer)) p = .ok w' := by
      have haccess : ((w.store p o₁).callback true (.read o.uconn.peer_ buffer)).access p = .ok o₁ :=
        access_eq_ok.mpr ⟨List.getElem?_set_self hp, hidle.live⟩
      unfold onRead runOp
      rw [haccess, ok_bind]
      show guardOr _ _ >>= _ = _
      rw [guardOr_pos ⟨husable.capacity, husable.readable.wf.left_le⟩, ok_bind, ← hw']
      unfold UdpWorld.take UdpWorld.store UdpWorld.callback
      rw [if_pos rfl, List.set_set]
    rw [hread]
    refine ⟨hne, ?_, hconns⟩
    rw [hcontents, show o₁.uconn.peer_ = ep from hidle.peer] at hserves'
    exact hserves'

/-- A new peer has a connection. -/
theorem Serving.makeConn_ok (h : Serving w known log) {ep : Endpoint}
    (hnew : w.socket.conns_.find Endpoint.lt ep = none) : Serving (w.makeConn ep) (known ++ [ep]) log ∧
      (w.makeConn ep).socket.conns_.find Endpoint.lt ep = some w.uconns.length ∧
      ∃ o, (w.makeConn ep).uconns[w.uconns.length]? = some o ∧ Idle o ep := by
  have hfind : ∀ ep', (w.makeConn ep).socket.conns_.find Endpoint.lt ep' =
      if ep = ep' then some w.uconns.length else w.socket.conns_.find Endpoint.lt ep' :=
    KeyMap.find_insert separates_endpoint hnew
  have hobject : ∃ o, (w.makeConn ep).uconns[w.uconns.length]? = some o ∧ Idle o ep :=
    ⟨_, List.getElem?_concat_length, rfl, rfl, Buffer.usable_ofLength (Nat.succ_pos 1023),
      Buffer.contents_ofLength 1024⟩
  refine ⟨⟨h.poller, h.alive, h.socket, h.acceptor, h.reader, h.interest, fun ep' => ?_, fun ep' p hp => ?_, ?_,
    h.plain⟩, ?_, hobject⟩
  · rw [hfind, List.mem_append, List.mem_singleton]
    split
    · next heq => exact iff_of_true (.inr heq.symm) rfl
    · next hne =>
      rw [h.known ep']
      exact ⟨fun h' => h'.resolve_right fun heq => hne heq.symm, .inl⟩
  · rw [hfind] at hp
    split at hp
    · next heq =>
      cases hp
      exact heq ▸ hobject
    · obtain ⟨o, ho, hidle⟩ := h.conns ep' p hp
      exact ⟨o, (List.getElem?_append_left (List.getElem?_eq_some_iff.mp ho).1).trans ho, hidle⟩
  · obtain ⟨pending, htasks, hlog⟩ := h.tasks
    exact ⟨pending, htasks.imp fun t m ht => ht.append _, hlog⟩
  · rw [hfind, if_pos rfl]

/-- The accept callback sends the greeting. -/
theorem Serving.onAccept_ok (h : Serving w known log) {o : UdpObject} {ep : Endpoint} (ho : w.uconns[p]? = some o)
    (hidle : Idle o ep) : ∃ w', onAccept w p = .ok w' ∧ Serving w' known (log ++ [toPeer ep greeting]) ∧
      w'.uconns = w.uconns ∧ w'.socket.conns_ = w.socket.conns_ := by
  have hcontents : (Buffer.ofBytes (greeting.takeWhile (· ≠ 0))).contents = greeting := by
    rw [Buffer.contents_ofBytes]
    decide
  obtain ⟨w', hw', hserves, hrest⟩ := h.send_ok (o := o) ho hidle.live rfl
    (Buffer.wf_ofBytes (greeting.takeWhile (· ≠ 0))) (by rw [hcontents]; decide)
  rw [hcontents, hidle.peer] at hserves
  refine ⟨w', ?_, hserves, hrest⟩
  unfold onAccept sendOn
  rw [access_eq_ok.mpr ⟨ho, hidle.live⟩]
  exact hw'

/-- **A pass of the loop sends what should be sent for its datagram.** -/
theorem Serving.recvfrom_ok (h : Serving w known log) {g : Received} (henv : F .environment)
    (hF : g.2 = [] → F .assertFailed) :
    Outcome F (fun w' => g.2 ≠ [] ∧ Serving w' (known ++ [g.1]) (log ++ answer known g)) (recvfrom w g) := by
  unfold recvfrom
  refine Outcome.guard henv fun _ => ?_
  cases hfind : w.socket.conns_.find Endpoint.lt g.1 with
  | none =>
    have hnew : g.1 ∉ known := fun hmem => by
      have hsome := (h.known g.1).mp hmem
      rw [hfind] at hsome
      cases hsome
    obtain ⟨hmade, hfound, o, ho, hidle⟩ := h.makeConn_ok hfind
    have hcalled : Serving ((w.makeConn g.1).callback true (.accept g.1)) (known ++ [g.1]) log :=
      hmade.same rfl rfl rfl
    obtain ⟨w₁, hw₁, hserves, huconns, hconns⟩ := hcalled.onAccept_ok ho hidle
    dsimp only
    rw [if_pos hmade.acceptor, hw₁, ok_bind]
    have ho₁ : w₁.uconns[w.uconns.length]? = some o := by
      rw [huconns]
      exact ho
    refine (hserves.deliver_ok ho₁ hidle hF).bind fun w₂ ⟨hne, hserves₂, hconns₂⟩ => ⟨hne, ?_⟩
    -- `conns_` has the connection too
    have hmem : w₂.socket.conns_.any (fun e => e.2 = w.uconns.length) = true := by
      rw [hconns₂, hconns]
      exact List.any_eq_true.mpr ⟨_, KeyMap.mem_of_find separates_endpoint hfound, decide_eq_true rfl⟩
    unfold UdpWorld.release answer
    rw [if_pos hmem, if_neg hnew, ← List.append_assoc]
    exact hserves₂
  | some q =>
    have hmem : g.1 ∈ known := (h.known g.1).mpr (by rw [hfind]; rfl)
    obtain ⟨o, ho, hidle⟩ := h.conns g.1 q hfind
    refine (h.deliver_ok ho hidle hF).imp fun w' ⟨hne, hserves, _⟩ => ⟨hne, ?_⟩
    have hknown : ∀ ep, ep ∈ known ++ [g.1] ↔ ep ∈ known := fun ep => by
      rw [List.mem_append, List.mem_singleton]
      exact ⟨fun h' => h'.elim id fun heq => heq ▸ hmem, .inl⟩
    unfold answer
    rw [if_pos hmem, List.nil_append]
    exact ⟨hserves.poller, hserves.alive, hserves.socket, hserves.acceptor, hserves.reader, hserves.interest,
      fun ep => (hknown ep).trans (hserves.known ep), hserves.conns, hserves.tasks, hserves.plain⟩

/-- `handleErroEvent` ends the process. -/
theorem Serving.handleErroEvent_throws (h : Serving w known log) : w.handleErroEvent = .error .exception := by
  obtain ⟨ch, hch, -⟩ := h.interest
  have hdestroy : ∀ v : UdpWorld Unit, v.socket = w.socket → v.destroy = .error .exception := fun v hv => by
    rw [destroy_live (by rw [hv]; exact h.alive) (by rw [hv, hch]; rfl), hv, if_pos h.poller]
  unfold UdpWorld.handleErroEvent UdpWorld.callback
  split <;> exact hdestroy _ rfl

/-- **A read event sends what should be sent for its datagrams.** -/
theorem Serving.handleReadEvent_ok {failed : Bool} (henv : F .environment) (hexc : failed = true → F .exception) :
    ∀ (gs : List Received) {w : UdpWorld Unit} {known : List Endpoint} {log : List (UdpMessage Unit)},
    Serving w known log → (∀ g ∈ gs, g.2 = [] → F .assertFailed) →
    Outcome F (fun w' => failed = false ∧ (∀ g ∈ gs, g.2 ≠ []) ∧
      Serving w' (known ++ gs.map Prod.fst) (log ++ answers known gs)) (handleReadEvent w failed gs)
  | [], w, known, log, h, _ => by
    rw [handleReadEvent, guardOr_pos h.socket, ok_bind]
    cases failed with
    | false =>
      refine ⟨rfl, nofun, ?_⟩
      rw [answers, List.map_nil, List.append_nil, List.append_nil]
      exact h
    | true =>
      rw [if_pos rfl, h.handleErroEvent_throws]
      exact hexc rfl
  | g :: gs, w, known, log, h, hF => by
    rw [handleReadEvent, guardOr_pos h.socket, ok_bind]
    refine (h.recvfrom_ok henv (hF g List.mem_cons_self)).bind fun w₁ ⟨hne, h₁⟩ => ?_
    refine (Serving.handleReadEvent_ok henv hexc gs h₁ fun g' hg' =>
      hF g' (List.mem_cons_of_mem _ hg')).imp fun w' ⟨hgoes, hnes, hrest⟩ => ⟨hgoes, ?_, ?_⟩
    · exact List.forall_mem_cons.mpr ⟨hne, hnes⟩
    · rw [answers, List.map_cons, ← List.append_assoc, List.append_cons known g.1]
      exact hrest

/-! ## Writing -/

/-- **A pass of the write loop**: the datagram at the front goes out, or the process ends. -/
theorem Serving.writPass_ok (h : Serving w known log) {first : UdpTask Unit} {tasks : List (UdpTask Unit)}
    (hqueue : w.socket.writTasks_ = first :: tasks) {a : SendAnswer Unit} (hexc : fails a = true → F .exception) :
    Outcome F (fun pass => ∃ w', pass = .next w' ∧ fails a = false ∧ Serving w' known log) (w.writPass first a) := by
  obtain ⟨pending, htasks, hlog⟩ := h.tasks
  rw [hqueue] at htasks
  obtain ⟨m, rest, hfirst, hrest, rfl⟩ := List.forall₂_cons_left_iff.mp htasks
  obtain ⟨o, ho, hfreed, hdest⟩ := hfirst.dest
  have hplain := h.plain
  rw [hqueue, List.forall_mem_cons] at hplain
  have hne : first.buffer_.contents ≠ [] := by
    rw [hfirst.payload]
    exact hfirst.payload_ne
  have hm : ({ dest := o.uconn.peer_, payload := first.buffer_.contents, handler := first.handler_ } :
      UdpMessage Unit) = m := by
    rw [← hdest, hfirst.payload, hfirst.handler]
  unfold writPass
  rw [hfirst.wf.data_eq hne, ok_bind, hfirst.wf.size_eq, ok_bind, access_eq_ok.mpr ⟨ho, hfreed⟩, ok_bind,
    guardOr_pos h.socket, ok_bind]
  dsimp only
  rw [hm]
  cases a with
  | again =>
    rw [SendAnswer.result, if_pos neg_one_lt_zero, if_pos (by decide)]
    show Outcome F _ (w.handleErroEvent >>= _)
    rw [h.handleErroEvent_throws]
    exact hexc rfl
  | failed =>
    rw [SendAnswer.result, if_pos neg_one_lt_zero, if_pos (by decide)]
    have hfailed : Serving { w with failed := true } known log := h.same rfl rfl rfl
    show Outcome F _ (({ w with failed := true } : UdpWorld Unit).handleErroEvent >>= _)
    rw [hfailed.handleErroEvent_throws]
    exact hexc rfl
  | sent xs =>
    have hsize : ¬(SendAnswer.sent xs).result first.buffer_.contents.length < 0 :=
      not_lt.mpr (Int.natCast_nonneg _)
    -- a datagram goes out whole
    obtain ⟨buffer, hretrieve, hwf, hcontents, -⟩ :=
      hfirst.wf.retrieve_ok first.buffer_.contents.length
    have hzero : buffer.contents.length = 0 := by
      rw [hcontents, List.drop_length, List.length_nil]
    rw [if_neg hsize]
    show Outcome F _ (first.buffer_.retrieve first.buffer_.contents.length >>= _)
    rw [hretrieve, ok_bind, hwf.size_eq, ok_bind, if_pos hzero, hplain.1]
    obtain ⟨ch, hch, hinterest⟩ := h.interest
    unfold complete popFront record
    dsimp only
    rw [ok_bind, hqueue]
    refine ⟨_, rfl, rfl, h.poller, h.alive, h.socket, h.acceptor, h.reader, ⟨ch, hch, fun _ => ?_⟩, h.known, h.conns,
      ⟨rest, hrest, ?_⟩, hplain.2⟩
    · exact hinterest (by rw [hqueue]; exact List.cons_ne_nil _ _)
    · rw [List.append_assoc]
      exact hlog

theorem Serving.writLoop_ok (henv : F .environment) : ∀ (as : List (SendAnswer Unit)) {w : UdpWorld Unit},
    Serving w known log → (as.any fails = true → F .exception) →
    Outcome F (fun w' => as.any fails = false ∧ Serving w' known log) (w.writLoop as)
  | [], w, h, _ => by
    rw [writLoop]
    split
    · exact ⟨rfl, h⟩
    · exact henv
  | a :: as, w, h, hexc => by
    rw [List.any_cons, Bool.or_eq_true] at hexc
    rw [writLoop]
    split
    · exact henv
    · next first tasks hqueue =>
      refine (h.writPass_ok hqueue fun ha => hexc (.inl ha)).bind ?_
      rintro _ ⟨w₁, rfl, hgoes, h₁⟩
      rw [List.any_cons, hgoes, Bool.false_or]
      exact Serving.writLoop_ok henv as h₁ fun has => hexc (.inr has)

theorem Serving.handleWritEvent_ok (h : Serving w known log) (as : List (SendAnswer Unit)) (henv : F .environment)
    (hexc : as.any fails = true → F .exception) :
    Outcome F (fun w' => as.any fails = false ∧ Serving w' known log) (w.handleWritEvent as) := by
  obtain ⟨ch, hch, -⟩ := h.interest
  unfold handleWritEvent
  rw [if_neg (by rw [h.alive]; exact Bool.false_ne_true)]
  split
  · next hempty =>
    unfold enableWrit
    rw [hch]
    refine Serving.writLoop_ok henv as ⟨h.poller, h.alive, h.socket, h.acceptor, h.reader, ⟨_, rfl, ?_⟩, h.known,
      h.conns, h.tasks, h.plain⟩ hexc
    exact fun hne => absurd hempty hne
  · exact Serving.writLoop_ok henv as h hexc

/-! ## Runs -/

/-- The server after the datagrams `got`. -/
structure Served (got : List Received) (w : UdpWorld Unit) : Prop where
  full : ∀ g ∈ got, g.2 ≠ []
  serves : Serving w (got.map Prod.fst) (answers [] got)

/-- **An event.** -/
theorem Served.step_ok {got : List Received} (h : Served got w) (e : Event) (henv : F .environment)
    (hF : ∀ g ∈ e.received, g.2 = [] → F .assertFailed) (hexc : e.breaks = true → F .exception) :
    Outcome F (fun w' => e.breaks = false ∧ Served (got ++ e.received) w') (step w e) := by
  cases e with
  | read gs failed =>
    refine (h.serves.handleReadEvent_ok henv hexc gs hF).imp fun w' ⟨hgoes, hnes, hserves⟩ => ⟨hgoes, ?_, ?_⟩
    · exact List.forall_mem_append.mpr ⟨h.full, hnes⟩
    · rw [answers_append, List.nil_append, List.map_append]
      exact hserves
  | writ as =>
    refine (h.serves.handleWritEvent_ok as henv hexc).imp fun w' ⟨hgoes, hserves⟩ => ⟨hgoes, ?_⟩
    rw [show got ++ (Event.writ as).received = got from List.append_nil got]
    exact ⟨h.full, hserves⟩
  | erro =>
    show Outcome F _ w.handleErroEvent
    rw [h.serves.handleErroEvent_throws]
    exact hexc rfl

/-- **A run of the server.** -/
theorem Served.run_ok (henv : F .environment) : ∀ (es : List Event) {got : List Received} {w : UdpWorld Unit},
    Served got w → (∀ g ∈ receivedBy es, g.2 = [] → F .assertFailed) →
    (es.any Event.breaks = true → F .exception) →
    Outcome F (fun w' => es.any Event.breaks = false ∧ Served (got ++ receivedBy es) w') (run step w es)
  | [], got, w, h, _, _ => by
    rw [receivedBy, List.append_nil]
    exact ⟨rfl, h⟩
  | e :: es, got, w, h, hF, hexc => by
    rw [receivedBy, List.forall_mem_append] at hF
    rw [List.any_cons, Bool.or_eq_true] at hexc
    rw [run_cons]
    refine (h.step_ok e henv hF.1 fun he => hexc (.inl he)).bind fun w₁ ⟨hgoes, h₁⟩ => ?_
    rw [hgoes, if_neg Bool.false_ne_true] at hF
    rw [receivedBy, List.any_cons, hgoes, Bool.false_or, if_neg Bool.false_ne_true, ← List.append_assoc]
    exact Served.run_ok henv es h₁ hF.2 fun hes => hexc (.inr hes)

/--
**Every peer is greeted once, and gets back every datagram that it sends.** In a run of the server let `got` be
the datagrams that came before a call has failed. What should be sent for them is, for each peer, the greeting and
then what the peer has sent. Where the run returns no call has failed, be it `sendto` with `EAGAIN`, and what was
handed to `sendto` is the start of those answers; the rest of them is in `writTasks_`, each for a connection of its
peer that is in memory, and the write interest is on while there is a rest. A run ends by the assertion of `append`
only with an empty datagram, and in an exception only where a call has failed; a run with either never returns.
-/
theorem hello_answers (es : List Event) :
    let got := receivedBy es
    (∀ ep, payloadsTo ep (answers [] got) =
      (if payloadsOf ep got = [] then [] else [greeting]) ++ payloadsOf ep got) ∧
    (∀ w, run step started es = .ok w →
      (∀ g ∈ got, g.2 ≠ []) ∧ (∀ e ∈ es, e.breaks = false) ∧ w.socket.destroy_ = false ∧
      (∃ pending, List.Forall₂ (Says w.uconns) w.socket.writTasks_ pending ∧
        w.handed ++ pending = answers [] got) ∧
      ∃ ch, w.socket.chan_ = some ch ∧
        (w.socket.writTasks_ ≠ [] → ch.writable_ = true ∧ ch.polledOut = true)) ∧
    ∀ f, run step started es = .error f → f = .environment ∨ (f = .assertFailed ∧ ∃ g ∈ got, g.2 = []) ∨
      (f = .exception ∧ ∃ e ∈ es, e.breaks = true) := by
  intro got
  refine ⟨fun ep => ?_, ?_⟩
  · rw [payloadsTo_answers]
    simp only [List.not_mem_nil, false_or]
  · have hstarted : Served [] started := ⟨nofun, serving_started⟩
    have hrun : Outcome (fun f => f = .environment ∨ (f = .assertFailed ∧ ∃ g ∈ got, g.2 = []) ∨
        (f = .exception ∧ ∃ e ∈ es, e.breaks = true))
        (fun w => es.any Event.breaks = false ∧ Served ([] ++ got) w) (run step started es) :=
      hstarted.run_ok (.inl rfl) es (fun g hg hnil => .inr (.inl ⟨rfl, g, hg, hnil⟩))
        fun hbreaks => .inr (.inr ⟨rfl, List.any_eq_true.mp hbreaks⟩)
    refine ⟨fun w hw => ?_, fun f hf => ?_⟩
    · rw [hw] at hrun
      obtain ⟨hgoes, hfull, hserves⟩ := hrun
      exact ⟨hfull, by simpa using hgoes, hserves.alive, hserves.tasks, hserves.interest⟩
    · rw [hf] at hrun
      exact hrun

end Liby.UdpHello
