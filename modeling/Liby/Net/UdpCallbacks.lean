import Liby.Net.UdpSocket

/-!
# The callbacks of UdpSocket

`handleReadEvent` and `handleWritEvent` of `UdpSocket.cpp` from one callback to the next. What the
program does in a callback, and between two events, are steps of their own, so that nothing is said
of it but what it may call. It calls connections only while they are there, and keeps the `UdpSocket`.

A connection is in memory as long as a `shared_ptr` owns it: the one in `conns_`, a local one of the
socket, or one that the program got by `shared_from_this`.
-/

namespace Liby

open Infra

variable {H : Type}

/-- Where the thread of the socket is. -/
inductive UdpPoint where
  /-- In no handler of the socket. -/
  | idle
  /-- `handleReadEvent`, before `recvfrom`. -/
  | recvfrom
  /-- In `acceptorCallback_`; `uconn` is a `shared_ptr`. -/
  | accepting (uconn : Nat) (payload : Bytes)
  /-- In `readEventCallback_`, with that `shared_ptr`. -/
  | readNew (uconn : Nat)
  /-- In `readEventCallback_`; `uconn` is a reference. -/
  | readKnown (uconn : Nat)
  /-- `handleWritEvent`, before `sendto`. -/
  | sendto
  /-- In the completion handler of the first task. -/
  | completing
  /-- In `erroEventCallback_`. -/
  | erring
  deriving DecidableEq, Repr

namespace UdpPoint

/-- The program's own code runs. -/
def user : UdpPoint → Bool
  | .recvfrom | .sendto => false
  | .idle | .accepting _ _ | .readNew _ | .readKnown _ | .completing | .erring => true

/-- The connection that a local `shared_ptr` holds. -/
def holds : UdpPoint → Option Nat
  | .accepting p _ | .readNew p => some p
  | .idle | .recvfrom | .readKnown _ | .sendto | .completing | .erring => none

/-- `handleReadEvent` runs. -/
def reads : UdpPoint → Bool
  | .recvfrom | .accepting _ _ | .readNew _ | .readKnown _ => true
  | .idle | .sendto | .completing | .erring => false

end UdpPoint

/-- A buffer that is handed to `send` is one that its operations leave. -/
def UdpSend.Wf : UdpSend H → Prop
  | .buffer buf _ | .moved buf _ => buf.Wf
  | .base _ _ | .cString _ _ | .string _ _ => True

/-- What the program may do. The calls that only change the interest of the channel are left out. -/
inductive UdpAct (H : Type) where
  | send (uconn : Nat) (x : UdpSend H) (wf : x.Wf)
  /-- `UdpConnection::destroy`. -/
  | destroyConn (uconn : Nat)
  /-- Anything that is done to `read()`. -/
  | edit (uconn : Nat) (readBuf : Buffer) (wf : readBuf.Wf)
  /-- `shared_from_this`, and the end of such a pointer. -/
  | keep (uconn : Nat)
  | drop (uconn : Nat)
  /-- `handleConnectEvent`. -/
  | connect (ep : Endpoint)
  | onAccept (set : Bool)
  | onRead (set : Bool)
  | onConnect (set : Bool)
  | onErro (set : Bool)
  /-- `UdpSocket::destroy`. -/
  | destroy

/-- The answer to `recvfrom`: a datagram, `EAGAIN`, or another error. -/
inductive UdpReceived where
  | datagram (peer : Endpoint) (payload : Bytes)
  | again
  | failed
  deriving DecidableEq, Repr

/-- The answer to `sendto`: the whole datagram went out, `EAGAIN`, or another error. -/
inductive UdpSent where
  | sent
  | again
  | failed
  deriving DecidableEq, Repr

/-- What `sendto` returns for a datagram of `size` bytes. -/
def UdpSent.result (size : Nat) : UdpSent → Int
  | .sent => size
  | .again | .failed => -1

/-- The steps of the program, of the socket, and of the kernel and the poller. -/
inductive UdpStep (H : Type) where
  | act (a : UdpAct H)
  | readEvent
  | recvfrom (a : UdpReceived)
  | writEvent
  | sendto (a : UdpSent)
  | erroEvent
  /-- The callback that runs returns. -/
  | returned

/-- A socket with its surroundings, and the `shared_ptr`s of the program. -/
structure UdpRun (H : Type) where
  world : UdpWorld H
  point : UdpPoint
  kept : List Nat
  deriving DecidableEq, Repr

/-- The owners of a connection. -/
def UdpOwns (conns_ : KeyMap Endpoint Nat) (kept : List Nat) (held : Option Nat) (p : Nat) : Prop :=
  p ∈ conns_.map Prod.snd ∨ p ∈ kept ∨ held = some p

instance (conns_ : KeyMap Endpoint Nat) (kept : List Nat) (held : Option Nat) (p : Nat) :
    Decidable (UdpOwns conns_ kept held p) :=
  inferInstanceAs (Decidable (_ ∨ _ ∨ _))

namespace UdpRun

/-- A socket after `start`, with its callbacks set. -/
def started (poller_ : Chooser) : UdpRun H where
  world := .started poller_
  point := .idle
  kept := []

/-- A `shared_ptr` owns the connection. -/
def Owned (s : UdpRun H) (p : Nat) : Prop := UdpOwns s.world.socket.conns_ s.kept s.point.holds p

instance (s : UdpRun H) (p : Nat) : Decidable (s.Owned p) :=
  inferInstanceAs (Decidable (UdpOwns _ _ _ _))

/-- The memory of the connections goes with their last owner. -/
def settle (s : UdpRun H) : UdpRun H :=
  { s with world := { s.world with
    uconns := s.world.uconns.mapIdx fun p o => { o with freed := !decide (s.Owned p) } } }

/-- A change of the socket alone. -/
def setSocket (s : UdpRun H) (socket : UdpSocket H) : UdpRun H :=
  { s with world := { s.world with socket := socket } }

/-- A step of the program. -/
def act (s : UdpRun H) : UdpAct H → Exec (UdpRun H)
  | .send p x _ => do
    guardOr .environment (s.Owned p)
    let w ← s.world.sendOn p x
    return { s with world := w }
  | .destroyConn p => do
    guardOr .environment (s.Owned p)
    let o ← s.world.access p
    return { s with world := s.world.destroyConn none o.uconn.peer_ }
  | .edit p readBuf _ => do
    guardOr .environment (s.Owned p)
    let o ← s.world.access p
    return { s with world := s.world.store p { o with uconn := { o.uconn with readBuf_ := readBuf } } }
  | .keep p => do
    guardOr .environment (s.Owned p)
    return { s with kept := p :: s.kept }
  | .drop p => do
    guardOr .environment (p ∈ s.kept)
    return { s with kept := s.kept.erase p }
  | .connect ep =>
    match s.world.socket.conns_.find Endpoint.lt ep with
    | some _ => .ok s
    | none =>
      -- the local `shared_ptr` is the program's until the callback returns
      .ok { s with
        world := s.world.handleConnectEvent ep
        kept := if s.world.socket.connectorCallback_ then s.world.uconns.length :: s.kept else s.kept }
  | .onAccept set => .ok (s.setSocket { s.world.socket with acceptorCallback_ := set })
  | .onRead set => .ok (s.setSocket { s.world.socket with readEventCallback_ := set })
  | .onConnect set => .ok (s.setSocket { s.world.socket with connectorCallback_ := set })
  | .onErro set => .ok (s.setSocket { s.world.socket with erroEventCallback_ := set })
  | .destroy => do
    let w ← s.world.destroy
    return { s with world := w }

/-- `handleErroEvent` after its callback. The loops end with it. -/
def endErroEvent (s : UdpRun H) : Exec (UdpRun H) := do
  let w ← s.world.destroy
  return { s with world := w, point := .idle }

/-- `handleErroEvent`, up to its callback, and as a whole if there is none. -/
def handleErroEvent (s : UdpRun H) : Exec (UdpRun H) :=
  if s.world.socket.erroEventCallback_ then
    .ok { s with world := s.world.callback true .erro, point := .erring }
  else s.endErroEvent

/-- `getReadBuf().append(buffer, n)`, up to the read callback, which is `callback`. -/
def deliver (s : UdpRun H) (p : Nat) (payload : Bytes) (callback : UdpPoint) : Exec (UdpRun H) := do
  let o ← s.world.access p
  let readBuf ← o.uconn.readBuf_.append payload
  let w := s.world.store p { o with uconn := { o.uconn with readBuf_ := readBuf } }
  if w.socket.readEventCallback_ then
    return { s with world := w.callback true (.read o.uconn.peer_ payload), point := callback }
  else return { s with world := w, point := .recvfrom }

/-- A pass of the loop of `handleReadEvent`, up to its first callback. -/
def recvfrom (s : UdpRun H) (a : UdpReceived) : Exec (UdpRun H) := do
  guardOr .nullDeref s.world.socket.socket_
  match a with
  | .again => return { s with point := .idle }
  | .failed => s.handleErroEvent
  | .datagram peer payload => do
    guardOr .environment (payload.length ≤ 4096)
    match s.world.socket.conns_.find Endpoint.lt peer with
    | some p => s.deliver p payload (.readKnown p)
    | none =>
      let p := s.world.uconns.length
      let w := s.world.makeConn peer
      if w.socket.acceptorCallback_ then
        return { s with world := w.callback true (.accept peer), point := .accepting p payload }
      else deliver { s with world := w } p payload (.readNew p)

/-- `while (!writTasks_.empty())`. -/
def whileTasks (s : UdpRun H) : UdpRun H :=
  { s with point := if s.world.socket.writTasks_ = [] then .idle else .sendto }

/-- `writTasks_.pop_front()`, the end of a pass of `handleWritEvent`. -/
def popFront (s : UdpRun H) : Exec (UdpRun H) := do
  let w ← s.world.popFront
  return whileTasks { s with world := w }

/-- A pass of the loop of `handleWritEvent`, up to the completion handler. -/
def sendto (s : UdpRun H) (a : UdpSent) : Exec (UdpRun H) :=
  match s.world.socket.writTasks_ with
  | [] => .error .environment
  | first :: tasks => do
    let base ← first.buffer_.data
    let size ← first.buffer_.size
    let dest ← s.world.access first.dest_
    guardOr .nullDeref s.world.socket.socket_
    let n := a.result size
    if n < 0 then
      -- the test is on the result, and not on `errno`
      if n ≠ EAGAIN then s.handleErroEvent else .ok { s with point := .idle }
    else do
      let buffer ← first.buffer_.retrieve n
      let rest ← buffer.size
      let m : UdpMessage H :=
        { dest := dest.uconn.peer_, payload := base, handler := first.handler_ }
      let w : UdpWorld H := { s.world with
        handed := s.world.handed ++ [m]
        socket := { s.world.socket with writTasks_ := { first with buffer_ := buffer } :: tasks } }
      if rest = 0 then
        match first.handler_ with
        | some handler =>
          return { s with world := { w with ran := w.ran ++ [handler] }, point := .completing }
        | none => popFront { s with world := w }
      else return whileTasks { s with world := w }

/-- `handleWritEvent`, up to its loop. The `DeferCaller` has no name, so that it runs first. -/
def handleWritEvent (s : UdpRun H) : Exec (UdpRun H) := do
  let w ← (if s.world.socket.destroy_ then .ok s.world
    else if s.world.socket.writTasks_ = [] then s.world.enableWrit false
    else .ok s.world)
  return whileTasks { s with world := w }

/-- What comes after a callback. -/
def returned (s : UdpRun H) : Exec (UdpRun H) :=
  match s.point with
  | .accepting p payload => s.deliver p payload (.readNew p)
  | .readNew _ | .readKnown _ => .ok { s with point := .recvfrom }
  | .completing => s.popFront
  | .erring => s.endErroEvent
  | .idle | .recvfrom | .sendto => .error .environment

/-- A step, before the memory of the connections follows. -/
def move (s : UdpRun H) : UdpStep H → Exec (UdpRun H)
  | .act a => do
    guardOr .environment s.point.user
    s.act a
  | .readEvent => do
    guardOr .environment (s.point = .idle ∧ s.world.socket.chan_.isSome)
    return { s with point := .recvfrom }
  | .recvfrom a => do
    guardOr .environment (s.point = .recvfrom)
    s.recvfrom a
  | .writEvent => do
    guardOr .environment (s.point = .idle ∧ s.world.socket.chan_.isSome)
    s.handleWritEvent
  | .sendto a => do
    guardOr .environment (s.point = .sendto)
    s.sendto a
  | .erroEvent => do
    guardOr .environment (s.point = .idle ∧ s.world.socket.chan_.isSome)
    s.handleErroEvent
  | .returned => s.returned

/-- One step. -/
def step (s : UdpRun H) (e : UdpStep H) : Exec (UdpRun H) := do
  let t ← s.move e
  return t.settle

/-! ## What a step can change -/

/-- An object after a change of its buffer. -/
structure SamePeer (o o' : UdpObject) : Prop where
  peer : o'.uconn.peer_ = o.uconn.peer_
  wf : o.uconn.readBuf_.Wf → o'.uconn.readBuf_.Wf

/-- A change of the world that leaves the owners, the tasks and their log, and the socket as they are. -/
structure Frame (w w' : UdpWorld H) : Prop where
  conns : w'.socket.conns_ = w.socket.conns_
  tasks : w'.socket.writTasks_ = w.socket.writTasks_
  queued : w'.queued = w.queued
  handed : w'.handed = w.handed
  destroy : w'.socket.destroy_ = w.socket.destroy_
  socket : w'.socket.socket_ = w.socket.socket_
  chan : w'.socket.chan_.isSome = w.socket.chan_.isSome
  length : w'.uconns.length = w.uconns.length
  objects : ∀ (p : Nat) (o' : UdpObject), w'.uconns[p]? = some o' →
    ∃ o, w.uconns[p]? = some o ∧ SamePeer o o'

theorem SamePeer.refl (o : UdpObject) : SamePeer o o := ⟨rfl, id⟩

theorem SamePeer.trans {o o' o'' : UdpObject} (h : SamePeer o o') (h' : SamePeer o' o'') :
    SamePeer o o'' :=
  ⟨h'.peer.trans h.peer, h'.wf ∘ h.wf⟩

variable {w w' w'' : UdpWorld H} {s t : UdpRun H}

namespace Frame

theorem refl (w : UdpWorld H) : Frame w w :=
  ⟨rfl, rfl, rfl, rfl, rfl, rfl, rfl, rfl, fun _ o' ho' => ⟨o', ho', .refl o'⟩⟩

theorem trans (h : Frame w w') (h' : Frame w' w'') : Frame w w'' where
  conns := h'.conns.trans h.conns
  tasks := h'.tasks.trans h.tasks
  queued := h'.queued.trans h.queued
  handed := h'.handed.trans h.handed
  destroy := h'.destroy.trans h.destroy
  socket := h'.socket.trans h.socket
  chan := h'.chan.trans h.chan
  length := h'.length.trans h.length
  objects p o'' ho'' := by
    obtain ⟨o', ho', hsame'⟩ := h'.objects p o'' ho''
    obtain ⟨o, ho, hsame⟩ := h.objects p o' ho'
    exact ⟨o, ho, hsame.trans hsame'⟩

/-- An object that was there is there. -/
theorem object (h : Frame w w') {p : Nat} {o : UdpObject} (ho : w.uconns[p]? = some o) :
    ∃ o', w'.uconns[p]? = some o' ∧ SamePeer o o' := by
  have hp : p < w'.uconns.length := h.length ▸ (List.getElem?_eq_some_iff.mp ho).1
  obtain ⟨o₀, ho₀, hsame⟩ := h.objects p _ (List.getElem?_eq_getElem hp)
  cases ho.symm.trans ho₀
  exact ⟨_, List.getElem?_eq_getElem hp, hsame⟩

theorem callback (w : UdpWorld H) (set : Bool) (x : UdpCall) : Frame w (w.callback set x) := by
  unfold UdpWorld.callback
  split <;> exact ⟨rfl, rfl, rfl, rfl, rfl, rfl, rfl, rfl, (refl w).objects⟩

theorem store {p : Nat} {o o' : UdpObject} (ho : w.uconns[p]? = some o) (hsame : SamePeer o o') :
    Frame w (w.store p o') := by
  refine ⟨rfl, rfl, rfl, rfl, rfl, rfl, rfl, List.length_set, fun q o'' ho'' => ?_⟩
  have ho'' : (w.uconns.set p o')[q]? = some o'' := ho''
  by_cases hq : p = q
  · subst hq
    rw [List.getElem?_set_self (List.getElem?_eq_some_iff.mp ho).1] at ho''
    cases ho''
    exact ⟨o, ho, hsame⟩
  · rw [List.getElem?_set_ne hq] at ho''
    exact ⟨o'', ho'', .refl o''⟩

theorem enableWrit {flag : Bool} (h : w.enableWrit flag = .ok w') : Frame w w' := by
  unfold UdpWorld.enableWrit at h
  split at h
  · cases h
  · next ch hch =>
    cases h
    exact ⟨rfl, rfl, rfl, rfl, rfl, rfl, by rw [hch]; rfl, rfl, (refl w).objects⟩

/-- What `settle` marks says nothing of the objects themselves. -/
theorem settle (s : UdpRun H) : Frame s.world s.settle.world := by
  refine ⟨rfl, rfl, rfl, rfl, rfl, rfl, rfl, List.length_mapIdx, fun p o' ho' => ?_⟩
  have ho' : (s.world.uconns.mapIdx _)[p]? = some o' := ho'
  rw [List.getElem?_mapIdx, Option.map_eq_some_iff] at ho'
  obtain ⟨o, ho, rfl⟩ := ho'
  exact ⟨o, ho, rfl, id⟩

end Frame

/-- The connection whose last owner a step gives up. `UdpSocket::destroy` is not one of these. -/
def freedBy (s : UdpRun H) : UdpStep H → Option Nat
  | .act (.destroyConn p) => do
    let o ← s.world.uconns[p]?
    let q ← s.world.socket.conns_.find Endpoint.lt o.uconn.peer_
    let rest := s.world.socket.conns_.erase Endpoint.lt o.uconn.peer_
    if UdpOwns rest s.kept s.point.holds q then none else some q
  | .act (.drop p) =>
    if UdpOwns s.world.socket.conns_ (s.kept.erase p) s.point.holds p then none else some p
  | .returned =>
    match s.point with
    | .readNew p => if UdpOwns s.world.socket.conns_ s.kept none p then none else some p
    | .accepting p _ =>
      if s.world.socket.readEventCallback_ = true ∨ UdpOwns s.world.socket.conns_ s.kept none p then none
      else some p
    | _ => none
  | _ => none

/-- The datagram of a task. -/
def message (first : UdpTask H) (dest : UdpObject) (base : Bytes) : UdpMessage H :=
  { dest := dest.uconn.peer_, payload := base, handler := first.handler_ }

/-- A task at the front was handed over. -/
def handedOver (s : UdpRun H) (m : UdpMessage H) (tasks : List (UdpTask H)) (ran : List H)
    (point : UdpPoint) : UdpRun H :=
  { s with
    world := { s.world with
      handed := s.world.handed ++ [m]
      ran := s.world.ran ++ ran
      socket := { s.world.socket with writTasks_ := tasks } }
    point := point }

/-- What a step does, before the memory of the connections follows. -/
inductive Moves (s : UdpRun H) : UdpStep H → UdpRun H → Prop where
  /-- It leaves the owners, the tasks and the socket as they are. -/
  | frame {e : UdpStep H} {t : UdpRun H} (freed : s.freedBy e = none) (world : Frame s.world t.world)
      (kept : t.kept = s.kept) (holds : t.point.holds = s.point.holds)
      (completing : t.point = .completing ↔ s.point = .completing) : Moves s e t
  | send {p : Nat} {x : UdpSend H} {wf : x.Wf} {o : UdpObject} {buf : Buffer} {w : UdpWorld H}
      (owned : s.Owned p) (object : s.world.uconns[p]? = some o) (buf_ : x.buf = .ok buf)
      (sent : s.world.send o { dest_ := p, buffer_ := buf, handler_ := x.handler } = .ok w) :
      Moves s (.act (.send p x wf)) { s with world := w }
  | destroyConn {p : Nat} {o : UdpObject} (owned : s.Owned p) (object : s.world.uconns[p]? = some o) :
      Moves s (.act (.destroyConn p)) { s with world := s.world.destroyConn none o.uconn.peer_ }
  | keep {p : Nat} (owned : s.Owned p) : Moves s (.act (.keep p)) { s with kept := p :: s.kept }
  | drop {p : Nat} (mem : p ∈ s.kept) : Moves s (.act (.drop p)) { s with kept := s.kept.erase p }
  | connect {ep : Endpoint} {t : UdpRun H} (new : s.world.socket.conns_.find Endpoint.lt ep = none)
      (world : Frame (s.world.makeConn ep) t.world)
      (kept : ∀ q ∈ t.kept, q = s.world.uconns.length ∨ q ∈ s.kept) (kept_ : s.kept ⊆ t.kept)
      (point : t.point = s.point) : Moves s (.act (.connect ep)) t
  /-- `UdpSocket::destroy`, by the program or by `handleErroEvent`. -/
  | destroy {e : UdpStep H} {t : UdpRun H} (freed : s.freedBy e = none)
      (live : s.world.socket.destroy_ = false) (world : t.world = s.world.destroyed)
      (kept : t.kept = s.kept) (holds : t.point.holds = s.point.holds)
      (point : e = .act .destroy ∧ t.point = s.point ∨ t.point = .idle) : Moves s e t
  /-- A datagram of a new peer. -/
  | accept {peer : Endpoint} {payload : Bytes} {t : UdpRun H} (point : s.point = .recvfrom)
      (new : s.world.socket.conns_.find Endpoint.lt peer = none)
      (world : Frame (s.world.makeConn peer) t.world) (kept : t.kept = s.kept)
      (holds : ∀ q, t.point.holds = some q → q = s.world.uconns.length)
      (completing : t.point ≠ .completing) : Moves s (.recvfrom (.datagram peer payload)) t
  /-- The end of the branch of a new peer. -/
  | release {p : Nat} {t : UdpRun H} (held : s.point.holds = some p)
      (freed : s.freedBy .returned =
        if UdpOwns s.world.socket.conns_ s.kept none p then none else some p)
      (world : Frame s.world t.world) (kept : t.kept = s.kept) (point : t.point = .recvfrom) :
      Moves s .returned t
  /-- A datagram goes out, and its completion handler is called. -/
  | complete {first : UdpTask H} {tasks : List (UdpTask H)} {o : UdpObject} {base : Bytes}
      {buffer : Buffer} {handler : H} (point : s.point = .sendto)
      (queue : s.world.socket.writTasks_ = first :: tasks)
      (object : s.world.uconns[first.dest_]? = some o) (base_ : first.buffer_.data = .ok base)
      (wf : buffer.Wf) (handler_ : first.handler_ = some handler) : Moves s (.sendto .sent)
        (s.handedOver (message first o base) ({ first with buffer_ := buffer } :: tasks) [handler]
          .completing)
  /-- A datagram goes out that has no handler. -/
  | handOver {first : UdpTask H} {tasks : List (UdpTask H)} {o : UdpObject} {base : Bytes}
      (point : s.point = .sendto) (queue : s.world.socket.writTasks_ = first :: tasks)
      (object : s.world.uconns[first.dest_]? = some o) (base_ : first.buffer_.data = .ok base)
      (handler_ : first.handler_ = none) : Moves s (.sendto .sent)
        (whileTasks (s.handedOver (message first o base) tasks [] .sendto))
  /-- A completion handler has returned. -/
  | pop {first : UdpTask H} {tasks : List (UdpTask H)} (point : s.point = .completing)
      (queue : s.world.socket.writTasks_ = first :: tasks) : Moves s .returned
        (whileTasks (s.setSocket { s.world.socket with writTasks_ := tasks }))

/-- `append` leaves a buffer that is as good as before. -/
theorem append_wf {b b' : Buffer} {buf : Bytes} (h : b.append buf = .ok b') (hwf : b.Wf) : b'.Wf := by
  have hbuf : buf ≠ [] := by
    rintro rfl
    cases h
  obtain ⟨b'', hb'', hwf'', -⟩ := hwf.append_ok hbuf
  cases h.symm.trans hb''
  exact hwf''

/-- What `deliver` does: the buffer changes, and the callback is called if it is set. -/
theorem deliver_ok {p : Nat} {payload : Bytes} {callback : UdpPoint}
    (h : s.deliver p payload callback = .ok t) : Frame s.world t.world ∧ t.kept = s.kept ∧
      t.point = if s.world.socket.readEventCallback_ then callback else .recvfrom := by
  obtain ⟨o, ho, h⟩ := bind_eq_ok.mp h
  obtain ⟨readBuf, hbuf, h⟩ := bind_eq_ok.mp h
  have hsame : SamePeer o { o with uconn := { o.uconn with readBuf_ := readBuf } } :=
    ⟨rfl, append_wf hbuf⟩
  have hstore := Frame.store (UdpWorld.access_eq_ok.mp ho).1 hsame
  dsimp only at h
  split at h
  · next hset =>
    cases h
    exact ⟨hstore.trans (.callback _ true (.read o.uconn.peer_ payload)), rfl, (if_pos hset).symm⟩
  · next hunset =>
    cases h
    exact ⟨hstore, rfl, (if_neg hunset).symm⟩

/-- `deliver` works for any buffer, and for any datagram but an empty one. -/
theorem deliver_cases {p : Nat} {o : UdpObject} (ho : s.world.access p = .ok o)
    (hwf : o.uconn.readBuf_.Wf) (payload : Bytes) (callback : UdpPoint) :
    (payload = [] ∧ s.deliver p payload callback = .error .assertFailed) ∨
      (payload ≠ [] ∧ ∃ t, s.deliver p payload callback = .ok t ∧
        t.world.socket.socket_ = s.world.socket.socket_ ∧
        (t.point = .recvfrom ∨ t.point = callback ∧ t.world.calls ≠ s.world.calls)) := by
  unfold deliver
  rw [ho, ok_bind]
  by_cases hpayload : payload = []
  · rw [hpayload]
    exact .inl ⟨rfl, rfl⟩
  · obtain ⟨readBuf, hbuf, -⟩ := hwf.append_ok hpayload
    rw [hbuf, ok_bind]
    refine .inr ⟨hpayload, ?_⟩
    dsimp only
    split
    · refine ⟨_, rfl, rfl, .inr ⟨rfl, ?_⟩⟩
      show s.world.calls ++ [_] ≠ s.world.calls
      simp
    · exact ⟨_, rfl, rfl, .inl rfl⟩

/-- A step that changes the point and the world only. -/
theorem Moves.of_frame {e : UdpStep H} {w : UdpWorld H} {point : UdpPoint} (hfreed : s.freedBy e = none)
    (hworld : Frame s.world w) (hheld : s.point.holds = none) (hholds : point.holds = none)
    (hs : s.point ≠ .completing) (hpoint : point ≠ .completing) :
    Moves s e { s with world := w, point := point } :=
  .frame hfreed hworld rfl (hholds.trans hheld.symm)
    ⟨fun h => absurd h hpoint, fun h => absurd h hs⟩

theorem Moves.endErroEvent {e : UdpStep H} (hfreed : s.freedBy e = none) (hheld : s.point.holds = none)
    (hpoint : s.point ≠ .completing) (h : s.endErroEvent = .ok t) : Moves s e t := by
  obtain ⟨w, hw, h⟩ := bind_eq_ok.mp h
  cases h
  rcases UdpWorld.destroy_cases hw with ⟨-, rfl⟩ | ⟨hlive, rfl⟩
  · exact .of_frame hfreed (.refl _) hheld rfl hpoint nofun
  · exact .destroy hfreed hlive rfl rfl hheld.symm (.inr rfl)

theorem Moves.handleErroEvent {e : UdpStep H} (hfreed : s.freedBy e = none) (hheld : s.point.holds = none)
    (hpoint : s.point ≠ .completing) (h : s.handleErroEvent = .ok t) : Moves s e t := by
  unfold UdpRun.handleErroEvent at h
  split at h
  · cases h
    exact .of_frame hfreed (.callback _ _ _) hheld rfl hpoint nofun
  · exact .endErroEvent hfreed hheld hpoint h

theorem act_cases {a : UdpAct H} (h : s.act a = .ok t) : Moves s (.act a) t := by
  have hset : ∀ {socket : UdpSocket H} {a : UdpAct H}, s.freedBy (.act a) = none →
      Frame s.world (s.setSocket socket).world → Moves s (.act a) (s.setSocket socket) :=
    fun hfreed hframe => .frame hfreed hframe rfl rfl Iff.rfl
  have hsame := (Frame.refl s.world).objects
  cases a with
  | send p x wf =>
    obtain ⟨_, howned, h⟩ := bind_eq_ok.mp h
    obtain ⟨w, hsend, h⟩ := bind_eq_ok.mp h
    obtain ⟨o, ho, hsend⟩ := bind_eq_ok.mp hsend
    obtain ⟨buf, hbuf, hsend⟩ := bind_eq_ok.mp hsend
    cases h
    exact .send (guardOr_eq_ok.mp howned) (UdpWorld.access_eq_ok.mp ho).1 hbuf hsend
  | destroyConn p =>
    obtain ⟨_, howned, h⟩ := bind_eq_ok.mp h
    obtain ⟨o, ho, h⟩ := bind_eq_ok.mp h
    cases h
    exact .destroyConn (guardOr_eq_ok.mp howned) (UdpWorld.access_eq_ok.mp ho).1
  | edit p readBuf wf =>
    obtain ⟨-, -, h⟩ := bind_eq_ok.mp h
    obtain ⟨o, ho, h⟩ := bind_eq_ok.mp h
    cases h
    exact .frame rfl (.store (UdpWorld.access_eq_ok.mp ho).1 ⟨rfl, fun _ => wf⟩) rfl rfl Iff.rfl
  | keep p =>
    obtain ⟨_, howned, h⟩ := bind_eq_ok.mp h
    cases h
    exact .keep (guardOr_eq_ok.mp howned)
  | drop p =>
    obtain ⟨_, hmem, h⟩ := bind_eq_ok.mp h
    cases h
    exact .drop (guardOr_eq_ok.mp hmem)
  | connect ep =>
    unfold act at h
    dsimp only at h
    split at h
    · cases h
      exact .frame rfl (.refl _) rfl rfl Iff.rfl
    · next hnew =>
      cases h
      refine .connect hnew ?_ (fun q hq => ?_) (fun q hq => ?_) rfl
      · show Frame (s.world.makeConn ep) (s.world.handleConnectEvent ep)
        unfold UdpWorld.handleConnectEvent
        rw [hnew]
        exact .callback _ _ _
      · dsimp only at hq
        split at hq
        · exact List.mem_cons.mp hq
        · exact .inr hq
      · show q ∈ if _ then _ else _
        split
        · exact List.mem_cons_of_mem _ hq
        · exact hq
  | onAccept set | onRead set | onConnect set | onErro set =>
    cases h
    exact hset rfl ⟨rfl, rfl, rfl, rfl, rfl, rfl, rfl, rfl, hsame⟩
  | destroy =>
    obtain ⟨w, hw, h⟩ := bind_eq_ok.mp h
    cases h
    rcases UdpWorld.destroy_cases hw with ⟨-, rfl⟩ | ⟨hlive, rfl⟩
    · exact .frame rfl (.refl _) rfl rfl Iff.rfl
    · exact .destroy rfl hlive rfl rfl rfl (.inl ⟨rfl, rfl⟩)

theorem recvfrom_cases {a : UdpReceived} (hpoint : s.point = .recvfrom) (h : s.recvfrom a = .ok t) :
    Moves s (.recvfrom a) t := by
  have hheld : s.point.holds = none := by rw [hpoint]; rfl
  have hcompleting : s.point ≠ .completing := by rw [hpoint]; nofun
  obtain ⟨-, -, h⟩ := bind_eq_ok.mp h
  cases a with
  | again =>
    cases h
    exact .of_frame (w := s.world) rfl (.refl _) hheld rfl hcompleting nofun
  | failed => exact .handleErroEvent rfl hheld hcompleting h
  | datagram peer payload =>
    obtain ⟨-, -, h⟩ := bind_eq_ok.mp h
    split at h
    · next p hp =>
      obtain ⟨hworld, hkept, ht⟩ := deliver_ok h
      refine .frame rfl hworld hkept ?_ ?_
      · rw [ht, hheld]
        split <;> rfl
      · rw [ht, hpoint]
        split <;> exact ⟨nofun, nofun⟩
    · next hnew =>
      dsimp only at h
      split at h
      · cases h
        refine .accept hpoint hnew (.callback _ true (.accept peer)) rfl (fun q hq => ?_) nofun
        exact (Option.some.inj hq).symm
      · obtain ⟨hworld, hkept, ht⟩ := deliver_ok h
        refine .accept hpoint hnew hworld hkept (fun q hq => ?_) ?_
        · rw [ht] at hq
          split at hq
          · exact (Option.some.inj hq).symm
          · cases hq
        · rw [ht]
          split <;> nofun

theorem popFront_cases (hpoint : s.point = .completing) (h : s.popFront = .ok t) :
    Moves s .returned t := by
  obtain ⟨w, hw, h⟩ := bind_eq_ok.mp h
  unfold UdpWorld.popFront at hw
  split at hw
  · cases hw
  · next first tasks hqueue =>
    cases hw
    cases h
    exact .pop hpoint hqueue

theorem returned_cases (h : s.returned = .ok t) : Moves s .returned t := by
  unfold returned at h
  split at h
  · next p payload hpoint =>
    obtain ⟨hworld, hkept, ht⟩ := deliver_ok h
    have hfreed : s.freedBy .returned = if s.world.socket.readEventCallback_ = true ∨
        UdpOwns s.world.socket.conns_ s.kept none p then none else some p := by
      unfold freedBy
      rw [hpoint]
    by_cases hread : s.world.socket.readEventCallback_ = true
    · rw [if_pos hread] at ht
      rw [if_pos (.inl hread)] at hfreed
      refine .frame hfreed hworld hkept ?_ ?_ <;> rw [ht, hpoint]
      · rfl
      · exact ⟨nofun, nofun⟩
    · rw [if_neg hread] at ht
      refine .release (p := p) (by rw [hpoint]; rfl) (hfreed.trans ?_) hworld hkept ht
      simp only [hread, Bool.false_eq_true, false_or]
  · next p hpoint =>
    cases h
    refine .release (p := p) (by rw [hpoint]; rfl) ?_ (.refl _) rfl rfl
    unfold freedBy
    rw [hpoint]
  · next p hpoint =>
    cases h
    refine .of_frame (w := s.world) ?_ (.refl _) (by rw [hpoint]; rfl) rfl (by rw [hpoint]; nofun) nofun
    unfold freedBy
    rw [hpoint]
  · next hpoint => exact popFront_cases hpoint h
  · next hpoint =>
    have hfreed : s.freedBy .returned = none := by
      unfold freedBy
      rw [hpoint]
    exact .endErroEvent hfreed (by rw [hpoint]; rfl) (by rw [hpoint]; nofun) h
  all_goals cases h

theorem sendto_cases {a : UdpSent} (hpoint : s.point = .sendto)
    (hwf : ∀ task ∈ s.world.socket.writTasks_, task.buffer_.Wf) (h : s.sendto a = .ok t) :
    Moves s (.sendto a) t := by
  have hheld : s.point.holds = none := by rw [hpoint]; rfl
  have hcompleting : s.point ≠ .completing := by rw [hpoint]; nofun
  unfold sendto at h
  split at h
  · cases h
  · next first tasks hqueue =>
    have hfirst := hwf first (by rw [hqueue]; exact List.mem_cons_self)
    obtain ⟨base, hbase, h⟩ := bind_eq_ok.mp h
    obtain ⟨size, hsize, h⟩ := bind_eq_ok.mp h
    obtain ⟨o, ho, h⟩ := bind_eq_ok.mp h
    obtain ⟨-, -, h⟩ := bind_eq_ok.mp h
    cases hfirst.size_eq.symm.trans hsize
    cases a with
    | again | failed =>
      dsimp only [UdpSent.result] at h
      rw [if_pos neg_one_lt_zero, if_pos (by decide)] at h
      exact .handleErroEvent rfl hheld hcompleting h
    | sent =>
      -- a datagram goes out whole
      obtain ⟨buffer, hretrieve, hbuffer, hcontents, -⟩ := hfirst.retrieve_ok first.buffer_.contents.length
      have hzero : buffer.contents.length = 0 := by
        rw [hcontents, List.drop_length, List.length_nil]
      dsimp only [UdpSent.result] at h
      rw [if_neg (not_lt.mpr (Int.natCast_nonneg _)), hretrieve, ok_bind, hbuffer.size_eq, ok_bind,
        if_pos hzero] at h
      split at h
      · next handler hhandler =>
        cases h
        exact .complete hpoint hqueue (UdpWorld.access_eq_ok.mp ho).1 hbase hbuffer hhandler
      · next hnone =>
        cases h
        have hmoves := Moves.handOver hpoint hqueue (UdpWorld.access_eq_ok.mp ho).1 hbase hnone
        unfold handedOver at hmoves
        rw [List.append_nil] at hmoves
        exact hmoves

/-- **What each step of a run can do.** -/
theorem move_cases {e : UdpStep H} (hwf : ∀ task ∈ s.world.socket.writTasks_, task.buffer_.Wf)
    (h : s.move e = .ok t) : Moves s e t := by
  cases e with
  | act a =>
    obtain ⟨-, -, h⟩ := bind_eq_ok.mp h
    exact act_cases h
  | readEvent =>
    obtain ⟨_, hidle, h⟩ := bind_eq_ok.mp h
    have hpoint := (guardOr_eq_ok.mp hidle).1
    cases h
    exact .of_frame (w := s.world) rfl (.refl _) (by rw [hpoint]; rfl) rfl (by rw [hpoint]; nofun) nofun
  | recvfrom a =>
    obtain ⟨_, hpoint, h⟩ := bind_eq_ok.mp h
    exact recvfrom_cases (guardOr_eq_ok.mp hpoint) h
  | writEvent =>
    obtain ⟨_, hidle, h⟩ := bind_eq_ok.mp h
    have hpoint := (guardOr_eq_ok.mp hidle).1
    obtain ⟨w, hw, h⟩ := bind_eq_ok.mp h
    have hworld : Frame s.world w := by
      split at hw
      · cases hw
        exact .refl _
      · split at hw
        · exact .enableWrit hw
        · cases hw
          exact .refl _
    cases h
    unfold whileTasks
    refine .of_frame rfl hworld (by rw [hpoint]; rfl) ?_ (by rw [hpoint]; nofun) ?_
    all_goals dsimp only; split
    exacts [rfl, rfl, nofun, nofun]
  | sendto a =>
    obtain ⟨_, hpoint, h⟩ := bind_eq_ok.mp h
    exact sendto_cases (guardOr_eq_ok.mp hpoint) hwf h
  | erroEvent =>
    obtain ⟨_, hidle, h⟩ := bind_eq_ok.mp h
    have hpoint := (guardOr_eq_ok.mp hidle).1
    exact .handleErroEvent rfl (by rw [hpoint]; rfl) (by rw [hpoint]; nofun) h
  | returned => exact returned_cases h

end UdpRun

end Liby
