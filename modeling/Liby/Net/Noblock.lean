import Liby.Infra.Machine

/-!
# Blocking sockets on a loop

`FileDescriptor::set_noblock`, and who calls it. A socket of a `TcpClient` has come through
`Socket::connect`; one of a `TcpServer` comes from `::accept`, whose descriptors have no flags of the
listening one, and is given to a poller as it is. `sync_read` and `sync_send` make a socket blocking, and
their `DeferCaller` makes it non-blocking whatever it was before.
-/

namespace Liby

open Infra

/-! ## The status flags -/

/-- `O_RDWR`, the flags of a new socket. -/
def O_RDWR : BitVec 32 := 2

/-- `O_NONBLOCK`. -/
def O_NONBLOCK : BitVec 32 := 2048

/-- `set_noblock`, on what `F_GETFL` gives. -/
def setNoblock (opt : BitVec 32) (flag : Bool) : BitVec 32 :=
  if flag then opt ||| O_NONBLOCK else opt &&& ~~~O_NONBLOCK

/-- Calls on a descriptor with these flags return `EAGAIN` rather than wait. -/
def isNoblock (opt : BitVec 32) : Bool := opt &&& O_NONBLOCK != 0

/-- `set_noblock` sets the mode that it is given. -/
@[simp] theorem isNoblock_setNoblock (opt : BitVec 32) (flag : Bool) :
    isNoblock (setNoblock opt flag) = flag := by
  unfold isNoblock setNoblock
  cases flag with
  | true =>
    have hset : (opt ||| O_NONBLOCK) &&& O_NONBLOCK = O_NONBLOCK := by
      ext i
      simp only [BitVec.getElem_and, BitVec.getElem_or]
      cases O_NONBLOCK[i] <;> simp
    rw [if_pos rfl, hset]
    decide
  | false =>
    have hclear : opt &&& ~~~O_NONBLOCK &&& O_NONBLOCK = 0 := by
      ext i
      simp only [BitVec.getElem_and, BitVec.getElem_not]
      cases O_NONBLOCK[i] <;> simp
    rw [if_neg Bool.false_ne_true, hclear]
    rfl

/-! ## Sockets -/

/-- A socket of a `TcpServer` or of a `TcpClient`, and what has come of it. -/
structure NetSocket where
  flags : BitVec 32
  /-- It is from `Socket::accept`. -/
  accepted : Bool
  /-- A `Connection` holds it. -/
  conn : Bool
  /-- The user has been given that connection. -/
  known : Bool
  /-- A poller has the channel of it. -/
  registered : Bool
  /-- `sync_read` or `sync_send` is running. -/
  syncing : Bool
  /-- `socket_` was reset. -/
  closed : Bool
  deriving DecidableEq, Repr

/-- What happens to one socket. -/
inductive SocketOp where
  /-- The handler that `handleAcceptEvent` hands over: `init`, `init1` and `enableRead`. -/
  | init1
  /-- `TcpClient::start`. -/
  | start
  /-- The channel of a `TcpClient` is writable: a connection is made, which gets the channel. -/
  | writable
  /-- The handler that this puts off. -/
  | init
  /-- `sync_read` or `sync_send` is called. -/
  | sync
  /-- It returns. -/
  | synced
  /-- `destroy`, of the connection or of the client. -/
  | destroy
  deriving DecidableEq, Repr

namespace NetSocket

/-- `Socket::accept`, and the `Connection` that `handleAcceptEvent` makes. -/
def accept : NetSocket where
  flags := O_RDWR
  accepted := true
  conn := true
  known := false
  registered := false
  syncing := false
  closed := false

/-- `Socket(ep)` and `Socket::connect`, in the handler of `creatTcpClient`. -/
def connect : NetSocket where
  flags := setNoblock O_RDWR true
  accepted := false
  conn := false
  known := false
  registered := false
  syncing := false
  closed := false

/-- The socket is in non-blocking mode. -/
def noblock (s : NetSocket) : Bool := isNoblock s.flags

/-- What the code does at one of these points. -/
def call (s : NetSocket) : SocketOp → Exec NetSocket
  | .init1 => do
    guardOr .environment (s.accepted ∧ ¬s.known)
    return { s with known := true, registered := true }
  | .start => do
    guardOr .environment (¬s.accepted ∧ ¬s.registered ∧ ¬s.conn ∧ ¬s.closed)
    return { s with registered := true }
  | .writable => do
    guardOr .environment (¬s.accepted ∧ s.registered ∧ ¬s.conn)
    return { s with conn := true }
  | .init => do
    guardOr .environment (¬s.accepted ∧ s.conn ∧ ¬s.known)
    return { s with known := true }
  | .sync => do
    guardOr .environment (s.known ∧ ¬s.syncing)
    guardOr .nullDeref (¬s.closed)
    return { s with flags := setNoblock s.flags false, syncing := true }
  | .synced => do
    guardOr .environment s.syncing
    -- the `DeferCaller`
    return { s with flags := setNoblock s.flags true, syncing := false }
  | .destroy => do
    guardOr .environment (¬s.syncing ∧ (s.known ∨ ¬s.accepted))
    return { s with registered := false, closed := true }

/-- A connection that a poller has is not blocking, outside `sync_read` and `sync_send`. -/
def OnLoop (s : NetSocket) : Prop :=
  s.conn = true → s.registered = true → s.syncing = false → s.noblock = true

/-- The modes that the code leaves. -/
structure Moded (s : NetSocket) : Prop where
  /-- Nobody sets the mode of an accepted socket before its channel is added. -/
  waiting : s.accepted = true → s.known = false →
    s.conn = true ∧ s.registered = false ∧ s.syncing = false ∧ s.noblock = false
  client : s.accepted = false → s.syncing = false → s.noblock = true

variable {s s' : NetSocket}

theorem moded_accept : Moded accept := ⟨by decide, by decide⟩

theorem moded_connect : Moded connect := ⟨by decide, by decide⟩

theorem onLoop_accept : OnLoop accept := by
  unfold OnLoop
  decide

theorem onLoop_connect : OnLoop connect := by
  unfold OnLoop
  decide

/-- **The only point at which a socket comes to a loop in blocking mode is `init1`.** -/
theorem Moded.call (h : s.Moded) {op : SocketOp} (hcall : s.call op = .ok s') :
    s'.Moded ∧ (s.OnLoop → (s'.OnLoop ↔ op ≠ .init1)) := by
  cases op with
  | init1 =>
    obtain ⟨_, hguard, hs⟩ := bind_eq_ok.mp hcall
    cases hs
    obtain ⟨haccepted, hknown⟩ := guardOr_eq_ok.mp hguard
    obtain ⟨hconn, -, hsyncing, hblocking⟩ := h.waiting haccepted (by simpa using hknown)
    refine ⟨⟨fun _ hnot => (by cases hnot), fun hnot => ?_⟩, fun _ => iff_of_false (fun hon => ?_) (by simp)⟩
    · rw [show s.accepted = true from haccepted] at hnot
      cases hnot
    · -- the mode is still the one that `accept` gave
      rw [show s.noblock = true from hon hconn rfl hsyncing] at hblocking
      cases hblocking
  | start =>
    obtain ⟨_, hguard, hs⟩ := bind_eq_ok.mp hcall
    cases hs
    obtain ⟨haccepted, -, hconn, -⟩ := guardOr_eq_ok.mp hguard
    refine ⟨⟨fun ha => absurd ha haccepted, h.client⟩, fun _ => iff_of_true ?_ (by simp)⟩
    exact fun hc => absurd hc hconn
  | writable =>
    obtain ⟨_, hguard, hs⟩ := bind_eq_ok.mp hcall
    cases hs
    obtain ⟨haccepted, -, -⟩ := guardOr_eq_ok.mp hguard
    refine ⟨⟨fun ha => absurd ha haccepted, h.client⟩, fun _ => iff_of_true ?_ (by simp)⟩
    exact fun _ _ hsyncing => h.client (by simpa using haccepted) hsyncing
  | init =>
    obtain ⟨_, hguard, hs⟩ := bind_eq_ok.mp hcall
    cases hs
    obtain ⟨haccepted, -, -⟩ := guardOr_eq_ok.mp hguard
    exact ⟨⟨fun ha => absurd ha haccepted, h.client⟩, fun hon => iff_of_true hon (by simp)⟩
  | sync =>
    obtain ⟨_, hguard, hcall⟩ := bind_eq_ok.mp hcall
    obtain ⟨_, -, hs⟩ := bind_eq_ok.mp hcall
    cases hs
    obtain ⟨hknown, -⟩ := guardOr_eq_ok.mp hguard
    refine ⟨⟨fun _ hnot => ?_, fun _ hnot => (by cases hnot)⟩, fun _ => iff_of_true ?_ (by simp)⟩
    · rw [show s.known = true from hknown] at hnot
      cases hnot
    · exact fun _ _ hnot => by cases hnot
  | synced =>
    obtain ⟨_, hguard, hs⟩ := bind_eq_ok.mp hcall
    cases hs
    have hsyncing := guardOr_eq_ok.mp hguard
    -- whatever the mode was before the call
    have hset : isNoblock (setNoblock s.flags true) = true := isNoblock_setNoblock _ _
    refine ⟨⟨fun ha hk => ?_, fun _ _ => hset⟩, fun _ => iff_of_true (fun _ _ _ => hset) (by simp)⟩
    have hnot := (h.waiting ha hk).2.2.1
    rw [hsyncing] at hnot
    cases hnot
  | destroy =>
    obtain ⟨_, hguard, hs⟩ := bind_eq_ok.mp hcall
    cases hs
    obtain ⟨-, hseen⟩ := guardOr_eq_ok.mp hguard
    refine ⟨⟨fun ha hk => ?_, h.client⟩, fun _ => iff_of_true ?_ (by simp)⟩
    · have hk : s.known = false := hk
      have ha : s.accepted = true := ha
      simp [hk, ha] at hseen
    · exact fun _ hnot => by cases hnot

end NetSocket

/-! ## Runs -/

/-- An event of the loops: a new socket, or what happens to one. -/
inductive SocketEvent where
  | accept
  | connect
  | on (fd : Nat) (op : SocketOp)
  deriving DecidableEq, Repr

/-- A connection of a `TcpServer` gets to its loop. -/
def SocketEvent.isInit1 : SocketEvent → Bool
  | .on _ .init1 => true
  | _ => false

/-- The sockets of all loops, with a number for each that was made. -/
abbrev Sockets := List NetSocket

namespace Sockets

/-- What an event does. -/
def step (sockets : Sockets) : SocketEvent → Exec Sockets
  | .accept => return sockets ++ [NetSocket.accept]
  | .connect => return sockets ++ [NetSocket.connect]
  | .on fd op => do
    let s ← derefOr .environment sockets[fd]?
    let s ← s.call op
    return sockets.set fd s

/-- No connection on a loop is blocking. -/
def NoneBlocks (sockets : Sockets) : Prop := ∀ s ∈ sockets, s.OnLoop

variable {sockets sockets' : Sockets}

/-- What an event does to one socket of the others' leaves these. -/
theorem forall_mem_set {P : NetSocket → Prop} (h : ∀ s ∈ sockets, P s) {fd : Nat} {s : NetSocket}
    (hs : P s) : ∀ s' ∈ sockets.set fd s, P s' := by
  intro s' hmem
  rcases List.mem_or_eq_of_mem_set hmem with hold | rfl
  · exact h s' hold
  · exact hs

theorem forall_mem_append {P : NetSocket → Prop} (h : ∀ s ∈ sockets, P s) {s : NetSocket} (hs : P s) :
    ∀ s' ∈ sockets ++ [s], P s' := by
  intro s' hmem
  rcases List.mem_append.mp hmem with hold | hnew
  · exact h s' hold
  · rw [List.mem_singleton.mp hnew]
    exact hs

theorem step_ok {e : SocketEvent} (h : ∀ s ∈ sockets, s.Moded)
    (hstep : step sockets e = .ok sockets') :
    (∀ s ∈ sockets', s.Moded) ∧
      (NoneBlocks sockets → (NoneBlocks sockets' ↔ ¬e.isInit1 = true)) := by
  cases e with
  | accept =>
    cases hstep
    refine ⟨forall_mem_append h NetSocket.moded_accept, fun hnone => iff_of_true ?_ (by decide)⟩
    exact forall_mem_append hnone NetSocket.onLoop_accept
  | connect =>
    cases hstep
    refine ⟨forall_mem_append h NetSocket.moded_connect, fun hnone => iff_of_true ?_ (by decide)⟩
    exact forall_mem_append hnone NetSocket.onLoop_connect
  | on fd op =>
    obtain ⟨s, hfd, hstep⟩ := bind_eq_ok.mp hstep
    obtain ⟨s', hcall, hs⟩ := bind_eq_ok.mp hstep
    cases hs
    have hget := derefOr_eq_ok.mp hfd
    have hmem := List.mem_of_getElem? hget
    obtain ⟨hmoded, hiff⟩ := (h s hmem).call hcall
    have hinit : op ≠ .init1 ↔ ¬(SocketEvent.on fd op).isInit1 = true := by
      cases op <;> simp [SocketEvent.isInit1]
    refine ⟨forall_mem_set h hmoded, fun hnone => ?_⟩
    rw [← hinit, ← hiff (hnone s hmem)]
    constructor
    · intro hnone'
      exact hnone' s' (List.mem_set (List.getElem?_eq_some_iff.mp hget).1 s')
    · exact forall_mem_set hnone

/--
**No connection on a loop is blocking, in every state of a run, exactly if none of a `TcpServer` has got
to its loop.**
-/
theorem noneBlocks_iff {es : List SocketEvent} (h : run step [] es = .ok sockets) :
    (∀ es' sockets', es' <+: es → run step [] es' = .ok sockets' → NoneBlocks sockets') ↔
      ∀ e ∈ es, ¬e.isInit1 = true := by
  rw [← along_iff_forall h]
  refine (along_iff_invariant_of (B := fun sockets : Sockets => ∀ s ∈ sockets, s.Moded)
    (fun w e t hb ht => (step_ok hb ht).1) (fun w e t hb hi ht => (step_ok hb ht).2 hi)
    (List.forall_mem_nil _) (List.forall_mem_nil _) h).symm

/-- A client's connection, with a call of `sync_read`. -/
theorem noneBlocks_client : NoneBlocks
    [{ NetSocket.connect with
      flags := 2050, conn := true, known := true, registered := true }] := by
  have hrun : run step [] [.connect, .on 0 .start, .on 0 .writable, .on 0 .init, .on 0 .sync,
      .on 0 .synced] = .ok [{ NetSocket.connect with
        flags := 2050, conn := true, known := true, registered := true }] := rfl
  exact (noneBlocks_iff hrun).mpr (by decide) _ _ (List.prefix_refl _) hrun

/-- A connection that a server has accepted. -/
theorem accepted_blocks :
    ∃ s, run step [] [.accept, .on 0 .init1] = .ok [s] ∧ s.conn = true ∧ s.registered = true ∧
      s.syncing = false ∧ s.noblock = false ∧ ¬NoneBlocks [s] := by
  refine ⟨_, rfl, rfl, rfl, rfl, by decide, fun hnone => ?_⟩
  have hon := hnone _ List.mem_cons_self rfl rfl rfl
  revert hon
  decide

end Sockets

end Liby
