import Liby.Infra.Loop
import Liby.Loop.EventLoopGroup

/-!
# The loop of handleAcceptEvent

`Socket::accept` throws on an error, and the `try` is inside the loop: what it catches takes the channel
and the callbacks from the server, and the loop calls `accept` again. The read callback of a connection
is a copy, while its error callback is a lambda that looks the server's up when it is called.
-/

namespace Liby

open Infra

/-- What `::accept` gives: a descriptor, or -1 and an `errno`. -/
inductive AcceptResult where
  | socket (fd : Nat)
  | EAGAIN
  | EINTR
  /-- Any other `errno`. -/
  | error (errno : Nat)
  deriving DecidableEq, Repr

/-- The loop goes on after it: a socket, or `EINTR`, on which `Socket::accept` calls itself. -/
def AcceptResult.goesOn : AcceptResult → Bool
  | .socket _ | .EINTR => true
  | .EAGAIN | .error _ => false

/-- `class TcpServer`. Callbacks are of type `K`. -/
structure TcpServer (K : Type) where
  listenfd_ : Int
  chan_ : Bool
  acceptorCallback_ : Option K
  readEventCallback_ : Option K
  erroEventCallback_ : Option K
  deriving DecidableEq, Repr

/-- A connection that is handed to a loop. -/
structure ServedConn (K : Type) where
  fd : Nat
  loop_ : Nat
  readEventCallback_ : Option K
  deriving DecidableEq, Repr

variable {K : Type}

namespace TcpServer

/-- `initConnection`. The lambda for errors has no copy of a callback. -/
def initConnection (server : TcpServer K) (conn : ServedConn K) : ServedConn K :=
  { conn with readEventCallback_ := server.readEventCallback_ }

/-- What the lambda of `initConnection` calls, when the server is in this state. -/
def onErro (server : TcpServer K) : Option K := server.erroEventCallback_

/-- `handleErroEvent`. -/
def handleErroEvent (server : TcpServer K) : TcpServer K :=
  { server with
    chan_ := false, acceptorCallback_ := none, readEventCallback_ := none, erroEventCallback_ := none }

end TcpServer

/-- The loop of `handleAcceptEvent`: how often `::accept` was called, and what was handed over. -/
structure AcceptState (K : Type) where
  server : TcpServer K
  taken : Nat
  handed : List (ServedConn K)
  deriving DecidableEq, Repr

namespace AcceptState

/-- Before the first `accept`. -/
def start (server : TcpServer K) : AcceptState K := { server := server, taken := 0, handed := [] }

/-- One call of `::accept` and what comes of it. -/
def pass (group : EventLoopGroup) (results : Nat → AcceptResult) (s : AcceptState K) :
    Exec (Pass (AcceptState K) (AcceptState K)) :=
  let s' := { s with taken := s.taken + 1 }
  match results s.taken with
  | .EAGAIN => return .done s'
  | .EINTR => return .next s'
  | .socket fd =>
    let conn := { fd := fd, loop_ := group.robinLoop fd, readEventCallback_ := none }
    return .next { s' with handed := s.handed ++ [s.server.initConnection conn] }
  | .error _ => return .next { s' with server := s.server.handleErroEvent }

end AcceptState

/-- `handleAcceptEvent`, with at most `n` calls of `::accept`; `none` if it is still running. -/
def TcpServer.handleAcceptEvent (group : EventLoopGroup) (results : Nat → AcceptResult) (n : Nat)
    (server : TcpServer K) : Option (Exec (AcceptState K)) :=
  if 0 ≤ server.listenfd_ then Loop.passes (AcceptState.pass group results) n (.start server)
  else some (.error .assertFailed)

/-- The first result that the loop should stop at. -/
structure FirstStop (results : Nat → AcceptResult) (k : Nat) : Prop where
  stops : (results k).goesOn = false
  before : ∀ j < k, (results j).goesOn = true

/-- What an event of the listening socket should come to. -/
structure AcceptsRightly (group : EventLoopGroup) (results : Nat → AcceptResult)
    (server : TcpServer K) : Prop where
  /-- It is over with the first `EAGAIN` or error. -/
  stops : ∀ k, FirstStop results k →
    ∃ n s, server.handleAcceptEvent group results n = some (.ok s) ∧ s.taken = k + 1
  /-- Whatever is handed over has the callbacks that the server had before. -/
  callbacks : ∀ s, Loop.Reached (AcceptState.pass group results) (.start server) s → ∀ conn ∈ s.handed,
    conn.readEventCallback_ = server.readEventCallback_ ∧ s.server.onErro = server.erroEventCallback_

variable {group : EventLoopGroup} {results : Nat → AcceptResult} {server : TcpServer K}
  {s s' : AcceptState K}

namespace AcceptState

/-! ## One pass -/

/-- A pass that goes on has taken a result. -/
theorem taken_of_next (h : s.pass group results = .ok (.next s')) :
    s'.taken = s.taken + 1 ∧ results s.taken ≠ .EAGAIN := by
  unfold pass at h
  split at h
  · cases h
  · next hr =>
    cases h
    exact ⟨rfl, by rw [hr]; simp⟩
  · next hr =>
    cases h
    exact ⟨rfl, by rw [hr]; simp⟩
  · next hr =>
    cases h
    exact ⟨rfl, by rw [hr]; simp⟩

theorem pass_EAGAIN (h : results s.taken = .EAGAIN) :
    s.pass group results = .ok (.done { s with taken := s.taken + 1 }) := by
  unfold pass
  rw [h]
  rfl

/-- On an error the loop goes on without the callbacks. -/
theorem pass_error {e : Nat} (h : results s.taken = .error e) : s.pass group results =
    .ok (.next { s with taken := s.taken + 1, server := s.server.handleErroEvent }) := by
  unfold pass
  rw [h]
  rfl

variable (group) in
/-- A result that the loop should go on after leaves the server as it is. -/
theorem pass_goesOn (h : (results s.taken).goesOn = true) :
    ∃ s', s.pass group results = .ok (.next s') ∧ s'.server = s.server ∧ ∀ conn ∈ s'.handed,
      conn ∈ s.handed ∨ conn.readEventCallback_ = s.server.readEventCallback_ := by
  unfold pass
  cases hr : results s.taken with
  | socket fd =>
    refine ⟨_, rfl, rfl, fun conn hconn => ?_⟩
    rcases List.mem_append.mp hconn with hconn | hconn
    · exact .inl hconn
    · rw [List.mem_singleton.mp hconn]
      exact .inr rfl
  | EINTR => exact ⟨_, rfl, rfl, fun conn hconn => .inl hconn⟩
  | EAGAIN => rw [hr] at h; cases h
  | error e => rw [hr] at h; cases h

/-! ## The loop -/

/-- The loop is left only with `EAGAIN`. -/
theorem left_with_EAGAIN : ∀ {n : Nat} {s r : AcceptState K},
    Loop.passes (pass group results) n s = some (.ok r) →
    ∃ k, r.taken = k + 1 ∧ results k = .EAGAIN
  | 0, _, _, h => by cases h
  | n + 1, s, r, h => by
    rw [Loop.passes] at h
    cases hpass : s.pass group results with
    | error e =>
      rw [hpass] at h
      cases h
    | ok p =>
      rw [hpass] at h
      cases p with
      | next t => exact left_with_EAGAIN h
      | done t =>
        -- of the four results only `EAGAIN` is a `return`
        cases h
        unfold pass at hpass
        split at hpass
        · next hr =>
          cases hpass
          exact ⟨s.taken, rfl, hr⟩
        · cases hpass
        · cases hpass
        · cases hpass

variable (group) in
/-- The results before an `EAGAIN` are taken one after the other. -/
theorem reaches_EAGAIN {k : Nat} (hk : results k = .EAGAIN)
    (hbefore : ∀ j < k, (results j).goesOn = true) : ∀ {m : Nat} {s : AcceptState K},
    s.taken + m = k → ∃ r, Loop.passes (pass group results) (m + 1) s = some (.ok r) ∧ r.taken = k + 1
  | 0, s, h => by
    obtain rfl : s.taken = k := h
    exact ⟨_, Loop.passes_done (pass_EAGAIN hk), rfl⟩
  | m + 1, s, h => by
    obtain ⟨t, ht, -⟩ := pass_goesOn group (s := s) (hbefore s.taken (by omega))
    have htaken := (taken_of_next ht).1
    obtain ⟨r, hr, hrk⟩ := reaches_EAGAIN hk hbefore (s := t) (m := m) (by omega)
    exact ⟨r, Loop.passes_next ht hr, hrk⟩

/-- While no error has come the server is as it was. -/
structure Untouched (results : Nat → AcceptResult) (server : TcpServer K) (s : AcceptState K) :
    Prop where
  same : s.server = server
  handed : ∀ conn ∈ s.handed, conn.readEventCallback_ = server.readEventCallback_
  taken : ∀ j < s.taken, (results j).goesOn = true

theorem Untouched.pass (hstop : ∀ k, FirstStop results k → results k = .EAGAIN)
    (h : Untouched results server s) (hpass : s.pass group results = .ok (.next s')) :
    Untouched results server s' := by
  obtain ⟨htaken, hnot⟩ := taken_of_next hpass
  have hgoes : (results s.taken).goesOn = true := by
    -- it would be the first stop, which is `EAGAIN`, and the pass would not go on
    by_contra hstops
    exact hnot (hstop s.taken ⟨Bool.eq_false_iff.mpr hstops, h.taken⟩)
  obtain ⟨t, ht, hserver, hhanded⟩ := pass_goesOn group hgoes
  rw [hpass] at ht
  cases ht
  refine ⟨hserver.trans h.same, fun conn hconn => ?_, fun j hj => ?_⟩
  · rcases hhanded conn hconn with hold | hnew
    · exact h.handed conn hold
    · rw [hnew, h.same]
  · by_cases hlast : j = s.taken
    · rw [hlast]
      exact hgoes
    · exact h.taken j (by omega)

/-- **With an error that comes again and again the loop is never left.** -/
theorem not_terminates_of_errors (hall : ∀ j, s.taken ≤ j → ∃ e, results j = .error e) :
    ¬Loop.Terminates (AcceptState.pass group results) s := by
  refine Loop.not_terminates (I := fun t => s.taken ≤ t.taken) (fun t ht => ?_) (le_refl s.taken)
  obtain ⟨e, he⟩ := hall t.taken ht
  exact ⟨_, pass_error he, Nat.le_succ_of_le ht⟩

end AcceptState

/--
**An event of the listening socket is handled rightly exactly if the first result that is neither a
socket nor `EINTR` is `EAGAIN`**, or there is none.
-/
theorem acceptsRightly_iff (hfd : 0 ≤ server.listenfd_) :
    AcceptsRightly group results server ↔ ∀ k, FirstStop results k → results k = .EAGAIN := by
  constructor
  · intro h k hk
    obtain ⟨n, s, hs, htaken⟩ := h.stops k hk
    rw [TcpServer.handleAcceptEvent, if_pos hfd] at hs
    -- as many results were taken, and the last of them is `EAGAIN`
    obtain ⟨k', hk', heagain⟩ := AcceptState.left_with_EAGAIN hs
    rwa [show k = k' by omega]
  · intro hstop
    refine ⟨fun k hk => ?_, fun s hs conn hconn => ?_⟩
    · obtain ⟨r, hr, hrk⟩ := AcceptState.reaches_EAGAIN group (hstop k hk) hk.before
        (s := .start server) (Nat.zero_add k)
      exact ⟨k + 1, r, by rw [TcpServer.handleAcceptEvent, if_pos hfd, hr], hrk⟩
    · have huntouched : AcceptState.Untouched results server s :=
        hs.invariant (fun t t' ht hpass => ht.pass hstop hpass)
          ⟨rfl, List.forall_mem_nil _, fun j hj => absurd hj (Nat.not_lt_zero j)⟩
      refine ⟨huntouched.handed conn hconn, ?_⟩
      rw [huntouched.same]
      rfl

/-- A server with all its callbacks. -/
def TcpServer.listening : TcpServer Nat where
  listenfd_ := 5
  chan_ := true
  acceptorCallback_ := some 1
  readEventCallback_ := some 2
  erroEventCallback_ := some 3

/-- Two connections, with an interrupted call between them. -/
theorem acceptsRightly_two : AcceptsRightly (.new 1)
    (fun i => if i = 0 then .socket 7 else if i = 1 then .EINTR else if i = 2 then .socket 8 else .EAGAIN)
    TcpServer.listening := by
  refine (acceptsRightly_iff (by decide)).mpr fun k hk => ?_
  have hstops := hk.stops
  split at hstops
  · cases hstops
  · split at hstops
    · cases hstops
    · split at hstops
      · cases hstops
      · next h0 h1 h2 => rw [if_neg h0, if_neg h1, if_neg h2]

/-- `EMFILE` for ever; and once, with a connection after it, which has no callback. -/
theorem accept_spins :
    ¬Loop.Terminates (AcceptState.pass (.new 1) fun _ => .error 24) (.start TcpServer.listening) ∧
      (∃ s, TcpServer.listening.handleAcceptEvent (.new 1)
          (fun i => if i = 0 then .error 24 else if i = 1 then .socket 7 else .EAGAIN) 3 = some (.ok s) ∧
        s.handed = [{ fd := 7, loop_ := 1, readEventCallback_ := none }]) ∧
      ¬AcceptsRightly (.new 1) (fun _ => .error 24) TcpServer.listening := by
  refine ⟨AcceptState.not_terminates_of_errors fun _ _ => ⟨24, rfl⟩, ⟨_, rfl, rfl⟩, fun h => ?_⟩
  obtain ⟨n, s, hs, -⟩ := h.stops 0 ⟨rfl, fun j hj => absurd hj (Nat.not_lt_zero j)⟩
  obtain ⟨k, -, heagain⟩ := AcceptState.left_with_EAGAIN hs
  cases heagain

end Liby
