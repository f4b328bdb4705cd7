import Liby.Infra.Decimal
import Liby.Net.ReadStream

/-!
# The requests of the TCP proxy

`examples/tcp_proxy.cpp`, up to the answer of the client that it asks for: `handleConnectRequest` is the read
callback of an accepted connection. It waits for nine bytes, looks at the first eight, and drops whatever
else was read with them.
-/

namespace Liby.SocksProxy

open Infra

/-- What `creatTcpClient` is called with. -/
structure Target where
  host : Bytes
  service : Bytes
  deriving DecidableEq, Repr

/-- `inet_ntop(AF_INET, ..)`. -/
def inetNtop (a b c d : UInt8) : Bytes :=
  stdToString a.toNat ++ str "." ++ stdToString b.toNat ++ str "." ++ stdToString c.toNat ++ str "." ++
    stdToString d.toNat

example : inetNtop 10 0 0 7 = str "10.0.0.7" := by decide

/-- What the first bytes of a request ask for; another version or command is refused. -/
def target? : Bytes → Option Target
  | ver :: command :: hi :: lo :: a :: b :: c :: d :: _ =>
    if ver ≠ 4 ∨ command ≠ 1 then none
    else some { host := inetNtop a b c d, service := stdToString (hi.toNat * 256 + lo.toNat) }
  | _ => none

/-- A connection of the proxy, with the clients that were asked for. -/
abbrev Requester := Link (List Target) Empty

/-- `handleConnectRequest`. -/
def handleConnectRequest (l : Requester) : Exec Requester := do
  let size ← l.conn.readBuf_.size
  if size < 9 then return l
  else do
    let base ← l.conn.readBuf_.data
    match target? base with
    | none => return { l with conn := l.conn.destroy }
    | some target =>
      return { l with
        conn := { l.conn with readBuf_ := l.conn.readBuf_.clear }
        world := l.world ++ [target] }

/-- The error callback of a `TcpServer` destroys the connection. -/
def callbacks : Callbacks (List Target) Empty where
  complete := fun w _ => (w, [])
  onErro := fun w => (w, [.destroy])

/-- Bytes come; a connection that is destroyed is not in the poller. -/
def step (l : Requester) (bytes : Bytes) : Exec Requester :=
  if l.conn.destroy_ then .ok l
  else l.handleReadEvent callbacks handleConnectRequest (.received bytes)

/-! ## What the proxy does with a stream -/

/-- The bytes that wait, the clients that were asked for, and whether the connection was destroyed. -/
structure Handshake where
  held : Bytes
  targets : List Target
  refused : Bool
  deriving DecidableEq, Repr

namespace Handshake

def init : Handshake := { held := [], targets := [], refused := false }

/-- More bytes come. -/
def feed (h : Handshake) (bytes : Bytes) : Handshake :=
  if h.refused then h
  else if (h.held ++ bytes).length < 9 then { h with held := h.held ++ bytes }
  else
    match target? (h.held ++ bytes) with
    | none => { h with refused := true }
    | some target => { h with held := [], targets := h.targets ++ [target] }

end Handshake

/-! ## The connection does so -/

/-- The connection, and what it comes to. -/
structure Follows (l : Requester) (h : Handshake) : Prop where
  targets : l.world = h.targets
  refused : l.conn.destroy_ = h.refused
  usable : h.refused = false → l.conn.readBuf_.Usable ∧ l.conn.readBuf_.contents = h.held ∧
    l.conn.socket_ = true ∧ l.conn.readEventCallback_ = true

variable {l : Requester} {h : Handshake}

/-- The callback on a buffer with what waited and what has come. -/
theorem Follows.callback (hl : Follows l h) (hopen : h.refused = false) {bytes : Bytes} (hne : bytes ≠ [])
    {buffer : Buffer} (husable : buffer.Usable) (hcontents : buffer.contents = h.held ++ bytes) :
    Guarantees (fun l' => Follows l' (h.feed bytes))
      (handleConnectRequest { l with conn := { l.conn with readBuf_ := buffer } }) := by
  obtain ⟨-, -, hsocket, hcallback⟩ := hl.usable hopen
  have hfull : buffer.contents ≠ [] := by
    rw [hcontents]
    exact List.append_ne_nil_of_right_ne_nil _ hne
  unfold handleConnectRequest Handshake.feed
  dsimp only
  rw [husable.readable.wf.size_eq, ok_bind, hcontents, hopen, if_neg Bool.false_ne_true]
  split
  · exact ⟨hl.targets, hl.refused.trans hopen, fun _ => ⟨husable, hcontents, hsocket, hcallback⟩⟩
  · rw [husable.readable.wf.data_eq hfull, ok_bind, hcontents]
    cases htarget : target? (h.held ++ bytes) with
    | none =>
      refine ⟨hl.targets, ?_, nofun⟩
      show (Connection.destroy _).destroy_ = true
      unfold Connection.destroy
      split
      · next hdestroyed => exact hdestroyed
      · rfl
    | some target =>
      obtain ⟨hclear, hleft⟩ := husable.clear_ok
      refine ⟨by rw [hl.targets], hl.refused.trans hopen, fun _ => ⟨hclear, ?_, hsocket, hcallback⟩⟩
      exact husable.readable.wf.clear_ok.2

/-- **Every read does what the stream comes to.** -/
theorem Follows.step_ok (hl : Follows l h) (bytes : Bytes) :
    Guarantees (fun l' => Follows l' (h.feed bytes)) (step l bytes) := by
  unfold step
  cases hopen : h.refused with
  | true =>
    rw [if_pos (hl.refused.trans hopen)]
    unfold Handshake.feed
    rw [if_pos hopen]
    exact hl
  | false =>
    obtain ⟨husable, hcontents, hsocket, hcallback⟩ := hl.usable hopen
    rw [if_neg (by rw [hl.refused, hopen]; exact Bool.false_ne_true)]
    unfold Link.handleReadEvent
    rw [husable.readable.availbleSize_eq, ok_bind, guardOr_pos hsocket, ok_bind]
    dsimp only
    refine (Connection.receive_ok husable.readable bytes).bind fun conn hconn => ?_
    obtain ⟨hne, buffer, rfl, hreadable, hread⟩ := hconn
    have hcapacity := hreadable.wf.capacity_pos (by
      rw [hread]
      exact List.append_ne_nil_of_right_ne_nil _ hne)
    dsimp only
    rw [if_pos hcallback]
    exact hl.callback hopen hne ⟨hreadable, hcapacity⟩ (by rw [hread, hcontents])

theorem Follows.run_ok : ∀ (pieces : List Bytes) {l : Requester} {h : Handshake}, Follows l h →
    Guarantees (fun l' => Follows l' (pieces.foldl Handshake.feed h)) (run step l pieces)
  | [], _, _, hl => hl
  | bytes :: pieces, _, _, hl => by
    rw [run_cons]
    exact (hl.step_ok bytes).bind fun _ hl' => run_ok pieces hl'

/-- A request of a client: `CONNECT` to a port of an address, for a user. -/
def request (port : Nat) (a b c d : UInt8) (userid : Bytes) : Bytes :=
  [4, 1, UInt8.ofNat (port / 256), UInt8.ofNat (port % 256), a, b, c, d] ++ userid ++ [0]

/-- The name of a user that comes after the ninth byte is taken for a request, and refused. -/
example : (run step (Link.start .accepted [])
    [request 80 127 0 0 1 (str "somebody1") |>.take 9, request 80 127 0 0 1 (str "somebody1") |>.drop 9]).toOption.map
      (fun l => (l.world.length, l.conn.destroy_)) = some (1, true) := by decide +kernel

end Liby.SocksProxy
