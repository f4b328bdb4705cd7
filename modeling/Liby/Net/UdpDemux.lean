import Liby.Net.ReadStream
import Liby.Net.UdpSocket

/-!
# UDP demultiplexing

The datagrams of all peers come over one socket. `Demux` is what should come of them: the peers that
have a connection, with the bytes that each of them sent since it was accepted, and the callbacks
that have run. `UdpSocket` does the same, as long as no read callback touches a connection that was
known before, after it has destroyed it.
-/

namespace Liby

open Infra

variable {H : Type}

/-! ## What should come of datagrams -/

/-- The bytes of the peers that are connected, those of the connections that were destroyed, and the callbacks. -/
structure Demux where
  live : Endpoint → Option Bytes
  ended : List (Endpoint × Bytes)
  calls : List UdpCall

def UdpOp.isDestroy : UdpOp H → Bool
  | .destroy => true
  | _ => false

/-- The read callback destroys the connection. -/
def Datagram.destroys (g : Datagram H) : Bool := g.ops.any UdpOp.isDestroy

namespace Demux

/-- No peer is connected. -/
def init : Demux := { live := fun _ => none, ended := [], calls := [] }

/-- What a peer has sent with its next datagram, since it was accepted. -/
def got (d : Demux) (g : Datagram H) : Bytes := (d.live g.peer).getD [] ++ g.payload

/-- A datagram goes to its peer, which is accepted before if it is not connected. -/
def next (d : Demux) (g : Datagram H) : Demux where
  live := Function.update d.live g.peer (if g.destroys then none else some (d.got g))
  ended := if g.destroys then d.ended ++ [(g.peer, d.got g)] else d.ended
  calls := (if (d.live g.peer).isSome then d.calls else d.calls ++ [.accept g.peer]) ++
    [.read g.peer g.payload]

end Demux

/-- No call comes after the destruction. -/
def DestroysLast : List (UdpOp H) → Prop
  | [] => True
  | op :: ops => if op.isDestroy then ops = [] else DestroysLast ops

/-- The read callbacks of peers that are connected already destroy last. -/
def Proper (connected : Endpoint → Bool) : List (Datagram H) → Prop
  | [] => True
  | g :: gs => (connected g.peer = true → DestroysLast g.ops) ∧
      Proper (Function.update connected g.peer (!g.destroys)) gs

namespace UdpWorld

/-- The socket reads, with all that its callbacks and `send` need. -/
structure Ready (w : UdpWorld H) : Prop where
  socket : w.socket.socket_ = true
  chan : w.socket.chan_.isSome
  acceptor : w.socket.acceptorCallback_ = true
  reader : w.socket.readEventCallback_ = true

/-- A connection of `ep` that is there, of which what was taken and what is there is `got`. -/
structure Serves (o : UdpObject) (ep : Endpoint) (got : Bytes) : Prop where
  peer : o.uconn.peer_ = ep
  usable : o.uconn.readBuf_.Usable
  stream : o.taken ++ o.uconn.readBuf_.contents = got

/-- `p` is the place of a connection of `c` that was destroyed. -/
def Ended (w : UdpWorld H) (p : Nat) (c : Endpoint × Bytes) : Prop :=
  ∃ o, w.uconns[p]? = some o ∧ o.freed = true ∧ Serves o c.1 c.2

/--
**The socket has done what should be done**: every connected peer has one connection, and its bytes
are those of the peer, as are those of each connection that was destroyed; and the same callbacks have run.
-/
structure Demuxes (w : UdpWorld H) (d : Demux) : Prop where
  ready : w.Ready
  keys : w.socket.conns_.keys.Nodup
  absent : ∀ ep, d.live ep = none → w.socket.conns_.find Endpoint.lt ep = none
  present : ∀ ep got, d.live ep = some got → ∃ p o, w.socket.conns_.find Endpoint.lt ep = some p ∧
    w.uconns[p]? = some o ∧ o.freed = false ∧ Serves o ep got
  ended : ∃ ps : List Nat, ps.Nodup ∧ List.Forall₂ w.Ended ps d.ended
  calls : w.calls = d.calls

theorem demuxes_started (poller_ : Chooser) : Demuxes (started poller_ : UdpWorld H) .init where
  ready := ⟨rfl, rfl, rfl, rfl⟩
  keys := List.nodup_nil
  absent := fun _ _ => rfl
  present := nofun
  ended := ⟨[], List.nodup_nil, .nil⟩
  calls := rfl

/-! ## A read callback -/

/--
A read callback has run on the connection at `p`, from the world `w₀`: only this connection and its
entry in `conns_` have changed, and what was sent.
-/
structure Ran (w₀ : UdpWorld H) (p : Nat) (ep : Endpoint) (got : Bytes) (gone freed : Bool)
    (w : UdpWorld H) : Prop where
  ready : w.Ready
  calls : w.calls = w₀.calls
  conns : w.socket.conns_ =
    if gone then w₀.socket.conns_.erase Endpoint.lt ep else w₀.socket.conns_
  object : ∃ o, w.uconns = w₀.uconns.set p o ∧ o.freed = freed ∧ Serves o ep got

variable {w₀ w : UdpWorld H} {p : Nat} {ep : Endpoint} {got : Bytes} {gone : Bool}

theorem Ran.access (h : Ran w₀ p ep got gone false w) (hp : p < w₀.uconns.length) :
    ∃ o, w.access p = .ok o ∧ w.uconns = w₀.uconns.set p o ∧ o.freed = false ∧ Serves o ep got := by
  obtain ⟨o, huconns, hfreed, hserves⟩ := h.object
  refine ⟨o, ?_, huconns, hfreed, hserves⟩
  unfold UdpWorld.access
  rw [huconns, List.getElem?_set_self hp]
  dsimp only
  rw [hfreed]
  rfl

/-- What was freed must not be touched. -/
theorem Ran.access_freed (h : Ran w₀ p ep got gone true w) (hp : p < w₀.uconns.length) :
    w.access p = .error .outOfBounds := by
  obtain ⟨o, huconns, hfreed, -⟩ := h.object
  unfold UdpWorld.access
  rw [huconns, List.getElem?_set_self hp]
  dsimp only
  rw [hfreed]
  rfl

/-- The connection changes its buffer to a part of it, and the rest was taken. -/
theorem Ran.take (h : Ran w₀ p ep got gone false w) {o : UdpObject}
    (huconns : w.uconns = w₀.uconns.set p o) (hfreed : o.freed = false) (ho : Serves o ep got)
    {ret : Bytes} {readBuf : Buffer} (husable : readBuf.Usable)
    (hcontents : ret ++ readBuf.contents = o.uconn.readBuf_.contents) :
    Ran w₀ p ep got gone false (w.take p o ret readBuf) where
  ready := ⟨h.ready.socket, h.ready.chan, h.ready.acceptor, h.ready.reader⟩
  calls := h.calls
  conns := h.conns
  object := by
    refine ⟨{ o with uconn := { o.uconn with readBuf_ := readBuf }, taken := o.taken ++ ret }, ?_, hfreed, ?_⟩
    · show w.uconns.set p _ = _
      rw [huconns, List.set_set]
    · refine ⟨ho.peer, husable, ?_⟩
      show o.taken ++ ret ++ readBuf.contents = got
      rw [List.append_assoc, hcontents]
      exact ho.stream

theorem Ran.send (h : Ran w₀ p ep got gone false w) (o : UdpObject) (task : UdpTask H) :
    ∃ w', w.send o task = .ok w' ∧ Ran w₀ p ep got gone false w' := by
  obtain ⟨ch, hch⟩ := Option.isSome_iff_exists.mp h.ready.chan
  unfold UdpWorld.send enableWrit
  dsimp only
  rw [hch]
  exact ⟨_, rfl, ⟨h.ready.socket, rfl, h.ready.acceptor, h.ready.reader⟩, h.calls, h.conns, h.object⟩

/-- A call that does not destroy the connection. -/
theorem Ran.op_ok (h : Ran w₀ p ep got gone false w) (hp : p < w₀.uconns.length) (held : Option Nat)
    {op : UdpOp H} (hop : op.isDestroy = false) :
    ∃ w', w.runOp held p op = .ok w' ∧ Ran w₀ p ep got gone false w' := by
  obtain ⟨o, haccess, huconns, hfreed, ho⟩ := h.access hp
  have husable := ho.usable
  have hwf := husable.readable.wf
  unfold runOp
  rw [haccess, ok_bind]
  cases op with
  | retrieve =>
    obtain ⟨husable', hcontents⟩ := husable.clear_ok
    exact ⟨_, rfl, h.take huconns hfreed ho husable' hcontents⟩
  | retrieveLength len =>
    obtain ⟨readBuf, hok, husable', hcontents⟩ := husable.retrieve_ok len
    dsimp only
    rw [hok]
    exact ⟨_, rfl, h.take huconns hfreed ho husable' hcontents⟩
  | retriveveAsString len =>
    dsimp only
    split
    · exact ⟨w, rfl, h⟩
    · next hfull =>
      have hne : o.uconn.readBuf_.contents ≠ [] := fun hnil => hfull (hwf.empty_iff.mpr hnil)
      obtain ⟨readBuf, hok, husable', hcontents⟩ := husable.retriveveAsString_ok hne len
      rw [hok]
      exact ⟨_, rfl, h.take huconns hfreed ho husable' hcontents⟩
  | send handler =>
    have hguard : 0 < o.uconn.readBuf_.capacity_ ∧
        o.uconn.readBuf_.leftIndex_ ≤ o.uconn.readBuf_.rightIndex_ := ⟨husable.capacity, hwf.left_le⟩
    dsimp only
    rw [guardOr_pos hguard, ok_bind]
    refine (h.take huconns hfreed ho (Buffer.usable_ofLength husable.capacity) ?_).send o _
    rw [Buffer.contents_ofLength, List.append_nil]
  | destroy => cases hop

/-- The destruction of a connection that a local `shared_ptr` holds. -/
theorem Ran.destroy_held (h : Ran w₀ p ep got gone false w) (hp : p < w₀.uconns.length)
    (hfind : w₀.socket.conns_.find Endpoint.lt ep = some p) :
    ∃ w', w.runOp (some p) p .destroy = .ok w' ∧ Ran w₀ p ep got true false w' := by
  obtain ⟨o, haccess, huconns, hfreed, ho⟩ := h.access hp
  have hconns := h.conns
  unfold runOp
  rw [haccess, ok_bind]
  refine ⟨_, rfl, ?_⟩
  unfold destroyConn
  rw [ho.peer]
  cases hgone : gone with
  | true =>
    rw [hgone, if_pos rfl] at hconns
    rw [hconns, KeyMap.find_erase separates_endpoint, if_pos rfl]
    exact ⟨h.ready, h.calls, by rw [if_pos rfl]; exact hconns, h.object⟩
  | false =>
    rw [hgone, if_neg Bool.false_ne_true] at hconns
    rw [hconns, hfind]
    dsimp only
    rw [if_pos rfl]
    exact ⟨⟨h.ready.socket, h.ready.chan, h.ready.acceptor, h.ready.reader⟩, h.calls, rfl, h.object⟩

/-- The destruction of one that only `conns_` has. -/
theorem Ran.destroy_free (h : Ran w₀ p ep got false false w) (hp : p < w₀.uconns.length)
    (hfind : w₀.socket.conns_.find Endpoint.lt ep = some p) :
    ∃ w', w.runOp none p .destroy = .ok w' ∧ Ran w₀ p ep got true true w' := by
  obtain ⟨o, haccess, huconns, hfreed, ho⟩ := h.access hp
  have hconns := h.conns
  rw [if_neg Bool.false_ne_true] at hconns
  unfold runOp
  rw [haccess, ok_bind]
  refine ⟨_, rfl, ?_⟩
  unfold destroyConn
  rw [ho.peer, hconns, hfind]
  dsimp only
  rw [if_neg nofun]
  refine ⟨⟨h.ready.socket, h.ready.chan, h.ready.acceptor, h.ready.reader⟩, h.calls, rfl, ?_⟩
  refine ⟨{ o with freed := true }, ?_, rfl, ho.peer, ho.usable, ho.stream⟩
  show w.uconns.modify p _ = _
  rw [huconns, List.modify_eq_set_getElem?, List.getElem?_set_self hp]
  exact List.set_set _

theorem eq_destroy {op : UdpOp H} (h : op.isDestroy = true) : op = .destroy := by
  cases op with
  | destroy => rfl
  | retrieve | retrieveLength len | retriveveAsString len | send handler => cases h

/-- A read callback on a connection that was just accepted. -/
theorem Ran.held_ok : ∀ (ops : List (UdpOp H)) {gone : Bool} {w : UdpWorld H},
    Ran w₀ p ep got gone false w → p < w₀.uconns.length →
    w₀.socket.conns_.find Endpoint.lt ep = some p →
    ∃ w', w.runOps (some p) p ops = .ok w' ∧
      Ran w₀ p ep got (gone || ops.any UdpOp.isDestroy) false w'
  | [], gone, w, h, _, _ => ⟨w, rfl, by rw [List.any_nil, Bool.or_false]; exact h⟩
  | op :: ops, gone, w, h, hp, hfind => by
    cases hop : op.isDestroy with
    | false =>
      obtain ⟨w1, hw1, h1⟩ := h.op_ok hp (some p) hop
      obtain ⟨w', hw', h'⟩ := Ran.held_ok ops h1 hp hfind
      refine ⟨w', by rw [runOps, hw1, ok_bind, hw'], ?_⟩
      rw [List.any_cons, hop, Bool.false_or]
      exact h'
    | true =>
      obtain rfl := eq_destroy hop
      obtain ⟨w1, hw1, h1⟩ := h.destroy_held hp hfind
      obtain ⟨w', hw', h'⟩ := Ran.held_ok ops h1 hp hfind
      refine ⟨w', by rw [runOps, hw1, ok_bind, hw'], ?_⟩
      rw [List.any_cons, hop, Bool.true_or, Bool.or_true]
      exact h'

/-- A read callback on a connection that was known before, which destroys it last if it does. -/
theorem Ran.known_ok : ∀ (ops : List (UdpOp H)) {w : UdpWorld H},
    Ran w₀ p ep got false false w → p < w₀.uconns.length →
    w₀.socket.conns_.find Endpoint.lt ep = some p → DestroysLast ops →
    ∃ w', w.runOps none p ops = .ok w' ∧
      Ran w₀ p ep got (ops.any UdpOp.isDestroy) (ops.any UdpOp.isDestroy) w'
  | [], w, h, _, _, _ => ⟨w, rfl, h⟩
  | op :: ops, w, h, hp, hfind, hlast => by
    cases hop : op.isDestroy with
    | false =>
      rw [DestroysLast, if_neg (by rw [hop]; exact Bool.false_ne_true)] at hlast
      obtain ⟨w1, hw1, h1⟩ := h.op_ok hp none hop
      obtain ⟨w', hw', h'⟩ := Ran.known_ok ops h1 hp hfind hlast
      refine ⟨w', by rw [runOps, hw1, ok_bind, hw'], ?_⟩
      rw [List.any_cons, hop, Bool.false_or]
      exact h'
    | true =>
      rw [DestroysLast, if_pos hop] at hlast
      subst hlast
      obtain rfl := eq_destroy hop
      obtain ⟨w1, hw1, h1⟩ := h.destroy_free hp hfind
      refine ⟨w1, by rw [runOps, hw1, ok_bind, runOps], ?_⟩
      rw [List.any_cons, hop, Bool.true_or]
      exact h1

/-- **A callback that goes on after the destruction touches memory that was freed.** -/
theorem Ran.known_fault : ∀ (ops : List (UdpOp H)) {w : UdpWorld H},
    Ran w₀ p ep got false false w → p < w₀.uconns.length →
    w₀.socket.conns_.find Endpoint.lt ep = some p → ¬DestroysLast ops →
    w.runOps none p ops = .error .outOfBounds
  | [], _, _, _, _, hlast => absurd trivial hlast
  | op :: ops, w, h, hp, hfind, hlast => by
    cases hop : op.isDestroy with
    | false =>
      rw [DestroysLast, if_neg (by rw [hop]; exact Bool.false_ne_true)] at hlast
      obtain ⟨w1, hw1, h1⟩ := h.op_ok hp none hop
      rw [runOps, hw1, ok_bind]
      exact Ran.known_fault ops h1 hp hfind hlast
    | true =>
      rw [DestroysLast, if_pos hop] at hlast
      obtain ⟨op', ops', rfl⟩ := List.exists_cons_of_ne_nil hlast
      obtain rfl := eq_destroy hop
      obtain ⟨w1, hw1, h1⟩ := h.destroy_free hp hfind
      rw [runOps, hw1, ok_bind, runOps, runOp, h1.access_freed hp]
      rfl

/-! ## A datagram -/

theorem Ran.refl (hready : w.Ready) {o : UdpObject} (ho : w.uconns[p]? = some o)
    (hfreed : o.freed = false) (hserves : Serves o ep got) : Ran w p ep got false false w where
  ready := hready
  calls := rfl
  conns := rfl
  object := by
    obtain ⟨hp, rfl⟩ := List.getElem?_eq_some_iff.mp ho
    exact ⟨_, (List.set_getElem_self hp).symm, hfreed, hserves⟩

/-- The payload is appended, and the read callback starts. -/
theorem deliver_eq (hready : w.Ready) {o : UdpObject} (ho : w.uconns[p]? = some o)
    (hfreed : o.freed = false) (hserves : Serves o ep got) (held : Option Nat) (g : Datagram H) :
    ∃ w₀, w.deliver held p g = w₀.runOps held p g.ops ∧ Ran w₀ p ep (got ++ g.payload) false false w₀ ∧
      w₀.socket.conns_ = w.socket.conns_ ∧ w₀.calls = w.calls ++ [.read ep g.payload] ∧
      ∃ o', w₀.uconns = w.uconns.set p o' := by
  have hp : p < w.uconns.length := (List.getElem?_eq_some_iff.mp ho).1
  have haccess : w.access p = .ok o := by
    unfold access
    rw [ho]
    dsimp only
    rw [hfreed]
    rfl
  obtain ⟨readBuf, happend, husable, hcontents⟩ := hserves.usable.append_ok g.payload_ne
  unfold deliver
  rw [haccess, ok_bind, happend, ok_bind]
  dsimp only
  have hreader : (w.store p { o with uconn := { o.uconn with readBuf_ := readBuf } }
      ).socket.readEventCallback_ = true := hready.reader
  rw [if_pos hreader]
  refine ⟨_, rfl, ?_, rfl, ?_, _, rfl⟩
  · refine Ran.refl ⟨hready.socket, hready.chan, hready.acceptor, hready.reader⟩
      (List.getElem?_set_self hp) hfreed ⟨hserves.peer, husable, ?_⟩
    show o.taken ++ readBuf.contents = got ++ g.payload
    rw [hcontents, ← List.append_assoc, hserves.stream]
  · show w.calls ++ [.read o.uconn.peer_ g.payload] = _
    rw [hserves.peer]

/-- The connections that were freed stay as they are, and the one of the datagram may be one more. -/
theorem Demuxes.ended_ran {d : Demux} (h : Demuxes w d) {g : Datagram H} {w' : UdpWorld H} {p : Nat}
    {o : UdpObject} (hsame : ∀ q, q ≠ p → w.uconns[q]?.isSome → w'.uconns[q]? = w.uconns[q]?)
    (hlive : ∀ o, w.uconns[p]? = some o → o.freed = false)
    (hown : w'.uconns[p]? = some o ∧ o.freed = g.destroys ∧ Serves o g.peer (d.got g)) :
    ∃ ps : List Nat, ps.Nodup ∧ List.Forall₂ w'.Ended ps (d.next g).ended := by
  obtain ⟨ps, hnodup, hended⟩ := h.ended
  -- what was freed before is another object
  have hne : ∀ q c, w.Ended q c → q ≠ p ∧ w'.Ended q c := by
    rintro q c ⟨oq, hoq, hfreed, hserves⟩
    have hqp : q ≠ p := by
      rintro rfl
      exact absurd (hfreed.symm.trans (hlive oq hoq)) nofun
    refine ⟨hqp, oq, ?_, hfreed, hserves⟩
    rw [hsame q hqp (by rw [hoq]; rfl)]
    exact hoq
  have hended' : List.Forall₂ w'.Ended ps d.ended := hended.imp fun q c hq => (hne q c hq).2
  unfold Demux.next
  dsimp only
  split
  · next hdestroys =>
    obtain ⟨ho, hfreed, hserves⟩ := hown
    have hnew : p ∉ ps := by
      intro hmem
      obtain ⟨i, hi, hp⟩ := List.getElem_of_mem hmem
      have hq := (List.forall₂_iff_get.mp hended).2 i hi (hended.length_eq ▸ hi)
      exact (hne _ _ hq).1 hp
    refine ⟨ps ++ [p], List.nodup_append.mpr ⟨hnodup, List.nodup_singleton p, ?_⟩, ?_⟩
    · rintro q hq _ hp rfl
      exact hnew (List.mem_singleton.mp hp ▸ hq)
    · exact List.rel_append hended' (.cons ⟨o, ho, hfreed.trans hdestroys, hserves⟩ .nil)
  · exact ⟨ps, hnodup, hended'⟩

/-- The peers of other connections keep theirs. -/
theorem Demuxes.ran {d : Demux} (h : Demuxes w d) {g : Datagram H} {w' : UdpWorld H} {p : Nat} {o : UdpObject}
    (hready : w'.Ready)
    (hcalls : w'.calls = (d.next g).calls)
    (hconns : w'.socket.conns_.keys.Nodup)
    (hother : ∀ ep, ep ≠ g.peer →
      w'.socket.conns_.find Endpoint.lt ep = w.socket.conns_.find Endpoint.lt ep)
    (hsame : ∀ q, q ≠ p → w.uconns[q]?.isSome → w'.uconns[q]? = w.uconns[q]?)
    (hpeer : ∀ ep, w.socket.conns_.find Endpoint.lt ep = some p → ep = g.peer)
    (hlive : ∀ o, w.uconns[p]? = some o → o.freed = false)
    (hfind : w'.socket.conns_.find Endpoint.lt g.peer = if g.destroys then none else some p)
    (hown : w'.uconns[p]? = some o ∧ o.freed = g.destroys ∧ Serves o g.peer (d.got g)) :
    Demuxes w' (d.next g) where
  ready := hready
  keys := hconns
  absent := by
    intro ep hnone
    -- the peer of the datagram, and the others
    by_cases hep : ep = g.peer
    · subst hep
      have hnone : Function.update d.live g.peer _ g.peer = none := hnone
      rw [Function.update_self] at hnone
      split at hnone
      · next hdestroys => rw [hfind, if_pos hdestroys]
      · cases hnone
    · have hnone : Function.update d.live g.peer _ ep = none := hnone
      rw [Function.update_of_ne hep] at hnone
      rw [hother ep hep]
      exact h.absent ep hnone
  present := by
    intro ep got hsome
    by_cases hep : ep = g.peer
    · subst hep
      have hsome : Function.update d.live g.peer _ g.peer = some got := hsome
      rw [Function.update_self] at hsome
      split at hsome
      · cases hsome
      · next hkeeps =>
        cases hsome
        obtain ⟨ho, hfreed, hserves⟩ := hown
        exact ⟨p, o, by rw [hfind, if_neg hkeeps], ho, by simpa [hkeeps] using hfreed, hserves⟩
    · have hsome : Function.update d.live g.peer _ ep = some got := hsome
      rw [Function.update_of_ne hep] at hsome
      obtain ⟨q, oq, hq, hoq, hfreed, hserves⟩ := h.present ep got hsome
      -- an object has one peer
      have hqp : q ≠ p := by
        rintro rfl
        exact hep (hpeer ep hq)
      refine ⟨q, oq, by rw [hother ep hep]; exact hq, ?_, hfreed, hserves⟩
      rw [hsame q hqp (by rw [hoq]; rfl)]
      exact hoq
  ended := h.ended_ran hsame hlive hown
  calls := hcalls

/-- A peer has its own connection. -/
theorem Demuxes.find_peer {d : Demux} (h : Demuxes w d)
    (hfind : w.socket.conns_.find Endpoint.lt ep = some p) :
    ∃ got o, d.live ep = some got ∧ w.uconns[p]? = some o ∧ o.freed = false ∧ Serves o ep got := by
  cases hlive : d.live ep with
  | none =>
    rw [h.absent ep hlive] at hfind
    cases hfind
  | some got =>
    obtain ⟨q, o, hq, ho⟩ := h.present ep got hlive
    rw [hfind] at hq
    cases hq
    exact ⟨got, o, rfl, ho⟩

/-- The datagram of a peer that is connected. -/
theorem Demuxes.known {d : Demux} (h : Demuxes w d) {g : Datagram H} {got : Bytes}
    (hlive : d.live g.peer = some got) :
    (DestroysLast g.ops → ∃ w', w.recvfrom g = .ok w' ∧ Demuxes w' (d.next g)) ∧
      (¬DestroysLast g.ops → w.recvfrom g = .error .outOfBounds) := by
  obtain ⟨p, o, hfind, ho, hfreed, hserves⟩ := h.present g.peer got hlive
  have hp : p < w.uconns.length := (List.getElem?_eq_some_iff.mp ho).1
  obtain ⟨w₀, hdeliver, hran, hconns, hcalls, o₀, huconns⟩ := deliver_eq h.ready ho hfreed hserves none g
  have hp₀ : p < w₀.uconns.length := by
    rw [huconns, List.length_set]
    exact hp
  have hfind₀ : w₀.socket.conns_.find Endpoint.lt g.peer = some p := by
    rw [hconns]
    exact hfind
  -- the datagram goes to the object of its peer
  have hrecv : w.recvfrom g = w₀.runOps none p g.ops := by
    unfold recvfrom
    rw [hfind]
    exact hdeliver
  rw [hrecv]
  refine ⟨fun hlast => ?_, fun hnot => hran.known_fault g.ops hp₀ hfind₀ hnot⟩
  obtain ⟨w', hok, hran'⟩ := hran.known_ok g.ops hp₀ hfind₀ hlast
  obtain ⟨o', huconns', hfreed', hserves'⟩ := hran'.object
  have hconns' := hran'.conns
  rw [hconns] at hconns'
  refine ⟨w', hok, h.ran (p := p) (o := o') hran'.ready ?_ ?_ ?_ ?_ ?_ ?_ ?_ ?_⟩
  · rw [hran'.calls, hcalls, h.calls]
    unfold Demux.next
    rw [hlive]
    rfl
  · rw [hconns']
    split
    · exact KeyMap.nodup_erase h.keys g.peer
    · exact h.keys
  · intro ep hep
    rw [hconns']
    split
    · rw [KeyMap.find_erase separates_endpoint, if_neg (Ne.symm hep)]
    · rfl
  · intro q hqp _
    rw [huconns', huconns, List.set_set, List.getElem?_set_ne (Ne.symm hqp)]
  · intro ep hep
    obtain ⟨got', oq, -, hoq, -, hq⟩ := h.find_peer hep
    rw [ho] at hoq
    cases hoq
    exact hq.peer.symm.trans hserves.peer
  · intro oq hoq
    cases ho.symm.trans hoq
    exact hfreed
  · show _ = if g.ops.any UdpOp.isDestroy = true then none else some p
    rw [hconns']
    split
    · rw [KeyMap.find_erase separates_endpoint, if_pos rfl]
    · exact hfind
  · refine ⟨?_, hfreed', ?_⟩
    · rw [huconns', List.getElem?_set_self hp₀]
    · unfold Demux.got
      rw [hlive]
      exact hserves'

/-- At the end of the branch for a new peer the connection at `p` may be freed, and nothing else. -/
theorem release_frame (w : UdpWorld H) (p : Nat) : (w.release p).socket = w.socket ∧
    (w.release p).calls = w.calls ∧ ∀ q ≠ p, (w.release p).uconns[q]? = w.uconns[q]? := by
  unfold release
  split
  · exact ⟨rfl, rfl, fun _ _ => rfl⟩
  · exact ⟨rfl, rfl, fun q hq => List.getElem?_modify_ne _ _ (Ne.symm hq)⟩

/-- There a connection goes that `conns_` does not have. -/
theorem release_of_not_mem {p : Nat} {o : UdpObject} (h : ∀ e ∈ w.socket.conns_, e.2 ≠ p)
    (ho : w.uconns[p]? = some o) : (w.release p).uconns[p]? = some { o with freed := true } := by
  have hnone : ¬w.socket.conns_.any (fun e => e.2 = p) = true := fun hany => by
    obtain ⟨e, he, hp⟩ := List.any_eq_true.mp hany
    exact h e he (of_decide_eq_true hp)
  unfold release
  rw [if_neg hnone]
  show (w.uconns.modify p _)[p]? = _
  rw [List.getElem?_modify_eq, ho]
  rfl

/-- A connection that `conns_` has is not freed there. -/
theorem release_of_find {ep : Endpoint} {p : Nat} (h : w.socket.conns_.find Endpoint.lt ep = some p) :
    w.release p = w :=
  if_pos (List.any_eq_true.mpr ⟨(ep, p), KeyMap.mem_of_find separates_endpoint h, by simp⟩)

/-- A new peer gets a connection of its own in `conns_`, and the accept callback runs. -/
theorem Demuxes.accept {d : Demux} (h : Demuxes w d) {ep : Endpoint}
    (hnone : w.socket.conns_.find Endpoint.lt ep = none) :
    ∃ w1 : UdpWorld H, (w.makeConn ep).callback w.socket.acceptorCallback_ (.accept ep) = w1 ∧
      w1.socket.conns_ = w.socket.conns_.insert Endpoint.lt ep w.uconns.length ∧
      w1.uconns = w.uconns ++ [{ uconn := .new ep, freed := false, taken := [] }] ∧
      w1.calls = w.calls ++ [.accept ep] ∧ w1.Ready ∧ w1.socket.conns_.keys.Nodup ∧
      ∀ ep', w1.socket.conns_.find Endpoint.lt ep' =
        if ep = ep' then some w.uconns.length else w.socket.conns_.find Endpoint.lt ep' := by
  refine ⟨_, rfl, ?_⟩
  unfold callback
  rw [if_pos h.ready.acceptor]
  exact ⟨rfl, rfl, rfl, ⟨h.ready.socket, h.ready.chan, h.ready.acceptor, h.ready.reader⟩,
    KeyMap.nodup_insert separates_endpoint h.keys, KeyMap.find_insert separates_endpoint hnone⟩

/-- The connection of a new peer is freed exactly if the read callback has erased its entry. -/
theorem Demuxes.released {d : Demux} (h : Demuxes w d) {g : Datagram H} {w' : UdpWorld H} {o : UdpObject}
    (hnone : w.socket.conns_.find Endpoint.lt g.peer = none)
    (hconns : w'.socket.conns_ =
      if g.destroys then (w.socket.conns_.insert Endpoint.lt g.peer w.uconns.length).erase Endpoint.lt g.peer
      else w.socket.conns_.insert Endpoint.lt g.peer w.uconns.length)
    (ho : w'.uconns[w.uconns.length]? = some o) (hfreed : o.freed = false) :
    (w'.release w.uconns.length).uconns[w.uconns.length]? = some { o with freed := g.destroys } := by
  cases hdestroys : g.destroys with
  | true =>
    rw [if_pos hdestroys, KeyMap.insert_new hnone] at hconns
    refine release_of_not_mem (fun e he hlength => ?_) ho
    rw [hconns] at he
    obtain ⟨hmem, hkept⟩ := List.mem_filter.mp he
    rcases List.mem_append.mp hmem with hmem | hmem
    · obtain ⟨-, oe, -, hoe, -⟩ := h.find_peer (KeyMap.find_of_mem separates_endpoint h.keys hmem)
      exact absurd (List.getElem?_eq_some_iff.mp hoe).1 (by rw [hlength]; exact lt_irrefl _)
    · rw [List.mem_singleton.mp hmem, (separates_endpoint _ _).mpr rfl] at hkept
      cases hkept
  | false =>
    rw [if_neg (by rw [hdestroys]; exact Bool.false_ne_true)] at hconns
    have hfind : w'.socket.conns_.find Endpoint.lt g.peer = some w.uconns.length := by
      rw [hconns, KeyMap.find_insert separates_endpoint hnone, if_pos rfl]
    rw [release_of_find hfind, ho, ← hfreed]

/-- The datagram of a new peer. -/
theorem Demuxes.new {d : Demux} (h : Demuxes w d) {g : Datagram H} (hlive : d.live g.peer = none) :
    ∃ w', w.recvfrom g = .ok w' ∧ Demuxes w' (d.next g) := by
  have hnone := h.absent g.peer hlive
  obtain ⟨w1, hw1, hconns1, huconns1, hcalls1, hready1, hkeys1, hfind1⟩ := h.accept hnone
  have ho1 : w1.uconns[w.uconns.length]? = some { uconn := .new g.peer, freed := false, taken := [] } := by
    rw [huconns1, List.getElem?_append_right (le_refl _), Nat.sub_self]
    rfl
  have hserves1 : Serves { uconn := .new g.peer, freed := false, taken := [] } g.peer [] :=
    ⟨rfl, Buffer.usable_ofLength (Nat.succ_pos 1023), Buffer.contents_ofLength 1024⟩
  obtain ⟨w₀, hdeliver, hran, hconns, hcalls, o₀, huconns⟩ :=
    deliver_eq hready1 ho1 rfl hserves1 (some w.uconns.length) g
  have hp₀ : w.uconns.length < w₀.uconns.length := by
    rw [huconns, List.length_set, huconns1, List.length_append, List.length_singleton]
    exact Nat.lt_succ_self _
  have hfind₀ : w₀.socket.conns_.find Endpoint.lt g.peer = some w.uconns.length := by
    rw [hconns, hfind1, if_pos rfl]
  obtain ⟨w', hok, hran'⟩ := hran.held_ok g.ops hp₀ hfind₀
  obtain ⟨o', huconns', hfreed', hserves'⟩ := hran'.object
  have hconns' := hran'.conns
  rw [Bool.false_or, hconns] at hconns'
  refine ⟨w'.release w.uconns.length, ?_, ?_⟩
  · unfold recvfrom
    rw [hnone]
    dsimp only
    rw [hw1, hdeliver, hok]
    rfl
  obtain ⟨hsocket, hcalls', hothers⟩ := release_frame w' w.uconns.length
  have ho' : w'.uconns[w.uconns.length]? = some o' := by rw [huconns', List.getElem?_set_self hp₀]
  have hend := h.released hnone (hconns1 ▸ hconns') ho' hfreed'
  refine h.ran (p := w.uconns.length) (o := { o' with freed := g.destroys }) ?_ ?_ ?_ ?_ ?_ ?_ ?_ ?_ ?_
  · have hready' := hran'.ready
    refine ⟨?_, ?_, ?_, ?_⟩ <;> rw [hsocket]
    exacts [hready'.socket, hready'.chan, hready'.acceptor, hready'.reader]
  · rw [hcalls', hran'.calls, hcalls, hcalls1, h.calls]
    unfold Demux.next
    rw [hlive]
    rfl
  · rw [hsocket, hconns']
    split
    · exact KeyMap.nodup_erase hkeys1 g.peer
    · exact hkeys1
  · intro ep hep
    rw [hsocket, hconns']
    split
    · rw [KeyMap.find_erase separates_endpoint, if_neg (Ne.symm hep), hfind1, if_neg (Ne.symm hep)]
    · rw [hfind1, if_neg (Ne.symm hep)]
  · intro q hqp hq
    have hlt : q < w.uconns.length := (List.getElem?_eq_some_iff.mp (Option.isSome_iff_exists.mp hq).choose_spec).1
    rw [hothers q hqp, huconns', huconns, List.set_set, List.getElem?_set_ne (Ne.symm hqp),
      huconns1, List.getElem?_append_left hlt]
  · intro ep hep
    obtain ⟨got', oq, -, hoq, -, -⟩ := h.find_peer hep
    have hlt := (List.getElem?_eq_some_iff.mp hoq).1
    exact absurd hlt (lt_irrefl _)
  · intro oq hoq
    exact absurd (List.getElem?_eq_some_iff.mp hoq).1 (lt_irrefl _)
  · show _ = if g.ops.any UdpOp.isDestroy = true then none else some w.uconns.length
    rw [hsocket, hconns']
    split
    · rw [KeyMap.find_erase separates_endpoint, if_pos rfl]
    · rw [hfind1, if_pos rfl]
  · refine ⟨hend, rfl, hserves'.peer, hserves'.usable, ?_⟩
    unfold Demux.got
    rw [hlive]
    exact hserves'.stream

/-! ## Runs -/

theorem handleReadEvent_append : ∀ (gs gs' : List (Datagram H)) (w : UdpWorld H),
    w.handleReadEvent (gs ++ gs') = (w.handleReadEvent gs >>= fun w => w.handleReadEvent gs')
  | [], _, _ => rfl
  | g :: gs, gs', w => by
    rw [List.cons_append, handleReadEvent, handleReadEvent]
    by_cases hsocket : w.socket.socket_ = true
    · rw [guardOr_pos hsocket, ok_bind, ok_bind]
      cases w.recvfrom g with
      | error f => rfl
      | ok w' => exact handleReadEvent_append gs gs' w'
    · rw [guardOr_neg hsocket]
      rfl

/-- The calls of `handleReadEvent` are as good as one with all their datagrams. -/
theorem run_handleReadEvent : ∀ (gss : List (List (Datagram H))) (w : UdpWorld H),
    run handleReadEvent w gss = w.handleReadEvent gss.flatten
  | [], _ => rfl
  | gs :: gss, w => by
    rw [run_cons, List.flatten_cons, handleReadEvent_append]
    exact congrArg _ (funext fun w' => run_handleReadEvent gss w')

/-- **The datagrams of all peers are told apart exactly if they are proper.** -/
theorem Demuxes.handleReadEvent_iff : ∀ (gs : List (Datagram H)) {w : UdpWorld H} {d : Demux},
    Demuxes w d →
    ((∃ w', w.handleReadEvent gs = .ok w' ∧ Demuxes w' (gs.foldl Demux.next d)) ↔
      Proper (fun ep => (d.live ep).isSome) gs)
  | [], w, d, h => ⟨fun _ => trivial, fun _ => ⟨w, rfl, h⟩⟩
  | g :: gs, w, d, h => by
    have hnext : (fun ep => ((d.next g).live ep).isSome)
        = Function.update (fun ep => (d.live ep).isSome) g.peer (!g.destroys) := by
      funext ep
      by_cases hep : ep = g.peer
      · subst hep
        show (Function.update d.live g.peer _ g.peer).isSome = _
        rw [Function.update_self, Function.update_self]
        cases g.destroys <;> rfl
      · show (Function.update d.live g.peer _ ep).isSome = _
        rw [Function.update_of_ne hep, Function.update_of_ne hep]
    rw [Proper, ← hnext, handleReadEvent, guardOr_pos h.ready.socket, ok_bind, List.foldl_cons]
    have hrest : ∀ {w'}, w.recvfrom g = .ok w' → Demuxes w' (d.next g) →
        ((∃ w'', (w.recvfrom g >>= fun w => w.handleReadEvent gs) = .ok w'' ∧
            Demuxes w'' (gs.foldl Demux.next (d.next g))) ↔
          Proper (fun ep => ((d.next g).live ep).isSome) gs) := by
      intro w' hok h'
      rw [hok, ok_bind]
      exact handleReadEvent_iff gs h'
    cases hlive : d.live g.peer with
    | none =>
      obtain ⟨w', hok, h'⟩ := h.new hlive
      rw [hrest hok h', Option.isSome_none]
      exact ⟨fun hproper => ⟨nofun, hproper⟩, And.right⟩
    | some got =>
      obtain ⟨hlast, hfault⟩ := h.known hlive
      by_cases hdestroys : DestroysLast g.ops
      · obtain ⟨w', hok, h'⟩ := hlast hdestroys
        rw [hrest hok h']
        exact ⟨fun hproper => ⟨fun _ => hdestroys, hproper⟩, And.right⟩
      · rw [hfault hdestroys]
        exact ⟨fun ⟨_, herror, _⟩ => (nomatch herror), fun ⟨hall, _⟩ => absurd (hall rfl) hdestroys⟩

/--
**UDP demultiplexing.** Calls of `handleReadEvent` on a new socket give every peer its own connection,
run the callbacks that should run in their order, and keep the bytes of each peer in its buffer,
exactly if no read callback on a connection that was known before goes on after it has destroyed it.
-/
theorem udp_demux_iff (poller_ : Chooser) (gss : List (List (Datagram H))) :
    (∃ w, run handleReadEvent (started poller_ : UdpWorld H) gss = .ok w ∧
      Demuxes w (gss.flatten.foldl Demux.next .init)) ↔ Proper (fun _ => false) gss.flatten := by
  rw [run_handleReadEvent]
  exact (demuxes_started poller_).handleReadEvent_iff gss.flatten

/-- A datagram of one byte, from a peer that is always the same. -/
def oneByte (ops : List (UdpOp Unit)) : Datagram Unit where
  peer := { port_ := 80, addr_ := 1 }
  payload := [7]
  ops := ops
  payload_ne := List.cons_ne_nil _ _
  payload_le := Nat.le_add_left 1 4095

/--
A callback that destroys its connection and then looks at it works for the first datagram of a peer,
and touches memory that was freed for the second.
-/
theorem udp_demux_fault :
    (∃ w, run handleReadEvent (started .epoll) [[oneByte [.destroy, .retrieve]]] = .ok w ∧
      Demuxes w (Demux.init.next (oneByte [.destroy, .retrieve]))) ∧
    run handleReadEvent (started .epoll) [[oneByte []], [oneByte [.destroy, .retrieve]]] = .error .outOfBounds := by
  constructor
  · have hproper : Proper (fun _ => false) [oneByte [.destroy, .retrieve]] := ⟨nofun, trivial⟩
    exact ((demuxes_started .epoll).handleReadEvent_iff [oneByte [.destroy, .retrieve]]).mpr hproper |>.imp
      fun w hw => ⟨by rw [run_handleReadEvent]; exact hw.1, hw.2⟩
  · decide +kernel

end UdpWorld

end Liby
