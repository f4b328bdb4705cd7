import Liby.Infra.Machine
import Liby.Net.ReadPath

/-!
# The read path delivers a stream

What the consumer of `conn.read()` does with it, and what `handleReadEvent` finds afterwards: the
bytes that were taken and those that are still there are the bytes that were received, in order.

`ByteStream` says what the consumer's operations are for: each takes bytes off the front of those that
have come. The connection follows it.
-/

namespace Liby

open Infra

variable {H : Type} {cb : Callbacks Bytes H}

/-- An operation of the consumer on `conn.read()`. -/
inductive Consume (H : Type) where
  | retrieve
  | retrieveLength (len : Nat)
  | retriveveAsString (len : Nat)
  /-- `send(conn.read(), handler)`. -/
  | send (handler : Option H)
  deriving DecidableEq, Repr

/-- The state of the user is the bytes that were taken so far. -/
def Consume.run (l : Link Bytes H) : Consume H → Exec (Link Bytes H)
  | .retrieve =>
    .ok { l with
      conn := { l.conn with readBuf_ := l.conn.readBuf_.clear }
      world := l.world ++ l.conn.readBuf_.contents }
  | .retrieveLength len => do
    let readBuf ← l.conn.readBuf_.retrieve len
    return { l with
      conn := { l.conn with readBuf_ := readBuf }
      world := l.world ++ l.conn.readBuf_.contents.take len }
  | .retriveveAsString len => do
    -- the buffer is not to be empty
    guardOr .environment (l.conn.readBuf_.empty = false)
    let (ret, readBuf) ← l.conn.readBuf_.retriveveAsString len
    return { l with
      conn := { l.conn with readBuf_ := readBuf }
      world := l.world ++ ret }
  | .send handler => do
    let (conn, readBuf) ← l.conn.sendBuffer l.conn.readBuf_ handler
    return { l with
      conn := { conn with readBuf_ := readBuf }
      world := l.world ++ l.conn.readBuf_.contents
      sent := l.sent ++ [{ payload := l.conn.readBuf_.contents, tag := handler }] }

/-- The operations of a callback, one after the other. -/
def Consume.runAll (l : Link Bytes H) : List (Consume H) → Exec (Link Bytes H)
  | [] => .ok l
  | op :: ops => do
    let l ← op.run l
    runAll l ops

/-- What an operation takes of the bytes that are there. -/
def Consume.takes (held : Bytes) : Consume H → Bytes
  | .retrieve => held
  | .retrieveLength len => held.take len
  | .retriveveAsString len => held.take (Buffer.taken held len)
  | .send _ => held

/-- The bytes that the consumer has taken, and those that it has not. -/
structure ByteStream where
  taken : Bytes
  held : Bytes
  deriving DecidableEq, Repr

/-- An operation takes its bytes off the front. -/
def Consume.apply (s : ByteStream) (op : Consume H) : ByteStream where
  taken := s.taken ++ op.takes s.held
  held := s.held.drop (op.takes s.held).length

/-- An event of a stream: bytes come and the read callback runs, or the consumer comes back to them. -/
inductive StreamEvent (H : Type) where
  | read (bytes : Bytes) (ops : List (Consume H))
  | consume (op : Consume H)
  deriving DecidableEq, Repr

/-- What an event does. -/
def StreamEvent.step (cb : Callbacks Bytes H) (l : Link Bytes H) : StreamEvent H → Exec (Link Bytes H)
  | .read bytes ops => l.handleReadEvent cb (fun l => Consume.runAll l ops) (.received bytes)
  | .consume op => op.run l

/-- What an event is for. -/
def StreamEvent.apply (s : ByteStream) : StreamEvent H → ByteStream
  | .read bytes ops => ops.foldl Consume.apply { s with held := s.held ++ bytes }
  | .consume op => op.apply s

/-- The bytes that come in some events. -/
def received (es : List (StreamEvent H)) : Bytes :=
  es.flatMap fun
    | .read bytes _ => bytes
    | .consume _ => []

/-- A connection that reads, with a block for `readv` and for the buffer that `send` swaps in. -/
structure Connection.Receives (c : Connection H) : Prop where
  readable : c.readBuf_.Readable
  capacity : 0 < c.readBuf_.capacity_
  socket : c.socket_ = true
  chan : c.chan_.isSome
  onRead : c.readEventCallback_ = true

namespace Buffer

variable {b b' : Buffer}

theorem Wf.capacity_pos (h : b.Wf) (hne : b.contents ≠ []) : 0 < b.capacity_ := by
  have hlen := h.length_contents
  have hpos := List.length_pos_iff.mpr hne
  have := h.right_le
  omega

theorem Wf.retrieve_capacity (h : b.Wf) {len : Nat} (hb : b.retrieve len = .ok b') :
    b'.capacity_ = b.capacity_ := by
  obtain ⟨b1, hb1, -, -, hcapacity⟩ := h.retrieve_ok len
  rw [hb] at hb1
  cases hb1
  exact hcapacity

/-- `retriveveAsString` ends in a `retrieve`. -/
theorem retriveveAsString_retrieve {len : Int} {ret : Bytes} (h : b.retriveveAsString len = .ok (ret, b')) :
    ∃ n : Nat, b.retrieve n = .ok b' := by
  have htake : ∀ {n : Nat}, b.takeString n = .ok (ret, b') → b.retrieve n = .ok b' := by
    intro n hn
    obtain ⟨⟨block, left, right⟩, -, hn⟩ := bind_eq_ok.mp hn
    obtain ⟨bytes, -, hn⟩ := bind_eq_ok.mp hn
    obtain ⟨b1, hb1, hn⟩ := bind_eq_ok.mp hn
    cases hn
    exact hb1
  obtain ⟨u, -, h⟩ := bind_eq_ok.mp h
  obtain ⟨size, -, h⟩ := bind_eq_ok.mp h
  split at h
  · split at h
    · cases h
    · exact ⟨_, htake h⟩
  · exact ⟨_, htake h⟩

/-- A buffer that can be appended to, taken from and swapped out. -/
structure Usable (b : Buffer) : Prop where
  readable : b.Readable
  capacity : 0 < b.capacity_

theorem usable_ofLength {length : Nat} (h : 0 < length) : (Buffer.ofLength length).Usable :=
  ⟨readable_ofLength length, h⟩

@[simp] theorem contents_ofLength (length : Nat) : (Buffer.ofLength length).contents = [] := by
  simp [contents, ofLength, Block.slice]

theorem Usable.append_ok (h : b.Usable) {buf : Bytes} (hne : buf ≠ []) :
    ∃ b', b.append buf = .ok b' ∧ b'.Usable ∧ b'.contents = b.contents ++ buf := by
  obtain ⟨b', hok, hwf, hcontents⟩ := h.readable.wf.append_ok hne
  have hfull : b'.contents ≠ [] := by
    rw [hcontents]
    exact List.append_ne_nil_of_right_ne_nil _ hne
  exact ⟨b', hok, ⟨hwf.readable hfull, hwf.capacity_pos hfull⟩, hcontents⟩

/-! What is taken out of a usable buffer, and what is left in it, is what was there. -/

theorem Usable.clear_ok (h : b.Usable) :
    b.clear.Usable ∧ b.contents ++ b.clear.contents = b.contents := by
  obtain ⟨hwf, hnil⟩ := h.readable.wf.clear_ok
  exact ⟨⟨⟨hwf, h.readable.block⟩, h.capacity⟩, by rw [hnil, List.append_nil]⟩

theorem Usable.retrieve_ok (h : b.Usable) (len : Nat) : ∃ b', b.retrieve len = .ok b' ∧
    b'.Usable ∧ b.contents.take len ++ b'.contents = b.contents := by
  obtain ⟨b', hok, hreadable, hcontents⟩ := h.readable.retrieve_ok len
  refine ⟨b', hok, ⟨hreadable, ?_⟩, by rw [hcontents, List.take_append_drop]⟩
  rw [h.readable.wf.retrieve_capacity hok]
  exact h.capacity

theorem Usable.retriveveAsString_ok (h : b.Usable) (hne : b.contents ≠ []) (len : Nat) :
    ∃ b', b.retriveveAsString len = .ok (b.contents.take (taken b.contents len), b') ∧ b'.Usable ∧
      b.contents.take (taken b.contents len) ++ b'.contents = b.contents := by
  obtain ⟨b', hok, hwf, hcontents⟩ := h.readable.wf.retriveveAsString_ok hne (Int.natCast_nonneg len)
  obtain ⟨n, hretrieve⟩ := retriveveAsString_retrieve hok
  refine ⟨b', hok, ⟨⟨hwf, ?_⟩, ?_⟩, by rw [hcontents, List.take_append_drop]⟩
  · rw [retrieve_buffer hretrieve]
    exact h.readable.block
  · rw [h.readable.wf.retrieve_capacity hretrieve]
    exact h.capacity

end Buffer

/-! ## The stream -/

theorem drop_of_append_eq {front rest all : Bytes} (h : front ++ rest = all) :
    all.drop front.length = rest := by
  subst h
  exact List.drop_left

theorem Consume.takes_prefix (op : Consume H) (held : Bytes) : op.takes held <+: held := by
  cases op with
  | retrieve | send => exact List.prefix_refl held
  | retrieveLength | retriveveAsString => exact List.take_prefix _ held

/-- An operation moves bytes from one side to the other. -/
theorem Consume.apply_total (op : Consume H) (s : ByteStream) :
    (op.apply s).taken ++ (op.apply s).held = s.taken ++ s.held := by
  obtain ⟨rest, hrest⟩ := op.takes_prefix s.held
  have hheld : (op.apply s).held = rest := drop_of_append_eq hrest
  show s.taken ++ op.takes s.held ++ (op.apply s).held = s.taken ++ s.held
  rw [hheld, List.append_assoc, hrest]

theorem Consume.foldl_total (ops : List (Consume H)) (s : ByteStream) :
    (ops.foldl Consume.apply s).taken ++ (ops.foldl Consume.apply s).held = s.taken ++ s.held := by
  induction ops generalizing s with
  | nil => rfl
  | cons op ops ih => rw [List.foldl_cons, ih, op.apply_total]

/-- **What was taken and what is held is what has come**, in order. -/
theorem ByteStream.total (es : List (StreamEvent H)) (s : ByteStream) :
    (es.foldl StreamEvent.apply s).taken ++ (es.foldl StreamEvent.apply s).held
      = s.taken ++ s.held ++ received es := by
  induction es generalizing s with
  | nil => simp [received]
  | cons e es ih =>
    rw [List.foldl_cons, ih]
    cases e with
    | read bytes ops =>
      have hall : received (.read bytes ops :: es) = bytes ++ received es := rfl
      rw [hall, StreamEvent.apply, Consume.foldl_total, ← List.append_assoc, ← List.append_assoc]
    | consume op =>
      have hall : received (.consume op :: es) = received es := rfl
      rw [hall, StreamEvent.apply, op.apply_total]

/-! ## The connection follows the stream -/

/-- A connection that reads, of which `s` tells what was taken and what is there. -/
structure Follows (s : ByteStream) (l : Link Bytes H) : Prop where
  receives : l.conn.Receives
  taken : l.world = s.taken
  held : l.conn.readBuf_.contents = s.held

theorem follows_accepted : Follows ⟨[], []⟩ (Link.start Connection.accepted [] : Link Bytes H) where
  receives := {
    readable := Buffer.readable_ofLength 1024
    capacity := Nat.succ_pos 1023
    socket := rfl
    chan := rfl
    onRead := rfl }
  taken := rfl
  held := rfl

variable {s : ByteStream} {l : Link Bytes H}

theorem Follows.usable (h : Follows s l) : l.conn.readBuf_.Usable :=
  ⟨h.receives.readable, h.receives.capacity⟩

/-- The buffer changes to a part of it, and the rest was taken. -/
theorem Follows.take (h : Follows s l) (op : Consume H) {readBuf : Buffer} (husable : readBuf.Usable)
    (hcontents : op.takes l.conn.readBuf_.contents ++ readBuf.contents = l.conn.readBuf_.contents) :
    Follows (op.apply s) { l with
      conn := { l.conn with readBuf_ := readBuf }
      world := l.world ++ op.takes l.conn.readBuf_.contents } where
  receives := {
    readable := husable.readable
    capacity := husable.capacity
    socket := h.receives.socket
    chan := h.receives.chan
    onRead := h.receives.onRead }
  taken := by
    show l.world ++ op.takes l.conn.readBuf_.contents = s.taken ++ op.takes s.held
    rw [h.taken, h.held]
  held := by
    rw [h.held] at hcontents
    exact (drop_of_append_eq hcontents).symm

/-- `send` swaps in a block of the same capacity. -/
theorem Follows.send (h : Follows s l) (handler : Option H) :
    ∃ l', Consume.run l (.send handler) = .ok l' ∧ Follows (Consume.apply s (.send handler)) l' := by
  obtain ⟨ch, hch⟩ := Option.isSome_iff_exists.mp h.receives.chan
  have hguard : 0 < l.conn.readBuf_.capacity_ ∧ l.conn.readBuf_.leftIndex_ ≤ l.conn.readBuf_.rightIndex_ :=
    ⟨h.receives.capacity, h.receives.readable.wf.left_le⟩
  unfold Consume.run Connection.sendBuffer Connection.emplace Connection.enableWrit Connection.channel
  rw [guardOr_pos hguard]
  dsimp only [ok_bind]
  rw [hch]
  refine ⟨_, rfl, ?_, ?_, ?_⟩
  · exact ⟨Buffer.readable_ofLength _, h.receives.capacity, h.receives.socket, rfl, h.receives.onRead⟩
  · show l.world ++ l.conn.readBuf_.contents = s.taken ++ s.held
    rw [h.taken, h.held]
  · show (Buffer.ofLength _).contents = s.held.drop s.held.length
    rw [Buffer.contents_ofLength, List.drop_length]

/-- **An operation of the consumer takes its bytes**, and no others. -/
theorem Follows.consume (h : Follows s l) (op : Consume H) :
    Guarantees (Follows (op.apply s)) (op.run l) := by
  have hwf := h.receives.readable.wf
  cases op with
  | retrieve =>
    obtain ⟨husable, hcontents⟩ := h.usable.clear_ok
    exact h.take .retrieve husable hcontents
  | retrieveLength len =>
    obtain ⟨readBuf, hok, husable, hcontents⟩ := h.usable.retrieve_ok len
    rw [Consume.run, hok, ok_bind]
    exact h.take (.retrieveLength len) husable hcontents
  | retriveveAsString len =>
    refine Guarantees.guard fun hfull => ?_
    have hne : l.conn.readBuf_.contents ≠ [] := by
      rw [Ne, ← hwf.empty_iff, hfull]
      exact Bool.false_ne_true
    obtain ⟨readBuf, hok, husable, hcontents⟩ := h.usable.retriveveAsString_ok hne len
    rw [hok]
    exact h.take (.retriveveAsString len) husable hcontents
  | send handler =>
    obtain ⟨l', hok, hl'⟩ := h.send handler
    rw [hok]
    exact hl'

theorem Follows.consumeAll : ∀ (ops : List (Consume H)) {s : ByteStream} {l : Link Bytes H}, Follows s l →
    Guarantees (Follows (ops.foldl Consume.apply s)) (Consume.runAll l ops)
  | [], _, _, h => h
  | op :: ops, _, _, h => (h.consume op).bind fun _ h' => h'.consumeAll ops

/-- **A read event puts its bytes at the end of the stream**, and finds a block to read into. -/
theorem Follows.read (h : Follows s l) (bytes : Bytes) (ops : List (Consume H)) :
    Guarantees (Follows (StreamEvent.apply s (.read bytes ops)))
      (StreamEvent.step cb l (.read bytes ops)) := by
  unfold StreamEvent.step Link.handleReadEvent
  dsimp only
  rw [h.receives.readable.availbleSize_eq, ok_bind, guardOr_pos h.receives.socket, ok_bind]
  refine (Connection.receive_ok h.receives.readable bytes).bind fun conn hconn => ?_
  obtain ⟨hne, buffer, rfl, hreadable, hcontents⟩ := hconn
  have hl1 : Follows { s with held := s.held ++ bytes }
      { l with conn := { l.conn with readBuf_ := buffer } } := {
    receives := {
      readable := hreadable
      capacity := hreadable.wf.capacity_pos (by rw [hcontents]; simp [hne])
      socket := h.receives.socket
      chan := h.receives.chan
      onRead := h.receives.onRead }
    taken := h.taken
    held := by rw [hcontents, h.held] }
  dsimp only
  rw [if_pos h.receives.onRead]
  exact hl1.consumeAll ops

theorem Follows.step (h : Follows s l) (e : StreamEvent H) :
    Guarantees (Follows (e.apply s)) (e.step cb l) := by
  cases e with
  | read bytes ops => exact h.read bytes ops
  | consume op => exact h.consume op

theorem Follows.run : ∀ (es : List (StreamEvent H)) {s : ByteStream} {l : Link Bytes H}, Follows s l →
    Guarantees (Follows (es.foldl StreamEvent.apply s)) (run (StreamEvent.step cb) l es)
  | [], _, _, h => h
  | e :: es, _, _, h => (h.step e).bind fun _ h' => h'.run es

/--
**The read path delivers a stream**: after any events of a connection, what its consumer has taken
and what `readBuf_` holds are the bytes received, and there is a block for the next `readv`. Each
operation has taken what it is for. Nothing faults but what is not to be asked: more bytes than `readv`
has room for, or a string of an empty buffer.
-/
theorem read_path_keeps_stream (cb : Callbacks Bytes H) (es : List (StreamEvent H)) :
    Guarantees
      (fun l => l.world ++ l.conn.readBuf_.contents = received es ∧ l.conn.readBuf_.buffer_.isSome ∧
        l.conn.readBuf_.leftIndex_ ≤ l.conn.readBuf_.rightIndex_ ∧
        ⟨l.world, l.conn.readBuf_.contents⟩ = es.foldl StreamEvent.apply ⟨[], []⟩)
      (run (StreamEvent.step cb) (Link.start Connection.accepted []) es) := by
  have hrun : Guarantees (Follows (es.foldl StreamEvent.apply ⟨[], []⟩))
      (run (StreamEvent.step cb) (Link.start Connection.accepted []) es) :=
    Follows.run es follows_accepted
  refine hrun.imp_ok fun l _ hl => ⟨?_, hl.receives.readable.block, hl.receives.readable.wf.left_le, ?_⟩
  · rw [hl.taken, hl.held, ByteStream.total]
    rfl
  · rw [hl.taken, hl.held]

/-- Two reads, with every operation of the consumer. -/
def everyConsume : List (StreamEvent Unit) :=
  [.read [1, 2, 3, 4] [.retrieveLength 1], .consume (.retriveveAsString 1), .consume (.send none),
    .read [5, 6] [], .consume .retrieve, .read [7] []]

/-- Handlers that do nothing. -/
def quiet : Callbacks Bytes Unit where
  complete := fun w _ => (w, [])
  onErro := fun w => (w, [])

/-- All but the last byte are taken, and it is held. -/
theorem read_path_keeps_stream_every :
    ∃ l, run (StreamEvent.step quiet)
        (Link.start Connection.accepted []) everyConsume = .ok l ∧
      l.world = [1, 2, 3, 4, 5, 6] ∧ l.conn.readBuf_.contents = [7] := by
  have hruns : (run (StreamEvent.step quiet)
      (Link.start Connection.accepted []) everyConsume).toOption.map (fun _ => ()) = some () := by
    decide +kernel
  obtain ⟨l, hl, -⟩ := ok_of_toOption_map hruns
  have hall : everyConsume.foldl StreamEvent.apply ⟨[], []⟩ = ⟨[1, 2, 3, 4, 5, 6], [7]⟩ := by decide
  generalize everyConsume = es at hl hall ⊢
  have hstream := read_path_keeps_stream quiet es
  rw [hl, guarantees_ok, hall, ByteStream.mk.injEq] at hstream
  exact ⟨l, hl, hstream.2.2.2⟩

end Liby
