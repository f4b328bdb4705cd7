import Liby.Net.ReadStream
import Liby.Net.WriteFailure
import Liby.Net.WriteFrame

/-!
# Callbacks that take all that was read

The read callback of a relay, or of a server that answers, takes all that was read: between two events the
read buffer of its connection is empty. Where it reaches other connections too, an event of the connection
is run on a `Link` whose world they are (`Link.within`), and `Up` and `Down` are what is known of each of
them between two events.
-/

namespace Liby

open Infra Outbox

variable {σ H : Type} {cb : Callbacks σ H} {l : Link σ H} {J K : History σ H}

/-- The bytes of an answer to `readv`. -/
def ReadAnswer.bytes : ReadAnswer → Bytes
  | .received bytes => bytes
  | .again | .closed | .failed => []

namespace Connection

/-- The read callback is there, and has taken all that was read. -/
structure Taken (c : Connection H) : Prop where
  usable : c.readBuf_.Usable
  empty : c.readBuf_.contents = []
  reads : c.Reads

theorem taken_accepted : (accepted : Connection H).Taken where
  usable := Buffer.usable_ofLength (Nat.succ_pos 1023)
  empty := Buffer.contents_ofLength 1024
  reads := reads_accepted

variable {c c' : Connection H}

theorem Taken.still (h : c.Taken) (hstill : c.Still c') : c'.Taken where
  usable := by
    rw [hstill.readBuf]
    exact h.usable
  empty := by
    rw [hstill.readBuf]
    exact h.empty
  reads := hstill.reads h.reads

/-- `send` leaves the buffer that it was given empty. -/
theorem Taken.swapped {buf : Buffer} (husable : buf.Usable) (hreads : c.Reads) :
    Taken { c with readBuf_ := .ofLength buf.capacity_ } where
  usable := Buffer.usable_ofLength husable.capacity
  empty := Buffer.contents_ofLength _
  reads := hreads

/-- The buffer that the caller of `send` is left with. -/
theorem sendBuffer_of_call {buf : Buffer} {handler : Option H}
    (h : c.call (.sendBuffer buf handler) = .ok c') :
    c.sendBuffer buf handler = .ok (c', .ofLength buf.capacity_) := by
  obtain ⟨⟨c1, rest⟩, hsend, h⟩ := bind_eq_ok.mp h
  cases h
  rw [hsend]
  obtain ⟨u, -, hsend⟩ := bind_eq_ok.mp hsend
  obtain ⟨c2, -, hsend⟩ := bind_eq_ok.mp hsend
  cases hsend
  rfl

end Connection

namespace Link

/-- `send` of a buffer that is not empty, on an open connection. -/
theorem Delivered.sendBuffer_ok (h : Delivered J l) {buf : Buffer} (husable : buf.Usable)
    (hne : buf.contents ≠ []) (handler : Option H)
    (huser : K l.world (l.sent ++ [{ payload := buf.contents, tag := handler }]) l.ran l.conn.nextTicks) :
    ∃ c, l.conn.sendBuffer buf handler = .ok (c, .ofLength buf.capacity_) ∧
      Delivered K { l with
        conn := c, sent := l.sent ++ [{ payload := buf.contents, tag := handler }] } ∧
      l.conn.Still c ∧ ∀ called, l.conn.Announces called → c.Announces called := by
  obtain ⟨l', hl', hdelivered, -⟩ :=
    h.call_ok (x := .sendBuffer buf handler) ⟨husable.readable.wf, hne⟩ (K := K) huser
  obtain ⟨c, hc, hl'⟩ := bind_eq_ok.mp hl'
  cases hl'
  exact ⟨c, Connection.sendBuffer_of_call hc, hdelivered, Connection.still_call hc,
    fun _ hcalled => hcalled.call hc⟩

/-- **What a read event comes to**, where the callback has taken all that was read before: nothing, an error,
or the callback with the bytes that have come. -/
theorem handleReadEvent_ok {P : Link σ H → Prop} {onRead : Link σ H → Exec (Link σ H)} {a : ReadAnswer}
    (htaken : l.conn.Taken) (halive : l.conn.destroy_ = false) (hsocket : l.conn.socket_ = true)
    (hagain : a.bytes = [] → P l) (herro : a.bytes = [] → Guarantees P (l.handleErroEvent cb))
    (hread : ∀ buffer : Buffer, buffer.Usable → buffer.contents = a.bytes → a.bytes ≠ [] →
      Guarantees P (onRead { l with conn := { l.conn with readBuf_ := buffer } })) :
    Guarantees P (l.handleReadEvent cb onRead a) := by
  unfold handleReadEvent
  rw [htaken.usable.readable.availbleSize_eq, ok_bind, guardOr_pos hsocket, ok_bind]
  cases a with
  | again => exact hagain rfl
  | closed => exact herro rfl
  | failed => exact herro rfl
  | received bytes =>
    refine (Connection.receive_ok htaken.usable.readable bytes).bind fun conn hconn => ?_
    obtain ⟨hne, buffer, rfl, hreadable, hcontents⟩ := hconn
    rw [htaken.empty, List.nil_append] at hcontents
    have hcapacity := hreadable.wf.capacity_pos (by rw [hcontents]; exact hne)
    dsimp only
    rw [if_pos (htaken.reads halive)]
    exact hread buffer ⟨hreadable, hcapacity⟩ hcontents hne

end Link

/-! ## What an event leaves as it was -/

namespace Connection

/-- A connection that is not destroyed has the read interest on. -/
def Listens (c : Connection H) : Prop :=
  c.destroy_ = false → ∃ ch, c.chan_ = some ch ∧ ch.readable_ = true ∧ ch.polledIn = true

variable {c c' : Connection H}

theorem Listens.sendBuffer (h : c.Listens) {buf rest : Buffer} {handler : Option H}
    (hsend : c.sendBuffer buf handler = .ok (c', rest)) : c'.Listens := by
  obtain ⟨-, -, hsend⟩ := bind_eq_ok.mp hsend
  obtain ⟨c1, hemplace, hsend⟩ := bind_eq_ok.mp hsend
  cases hsend
  obtain ⟨ch, hch, rfl⟩ := emplace_eq_ok hemplace
  intro halive
  obtain ⟨ch', hch', hreadable, -⟩ := h halive
  cases hch.symm.trans hch'
  exact ⟨_, rfl, hreadable, hreadable⟩

/-- `readv` puts what it gives into the read buffer. -/
theorem receive_eq_ok {bytes : Bytes} (h : c.receive bytes = .ok c') :
    ∃ readBuf, c' = { c with readBuf_ := readBuf } := by
  obtain ⟨availble, -, h⟩ := bind_eq_ok.mp h
  obtain ⟨-, -, h⟩ := bind_eq_ok.mp h
  obtain ⟨buffer, -, h⟩ := bind_eq_ok.mp h
  split at h
  · obtain ⟨buffer1, -, h⟩ := bind_eq_ok.mp h
    obtain ⟨buffer2, -, h⟩ := bind_eq_ok.mp h
    cases h
    exact ⟨_, rfl⟩
  · obtain ⟨buffer1, -, h⟩ := bind_eq_ok.mp h
    cases h
    exact ⟨_, rfl⟩

end Connection

namespace Link

/-- What was on the wire is there, and the read interest stays on. -/
structure Advances (l l' : Link σ H) : Prop where
  wire : l.wire <+: l'.wire
  listens : l.conn.Listens → l'.conn.Listens

theorem Advances.refl (l : Link σ H) : Advances l l := ⟨List.prefix_rfl, id⟩

theorem Advances.trans {l l' l'' : Link σ H} (h : Advances l l') (h' : Advances l' l'') : Advances l l'' :=
  ⟨h.wire.trans h'.wire, h'.listens ∘ h.listens⟩

variable {l' : Link σ H}

theorem wire_calls {xs : List (ConnCall H)} (h : l.calls xs = .ok l') : l'.wire = l.wire := by
  refine calls_keep (I := fun l1 => l1.wire = l.wire) (fun _ hl1 hcall => ?_) rfl h
  obtain ⟨c, -, hcall⟩ := bind_eq_ok.mp hcall
  cases hcall
  exact hl1

theorem advances_handleErroEvent (h : l.handleErroEvent cb = .ok l') : Advances l l' := by
  refine ⟨?_, fun _ halive => ?_⟩
  · unfold handleErroEvent at h
    dsimp only at h
    split at h
    · obtain ⟨l1, h1, h⟩ := bind_eq_ok.mp h
      cases h
      exact (wire_calls h1).symm ▸ List.prefix_rfl
    · cases h
      exact List.prefix_rfl
  · rw [handleErroEvent_destroyed h] at halive
    cases halive

/-- **What a read event does.** -/
theorem handleReadEvent_cases {onRead : Link σ H → Exec (Link σ H)} {a : ReadAnswer}
    (h : l.handleReadEvent cb onRead a = .ok l') :
    (a.bytes = [] ∧ (l' = l ∨ l.handleErroEvent cb = .ok l')) ∨
    ∃ readBuf, l' = { l with conn := { l.conn with readBuf_ := readBuf } } ∨
      onRead { l with conn := { l.conn with readBuf_ := readBuf } } = .ok l' := by
  obtain ⟨-, -, h⟩ := bind_eq_ok.mp h
  obtain ⟨-, -, h⟩ := bind_eq_ok.mp h
  cases a with
  | again =>
    cases h
    exact .inl ⟨rfl, .inl rfl⟩
  | closed => exact .inl ⟨rfl, .inr h⟩
  | failed => exact .inl ⟨rfl, .inr h⟩
  | received bytes =>
    obtain ⟨conn, hconn, h⟩ := bind_eq_ok.mp h
    obtain ⟨readBuf, rfl⟩ := Connection.receive_eq_ok hconn
    dsimp only at h
    split at h
    · exact .inr ⟨readBuf, .inr h⟩
    · cases h
      exact .inr ⟨readBuf, .inl rfl⟩

variable {σ : Type} {cb : Callbacks σ Empty} {l l' : Link σ Empty}

/-- Without completion handlers nobody changes the read interest in a write event. -/
theorem steady_advances (l₀ : Link σ Empty) : Steady cb (Advances l₀) where
  complete := fun {_ _ handler} => nomatch handler
  handleErroEvent := fun hl h => hl.trans (advances_handleErroEvent h)
  popFront := by
    intro l c hl hc
    unfold Connection.popFront at hc
    split at hc
    · cases hc
    · cases hc
      exact hl.trans ⟨List.prefix_rfl, id⟩
  shorten := fun hl _ _ => hl.trans ⟨List.prefix_rfl, id⟩
  accept := fun hl => hl.trans ⟨List.prefix_append _ _, id⟩

theorem advances_handleWritEvent {as : List WriteAnswer} (h : l.handleWritEvent cb as = .ok l') :
    Advances l l' := by
  refine (steady_advances l).handleWritEvent (fun ch hch _ hl => ?_) (.refl l) h
  refine hl.trans ⟨List.prefix_rfl, fun hlistens halive => ?_⟩
  obtain ⟨ch', hch', hreadable, -⟩ := hlistens halive
  cases hch.symm.trans hch'
  exact ⟨_, rfl, hreadable, hreadable⟩

end Link

/-! ## Connections among others -/

namespace Link

variable {τ : Type}

/-- The same connection with other surroundings. -/
def within (l : Link τ H) (w : σ) : Link σ H where
  conn := l.conn
  world := w
  wire := l.wire
  sent := l.sent
  ran := l.ran

/-- A connection that is not destroyed. -/
structure Up (l : Link Unit H) : Prop where
  delivered : Delivered (fun _ _ _ _ => True) l
  announces : l.conn.Announces true
  taken : l.conn.Taken

/-- A connection that is destroyed. -/
abbrev Down (l : Link Unit H) : Prop := Broken (fun _ _ _ _ => True) l

variable {own : Link Unit H}

theorem Up.alive (h : Up own) : own.conn.destroy_ = false := by
  obtain ⟨done, hflow⟩ := h.delivered
  exact hflow.isOpen.alive

theorem Up.destroy (h : Up own) : Down { own with conn := own.conn.destroy } := h.delivered.destroyed trivial

/-- The connection is put among others. -/
theorem Up.within (h : Up own) {w : σ} (huser : J w own.sent own.ran own.conn.nextTicks) :
    Delivered J (own.within w) := by
  obtain ⟨done, hflow⟩ := h.delivered
  exact ⟨done, hflow.isOpen, huser, hflow.ran, hflow.cut⟩

/-- It is looked at alone. -/
theorem Delivered.up (h : Delivered J l) (hcalled : l.conn.Announces true) (htaken : l.conn.Taken) :
    Up (l.within ()) := by
  obtain ⟨done, hflow⟩ := h
  exact ⟨⟨done, hflow.isOpen, trivial, hflow.ran, hflow.cut⟩, hcalled, htaken⟩

theorem Broken.down (h : Broken K l) : Down (l.within ()) where
  destroyed := h.destroyed
  chan := h.chan
  empty := h.empty
  user := trivial
  wire := h.wire
  ran := h.ran

/-- A connection that was just made. -/
theorem up_start {c : Connection H} (hopen : c.Open) (hempty : c.writTasks_ = []) (htaken : c.Taken)
    (hannounces : c.Announces true) : Up (start c ()) := by
  refine ⟨⟨[], hopen, trivial, rfl, [], rfl, ?_⟩, hannounces, htaken⟩
  show Cut [] [] [] (c.writTasks_.map IoTask.message)
  rw [hempty]
  exact cut_nil

/-- What is on the wire of a connection, and what waits. -/
theorem out_of_up_or_down (h : Up own ∨ Down own) : own.wire <+: stream own.sent ∧
    (own.conn.destroy_ = false →
      own.wire ++ (own.conn.writTasks_.map IoTask.remaining).flatten = stream own.sent) := by
  have hsurvives : Survives true (fun _ _ _ _ => True) (fun _ _ _ _ => True) own :=
    h.imp (fun h => ⟨h.delivered, h.announces⟩) id
  obtain ⟨hwire, -, hrest⟩ := hsurvives.result
  exact ⟨hwire, hrest⟩

end Link

end Liby
