import Liby.Net.UdpOwners

/-!
# The datagrams of a batch

`handleReadEvent` appends each datagram to the buffer of its connection, and `Buffer::append` wants at
least one byte. A datagram may have none.
-/

namespace Liby

open Infra

variable {H : Type}

namespace UdpRun

/-- The step is one of `handleReadEvent` with a datagram that it was given. -/
def handles (s : UdpRun H) : UdpStep H → Bool
  | .recvfrom (.datagram _ _) => s.point = .recvfrom
  | .returned => s.point.reads
  | _ => false

/--
No assertion fails, and the handler goes on to the next `recvfrom`. What it does after the program has
destroyed the socket is another matter.
-/
def ReadsOn (s : UdpRun H) (e : UdpStep H) : Prop :=
  s.handles e = true →
    match s.step e with
    | .ok t => t.point.reads = true
    | .error f => f = .environment ∨ (f = .nullDeref ∧ s.world.socket.socket_ = false)

instance (s : UdpRun H) (e : UdpStep H) : Decidable (ReadsOn s e) := by
  unfold ReadsOn
  split
  · infer_instance
  · infer_instance

/-- The bytes that the step gives to `append`. -/
def appended (s : UdpRun H) : UdpStep H → Option Bytes
  | .recvfrom (.datagram peer payload) =>
    if s.point = .recvfrom ∧ s.world.socket.socket_ = true ∧ payload.length ≤ 4096 ∧
        ((s.world.socket.conns_.find Endpoint.lt peer).isSome = true ∨
          s.world.socket.acceptorCallback_ = false) then some payload
    else none
  | .returned =>
    match s.point with
    | .accepting _ payload => some payload
    | _ => none
  | _ => none

/-- The step gives no empty datagram to `append`. -/
def AppendsSome (s : UdpRun H) (e : UdpStep H) : Prop := s.appended e ≠ some []

instance (s : UdpRun H) (e : UdpStep H) : Decidable (AppendsSome s e) :=
  inferInstanceAs (Decidable (_ ≠ _))

variable {s t : UdpRun H} {e : UdpStep H} {poller_ : Chooser}

theorem readsOn_of_ok (h : s.step e = .ok t) (ht : t.point.reads = true) : ReadsOn s e := by
  intro _
  rw [h]
  exact ht

theorem readsOn_of_environment (h : s.step e = .error .environment) : ReadsOn s e := by
  intro _
  rw [h]
  exact .inl rfl

theorem not_readsOn (hhandles : s.handles e = true) (h : s.step e = .error .assertFailed) :
    ¬ReadsOn s e := by
  intro hreads
  have hreads := hreads hhandles
  rw [h] at hreads
  rcases hreads with h | ⟨h, -⟩ <;> cases h

/-- A step that appends `payload`, to any buffer. -/
theorem readsOn_iff_of_deliver {u : UdpRun H} {p : Nat} {o : UdpObject} {payload : Bytes}
    {callback : UdpPoint} (hhandles : s.handles e = true) (happended : s.appended e = some payload)
    (hmove : s.move e = u.deliver p payload callback) (hcallback : callback.reads = true)
    (ho : u.world.access p = .ok o) (hwf : o.uconn.readBuf_.Wf) : ReadsOn s e ↔ AppendsSome s e := by
  unfold AppendsSome
  rw [happended]
  rcases deliver_cases ho hwf payload callback with ⟨hnil, herror⟩ | ⟨hpayload, t, ht, -, hpoint⟩
  · rw [hnil]
    exact ⟨fun h => absurd h (not_readsOn hhandles (step_error (hmove.trans herror))),
      fun h => absurd rfl h⟩
  · refine ⟨fun _ h => hpayload (Option.some.inj h), fun _ => ?_⟩
    refine readsOn_of_ok (step_eq (hmove.trans ht)) ?_
    show t.point.reads = true
    rcases hpoint with hpoint | ⟨hpoint, -⟩ <;> rw [hpoint]
    · rfl
    · exact hcallback

/-- The step of a datagram. -/
theorem move_datagram (peer : Endpoint) {payload : Bytes} (hpoint : s.point = .recvfrom)
    (hsocket : s.world.socket.socket_ = true) (hpayload : payload.length ≤ 4096) :
    s.move (.recvfrom (.datagram peer payload)) =
      match s.world.socket.conns_.find Endpoint.lt peer with
      | some p => s.deliver p payload (.readKnown p)
      | none =>
        if s.world.socket.acceptorCallback_ then
          .ok { s with
            world := (s.world.makeConn peer).callback true (.accept peer)
            point := .accepting s.world.uconns.length payload }
        else deliver { s with world := s.world.makeConn peer } s.world.uconns.length payload
          (.readNew s.world.uconns.length) := by
  rw [move_recvfrom hpoint]
  unfold recvfrom
  rw [guardOr_pos hsocket, ok_bind]
  dsimp only
  rw [guardOr_pos hpayload, ok_bind]
  rfl

/-- `recvfrom` fills a buffer of 4096 bytes at most. -/
theorem step_large (peer : Endpoint) {payload : Bytes} (hpoint : s.point = .recvfrom)
    (hsocket : s.world.socket.socket_ = true) (hpayload : ¬payload.length ≤ 4096) :
    s.step (.recvfrom (.datagram peer payload)) = .error .environment := by
  refine step_error ?_
  rw [move_recvfrom hpoint]
  unfold recvfrom
  rw [guardOr_pos hsocket, ok_bind]
  dsimp only
  rw [guardOr_neg hpayload]
  rfl

theorem readsOn_datagram (hs : Sound s) (hsettled : Settled s) (peer : Endpoint) (payload : Bytes) :
    ReadsOn s (.recvfrom (.datagram peer payload)) ↔
      AppendsSome s (.recvfrom (.datagram peer payload)) := by
  have hnone : ¬(s.point = .recvfrom ∧ s.world.socket.socket_ = true ∧ payload.length ≤ 4096 ∧
      ((s.world.socket.conns_.find Endpoint.lt peer).isSome = true ∨
        s.world.socket.acceptorCallback_ = false)) → AppendsSome s (.recvfrom (.datagram peer payload)) := by
    intro hnot
    unfold AppendsSome appended
    dsimp only
    rw [if_neg hnot]
    nofun
  by_cases hpoint : s.point = .recvfrom
  · by_cases hsocket : s.world.socket.socket_ = true
    · by_cases hpayload : payload.length ≤ 4096
      · have hmove := move_datagram peer hpoint hsocket hpayload
        have hhandles : s.handles (.recvfrom (.datagram peer payload)) = true := by
          unfold handles
          exact decide_eq_true hpoint
        cases hfind : s.world.socket.conns_.find Endpoint.lt peer with
        | some p =>
          rw [hfind] at hmove
          have howned : s.Owned p :=
            .inl (List.mem_map_of_mem (KeyMap.mem_of_find separates_endpoint hfind))
          obtain ⟨o, haccess, ho⟩ := hsettled.access hs howned
          refine readsOn_iff_of_deliver hhandles ?_ hmove rfl haccess (hs.readBufs p o ho)
          unfold appended
          exact if_pos ⟨hpoint, hsocket, hpayload, .inl (by rw [hfind]; rfl)⟩
        | none =>
          rw [hfind] at hmove
          dsimp only at hmove
          by_cases hacceptor : s.world.socket.acceptorCallback_ = true
          · -- the accept callback comes before the datagram is appended
            rw [if_pos hacceptor] at hmove
            refine iff_of_true (readsOn_of_ok (step_eq hmove) rfl) (hnone ?_)
            rintro ⟨-, -, -, hsome | hunset⟩
            · rw [hfind] at hsome
              cases hsome
            · exact absurd (hacceptor.symm.trans hunset) nofun
          · rw [if_neg hacceptor] at hmove
            refine readsOn_iff_of_deliver (o := { uconn := .new peer, freed := false, taken := [] })
              hhandles ?_ hmove rfl ?_ (Buffer.wf_ofLength 1024)
            · unfold appended
              exact if_pos ⟨hpoint, hsocket, hpayload, .inr (by simpa using hacceptor)⟩
            · unfold UdpWorld.access UdpWorld.makeConn
              dsimp only
              rw [List.getElem?_concat_length]
              rfl
      · exact iff_of_true (readsOn_of_environment (step_large peer hpoint hsocket hpayload))
          (hnone fun h => hpayload h.2.2.1)
    · have hreset : s.world.socket.socket_ = false := by simpa using hsocket
      refine iff_of_true (fun _ => ?_) (hnone fun h => hsocket h.2.1)
      rw [recvfrom_nullDeref hpoint hreset]
      exact .inr ⟨rfl, hreset⟩
  · refine iff_of_true (fun hhandles => ?_) (hnone fun h => hpoint h.1)
    exact absurd (of_decide_eq_true hhandles) hpoint

theorem readsOn_returned (hs : Sound s) (hsettled : Settled s) :
    ReadsOn s .returned ↔ AppendsSome s .returned := by
  have hnone : (∀ p payload, s.point ≠ .accepting p payload) → AppendsSome s .returned := by
    intro hnot
    unfold AppendsSome appended
    dsimp only
    split
    · next p payload hpoint => exact absurd hpoint (hnot p payload)
    · nofun
  cases hpoint : s.point with
  | accepting p payload =>
    have howned : s.Owned p := .inr (.inr (by rw [hpoint]; rfl))
    obtain ⟨o, haccess, ho⟩ := hsettled.access hs howned
    refine readsOn_iff_of_deliver ?_ ?_ (move_accepting hpoint) rfl haccess (hs.readBufs p o ho)
    · unfold handles
      rw [hpoint]
      rfl
    · unfold appended
      rw [hpoint]
  | readNew p =>
    exact iff_of_true (readsOn_of_ok (step_read (.inl hpoint)) rfl)
      (hnone fun _ _ h => by cases hpoint.symm.trans h)
  | readKnown p =>
    exact iff_of_true (readsOn_of_ok (step_read (.inr hpoint)) rfl)
      (hnone fun _ _ h => by cases hpoint.symm.trans h)
  | recvfrom =>
    refine iff_of_true (readsOn_of_environment (step_error ?_))
      (hnone fun _ _ h => by cases hpoint.symm.trans h)
    show s.returned = _
    unfold returned
    rw [hpoint]
  | idle | sendto | completing | erring =>
    refine iff_of_true (fun hhandles => ?_) (hnone fun _ _ h => by cases hpoint.symm.trans h)
    unfold handles at hhandles
    rw [hpoint] at hhandles
    cases hhandles

/-- **A step with a datagram goes on exactly if it does not append an empty one.** -/
theorem readsOn_iff (hs : Sound s) (hsettled : Settled s) (e : UdpStep H) :
    ReadsOn s e ↔ AppendsSome s e := by
  have hother : s.handles e = false → s.appended e = none → (ReadsOn s e ↔ AppendsSome s e) := by
    intro hhandles happended
    refine iff_of_true (fun h => absurd (hhandles.symm.trans h) Bool.false_ne_true) ?_
    unfold AppendsSome
    rw [happended]
    nofun
  cases e with
  | recvfrom a =>
    cases a with
    | datagram peer payload => exact readsOn_datagram hs hsettled peer payload
    | again | failed => exact hother rfl rfl
  | returned => exact readsOn_returned hs hsettled
  | act a | readEvent | writEvent | sendto a | erroEvent => exact hother rfl rfl

/--
**Whatever comes, from whatever peers, and whatever the program does, `handleReadEvent` goes through
all datagrams exactly if it appends no empty one.**
-/
theorem reads_on_iff (es : List (UdpStep H)) :
    Along step ReadsOn (started poller_) es ↔ Along step AppendsSome (started poller_) es :=
  along_congr (I := fun s => Sound s ∧ Settled s) (fun _ _ _ hs ht => hs.1.step ht)
    (fun _ e hs => readsOn_iff hs.1 hs.2 e) es ⟨sound_started, settled_started⟩

/-- An empty datagram of a new peer, and one of a peer that is known. -/
theorem empty_datagram :
    (¬Along step ReadsOn (started .epoll : UdpRun Unit)
        [.readEvent, .recvfrom (.datagram { port_ := 80, addr_ := 1 } []), .returned] ∧
      run step (started .epoll : UdpRun Unit)
        [.readEvent, .recvfrom (.datagram { port_ := 80, addr_ := 1 } []), .returned] =
          .error .assertFailed) ∧
    run step (started .epoll : UdpRun Unit)
      [.readEvent, .recvfrom (.datagram { port_ := 80, addr_ := 1 } [7]), .returned, .returned,
        .recvfrom (.datagram { port_ := 80, addr_ := 1 } [])] = .error .assertFailed := by
  decide +kernel

end UdpRun

end Liby
