import Liby.Net.UdpOwners

/-!
# A callback that destroys the UdpSocket

`UdpSocket::destroy` resets what `handleReadEvent` and `handleWritEvent` are using. Neither looks at
`destroy_` after a callback: the one calls `recvfrom` on a socket that is reset, and the other pops
from a queue that was cleared. Over a `PollerEpoll` no `destroy` comes to its end, whoever has called it.
-/

namespace Liby

open Infra

variable {H : Type}

/-- The steps in which a handler of the socket goes on. -/
def UdpStep.goesOn : UdpStep H → Bool
  | .recvfrom _ | .sendto _ | .returned => true
  | .act _ | .readEvent | .writEvent | .erroEvent => false

namespace UdpRun

/--
What a handler has still to do ends without a fault and without a call of the program, whatever the
kernel answers.
-/
structure Stops (s : UdpRun H) : Prop where
  safe : ∀ es : List (UdpStep H), (∀ e ∈ es, e.goesOn = true) → ∀ f, run step s es = .error f →
    f = .environment
  silent : ∀ (es : List (UdpStep H)) (t : UdpRun H), (∀ e ∈ es, e.goesOn = true) →
    run step s es = .ok t → t.world.calls = s.world.calls ∧ t.world.ran = s.world.ran
  ends : ∃ (es : List (UdpStep H)) (t : UdpRun H), (∀ e ∈ es, e.goesOn = true) ∧
    run step s es = .ok t ∧ t.point = .idle

/-- The program does not destroy the socket in an accept, read or completion callback. -/
def DestroysOutside (s : UdpRun H) : UdpStep H → Prop
  | .act .destroy => s.world.socket.destroy_ = true ∨ s.point = .idle ∨ s.point = .erring
  | _ => True

instance (s : UdpRun H) (e : UdpStep H) : Decidable (DestroysOutside s e) := by
  unfold DestroysOutside
  split
  · infer_instance
  · infer_instance

/-- The step calls `UdpSocket::destroy` on a socket that is not destroyed yet. -/
def destroys (s : UdpRun H) (e : UdpStep H) : Bool :=
  !s.world.socket.destroy_ &&
    match e with
    | .act .destroy => true
    | .returned => s.point = .erring
    | .recvfrom .failed | .sendto .again | .sendto .failed | .erroEvent =>
      !s.world.socket.erroEventCallback_
    | _ => false

/--
The program does not destroy the socket in an accept, read or completion callback, and over a `PollerEpoll`
nothing destroys it.
-/
structure DestroysSafely (s : UdpRun H) (e : UdpStep H) : Prop where
  outside : DestroysOutside s e
  poller : s.destroys e = true → s.world.socket.poller_ ≠ .epoll

theorem destroysSafely_iff (s : UdpRun H) (e : UdpStep H) : DestroysSafely s e ↔
    DestroysOutside s e ∧ (s.destroys e = true → s.world.socket.poller_ ≠ .epoll) :=
  ⟨fun h => ⟨h.outside, h.poller⟩, fun h => ⟨h.1, h.2⟩⟩

instance (s : UdpRun H) (e : UdpStep H) : Decidable (DestroysSafely s e) :=
  decidable_of_iff' _ (destroysSafely_iff s e)

variable {s t : UdpRun H} {e : UdpStep H} {f : Fault} {poller_ : Chooser}

/-! ## Where `destroy` does not return -/

/-- Over a `PollerEpoll` a step that destroys the socket does not return. -/
theorem destroys_fails (hs : Connected s.world.socket) (hpoller : s.world.socket.poller_ = .epoll)
    (hdestroys : s.destroys e = true) : s.step e ≠ .ok t := by
  obtain ⟨hlive, he⟩ := Bool.and_eq_true_iff.mp hdestroys
  have hlive : s.world.socket.destroy_ = false := by simpa using hlive
  have hthrows : s.world.destroy = .error .exception := by
    rw [UdpWorld.destroy_live hlive (hs hlive), if_pos hpoller]
  have hend : s.endErroEvent = .error .exception := by
    unfold endErroEvent
    rw [hthrows]
    rfl
  have herro : s.world.socket.erroEventCallback_ = false → s.handleErroEvent = .error .exception := by
    intro hunset
    unfold UdpRun.handleErroEvent
    rw [if_neg (by rw [hunset]; exact Bool.false_ne_true), hend]
  intro hstep
  obtain ⟨u, hu, -⟩ := bind_eq_ok.mp hstep
  cases e with
  | act a =>
    obtain ⟨-, -, hu⟩ := bind_eq_ok.mp hu
    cases a with
    | destroy =>
      obtain ⟨w, hw, -⟩ := bind_eq_ok.mp hu
      cases hthrows.symm.trans hw
    | send | destroyConn | edit | keep | drop | connect | onAccept | onRead | onConnect | onErro => cases he
  | returned =>
    have hu : s.returned = .ok u := hu
    unfold returned at hu
    rw [of_decide_eq_true he] at hu
    cases hend.symm.trans hu
  | recvfrom a =>
    obtain ⟨-, -, hu⟩ := bind_eq_ok.mp hu
    obtain ⟨-, -, hu⟩ := bind_eq_ok.mp hu
    cases a with
    | failed => cases (herro (by simpa using he)).symm.trans hu
    | datagram | again => cases he
  | sendto a =>
    obtain ⟨-, -, hu⟩ := bind_eq_ok.mp hu
    unfold sendto at hu
    split at hu
    · cases hu
    · obtain ⟨base, -, hu⟩ := bind_eq_ok.mp hu
      obtain ⟨size, -, hu⟩ := bind_eq_ok.mp hu
      obtain ⟨dest, -, hu⟩ := bind_eq_ok.mp hu
      obtain ⟨_, -, hu⟩ := bind_eq_ok.mp hu
      cases a with
      | again | failed =>
        dsimp only [UdpSent.result] at hu
        rw [if_pos neg_one_lt_zero, if_pos (by decide)] at hu
        cases (herro (by simpa using he)).symm.trans hu
      | sent => cases he
  | erroEvent =>
    obtain ⟨-, -, hu⟩ := bind_eq_ok.mp hu
    cases (herro (by simpa using he)).symm.trans hu
  | readEvent | writEvent => cases he

/-- `destroy` ends in no other way. -/
theorem destroy_outcome {w : UdpWorld H} (hw : Connected w.socket) {F : Fault → Prop}
    (hF : w.socket.destroy_ = false → w.socket.poller_ = .epoll → F .exception) :
    Outcome F (fun _ => True) w.destroy := by
  cases hdestroy : w.socket.destroy_ with
  | true =>
    rw [UdpWorld.destroy_destroyed hdestroy]
    trivial
  | false =>
    rw [UdpWorld.destroy_live hdestroy (hw hdestroy)]
    split
    · next hpoller => exact hF hdestroy hpoller
    · trivial

section

variable {w : UdpWorld H} {F : Fault → Prop} (hF : ∀ f, f ≠ .exception → F f)

include hF

theorem access_outcome (w : UdpWorld H) (p : Nat) :
    Outcome F (fun o => w.uconns[p]? = some o) (w.access p) := by
  cases haccess : w.access p with
  | ok o => exact (UdpWorld.access_eq_ok.mp haccess).1
  | error f =>
    refine hF f ?_
    unfold UdpWorld.access at haccess
    split at haccess
    · cases haccess
      nofun
    · split at haccess <;> cases haccess
      nofun

theorem enableWrit_outcome (w : UdpWorld H) (flag : Bool) :
    Outcome F (fun _ => True) (w.enableWrit flag) := by
  unfold UdpWorld.enableWrit
  split
  · exact hF _ nofun
  · trivial

theorem sendOn_outcome (w : UdpWorld H) (p : Nat) (x : UdpSend H) :
    Outcome F (fun _ => True) (w.sendOn p x) := by
  refine (access_outcome hF w p).bind fun o _ => ?_
  have hbuf : Outcome F (fun _ => True) x.buf := by
    cases x with
    | buffer buf handler => exact Outcome.guard (hF _ nofun) fun _ => trivial
    | base | moved | cString | string => trivial
  exact hbuf.bind fun buf _ => enableWrit_outcome hF _ true

theorem popFront_outcome (s : UdpRun H) : Outcome F (fun _ => True) s.popFront := by
  unfold popFront UdpWorld.popFront
  split
  · exact hF _ nofun
  · trivial

theorem deliver_outcome {s : UdpRun H}
    (hwf : ∀ (p : Nat) (o : UdpObject), s.world.uconns[p]? = some o → o.uconn.readBuf_.Wf) (p : Nat)
    (payload : Bytes) (callback : UdpPoint) : Outcome F (fun _ => True) (s.deliver p payload callback) := by
  cases haccess : s.world.access p with
  | ok o =>
    rcases deliver_cases haccess (hwf p o (UdpWorld.access_eq_ok.mp haccess).1) payload callback with
      ⟨-, herror⟩ | ⟨-, t, ht, -⟩
    · rw [herror]
      exact hF _ nofun
    · rw [ht]
      trivial
  | error f =>
    have hfault := access_outcome hF s.world p
    rw [haccess] at hfault
    unfold deliver
    rw [haccess]
    exact hfault

/-- A pass of the write loop throws only in `handleErroEvent`. -/
theorem sendto_outcome {s : UdpRun H} (hwf : ∀ task ∈ s.world.socket.writTasks_, task.buffer_.Wf)
    {a : UdpSent} (herro : a ≠ .sent → Outcome F (fun _ => True) s.handleErroEvent) :
    Outcome F (fun _ => True) (s.sendto a) := by
  unfold sendto
  split
  · exact hF _ nofun
  · next first tasks hqueue =>
    have hfirst := hwf first (by rw [hqueue]; exact List.mem_cons_self)
    have hdata : Outcome F (fun _ => True) first.buffer_.data := by
      cases hblock : first.buffer_.buffer_ with
      | none =>
        unfold Buffer.data
        rw [hblock, guardOr_neg (by simp)]
        exact hF _ nofun
      | some block =>
        rw [hfirst.data_of_block hblock]
        trivial
    refine hdata.bind fun base _ => ?_
    rw [hfirst.size_eq, ok_bind]
    refine (access_outcome hF s.world first.dest_).bind fun dest _ => Outcome.guard (hF _ nofun) fun _ => ?_
    cases a with
    | again | failed =>
      dsimp only [UdpSent.result]
      rw [if_pos neg_one_lt_zero, if_pos (by decide)]
      exact herro nofun
    | sent =>
      obtain ⟨buffer, hretrieve, hbuffer, -⟩ := hfirst.retrieve_ok first.buffer_.contents.length
      dsimp only [UdpSent.result]
      rw [if_neg (not_lt.mpr (Int.natCast_nonneg _)), hretrieve, ok_bind, hbuffer.size_eq, ok_bind]
      split
      · split
        · trivial
        · exact popFront_outcome hF _
      · trivial

end

/-- An exception, which leaves the step only if it destroys the socket over a `PollerEpoll`, or another fault. -/
def OnlyDestroys (s : UdpRun H) (e : UdpStep H) (f : Fault) : Prop :=
  f = .exception → s.destroys e = true ∧ s.world.socket.poller_ = .epoll

theorem onlyDestroys_of_ne (hne : f ≠ .exception) : OnlyDestroys s e f := fun h => absurd h hne

theorem endErroEvent_outcome (hs : Kept s) (hlive : s.world.socket.destroy_ = false → s.destroys e = true) :
    Outcome (OnlyDestroys s e) (fun _ => True) s.endErroEvent :=
  (destroy_outcome hs.connected fun hd hpoller _ => ⟨hlive hd, hpoller⟩).bind fun _ _ => trivial

theorem handleErroEvent_outcome (hs : Kept s) (hlive : s.world.socket.destroy_ = false →
    s.world.socket.erroEventCallback_ = false → s.destroys e = true) :
    Outcome (OnlyDestroys s e) (fun _ => True) s.handleErroEvent := by
  unfold UdpRun.handleErroEvent
  split
  · trivial
  · next hunset => exact endErroEvent_outcome hs fun hd => hlive hd (by simpa using hunset)

/-- **An exception leaves a step only where it destroys the socket over a `PollerEpoll`.** -/
theorem move_outcome (hs : Kept s) (e : UdpStep H) :
    Outcome (OnlyDestroys s e) (fun _ => True) (s.move e) := by
  have hF : ∀ f, f ≠ .exception → OnlyDestroys s e f := fun f => onlyDestroys_of_ne
  cases e with
  | act a =>
    refine Outcome.guard (hF _ nofun) fun _ => ?_
    cases a with
    | send p x wf =>
      exact Outcome.guard (hF _ nofun) fun _ => (sendOn_outcome hF s.world p x).bind fun _ _ => trivial
    | destroyConn p | edit p readBuf wf =>
      exact Outcome.guard (hF _ nofun) fun _ => (access_outcome hF s.world p).bind fun _ _ => trivial
    | keep p | drop p => exact Outcome.guard (hF _ nofun) fun _ => trivial
    | connect ep =>
      unfold act
      dsimp only
      split <;> trivial
    | onAccept set | onRead set | onConnect set | onErro set => trivial
    | destroy =>
      refine (destroy_outcome hs.connected fun hd hpoller _ => ⟨?_, hpoller⟩).bind fun _ _ => trivial
      simp [destroys, hd]
  | readEvent => exact Outcome.guard (hF _ nofun) fun _ => trivial
  | recvfrom a =>
    refine Outcome.guard (hF _ nofun) fun _ => Outcome.guard (hF _ nofun) fun _ => ?_
    cases a with
    | again => trivial
    | failed => exact handleErroEvent_outcome hs fun hd hunset => by simp [destroys, hd, hunset]
    | datagram peer payload =>
      refine Outcome.guard (hF _ nofun) fun _ => ?_
      split
      · exact deliver_outcome hF hs.sound.readBufs _ _ _
      · dsimp only
        split
        · trivial
        · refine deliver_outcome hF (fun p o ho => ?_) _ _ _
          rcases (extends_makeConn s.world peer).objects p o ho with ⟨o₀, ho₀, hsame⟩ | ⟨-, hwf⟩
          · exact hsame.wf (hs.sound.readBufs p o₀ ho₀)
          · exact hwf
  | writEvent =>
    refine Outcome.guard (hF _ nofun) fun _ => ?_
    unfold UdpRun.handleWritEvent
    split
    · trivial
    · split
      · exact (enableWrit_outcome hF _ false).bind fun _ _ => trivial
      · trivial
  | sendto a =>
    refine Outcome.guard (hF _ nofun) fun _ => sendto_outcome hF hs.sound.tasks fun hne => ?_
    cases a with
    | again | failed => exact handleErroEvent_outcome hs fun hd hunset => by simp [destroys, hd, hunset]
    | sent => exact absurd rfl hne
  | erroEvent =>
    refine Outcome.guard (hF _ nofun) fun _ => ?_
    exact handleErroEvent_outcome hs fun hd hunset => by simp [destroys, hd, hunset]
  | returned =>
    show Outcome _ _ s.returned
    unfold returned
    split
    · exact deliver_outcome hF hs.sound.readBufs _ _ _
    · trivial
    · trivial
    · exact popFront_outcome hF s
    · next hpoint => exact endErroEvent_outcome hs fun hd => by simp [destroys, hd, hpoint]
    all_goals exact hF _ nofun

theorem step_exception (hs : Kept s) (h : s.step e = .error .exception) :
    s.destroys e = true ∧ s.world.socket.poller_ = .epoll := by
  have hstep : Outcome (OnlyDestroys s e) (fun _ => True) (s.step e) :=
    (move_outcome hs e).bind fun _ _ => trivial
  rw [h] at hstep
  exact hstep rfl

/-! ## What a handler still does -/

/-- A handler that is somewhere else does not go on so. -/
theorem elsewhere (he : e.goesOn = true) (hrecvfrom : s.point ≠ .recvfrom)
    (hsendto : s.point ≠ .sendto ∨ s.world.socket.writTasks_ = [])
    (hreturned : e = .returned → s.point = .idle ∨ s.point = .sendto) :
    s.step e = .error .environment := by
  refine step_error ?_
  cases e with
  | recvfrom a =>
    show guardOr _ _ >>= _ = _
    rw [guardOr_neg hrecvfrom]
    rfl
  | sendto a =>
    show guardOr _ _ >>= _ = _
    by_cases hpoint : s.point = .sendto
    · rw [guardOr_pos hpoint, ok_bind]
      unfold sendto
      rw [hsendto.resolve_left (not_not_intro hpoint)]
    · rw [guardOr_neg hpoint]
      rfl
  | returned =>
    show s.returned = _
    unfold returned
    rcases hreturned rfl with h | h <;> rw [h]
  | act a | readEvent | writEvent | erroEvent => cases he

theorem stops_idle (hpoint : s.point = .idle) : Stops s := by
  have hrun : ∀ es : List (UdpStep H), (∀ e ∈ es, e.goesOn = true) →
      run step s es = .ok s ∨ run step s es = .error .environment := by
    intro es hes
    cases es with
    | nil => exact .inl rfl
    | cons e es =>
      rw [run_cons, elsewhere (hes e List.mem_cons_self) (by rw [hpoint]; nofun)
        (.inl (by rw [hpoint]; nofun)) (fun _ => .inl hpoint)]
      exact .inr rfl
  refine ⟨fun es hes f hf => ?_, fun es t hes ht => ?_, [], s, nofun, rfl, hpoint⟩
  · rcases hrun es hes with h | h <;> cases h.symm.trans hf
    rfl
  · rcases hrun es hes with h | h <;> cases h.symm.trans ht
    exact ⟨rfl, rfl⟩

/-- After `erroEventCallback_` nothing is left to do but `destroy`. -/
theorem step_erring (hpoint : s.point = .erring) (hdestroy : s.world.socket.destroy_ = true) :
    s.step .returned = .ok { s with point := .idle }.settle := by
  refine step_eq ?_
  show s.returned = _
  unfold returned
  rw [hpoint]
  show s.endErroEvent = _
  unfold endErroEvent
  rw [UdpWorld.destroy_destroyed hdestroy]
  rfl

theorem stops_erring (hpoint : s.point = .erring) (hdestroy : s.world.socket.destroy_ = true) : Stops s := by
  have hstep := step_erring hpoint hdestroy
  have hidle : Stops { s with point := .idle }.settle := stops_idle rfl
  have hrun : ∀ (e : UdpStep H) (es : List (UdpStep H)), e.goesOn = true →
      run step s (e :: es) = run step { s with point := .idle }.settle es ∨
        run step s (e :: es) = .error .environment := by
    intro e es he
    by_cases hreturned : e = .returned
    · rw [hreturned, run_cons, hstep]
      exact .inl rfl
    · rw [run_cons, elsewhere he (by rw [hpoint]; nofun) (.inl (by rw [hpoint]; nofun))
        (fun h => absurd h hreturned)]
      exact .inr rfl
  refine ⟨fun es hes f hf => ?_, fun es t hes ht => ?_, [.returned], { s with point := .idle }.settle,
    by simp [UdpStep.goesOn], ?_, rfl⟩
  · cases es with
    | nil => cases hf
    | cons e es =>
      rcases hrun e es (hes e List.mem_cons_self) with h | h
      · exact hidle.safe es (fun e' he' => hes e' (List.mem_cons_of_mem e he')) f (h.symm.trans hf)
      · cases h.symm.trans hf
        rfl
  · cases es with
    | nil =>
      cases ht
      exact ⟨rfl, rfl⟩
    | cons e es =>
      rcases hrun e es (hes e List.mem_cons_self) with h | h
      · exact hidle.silent es t (fun e' he' => hes e' (List.mem_cons_of_mem e he')) (h.symm.trans ht)
      · cases h.symm.trans ht
  · rw [run_cons, hstep]
    rfl

/-- After a completion handler `handleWritEvent` pops from a queue that was cleared. -/
theorem completing_empty (hpoint : s.point = .completing) (htasks : s.world.socket.writTasks_ = []) :
    s.step .returned = .error .emptyContainer := by
  refine step_error ?_
  show s.returned = _
  unfold returned
  rw [hpoint]
  show s.world.popFront >>= _ = _
  unfold UdpWorld.popFront
  rw [htasks]
  rfl

/-- **On a socket that was destroyed only the end of `handleErroEvent` is safe.** -/
theorem stops_iff (hs : Sound s) (hsettled : Settled s) (hg : Gone s.world.socket)
    (hdestroy : s.world.socket.destroy_ = true) : Stops s ↔ s.point = .idle ∨ s.point = .erring := by
  obtain ⟨hsocket, -, htasks⟩ := hg hdestroy
  constructor
  · intro h
    have hfaults : ∀ (es : List (UdpStep H)) (f : Fault), (∀ e ∈ es, e.goesOn = true) →
        run step s es = .error f → f ≠ .environment → False :=
      fun es f hes hf hne => hne (h.safe es hes f hf)
    have hnext : ∀ {t : UdpRun H} (a : UdpReceived), s.step .returned = .ok t → t.point = .recvfrom →
        t.world.socket.socket_ = false → False := by
      intro t a ht hpoint hsocket
      refine hfaults [.returned, .recvfrom a] .nullDeref (by simp [UdpStep.goesOn]) ?_ nofun
      rw [run_cons, ht, ok_bind, run_cons, recvfrom_nullDeref hpoint hsocket]
      rfl
    cases hpoint : s.point with
    | idle => exact .inl rfl
    | erring => exact .inr rfl
    | recvfrom =>
      refine (hfaults [.recvfrom .again] .nullDeref (by simp [UdpStep.goesOn]) ?_ nofun).elim
      rw [run_cons, recvfrom_nullDeref hpoint hsocket]
      rfl
    | readNew p => exact (hnext .again (step_read (.inl hpoint)) rfl hsocket).elim
    | readKnown p => exact (hnext .again (step_read (.inr hpoint)) rfl hsocket).elim
    | accepting p payload =>
      rcases step_accepting hs hsettled hpoint with ⟨-, herror⟩ | ⟨-, t, ht, hsocket', hrest⟩
      · refine (hfaults [.returned] .assertFailed (by simp [UdpStep.goesOn]) ?_ nofun).elim
        rw [run_cons, herror]
        rfl
      · rcases hrest with hpoint' | ⟨-, hcalls⟩
        · exact (hnext .again ht hpoint' (hsocket'.trans hsocket)).elim
        · have hrun : run step s [.returned] = .ok t := by rw [run_cons, ht]; rfl
          exact absurd (h.silent [.returned] t (by simp [UdpStep.goesOn]) hrun).1 hcalls
    | completing =>
      refine (hfaults [.returned] .emptyContainer (by simp [UdpStep.goesOn]) ?_ nofun).elim
      rw [run_cons, completing_empty hpoint htasks]
      rfl
    | sendto =>
      -- no task is left, so that there is nothing to send and the loop is not left either
      obtain ⟨es, t, hes, hrun, hidle⟩ := h.ends
      cases es with
      | nil =>
        cases hrun
        cases hpoint.symm.trans hidle
      | cons e es =>
        have hnone := elsewhere (hes e List.mem_cons_self) (by rw [hpoint]; nofun) (.inr htasks)
          (fun _ => .inr hpoint)
        rw [run_cons, hnone] at hrun
        cases hrun
  · rintro (hidle | herring)
    · exact stops_idle hidle
    · exact stops_erring herring hdestroy

/-! ## Where the socket is destroyed -/

theorem act_point {a : UdpAct H} (h : s.act a = .ok t) : t.point = s.point := by
  cases a with
  | send p x wf =>
    obtain ⟨_, _, h⟩ := bind_eq_ok.mp h
    obtain ⟨_, _, h⟩ := bind_eq_ok.mp h
    cases h
    rfl
  | destroyConn p | edit p readBuf wf =>
    obtain ⟨_, _, h⟩ := bind_eq_ok.mp h
    obtain ⟨_, _, h⟩ := bind_eq_ok.mp h
    cases h
    rfl
  | keep p | drop p =>
    obtain ⟨_, _, h⟩ := bind_eq_ok.mp h
    cases h
    rfl
  | connect ep =>
    unfold act at h
    dsimp only at h
    split at h <;> cases h <;> rfl
  | onAccept set | onRead set | onConnect set | onErro set =>
    cases h
    rfl
  | destroy =>
    obtain ⟨_, _, h⟩ := bind_eq_ok.mp h
    cases h
    rfl

theorem step_act {a : UdpAct H} (h : s.step (.act a) = .ok t) : ∃ u, s.act a = .ok u ∧ t = u.settle := by
  obtain ⟨u, hu, h⟩ := bind_eq_ok.mp h
  obtain ⟨_, _, hu⟩ := bind_eq_ok.mp hu
  cases h
  exact ⟨u, hu, rfl⟩

theorem destroy_destroy {w w' : UdpWorld H} (h : w.destroy = .ok w') : w'.socket.destroy_ = true := by
  rcases UdpWorld.destroy_cases h with ⟨hdestroy, rfl⟩ | ⟨-, rfl⟩
  · exact hdestroy
  · rfl

theorem step_destroy (h : s.step (.act .destroy) = .ok t) :
    t.world.socket.destroy_ = true ∧ t.point = s.point := by
  obtain ⟨u, hu, rfl⟩ := step_act h
  obtain ⟨w, hw, hu⟩ := bind_eq_ok.mp hu
  cases hu
  have hdestroy : w.socket.destroy_ = true := destroy_destroy hw
  exact ⟨hdestroy, rfl⟩

/-- A step destroys the socket as the program wants it, or when an error is handled. -/
theorem Moves.destroy_cases (h : Moves s e t) : t.world.socket.destroy_ = s.world.socket.destroy_ ∨
    t.world.socket.destroy_ = true ∧ (e = .act .destroy ∧ t.point = s.point ∨ t.point = .idle) := by
  cases h with
  | frame _ hworld | release _ _ hworld => exact .inl hworld.destroy
  | send _ _ _ hsent => exact .inl (send_ok hsent).destroy
  | destroyConn => exact .inl (frame_destroyConn _ _).destroy
  | keep | drop | complete | handOver | pop => exact .inl rfl
  | connect _ hworld | accept _ _ hworld => exact .inl hworld.destroy
  | destroy _ _ hworld _ _ hpoint =>
    rw [hworld]
    exact .inr ⟨rfl, hpoint⟩

/-- No handler of a destroyed socket begins. -/
theorem destroyed_point (hg : Gone s.world.socket) (hdestroy : s.world.socket.destroy_ = true)
    (hpoint : s.point = .idle ∨ s.point = .erring) (h : s.step e = .ok t) :
    t.point = .idle ∨ t.point = .erring := by
  have hchan := (hg hdestroy).2.1
  have hno : ∀ {p : UdpPoint} {f : Unit → Exec (UdpRun H)} {u : UdpRun H},
      (guardOr .environment (s.point = p ∧ s.world.socket.chan_.isSome = true) >>= f) = .ok u → False := by
    intro p f u hu
    obtain ⟨_, hguard, _⟩ := bind_eq_ok.mp hu
    rw [(guardOr_eq_ok.mp hguard).2] at hchan
    cases hchan
  have hat : ∀ {p : UdpPoint} {f : Unit → Exec (UdpRun H)} {u : UdpRun H},
      p ≠ .idle → p ≠ .erring → (guardOr .environment (s.point = p) >>= f) = .ok u → False := by
    intro p f u hidle herring hu
    obtain ⟨_, hguard, _⟩ := bind_eq_ok.mp hu
    rcases hpoint with h | h
    · exact hidle ((guardOr_eq_ok.mp hguard).symm.trans h)
    · exact herring ((guardOr_eq_ok.mp hguard).symm.trans h)
  cases e with
  | act a =>
    obtain ⟨u, hu, rfl⟩ := step_act h
    rwa [← act_point hu] at hpoint
  | readEvent | writEvent | erroEvent =>
    obtain ⟨u, hu, _⟩ := bind_eq_ok.mp h
    exact (hno hu).elim
  | recvfrom a =>
    obtain ⟨u, hu, _⟩ := bind_eq_ok.mp h
    exact (hat (p := .recvfrom) nofun nofun hu).elim
  | sendto a =>
    obtain ⟨u, hu, _⟩ := bind_eq_ok.mp h
    exact (hat (p := .sendto) nofun nofun hu).elim
  | returned =>
    rcases hpoint with hidle | herring
    · rw [elsewhere rfl (by rw [hidle]; nofun) (.inl (by rw [hidle]; nofun)) (fun _ => .inl hidle)] at h
      cases h
    · rw [step_erring herring hdestroy] at h
      cases h
      exact .inl rfl

theorem destroysOutside_of_ne (h : e ≠ .act .destroy) : DestroysOutside s e := by
  unfold DestroysOutside
  split
  · exact absurd rfl h
  · trivial

/-- **A step leaves a handler that stops exactly if it does not destroy the socket in a callback.** -/
theorem stops_step_iff (hs : Kept s) (hsettled : Settled s)
    (hstops : s.world.socket.destroy_ = true → Stops s) (h : s.step e = .ok t) :
    (t.world.socket.destroy_ = true → Stops t) ↔ DestroysOutside s e := by
  have ht := hs.step h
  have hsettled' := (hs.sound.step h).2
  have hafter : t.world.socket.destroy_ = true → (Stops t ↔ t.point = .idle ∨ t.point = .erring) :=
    fun hdestroy => stops_iff ht.sound hsettled' ht.gone hdestroy
  by_cases hdestroy : s.world.socket.destroy_ = true
  · have hpoint := (stops_iff hs.sound hsettled hs.gone hdestroy).mp (hstops hdestroy)
    refine ⟨fun _ => ?_, fun _ hd => (hafter hd).mpr (destroyed_point hs.gone hdestroy hpoint h)⟩
    unfold DestroysOutside
    split
    · exact .inl hdestroy
    · trivial
  · by_cases he : e = .act .destroy
    · subst he
      obtain ⟨hd, hpoint⟩ := step_destroy h
      rw [forall_prop_of_true hd, hafter hd, hpoint]
      exact (or_iff_right hdestroy).symm
    · refine ⟨fun _ => destroysOutside_of_ne he, fun _ hd => (hafter hd).mpr ?_⟩
      obtain ⟨u, hu, rfl⟩ := step_cases hs.sound h
      rcases hu.destroy_cases with hsame | ⟨-, ⟨hact, -⟩ | hidle⟩
      · exact absurd (hsame.symm.trans hd) hdestroy
      · exact absurd hact he
      · exact .inl hidle

/-- A step that returns has not destroyed a socket over a `PollerEpoll`. -/
theorem destroysSafely_iff_of_ok (hs : Kept s) (h : s.step e = .ok t) :
    DestroysSafely s e ↔ DestroysOutside s e := by
  rw [destroysSafely_iff]
  exact and_iff_left fun hdestroys hpoller => destroys_fails hs.connected hpoller hdestroys h

/--
**A run that returns, or ends in an exception, returns, and wherever the socket is destroyed the handlers stop,
exactly if the program never destroys it in an accept, read or completion callback and, over a `PollerEpoll`,
nothing ever destroys it.**
-/
theorem destroyed_stops_iff {es : List (UdpStep H)}
    (h : ∀ f, run step (started poller_) es = .error f → f = .exception) :
    Along step DestroysSafely (started poller_) es ↔
      (∃ s', run step (started poller_) es = .ok s') ∧
      ∀ es' t, es' <+: es → run step (started poller_) es' = .ok t → t.world.socket.destroy_ = true →
        Stops t := by
  refine along_iff_returns (F := (· = .exception)) (B := fun s => Kept s ∧ Settled s) ?_ ?_ ?_
    ⟨kept_started, settled_started⟩ nofun h
  · exact fun _ _ _ hs ht => ⟨hs.1.step ht, (hs.1.sound.step ht).2⟩
  · intro s e t hs hstops ht
    rw [destroysSafely_iff_of_ok hs.1 ht]
    exact stops_step_iff hs.1 hs.2 hstops ht
  · rintro s e f hs - hf rfl hsafe
    obtain ⟨hdestroys, hpoller⟩ := step_exception hs.1 hf
    exact hsafe.poller hdestroys hpoller

/-- A datagram comes, and both callbacks return. -/
def receive : List (UdpStep Unit) :=
  [.readEvent, .recvfrom (.datagram { port_ := 80, addr_ := 1 } [7]), .returned, .returned]

/-- The program destroys the socket in its error callback. -/
def receiveAndFail : List (UdpStep Unit) := receive ++ [.recvfrom .failed, .act .destroy, .returned]

theorem destroyed_stops_erring : (∃ s', run step (started .poll) receiveAndFail = .ok s') ∧
    ∀ es' t, es' <+: receiveAndFail → run step (started .poll) es' = .ok t →
      t.world.socket.destroy_ = true → Stops t := by
  have hrun : (run step (started .poll) receiveAndFail).toOption.map (fun _ => ()) = some () := by
    decide +kernel
  obtain ⟨t, ht, -⟩ := ok_of_toOption_map hrun
  refine (destroyed_stops_iff fun f hf => ?_).mp (by decide +kernel)
  cases ht.symm.trans hf

/-- A datagram is sent, and its completion handler destroys the socket. -/
def sendAndReset : List (UdpStep Unit) :=
  [.act (.connect { port_ := 80, addr_ := 1 }), .act (.send 0 (.string [7] (some ())) trivial), .writEvent,
    .sendto .sent, .act .destroy]

/--
A read callback destroys the socket, and a completion handler does: over a `PollerEpoll` the process ends, and
over the others the handler goes on.
-/
theorem destroyed_in_callbacks :
    (run step (started .epoll) (receive.take 3 ++ [.act .destroy]) = .error .exception ∧
      run step (started .epoll) sendAndReset = .error .exception) ∧
    (∃ t, run step (started .poll) (receive.take 3 ++ [.act .destroy]) = .ok t ∧
      t.world.socket.destroy_ = true ∧ ¬Stops t ∧
      run step t [.returned, .recvfrom .again] = .error .nullDeref) ∧
    ∃ t, run step (started .poll) sendAndReset = .ok t ∧
      t.world.socket.destroy_ = true ∧ ¬Stops t ∧
      run step t [.returned] = .error .emptyContainer := by
  have hread : (run step (started .poll) (receive.take 3 ++ [.act .destroy])).toOption.map
      (fun t => (t.world.socket.destroy_, run step t [.returned, .recvfrom .again]))
      = some (true, .error .nullDeref) := by decide +kernel
  have hcomplete : (run step (started .poll) sendAndReset).toOption.map
      (fun t => (t.world.socket.destroy_, run step t [.returned])) = some (true, .error .emptyContainer) := by
    decide +kernel
  refine ⟨by decide +kernel, ?_, ?_⟩
  · obtain ⟨t, ht, hseen⟩ := ok_of_toOption_map hread
    obtain ⟨hdestroy, hfault⟩ := Prod.mk.inj hseen
    refine ⟨t, ht, hdestroy, fun hstops => ?_, hfault⟩
    cases hstops.safe _ (by simp [UdpStep.goesOn]) _ hfault
  · obtain ⟨t, ht, hseen⟩ := ok_of_toOption_map hcomplete
    obtain ⟨hdestroy, hfault⟩ := Prod.mk.inj hseen
    refine ⟨t, ht, hdestroy, fun hstops => ?_, hfault⟩
    cases hstops.safe _ (by simp [UdpStep.goesOn]) _ hfault

end UdpRun

end Liby
