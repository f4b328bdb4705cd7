import Liby.Infra.Machine
import Liby.Net.EventBatch

/-!
# The back ends of the poller

What `PollerEpoll` and `PollerPoll` keep of the channels: the one in the kernel, the other in
`pollfds_`. After the same calls they have the same channels with the same interest (`Matches`), but
the entries of `pollfds_` that were never used are all under fd 0.
-/

namespace Liby

open Infra

variable {C N : Type _}

/-- The flags that a poller asks the kernel for. -/
structure Interest where
  pollin : Bool
  pollout : Bool
  pollrdhup : Bool
  deriving DecidableEq, Repr

/-- What the kernel reports of the flags of an fd: an error and a hang-up in any case. -/
def Revents.under (revents : Revents) (interest : Interest) : Revents where
  pollin := revents.pollin && interest.pollin
  pollout := revents.pollout && interest.pollout
  pollerr := revents.pollerr
  pollhup := revents.pollhup
  pollrdhup := revents.pollrdhup && interest.pollrdhup

/-- Some flag is set. -/
def Revents.ready (revents : Revents) : Bool :=
  revents.pollin || revents.pollout || revents.pollerr || revents.pollhup || revents.pollrdhup

/-- A call of a channel on its poller, with the interest of the channel. -/
inductive ChannelCall (C : Type _) where
  | addChanel (ch : C) (readable writable : Bool)
  | updateChanel (ch : C) (readable writable : Bool)
  | removeChanel (ch : C)
  deriving DecidableEq, Repr

/-! ## PollerEpoll -/

/-- A `PollerEpoll` with the interest that the kernel has of each fd, and `events_.size()`. -/
structure EpollBackEnd (C N : Type _) where
  poller : PollerEpoll C N
  interest : Nat → Option Interest
  events_ : Nat

namespace EpollBackEnd

/-- The constructor; `defaultEpollSize` is 48. -/
def init : EpollBackEnd C N where
  poller := { channels_ := fun _ => none, eventsSize_ := 0, nextTickHandlers_ := [] }
  interest := fun _ => none
  events_ := 48

/-- `EPOLLHUP | EPOLLRDHUP`, and the interest of the channel. -/
def events (readable writable : Bool) : Interest :=
  { pollin := readable, pollout := writable, pollrdhup := true }

/-- What is asked of an fd. -/
def epollCtl (e : EpollBackEnd C N) (fd : Nat) (interest : Option Interest) : EpollBackEnd C N :=
  { e with interest := fun fd' => if fd' = fd then interest else e.interest fd' }

/-- `addChanel`, `updateChanel` and `removeChanel`. `epoll_ctl` adds what is new and changes what is there. -/
def call (getFd : C → Nat) (e : EpollBackEnd C N) : ChannelCall C → Exec (EpollBackEnd C N)
  | .addChanel ch readable writable => do
    guardOr .exception (e.interest (getFd ch) = none)
    return { e.epollCtl (getFd ch) (some (events readable writable)) with
      poller := e.poller.addChanel getFd ch true }
  | .updateChanel ch readable writable => do
    guardOr .exception ((e.interest (getFd ch)).isSome = true)
    return e.epollCtl (getFd ch) (some (events readable writable))
  | .removeChanel ch => do
    guardOr .exception ((e.interest (getFd ch)).isSome = true)
    return { e.epollCtl (getFd ch) none with poller := e.poller.removeChanel getFd ch }

end EpollBackEnd

/-! ## PollerPoll -/

/-- `struct pollfd`; `revents` is what the kernel puts there. -/
structure Pollfd where
  fd : Int
  events : Interest
  deriving DecidableEq, Repr

/-- What `resize` puts into `pollfds_`. -/
def Pollfd.zero : Pollfd := { fd := 0, events := { pollin := false, pollout := false, pollrdhup := false } }

/-- `class PollerPoll`. -/
structure PollBackEnd (C : Type _) where
  channels_ : Nat → Option C
  pollfds_ : List Pollfd

namespace PollBackEnd

/-- The constructor; `defaultPollSize` is 48. -/
def init : PollBackEnd C where
  channels_ := fun _ => none
  pollfds_ := List.replicate 48 Pollfd.zero

/-- `pollfds_.resize(n)` to more entries. -/
def resize (pollfds_ : List Pollfd) (n : Nat) : List Pollfd :=
  pollfds_ ++ List.replicate (n - pollfds_.length) Pollfd.zero

/-- `addChanel`, `updateChanel` and `removeChanel`. -/
def call (getFd : C → Nat) (p : PollBackEnd C) : ChannelCall C → Exec (PollBackEnd C)
  | .addChanel ch readable writable => do
    let fd := getFd ch
    let pollfd1 : Pollfd :=
      { fd := fd, events := { pollin := readable, pollout := writable, pollrdhup := true } }
    let pollfds_ := if p.pollfds_.length ≤ fd then resize p.pollfds_ (fd * 2 + 1) else p.pollfds_
    let pollfds_ ← writeAt pollfds_ fd pollfd1
    return { channels_ := setChannel p.channels_ fd (some ch), pollfds_ := pollfds_ }
  | .updateChanel ch readable writable => do
    let entry ← readAt p.pollfds_ (getFd ch)
    let events := { entry.events with pollin := readable, pollout := writable }
    let pollfds_ ← writeAt p.pollfds_ (getFd ch) { entry with events := events }
    return { p with pollfds_ := pollfds_ }
  | .removeChanel ch => do
    let entry ← readAt p.pollfds_ (getFd ch)
    let pollfds_ ← writeAt p.pollfds_ (getFd ch) { entry with fd := -1 }
    return { channels_ := setChannel p.channels_ (getFd ch) none, pollfds_ := pollfds_ }

end PollBackEnd

/-! ## The same calls -/

/-- An entry of `pollfds_` for an fd with this interest: one without interest was removed, or never used. -/
def Pollfd.For (fd : Nat) (interest : Option Interest) (entry : Pollfd) : Prop :=
  match interest with
  | some events => entry = { fd := fd, events := events }
  | none => entry.fd < 0 ∨ entry = Pollfd.zero

/-- The back ends have the same channels with the same interest. -/
structure Matches (e : EpollBackEnd C N) (p : PollBackEnd C) : Prop where
  channels : e.poller.channels_ = p.channels_
  registered : ∀ fd, (e.interest fd).isSome = (e.poller.channels_ fd).isSome
  /-- What is asked of the kernel is in `pollfds_`. -/
  room : ∀ fd, (e.interest fd).isSome = true → fd < p.pollfds_.length
  entries : ∀ (fd : Nat) (entry : Pollfd), p.pollfds_[fd]? = some entry → entry.For fd (e.interest fd)
  hangup : ∀ fd events, e.interest fd = some events → events.pollrdhup = true

theorem matches_init : Matches (EpollBackEnd.init : EpollBackEnd C N) PollBackEnd.init where
  channels := rfl
  registered _ := rfl
  room _ h := by cases h
  entries fd entry h := by
    exact .inr (List.eq_of_mem_replicate (List.mem_of_getElem? h))
  hangup _ _ h := by cases h

variable {getFd : C → Nat} {e e' : EpollBackEnd C N} {p : PollBackEnd C}

/-- The entry of an fd with interest. -/
theorem Matches.entry (h : Matches e p) {fd : Nat} {events : Interest}
    (hinterest : e.interest fd = some events) :
    p.pollfds_[fd]? = some { fd := fd, events := events } := by
  have hroom := h.room fd (by rw [hinterest]; rfl)
  have hentry := List.getElem?_eq_getElem hroom
  have hfor := h.entries fd _ hentry
  rw [hinterest] at hfor
  rw [hentry, hfor]

/-- Both back ends are told the interest of one fd, and have the same channel for it. -/
theorem Matches.set (h : Matches e p) (fd : Nat) (interest : Option Interest) (ch : Option C)
    (entry : Pollfd) {poller : PollerEpoll C N} {pollfds_ : List Pollfd} (hlt : fd < pollfds_.length) (hlength : p.pollfds_.length ≤ pollfds_.length)
    (hpoller : poller.channels_ = setChannel e.poller.channels_ fd ch)
    (hch : interest.isSome = ch.isSome) (hentry : entry.For fd interest)
    (hhangup : ∀ events, interest = some events → events.pollrdhup = true)
    (hold : ∀ (fd' : Nat) (entry' : Pollfd), pollfds_[fd']? = some entry' →
      entry'.For fd' (e.interest fd')) :
    Matches { e.epollCtl fd interest with poller := poller }
      { channels_ := setChannel p.channels_ fd ch, pollfds_ := pollfds_.set fd entry } where
  channels := by
    rw [← h.channels]
    exact hpoller
  registered fd' := by
    dsimp only [EpollBackEnd.epollCtl]
    rw [hpoller]
    unfold setChannel
    split
    · exact hch
    · exact h.registered fd'
  room fd' hsome := by
    dsimp only [EpollBackEnd.epollCtl] at hsome ⊢
    rw [List.length_set]
    split at hsome
    · next heq => rw [heq]; exact hlt
    · exact Nat.lt_of_lt_of_le (h.room fd' hsome) hlength
  entries fd' entry' hentry' := by
    dsimp only [EpollBackEnd.epollCtl] at hentry' ⊢
    rw [List.getElem?_set] at hentry'
    split at hentry'
    · next heq =>
      subst heq
      cases hentry'
      rw [if_pos rfl]
      exact hentry
    · next hne =>
      rw [if_neg fun heq => hne heq.symm]
      exact hold fd' entry' hentry'
  hangup fd' events hsome := by
    dsimp only [EpollBackEnd.epollCtl] at hsome
    split at hsome
    · exact hhangup events hsome
    · exact h.hangup fd' events hsome

/-- Entries that `resize` adds were never used. -/
theorem Matches.resize (h : Matches e p) {n : Nat} (fd : Nat) (entry : Pollfd)
    (hentry : (PollBackEnd.resize p.pollfds_ n)[fd]? = some entry) : entry.For fd (e.interest fd) := by
  unfold PollBackEnd.resize at hentry
  by_cases hlt : fd < p.pollfds_.length
  · rw [List.getElem?_append_left hlt] at hentry
    exact h.entries fd entry hentry
  · rw [List.getElem?_append_right (Nat.le_of_not_lt hlt)] at hentry
    have hzero := List.eq_of_mem_replicate (List.mem_of_getElem? hentry)
    have hnone : e.interest fd = none := by
      rw [← Option.not_isSome_iff_eq_none]
      exact fun hsome => hlt (h.room fd hsome)
    rw [hnone]
    exact .inr hzero

theorem setChannel_self {channels_ : Nat → Option C} {fd : Nat} {ch : C}
    (h : channels_ fd = some ch) : setChannel channels_ fd (some ch) = channels_ := by
  funext fd'
  unfold setChannel
  split
  · next heq => rw [heq, h]
  · rfl

/-- **A call that `PollerEpoll` takes, `PollerPoll` takes too, and the back ends match again.** -/
theorem Matches.call (h : Matches e p) {call : ChannelCall C} (he : e.call getFd call = .ok e') :
    ∃ p', p.call getFd call = .ok p' ∧ Matches e' p' := by
  cases call with
  | addChanel ch readable writable =>
    obtain ⟨-, -, he⟩ := bind_eq_ok.mp he
    cases he
    let pollfds_ := if p.pollfds_.length ≤ getFd ch then
      PollBackEnd.resize p.pollfds_ (getFd ch * 2 + 1) else p.pollfds_
    -- the array is made long enough for the descriptor
    have hlength : getFd ch < pollfds_.length ∧ p.pollfds_.length ≤ pollfds_.length := by
      dsimp only [pollfds_]
      split
      · unfold PollBackEnd.resize
        rw [List.length_append, List.length_replicate]
        omega
      · omega
    have hold : ∀ (fd : Nat) (entry : Pollfd), pollfds_[fd]? = some entry →
        entry.For fd (e.interest fd) := by
      dsimp only [pollfds_]
      split
      · exact h.resize
      · exact h.entries
    refine ⟨_, ?_, h.set (getFd ch) (some (EpollBackEnd.events readable writable)) (some ch) _
      hlength.1 hlength.2 rfl rfl rfl (fun events heq => by cases heq; rfl) hold⟩
    show writeAt pollfds_ (getFd ch) _ >>= _ = _
    rw [writeAt_of_lt hlength.1]
    rfl
  | updateChanel ch readable writable =>
    obtain ⟨_, hsome, he⟩ := bind_eq_ok.mp he
    cases he
    have hregistered := guardOr_eq_ok.mp hsome
    obtain ⟨events, hevents⟩ := Option.isSome_iff_exists.mp hregistered
    obtain ⟨ch', hch'⟩ := Option.isSome_iff_exists.mp ((h.registered _).symm.trans hregistered)
    have hroom := h.room _ hregistered
    have hhangup := h.hangup _ events hevents
    have hset := h.set (getFd ch) (some (EpollBackEnd.events readable writable)) (some ch')
      { fd := getFd ch, events := EpollBackEnd.events readable writable }
      hroom (Nat.le_refl _) (setChannel_self hch').symm rfl rfl (fun events heq => by cases heq; rfl) h.entries
    rw [h.channels] at hch'
    rw [setChannel_self hch'] at hset
    refine ⟨_, ?_, hset⟩
    show readAt p.pollfds_ (getFd ch) >>= _ = _
    rw [readAt_eq_ok.mpr (h.entry hevents), ok_bind]
    dsimp only
    rw [writeAt_of_lt hroom, hhangup]
    rfl
  | removeChanel ch =>
    obtain ⟨_, hsome, he⟩ := bind_eq_ok.mp he
    cases he
    have hregistered := guardOr_eq_ok.mp hsome
    obtain ⟨events, hevents⟩ := Option.isSome_iff_exists.mp hregistered
    have hroom := h.room _ hregistered
    refine ⟨_, ?_, h.set (getFd ch) none none { fd := -1, events := events } hroom (Nat.le_refl _) rfl rfl (.inl (Int.negSucc_lt_zero 0))
      (fun events heq => by cases heq) h.entries⟩
    show readAt p.pollfds_ (getFd ch) >>= _ = _
    rw [readAt_eq_ok.mpr (h.entry hevents), ok_bind]
    dsimp only
    rw [writeAt_of_lt hroom]
    rfl

/-- The back ends after the same calls. -/
theorem matches_run {calls : List (ChannelCall C)} {e : EpollBackEnd C N}
    (h : run (EpollBackEnd.call getFd) EpollBackEnd.init calls = .ok e) :
    ∃ p, run (PollBackEnd.call getFd) PollBackEnd.init calls = .ok p ∧ Matches e p :=
  run_simulates (fun _ _ _ _ hmatch hcall => hmatch.call hcall) matches_init h

end Liby
