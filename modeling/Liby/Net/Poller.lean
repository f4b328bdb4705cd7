import Liby.Infra.Fault

/-!
# Poller

The loops of `PollerEpoll.cpp` and `PollerPoll.cpp` over what the kernel reports. They do not know
the channels: they look one up under an fd and call a handler of it, and the handler may do
anything to the state, the table of channels included.
-/

namespace Liby

open Infra

variable {S C : Type _}

/-- The handlers of a channel: `handleReadEvent`, `handleWritEvent` and `handleErroEvent`. -/
inductive Handler where
  | read
  | writ
  | erro
  deriving DecidableEq, Repr

/-- What the kernel reports for an fd: `EPOLLIN` or `POLLIN`, and so on. -/
structure Revents where
  pollin : Bool
  pollout : Bool
  pollerr : Bool
  pollhup : Bool
  pollrdhup : Bool
  deriving DecidableEq, Repr

/-- What a loop uses: the table of channels, the calls of handlers, and the handlers put off. -/
structure Reactor (S C : Type _) where
  getChannel : S → Nat → Option C
  handle : Nat → C → Handler → S → Exec S
  runNextTickHandlers : S → Exec S

/-- The flags that both loops take for an error. -/
def Revents.failed (revents : Revents) : Bool := revents.pollerr || revents.pollrdhup

namespace PollerEpoll

variable (r : Reactor S C)

/-- What the flags of an event select: one handler at most. -/
def selected (events : Revents) : Option Handler :=
  if events.failed then some .erro
  else if events.pollin then some .read
  else if events.pollout then some .writ
  else none

/-- The body of the loop for one event. -/
def handleEvent (s : S) (fd : Nat) (events : Revents) : Exec S :=
  match r.getChannel s fd with
  | none => .ok s
  | some ch =>
    match selected events with
    | some handler => r.handle fd ch handler s
    | none => .ok s

/-- `loop_once`, over the events that `epoll_wait` has given. -/
def loopOnce (s : S) : List (Nat × Revents) → Exec S
  | [] => .ok s
  | (fd, events) :: rest => do
    let s ← handleEvent r s fd events
    let s ← r.runNextTickHandlers s
    loopOnce s rest

variable {r}

theorem handleEvent_of_channel {s : S} {fd : Nat} {ch : C} (h : r.getChannel s fd = some ch)
    (events : Revents) : handleEvent r s fd events =
      match selected events with
      | some handler => r.handle fd ch handler s
      | none => .ok s := by
  unfold handleEvent
  rw [h]

theorem handleEvent_of_none {s : S} {fd : Nat} (h : r.getChannel s fd = none) (events : Revents) :
    handleEvent r s fd events = .ok s := by
  unfold handleEvent
  rw [h]

theorem selected_failed {events : Revents} (h : events.failed = true) :
    selected events = some .erro := if_pos h

variable (r) in
/-- The call that the loop makes for an event. -/
def called (s : S) (fd : Nat) (events : Revents) : Option (C × Handler) :=
  match r.getChannel s fd, selected events with
  | some ch, some handler => some (ch, handler)
  | _, _ => none

theorem handleEvent_called (s : S) (fd : Nat) (events : Revents) : handleEvent r s fd events =
    match called r s fd events with
    | some (ch, handler) => r.handle fd ch handler s
    | none => .ok s := by
  unfold handleEvent called
  cases r.getChannel s fd with
  | none => rfl
  | some ch => cases selected events <;> rfl

/-- What every handler keeps, the loop keeps. -/
theorem loopOnce_keeps {I : S → Prop}
    (hhandle : ∀ fd ch handler s s', I s → r.handle fd ch handler s = .ok s' → I s')
    (htick : ∀ s s', I s → r.runNextTickHandlers s = .ok s' → I s') :
    ∀ {batch : List (Nat × Revents)} {s s' : S}, I s → loopOnce r s batch = .ok s' → I s'
  | [], _, _, hi, h => by
    cases h
    exact hi
  | (fd, events) :: batch, s, s', hi, h => by
    obtain ⟨s1, h1, h⟩ := bind_eq_ok.mp h
    obtain ⟨s2, h2, h⟩ := bind_eq_ok.mp h
    refine loopOnce_keeps hhandle htick (htick s1 s2 ?_ h2) h
    rw [handleEvent_called] at h1
    split at h1
    · exact hhandle _ _ _ _ _ hi h1
    · cases h1
      exact hi

theorem loopOnce_single (s : S) (fd : Nat) (events : Revents) :
    loopOnce r s [(fd, events)] = handleEvent r s fd events >>= r.runNextTickHandlers := by
  unfold loopOnce loopOnce
  exact congrArg _ (funext fun s' => bind_pure _)

end PollerEpoll

namespace PollerPoll

variable (r : Reactor S C)

/--
The body of the loop for one entry, and whether `nready` goes down. The `continue` after an error
leaves `nready` as it is.
-/
def handleEntry (s : S) (fd : Int) (revent : Revents) : Exec (S × Bool) :=
  if fd < 0 then .ok (s, false)
  else
    match r.getChannel s fd.toNat with
    | none => .ok (s, false)
    | some ch =>
      if revent.failed then do
        let s ← r.handle fd.toNat ch .erro s
        return (s, false)
      else do
        let s ← (if revent.pollin then r.handle fd.toNat ch .read s else .ok s)
        -- the read handler may have removed the channel
        match (if revent.pollout then r.getChannel s fd.toNat else none) with
        | none => return (s, revent.pollin)
        | some ch => do
          let s ← r.handle fd.toNat ch .writ s
          return (s, true)

/-- `loop_once`, over the entries of `pollfds_` with what `poll` has put there. -/
def loopOnce (s : S) : List (Int × Revents) → Int → Exec S
  | [], _ => .ok s
  | (fd, revent) :: rest, nready =>
    if nready ≤ 0 then .ok s
    else do
      let (s, flag) ← handleEntry r s fd revent
      let s ← r.runNextTickHandlers s
      loopOnce s rest (if flag then nready - 1 else nready)

variable {r}

theorem handleEntry_failed {s : S} {fd : Nat} {ch : C} (h : r.getChannel s fd = some ch)
    {revent : Revents} (hfailed : revent.failed = true) : handleEntry r s fd revent =
      r.handle fd ch .erro s >>= fun s => .ok (s, false) := by
  unfold handleEntry
  rw [if_neg (by omega), Int.toNat_natCast, h]
  dsimp only
  rw [if_pos hfailed]
  rfl

theorem handleEntry_none {s : S} {fd : Nat} (h : r.getChannel s fd = none) (revent : Revents) :
    handleEntry r s fd revent = .ok (s, false) := by
  unfold handleEntry
  rw [if_neg (by omega), Int.toNat_natCast, h]

/-- An entry without an error: the read handler, and then the write handler if the channel is there. -/
theorem handleEntry_of_channel {s : S} {fd : Nat} {ch : C} (h : r.getChannel s fd = some ch)
    {revent : Revents} (hfailed : revent.failed = false) : handleEntry r s fd revent =
      (if revent.pollin then r.handle fd ch .read s else .ok s) >>= fun s =>
        match (if revent.pollout then r.getChannel s fd else none) with
        | none => .ok (s, revent.pollin)
        | some ch => r.handle fd ch .writ s >>= fun s => .ok (s, true) := by
  unfold handleEntry
  rw [if_neg (by omega), Int.toNat_natCast, h]
  dsimp only
  rw [hfailed, if_neg Bool.false_ne_true]
  rfl

theorem loopOnce_single (s : S) (fd : Int) (revent : Revents) :
    loopOnce r s [(fd, revent)] 1 =
      handleEntry r s fd revent >>= fun x => r.runNextTickHandlers x.1 := by
  unfold loopOnce
  rw [if_neg (by decide)]
  refine congrArg _ (funext fun x => ?_)
  unfold loopOnce
  exact bind_pure _

end PollerPoll

end Liby
