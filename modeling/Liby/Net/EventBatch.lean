import Liby.Net.Poller

/-!
# A batch of events

The table of channels of a `PollerEpoll` while `loop_once` goes over the events that `epoll_wait` gave.
A handler may destroy channels and register others. The loop looks a channel up by the fd of the event,
and the only test is that there is one: when the fd was closed and opened again in between, the
event goes to a channel that it was not reported for.
-/

namespace Liby

open Infra

variable {σ C N : Type _}

/-! ## The poller -/

/-- What a handler calls on its poller. `ctl` is whether `epoll_ctl` takes the fd. -/
inductive PollerCall (C N : Type _) where
  | addChanel (ch : C) (ctl : Bool)
  | updateChanel (ch : C)
  | removeChanel (ch : C)
  | nextTick (handler : N)
  deriving DecidableEq, Repr

/-- `class PollerEpoll` and `class Poller`. A null pointer in the table is `none`. -/
structure PollerEpoll (C N : Type _) where
  channels_ : Nat → Option C
  eventsSize_ : Nat
  nextTickHandlers_ : List N

/-- `setChannel`. -/
def setChannel (channels_ : Nat → Option C) (fd : Nat) (ch : Option C) : Nat → Option C :=
  fun fd' => if fd' = fd then ch else channels_ fd'

namespace PollerEpoll

variable (getFd : C → Nat)

/-- `addChanel`, up to the exception when `epoll_ctl` fails. `eventsSize_` is a `size_t`. -/
def addChanel (p : PollerEpoll C N) (ch : C) (ctl : Bool) : PollerEpoll C N :=
  if ctl then { p with
    channels_ := setChannel p.channels_ (getFd ch) (some ch)
    eventsSize_ := (p.eventsSize_ + 1) % 2 ^ 64 }
  else p

/-- `removeChanel`, which changes the table whether `epoll_ctl` fails or not. -/
def removeChanel (p : PollerEpoll C N) (ch : C) : PollerEpoll C N :=
  { p with
    channels_ := setChannel p.channels_ (getFd ch) none
    eventsSize_ := (p.eventsSize_ + (2 ^ 64 - 1)) % 2 ^ 64 }

/-- One call of a handler. -/
def call (p : PollerEpoll C N) : PollerCall C N → PollerEpoll C N
  | .addChanel ch ctl => p.addChanel getFd ch ctl
  | .updateChanel _ => p
  | .removeChanel ch => p.removeChanel getFd ch
  | .nextTick handler => { p with nextTickHandlers_ := p.nextTickHandlers_ ++ [handler] }

end PollerEpoll

/-- What a handler does: what it calls, and whether an exception leaves it then. -/
structure Script (σ C N : Type _) where
  world : σ
  calls : List (PollerCall C N)
  throws : Bool

/-- The channels and what their handlers do. -/
structure Handlers (σ C N : Type _) where
  getFd : C → Nat
  event : C → Handler → σ → Script σ C N
  tick : N → σ → Script σ C N

/-- The state of a batch. `calls` is what handlers have called since `epoll_wait` returned. -/
structure EventBatch (σ C N : Type _) where
  poller : PollerEpoll C N
  world : σ
  calls : List (PollerCall C N)

namespace EventBatch

variable (h : Handlers σ C N)

/-- `epoll_wait` has returned. -/
def init (poller : PollerEpoll C N) (world : σ) : EventBatch σ C N where
  poller := poller
  world := world
  calls := []

/-- A handler runs. -/
def perform (s : EventBatch σ C N) (script : Script σ C N) : Exec (EventBatch σ C N) :=
  if script.throws then .error .exception
  else .ok {
    poller := script.calls.foldl (PollerEpoll.call h.getFd) s.poller
    world := script.world
    calls := s.calls ++ script.calls }

/-- `runNextTickHandlers`, from the handler `i` on: what handlers put off is run in the same go. -/
def runNextTickHandlers : Nat → Nat → EventBatch σ C N → Exec (EventBatch σ C N)
  | 0, _, _ => .error .diverges
  | n + 1, i, s =>
    match s.poller.nextTickHandlers_[i]? with
    | none => .ok { s with poller := { s.poller with nextTickHandlers_ := [] } }
    | some handler => s.perform h (h.tick handler s.world) >>= runNextTickHandlers n (i + 1)

/-- The loop of `PollerEpoll` over the batch; `n` bounds the handlers put off. -/
def reactor (n : Nat) : Reactor (EventBatch σ C N) C where
  getChannel s fd := s.poller.channels_ fd
  handle _ ch handler s := s.perform h (h.event ch handler s.world)
  runNextTickHandlers := runNextTickHandlers h n 0

/-! ## The table and the calls -/

/-- The call changes what is registered under `fd`. -/
def Touches (getFd : C → Nat) (fd : Nat) : PollerCall C N → Prop
  | .addChanel ch ctl => getFd ch = fd ∧ ctl = true
  | .removeChanel ch => getFd ch = fd
  | _ => False

/-- One of the calls registered the channel, and no later one changed what is under its fd. -/
def Added (getFd : C → Nat) (calls : List (PollerCall C N)) (ch : C) : Prop :=
  ∃ before after, calls = before ++ .addChanel ch true :: after ∧
    ∀ call ∈ after, ¬Touches getFd (getFd ch) call

variable {getFd : C → Nat} {fd : Nat}

theorem call_touches {p : PollerEpoll C N} {call : PollerCall C N} {ch : C}
    (h : Touches getFd fd call) : (p.call getFd call).channels_ fd = some ch ↔
      call = .addChanel ch true := by
  cases call with
  | addChanel ch' ctl =>
    obtain ⟨rfl, rfl⟩ := h
    simp [PollerEpoll.call, PollerEpoll.addChanel, setChannel]
  | removeChanel ch' =>
    cases h
    simp [PollerEpoll.call, PollerEpoll.removeChanel, setChannel]
  | updateChanel ch' => exact h.elim
  | nextTick handler => exact h.elim

theorem call_other {p : PollerEpoll C N} {call : PollerCall C N} (h : ¬Touches getFd fd call) :
    (p.call getFd call).channels_ fd = p.channels_ fd := by
  cases call with
  | addChanel ch ctl =>
    cases ctl with
    | false => rfl
    | true =>
      have hne : fd ≠ getFd ch := fun heq => h ⟨heq.symm, rfl⟩
      exact if_neg hne
  | removeChanel ch =>
    have hne : fd ≠ getFd ch := fun heq => h heq.symm
    exact if_neg hne
  | updateChanel ch => rfl
  | nextTick handler => rfl

theorem added_cons {call : PollerCall C N} {calls : List (PollerCall C N)} {ch : C} :
    Added getFd (call :: calls) ch ↔
      (call = .addChanel ch true ∧ ∀ call ∈ calls, ¬Touches getFd (getFd ch) call) ∨
        Added getFd calls ch := by
  constructor
  · rintro ⟨before, after, hsplit, hafter⟩
    cases before with
    | nil =>
      obtain ⟨rfl, rfl⟩ := List.cons.inj hsplit
      exact .inl ⟨rfl, hafter⟩
    | cons first before => exact .inr ⟨before, after, (List.cons.inj hsplit).2, hafter⟩
  · rintro (⟨rfl, hafter⟩ | ⟨before, after, rfl, hafter⟩)
    · exact ⟨[], calls, rfl, hafter⟩
    · exact ⟨call :: before, after, rfl, hafter⟩

/-- **What is registered under an fd**: what was added last, or what was there from the start. -/
theorem foldl_call_channels (fd : Nat) (ch : C) : ∀ (calls : List (PollerCall C N))
    (p : PollerEpoll C N), (calls.foldl (PollerEpoll.call getFd) p).channels_ fd = some ch ↔
      (getFd ch = fd ∧ Added getFd calls ch) ∨
        (p.channels_ fd = some ch ∧ ∀ call ∈ calls, ¬Touches getFd fd call)
  | [], p => by simp [Added]
  | call :: calls, p => by
    rw [List.foldl_cons, foldl_call_channels fd ch calls, added_cons, List.forall_mem_cons]
    by_cases htouch : Touches getFd fd call
    · rw [call_touches htouch]
      constructor
      · rintro (⟨hfd, hadded⟩ | ⟨rfl, hrest⟩)
        · exact .inl ⟨hfd, .inr hadded⟩
        · have hfd : getFd ch = fd := htouch.1
          exact .inl ⟨hfd, .inl ⟨rfl, by rw [hfd]; exact hrest⟩⟩
      · rintro (⟨rfl, ⟨hcall, hrest⟩ | hadded⟩ | ⟨-, hnot, -⟩)
        · exact .inr ⟨hcall, hrest⟩
        · exact .inl ⟨rfl, hadded⟩
        · exact absurd htouch hnot
    · rw [call_other htouch]
      constructor
      · rintro (⟨hfd, hadded⟩ | ⟨hch, hrest⟩)
        · exact .inl ⟨hfd, .inr hadded⟩
        · exact .inr ⟨hch, htouch, hrest⟩
      · rintro (⟨rfl, ⟨rfl, -⟩ | hadded⟩ | ⟨hch, -, hrest⟩)
        · exact absurd ⟨rfl, rfl⟩ htouch
        · exact .inl ⟨rfl, hadded⟩
        · exact .inr ⟨hch, hrest⟩

/-! ## Runs of the loop -/

/-- The table is what the calls of the handlers have made of `poller`. -/
def Tracks (getFd : C → Nat) (poller : PollerEpoll C N) (s : EventBatch σ C N) : Prop :=
  s.poller.channels_ = (s.calls.foldl (PollerEpoll.call getFd) poller).channels_

/-- What the calls do to the table depends on the table alone. -/
theorem foldl_call_congr : ∀ (calls : List (PollerCall C N)) {p q : PollerEpoll C N},
    p.channels_ = q.channels_ → (calls.foldl (PollerEpoll.call getFd) p).channels_ =
      (calls.foldl (PollerEpoll.call getFd) q).channels_
  | [], _, _, heq => heq
  | call :: calls, p, q, heq => by
    refine foldl_call_congr calls ?_
    cases call with
    | addChanel ch ctl =>
      cases ctl with
      | false => exact heq
      | true => exact congrArg (fun channels_ => setChannel channels_ (getFd ch) (some ch)) heq
    | removeChanel ch => exact congrArg (fun channels_ => setChannel channels_ (getFd ch) none) heq
    | updateChanel ch => exact heq
    | nextTick handler => exact heq

variable {h : Handlers σ C N} {poller : PollerEpoll C N} {s s' : EventBatch σ C N}

theorem Tracks.perform (ht : Tracks h.getFd poller s) {script : Script σ C N}
    (hs : s.perform h script = .ok s') : Tracks h.getFd poller s' := by
  unfold EventBatch.perform at hs
  split at hs
  · cases hs
  · cases hs
    show (script.calls.foldl (PollerEpoll.call h.getFd) s.poller).channels_ = _
    rw [List.foldl_append]
    exact foldl_call_congr script.calls ht

theorem Tracks.tick : ∀ {n i : Nat} {s s' : EventBatch σ C N}, Tracks h.getFd poller s →
    runNextTickHandlers h n i s = .ok s' → Tracks h.getFd poller s'
  | 0, _, _, _, _, hs => by cases hs
  | n + 1, i, s, s', ht, hs => by
    unfold runNextTickHandlers at hs
    split at hs
    · cases hs
      exact ht
    · obtain ⟨s1, h1, hs⟩ := bind_eq_ok.mp hs
      exact (ht.perform h1).tick hs

/-- The table before each event. -/
theorem tracks_loopOnce {n : Nat} {world : σ} {batch : List (Nat × Revents)}
    (hs : PollerEpoll.loopOnce (reactor h n) (init poller world) batch = .ok s) :
    Tracks h.getFd poller s := by
  have hinit : Tracks h.getFd poller (init poller world) := rfl
  refine PollerEpoll.loopOnce_keeps (r := reactor h n) ?_ ?_ hinit hs
  · intro fd ch handler s1 s2 ht hperform
    exact ht.perform hperform
  · intro s1 s2 ht htick
    exact ht.tick htick

/-- Each call for an event is made on the channel that was registered when `epoll_wait` returned. -/
def OnlyRegistered (h : Handlers σ C N) (n : Nat) (poller : PollerEpoll C N) (world : σ)
    (batch : List (Nat × Revents)) : Prop :=
  ∀ before fd events after, batch = before ++ (fd, events) :: after →
    ∀ s, PollerEpoll.loopOnce (reactor h n) (init poller world) before = .ok s →
    ∀ ch handler, PollerEpoll.called (reactor h n) s fd events = some (ch, handler) →
      poller.channels_ fd = some ch

/-- Handlers have added another channel under the fd, and it is still there. -/
def Reused (h : Handlers σ C N) (poller : PollerEpoll C N) (s : EventBatch σ C N) (fd : Nat) : Prop :=
  ∃ ch, h.getFd ch = fd ∧ Added h.getFd s.calls ch ∧ poller.channels_ fd ≠ some ch

/--
**When events reach only the channels they were reported for**: exactly when no event with a flag that
the loop knows comes after a handler has registered another channel under its fd that is still there.
-/
theorem onlyRegistered_iff (h : Handlers σ C N) (n : Nat) (poller : PollerEpoll C N) (world : σ)
    (batch : List (Nat × Revents)) : OnlyRegistered h n poller world batch ↔
      ∀ before fd events after, batch = before ++ (fd, events) :: after →
        (PollerEpoll.selected events).isSome = true →
        ∀ s, PollerEpoll.loopOnce (reactor h n) (init poller world) before = .ok s →
          ¬Reused h poller s fd := by
  constructor
  · rintro honly before fd events after hbatch hselected s hs ⟨ch, rfl, hadded, hother⟩
    obtain ⟨handler, hhandler⟩ := Option.isSome_iff_exists.mp hselected
    have hch : s.poller.channels_ (h.getFd ch) = some ch := by
      rw [tracks_loopOnce hs, foldl_call_channels]
      exact .inl ⟨rfl, hadded⟩
    refine hother (honly before _ events after hbatch s hs ch handler ?_)
    have hget : (reactor h n).getChannel s (h.getFd ch) = some ch := hch
    unfold PollerEpoll.called
    rw [hget, hhandler]
  · intro hnot before fd events after hbatch s hs ch handler hcalled
    unfold PollerEpoll.called at hcalled
    split at hcalled
    · next ch' handler' hget hhandler =>
      cases hcalled
      have hch : s.poller.channels_ fd = some ch := hget
      rw [tracks_loopOnce hs, foldl_call_channels] at hch
      rcases hch with ⟨hfd, hadded⟩ | ⟨hch, -⟩
      · by_contra hother
        exact hnot before fd events after hbatch (by rw [hhandler]; rfl) s hs
          ⟨ch, hfd, hadded, hother⟩
      · exact hch
    · cases hcalled

/-- An fd, and how often it was opened before. -/
abbrev Opened := Nat × Nat

/--
A connection under fd 5 whose read handler closes the one under fd 6, and a listener under fd 4 that
accepts the next connection: the kernel gives it the fd 6.
-/
def closing : Handlers Unit Opened Empty where
  getFd := Prod.fst
  event ch _ _ :=
    { world := ()
      calls := if ch = (5, 0) then [.removeChanel (6, 0)]
        else if ch = (4, 0) then [.addChanel (6, 1) true] else []
      throws := false }
  tick handler := nomatch handler

/-- The listener and two connections. -/
def threeChannels : PollerEpoll Opened Empty where
  channels_ fd := if fd = 4 ∨ fd = 5 ∨ fd = 6 then some (fd, 0) else none
  eventsSize_ := 3
  nextTickHandlers_ := []

/-- Something to read, and nothing else. -/
def readable : Revents :=
  { pollin := true, pollout := false, pollerr := false, pollhup := false, pollrdhup := false }

/-- What was to be read from the old connection is taken for input of the new one. -/
theorem not_onlyRegistered_reused :
    ¬OnlyRegistered closing 1 threeChannels () [(5, readable), (4, readable), (6, readable)] := by
  intro h
  let s : EventBatch Unit Opened Empty := {
    poller := {
      channels_ := setChannel (setChannel threeChannels.channels_ 6 none) 6 (some (6, 1))
      eventsSize_ := 3
      nextTickHandlers_ := [] }
    world := ()
    calls := [.removeChanel (6, 0), .addChanel (6, 1) true] }
  have hrun : PollerEpoll.loopOnce (reactor closing 1) (init threeChannels ())
      [(5, readable), (4, readable)] = .ok s := rfl
  have hold := h [(5, readable), (4, readable)] 6 readable [] rfl s hrun (6, 1) .read rfl
  exact absurd hold (by decide)

end EventBatch

end Liby
