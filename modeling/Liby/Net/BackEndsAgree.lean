import Liby.Net.BackEnds

/-!
# When the back ends agree

One `loop_once` of `PollerEpoll` and one of `PollerPoll`, for the same channels and the same flags, with
handlers that leave the channels as they are.

An event of `PollerEpoll` selects one handler, so an fd that is readable and writable is only read; and
`epoll_wait` gives no more events than `events_` has room for. `PollerPoll` meets an error of fd 0
again at every entry of `pollfds_` that was never used.
-/

namespace Liby

open Infra

variable {σ C N : Type _}

/-! ## What the kernel reports -/

/-- The flags of an fd that its poller asked for. -/
def EpollBackEnd.flags (e : EpollBackEnd C N) (state : Nat → Revents) (fd : Nat) : Revents :=
  match e.interest fd with
  | some interest => (state fd).under interest
  | none => ⟨false, false, false, false, false⟩

/-- What `epoll_wait` gives: an event for each ready fd, as far as `events_` has room. -/
structure EpollWait (e : EpollBackEnd C N) (state : Nat → Revents) (batch : List (Nat × Revents)) :
    Prop where
  nodup : (batch.map Prod.fst).Nodup
  flags : ∀ event ∈ batch, (e.interest event.1).isSome = true ∧ event.2 = e.flags state event.1
  ready : ∀ event ∈ batch, event.2.ready = true
  size : batch.length ≤ e.events_
  all : batch.length < e.events_ → ∀ fd, (e.flags state fd).ready = true → fd ∈ batch.map Prod.fst

/-- What `poll` puts into an entry; an entry under a negative fd is passed over. -/
def Pollfd.revents (state : Nat → Revents) (entry : Pollfd) : Revents :=
  if entry.fd < 0 then ⟨false, false, false, false, false⟩
  else (state entry.fd.toNat).under entry.events

/-- The entries after `poll`. -/
def PollBackEnd.poll (p : PollBackEnd C) (state : Nat → Revents) : List (Int × Revents) :=
  p.pollfds_.map fun entry => (entry.fd, entry.revents state)

/-- What `poll` returns: the number of entries with a flag. -/
def nready (entries : List (Int × Revents)) : Nat :=
  (entries.filter fun entry => entry.2.ready).length

/-! ## The calls of a loop -/

/-- What handlers have been called, with the fd they were called for. -/
structure Dispatch (σ C : Type _) where
  world : σ
  calls : List (Nat × C × Handler)

/-- Handlers that leave the channels as they are. -/
def dispatcher (channels_ : Nat → Option C) (handle : Nat → C → Handler → σ → σ) (tick : σ → σ) :
    Reactor (Dispatch σ C) C where
  getChannel _ fd := channels_ fd
  handle fd ch handler s :=
    .ok { world := handle fd ch handler s.world, calls := s.calls ++ [(fd, ch, handler)] }
  runNextTickHandlers s := .ok { s with world := tick s.world }

/-- The calls for one fd. -/
def callsFor (calls : List (Nat × C × Handler)) (fd : Nat) : List (C × Handler) :=
  (calls.filter fun call => call.1 == fd).map Prod.snd

/-- The handlers for some flags: the one for errors alone, or the one for reading and the one for writing. -/
def handlersFor (events : Revents) : List Handler :=
  if events.failed then [.erro]
  else (if events.pollin then [.read] else []) ++ (if events.pollout then [.writ] else [])

theorem handlersFor_of_not_ready {events : Revents} (h : events.ready = false) :
    handlersFor events = [] := by
  obtain ⟨pollin, pollout, pollerr, pollhup, pollrdhup⟩ := events
  unfold Revents.ready at h
  simp only [Bool.or_eq_false_iff] at h
  obtain ⟨⟨⟨⟨rfl, rfl⟩, rfl⟩, -⟩, rfl⟩ := h
  rfl

theorem handlersFor_of_not_failed {events : Revents} (h : events.failed = false) :
    handlersFor events =
      (if events.pollin then [.read] else []) ++ (if events.pollout then [.writ] else []) := by
  unfold handlersFor
  rw [h]
  rfl

/-- An event of `PollerEpoll` selects what it should, unless the fd is readable and writable. -/
theorem selected_eq_iff (events : Revents) :
    (PollerEpoll.selected events).toList = handlersFor events ↔
      ¬(events.failed = false ∧ events.pollin = true ∧ events.pollout = true) := by
  unfold PollerEpoll.selected handlersFor
  cases events.failed <;> cases events.pollin <;> cases events.pollout <;> decide

variable {channels_ : Nat → Option C} {handle : Nat → C → Handler → σ → σ} {tick : σ → σ}

/-- The calls that `PollerEpoll` makes for an event. -/
def epollCalls (channels_ : Nat → Option C) (event : Nat × Revents) : List (Nat × C × Handler) :=
  match channels_ event.1 with
  | none => []
  | some ch => (PollerEpoll.selected event.2).toList.map fun handler => (event.1, ch, handler)

/-- The calls that `PollerPoll` makes for an entry. -/
def pollCalls (channels_ : Nat → Option C) (entry : Int × Revents) : List (Nat × C × Handler) :=
  if entry.1 < 0 then []
  else
    match channels_ entry.1.toNat with
    | none => []
    | some ch => (handlersFor entry.2).map fun handler => (entry.1.toNat, ch, handler)

theorem epoll_loopOnce : ∀ (batch : List (Nat × Revents)) (s : Dispatch σ C),
    ∃ s', PollerEpoll.loopOnce (dispatcher channels_ handle tick) s batch = .ok s' ∧
      s'.calls = s.calls ++ batch.flatMap (epollCalls channels_)
  | [], s => ⟨s, rfl, (List.append_nil _).symm⟩
  | (fd, events) :: batch, s => by
    have hevent : ∃ s1, PollerEpoll.handleEvent (dispatcher channels_ handle tick) s fd events = .ok s1 ∧
        s1.calls = s.calls ++ epollCalls channels_ (fd, events) := by
      unfold PollerEpoll.handleEvent epollCalls
      cases h : (dispatcher channels_ handle tick).getChannel s fd with
      | none =>
        have hnone : channels_ fd = none := h
        rw [hnone]
        exact ⟨s, rfl, (List.append_nil _).symm⟩
      | some ch =>
        have hsome : channels_ fd = some ch := h
        rw [hsome]
        cases PollerEpoll.selected events with
        | none => exact ⟨s, rfl, (List.append_nil _).symm⟩
        | some handler => exact ⟨_, rfl, rfl⟩
    obtain ⟨s1, h1, hcalls⟩ := hevent
    obtain ⟨s', hs', hcalls'⟩ := epoll_loopOnce batch { s1 with world := tick s1.world }
    refine ⟨s', ?_, by rw [hcalls', List.flatMap_cons, ← List.append_assoc, ← hcalls]⟩
    unfold PollerEpoll.loopOnce
    rw [h1, ok_bind]
    exact hs'

/-- What an entry does, and whether it is counted off. -/
theorem handleEntry_eq (s : Dispatch σ C) (entry : Int × Revents) :
    ∃ (s1 : Dispatch σ C) (flag : Bool),
      PollerPoll.handleEntry (dispatcher channels_ handle tick) s entry.1 entry.2 = .ok (s1, flag) ∧
      s1.calls = s.calls ++ pollCalls channels_ entry ∧ (flag = true → entry.2.ready = true) := by
  obtain ⟨fd, events⟩ := entry
  unfold pollCalls
  by_cases hneg : fd < 0
  · refine ⟨s, false, if_pos hneg, ?_, nofun⟩
    rw [if_pos hneg, List.append_nil]
  · rw [if_neg hneg]
    obtain ⟨n, rfl⟩ := Int.eq_ofNat_of_zero_le (Int.not_lt.mp hneg)
    dsimp only
    rw [Int.toNat_natCast]
    cases hch : channels_ n with
    | none =>
      refine ⟨s, false, PollerPoll.handleEntry_none hch events, (List.append_nil _).symm, nofun⟩
    | some ch =>
      cases hfailed : events.failed with
      | true =>
        refine ⟨_, false, PollerPoll.handleEntry_failed hch hfailed, ?_, nofun⟩
        unfold handlersFor
        rw [if_pos hfailed]
        rfl
      | false =>
        have hget : ∀ s1, (dispatcher channels_ handle tick).getChannel s1 n = some ch := fun _ => hch
        rw [PollerPoll.handleEntry_of_channel (hget s) hfailed]
        rw [handlersFor_of_not_failed hfailed]
        unfold Revents.ready
        -- the read handler, the write handler, both, or none
        cases events.pollin <;> cases events.pollout
        · exact ⟨s, false, rfl, (List.append_nil _).symm, nofun⟩
        · refine ⟨⟨handle n ch .writ s.world, s.calls ++ [(n, ch, .writ)]⟩, true, ?_, rfl, fun _ => rfl⟩
          rw [if_neg Bool.false_ne_true, ok_bind, if_pos rfl, hget]
          rfl
        · exact ⟨⟨handle n ch .read s.world, s.calls ++ [(n, ch, .read)]⟩, true, rfl, rfl, fun _ => rfl⟩
        · refine ⟨⟨handle n ch .writ (handle n ch .read s.world),
            s.calls ++ [(n, ch, .read)] ++ [(n, ch, .writ)]⟩, true, ?_, List.append_assoc _ _ _, fun _ => rfl⟩
          have hread : (dispatcher channels_ handle tick).handle n ch .read s
              = .ok ⟨handle n ch .read s.world, s.calls ++ [(n, ch, .read)]⟩ := rfl
          rw [if_pos rfl, hread, ok_bind, if_pos rfl, hget]
          rfl

/-- An entry without a flag gets no call. -/
theorem pollCalls_of_not_ready {entry : Int × Revents} (h : entry.2.ready = false) :
    pollCalls channels_ entry = [] := by
  unfold pollCalls
  split
  · rfl
  · split
    · rfl
    · rw [handlersFor_of_not_ready h, List.map_nil]

/-- **Stopping when `nready` entries are counted off leaves no call out.** -/
theorem poll_loopOnce : ∀ (entries : List (Int × Revents)) (s : Dispatch σ C) (n : Int),
    nready entries ≤ n →
    ∃ s', PollerPoll.loopOnce (dispatcher channels_ handle tick) s entries n = .ok s' ∧
      s'.calls = s.calls ++ entries.flatMap (pollCalls channels_)
  | [], s, _, _ => ⟨s, rfl, (List.append_nil _).symm⟩
  | entry :: entries, s, n, hn => by
    unfold PollerPoll.loopOnce
    by_cases hstop : n ≤ 0
    · -- no entry that is left has a flag
      have hnone : (entry :: entries).flatMap (pollCalls channels_) = [] := by
        refine List.flatMap_eq_nil_iff.mpr fun entry' hmem => pollCalls_of_not_ready ?_
        have hzero : (List.filter (fun entry : Int × Revents => entry.2.ready) (entry :: entries)) = [] :=
          List.length_eq_zero_iff.mp (by unfold nready at hn; omega)
        exact Bool.eq_false_iff.mpr (List.filter_eq_nil_iff.mp hzero entry' hmem)
      refine ⟨s, if_pos hstop, ?_⟩
      rw [hnone, List.append_nil]
    · obtain ⟨s1, flag, hentry, hcalls, hflag⟩ :=
        @handleEntry_eq σ C channels_ handle tick s entry
      have hcount : nready entries ≤ (if flag then n - 1 else n) := by
        unfold nready at hn ⊢
        rw [List.filter_cons] at hn
        split
        · next htrue =>
          rw [if_pos (hflag htrue), List.length_cons] at hn
          omega
        · split at hn
          · rw [List.length_cons] at hn
            omega
          · exact hn
      obtain ⟨s', hs', hcalls'⟩ := poll_loopOnce entries { s1 with world := tick s1.world } _ hcount
      refine ⟨s', ?_, by rw [hcalls', List.flatMap_cons, ← List.append_assoc, ← hcalls]⟩
      rw [if_neg hstop, hentry, ok_bind]
      exact hs'

/-! ## The calls for one fd -/

variable {fd : Nat} {ch : C}

theorem callsFor_append (calls calls' : List (Nat × C × Handler)) (fd : Nat) :
    callsFor (calls ++ calls') fd = callsFor calls fd ++ callsFor calls' fd := by
  unfold callsFor
  rw [List.filter_append, List.map_append]

theorem callsFor_handlers (fd fd' : Nat) (ch : C) (handlers : List Handler) :
    callsFor (handlers.map fun handler => (fd', ch, handler)) fd =
      if fd' = fd then handlers.map fun handler => (ch, handler) else [] := by
  unfold callsFor
  split
  · next heq =>
    rw [List.filter_eq_self.mpr (by simp [heq]), List.map_map]
    rfl
  · next hne =>
    rw [List.filter_eq_nil_iff.mpr (by simp [hne]), List.map_nil]

/-- The calls for an fd are those of its events. -/
theorem callsFor_epoll (h : channels_ fd = some ch) : ∀ batch : List (Nat × Revents),
    callsFor (batch.flatMap (epollCalls channels_)) fd =
      (batch.filter fun event => event.1 == fd).flatMap fun event =>
        (PollerEpoll.selected event.2).toList.map fun handler => (ch, handler)
  | [] => rfl
  | (fd', events) :: batch => by
    rw [List.flatMap_cons, callsFor_append, callsFor_epoll h batch, List.filter_cons]
    by_cases heq : fd' = fd
    · subst heq
      rw [if_pos (beq_self_eq_true _), List.flatMap_cons]
      unfold epollCalls
      rw [h, callsFor_handlers, if_pos rfl]
    · rw [if_neg (by simpa using heq)]
      have hnone : callsFor (epollCalls channels_ (fd', events)) fd = [] := by
        unfold epollCalls
        split
        · rfl
        · rw [callsFor_handlers, if_neg heq]
      rw [hnone, List.nil_append]

/-- The calls for an fd are those of its entries. -/
theorem callsFor_poll (h : channels_ fd = some ch) : ∀ entries : List (Int × Revents),
    callsFor (entries.flatMap (pollCalls channels_)) fd =
      (entries.filter fun entry => entry.1 == (fd : Int)).flatMap fun entry =>
        (handlersFor entry.2).map fun handler => (ch, handler)
  | [] => rfl
  | (fd', events) :: entries => by
    rw [List.flatMap_cons, callsFor_append, callsFor_poll h entries, List.filter_cons]
    by_cases heq : fd' = fd
    · subst heq
      rw [if_pos (beq_self_eq_true _), List.flatMap_cons]
      unfold pollCalls
      rw [if_neg (by omega)]
      dsimp only
      rw [Int.toNat_natCast, h, callsFor_handlers, if_pos rfl]
    · rw [if_neg (by simpa using heq)]
      have hnone : callsFor (pollCalls channels_ (fd', events)) fd = [] := by
        unfold pollCalls
        split
        · rfl
        · next hpos =>
          split
          · rfl
          · dsimp only at hpos ⊢
            rw [callsFor_handlers, if_neg (by omega)]
      rw [hnone, List.nil_append]

/-! ## When they agree -/

variable {e : EpollBackEnd C N} {p : PollBackEnd C} {state : Nat → Revents}
  {batch : List (Nat × Revents)}

/-- The handlers of a channel, as calls. -/
def callsOn (ch : C) (handlers : List Handler) : List (C × Handler) :=
  handlers.map fun handler => (ch, handler)

theorem callsOn_inj {handlers handlers' : List Handler} (h : callsOn ch handlers = callsOn ch handlers') :
    handlers = handlers' :=
  List.map_injective_iff.mpr (fun _ _ heq => (Prod.mk.inj heq).2) h

/-- One event at most is under an fd. -/
theorem filter_event : ∀ {batch : List (Nat × Revents)} {event : Nat × Revents},
    (batch.map Prod.fst).Nodup → event ∈ batch →
    batch.filter (fun event' => event'.1 == event.1) = [event]
  | first :: batch, event, hnodup, hmem => by
    rw [List.map_cons, List.nodup_cons] at hnodup
    rw [List.filter_cons]
    rcases List.mem_cons.mp hmem with rfl | hmem
    · rw [if_pos (beq_self_eq_true _)]
      refine congrArg _ (List.filter_eq_nil_iff.mpr fun other hother heq => hnodup.1 ?_)
      rw [← beq_iff_eq.mp heq]
      exact List.mem_map_of_mem hother
    · rw [if_neg fun heq => hnodup.1 ?_]
      · exact filter_event hnodup.2 hmem
      · rw [beq_iff_eq.mp heq]
        exact List.mem_map_of_mem hmem

/-- What `PollerEpoll` calls for an fd. -/
theorem EpollWait.callsFor (h : EpollWait e state batch) (hch : channels_ fd = some ch) :
    callsFor (batch.flatMap (epollCalls channels_)) fd = callsOn ch
      (if fd ∈ batch.map Prod.fst then (PollerEpoll.selected (e.flags state fd)).toList else []) := by
  rw [callsFor_epoll hch]
  split
  · next hmem =>
    obtain ⟨event, hevent, rfl⟩ := List.mem_map.mp hmem
    rw [filter_event h.nodup hevent, List.flatMap_singleton, (h.flags event hevent).2]
    rfl
  · next hnot =>
    have hnone : batch.filter (fun event => event.1 == fd) = [] :=
      List.filter_eq_nil_iff.mpr fun event hevent heq =>
        hnot (by rw [← beq_iff_eq.mp heq]; exact List.mem_map_of_mem hevent)
    rw [hnone]
    rfl

/-- `PollerEpoll` does what it should for an fd. -/
theorem EpollWait.callsFor_iff (h : EpollWait e state batch) (hch : channels_ fd = some ch) :
    Liby.callsFor (batch.flatMap (epollCalls channels_)) fd
        = callsOn ch (handlersFor (e.flags state fd)) ↔
      ¬((e.flags state fd).failed = false ∧ (e.flags state fd).pollin = true ∧
          (e.flags state fd).pollout = true) ∧
        (handlersFor (e.flags state fd) ≠ [] → fd ∈ batch.map Prod.fst) := by
  rw [h.callsFor hch]
  by_cases hmem : fd ∈ batch.map Prod.fst
  · rw [if_pos hmem, ← selected_eq_iff]
    exact ⟨fun heq => ⟨callsOn_inj heq, fun _ => hmem⟩, fun heq => by rw [heq.1]⟩
  · rw [if_neg hmem]
    constructor
    · intro heq
      have hnil := callsOn_inj heq
      refine ⟨?_, fun hne => absurd hnil.symm hne⟩
      rintro ⟨hfailed, hin, hout⟩
      rw [handlersFor_of_not_failed hfailed, hin, hout] at hnil
      cases hnil
    · rintro ⟨-, hall⟩
      have hnil : handlersFor (e.flags state fd) = [] := not_not.mp fun hne => hmem (hall hne)
      rw [hnil]

/-- An entry that was never used, and comes after the first. -/
def PollBackEnd.Spare (p : PollBackEnd C) : Prop := ∃ entry ∈ p.pollfds_.drop 1, entry.fd = 0

/-- The entries of an fd with interest: its own, and for fd 0 those that were never used. -/
theorem Matches.filter_pollfds (h : Matches e p) {interest : Interest}
    (hinterest : e.interest fd = some interest) :
    p.pollfds_.filter (fun entry => entry.fd == (fd : Int)) =
      { fd := fd, events := interest } ::
        (p.pollfds_.drop (fd + 1)).filter (fun entry => entry.fd == (fd : Int)) := by
  have hentry := h.entry hinterest
  obtain ⟨hlt, hget⟩ := List.getElem?_eq_some_iff.mp hentry
  have hbefore : (p.pollfds_.take fd).filter (fun entry => entry.fd == (fd : Int)) = [] := by
    refine List.filter_eq_nil_iff.mpr fun entry hmem heq => ?_
    obtain ⟨i, hi⟩ := List.mem_iff_getElem?.mp hmem
    rw [List.getElem?_take] at hi
    split at hi
    · next hlt =>
      have hfor := h.entries i entry hi
      have hfd : entry.fd = fd := beq_iff_eq.mp heq
      unfold Pollfd.For at hfor
      split at hfor
      · rw [hfor] at hfd
        dsimp only at hfd
        omega
      · rcases hfor with hneg | rfl
        · omega
        · have hzero : (0 : Int) = fd := hfd
          omega
    · cases hi
  have hsplit : p.pollfds_ = p.pollfds_.take fd ++ p.pollfds_[fd] :: p.pollfds_.drop (fd + 1) := by
    rw [← List.drop_eq_getElem_cons hlt, List.take_append_drop]
  have hfilter := congrArg (List.filter fun entry : Pollfd => entry.fd == (fd : Int)) hsplit
  rw [List.filter_append, hbefore, List.nil_append, hget, List.filter_cons,
    if_pos (beq_self_eq_true _)] at hfilter
  exact hfilter

/-- An entry under the fd of an earlier one was never used, and the fd is 0. -/
theorem Matches.later_entry (h : Matches e p) {entry : Pollfd} (hmem : entry ∈ p.pollfds_.drop (fd + 1))
    (hfd : entry.fd = fd) : fd = 0 ∧ entry = Pollfd.zero := by
  obtain ⟨i, hi⟩ := List.mem_iff_getElem?.mp hmem
  rw [List.getElem?_drop] at hi
  have hfor := h.entries _ entry hi
  unfold Pollfd.For at hfor
  split at hfor
  · rw [hfor] at hfd
    dsimp only at hfd
    omega
  · rcases hfor with hneg | rfl
    · omega
    · have hzero : (0 : Int) = fd := hfd
      exact ⟨by omega, rfl⟩

theorem handlersFor_zero (state : Nat → Revents) :
    handlersFor (Pollfd.zero.revents state) = if (state 0).pollerr then [.erro] else [] := by
  unfold handlersFor Revents.failed Pollfd.revents Revents.under Pollfd.zero
  simp

/-- What `PollerPoll` calls for an fd. -/
theorem Matches.callsFor (h : Matches e p) (hch : channels_ fd = some ch) {interest : Interest}
    (hinterest : e.interest fd = some interest) :
    callsFor ((p.poll state).flatMap (pollCalls channels_)) fd =
      callsOn ch (handlersFor (e.flags state fd)) ++
        ((p.pollfds_.drop (fd + 1)).filter fun entry => entry.fd == (fd : Int)).flatMap
          fun entry => callsOn ch (handlersFor (entry.revents state)) := by
  have hfilter : (p.poll state).filter (fun entry => entry.1 == (fd : Int)) =
      (p.pollfds_.filter fun entry => entry.fd == (fd : Int)).map
        fun entry => (entry.fd, entry.revents state) := List.filter_map
  have hflags : Pollfd.revents state { fd := fd, events := interest } = e.flags state fd := by
    unfold Pollfd.revents EpollBackEnd.flags
    rw [if_neg (by dsimp only; omega), hinterest]
    rfl
  rw [callsFor_poll hch, hfilter, List.flatMap_map, h.filter_pollfds hinterest, List.flatMap_cons, hflags]
  rfl

/-- `PollerPoll` does what it should for an fd. -/
theorem Matches.callsFor_iff (h : Matches e p) (hch : channels_ fd = some ch) {interest : Interest}
    (hinterest : e.interest fd = some interest) :
    Liby.callsFor ((p.poll state).flatMap (pollCalls channels_)) fd
        = callsOn ch (handlersFor (e.flags state fd)) ↔
      ¬(fd = 0 ∧ (state 0).pollerr = true ∧ p.Spare) := by
  rw [h.callsFor hch hinterest, List.append_right_eq_self, List.flatMap_eq_nil_iff]
  constructor
  · rintro hnone ⟨rfl, herr, entry, hmem, hfd⟩
    have hnil := hnone entry (List.mem_filter.mpr ⟨hmem, beq_iff_eq.mpr hfd⟩)
    rw [(h.later_entry hmem hfd).2, handlersFor_zero, if_pos herr] at hnil
    cases hnil
  · intro hnot entry hmem
    obtain ⟨hmem, hfd⟩ := List.mem_filter.mp hmem
    obtain ⟨rfl, rfl⟩ := h.later_entry hmem (beq_iff_eq.mp hfd)
    have hok : (state 0).pollerr = false :=
      Bool.eq_false_iff.mpr fun herr => hnot ⟨rfl, herr, _, hmem, rfl⟩
    rw [handlersFor_zero, hok]
    rfl

/--
In one `loop_once` each, for every fd that is ready both back ends call the handlers that its flags are
for: the one for errors alone, or the one for reading and then the one for writing.
-/
def Agree (e : EpollBackEnd C N) (p : PollBackEnd C) (state : Nat → Revents)
    (batch : List (Nat × Revents)) (handle : Nat → C → Handler → σ → σ) (tick : σ → σ) (world : σ) :
    Prop :=
  ∃ se sp : Dispatch σ C,
    PollerEpoll.loopOnce (dispatcher e.poller.channels_ handle tick) ⟨world, []⟩ batch = .ok se ∧
    PollerPoll.loopOnce (dispatcher p.channels_ handle tick) ⟨world, []⟩ (p.poll state)
      (nready (p.poll state)) = .ok sp ∧
    ∀ fd ch, e.poller.channels_ fd = some ch → (e.flags state fd).ready = true →
      callsFor se.calls fd = callsOn ch (handlersFor (e.flags state fd)) ∧
      callsFor sp.calls fd = callsOn ch (handlersFor (e.flags state fd))

/-- An fd without interest has no flags. -/
theorem flags_of_none (h : e.interest fd = none) :
    e.flags state fd = ⟨false, false, false, false, false⟩ := by
  unfold EpollBackEnd.flags
  rw [h]

/-- An fd with a flag has a channel. -/
theorem Matches.channel_of_flags (h : Matches e p) (hready : (e.flags state fd).ready = true) :
    ∃ interest ch, e.interest fd = some interest ∧ e.poller.channels_ fd = some ch := by
  cases hinterest : e.interest fd with
  | none =>
    rw [flags_of_none hinterest] at hready
    cases hready
  | some interest =>
    have hsome := h.registered fd
    rw [hinterest] at hsome
    obtain ⟨ch, hch⟩ := Option.isSome_iff_exists.mp hsome.symm
    exact ⟨interest, ch, rfl, hch⟩

/-- As long as `events_` has room, every fd with a flag is among the events. -/
theorem EpollWait.all_handled (h : EpollWait e state batch) (hroom : batch.length < e.events_) (fd : Nat)
    (hne : handlersFor (e.flags state fd) ≠ []) : fd ∈ batch.map Prod.fst := by
  refine h.all hroom fd ?_
  by_contra hnot
  exact hne (handlersFor_of_not_ready (Bool.eq_false_iff.mpr hnot))

/--
**When the back ends agree**: exactly when no fd is readable and writable without an error, every fd with
a flag that has a handler is among the events that `epoll_wait` gave, and fd 0 has no error, no
channel, or no entry but the first.
-/
theorem backEnds_agree_iff {getFd : C → Nat} {calls : List (ChannelCall C)} {p : PollBackEnd C}
    {e : EpollBackEnd C N} (he : run (EpollBackEnd.call getFd) EpollBackEnd.init calls = .ok e)
    (hp : run (PollBackEnd.call getFd) PollBackEnd.init calls = .ok p)
    (hwait : EpollWait e state batch) (handle : Nat → C → Handler → σ → σ) (tick : σ → σ) (world : σ) :
    Agree e p state batch handle tick world ↔
      (∀ fd, ¬((e.flags state fd).failed = false ∧ (e.flags state fd).pollin = true ∧
        (e.flags state fd).pollout = true)) ∧
      (∀ fd, handlersFor (e.flags state fd) ≠ [] → fd ∈ batch.map Prod.fst) ∧
      ¬((e.interest 0).isSome = true ∧ (state 0).pollerr = true ∧ p.Spare) := by
  obtain ⟨p', hp', hmatch⟩ := matches_run he
  cases hp.symm.trans hp'
  obtain ⟨se, hse, hcallse⟩ :=
    @epoll_loopOnce σ C e.poller.channels_ handle tick batch ⟨world, []⟩
  obtain ⟨sp, hsp, hcallsp⟩ :=
    @poll_loopOnce σ C p.channels_ handle tick (p.poll state) ⟨world, []⟩ _ (Int.le_refl _)
  rw [List.nil_append] at hcallse hcallsp
  rw [← hmatch.channels] at hcallsp
  constructor
  · rintro ⟨se', sp', hse', hsp', hagree⟩
    cases hse.symm.trans hse'
    cases hsp.symm.trans hsp'
    rw [hcallse, hcallsp] at hagree
    have hboth : ∀ fd, (e.flags state fd).ready = true →
        (¬((e.flags state fd).failed = false ∧ (e.flags state fd).pollin = true ∧
          (e.flags state fd).pollout = true) ∧
        (handlersFor (e.flags state fd) ≠ [] → fd ∈ batch.map Prod.fst)) ∧
        ¬(fd = 0 ∧ (state 0).pollerr = true ∧ p.Spare) := by
      -- what the two call for a ready descriptor, each by its own rule
      intro fd hready
      obtain ⟨interest, ch, hinterest, hch⟩ := hmatch.channel_of_flags hready
      obtain ⟨hepoll, hpoll⟩ := hagree fd ch hch hready
      exact And.intro ((hwait.callsFor_iff hch).mp hepoll) ((hmatch.callsFor_iff hch hinterest).mp hpoll)
    refine ⟨fun fd hflags => ?_, fun fd hne => ?_, ?_⟩
    · have hready : (e.flags state fd).ready = true := by
        unfold Revents.ready
        rw [hflags.2.1]
        rfl
      exact (hboth fd hready).1.1 hflags
    · have hready : (e.flags state fd).ready = true := by
        by_contra hnot
        exact hne (handlersFor_of_not_ready (Bool.eq_false_iff.mpr hnot))
      exact (hboth fd hready).1.2 hne
    · -- an entry of the array that nobody uses has descriptor 0
      rintro ⟨hsome, herr, hspare⟩
      obtain ⟨interest, hinterest⟩ := Option.isSome_iff_exists.mp hsome
      have hready : (e.flags state 0).ready = true := by
        unfold EpollBackEnd.flags
        rw [hinterest]
        unfold Revents.ready Revents.under
        simp [herr]
      exact (hboth 0 hready).2 ⟨rfl, herr, hspare⟩
  · rintro ⟨hone, hall, hzero⟩
    refine ⟨se, sp, hse, hsp, fun fd ch hch hready => ?_⟩
    rw [hcallse, hcallsp]
    obtain ⟨interest, -, hinterest, -⟩ := hmatch.channel_of_flags hready
    refine ⟨(hwait.callsFor_iff hch).mpr ⟨hone fd, hall fd⟩,
      (hmatch.callsFor_iff hch hinterest).mpr ?_⟩
    rintro ⟨rfl, herr, hspare⟩
    exact hzero ⟨by rw [hinterest]; rfl, herr, hspare⟩

/-- An event of input, of room for output, or of both. -/
def ready (pollin pollout : Bool) : Revents :=
  { pollin := pollin, pollout := pollout, pollerr := false, pollhup := false, pollrdhup := false }

/-- A channel under fd 5 and one under fd 7, which wants to write too. -/
def twoChannels : List (ChannelCall Nat) := [.addChanel 5 true false, .addChanel 7 true true]

/-- The back ends after these calls. -/
def twoEpoll : EpollBackEnd Nat Empty where
  poller := {
    channels_ := setChannel (setChannel (fun _ => none) 5 (some 5)) 7 (some 7)
    eventsSize_ := 2
    nextTickHandlers_ := [] }
  interest fd := if fd = 7 then some ⟨true, true, true⟩ else if fd = 5 then some ⟨true, false, true⟩ else none
  events_ := 48

def twoPoll : PollBackEnd Nat where
  channels_ := setChannel (setChannel (fun _ => none) 5 (some 5)) 7 (some 7)
  pollfds_ := ((List.replicate 48 Pollfd.zero).set 5 ⟨5, ⟨true, false, true⟩⟩).set 7 ⟨7, ⟨true, true, true⟩⟩

theorem run_twoEpoll : run (EpollBackEnd.call id) EpollBackEnd.init twoChannels = .ok twoEpoll := rfl

theorem run_twoPoll : run (PollBackEnd.call id) PollBackEnd.init twoChannels = .ok twoPoll := rfl

/-- What `epoll_wait` gives when the fd 5 is readable, and the fd 7 has the flags `events`. -/
theorem epollWait_two {events : Revents} (hin : events.ready = true)
    (hunder : events.under ⟨true, true, true⟩ = events) :
    EpollWait twoEpoll (fun fd => if fd = 7 then events else ready true true)
      [(7, events), (5, ready true false)] where
  nodup := by simp
  flags event hmem := by
    rcases List.mem_cons.mp hmem with rfl | hmem
    · exact ⟨rfl, hunder.symm⟩
    · rw [List.mem_singleton.mp hmem]
      exact ⟨rfl, rfl⟩
  ready event hmem := by
    rcases List.mem_cons.mp hmem with rfl | hmem
    · exact hin
    · rw [List.mem_singleton.mp hmem]
      rfl
  size := (Nat.le_add_left 2 46 : 2 ≤ 48)
  all _ fd hready := by
    unfold EpollBackEnd.flags twoEpoll at hready
    dsimp only at hready
    by_cases h7 : fd = 7
    · exact List.mem_cons.mpr (.inl h7)
    · by_cases h5 : fd = 5
      · exact List.mem_cons.mpr (.inr (List.mem_singleton.mpr h5))
      · rw [if_neg h7, if_neg h5] at hready
        cases hready

/-- One fd is readable, another writable. -/
theorem backEnds_agree_two : Agree twoEpoll twoPoll
    (fun fd => if fd = 7 then ready false true else ready true true)
    [(7, ready false true), (5, ready true false)] (fun _ _ _ world => world) id () := by
  have hwait := @epollWait_two (ready false true) rfl rfl
  refine (backEnds_agree_iff run_twoEpoll run_twoPoll hwait _ _ _).mpr
    ⟨?_, hwait.all_handled (by decide), fun hzero => absurd hzero.2.1 (by decide)⟩
  rintro fd ⟨-, hin, hout⟩
  unfold EpollBackEnd.flags twoEpoll at hin hout
  dsimp only at hin hout
  by_cases h7 : fd = 7
  · rw [if_pos h7, h7] at hin
    cases hin
  · by_cases h5 : fd = 5
    · rw [if_neg h7, if_pos h5, if_neg h7] at hout
      cases hout
    · rw [if_neg h7, if_neg h5] at hin
      cases hin

/-- An fd that is readable and writable is only read by `PollerEpoll`. -/
theorem not_agree_both : run (EpollBackEnd.call id) EpollBackEnd.init twoChannels = .ok twoEpoll ∧
    run (PollBackEnd.call id) PollBackEnd.init twoChannels = .ok twoPoll ∧
    EpollWait twoEpoll (fun fd => if fd = 7 then ready true true else ready true true)
      [(7, ready true true), (5, ready true false)] ∧
    ¬Agree twoEpoll twoPoll (fun fd => if fd = 7 then ready true true else ready true true)
      [(7, ready true true), (5, ready true false)] (fun _ _ _ world => world) id () := by
  refine ⟨rfl, rfl, epollWait_two rfl rfl, ?_⟩
  rintro ⟨se, sp, hse, -, hagree⟩
  have hepoll : PollerEpoll.loopOnce (dispatcher twoEpoll.poller.channels_ (fun _ _ _ world => world) id)
      ⟨(), []⟩ [(7, ready true true), (5, ready true false)]
        = .ok ⟨(), [(7, 7, .read), (5, 5, .read)]⟩ := rfl
  cases hse.symm.trans hepoll
  obtain ⟨hcalls, -⟩ := hagree 7 7 rfl rfl
  exact absurd hcalls (by decide)

end Liby
