import Liby.Infra.Loop
import Liby.Net.Poller

/-!
# Handlers that are put off

`nextTick`, `nextLoop` and `afterLoop` of `Poller.cpp`, the passes that run what they have put off,
and `PollerEpoll::loop_once`. A pass goes over the list that its handlers append to, and clears it
in the end.

A handler may be anything that returns. It does not run the loop itself.
-/

namespace Liby

open Infra

variable {σ H C : Type _}

/-- The three lists of handlers. -/
inductive HandlerList where
  | nextTickHandlers_
  | nextLoopHandlers_
  | afterLoopHandlers_
  deriving DecidableEq, Repr

/-- A call of `nextTick`, `nextLoop` or `afterLoop`: the list and the handler. -/
abbrev PutOff (H : Type _) := HandlerList × H

/--
What the program does when it is called: its state after the call, and the handlers that it has put
off. `fd` and `handler` name the handler of a channel.
-/
structure LoopCode (σ H C : Type _) where
  run : H → σ → σ × List (PutOff H)
  getChannel : σ → Nat → Option C
  handle : Nat → C → Handler → σ → Exec (σ × List (PutOff H))

/-- The lists of a poller, and the program's own state. `ran` tells what the passes have called. -/
structure LoopState (σ H : Type _) where
  world : σ
  lists : HandlerList → List H
  ran : List (PutOff H)

namespace LoopState

/-- `push_back` on one of the lists. -/
def pushBack (s : LoopState σ H) (q : HandlerList) (handler : H) : LoopState σ H :=
  { s with lists := Function.update s.lists q (s.lists q ++ [handler]) }

def nextTick (s : LoopState σ H) (handler : H) : LoopState σ H :=
  s.pushBack .nextTickHandlers_ handler

def nextLoop (s : LoopState σ H) (handler : H) : LoopState σ H :=
  s.pushBack .nextLoopHandlers_ handler

def afterLoop (s : LoopState σ H) (handler : H) : LoopState σ H :=
  s.pushBack .afterLoopHandlers_ handler

/-- One call that puts a handler off. -/
def putOff (s : LoopState σ H) : PutOff H → LoopState σ H
  | (.nextTickHandlers_, handler) => s.nextTick handler
  | (.nextLoopHandlers_, handler) => s.nextLoop handler
  | (.afterLoopHandlers_, handler) => s.afterLoop handler

/-- The calls of a program that returns. -/
def returned (s : LoopState σ H) (result : σ × List (PutOff H)) : LoopState σ H :=
  result.2.foldl putOff { s with world := result.1 }

/-- `clear` on one of the lists. -/
def clear (s : LoopState σ H) (q : HandlerList) : LoopState σ H :=
  { s with lists := Function.update s.lists q [] }

variable (p : LoopCode σ H C)

/-- `handler()` in a pass. -/
def call (q : HandlerList) (s : LoopState σ H) (handler : H) : LoopState σ H :=
  { s with ran := s.ran ++ [(q, handler)] }.returned (p.run handler s.world)

/--
The range-based `for` at its `i`-th element. The iterator of a `std::list` stays valid, and `end()`
comes after what was appended meanwhile.
-/
def handlerPass (q : HandlerList) :
    Nat × LoopState σ H → Exec (Pass (Nat × LoopState σ H) (LoopState σ H))
  | (i, s) =>
    match (s.lists q)[i]? with
    | none => .ok (.done (s.clear q))
    | some handler => .ok (.next (i + 1, s.call p q handler))

/-- The body of the three `run..Handlers`, with at most `n` steps of the loop. -/
def runHandlers (n : Nat) (q : HandlerList) (s : LoopState σ H) : Exec (LoopState σ H) :=
  if (s.lists q).isEmpty then .ok s
  else (Loop.passes (handlerPass p q) n (0, s)).getD (.error .diverges)

def runNextTickHandlers (n : Nat) (s : LoopState σ H) : Exec (LoopState σ H) :=
  runHandlers p n .nextTickHandlers_ s

def runNextLoopHandlers (n : Nat) (s : LoopState σ H) : Exec (LoopState σ H) :=
  runHandlers p n .nextLoopHandlers_ s

def runAfterLoopHandlers (n : Nat) (s : LoopState σ H) : Exec (LoopState σ H) :=
  runHandlers p n .afterLoopHandlers_ s

/-- What the loop over the events uses. -/
def reactor (n : Nat) : Reactor (LoopState σ H) C where
  getChannel s fd := p.getChannel s.world fd
  handle fd ch handler s := do
    let result ← p.handle fd ch handler s.world
    return s.returned result
  runNextTickHandlers := runNextTickHandlers p n

/-- `PollerEpoll::loop_once`, over the events that `epoll_wait` has given. -/
def loopOnce (n : Nat) (s : LoopState σ H) (events : List (Nat × Revents)) :
    Exec (LoopState σ H) := do
  let s ← runNextLoopHandlers p n s
  let s ← PollerEpoll.loopOnce (reactor p n) s events
  runAfterLoopHandlers p n s

/-! ## What the calls do to the lists -/

/-- The handlers that some calls put on a list, in their order. -/
def handlersFor (q : HandlerList) (calls : List (PutOff H)) : List H :=
  (calls.filter (·.1 = q)).map (·.2)

@[simp] theorem handlersFor_nil (q : HandlerList) : handlersFor q ([] : List (PutOff H)) = [] := rfl

theorem handlersFor_cons (q : HandlerList) (c : PutOff H) (calls : List (PutOff H)) :
    handlersFor q (c :: calls) = (if c.1 = q then [c.2] else []) ++ handlersFor q calls := by
  unfold handlersFor
  by_cases h : c.1 = q <;> simp [h]

theorem putOff_eq (s : LoopState σ H) (c : PutOff H) : s.putOff c = s.pushBack c.1 c.2 := by
  obtain ⟨q, handler⟩ := c
  cases q <;> rfl

theorem putOff_lists (s : LoopState σ H) (c : PutOff H) (q : HandlerList) :
    (s.putOff c).lists q = s.lists q ++ if c.1 = q then [c.2] else [] := by
  rw [putOff_eq]
  unfold pushBack
  by_cases h : c.1 = q
  · subst h
    rw [if_pos rfl]
    exact Function.update_self ..
  · rw [if_neg h, List.append_nil]
    exact Function.update_of_ne (Ne.symm h) ..

@[simp] theorem putOff_ran (s : LoopState σ H) (c : PutOff H) : (s.putOff c).ran = s.ran := by
  rw [putOff_eq]
  rfl

@[simp] theorem putOff_world (s : LoopState σ H) (c : PutOff H) : (s.putOff c).world = s.world := by
  rw [putOff_eq]
  rfl

theorem foldl_putOff (calls : List (PutOff H)) (s : LoopState σ H) :
    (calls.foldl putOff s).world = s.world ∧ (calls.foldl putOff s).ran = s.ran ∧
      ∀ q, (calls.foldl putOff s).lists q = s.lists q ++ handlersFor q calls := by
  induction calls generalizing s with
  | nil => exact ⟨rfl, rfl, fun q => (List.append_nil _).symm⟩
  | cons c calls ih =>
    obtain ⟨hworld, hran, hlists⟩ := ih (s.putOff c)
    refine ⟨hworld.trans (putOff_world s c), hran.trans (putOff_ran s c), fun q => ?_⟩
    rw [List.foldl_cons, hlists q, putOff_lists, handlersFor_cons, List.append_assoc]

section Returned

variable (s : LoopState σ H) (result : σ × List (PutOff H))

@[simp] theorem returned_world : (s.returned result).world = result.1 := (foldl_putOff result.2 _).1

@[simp] theorem returned_ran : (s.returned result).ran = s.ran := (foldl_putOff result.2 _).2.1

@[simp] theorem returned_lists (q : HandlerList) :
    (s.returned result).lists q = s.lists q ++ handlersFor q result.2 :=
  (foldl_putOff result.2 _).2.2 q

end Returned

section Clear

variable (s : LoopState σ H) (q : HandlerList)

@[simp] theorem clear_ran : (s.clear q).ran = s.ran := rfl

@[simp] theorem clear_self : (s.clear q).lists q = [] := Function.update_self ..

theorem clear_lists {q q' : HandlerList} (h : q' ≠ q) : (s.clear q).lists q' = s.lists q' :=
  Function.update_of_ne h ..

end Clear

variable {p}

section Call

variable (q : HandlerList) (s : LoopState σ H) (handler : H)

@[simp] theorem call_ran : (s.call p q handler).ran = s.ran ++ [(q, handler)] := returned_ran _ _

@[simp] theorem call_world : (s.call p q handler).world = (p.run handler s.world).1 :=
  returned_world _ _

@[simp] theorem call_lists (q' : HandlerList) :
    (s.call p q handler).lists q' = s.lists q' ++ handlersFor q' (p.run handler s.world).2 :=
  returned_lists _ _ q'

end Call

/-! ## One pass -/

/-- What handlers put on the list `q` when they are called one after the other. -/
def putOffBy (p : LoopCode σ H C) (q : HandlerList) : σ → List H → List H
  | _, [] => []
  | world, handler :: rest =>
    handlersFor q (p.run handler world).2 ++ putOffBy p q (p.run handler world).1 rest

/-- The handlers of the list `q` put none on it when they are called one after the other. -/
def Quiet (p : LoopCode σ H C) (q : HandlerList) (s : LoopState σ H) : Prop :=
  putOffBy p q s.world (s.lists q) = []

instance [DecidableEq H] (q : HandlerList) (s : LoopState σ H) : Decidable (Quiet p q s) :=
  inferInstanceAs (Decidable (_ = _))

/--
A pass over the list `q` ends, has called exactly the handlers that were on it, each once and in
order, and leaves on it what these have put there.
-/
structure Deferred (p : LoopCode σ H C) (q : HandlerList) (s : LoopState σ H) : Prop where
  ends : ∃ n t, runHandlers p n q s = .ok t
  runs : ∀ n t, runHandlers p n q s = .ok t → t.ran = s.ran ++ (s.lists q).map (q, ·)
  leaves : ∀ n t, runHandlers p n q s = .ok t → t.lists q = putOffBy p q s.world (s.lists q)

variable {q : HandlerList} {s t : LoopState σ H} {i n : Nat}

theorem handlerPass_done (h : (s.lists q)[i]? = none) :
    handlerPass p q (i, s) = .ok (.done (s.clear q)) := by
  show (match (s.lists q)[i]? with | none => _ | some _ => _) = _
  rw [h]

theorem handlerPass_next {handler : H} (h : (s.lists q)[i]? = some handler) :
    handlerPass p q (i, s) = .ok (.next (i + 1, s.call p q handler)) := by
  show (match (s.lists q)[i]? with | none => _ | some _ => _) = _
  rw [h]

/-- What a step of the loop can do. -/
theorem handlerPass_cases (i : Nat) (s : LoopState σ H) :
    ((s.lists q).length ≤ i ∧ handlerPass p q (i, s) = .ok (.done (s.clear q))) ∨
      ∃ handler, (s.lists q)[i]? = some handler ∧
        handlerPass p q (i, s) = .ok (.next (i + 1, s.call p q handler)) := by
  cases h : (s.lists q)[i]? with
  | none => exact .inl ⟨List.getElem?_eq_none_iff.mp h, handlerPass_done h⟩
  | some handler => exact .inr ⟨handler, rfl, handlerPass_next h⟩

/-- The handlers of a list one after the other. -/
def callAll (p : LoopCode σ H C) (q : HandlerList) (s : LoopState σ H) (handlers : List H) :
    LoopState σ H :=
  handlers.foldl (call p q) s

theorem callAll_ran (handlers : List H) (s : LoopState σ H) :
    (callAll p q s handlers).ran = s.ran ++ handlers.map (q, ·) := by
  induction handlers generalizing s with
  | nil => exact (List.append_nil _).symm
  | cons handler rest ih =>
    refine (ih (s.call p q handler)).trans ?_
    rw [call_ran, List.append_assoc, List.map_cons, List.singleton_append]

theorem callAll_lists (q' : HandlerList) (handlers : List H) (s : LoopState σ H) :
    (callAll p q s handlers).lists q' = s.lists q' ++ putOffBy p q' s.world handlers := by
  induction handlers generalizing s with
  | nil => exact (List.append_nil _).symm
  | cons handler rest ih =>
    refine (ih (s.call p q handler)).trans ?_
    rw [call_lists, call_world, List.append_assoc]
    rfl

/-- The rest of a pass whose handlers put none on its list. -/
theorem passes_quiet (rest done : List H) (s : LoopState σ H) (hlist : s.lists q = done ++ rest)
    (hquiet : putOffBy p q s.world rest = []) :
    Loop.passes (handlerPass p q) (rest.length + 1) (done.length, s) =
      some (.ok ((callAll p q s rest).clear q)) := by
  induction rest generalizing done s with
  | nil =>
    refine Loop.passes_done (handlerPass_done ?_)
    rw [hlist, List.append_nil]
    exact List.getElem?_eq_none (Nat.le_refl _)
  | cons handler rest ih =>
    obtain ⟨hnow, hlater⟩ := List.append_eq_nil_iff.mp hquiet
    have hget : (s.lists q)[done.length]? = some handler := by
      rw [hlist, List.getElem?_append_right (Nat.le_refl _), Nat.sub_self]
      rfl
    refine Loop.passes_next (handlerPass_next hget) ?_
    have hlist' : (s.call p q handler).lists q = (done ++ [handler]) ++ rest := by
      rw [call_lists, hnow, List.append_nil, hlist, List.append_assoc]
      rfl
    have h := ih (done ++ [handler]) (s.call p q handler) hlist' (by rwa [call_world])
    rwa [List.length_append] at h

theorem runHandlers_nil (h : s.lists q = []) : runHandlers p n q s = .ok s := by
  unfold runHandlers
  rw [h]
  rfl

theorem runHandlers_cons (h : s.lists q ≠ []) :
    runHandlers p n q s = (Loop.passes (handlerPass p q) n (0, s)).getD (.error .diverges) := by
  unfold runHandlers
  rw [if_neg]
  exact fun hempty => h (List.isEmpty_iff.mp hempty)

/-- A pass that ends has gone through the loop. -/
theorem passes_of_runHandlers (h : s.lists q ≠ []) (hrun : runHandlers p n q s = .ok t) :
    Loop.passes (handlerPass p q) n (0, s) = some (.ok t) := by
  rw [runHandlers_cons h] at hrun
  cases hpass : Loop.passes (handlerPass p q) n (0, s) with
  | none =>
    rw [hpass] at hrun
    cases hrun
  | some x =>
    rw [hpass] at hrun
    exact congrArg some hrun

/-- **A pass whose handlers put none on its list calls each of them once.** -/
theorem runHandlers_quiet (h : Quiet p q s) :
    runHandlers p ((s.lists q).length + 1) q s =
      .ok (if s.lists q = [] then s else (callAll p q s (s.lists q)).clear q) := by
  by_cases hnil : s.lists q = []
  · rw [if_pos hnil, runHandlers_nil hnil]
  · have hpasses := passes_quiet (s.lists q) [] s rfl h
    rw [List.length_nil] at hpasses
    rw [if_neg hnil, runHandlers_cons hnil, hpasses]
    rfl

/-- A pass gives the same however many steps it may take, once it ends. -/
theorem runHandlers_unique {m : Nat} {u : LoopState σ H} (h : runHandlers p n q s = .ok t)
    (h' : runHandlers p m q s = .ok u) : t = u := by
  by_cases hnil : s.lists q = []
  · rw [runHandlers_nil hnil] at h h'
    cases h
    cases h'
    rfl
  · exact Except.ok.inj
      (Loop.passes_unique (passes_of_runHandlers hnil h) (passes_of_runHandlers hnil h'))

/-- What each call of a pass keeps, and the end of the pass too, the pass keeps. -/
theorem runHandlers_keeps {I : LoopState σ H → Prop}
    (hcall : ∀ s handler, I s → I (s.call p q handler)) (hclear : ∀ s, I s → I (s.clear q))
    (hi : I s) (h : runHandlers p n q s = .ok t) : I t := by
  by_cases hnil : s.lists q = []
  · rw [runHandlers_nil hnil] at h
    cases h
    exact hi
  · obtain ⟨⟨i, u⟩, hreached, hdone⟩ := Loop.passes_ok (passes_of_runHandlers hnil h)
    have hu : I u := by
      refine hreached.invariant (I := fun x => I x.2) ?_ hi
      rintro ⟨i, s'⟩ x hs' hnext
      rcases handlerPass_cases (p := p) (q := q) i s' with ⟨-, hpass⟩ | ⟨handler, -, hpass⟩
      · cases hpass.symm.trans hnext
      · cases hpass.symm.trans hnext
        exact hcall _ _ hs'
    rcases handlerPass_cases (p := p) (q := q) i u with ⟨-, hpass⟩ | ⟨handler, -, hpass⟩
    · cases hpass.symm.trans hdone
      exact hclear _ hu
    · cases hpass.symm.trans hdone

/-- The loop has called what is before its iterator. -/
theorem callAll_of_reached {u : LoopState σ H} (h : Loop.Reached (handlerPass p q) (0, s) (i, u)) :
    u = callAll p q s ((u.lists q).take i) := by
  refine h.invariant (I := fun x => x.2 = callAll p q s ((x.2.lists q).take x.1)) ?_ rfl
  rintro ⟨i, u⟩ x hu hnext
  rcases handlerPass_cases (p := p) (q := q) i u with ⟨-, hpass⟩ | ⟨handler, hget, hpass⟩
  · cases hpass.symm.trans hnext
  · cases hpass.symm.trans hnext
    obtain ⟨hlt, hat⟩ := List.getElem?_eq_some_iff.mp hget
    have htake : ((u.call p q handler).lists q).take (i + 1) = (u.lists q).take i ++ [handler] := by
      rw [call_lists, List.take_append_of_le_length hlt, List.take_succ_eq_append_getElem hlt, hat]
    show u.call p q handler = callAll p q s (((u.call p q handler).lists q).take (i + 1))
    rw [htake]
    unfold callAll
    rw [List.foldl_append]
    exact congrArg (fun v => v.call p q handler) hu

/--
**A pass that ends has called the handlers that it found on its list and all that were put there
meanwhile, and has left none.**
-/
theorem runHandlers_calls (h : runHandlers p n q s = .ok t) : ∃ called,
    called = s.lists q ++ putOffBy p q s.world called ∧ t.ran = s.ran ++ called.map (q, ·) ∧
      t.lists q = [] := by
  by_cases hnil : s.lists q = []
  · rw [runHandlers_nil hnil] at h
    cases h
    refine ⟨[], ?_, (List.append_nil _).symm, hnil⟩
    rw [hnil]
    rfl
  · obtain ⟨⟨i, u⟩, hreached, hdone⟩ := Loop.passes_ok (passes_of_runHandlers hnil h)
    have hu := callAll_of_reached hreached
    rcases handlerPass_cases (p := p) (q := q) i u with ⟨hend, hpass⟩ | ⟨handler, -, hpass⟩
    · cases hpass.symm.trans hdone
      rw [List.take_of_length_le hend] at hu
      refine ⟨u.lists q, ?_, ?_, clear_self u q⟩
      · exact (congrArg (fun v => v.lists q) hu).trans (callAll_lists q _ s)
      · exact (congrArg LoopState.ran hu).trans (callAll_ran _ s)
    · cases hpass.symm.trans hdone

/-- **A pass keeps what is put on its list for the next one exactly when there is nothing.** -/
theorem deferred_iff : Deferred p q s ↔ Quiet p q s := by
  constructor
  · intro h
    obtain ⟨n, t, ht⟩ := h.ends
    obtain ⟨-, -, -, hnone⟩ := runHandlers_calls ht
    exact (h.leaves n t ht).symm.trans hnone
  · intro h
    have hrun := runHandlers_quiet h
    refine ⟨⟨_, _, hrun⟩, fun n t ht => ?_, fun n t ht => ?_⟩
    · rw [runHandlers_unique ht hrun]
      split
      · next hnil =>
        rw [hnil]
        exact (List.append_nil _).symm
      · exact callAll_ran _ s
    · obtain ⟨-, -, -, hnone⟩ := runHandlers_calls ht
      exact hnone.trans h.symm

/-- A pass that ends calls only what it found on its list exactly when nothing is put there. -/
theorem runs_iff_quiet (h : runHandlers p n q s = .ok t) :
    t.ran = s.ran ++ (s.lists q).map (q, ·) ↔ Quiet p q s := by
  refine ⟨fun hran => ?_, fun hquiet => (deferred_iff.mpr hquiet).runs n t h⟩
  obtain ⟨called, hcalled, hall, -⟩ := runHandlers_calls h
  have hmap : called.map (q, ·) = (s.lists q).map (q, ·) := List.append_cancel_left (hall.symm.trans hran)
  have hsame : called = s.lists q := List.map_injective_iff.mpr (Prod.mk_right_injective q) hmap
  rw [hsame] at hcalled
  exact List.append_cancel_left ((List.append_nil _).trans hcalled).symm

/-- **Handlers that always put another one on the list of their pass keep the pass from ending.** -/
theorem not_terminates (hagain : ∀ handler world, handlersFor q (p.run handler world).2 ≠ [])
    (h : s.lists q ≠ []) : ¬Loop.Terminates (handlerPass p q) (0, s) := by
  refine Loop.not_terminates (I := fun x => x.1 < (x.2.lists q).length) ?_
    (List.length_pos_of_ne_nil h)
  rintro ⟨i, u⟩ hlt
  rcases handlerPass_cases (p := p) (q := q) i u with ⟨hend, -⟩ | ⟨handler, -, hpass⟩
  · exact absurd hlt (Nat.not_lt.mpr hend)
  · refine ⟨_, hpass, ?_⟩
    show i + 1 < ((u.call p q handler).lists q).length
    have hmore := List.length_pos_of_ne_nil (hagain handler u.world)
    have hlt : i < (u.lists q).length := hlt
    rw [call_lists, List.length_append]
    omega

/-- Such a pass uses up whatever number of steps it may take. -/
theorem runHandlers_diverges (hagain : ∀ handler world, handlersFor q (p.run handler world).2 ≠ [])
    (h : s.lists q ≠ []) (n : Nat) : runHandlers p n q s = .error .diverges := by
  rw [runHandlers_cons h]
  cases hpass : Loop.passes (handlerPass p q) n (0, s) with
  | none => rfl
  | some x =>
    exact absurd ⟨n, Option.isSome_iff_exists.mpr ⟨x, hpass⟩⟩ (not_terminates hagain h)

/-! ## One turn of the loop -/

/-- The state after the events, when `runAfterLoopHandlers` is called. -/
def AfterEvents (p : LoopCode σ H C) (events : List (Nat × Revents)) (s t : LoopState σ H) : Prop :=
  ∃ n u, runNextLoopHandlers p n s = .ok u ∧ PollerEpoll.loopOnce (reactor p n) u events = .ok t

/--
`loop_once` runs the handlers of both lists as they were put off: its two passes do, and from its
start to its end no other `nextLoop` handler is called, and those put off meanwhile stay.
-/
structure LoopDeferred (p : LoopCode σ H C) (events : List (Nat × Revents)) (s : LoopState σ H) :
    Prop where
  next : Deferred p .nextLoopHandlers_ s
  once : ∀ n t, loopOnce p n s events = .ok t →
    handlersFor .nextLoopHandlers_ t.ran =
      handlersFor .nextLoopHandlers_ s.ran ++ s.lists .nextLoopHandlers_
  kept : ∀ n t, loopOnce p n s events = .ok t →
    putOffBy p .nextLoopHandlers_ s.world (s.lists .nextLoopHandlers_) <+: t.lists .nextLoopHandlers_
  after : ∀ t, AfterEvents p events s t → Deferred p .afterLoopHandlers_ t

theorem handlersFor_append (q : HandlerList) (calls calls' : List (PutOff H)) :
    handlersFor q (calls ++ calls') = handlersFor q calls ++ handlersFor q calls' := by
  unfold handlersFor
  rw [List.filter_append, List.map_append]

theorem handlersFor_self (q : HandlerList) (handlers : List H) :
    handlersFor q (handlers.map (q, ·)) = handlers := by
  induction handlers with
  | nil => rfl
  | cons handler rest ih =>
    rw [List.map_cons, handlersFor_cons, ih, if_pos rfl]
    rfl

/-- `called` are the `nextLoop` handlers called so far, and `left` those put off first. -/
structure NextLoop (called left : List H) (s : LoopState σ H) : Prop where
  called : handlersFor .nextLoopHandlers_ s.ran = called
  left : left <+: s.lists .nextLoopHandlers_

namespace NextLoop

variable {called left : List H}

theorem returned (h : NextLoop called left s) (result : σ × List (PutOff H)) :
    NextLoop called left (s.returned result) := by
  refine ⟨?_, ?_⟩
  · rw [returned_ran]
    exact h.called
  · rw [returned_lists]
    exact h.left.trans (List.prefix_append _ _)

theorem call (hq : q ≠ .nextLoopHandlers_) (h : NextLoop called left s) (handler : H) :
    NextLoop called left (s.call p q handler) := by
  refine ⟨?_, ?_⟩
  · rw [call_ran, handlersFor_append, handlersFor_cons, if_neg hq, h.called]
    exact List.append_nil _
  · rw [call_lists]
    exact h.left.trans (List.prefix_append _ _)

theorem clear (hq : q ≠ .nextLoopHandlers_) (h : NextLoop called left s) :
    NextLoop called left (s.clear q) := by
  refine ⟨h.called, ?_⟩
  rw [clear_lists s hq.symm]
  exact h.left

/-- The passes over the other lists. -/
theorem runHandlers (hq : q ≠ .nextLoopHandlers_) (h : NextLoop called left s)
    (hrun : LoopState.runHandlers p n q s = .ok t) : NextLoop called left t :=
  runHandlers_keeps (fun _ handler hs => hs.call hq handler) (fun _ hs => hs.clear hq) h hrun

/-- The events. -/
theorem events {batch : List (Nat × Revents)} (h : NextLoop called left s)
    (hrun : PollerEpoll.loopOnce (reactor p n) s batch = .ok t) : NextLoop called left t := by
  refine PollerEpoll.loopOnce_keeps ?_ ?_ h hrun
  · intro fd ch handler u u' hu hhandle
    obtain ⟨result, -, hresult⟩ := bind_eq_ok.mp hhandle
    cases hresult
    exact hu.returned result
  · intro u u' hu htick
    exact hu.runHandlers (q := .nextTickHandlers_) nofun htick

end NextLoop

/-- After the first pass nothing touches the `nextLoop` handlers but `push_back`. -/
theorem loopOnce_nextLoop {events : List (Nat × Revents)} (h : loopOnce p n s events = .ok t) :
    ∃ u, runNextLoopHandlers p n s = .ok u ∧
      NextLoop (handlersFor .nextLoopHandlers_ u.ran) (u.lists .nextLoopHandlers_) t := by
  obtain ⟨u, hnext, h⟩ := bind_eq_ok.mp h
  obtain ⟨v, hevents, hafter⟩ := bind_eq_ok.mp h
  have hu : NextLoop (handlersFor .nextLoopHandlers_ u.ran) (u.lists .nextLoopHandlers_) u :=
    ⟨rfl, List.prefix_rfl⟩
  exact ⟨u, hnext, (hu.events hevents).runHandlers (q := .afterLoopHandlers_) nofun hafter⟩

/--
**One turn runs what was put off before it, and keeps the rest for the next one, exactly when no
handler of a pass puts another one on the list of that pass.**
-/
theorem loopOnce_defers_iff (p : LoopCode σ H C) (events : List (Nat × Revents))
    (s : LoopState σ H) : LoopDeferred p events s ↔
      Quiet p .nextLoopHandlers_ s ∧ ∀ t, AfterEvents p events s t → Quiet p .afterLoopHandlers_ t := by
  constructor
  · exact fun h => ⟨deferred_iff.mp h.next, fun t ht => deferred_iff.mp (h.after t ht)⟩
  · rintro ⟨hnext, hafter⟩
    have hdeferred := deferred_iff.mpr hnext
    refine ⟨hdeferred, fun n t ht => ?_, fun n t ht => ?_, fun t ht => deferred_iff.mpr (hafter t ht)⟩
    · obtain ⟨u, hu, hrest⟩ := loopOnce_nextLoop ht
      rw [hrest.called, hdeferred.runs n u hu, handlersFor_append, handlersFor_self]
    · obtain ⟨u, hu, hrest⟩ := loopOnce_nextLoop ht
      have hleft := hrest.left
      rwa [hdeferred.leaves n u hu] at hleft

/-- A handler that calls `nextLoop` with itself whenever it runs. -/
def again : LoopCode Unit Unit Unit where
  run _ world := (world, [(.nextLoopHandlers_, ())])
  getChannel _ _ := none
  handle _ _ _ world := .ok (world, [])

/-- The handler was put off before the loop. -/
def putOffAgain : LoopState Unit Unit := nextLoop ⟨(), fun _ => [], []⟩ ()

/-- Its pass does not end, and no event is waited for. -/
theorem again_never_ends : (∀ n, loopOnce again n putOffAgain [] = .error .diverges) ∧
    ¬LoopDeferred again [] putOffAgain := by
  have hnext : ∀ n, runNextLoopHandlers again n putOffAgain = .error .diverges :=
    runHandlers_diverges (fun _ _ => List.cons_ne_nil _ _) (List.cons_ne_nil _ _)
  refine ⟨fun n => ?_, fun h => ?_⟩
  · unfold loopOnce
    rw [hnext n]
    rfl
  · obtain ⟨n, t, ht⟩ := h.next.ends
    cases (hnext n).symm.trans ht

end LoopState

end Liby
