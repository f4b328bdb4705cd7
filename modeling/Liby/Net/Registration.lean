import Liby.Net.BackEnds
import Mathlib.Data.Set.Card

/-!
# Channels and their registration

`Channel` calls its poller when it is added, updated, removed and destroyed. `PollerEpoll` counts in
`eventsSize_`, up in `addChanel` and down in `removeChanel`, and the kernel knows which descriptors
are registered. Descriptors stay open here, and there is one poller.
-/

namespace Liby

open Infra

/-- A `Channel` that is there. Its descriptor is an `int` that is not negative. -/
structure ChannelObject where
  fd_ : Fin (2 ^ 31)
  readable_ : Bool
  writable_ : Bool
  deriving DecidableEq, Repr

def ChannelObject.getFd (c : ChannelObject) : Nat := c.fd_

/-- What a program does with its channels, which are numbered in the order they are made. -/
inductive RegistrationOp where
  | construct (fd : Fin (2 ^ 31))
  | enableRead (ch : Nat) (flag : Bool)
  | enableWrit (ch : Nat) (flag : Bool)
  /-- `ctl` is whether the kernel takes a descriptor that is not registered. -/
  | addChannel (ch : Nat) (ctl : Bool)
  | updateChannel (ch : Nat)
  | removeChannel (ch : Nat)
  | destroy (ch : Nat)
  /-- The end of `loop_once`. -/
  | loopDone
  deriving DecidableEq, Repr

/-- The channels of a program and their poller. -/
structure Registry where
  objects : List (Option ChannelObject)
  epoll : EpollBackEnd Nat Unit
  /-- The descriptors whose removal `epoll_ctl` refused. -/
  refused : List Nat
  /-- An exception left a destructor. -/
  terminated : Bool

namespace Registry

def init : Registry where
  objects := []
  epoll := EpollBackEnd.init
  refused := []
  terminated := false

/-- The descriptors that the kernel watches. -/
def watched (e : EpollBackEnd Nat Unit) : Set Nat := {fd | (e.interest fd).isSome = true}

def registered (s : Registry) : Set Nat := watched s.epoll

/-- A channel that was made and not destroyed. -/
def object (s : Registry) (ch : Nat) : Exec ChannelObject :=
  derefOr .environment (s.objects[ch]?.bind id)

def setObject (s : Registry) (ch : Nat) (c : Option ChannelObject) : Registry :=
  { s with objects := s.objects.set ch c }

/-- `PollerEpoll::addChanel`. Where `epoll_ctl` fails an exception is thrown before anything changed. -/
def addChanel (s : Registry) (ch : Nat) (c : ChannelObject) (ctl : Bool) : Registry :=
  if (s.epoll.interest c.getFd).isSome ∨ ctl = false then s
  else
    let epoll := s.epoll.epollCtl c.getFd (some (EpollBackEnd.events c.readable_ c.writable_))
    { s with epoll := { epoll with poller := epoll.poller.addChanel (fun _ => c.getFd) ch true } }

/-- `PollerEpoll::updateChanel`. -/
def updateChanel (s : Registry) (c : ChannelObject) : Registry :=
  if (s.epoll.interest c.getFd).isNone then s
  else { s with
    epoll := s.epoll.epollCtl c.getFd (some (EpollBackEnd.events c.readable_ c.writable_)) }

/-- `PollerEpoll::removeChanel`, which throws if `epoll_ctl` fails, after the table and the count. -/
def removeChanel (s : Registry) (ch : Nat) (c : ChannelObject) : Registry :=
  { s with
    epoll := { s.epoll.epollCtl c.getFd none with
      poller := s.epoll.poller.removeChanel (fun _ => c.getFd) ch }
    refused := if (s.epoll.interest c.getFd).isSome then s.refused else s.refused ++ [c.getFd] }

/-- The resize of `events_` at the end of `loop_once`. -/
def resize (s : Registry) : Registry :=
  if s.epoll.events_ < s.epoll.poller.eventsSize_ then
    { s with epoll := { s.epoll with events_ := s.epoll.poller.eventsSize_ * 2 % 2 ^ 64 } }
  else s

/-- What an operation does. Nothing is done any more when an exception has left a destructor. -/
def step (s : Registry) (op : RegistrationOp) : Exec Registry :=
  if s.terminated then .error .environment
  else
    match op with
    | .construct fd =>
      .ok { s with objects := s.objects ++ [some { fd_ := fd, readable_ := false, writable_ := false }] }
    | .enableRead ch flag => do
      let c ← s.object ch
      return s.setObject ch (some { c with readable_ := flag })
    | .enableWrit ch flag => do
      let c ← s.object ch
      return s.setObject ch (some { c with writable_ := flag })
    | .addChannel ch ctl => do
      let c ← s.object ch
      return s.addChanel ch c ctl
    | .updateChannel ch => do
      let c ← s.object ch
      return s.updateChanel c
    | .removeChannel ch => do
      let c ← s.object ch
      return s.removeChanel ch c
    | .destroy ch => do
      let c ← s.object ch
      let s' := s.removeChanel ch c
      return { s'.setObject ch none with terminated := (s.epoll.interest c.getFd).isNone }
    | .loopDone => .ok s.resize

/-- The count is right, the table has a channel for what is registered, and no removal was refused. -/
structure Accounted (s : Registry) : Prop where
  count : s.epoll.poller.eventsSize_ = s.registered.ncard
  table : ∀ fd, (s.epoll.poller.channels_ fd).isSome = true ↔ fd ∈ s.registered
  refused : s.refused = []

/-- A removal, by a call or by the destructor, is of a descriptor that is registered. -/
def Registered (s : Registry) : RegistrationOp → Prop
  | .removeChannel ch | .destroy ch => ∀ c, s.object ch = .ok c → c.getFd ∈ s.registered
  | _ => True

variable {s s' : Registry} {ch fd : Nat} {c : ChannelObject}

/-! ## The kernel's descriptors -/

theorem watched_some (e : EpollBackEnd Nat Unit) (fd : Nat) (interest : Interest) :
    watched (e.epollCtl fd (some interest)) = insert fd (watched e) := by
  ext fd'
  show (if fd' = fd then _ else _ : Option Interest).isSome = true ↔ fd' = fd ∨ _
  by_cases hfd : fd' = fd
  · simp [hfd]
  · rw [if_neg hfd, or_iff_right hfd]
    exact Iff.rfl

theorem watched_none (e : EpollBackEnd Nat Unit) (fd : Nat) :
    watched (e.epollCtl fd none) = watched e \ {fd} := by
  ext fd'
  show (if fd' = fd then _ else _ : Option Interest).isSome = true ↔ _ ∧ ¬fd' = fd
  by_cases hfd : fd' = fd
  · simp [hfd]
  · rw [if_neg hfd, and_iff_left hfd]
    exact Iff.rfl

/-- Descriptors are `int`s, so there are not many of them. -/
def Bounded (s : Registry) : Prop := ∀ fd ∈ s.registered, fd < 2 ^ 31

theorem Bounded.subset (h : s.Bounded) : s.registered ⊆ ↑(Finset.range (2 ^ 31)) := fun fd hfd => by
  rw [Finset.coe_range]
  exact h fd hfd

theorem Bounded.finite (h : s.Bounded) : s.registered.Finite :=
  (Finset.finite_toSet _).subset h.subset

theorem Bounded.ncard_le (h : s.Bounded) : s.registered.ncard ≤ 2 ^ 31 := by
  have hle := Set.ncard_le_ncard h.subset (Finset.finite_toSet _)
  rwa [Set.ncard_coe_finset, Finset.card_range] at hle

/-- What is accounted for, with the bound on the descriptors, in a program that goes on. -/
structure Sound (s : Registry) : Prop where
  accounted : s.Accounted
  bounded : s.Bounded
  running : s.terminated = false

theorem sound_init : init.Sound where
  accounted := {
    count := by
      have hempty : init.registered = ∅ := Set.eq_empty_iff_forall_notMem.mpr fun fd h => by cases h
      rw [hempty, Set.ncard_empty]
      rfl
    table := fun fd => ⟨fun h => (by cases h), fun h => (by cases h)⟩
    refused := rfl }
  bounded fd h := by cases h
  running := rfl

/-! ## One operation -/

/-- A descriptor that the kernel takes is one more. -/
theorem Sound.addChanel (h : s.Sound) (ch : Nat) (c : ChannelObject) (ctl : Bool) :
    (s.addChanel ch c ctl).Sound := by
  unfold Registry.addChanel
  split
  · exact h
  · next hnew =>
    have hnot : c.getFd ∉ s.registered := fun hmem => hnew (.inl hmem)
    have hinsert := watched_some s.epoll c.getFd (EpollBackEnd.events c.readable_ c.writable_)
    refine ⟨⟨?_, fun fd => ?_, h.accounted.refused⟩, fun fd hfd => ?_, h.running⟩
    · have hcard := Set.ncard_insert_of_notMem hnot h.bounded.finite
      have hle := h.bounded.ncard_le
      show (s.epoll.poller.eventsSize_ + 1) % 2 ^ 64 = (watched (s.epoll.epollCtl _ _)).ncard
      rw [h.accounted.count, Nat.mod_eq_of_lt (by omega), ← hcard, hinsert]
      rfl
    · show (if fd = c.getFd then some ch else s.epoll.poller.channels_ fd).isSome = true ↔
        fd ∈ watched (s.epoll.epollCtl _ _)
      rw [hinsert, Set.mem_insert_iff]
      by_cases hfd : fd = c.getFd
      · simp [hfd]
      · rw [if_neg hfd, or_iff_right hfd]
        exact h.accounted.table fd
    · have hmem : fd ∈ watched (s.epoll.epollCtl _ _) := hfd
      rw [hinsert, Set.mem_insert_iff] at hmem
      rcases hmem with rfl | hold
      · exact c.fd_.isLt
      · exact h.bounded fd hold

/-- The kernel has the descriptor of an update, and has it afterwards. -/
theorem Sound.updateChanel (h : s.Sound) (c : ChannelObject) : (s.updateChanel c).Sound := by
  unfold Registry.updateChanel
  split
  · exact h
  · next hsome =>
    have hmem : c.getFd ∈ watched s.epoll := by
      show (s.epoll.interest c.getFd).isSome = true
      rwa [Bool.not_eq_true, Option.isNone_eq_false_iff] at hsome
    have hsame := watched_some s.epoll c.getFd (EpollBackEnd.events c.readable_ c.writable_)
    rw [Set.insert_eq_of_mem hmem] at hsame
    refine ⟨⟨?_, fun fd => ?_, h.accounted.refused⟩, fun fd hfd => h.bounded fd ?_, h.running⟩
    · show s.epoll.poller.eventsSize_ = (watched (s.epoll.epollCtl _ _)).ncard
      rw [hsame]
      exact h.accounted.count
    · show _ ↔ fd ∈ watched (s.epoll.epollCtl _ _)
      rw [hsame]
      exact h.accounted.table fd
    · have hold : fd ∈ watched (s.epoll.epollCtl _ _) := hfd
      rwa [hsame] at hold

/-- A registered descriptor that is removed is one less. -/
theorem Sound.removeChanel (h : s.Sound) (ch : Nat) (hmem : c.getFd ∈ s.registered) :
    (s.removeChanel ch c).Sound := by
  have hnone := watched_none s.epoll c.getFd
  refine ⟨⟨?_, fun fd => ?_, ?_⟩, fun fd hfd => ?_, h.running⟩
  · have hcard := Set.ncard_sdiff_singleton_add_one hmem h.bounded.finite
    have hle := h.bounded.ncard_le
    show (s.epoll.poller.eventsSize_ + (2 ^ 64 - 1)) % 2 ^ 64 = (watched (s.epoll.epollCtl _ _)).ncard
    rw [h.accounted.count, hnone]
    unfold registered at *
    omega
  · show (if fd = c.getFd then none else s.epoll.poller.channels_ fd).isSome = true ↔
      fd ∈ watched (s.epoll.epollCtl _ _)
    rw [hnone, Set.mem_sdiff, Set.mem_singleton_iff]
    by_cases hfd : fd = c.getFd
    · simp [hfd]
    · rw [if_neg hfd, and_iff_left hfd]
      exact h.accounted.table fd
  · exact (if_pos hmem).trans h.accounted.refused
  · have hold : fd ∈ watched (s.epoll.epollCtl _ _) := hfd
    rw [hnone] at hold
    exact h.bounded fd hold.1

theorem removeChanel_refused (ch : Nat) (hnot : c.getFd ∉ s.registered) :
    (s.removeChanel ch c).refused ≠ [] := by
  have hrefused : (s.removeChanel ch c).refused = s.refused ++ [c.getFd] := if_neg hnot
  rw [hrefused]
  simp

/-- The objects are not part of the account. -/
theorem Sound.of_eq (h : s.Sound) (hepoll : s'.epoll.poller = s.epoll.poller)
    (hinterest : s'.epoll.interest = s.epoll.interest) (hrefused : s'.refused = s.refused)
    (hrunning : s'.terminated = false) : s'.Sound := by
  have hsame : s'.registered = s.registered := by
    unfold registered watched
    rw [hinterest]
  refine ⟨⟨?_, fun fd => ?_, ?_⟩, fun fd hfd => ?_, hrunning⟩
  · rw [hepoll, hsame]
    exact h.accounted.count
  · rw [hepoll, hsame]
    exact h.accounted.table fd
  · rw [hrefused]
    exact h.accounted.refused
  · rw [hsame] at hfd
    exact h.bounded fd hfd

theorem object_outcome (s : Registry) (ch : Nat) :
    (∃ c, s.object ch = .ok c) ∨ s.object ch = .error .environment := by
  unfold object
  cases s.objects[ch]?.bind id with
  | none => exact .inr rfl
  | some c => exact .inl ⟨c, rfl⟩

/-- What is done with a channel that is there. -/
theorem guarantees_object {P : Registry → Prop} {f : ChannelObject → Exec Registry}
    (h : ∀ c, s.object ch = .ok c → Guarantees P (f c)) :
    Guarantees P (s.object ch >>= f) := by
  rcases object_outcome s ch with ⟨c, hc⟩ | hnone
  · rw [hc, ok_bind]
    exact h c hc
  · rw [hnone, error_bind]
    rfl

/-- **An operation whose removals are of registered descriptors keeps the account.** -/
theorem Sound.step (h : s.Sound) (op : RegistrationOp) (hop : s.Registered op) :
    Guarantees Sound (s.step op) := by
  unfold Registry.step
  split
  · rfl
  · cases op with
    | construct fd => exact h.of_eq rfl rfl rfl h.running
    | enableRead ch flag => exact guarantees_object fun c _ => h.of_eq rfl rfl rfl h.running
    | enableWrit ch flag => exact guarantees_object fun c _ => h.of_eq rfl rfl rfl h.running
    | addChannel ch ctl => exact guarantees_object fun c _ => h.addChanel ch c ctl
    | updateChannel ch => exact guarantees_object fun c _ => h.updateChanel c
    | removeChannel ch => exact guarantees_object fun c hc => h.removeChanel ch (hop c hc)
    | destroy ch =>
      refine guarantees_object fun c hc => ?_
      show Sound { (s.removeChanel ch c).setObject ch none with
        terminated := (s.epoll.interest c.getFd).isNone }
      exact (h.removeChanel ch (hop c hc)).of_eq rfl rfl rfl (Option.isNone_eq_false_iff.mpr (hop c hc))
    | loopDone =>
      show Sound s.resize
      unfold resize
      split
      · exact h.of_eq rfl rfl rfl h.running
      · exact h

/-- Any other removal is refused. -/
theorem Sound.step_refused (h : s.Sound) (op : RegistrationOp) (hop : ¬s.Registered op) :
    ∃ t, s.step op = .ok t ∧ ¬t.Accounted := by
  unfold Registry.step
  rw [h.running, if_neg Bool.false_ne_true]
  cases op with
  | removeChannel ch =>
    obtain ⟨c, hc, hnot⟩ : ∃ c, s.object ch = .ok c ∧ c.getFd ∉ s.registered := by
      simpa [Registered] using hop
    dsimp only
    rw [hc]
    exact ⟨_, rfl, fun ht => removeChanel_refused ch hnot ht.refused⟩
  | destroy ch =>
    obtain ⟨c, hc, hnot⟩ : ∃ c, s.object ch = .ok c ∧ c.getFd ∉ s.registered := by
      simpa [Registered] using hop
    dsimp only
    rw [hc]
    exact ⟨_, rfl, fun ht => removeChanel_refused (s := s) (c := c) ch hnot ht.refused⟩
  | _ => exact absurd trivial hop

/-! ## Every order of operations -/

/--
**The accounting of registrations.** In a run of a program's operations on its channels the count is
the number of registered descriptors in every state, and no removal is refused, exactly if every
removal and every destruction finds the channel's descriptor registered.
-/
theorem accounted_iff (ops : List RegistrationOp) : Along step Registered init ops ↔
    (∀ f, run step init ops = .error f → f = .environment) ∧
      ∀ before s, before <+: ops → run step init before = .ok s → s.Accounted :=
  along_iff_guarantees (K := fun _ _ => True) (fun _ h => h.accounted)
    (fun _ op h _ hop => h.step op hop) (fun _ op h _ hop => h.step_refused op hop) ops sound_init
    (along_of_forall (fun _ _ _ => trivial) _)

/-- A connection whose handler, which would add its channel, is not run before it is destroyed. -/
theorem never_added :
    (∃ s, run step init [.construct 5, .destroy 0] = .ok s ∧
        s.epoll.poller.eventsSize_ = 2 ^ 64 - 1 ∧ s.refused = [5] ∧ s.terminated = true) ∧
      ¬∀ ops : List RegistrationOp, (∀ f, run step init ops = .error f → f = .environment) ∧
        ∀ before s, before <+: ops → run step init before = .ok s → s.Accounted := by
  have hrun : ∃ s, run step init [.construct 5, .destroy 0] = .ok s ∧
      s.epoll.poller.eventsSize_ = 2 ^ 64 - 1 ∧ s.refused = [5] ∧ s.terminated = true :=
    ⟨_, rfl, by decide, by decide, by decide⟩
  refine ⟨hrun, fun hall => ?_⟩
  obtain ⟨s, hs, -, hrefused, -⟩ := hrun
  have haccounted := (hall _).2 _ s (List.prefix_refl _) hs
  rw [haccounted.refused] at hrefused
  cases hrefused

end Registry

end Liby
