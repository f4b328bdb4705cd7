import Liby.Loop.EventQueue

/-!
# GroupThreads

`EventLoopGroup::run`, `worker_thread` and the destructor, with `EventLoop::run`: how the threads of a
group start, leave their loops and are joined. Between any two steps of a thread the others may take
theirs.

`bf_` is a function of the user that goes on saying `false` once it did. Of an event queue only the
count of its eventfd matters: what a handler does here is to wake loops up.
-/

namespace Liby

open Infra

variable {H : Type}

/-- What the handlers of one pass of a loop do. -/
inductive LoopAction where
  /-- The read handler of the eventfd of the loop itself. -/
  | read
  /-- `runEventHandler` on a loop, or `wakeup`. -/
  | wakeup (loop : Nat)
  deriving DecidableEq, Repr

/-- The loop that a handler wakes up is one of the group, which has `n` worker loops. -/
def LoopAction.inGroup (n : Nat) : LoopAction → Prop
  | .read => True
  | .wakeup j => j ≤ n

instance (n : Nat) : DecidablePred (LoopAction.inGroup n)
  | .read => inferInstanceAs (Decidable True)
  | .wakeup j => inferInstanceAs (Decidable (j ≤ n))

/-- Where the thread of a loop is. -/
inductive ThreadPoint where
  /-- Not in `worker_thread` yet. -/
  | unborn
  /-- Before `bf()`. -/
  | check
  /-- In `loop_once`, before the kernel has answered. -/
  | poll
  /-- In the handlers of a pass. -/
  | handling (actions : List LoopAction)
  /-- In the last loop of `worker_thread`, before a loop is woken up. -/
  | wakeup (loop : Nat)
  | done
  deriving DecidableEq, Repr

namespace ThreadPoint

/-- The thread has seen `bf_` say `false`. -/
def told : ThreadPoint → Bool
  | .wakeup _ | .done => true
  | _ => false

/-- The thread has woken a loop up at its end. -/
def woke : ThreadPoint → Nat → Prop
  | .wakeup i, j => j < i
  | .done, _ => True
  | _, _ => False

theorem woke.told : ∀ {p : ThreadPoint} {j : Nat}, p.woke j → p.told = true
  | .wakeup _, _, _ => rfl
  | .done, _, _ => rfl

/-- The loops that the thread comes to are of the group. -/
def inGroup (n : Nat) : ThreadPoint → Prop
  | .handling actions => ∀ a ∈ actions, a.inGroup n
  | .wakeup i => i ≤ n
  | _ => True

end ThreadPoint

/-- Where the thread is that owns the group. -/
inductive OwnerPoint where
  /-- In `run`, before the thread of a loop is made. -/
  | spawning (loop : Nat)
  /-- In `worker_thread(0)`. -/
  | working
  /-- In the destructor, before the thread of a loop is joined. -/
  | joining (loop : Nat)
  | destroyed
  deriving DecidableEq, Repr

namespace OwnerPoint

/-- The threads that have not been made. -/
def unborn : OwnerPoint → Nat → Prop
  | .spawning i, j => j = 0 ∨ i ≤ j
  | _, _ => False

/-- The threads that have been joined, and that of the owner where it is in the destructor. -/
def joined : OwnerPoint → Nat → Prop
  | .joining i, j => j < i
  | .destroyed, _ => True
  | _, _ => False

/-- The loop that the owner comes to next, of `n` worker loops. -/
def inRange : OwnerPoint → Nat → Prop
  | .spawning i, n | .joining i, n => 1 ≤ i ∧ i ≤ n + 1
  | _, _ => True

end OwnerPoint

/-- A group with the thread of each loop. The loop `0` has the thread that owns the group. -/
structure GroupThreads (H : Type) where
  n_ : Nat
  bf_ : Bool
  equeues : List (EventQueue H)
  threads_ : List ThreadPoint
  owner : OwnerPoint
  deriving DecidableEq, Repr

/-- A step. -/
inductive ThreadStep where
  /-- `threads_.emplace_back`, and after the last one the call of `worker_thread(0)`. -/
  | spawn
  | check (loop : Nat)
  /-- `loop_once` has events: a descriptor of the user, or else the eventfd. -/
  | poll (loop : Nat) (event : Bool) (actions : List LoopAction)
  | act (loop : Nat)
  | finish (loop : Nat)
  | wakeup (loop : Nat)
  /-- `th.join()`, and after the last one the end of the destructor. -/
  | join
  /-- From here on `bf_` says `false`. -/
  | stop
  /-- A thread that is not of the group calls `runEventHandler`. -/
  | post (loop : Nat)
  deriving DecidableEq, Repr

/-- A step of a thread of the group. -/
def ThreadStep.ofGroup : ThreadStep → Bool
  | .stop | .post _ => false
  | _ => true

/-- A step that waits for nothing from outside. -/
def ThreadStep.unprompted : ThreadStep → Bool
  | .stop | .post _ | .poll _ true _ => false
  | _ => true

namespace GroupThreads

/-- A group of `n` worker loops, in the call of `run`. -/
def init (n : Nat) : GroupThreads H where
  n_ := n
  bf_ := true
  equeues := List.replicate (n + 1) .init
  threads_ := List.replicate (n + 1) .unborn
  owner := .spawning 1

/-- The thread of a loop is somewhere else. -/
def goto (s : GroupThreads H) (i : Nat) (p : ThreadPoint) : GroupThreads H :=
  { s with threads_ := s.threads_.set i p }

/-- Something changes in the event queue of a loop. The destructor has freed all of them. -/
def onQueue (s : GroupThreads H) (i : Nat) (f : EventQueue H → EventQueue H) :
    Exec (GroupThreads H) := do
  let q ← readAt s.equeues i
  return { s with equeues := s.equeues.set i (f q) }

/-- The owner is behind the last thread. -/
def spawn (s : GroupThreads H) : Exec (GroupThreads H) :=
  match s.owner with
  | .spawning i =>
    if i ≤ s.n_ then .ok { s.goto i .check with owner := .spawning (i + 1) }
    else .ok { s.goto 0 .check with owner := .working }
  | _ => .error .environment

/-- The destructor, up to the next thread that has not ended. -/
def join (s : GroupThreads H) : Exec (GroupThreads H) :=
  match s.owner with
  | .working =>
    if s.threads_[0]? = some .done then .ok { s with owner := .joining 1 } else .error .environment
  | .joining i =>
    if i ≤ s.n_ then
      if s.threads_[i]? = some .done then .ok { s with owner := .joining (i + 1) }
      else .error .environment
    else .ok { s with equeues := [], owner := .destroyed }
  | _ => .error .environment

/-- What a handler does. -/
def action (s : GroupThreads H) (i : Nat) : LoopAction → Exec (GroupThreads H)
  | .read => s.onQueue i fun q => q.read.2
  | .wakeup j => s.onQueue j EventQueue.wakeup

/-- One step. A step that its thread is not at is no behaviour of the system. -/
def step (s : GroupThreads H) : ThreadStep → Exec (GroupThreads H)
  | .spawn => s.spawn
  | .check i =>
    match s.threads_[i]? with
    | some .check => .ok (s.goto i (if s.bf_ then .poll else .wakeup 0))
    | _ => .error .environment
  | .poll i event actions =>
    match s.threads_[i]? with
    | some .poll => do
      let q ← readAt s.equeues i
      guardOr .environment ((event = true ∨ 0 < q.eventfd_) ∧ ∀ a ∈ actions, a.inGroup s.n_)
      return s.goto i (.handling actions)
    | _ => .error .environment
  | .act i =>
    match s.threads_[i]? with
    | some (.handling (a :: as)) => do
      let s ← s.action i a
      return s.goto i (.handling as)
    | _ => .error .environment
  | .finish i =>
    match s.threads_[i]? with
    | some (.handling []) => .ok (s.goto i .check)
    | _ => .error .environment
  | .wakeup i =>
    match s.threads_[i]? with
    | some (.wakeup j) => do
      let s ← s.onQueue j EventQueue.wakeup
      return s.goto i (if j < s.n_ then .wakeup (j + 1) else .done)
    | _ => .error .environment
  | .join => s.join
  | .stop => .ok { s with bf_ := false }
  | .post i => do
    guardOr .environment (i ≤ s.n_ ∧ s.owner ≠ .destroyed)
    s.onQueue i EventQueue.wakeup

/-! ## Whoever sleeps is woken up -/

variable {s s' : GroupThreads H}

/-- The eventfd of a loop has a count. -/
def Notified (s : GroupThreads H) (i : Nat) : Prop := ∃ q, s.equeues[i]? = some q ∧ 0 < q.eventfd_

/-- What holds of the threads, the loops and the owner. -/
structure Kept (s : GroupThreads H) : Prop where
  threads : s.threads_.length = s.n_ + 1
  queues : s.owner ≠ .destroyed → s.equeues.length = s.n_ + 1
  told : ∀ (i : Nat) (p : ThreadPoint), s.threads_[i]? = some p → p.told = true → s.bf_ = false
  /-- A loop that was woken up at the end does not sleep on. -/
  woken : ∀ (i j : Nat) (p : ThreadPoint), s.threads_[i]? = some p → p.woke j →
    s.threads_[j]? = some .poll → s.Notified j
  range : ∀ (i : Nat) (p : ThreadPoint), s.threads_[i]? = some p → p.inGroup s.n_
  unborn : ∀ i, i ≤ s.n_ → (s.threads_[i]? = some .unborn ↔ s.owner.unborn i)
  joined : ∀ i, i ≤ s.n_ → s.owner.joined i → s.threads_[i]? = some .done
  owner : s.owner.inRange s.n_

theorem kept_init (n : Nat) : Kept (init n : GroupThreads H) where
  threads := List.length_replicate
  queues _ := List.length_replicate
  told i p hp htold := by
    rw [init, List.getElem?_replicate] at hp
    split at hp
    · cases hp
      cases htold
    · cases hp
  woken i j p hp hwoke := by
    rw [init, List.getElem?_replicate] at hp
    split at hp
    · cases hp
      cases hwoke
    · cases hp
  range i p hp := by
    rw [init, List.getElem?_replicate] at hp
    split at hp
    · cases hp
      trivial
    · cases hp
  unborn i hi := by
    refine ⟨fun _ => ?_, fun _ => List.getElem?_replicate_of_lt (Nat.lt_succ_of_le hi)⟩
    show i = 0 ∨ 1 ≤ i
    omega
  joined i _ hjoined := hjoined.elim
  owner := ⟨le_rfl, Nat.le_add_left 1 n⟩

theorem Kept.le (h : Kept s) {i : Nat} {p : ThreadPoint} (hp : s.threads_[i]? = some p) : i ≤ s.n_ := by
  have hlt : i < s.threads_.length := (List.getElem?_eq_some_iff.mp hp).1
  rw [h.threads] at hlt
  exact Nat.le_of_lt_succ hlt

/-! ### The thread of a loop goes on -/

@[simp] theorem goto_owner (s : GroupThreads H) (i : Nat) (p : ThreadPoint) : (s.goto i p).owner = s.owner := rfl

@[simp] theorem goto_bf (s : GroupThreads H) (i : Nat) (p : ThreadPoint) : (s.goto i p).bf_ = s.bf_ := rfl

@[simp] theorem goto_equeues (s : GroupThreads H) (i : Nat) (p : ThreadPoint) :
    (s.goto i p).equeues = s.equeues := rfl

/-- The thread at a place after one of them has gone on. -/
theorem goto_thread {i j : Nat} {p r : ThreadPoint} (h : (s.goto i p).threads_[j]? = some r) :
    (i = j ∧ r = p) ∨ (i ≠ j ∧ s.threads_[j]? = some r) := by
  rw [goto, List.getElem?_set] at h
  split at h
  · next hij =>
    split at h
    · cases h
      exact .inl ⟨hij, rfl⟩
    · cases h
  · next hij => exact .inr ⟨hij, h⟩

theorem goto_same {i : Nat} {p r : ThreadPoint} (h : s.threads_[i]? = some p) :
    (s.goto i r).threads_[i]? = some r :=
  List.getElem?_set_self (List.getElem?_eq_some_iff.mp h).1

theorem goto_other {i j : Nat} (hij : i ≠ j) (p : ThreadPoint) :
    (s.goto i p).threads_[j]? = s.threads_[j]? := List.getElem?_set_ne hij

/-- A thread that is at work goes on: it sleeps only while nobody was told, and has woken what it is past. -/
theorem Kept.goto (h : Kept s) {i : Nat} {p r : ThreadPoint} (hp : s.threads_[i]? = some p)
    (hborn : p ≠ .unborn) (hended : p ≠ .done) (hborn' : r ≠ .unborn)
    (hpoll : r = .poll → s.bf_ = true) (htold : r.told = true → s.bf_ = false)
    (hwoke : ∀ j, r.woke j → s.threads_[j]? = some .poll → s.Notified j)
    (hrange : r.inGroup s.n_) : Kept (s.goto i r) where
  threads := (List.length_set).trans h.threads
  queues := h.queues
  told j t ht htt := by
    rcases goto_thread ht with ⟨-, rfl⟩ | ⟨-, hold⟩
    · exact htold htt
    · exact h.told j t hold htt
  woken j k t ht hk hsleeps := by
    have htt : t.told = true := hk.told
    have hold : s.threads_[k]? = some .poll := by
      rcases goto_thread hsleeps with ⟨-, hr⟩ | ⟨-, hold⟩
      · -- whoever goes to sleep does so while `bf_` says `true`
        have hbf : s.bf_ = false := by
          rcases goto_thread ht with ⟨-, rfl⟩ | ⟨-, hold⟩
          · exact htold htt
          · exact h.told j t hold htt
        rw [hpoll hr.symm] at hbf
        cases hbf
      · exact hold
    rcases goto_thread ht with ⟨-, rfl⟩ | ⟨-, holdt⟩
    · exact hwoke k hk hold
    · exact h.woken j k t holdt hk hold
  range j t ht := by
    rcases goto_thread ht with ⟨-, rfl⟩ | ⟨-, hold⟩
    · exact hrange
    · exact h.range j t hold
  unborn j hj := by
    by_cases hij : i = j
    · subst hij
      rw [goto_same hp, goto_owner, ← h.unborn i hj, hp, Option.some.injEq, Option.some.injEq]
      exact iff_of_false hborn' hborn
    · rw [goto_other hij, goto_owner]
      exact h.unborn j hj
  joined j hj hjoined := by
    have hold := h.joined j hj hjoined
    by_cases hij : i = j
    · subst hij
      rw [hp] at hold
      exact absurd (Option.some.inj hold) hended
    · rw [goto_other hij]
      exact hold
  owner := h.owner

/-! ### A loop is woken up, or reads its eventfd -/

theorem onQueue_ok {i : Nat} {f : EventQueue H → EventQueue H} (h : s.onQueue i f = .ok s') :
    ∃ q, s.equeues[i]? = some q ∧ s' = { s with equeues := s.equeues.set i (f q) } := by
  obtain ⟨q, hq, hs'⟩ := bind_eq_ok.mp h
  cases hs'
  exact ⟨q, readAt_eq_ok.mp hq, rfl⟩

theorem action_ok {i : Nat} {a : LoopAction} (h : s.action i a = .ok s') :
    ∃ j q, s' = { s with equeues := s.equeues.set j q } := by
  cases a with
  | read =>
    obtain ⟨q, -, hs'⟩ := onQueue_ok h
    exact ⟨i, _, hs'⟩
  | wakeup j =>
    obtain ⟨q, -, hs'⟩ := onQueue_ok h
    exact ⟨j, _, hs'⟩

/-- The loops of a group are there until the destructor frees them. -/
theorem Kept.queue_at (h : Kept s) {i : Nat} (hi : i ≤ s.n_) (howner : s.owner ≠ .destroyed)
    (f : EventQueue H → EventQueue H) : ∃ q, s.equeues[i]? = some q ∧
      s.onQueue i f = .ok { s with equeues := s.equeues.set i (f q) } := by
  have hlt : i < s.equeues.length := by
    rw [h.queues howner]
    omega
  refine ⟨s.equeues[i], List.getElem?_eq_getElem hlt, ?_⟩
  unfold onQueue
  rw [readAt_of_lt hlt, ok_bind]
  rfl

/-- The count of a loop changes: it stays above zero, but for that of a loop whose thread is awake. -/
theorem Kept.setQueue (h : Kept s) {i : Nat} {q r : EventQueue H} (hq : s.equeues[i]? = some q)
    (hr : s.threads_[i]? = some .poll → 0 < q.eventfd_ → 0 < r.eventfd_) :
    Kept { s with equeues := s.equeues.set i r } where
  threads := h.threads
  queues howner := (List.length_set).trans (h.queues howner)
  told := h.told
  woken j k p hp hwoke hpoll := by
    obtain ⟨q', hq', hpos⟩ := h.woken j k p hp hwoke hpoll
    by_cases hik : i = k
    · subst hik
      rw [hq] at hq'
      cases hq'
      exact ⟨r, List.getElem?_set_self (List.getElem?_eq_some_iff.mp hq).1, hr hpoll hpos⟩
    · exact ⟨q', (List.getElem?_set_ne hik).trans hq', hpos⟩
  range := h.range
  unborn := h.unborn
  joined := h.joined
  owner := h.owner

/-- A thread that has not ended keeps the destructor from its end. -/
theorem Kept.standing (h : Kept s) {i : Nat} {p : ThreadPoint} (hp : s.threads_[i]? = some p)
    (hended : p ≠ .done) : s.owner ≠ .destroyed := by
  intro howner
  have hdone := h.joined i (h.le hp) (by rw [howner]; trivial)
  rw [hp] at hdone
  exact hended (Option.some.inj hdone)

/-- The last loop of `worker_thread` wakes a loop up. -/
theorem Kept.wakeup (h : Kept s) {i : Nat} (hi : i ≤ s.n_) (howner : s.owner ≠ .destroyed) :
    ∃ t, s.onQueue i EventQueue.wakeup = .ok t ∧ Kept t ∧ t.Notified i ∧
      t.threads_ = s.threads_ ∧ t.bf_ = s.bf_ ∧ t.n_ = s.n_ ∧ t.owner = s.owner ∧
      ∀ j, s.Notified j → t.Notified j := by
  obtain ⟨q, hq, hok⟩ := h.queue_at hi howner EventQueue.wakeup
  have hlt := (List.getElem?_eq_some_iff.mp hq).1
  have hnotified : ({ s with equeues := s.equeues.set i q.wakeup } : GroupThreads H).Notified i :=
    ⟨q.wakeup, List.getElem?_set_self hlt, QueueThreads.wakeup_pos q⟩
  refine ⟨_, hok, h.setQueue hq fun _ _ => QueueThreads.wakeup_pos q, hnotified, rfl, rfl, rfl, rfl, ?_⟩
  rintro j ⟨r, hr, hpos⟩
  by_cases hij : i = j
  · subst hij
    exact hnotified
  · exact ⟨r, (List.getElem?_set_ne hij).trans hr, hpos⟩

/-! ### The owner -/

/-- The thread of a loop begins. -/
theorem Kept.begin (h : Kept s) {i : Nat} {o : OwnerPoint} (hi : s.threads_[i]? = some .unborn)
    (ho : ∀ j, j ≤ s.n_ → (o.unborn j ↔ j ≠ i ∧ s.owner.unborn j)) (hjoined : ∀ j, ¬o.joined j)
    (hrange : o.inRange s.n_) (halive : s.owner ≠ .destroyed) :
    Kept { s.goto i .check with owner := o } where
  threads := (List.length_set).trans h.threads
  queues _ := h.queues halive
  told j p hp htold := by
    rcases goto_thread hp with ⟨-, rfl⟩ | ⟨-, hold⟩
    · cases htold
    · exact h.told j p hold htold
  woken j k p hp hwoke hpoll := by
    rcases goto_thread hp with ⟨-, rfl⟩ | ⟨-, holdp⟩
    · cases hwoke
    · rcases goto_thread hpoll with ⟨-, hcheck⟩ | ⟨-, hold⟩
      · cases hcheck
      · exact h.woken j k p holdp hwoke hold
  range j p hp := by
    rcases goto_thread hp with ⟨-, rfl⟩ | ⟨-, hold⟩
    · trivial
    · exact h.range j p hold
  unborn j hj := by
    rw [ho j hj, ← h.unborn j hj]
    by_cases hij : i = j
    · subst hij
      rw [goto_same hi]
      simp
    · rw [goto_other hij]
      simp [Ne.symm hij]
  joined j _ hj := absurd hj (hjoined j)
  owner := hrange

theorem Kept.spawn (h : Kept s) : Guarantees Kept s.spawn := by
  unfold GroupThreads.spawn
  split
  · next k howner =>
    have hrange : 1 ≤ k ∧ k ≤ s.n_ + 1 := by
      have hr := h.owner
      rwa [howner] at hr
    have hunborn : ∀ j, j ≤ s.n_ → (s.threads_[j]? = some .unborn ↔ j = 0 ∨ k ≤ j) := by
      intro j hj
      have hu := h.unborn j hj
      rwa [howner] at hu
    split
    · next hk =>
      refine h.begin ((hunborn k hk).mpr (.inr le_rfl)) (fun j hj => ?_) (fun _ => id)
        ⟨Nat.le_add_left 1 k, Nat.succ_le_succ hk⟩ (by rw [howner]; exact nofun)
      rw [howner]
      show j = 0 ∨ k + 1 ≤ j ↔ j ≠ k ∧ (j = 0 ∨ k ≤ j)
      omega
    · next hk =>
      refine h.begin ((hunborn 0 (Nat.zero_le _)).mpr (.inl rfl)) (fun j hj => ?_) (fun _ => id)
        trivial (by rw [howner]; exact nofun)
      rw [howner]
      refine iff_of_false id fun ⟨hne, hor⟩ => ?_
      have hkj : k ≤ j := hor.resolve_left hne
      exact hk (hkj.trans hj)
  · rfl

/-- The owner goes on in the destructor: what it has joined has ended. -/
theorem Kept.joinNext (h : Kept s) {i : Nat} (hborn : ∀ j, ¬s.owner.unborn j)
    (halive : s.owner ≠ .destroyed) (hdone : ∀ j, j < i → s.threads_[j]? = some .done)
    (hi : 1 ≤ i ∧ i ≤ s.n_ + 1) : Kept { s with owner := .joining i } where
  threads := h.threads
  queues _ := h.queues halive
  told := h.told
  woken := h.woken
  range := h.range
  unborn j hj := by
    rw [h.unborn j hj]
    exact iff_of_false (hborn j) id
  joined j _ hj := hdone j hj
  owner := hi

theorem Kept.join (h : Kept s) : Guarantees Kept s.join := by
  unfold GroupThreads.join
  split
  · next howner =>
    split
    · next hdone =>
      refine h.joinNext (by rw [howner]; exact fun _ => id) (by rw [howner]; exact nofun)
        (fun j hj => ?_) ⟨le_rfl, Nat.le_add_left 1 _⟩
      rw [Nat.lt_one_iff.mp hj]
      exact hdone
    · rfl
  · next i howner =>
    have hrange : 1 ≤ i ∧ i ≤ s.n_ + 1 := by
      have hr := h.owner
      rwa [howner] at hr
    have hjoined : ∀ j, j ≤ s.n_ → j < i → s.threads_[j]? = some .done := by
      intro j hj hlt
      exact h.joined j hj (by rw [howner]; exact hlt)
    split
    · next hi =>
      split
      · next hdone =>
        refine h.joinNext (by rw [howner]; exact fun _ => id) (by rw [howner]; exact nofun)
          (fun j hj => ?_) ⟨Nat.le_add_left 1 i, Nat.succ_le_succ hi⟩
        rcases Nat.lt_succ_iff_lt_or_eq.mp hj with hlt | rfl
        · exact hjoined j (Nat.le_of_lt (hlt.trans_le hi)) hlt
        · exact hdone
      · rfl
    · next hi =>
      have hdone : ∀ j, j ≤ s.n_ → s.threads_[j]? = some .done := fun j hj =>
        hjoined j hj (Nat.lt_of_le_of_lt hj (Nat.lt_of_not_le hi))
      refine ⟨h.threads, fun hne => absurd rfl hne, h.told, fun j k p hp hwoke hpoll => ?_,
        h.range, fun j hj => ?_, fun j hj _ => hdone j hj, trivial⟩
      · -- there is no thread left that could sleep
        have hd := hdone k (h.le (p := .poll) hpoll)
        rw [show s.threads_[k]? = some .poll from hpoll] at hd
        cases hd
      · rw [hdone j hj]
        exact iff_of_false nofun id
  · rfl

/-! ### Every step -/

theorem Kept.check (h : Kept s) {i : Nat} (hi : s.threads_[i]? = some .check) :
    Kept (s.goto i (if s.bf_ then .poll else .wakeup 0)) := by
  cases hbf : s.bf_ with
  | true =>
    exact h.goto hi nofun nofun nofun (fun _ => hbf) nofun (fun _ hw => hw.elim) trivial
  | false =>
    exact h.goto hi nofun nofun nofun nofun (fun _ => hbf)
      (fun j hw => absurd hw (Nat.not_lt_zero j)) (Nat.zero_le s.n_)

/-- What a handler does keeps all of it. -/
theorem Kept.action (h : Kept s) {i : Nat} {as : List LoopAction}
    (hi : s.threads_[i]? = some (.handling as)) {a : LoopAction} (ha : a.inGroup s.n_) :
    ∃ t, s.action i a = .ok t ∧ Kept t ∧ t.threads_ = s.threads_ ∧ t.n_ = s.n_ := by
  have howner := h.standing hi nofun
  cases a with
  | read =>
    obtain ⟨q, hq, hok⟩ := h.queue_at (h.le hi) howner fun q => q.read.2
    refine ⟨_, hok, h.setQueue hq fun hpoll => ?_, rfl, rfl⟩
    rw [hi] at hpoll
    cases hpoll
  | wakeup j =>
    obtain ⟨t, hok, ht, -, hthreads, -, hn, -⟩ := h.wakeup ha howner
    exact ⟨t, hok, ht, hthreads, hn⟩

/-- The last loop of `worker_thread` goes on. -/
theorem Kept.wakeupNext (h : Kept s) {i j : Nat} (hi : s.threads_[i]? = some (.wakeup j)) :
    ∃ t, s.onQueue j EventQueue.wakeup = .ok t ∧ t.threads_ = s.threads_ ∧ t.n_ = s.n_ ∧
      Kept (t.goto i (if j < t.n_ then .wakeup (j + 1) else .done)) := by
  have hj : j ≤ s.n_ := h.range i _ hi
  obtain ⟨t, hok, ht, hnotified, hthreads, hbf, hn, howner, hkeeps⟩ :=
    h.wakeup hj (h.standing hi nofun)
  refine ⟨t, hok, hthreads, hn, ?_⟩
  have hat : t.threads_[i]? = some (.wakeup j) := hthreads ▸ hi
  have hold : ∀ k, k < j → t.threads_[k]? = some .poll → t.Notified k := fun k hk =>
    ht.woken i k _ hat hk
  split
  · next hlt =>
    refine ht.goto hat nofun nofun nofun nofun (fun _ => ht.told i _ hat rfl) (fun k hk => ?_) hlt
    rcases Nat.lt_succ_iff_lt_or_eq.mp hk with hlt | rfl
    · exact hold k hlt
    · exact fun _ => hnotified
  · next hlt =>
    refine ht.goto hat nofun nofun nofun nofun (fun _ => ht.told i _ hat rfl) (fun k _ hpoll => ?_) trivial
    have hk := ht.le hpoll
    rcases Nat.lt_or_ge k j with hkj | hkj
    · exact hold k hkj hpoll
    · rw [show k = j by omega]
      exact hnotified

/-- **Every step of every thread keeps it, and none touches a loop that was freed.** -/
theorem Kept.step (h : Kept s) (e : ThreadStep) : Guarantees Kept (s.step e) := by
  cases e with
  | spawn => exact h.spawn
  | check i =>
    unfold GroupThreads.step
    dsimp only
    split
    · next hi => exact h.check hi
    · rfl
  | poll i event actions =>
    unfold GroupThreads.step
    dsimp only
    split
    · next hi =>
      obtain ⟨q, hq, -⟩ := h.queue_at (h.le hi) (h.standing hi nofun) id
      rw [readAt_eq_ok.mpr hq, ok_bind]
      refine Guarantees.guard fun hactions => ?_
      exact h.goto hi nofun nofun nofun nofun nofun (fun _ hw => hw.elim) hactions.2
    · rfl
  | act i =>
    unfold GroupThreads.step
    dsimp only
    split
    · next a as hi =>
      have hin := h.range i _ hi
      obtain ⟨t, hok, ht, hthreads, hn⟩ := h.action hi (hin a List.mem_cons_self)
      have hat : t.threads_[i]? = some (.handling (a :: as)) := hthreads ▸ hi
      rw [hok, ok_bind]
      refine ht.goto hat nofun nofun nofun nofun nofun (fun _ hw => hw.elim) fun b hb => ?_
      rw [hn]
      exact hin b (List.mem_cons_of_mem a hb)
    · rfl
  | finish i =>
    unfold GroupThreads.step
    dsimp only
    split
    · next hi => exact h.goto hi nofun nofun nofun nofun nofun (fun _ hw => hw.elim) trivial
    · rfl
  | wakeup i =>
    unfold GroupThreads.step
    dsimp only
    split
    · next j hi =>
      obtain ⟨t, hok, -, -, ht⟩ := h.wakeupNext hi
      rw [hok, ok_bind]
      exact ht
    · rfl
  | join => exact h.join
  | stop => exact ⟨h.threads, h.queues, fun _ _ _ _ => rfl, h.woken, h.range, h.unborn, h.joined, h.owner⟩
  | post i =>
    refine Guarantees.guard fun hi => ?_
    obtain ⟨t, hok, ht, -⟩ := h.wakeup hi.1 hi.2
    rw [hok]
    exact ht

theorem run_kept (n : Nat) (es : List ThreadStep) :
    Guarantees Kept (run step (init n : GroupThreads H) es) :=
  run_guarantees (C := fun _ => True) (fun _ e h _ => h.step e) (kept_init n) fun _ _ => trivial

end GroupThreads

end Liby
