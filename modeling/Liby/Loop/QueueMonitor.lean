import Liby.Loop.EventQueue

/-!
# QueueMonitor

`BlockingQueue.h` with any number of threads on both ends: each function but `empty` and `front` holds
the mutex, and `pop_wait` gives it up in `cond_.wait`. Between any two steps of a thread the others may
take theirs.
-/

namespace Liby

open Infra

/-- A step of a thread. -/
inductive MonitorStep (T V : Type) where
  /-- `push_notify`, with the thread that `notify_one` wakes up. -/
  | pushNotify (e : V) (woken : Option T)
  | pushBroadcast (e : V)
  | pushBack (e : V)
  /-- A thread calls `pop_wait`. -/
  | popWait (thread : T)
  /-- A thread in `pop_wait` has the mutex and looks at the queue. -/
  | look (thread : T)
  /-- `cond_.wait` comes back without a notification. -/
  | wake (thread : T)
  | popFront
  | pop
  deriving DecidableEq, Repr

/--
A `BlockingQueue` with the threads in `pop_wait`: those that are about to look at the queue, and those in
`cond_.wait`. `pushed` and `popped` tell what happened.
-/
structure QueueMonitor (T V : Type) where
  queue : BlockingQueue V
  looking : List T
  asleep : List T
  pushed : List V
  popped : List V
  deriving DecidableEq, Repr

namespace QueueMonitor

variable {T V : Type}

/-- The constructor. -/
def init (elements : List V) : QueueMonitor T V where
  queue := { queue_ := elements }
  looking := []
  asleep := []
  pushed := elements
  popped := []

/-- An element comes to the back. -/
def push (s : QueueMonitor T V) (e : V) : QueueMonitor T V :=
  { s with queue := s.queue.pushBack e, pushed := s.pushed ++ [e] }

/-- `pop_front_imp`. -/
def popFrontImp (s : QueueMonitor T V) : Exec (QueueMonitor T V) := do
  let (e, queue) ← s.queue.popFront
  return { s with queue := queue, popped := s.popped ++ [e] }

variable [DecidableEq T]

/-- A thread comes out of `cond_.wait`. -/
def awake (s : QueueMonitor T V) (thread : T) : QueueMonitor T V :=
  { s with looking := thread :: s.looking, asleep := s.asleep.erase thread }

/-- `cond_.notify_one`: the system chooses among the threads that wait. -/
def notifyOne (s : QueueMonitor T V) : Option T → Exec (QueueMonitor T V)
  | none => do
    guardOr .environment (s.asleep = [])
    return s
  | some thread => do
    guardOr .environment (thread ∈ s.asleep)
    return s.awake thread

/-- `cond_.notify_all`. -/
def notifyAll (s : QueueMonitor T V) : QueueMonitor T V :=
  { s with looking := s.asleep ++ s.looking, asleep := [] }

/-- `pop_wait` with the mutex: the thread takes an element, or waits where there is none. -/
def look (s : QueueMonitor T V) (thread : T) : Exec (QueueMonitor T V) :=
  if s.queue.empty then
    .ok { s with looking := s.looking.erase thread, asleep := thread :: s.asleep }
  else popFrontImp { s with looking := s.looking.erase thread }

/-- One step. A step that its thread is not at is no behaviour of the system. -/
def step (s : QueueMonitor T V) : MonitorStep T V → Exec (QueueMonitor T V)
  | .pushNotify e woken => (s.push e).notifyOne woken
  | .pushBroadcast e => .ok (s.push e).notifyAll
  | .pushBack e => .ok (s.push e)
  | .popWait thread => do
    guardOr .environment (thread ∉ s.looking ∧ thread ∉ s.asleep)
    return { s with looking := thread :: s.looking }
  | .look thread => do
    guardOr .environment (thread ∈ s.looking)
    s.look thread
  | .wake thread => do
    guardOr .environment (thread ∈ s.asleep)
    return s.awake thread
  | .popFront => s.popFrontImp
  | .pop => s.popFrontImp

/-! ## First in, first out -/

/-- Nothing is lost and nothing overtakes. -/
def Ordered (s : QueueMonitor T V) : Prop := s.pushed = s.popped ++ s.queue.queue_

variable {s s' : QueueMonitor T V}

omit [DecidableEq T] in
theorem Ordered.push (h : Ordered s) (e : V) : Ordered (s.push e) := by
  show s.pushed ++ [e] = s.popped ++ (s.queue.queue_ ++ [e])
  rw [show s.pushed = s.popped ++ s.queue.queue_ from h, List.append_assoc]

omit [DecidableEq T] in
/-- `pop_front_imp` takes the element at the front. -/
theorem popFrontImp_ok (h : s.popFrontImp = .ok s') : ∃ e es, s.queue.queue_ = e :: es ∧
    s' = { s with queue := { queue_ := es }, popped := s.popped ++ [e] } := by
  obtain ⟨⟨e, queue⟩, hpop, hs'⟩ := bind_eq_ok.mp h
  unfold BlockingQueue.popFront at hpop
  split at hpop
  · cases hpop
  · next e es hqueue =>
    cases hpop
    cases hs'
    exact ⟨e, es, hqueue, rfl⟩

omit [DecidableEq T] in
theorem Ordered.popFrontImp (h : Ordered s) (hs : s.popFrontImp = .ok s') : Ordered s' := by
  obtain ⟨e, es, hqueue, rfl⟩ := popFrontImp_ok hs
  show s.pushed = s.popped ++ [e] ++ es
  rw [show s.pushed = s.popped ++ s.queue.queue_ from h, hqueue, List.append_assoc]
  rfl

theorem Ordered.notifyOne (h : Ordered s) {woken : Option T} (hs : s.notifyOne woken = .ok s') :
    Ordered s' := by
  cases woken with
  | none =>
    obtain ⟨-, -, hs⟩ := bind_eq_ok.mp hs
    cases hs
    exact h
  | some thread =>
    obtain ⟨-, -, hs⟩ := bind_eq_ok.mp hs
    cases hs
    exact h

theorem Ordered.step (h : Ordered s) {e : MonitorStep T V} (hs : s.step e = .ok s') : Ordered s' := by
  cases e with
  | pushNotify e woken => exact (h.push e).notifyOne hs
  | pushBroadcast e =>
    cases hs
    exact h.push e
  | pushBack e =>
    cases hs
    exact h.push e
  | popWait thread =>
    obtain ⟨-, -, hs⟩ := bind_eq_ok.mp hs
    cases hs
    exact h
  | look thread =>
    obtain ⟨-, -, hs⟩ := bind_eq_ok.mp hs
    unfold look at hs
    split at hs
    · cases hs
      exact h
    · exact Ordered.popFrontImp (s := { s with looking := s.looking.erase thread }) h hs
  | wake thread =>
    obtain ⟨-, -, hs⟩ := bind_eq_ok.mp hs
    cases hs
    exact h
  | popFront => exact h.popFrontImp hs
  | pop => exact h.popFrontImp hs

/-! ## No element waits for a thread that sleeps -/

/-- Where a thread sleeps, for each element there is a thread that is about to look at the queue. -/
def Served (s : QueueMonitor T V) : Prop :=
  s.asleep = [] ∨ s.queue.queue_.length ≤ s.looking.length

/--
What `push_back` needs, which notifies nobody: no thread sleeps, or more threads are about to look than
there are elements.
-/
def Attended (s : QueueMonitor T V) : MonitorStep T V → Prop
  | .pushBack _ => s.asleep = [] ∨ s.queue.queue_.length < s.looking.length
  | _ => True

instance (s : QueueMonitor T V) : DecidablePred s.Attended
  | .pushBack _ =>
    inferInstanceAs (Decidable (s.asleep = [] ∨ s.queue.queue_.length < s.looking.length))
  | .pushNotify _ _ | .pushBroadcast _ | .popWait _ | .look _ | .wake _ | .popFront | .pop =>
    inferInstanceAs (Decidable True)

/-- A thread wakes up: it will look. -/
theorem awake_served {thread : T} (h : s.queue.queue_.length ≤ s.looking.length + 1) :
    Served (s.awake thread) := .inr h

/-- A push with `notify_one` wakes a thread up, or finds none asleep. -/
theorem Served.pushNotify (h : Served s) (e : V) {woken : Option T}
    (hs : (s.push e).notifyOne woken = .ok s') : Served s' := by
  cases woken with
  | none =>
    obtain ⟨u, hguard, hs⟩ := bind_eq_ok.mp hs
    cases hs
    exact .inl (guardOr_eq_ok.mp hguard)
  | some thread =>
    obtain ⟨u, hguard, hs⟩ := bind_eq_ok.mp hs
    cases hs
    have hasleep : s.asleep ≠ [] := List.ne_nil_of_mem (guardOr_eq_ok.mp hguard)
    refine awake_served ?_
    show (s.queue.queue_ ++ [e]).length ≤ s.looking.length + 1
    rw [List.length_append]
    exact Nat.add_le_add_right (h.resolve_left hasleep) 1

/-- A thread looks at the queue: it takes an element, or sleeps while there is none. -/
theorem Served.look (h : Served s) {thread : T} (hthread : thread ∈ s.looking)
    (hs : s.look thread = .ok s') : Served s' := by
  unfold QueueMonitor.look at hs
  split at hs
  · next hempty =>
    cases hs
    refine .inr ?_
    rw [show s.queue.queue_ = [] from List.isEmpty_iff.mp hempty]
    exact Nat.zero_le _
  · obtain ⟨e, es, hqueue, rfl⟩ := popFrontImp_ok hs
    have hlength := List.length_erase_of_mem hthread
    rcases h with hasleep | hle
    · exact .inl hasleep
    · refine .inr ?_
      rw [show s.queue.queue_ = e :: es from hqueue, List.length_cons] at hle
      show es.length ≤ (s.looking.erase thread).length
      omega

omit [DecidableEq T] in
theorem Served.popFrontImp (h : Served s) (hs : s.popFrontImp = .ok s') : Served s' := by
  obtain ⟨e, es, hqueue, rfl⟩ := popFrontImp_ok hs
  rcases h with hasleep | hle
  · exact .inl hasleep
  · refine .inr ?_
    rw [hqueue, List.length_cons] at hle
    exact Nat.le_of_succ_le hle

/-- **A step leaves no element to threads that sleep, but for a `push_back` that is not attended.** -/
theorem Served.step_iff (h : Served s) {e : MonitorStep T V} (hs : s.step e = .ok s') :
    Served s' ↔ s.Attended e := by
  cases e with
  | pushNotify e woken => exact iff_of_true (h.pushNotify e hs) trivial
  | pushBroadcast e =>
    cases hs
    exact iff_of_true (.inl rfl) trivial
  | pushBack e =>
    cases hs
    show s.asleep = [] ∨ (s.queue.queue_ ++ [e]).length ≤ s.looking.length ↔ _
    rw [List.length_append]
    exact Iff.rfl
  | popWait thread =>
    obtain ⟨-, -, hs⟩ := bind_eq_ok.mp hs
    cases hs
    exact iff_of_true (h.imp_right Nat.le_succ_of_le) trivial
  | look thread =>
    obtain ⟨u, hguard, hs⟩ := bind_eq_ok.mp hs
    exact iff_of_true (h.look (guardOr_eq_ok.mp hguard) hs) trivial
  | wake thread =>
    obtain ⟨u, hguard, hs⟩ := bind_eq_ok.mp hs
    cases hs
    have hasleep : s.asleep ≠ [] := List.ne_nil_of_mem (guardOr_eq_ok.mp hguard)
    exact iff_of_true (awake_served (Nat.le_succ_of_le (h.resolve_left hasleep))) trivial
  | popFront => exact iff_of_true (h.popFrontImp hs) trivial
  | pop => exact iff_of_true (h.popFrontImp hs) trivial

/-! ## Runs -/

/--
**A `BlockingQueue` is first in, first out, and wakes up enough threads.** After any steps of any threads what
was pushed is what was popped, in that order, and what is still there; and no element waits while a
thread sleeps that nobody has woken up for it, in any state on the way, exactly if every `push_back`
found no thread asleep or more threads about to look than elements.
-/
theorem served_iff {elements : List V} {es : List (MonitorStep T V)}
    (h : run step (init elements) es = .ok s) :
    s.Ordered ∧ (Along step Attended (init elements : QueueMonitor T V) es ↔
      ∀ es' t, es' <+: es → run step (init elements) es' = .ok t → t.Served) := by
  have hinit : Ordered (init elements : QueueMonitor T V) := rfl
  exact ⟨run_invariant (fun _ _ _ hi hs => Ordered.step hi hs) hinit h,
    along_iff_invariant (fun _ _ _ hi hs => Served.step_iff hi hs) (.inl rfl) h⟩

/-- A worker sleeps, gets an element by `push_notify`, and sleeps on behind a `push_back`. -/
theorem served_iff_worker : ¬∀ es' t,
    es' <+: [.popWait 0, .look 0, .pushNotify 7 (some 0), .look 0, .popWait 0, .look 0, .pushBack 8] →
    run step (init [] : QueueMonitor Nat Nat) es' = .ok t → t.Served := by
  have hrun : run step (init [] : QueueMonitor Nat Nat)
      [.popWait 0, .look 0, .pushNotify 7 (some 0), .look 0, .popWait 0, .look 0, .pushBack 8]
      = .ok { queue := { queue_ := [8] }, looking := [], asleep := [0], pushed := [7, 8], popped := [7] } := by
    decide
  intro hall
  exact absurd ((served_iff hrun).2.mpr hall) (by decide)

end QueueMonitor

end Liby
