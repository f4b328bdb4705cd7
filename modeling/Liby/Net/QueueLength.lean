import Liby.Net.WritePath
import Liby.Net.WriteSteps

/-!
# How many entries `writev` is given

The entries are all buffers at the front of the queue, however many there are, and `writev` fails
with `EINVAL` for more than `IOV_MAX` of them. The kernel is otherwise without errors here: it
accepts something, or nothing at present.

Which runs of buffers an event comes to is said of the queue before it (`Fits`): the loop goes on
each time the kernel takes a whole number of tasks, with the rest of the queue and with what the
handlers of these tasks send.
-/

namespace Liby

open Infra

variable {σ H : Type _} {cb : Callbacks σ H}

namespace Link

variable {l l' : Link σ H} {J : History σ H} {a : WriteAnswer} {as : List WriteAnswer}
  {p : Link σ H × WriteAnswer}

/-- The number of entries of each `writev` of an event. -/
def writevs (cb : Callbacks σ H) (l : Link σ H) (as : List WriteAnswer) : List Nat :=
  (l.passes cb as).filterMap fun p =>
    match p.1.conn.writTasks_ with
    | [] => none
    | first :: _ =>
      match first.fp_ with
      | some _ => none
      | none => (gather p.1.conn.writTasks_).toOption.map List.length

/-- What the kernel answers: an error for too many entries, and no error otherwise. -/
def Answered (p : Link σ H × WriteAnswer) : Prop :=
  if IOV_MAX < p.1.conn.leading.length then p.2 = .failed else p.2.Sound

/-- There are not too many buffers in a row at the front of the queue. -/
def Short (p : Link σ H × WriteAnswer) : Prop := p.1.conn.leading.length ≤ IOV_MAX

/-- Calls that send something, and write events on a healthy socket. -/
def Healthy (cb : Callbacks σ H) (l : Link σ H) : Event H → Prop
  | .call x => x.Sends
  | .writ as => ∀ p ∈ l.passes cb as, Answered p

/-- Every `writev` of the event has between 1 and `IOV_MAX` entries. -/
def EntriesInRange (cb : Callbacks σ H) (l : Link σ H) : Event H → Prop
  | .call _ => True
  | .writ as => ∀ n ∈ l.writevs cb as, 1 ≤ n ∧ n ≤ IOV_MAX

/-- What the completion handlers of tasks leave, and what they put in the queue. -/
def completes (cb : Callbacks σ H) (w : σ) : List (IoTask H) → σ × List (IoTask H)
  | [] => (w, [])
  | t :: tasks =>
    match t.handler_ with
    | none => completes cb w tasks
    | some handler =>
      let (w, xs) := cb.complete w handler
      let (w, new) := completes cb w tasks
      (w, xs.flatMap ConnCall.tasks ++ new)

/-- The tasks that one call of the kernel is made for: the buffers at the front, or a file. -/
def batch (tasks : List (IoTask H)) : List (IoTask H) :=
  match tasks.takeWhile IoTask.inMemory with
  | [] => tasks.take 1
  | run => run

/-- How many tasks `n` bytes are, if they end with the last byte of a task. -/
def wholeTasks : Nat → List (IoTask H) → Option Nat
  | 0, _ => some 0
  | _ + 1, [] => none
  | n + 1, t :: tasks =>
    if t.remaining.length ≤ n + 1 then
      (wholeTasks (n + 1 - t.remaining.length) tasks).map (· + 1)
    else none

/-- How many tasks the kernel takes, if it takes a whole number of them. -/
def takes (tasks : List (IoTask H)) : WriteAnswer → Option Nat
  | .accepted n => if n < 2 ^ 31 then wholeTasks n (batch tasks) else none
  | .again | .failed => none

/--
There are not too many buffers in a row at the front of the queue, and neither at the front of what
is left of it, with what was sent meanwhile, each time the kernel takes a whole number of tasks.
-/
def Fits (cb : Callbacks σ H) (w : σ) (tasks : List (IoTask H)) : List WriteAnswer → Prop
  | [] => True
  | a :: as =>
    (tasks.takeWhile IoTask.inMemory).length ≤ IOV_MAX ∧
      ∀ k ∈ takes tasks a,
        Fits cb (completes cb w (tasks.take k)).1
          (tasks.drop k ++ (completes cb w (tasks.take k)).2) as

/-- What `send` puts in the queue. -/
def queued (base : Bytes) : IoTask H := .ofBuffer (.ofBytes base) none

/-- The queue fits before each write event. -/
def ShortRuns (cb : Callbacks σ H) (l : Link σ H) : Event H → Prop
  | .call _ => True
  | .writ as => Fits cb l.world l.conn.writTasks_ as

/-! ## The queue that a pass leaves -/

section Fits

variable {w : σ} {t first : IoTask H} {tasks new : List (IoTask H)} {handler : H} {n ret : Nat}

theorem completes_none (ht : t.handler_ = none) :
    completes cb w (t :: tasks) = completes cb w tasks := by
  rw [completes, ht]

theorem completes_some (ht : t.handler_ = some handler) :
    completes cb w (t :: tasks) =
      ((completes cb (cb.complete w handler).1 tasks).1,
        (cb.complete w handler).2.flatMap ConnCall.tasks ++
          (completes cb (cb.complete w handler).1 tasks).2) := by
  rw [completes, ht]

theorem completes_cons (w : σ) (t : IoTask H) (tasks : List (IoTask H)) :
    completes cb w (t :: tasks) =
      ((completes cb (completes cb w [t]).1 tasks).1,
        (completes cb w [t]).2 ++ (completes cb (completes cb w [t]).1 tasks).2) := by
  simp only [completes]
  cases t.handler_ with
  | none => simp
  | some handler => simp

/-- A handler that sends leaves the connection open, with what it sends at the end of the queue. -/
theorem complete_open (hopen : l.conn.Open) (hcb : cb.HandlersSend) (handler : H) :
    ∃ l', l.complete cb handler = .ok l' ∧ l'.conn.Open ∧ l'.world = (cb.complete l.world handler).1 ∧
      l'.conn.writTasks_ =
        l.conn.writTasks_ ++ (cb.complete l.world handler).2.flatMap ConnCall.tasks := by
  obtain ⟨l', hl', hopen', htasks, -, -, -, hworld, -⟩ :=
    calls_ok (l := { l with world := (cb.complete l.world handler).1, ran := l.ran ++ [handler] })
      hopen (hcb l.world handler)
  exact ⟨l', hl', hopen', hworld, htasks⟩

theorem popFront_open (hopen : l.conn.Open) (htasks : l.conn.writTasks_ = first :: tasks) :
    ∃ c, l.conn.popFront = .ok c ∧ c.Open ∧ c.writTasks_ = tasks := by
  obtain ⟨ch, hch, hon⟩ := hopen.interest
  refine ⟨{ l.conn with writTasks_ := tasks }, ?_, ⟨hopen.alive, hopen.socket, ⟨ch, hch, ?_⟩, ?_⟩, rfl⟩
  · unfold Connection.popFront
    rw [htasks]
  · intro _
    exact hon (by simp [htasks])
  · intro t ht
    exact hopen.tasks t (by simp [htasks, show t ∈ tasks from ht])

/--
The state after `k` tasks of the queue, whose handlers have run and which have left it. `w` is the
user's state before them.
-/
structure Taken (cb : Callbacks σ H) (w : σ) (queue : List (IoTask H)) (k : Nat) (l : Link σ H) : Prop where
  isOpen : l.conn.Open
  world : l.world = (completes cb w (queue.take k)).1
  tasks : l.conn.writTasks_ = queue.drop k ++ (completes cb w (queue.take k)).2

theorem Taken.zero (hopen : l.conn.Open) : Taken cb l.world l.conn.writTasks_ 0 l :=
  ⟨hopen, rfl, by simp [completes]⟩

/-- The first task, and then `k` of those that are left. -/
theorem Taken.succ {k : Nat} (h : Taken cb w (first :: tasks) 1 l) (hk : k ≤ tasks.length)
    (ht : Taken cb l.world l.conn.writTasks_ k l') : Taken cb w (first :: tasks) (k + 1) l' := by
  have hworld := ht.world
  have hqueue := ht.tasks
  rw [h.tasks, h.world, List.drop_succ_cons, List.drop_zero, List.take_append_of_le_length hk]
    at hworld hqueue
  rw [List.drop_append_of_le_length hk] at hqueue
  refine ⟨ht.isOpen, ?_, ?_⟩
  · rw [List.take_succ_cons, completes_cons]
    exact hworld
  · rw [List.take_succ_cons, List.drop_succ_cons, completes_cons]
    simpa using hqueue

/-- The first task is over: its handler has run. -/
theorem finishBuffer_taken (hopen : l.conn.Open) (hcb : cb.HandlersSend)
    (htasks : l.conn.writTasks_ = first :: tasks) :
    ∃ l', l.finishBuffer cb first = .ok (.next l') ∧ Taken cb l.world (first :: tasks) 1 l' := by
  unfold finishBuffer
  cases hh : first.handler_ with
  | none =>
    obtain ⟨c, hpop, hc, hrest⟩ := popFront_open hopen htasks
    refine ⟨{ l with conn := c }, ?_, hc, ?_, ?_⟩
    · dsimp only
      rw [hpop, ok_bind]
      rfl
    · rw [List.take_succ_cons, completes_none hh]
      rfl
    · rw [List.take_succ_cons, completes_none hh]
      simpa [completes] using hrest
  | some handler =>
    obtain ⟨l1, hl1, hopen1, hworld, htasks1⟩ := complete_open hopen hcb handler
    rw [htasks, List.cons_append] at htasks1
    obtain ⟨c, hpop, hc, hrest⟩ := popFront_open hopen1 htasks1
    refine ⟨{ l1 with conn := c }, ?_, hc, ?_, ?_⟩
    · dsimp only
      rw [hl1, ok_bind, hopen1.alive, if_neg Bool.false_ne_true, hpop]
      rfl
    · rw [List.take_succ_cons, completes_some hh]
      exact hworld
    · rw [List.take_succ_cons, completes_some hh]
      simpa [completes] using hrest

theorem finishFile_taken (hopen : l.conn.Open) (hcb : cb.HandlersSend)
    (htasks : l.conn.writTasks_ = first :: tasks) :
    ∃ l', l.finishFile cb first = .ok l' ∧ Taken cb l.world (first :: tasks) 1 l' := by
  obtain ⟨l', hfinish, htaken1⟩ := finishBuffer_taken hopen hcb htasks
  refine ⟨l', ?_, htaken1⟩
  unfold finishBuffer at hfinish
  unfold finishFile
  cases hh : first.handler_ with
  | none =>
    rw [hh] at hfinish
    obtain ⟨c, hc, hfinish⟩ := bind_eq_ok.mp hfinish
    cases hfinish
    dsimp only
    rw [pure_eq_ok, ok_bind, hc]
    rfl
  | some handler =>
    rw [hh] at hfinish
    obtain ⟨l1, hl1, hfinish⟩ := bind_eq_ok.mp hfinish
    split at hfinish
    · cases hfinish
    · obtain ⟨c, hc, hfinish⟩ := bind_eq_ok.mp hfinish
      cases hfinish
      dsimp only
      rw [hl1, ok_bind, hc]
      rfl

theorem wholeTasks_spec {k : Nat} (h : wholeTasks n tasks = some k) :
    k ≤ tasks.length ∧ n ≤ ((tasks.map IoTask.remaining).flatten).length := by
  induction tasks generalizing n k with
  | nil =>
    cases n with
    | zero => simpa [wholeTasks] using h.symm
    | succ n => simp [wholeTasks] at h
  | cons t tasks ih =>
    cases n with
    | zero =>
      simp only [wholeTasks, Option.some.injEq] at h
      simp [← h]
    | succ n =>
      rw [wholeTasks] at h
      split at h
      · obtain ⟨k', hk', rfl⟩ := Option.map_eq_some_iff.mp h
        obtain ⟨hle, hlen⟩ := ih hk'
        rw [List.map_cons, List.flatten_cons, List.length_append, List.length_cons]
        omega
      · cases h

/-- **The inner loop goes on exactly if the bytes are a whole number of the tasks.** -/
theorem drain_takes (hcb : cb.HandlersSend) : ∀ (n ret : Nat) {l : Link σ H}, l.conn.Open →
    n ≤ l.conn.writTasks_.length → (∀ t ∈ l.conn.writTasks_.take n, t.fp_ = none) →
    ret ≤ (((l.conn.writTasks_.take n).map IoTask.remaining).flatten).length →
    (∃ k l', wholeTasks ret (l.conn.writTasks_.take n) = some k ∧
      drain cb n ret l = .ok (.next l') ∧ Taken cb l.world l.conn.writTasks_ k l') ∨
    (∃ l', wholeTasks ret (l.conn.writTasks_.take n) = none ∧ drain cb n ret l = .ok (.done l')) := by
  intro n
  induction n with
  | zero =>
    intro ret l hopen _ _ hret
    cases ret with
    | zero => exact .inl ⟨0, l, by simp [wholeTasks], by unfold drain; rfl, .zero hopen⟩
    | succ ret => simp at hret
  | succ n ih =>
    intro ret l hopen hn hfp hret
    cases ret with
    | zero => exact .inl ⟨0, l, by simp [wholeTasks], by unfold drain; rfl, .zero hopen⟩
    | succ ret =>
      cases htasks : l.conn.writTasks_ with
      | nil => simp [htasks] at hn
      | cons first tasks =>
        rw [htasks, List.take_succ_cons] at hfp hret
        rw [htasks, List.length_cons] at hn
        rw [List.map_cons, List.flatten_cons, List.length_append] at hret
        have hnone := hfp first List.mem_cons_self
        rcases hopen.tasks first (by simp [htasks]) with ⟨hsome, -, -⟩ | ⟨-, hb, hwf, -⟩
        · rw [hnone] at hsome
          cases hsome
        · have hrem := IoTask.remaining_buffer hnone hb
          unfold drain
          rw [htasks]
          dsimp only
          rw [hb]
          dsimp only
          rw [hwf.size_eq, ok_bind, ← hrem, List.take_succ_cons, wholeTasks]
          split
          · next hle =>
            obtain ⟨l1, hfinish, htaken1⟩ := finishBuffer_taken hopen hcb htasks
            -- what the handler has sent stands behind the tasks that the call was made for
            have hleft : l1.conn.writTasks_ = tasks ++ (completes cb l.world [first]).2 := htaken1.tasks
            have htake : l1.conn.writTasks_.take n = tasks.take n := by
              rw [hleft, List.take_append_of_le_length (by omega)]
            have hrest := ih (ret + 1 - first.remaining.length) htaken1.isOpen
              (by rw [hleft, List.length_append]; omega)
              (by
                rw [htake]
                intro t ht
                exact hfp t (List.mem_cons_of_mem _ ht))
              (by rw [htake]; omega)
            rw [htake] at hrest
            rw [hfinish, ok_bind]
            rcases hrest with ⟨k, l', hk, hdrain, htaken⟩ | ⟨l', hk, hdrain⟩
            · refine .inl ⟨k + 1, l', by rw [hk]; rfl, hdrain, ?_⟩
              refine htaken1.succ ?_ htaken
              have hle := (wholeTasks_spec hk).1
              rw [List.length_take] at hle
              omega
            · exact .inr ⟨l', by rw [hk]; rfl, hdrain⟩
          · next hlt =>
            obtain ⟨rest, hrest, -⟩ := hwf.retrieve_ok (ret + 1)
            exact .inr ⟨_, rfl, by rw [hrest]; rfl⟩

theorem wholeTasks_one (hpos : 0 < n) :
    wholeTasks n [t] = if n = t.remaining.length then some 1 else none := by
  obtain ⟨n, rfl⟩ := Nat.exists_eq_succ_of_ne_zero (Nat.pos_iff_ne_zero.mp hpos)
  rw [wholeTasks]
  split
  · next hle =>
    split
    · next heq =>
      rw [← heq, Nat.succ_eq_add_one, Nat.sub_self]
      rfl
    · next hne =>
      obtain ⟨m, hm⟩ := Nat.exists_eq_succ_of_ne_zero (n := n + 1 - t.remaining.length) (by omega)
      rw [hm]
      rfl
  · next hlt => rw [if_neg (by omega)]

theorem takes_accepted : takes tasks (.accepted n) = if n < 2 ^ 31 then wholeTasks n (batch tasks) else none :=
  rfl

/-- The loop goes on behind a file exactly if the kernel takes all of it. -/
theorem filePass_takes (hopen : l.conn.Open) (hcb : cb.HandlersSend)
    (htasks : l.conn.writTasks_ = first :: tasks) {fp : Bytes} (hfp : first.fp_ = some fp) (ha : a.Sound) :
    (∃ k l', takes l.conn.writTasks_ a = some k ∧ l.filePass cb first fp a = .ok (.next l') ∧
      Taken cb l.world l.conn.writTasks_ k l') ∨
    (takes l.conn.writTasks_ a = none ∧ ∀ l', l.filePass cb first fp a ≠ .ok (.next l')) := by
  have hbatch : batch l.conn.writTasks_ = [first] := by
    simp [batch, htasks, IoTask.inMemory, hfp]
  rcases hopen.tasks first (by simp [htasks]) with @⟨fp', hfp', hpos, hle⟩ | ⟨hnone, -, -, -⟩
  · obtain rfl : fp = fp' := Option.some.inj (hfp.symm.trans hfp')
    have hlen := IoTask.length_remaining_file hfp hle
    unfold filePass
    rw [guardOr_pos hopen.socket, ok_bind]
    cases a with
    | again => exact .inr ⟨rfl, nofun⟩
    | failed => exact absurd ha id
    | accepted ret =>
      have hret : 0 < ret := ha
      rw [takes_accepted, hbatch, wholeTasks_one hret, hlen]
      dsimp only
      by_cases hguard : ret ≤ first.len_ ∧ first.offset_ + ret ≤ fp.length ∧ ret < 2 ^ 31
      · rw [guardOr_pos hguard, ok_bind, if_pos hguard.2.2, if_neg (Nat.pos_iff_ne_zero.mp hret)]
        split
        · next heq =>
          obtain ⟨l', hfinish, htaken⟩ := finishFile_taken
            (l := { l with wire := l.wire ++ (fp.drop first.offset_).take ret }) hopen hcb htasks
          refine .inl ⟨1, l', rfl, by rw [hfinish]; rfl, ?_⟩
          rw [htasks]
          exact htaken
        · next hne => exact .inr ⟨rfl, nofun⟩
      · rw [guardOr_neg hguard, error_bind]
        refine .inr ⟨?_, nofun⟩
        split
        · next hlt => exact if_neg (by omega)
        · rfl
  · rw [hfp] at hnone
    cases hnone

/-- What `writev` is called for is what it is given. -/
theorem gather_batch (hopen : l.conn.Open) (htasks : l.conn.writTasks_ = first :: tasks)
    (hnone : first.fp_ = none) : ∃ n, n ≤ l.conn.writTasks_.length ∧ n = l.conn.leading.length ∧
      batch l.conn.writTasks_ = l.conn.writTasks_.take n ∧
      gather l.conn.writTasks_ = .ok ((l.conn.writTasks_.take n).map IoTask.remaining) ∧
      (∀ t ∈ l.conn.writTasks_.take n, t.fp_ = none) ∧
      (l.conn.writTasks_.take n).map IoTask.remaining ≠ [] := by
  obtain ⟨n, hn, hgather, hfp, hne⟩ := gather_front (fun t ht => (hopen.tasks t ht).held) htasks hnone
  have hlength := gather_length hgather
  rw [List.length_map, List.length_take, min_eq_left hn] at hlength
  have hrun : l.conn.writTasks_.takeWhile IoTask.inMemory = l.conn.writTasks_.take n := by
    rw [hlength]
    exact List.prefix_iff_eq_take.mp (List.takeWhile_prefix _)
  refine ⟨n, hn, hlength, ?_, hgather, hfp, hne⟩
  unfold batch
  rw [hrun]
  split
  · next hnil => simp [hnil] at hne
  · rfl

/-- The loop goes on behind buffers exactly if the kernel takes a whole number of them. -/
theorem bufferPass_takes (hopen : l.conn.Open) (hcb : cb.HandlersSend)
    (htasks : l.conn.writTasks_ = first :: tasks) (hnone : first.fp_ = none) (ha : a.Sound)
    (hshort : l.conn.leading.length ≤ IOV_MAX) :
    (∃ k l', takes l.conn.writTasks_ a = some k ∧ l.bufferPass cb a = .ok (.next l') ∧
      Taken cb l.world l.conn.writTasks_ k l') ∨
    (takes l.conn.writTasks_ a = none ∧ ∀ l', l.bufferPass cb a ≠ .ok (.next l')) := by
  obtain ⟨n, hn, hlength, hbatch, hgather, hfp, hne⟩ := gather_batch hopen htasks hnone
  unfold bufferPass
  rw [hgather, ok_bind, guardOr_pos hne, ok_bind, guardOr_pos hopen.socket, ok_bind]
  cases a with
  | again => exact .inr ⟨rfl, nofun⟩
  | failed => exact absurd ha id
  | accepted ret =>
    have hret : 0 < ret := ha
    have hentries : ((l.conn.writTasks_.take n).map IoTask.remaining).length ≤ IOV_MAX := by
      rw [List.length_map, List.length_take]
      omega
    rw [takes_accepted, hbatch]
    dsimp only
    by_cases hguard : ret ≤ (((l.conn.writTasks_.take n).map IoTask.remaining).flatten).length ∧
        ((l.conn.writTasks_.take n).map IoTask.remaining).length ≤ IOV_MAX ∧ ret < 2 ^ 31
    · rw [guardOr_pos hguard, ok_bind, if_pos hguard.2.2, if_neg (Nat.pos_iff_ne_zero.mp hret),
        List.length_map, List.length_take, min_eq_left hn]
      rcases drain_takes (l := { l with wire := l.wire ++
          (((l.conn.writTasks_.take n).map IoTask.remaining).flatten).take ret })
        hcb n ret hopen hn hfp hguard.1 with ⟨k, l', hk, hdrain, htaken⟩ | ⟨l', hk, hdrain⟩
      · exact .inl ⟨k, l', hk, hdrain, htaken⟩
      · refine .inr ⟨hk, ?_⟩
        intro l'' hnext
        rw [hdrain] at hnext
        cases hnext
    · rw [guardOr_neg hguard, error_bind]
      refine .inr ⟨?_, nofun⟩
      split
      · next hlt =>
        -- the kernel has taken more bytes than were offered
        cases hwhole : wholeTasks ret (l.conn.writTasks_.take n) with
        | none => rfl
        | some k => exact absurd ⟨(wholeTasks_spec hwhole).2, hentries, hlt⟩ hguard
      · rfl

/-- **The loop goes on exactly if the kernel takes a whole number of tasks.** -/
theorem writPass_takes (hopen : l.conn.Open) (hcb : cb.HandlersSend)
    (htasks : l.conn.writTasks_ = first :: tasks) (ha : a.Sound) (hshort : l.conn.leading.length ≤ IOV_MAX) :
    (∃ k l', takes l.conn.writTasks_ a = some k ∧ l.writPass cb first a = .ok (.next l') ∧
      Taken cb l.world l.conn.writTasks_ k l') ∨
    (takes l.conn.writTasks_ a = none ∧ ∀ l', l.writPass cb first a ≠ .ok (.next l')) := by
  unfold writPass
  cases hfp : first.fp_ with
  | some fp => exact filePass_takes hopen hcb htasks hfp ha
  | none => exact bufferPass_takes hopen hcb htasks hfp ha hshort

theorem completes_queued : ∀ (bases : List Bytes), completes cb w (bases.map queued) = (w, [])
  | [] => rfl
  | _ :: bases => (completes_none rfl).trans (completes_queued bases)

/-- The buffers of consecutive sends are all in a row. -/
theorem takeWhile_queued : ∀ (bases : List Bytes),
    (bases.map (queued (H := H))).takeWhile IoTask.inMemory = bases.map queued
  | [] => rfl
  | base :: bases => by
    rw [List.map_cons, List.takeWhile_cons_of_pos rfl, takeWhile_queued bases]

/-- Not too many sends fit, and so do those that are left of them. -/
theorem fits_queued : ∀ {as : List WriteAnswer} {bases : List Bytes}, bases.length ≤ IOV_MAX →
    Fits cb w (bases.map queued) as := by
  intro as
  induction as with
  | nil =>
    intro bases _
    trivial
  | cons a as ih =>
    intro bases hlen
    constructor
    · rwa [takeWhile_queued, List.length_map]
    · intro k _
      rw [← List.map_take, ← List.map_drop, completes_queued, List.append_nil]
      exact ih (by rw [List.length_drop]; omega)

/-- **Consecutive sends fit exactly if there are not too many of them.** -/
theorem fits_queued_iff {bases : List Bytes} :
    Fits cb w (bases.map queued) (a :: as) ↔ bases.length ≤ IOV_MAX := by
  constructor
  · intro h
    have hlen := h.1
    rwa [takeWhile_queued, List.length_map] at hlen
  · exact fits_queued

/-- **The runs of buffers at the passes are short exactly if the queue fits before the event.** -/
theorem short_iff_fits (hcb : cb.HandlersSend) : ∀ (as : List WriteAnswer) {l : Link σ H}, l.conn.Open →
    (∀ p ∈ l.passes cb as, Answered p) →
    ((∀ p ∈ l.passes cb as, Short p) ↔ Fits cb l.world l.conn.writTasks_ as) := by
  intro as
  induction as with
  | nil =>
    intro l _ _
    exact ⟨fun _ => trivial, fun _ p hp => absurd hp List.not_mem_nil⟩
  | cons a as ih =>
    intro l hopen hall
    cases htasks : l.conn.writTasks_ with
    | nil =>
      have hnone : Fits cb l.world (([] : List Bytes).map queued) (a :: as) := fits_queued (Nat.zero_le _)
      rw [passes_empty htasks]
      exact ⟨fun _ => hnone, fun _ p hp => absurd hp List.not_mem_nil⟩
    | cons first tasks =>
      rw [← htasks]
      have hanswer := hall (l, a) (by rw [passes_cons htasks]; exact List.mem_cons_self)
      by_cases hshort : l.conn.leading.length ≤ IOV_MAX
      · unfold Answered at hanswer
        rw [if_neg (Nat.not_lt.mpr hshort)] at hanswer
        rcases writPass_takes hopen hcb htasks hanswer hshort with ⟨k, l', hk, hpass, htaken⟩ | ⟨hk, hpass⟩
        · rw [passes_next htasks hpass] at hall ⊢
          have hrest := ih htaken.isOpen fun p hp => hall p (List.mem_cons_of_mem _ hp)
          rw [htaken.world, htaken.tasks] at hrest
          rw [List.forall_mem_cons, hrest, Fits]
          refine and_congr Iff.rfl ?_
          rw [show takes l.conn.writTasks_ a = some k from hk]
          simp
        · rw [passes_last htasks hpass, List.forall_mem_singleton, Fits]
          rw [show takes l.conn.writTasks_ a = none from hk]
          simp [Short, Connection.leading]
      · rw [passes_cons htasks]
        exact ⟨fun h => absurd (h (l, a) List.mem_cons_self) hshort, fun h => absurd h.1 hshort⟩

end Fits

/-! ## The passes of an event on a healthy socket -/

/-- The stream is kept at the top of every pass. -/
theorem Delivered.of_mem (h : Delivered J l) (hcb : cb.Keeps J) (hall : ∀ p ∈ l.passes cb as, Answered p)
    (hp : p ∈ l.passes cb as) : Delivered J p.1 := by
  refine passes_keep (A := Answered) ?_ h hall hp
  intro l l1 first tasks a h htasks hanswer hpass
  unfold Answered at hanswer
  split at hanswer
  · -- too many entries: this pass was the last one
    rw [show a = .failed from hanswer] at hpass
    obtain ⟨l2, hdone⟩ := writPass_failed hpass
    cases hdone
  · exact (h.writPass_ok hcb htasks hanswer).of_ok hpass

/-! ## The entries -/

/-- The entries of `writev` are as many as the leading buffers, and there is one at least. -/
theorem Delivered.entries {first : IoTask H} {tasks : List (IoTask H)} (h : Delivered J l)
    (htasks : l.conn.writTasks_ = first :: tasks) (hfp : first.fp_ = none) :
    (gather l.conn.writTasks_).toOption.map List.length = some l.conn.leading.length ∧
      1 ≤ l.conn.leading.length := by
  obtain ⟨done, hflow⟩ := h
  obtain ⟨n, hn, hgather, -, hpos⟩ := gather_ok fun t ht => (hflow.isOpen.tasks t ht).held
  have hlength := gather_length hgather
  rw [List.length_map, List.length_take, min_eq_left hn] at hlength
  have hlen : l.conn.leading.length = n := hlength.symm
  have hsome := hpos first (by rw [htasks]; rfl) hfp
  refine ⟨?_, by omega⟩
  rw [hgather, hlen]
  show some (List.length _) = _
  rw [List.length_map, List.length_take, min_eq_left hn]

/-- **The entries of an event are in range exactly if the queue fits before it.** -/
theorem Delivered.entries_iff (h : Delivered (fun _ _ _ _ => True) l) (hcb : cb.HandlersSend) {e : Event H}
    (he : Healthy cb l e) : EntriesInRange cb l e ↔ ShortRuns cb l e := by
  cases e with
  | call x => exact Iff.rfl
  | writ as =>
    obtain ⟨done, hflow⟩ := id h
    refine Iff.trans ?_ (short_iff_fits hcb as hflow.isOpen he)
    constructor
    · intro hrange p hp
      obtain ⟨first, tasks, htasks⟩ := passes_front hp
      cases hfp : first.fp_ with
      | some fp =>
        have hnone : p.1.conn.leading = [] := by
          unfold Connection.leading
          rw [htasks, List.takeWhile_cons_of_neg]
          unfold IoTask.inMemory
          simp [hfp]
        unfold Short
        rw [hnone]
        exact Nat.zero_le _
      | none =>
        have hentries := (h.of_mem hcb.keeps he hp).entries htasks hfp
        refine (hrange p.1.conn.leading.length (List.mem_filterMap.mpr ⟨p, hp, ?_⟩)).2
        rw [htasks] at hentries ⊢
        dsimp only
        rw [hfp]
        exact hentries.1
    · intro hshort n hn
      obtain ⟨p, hp, hentry⟩ := List.mem_filterMap.mp hn
      obtain ⟨first, tasks, htasks⟩ := passes_front hp
      have hgather : first.fp_ = none → (gather p.1.conn.writTasks_).toOption.map List.length = some n := by
        intro hfp
        rw [htasks] at hentry ⊢
        dsimp only at hentry
        rwa [hfp] at hentry
      cases hfp : first.fp_ with
      | some fp =>
        rw [htasks] at hentry
        dsimp only at hentry
        rw [hfp] at hentry
        cases hentry
      | none =>
        obtain ⟨hlen, hpos⟩ := (h.of_mem hcb.keeps he hp).entries htasks hfp
        have hsame := hlen.symm.trans (hgather hfp)
        cases hsame
        exact ⟨hpos, hshort p hp⟩

/-- An event before which the queue fits keeps the stream, on a healthy socket. -/
theorem Delivered.healthy_step (h : Delivered (fun _ _ _ _ => True) l) (hcb : cb.HandlersSend)
    {e : Event H} (he : Healthy cb l e) (hshort : ShortRuns cb l e) :
    Guarantees (Delivered fun _ _ _ _ => True) (l.step cb e) := by
  cases e with
  | call x => exact h.step_ok hcb (e := .call x) he
  | writ as =>
    by_cases hempty : l.conn.writTasks_ = []
    · have hsame : l.handleWritEvent cb as = l.handleWritEvent cb [] := by
        obtain ⟨done, hflow⟩ := h
        obtain ⟨ch, hch, -⟩ := hflow.isOpen.interest
        rw [handleWritEvent_idle hflow.isOpen.alive hempty hch,
          handleWritEvent_idle hflow.isOpen.alive hempty hch]
      show Guarantees _ (l.handleWritEvent cb as)
      rw [hsame]
      exact h.handleWritEvent_ok hcb.keeps nofun
    · show Guarantees _ (l.handleWritEvent cb as)
      rw [handleWritEvent_of_ne hempty]
      refine writLoop_guarantees (A := fun p => p.2.Sound)
        (fun h htasks ha => h.writPass_ok hcb.keeps htasks ha) h fun p hp => ?_
      obtain ⟨done, hflow⟩ := id h
      have hshort := (short_iff_fits hcb as hflow.isOpen he).mpr hshort p hp
      have hanswer := he p hp
      unfold Answered at hanswer
      rwa [if_neg (Nat.not_lt.mpr hshort)] at hanswer

/-! ## Every run on a healthy socket -/

/-- Along a run the entries are in range exactly if the queue fits before each event, and the
connection stays alive then. -/
theorem Delivered.run_entries (hcb : cb.HandlersSend) : ∀ {es : List (Event H)} {l : Link σ H},
    Delivered (fun _ _ _ _ => True) l → Along (step cb) (Healthy cb) l es →
    (Along (step cb) (EntriesInRange cb) l es ↔ Along (step cb) (ShortRuns cb) l es) ∧
    (Along (step cb) (ShortRuns cb) l es → ∀ es' t, es' <+: es → run (step cb) l es' = .ok t →
      t.conn.destroy_ = false)
  | [], l, h, _ => by
    obtain ⟨done, hflow⟩ := h
    exact ⟨Iff.rfl, fun _ => forall_reached_nil.mpr hflow.isOpen.alive⟩
  | e :: es, l, h, hhealthy => by
    have hiff := h.entries_iff hcb hhealthy.1
    have hrest : ShortRuns cb l e → ∀ t, l.step cb e = .ok t → _ := fun hshort t ht =>
      ((h.healthy_step hcb hhealthy.1 hshort).of_ok ht).run_entries hcb (hhealthy.2 t ht)
    refine ⟨⟨?_, ?_⟩, ?_⟩
    · rintro ⟨hrange, hranges⟩
      have hshort := hiff.mp hrange
      exact ⟨hshort, fun t ht => (hrest hshort t ht).1.mp (hranges t ht)⟩
    · rintro ⟨hshort, hshorts⟩
      exact ⟨hiff.mpr hshort, fun t ht => (hrest hshort t ht).1.mpr (hshorts t ht)⟩
    · rintro ⟨hshort, hshorts⟩
      obtain ⟨done, hflow⟩ := id h
      exact forall_reached_cons.mpr ⟨hflow.isOpen.alive, fun t ht => (hrest hshort t ht).2 (hshorts t ht)⟩

/-- `send` puts a buffer at the end of the queue, with the write interest on. -/
theorem step_send (cb : Callbacks σ H) {ch : Channel} (hch : l.conn.chan_ = some ch) (base : Bytes) :
    ∃ l', l.step cb (.call (.send base none)) = .ok l' ∧
      l'.conn = { l.conn with
        chan_ := some { ch with writable_ := true }.updateChannel
        writTasks_ := l.conn.writTasks_ ++ [queued base] } := by
  refine ⟨{ l with
    conn := { l.conn with
      chan_ := some { ch with writable_ := true }.updateChannel
      writTasks_ := l.conn.writTasks_ ++ [queued base] }
    sent := l.sent ++ [{ payload := base, tag := none }] }, ?_, rfl⟩
  show (l.conn.emplace _ >>= fun _ => _) = _
  unfold Connection.emplace Connection.enableWrit Connection.channel
  dsimp only
  rw [hch]
  rfl

/-- Consecutive sends make a run of as many buffers. -/
theorem run_sends (cb : Callbacks σ H) (ch : Channel) : ∀ (bases : List Bytes) {l : Link σ H},
    l.conn.chan_ = some ch →
    ∃ l' ch', run (step cb) l (bases.map fun base => .call (.send base none)) = .ok l' ∧
      l'.conn = { l.conn with
        chan_ := some ch'
        writTasks_ := l.conn.writTasks_ ++ bases.map queued }
  | [], l, hch => ⟨l, ch, rfl, by simp [← hch]⟩
  | base :: bases, l, hch => by
    obtain ⟨l1, hstep, hconn1⟩ := step_send cb hch base
    obtain ⟨l', ch', hl', hconn⟩ := run_sends cb _ bases (congrArg Connection.chan_ hconn1)
    refine ⟨l', ch', ?_, ?_⟩
    · rw [List.map_cons, run_cons, hstep, ok_bind]
      exact hl'
    · rw [hconn, hconn1]
      simp

/-- **A write event behind consecutive sends comes to no run that is too long, exactly if there are not
too many sends.** -/
theorem short_sends_iff (hopen : l.conn.Open) (hempty : l.conn.writTasks_ = []) (bases : List Bytes) :
    Along (step cb) (ShortRuns cb) l ((bases.map fun base => .call (.send base none)) ++ [.writ (a :: as)]) ↔
      bases.length ≤ IOV_MAX := by
  obtain ⟨ch, hch, -⟩ := hopen.interest
  obtain ⟨l', ch', hl', hconn⟩ := run_sends cb ch bases hch
  have hqueue : l'.conn.writTasks_ = bases.map queued := by
    rw [hconn]
    simp [hempty]
  have hcalls : Along (step cb) (ShortRuns cb) l (bases.map fun base => .call (.send base none)) := by
    refine along_of_forall ?_ l
    intro e he t
    obtain ⟨base, -, rfl⟩ := List.mem_map.mp he
    trivial
  rw [along_append hl']
  constructor
  · rintro ⟨-, hfits, -⟩
    rw [ShortRuns, hqueue] at hfits
    exact fits_queued_iff.mp hfits
  · intro hlen
    refine ⟨hcalls, ?_, fun _ _ => trivial⟩
    rw [ShortRuns, hqueue]
    exact fits_queued_iff.mpr hlen

/--
**Every `writev` has between 1 and `IOV_MAX` entries, exactly if the queue fits before each write
event.** In a run on a healthy socket, where nobody destroys the connection, it is then never
destroyed. A queue of consecutive sends fits exactly if there are not more than `IOV_MAX` of them.
-/
theorem writev_entries_iff (hcb : cb.HandlersSend) (conn : Connection H) (world : σ) (hopen : conn.Open)
    (hempty : conn.writTasks_ = []) (es : List (Event H))
    (hhealthy : Along (step cb) (Healthy cb) (start conn world) es) :
    ((Along (step cb) (EntriesInRange cb) (start conn world) es ∧
      ∀ es' t, es' <+: es → run (step cb) (start conn world) es' = .ok t → t.conn.destroy_ = false) ↔
    Along (step cb) (ShortRuns cb) (start conn world) es) ∧
    ∀ (bases : List Bytes) (a : WriteAnswer) (as : List WriteAnswer),
      es = (bases.map fun base => .call (.send base none)) ++ [.writ (a :: as)] →
      (Along (step cb) (ShortRuns cb) (start conn world) es ↔ bases.length ≤ IOV_MAX) := by
  have hstart : Delivered (fun _ _ _ _ => True) (start conn world) := by
    refine ⟨[], hopen, trivial, rfl, [], rfl, ?_⟩
    show Outbox.Cut [] [] [] (conn.writTasks_.map IoTask.message)
    rw [hempty]
    exact Outbox.cut_nil
  obtain ⟨hiff, halive⟩ := hstart.run_entries hcb hhealthy
  refine ⟨⟨fun h => hiff.mp h.1, fun h => ⟨hiff.mpr h, halive h⟩⟩, ?_⟩
  rintro bases a as rfl
  exact short_sends_iff hopen hempty bases

/-- A user whose handlers do nothing. -/
def handlesNothing : Callbacks Unit Unit where
  complete := fun w _ => (w, [])
  onErro := fun w => (w, [])

theorem handlesNothing_sends : handlesNothing.HandlersSend := fun _ _ _ hx => by cases hx

theorem writev_entries_iff_two :
    let es : List (Event Unit) := [.call (.send [1] none), .call (.send [2] none), .writ [.accepted 2]]
    ((Along (step handlesNothing) (EntriesInRange handlesNothing) (start .accepted ()) es ∧
      ∀ es' t, es' <+: es → run (step handlesNothing) (start .accepted ()) es' = .ok t →
        t.conn.destroy_ = false) ↔
    Along (step handlesNothing) (ShortRuns handlesNothing) (start .accepted ()) es) ∧
    Along (step handlesNothing) (ShortRuns handlesNothing) (start .accepted ()) es := by
  intro es
  have hhealthy : Along (step handlesNothing) (Healthy handlesNothing) (start .accepted ()) es := by
    refine ⟨List.cons_ne_nil _ _, fun l1 h1 => ⟨List.cons_ne_nil _ _, fun l2 h2 =>
      ⟨?_, fun _ _ => trivial⟩⟩⟩
    cases h1
    cases h2
    intro p hp
    rw [passes_cons rfl] at hp
    rcases List.mem_cons.mp hp with rfl | hp
    · unfold Answered
      rw [if_neg (by decide)]
      exact Nat.two_pos
    · cases hp
  obtain ⟨hiff, hsends⟩ :=
    writev_entries_iff handlesNothing_sends .accepted () Connection.open_accepted rfl es hhealthy
  exact ⟨hiff, (hsends [[1], [2]] _ _ rfl).mpr (by decide)⟩

theorem gather_sends : ∀ (bases : List Bytes), (∀ base ∈ bases, base ≠ []) →
    gather (bases.map (queued (H := H))) = .ok bases
  | [], _ => rfl
  | base :: bases, hne => by
    have hdata : (Buffer.ofBytes base).data = .ok base := by
      have hfull : (Buffer.ofBytes base).contents ≠ [] := by
        rw [Buffer.contents_ofBytes]
        exact hne base List.mem_cons_self
      rw [(Buffer.wf_ofBytes base).data_eq hfull, Buffer.contents_ofBytes]
    have hrest : gather (bases.map (queued (H := H))) = .ok bases :=
      gather_sends bases fun b hb => hne b (List.mem_cons_of_mem base hb)
    show ((Buffer.ofBytes base).data >>= fun base =>
      gather (bases.map (queued (H := H))) >>= fun iov => pure (base :: iov)) = _
    rw [hdata, ok_bind, hrest]
    rfl

/-- **The first `writev` after consecutive sends has an entry for each of them.** -/
theorem writevs_sends {bases : List Bytes} (hsome : bases ≠ []) (hne : ∀ base ∈ bases, base ≠ [])
    (htasks : l.conn.writTasks_ = bases.map queued) :
    (l.writevs cb (a :: as)).head? = some bases.length := by
  obtain ⟨base, rest, rfl⟩ := List.exists_cons_of_ne_nil hsome
  have hgather := gather_sends (H := H) _ hne
  rw [← htasks] at hgather
  unfold writevs
  rw [passes_cons htasks, List.filterMap_cons]
  dsimp only
  rw [hgather, htasks]
  rfl

/-- One send too many: the kernel refuses the entries, and the connection is destroyed. -/
theorem writev_too_long :
    ∃ l l', run (step handlesNothing) (start .accepted ())
        ((List.replicate 1025 [1]).map fun base => .call (.send base none)) = .ok l ∧
      l.conn.destroy_ = false ∧ (l.writevs handlesNothing [.failed]).head? = some 1025 ∧
      l.handleWritEvent handlesNothing [.failed] = .ok l' ∧ l'.conn.destroy_ = true := by
  obtain ⟨l, ch, hrun, hconn⟩ := run_sends handlesNothing _ (List.replicate 1025 [1])
    (l := start .accepted ()) rfl
  have hne : ∀ base ∈ List.replicate 1025 [(1 : UInt8)], base ≠ [] := by
    intro base hbase
    rw [(List.mem_replicate.mp hbase).2]
    exact List.cons_ne_nil _ _
  have hsome : List.replicate 1025 [(1 : UInt8)] ≠ [] := List.cons_ne_nil _ _
  have htasks : l.conn.writTasks_
      = (List.replicate 1025 [1]).map queued := by
    rw [hconn]
    rfl
  have hgather := gather_sends (H := Unit) _ hne
  rw [← htasks] at hgather
  have hpass : ∃ l1, l.bufferPass handlesNothing .failed = .ok (.done l1) ∧ l1.conn.destroy_ = true := by
    have herro : ∃ l1, l.handleErroEvent handlesNothing = .ok l1 := by
      unfold handleErroEvent
      dsimp only
      split <;> exact ⟨_, rfl⟩
    obtain ⟨l1, hl1⟩ := herro
    refine ⟨l1, ?_, handleErroEvent_destroyed hl1⟩
    unfold bufferPass
    rw [hgather, ok_bind, guardOr_pos hsome, ok_bind, guardOr_pos (by rw [hconn]; rfl),
      ok_bind]
    dsimp only
    rw [hl1]
    rfl
  obtain ⟨l1, hpass, hdestroyed⟩ := hpass
  rw [List.replicate_succ, List.map_cons] at htasks
  refine ⟨l, l1, hrun, by rw [hconn]; rfl, ?_, ?_, hdestroyed⟩
  · have hlen : (List.replicate 1025 [(1 : UInt8)]).length = 1025 := List.length_replicate
    rw [← hlen]
    exact writevs_sends (List.cons_ne_nil _ _) hne (by rw [hconn]; rfl)
  · rw [handleWritEvent_of_ne (by rw [htasks]; exact List.cons_ne_nil _ _)]
    exact writLoop_done htasks hpass

end Link

end Liby
