import Liby.Infra.Ranking
import Liby.Loop.GroupThreads

/-!
# GroupShutdown

How `EventLoopGroup::run` ends: what the threads of a group have left to do once `bf_` said `false` to one
of them, and where none of them can go on.
-/

namespace Liby

open Infra

namespace GroupThreads

variable {H : Type} {s s' : GroupThreads H}

/-! ## What a step changes -/

/-- How the thread of a loop goes on, in a group of `n` worker loops. -/
inductive Goes (n : Nat) (bf : Bool) : ThreadPoint → ThreadPoint → Prop where
  | begin : Goes n bf .unborn .check
  | again (h : bf = true) : Goes n bf .check .poll
  | leave (h : bf = false) : Goes n bf .check (.wakeup 0)
  | poll (actions : List LoopAction) : Goes n bf .poll (.handling actions)
  | act (a : LoopAction) (as : List LoopAction) : Goes n bf (.handling (a :: as)) (.handling as)
  | finish : Goes n bf (.handling []) .check
  | wakeup {i : Nat} (h : i < n) : Goes n bf (.wakeup i) (.wakeup (i + 1))
  | last {i : Nat} (h : ¬i < n) : Goes n bf (.wakeup i) .done

/-- A thread that was told stays so. -/
theorem Goes.told {n : Nat} {bf : Bool} {p r : ThreadPoint} (h : Goes n bf p r)
    (hp : p.told = true) : r.told = true := by
  cases h <;> first | rfl | cases hp

/-- How far the owner is from its end. -/
def ownerRank (n : Nat) : OwnerPoint → Nat
  | .spawning i => n + 1 - i + (n + 3)
  | .working => n + 2
  | .joining i => n + 2 - i
  | .destroyed => 0

/-- What a step of the group does: a thread goes on, or the owner does, or both where one is made. -/
theorem Kept.change (hs : Kept s) {e : ThreadStep} (he : e.ofGroup = true) (h : s.step e = .ok s') :
    s'.n_ = s.n_ ∧ s'.bf_ = s.bf_ ∧
      ((∃ i p r, s.threads_[i]? = some p ∧ Goes s.n_ s.bf_ p r ∧ s'.threads_ = s.threads_.set i r ∧
          ownerRank s.n_ s'.owner ≤ ownerRank s.n_ s.owner) ∨
        (s'.threads_ = s.threads_ ∧ ownerRank s.n_ s'.owner < ownerRank s.n_ s.owner)) := by
  cases e with
  | spawn =>
    simp only [GroupThreads.step, GroupThreads.spawn] at h
    split at h
    · next k howner =>
      have hrange : 1 ≤ k ∧ k ≤ s.n_ + 1 := by
        have hr := hs.owner
        rwa [howner] at hr
      have hunborn : ∀ j, j ≤ s.n_ → j = 0 ∨ k ≤ j → s.threads_[j]? = some .unborn := by
        intro j hj hor
        exact (hs.unborn j hj).mpr (by rw [howner]; exact hor)
      split at h
      · next hk =>
        cases h
        refine ⟨rfl, rfl, .inl ⟨k, _, _, hunborn k hk (.inr le_rfl), .begin, rfl, ?_⟩⟩
        rw [howner]
        show s.n_ + 1 - (k + 1) + (s.n_ + 3) ≤ s.n_ + 1 - k + (s.n_ + 3)
        omega
      · cases h
        refine ⟨rfl, rfl, .inl ⟨0, _, _, hunborn 0 (Nat.zero_le _) (.inl rfl), .begin, rfl, ?_⟩⟩
        rw [howner]
        show s.n_ + 2 ≤ s.n_ + 1 - k + (s.n_ + 3)
        omega
    · cases h
  | check i =>
    simp only [GroupThreads.step] at h
    split at h
    · next hi =>
      cases h
      refine ⟨rfl, rfl, .inl ⟨i, _, _, hi, ?_, rfl, le_rfl⟩⟩
      cases hbf : s.bf_ with
      | true => exact .again rfl
      | false => exact .leave rfl
    · cases h
  | poll i event actions =>
    simp only [GroupThreads.step] at h
    split at h
    · next hi =>
      obtain ⟨q, -, h⟩ := bind_eq_ok.mp h
      obtain ⟨-, -, h⟩ := bind_eq_ok.mp h
      cases h
      exact ⟨rfl, rfl, .inl ⟨i, _, _, hi, .poll actions, rfl, le_rfl⟩⟩
    · cases h
  | act i =>
    simp only [GroupThreads.step] at h
    split at h
    · next a as hi =>
      obtain ⟨t, ht, h⟩ := bind_eq_ok.mp h
      cases h
      obtain ⟨f, q, rfl⟩ := action_ok ht
      exact ⟨rfl, rfl, .inl ⟨i, _, _, hi, .act a as, rfl, le_rfl⟩⟩
    · cases h
  | finish i =>
    simp only [GroupThreads.step] at h
    split at h
    · next hi =>
      cases h
      exact ⟨rfl, rfl, .inl ⟨i, _, _, hi, .finish, rfl, le_rfl⟩⟩
    · cases h
  | wakeup i =>
    simp only [GroupThreads.step] at h
    split at h
    · next j hi =>
      obtain ⟨t, ht, h⟩ := bind_eq_ok.mp h
      cases h
      obtain ⟨q, -, rfl⟩ := onQueue_ok ht
      refine ⟨rfl, rfl, .inl ⟨i, _, _, hi, ?_, rfl, le_rfl⟩⟩
      by_cases hj : j < s.n_
      · rw [if_pos hj]
        exact .wakeup hj
      · rw [if_neg hj]
        exact .last hj
    · cases h
  | join =>
    simp only [GroupThreads.step, GroupThreads.join] at h
    split at h
    · next howner =>
      split at h
      · cases h
        refine ⟨rfl, rfl, .inr ⟨rfl, ?_⟩⟩
        rw [howner]
        exact Nat.lt_succ_self _
      · cases h
    · next k howner =>
      have hrange : 1 ≤ k ∧ k ≤ s.n_ + 1 := by
        have hr := hs.owner
        rwa [howner] at hr
      split at h
      · split at h
        · cases h
          refine ⟨rfl, rfl, .inr ⟨rfl, ?_⟩⟩
          rw [howner]
          show s.n_ + 2 - (k + 1) < s.n_ + 2 - k
          omega
        · cases h
      · cases h
        refine ⟨rfl, rfl, .inr ⟨rfl, ?_⟩⟩
        rw [howner]
        show 0 < s.n_ + 2 - k
        omega
    · cases h
  | stop => cases he
  | post i => cases he

/-! ## A group that was told ends -/

/-- A thread of the group has seen `bf_` say `false`. -/
def Told (s : GroupThreads H) : Prop := ∃ p ∈ s.threads_, p.told = true

/-- No thread of the group can take a step without an event from outside. -/
def Idle (s : GroupThreads H) : Prop := ∀ e : ThreadStep, e.unprompted = true → ∀ t, s.step e ≠ .ok t

/-- The destructor has returned, and every thread has ended. -/
def Gone (s : GroupThreads H) : Prop := s.owner = .destroyed ∧ ∀ p ∈ s.threads_, p = .done

/-- Every thread waits in the poller of its loop, and nothing is there to wake it up. -/
def Asleep (s : GroupThreads H) : Prop :=
  s.owner = .working ∧ (∀ p ∈ s.threads_, p = .poll) ∧ ∀ q ∈ s.equeues, q.eventfd_ = 0

/-- What a step without an event from outside needs. -/
theorem step_needs {e : ThreadStep} (he : e.unprompted = true) (h : s.step e = .ok s') :
    (s.owner ≠ .working ∧ s.owner ≠ .destroyed) ∨ (s.owner = .working ∧ .done ∈ s.threads_) ∨
      (∃ p ∈ s.threads_, p ≠ .poll ∧ p ≠ .done) ∨ (.poll ∈ s.threads_ ∧ ∃ q ∈ s.equeues, 0 < q.eventfd_) := by
  have hbusy : ∀ {i : Nat} {p : ThreadPoint}, s.threads_[i]? = some p → p ≠ .poll → p ≠ .done →
      ∃ p ∈ s.threads_, p ≠ .poll ∧ p ≠ .done := fun hi hpoll hdone =>
    ⟨_, List.mem_of_getElem? hi, hpoll, hdone⟩
  cases e with
  | spawn =>
    simp only [GroupThreads.step, GroupThreads.spawn] at h
    split at h
    · next howner => exact .inl (by rw [howner]; exact ⟨nofun, nofun⟩)
    · cases h
  | check i =>
    simp only [GroupThreads.step] at h
    split at h
    · next hi => exact .inr (.inr (.inl (hbusy hi nofun nofun)))
    · cases h
  | poll i event actions =>
    cases event with
    | true => cases he
    | false =>
      simp only [GroupThreads.step] at h
      split at h
      · next hi =>
        obtain ⟨q, hq, h⟩ := bind_eq_ok.mp h
        obtain ⟨u, hguard, -⟩ := bind_eq_ok.mp h
        have hpos : 0 < q.eventfd_ := (guardOr_eq_ok.mp hguard).1.resolve_left nofun
        exact .inr (.inr (.inr ⟨List.mem_of_getElem? hi,
          q, List.mem_of_getElem? (readAt_eq_ok.mp hq), hpos⟩))
      · cases h
  | act i =>
    simp only [GroupThreads.step] at h
    split at h
    · next hi => exact .inr (.inr (.inl (hbusy hi nofun nofun)))
    · cases h
  | finish i =>
    simp only [GroupThreads.step] at h
    split at h
    · next hi => exact .inr (.inr (.inl (hbusy hi nofun nofun)))
    · cases h
  | wakeup i =>
    simp only [GroupThreads.step] at h
    split at h
    · next hi => exact .inr (.inr (.inl (hbusy hi nofun nofun)))
    · cases h
  | join =>
    simp only [GroupThreads.step, GroupThreads.join] at h
    split at h
    · next howner =>
      split at h
      · next hdone => exact .inr (.inl ⟨howner, List.mem_of_getElem? hdone⟩)
      · cases h
    · next howner => exact .inl (by rw [howner]; exact ⟨nofun, nofun⟩)
    · cases h
  | stop => cases he
  | post i => cases he

theorem Gone.idle (h : s.Gone) : s.Idle := by
  intro e he t ht
  rcases step_needs he ht with ⟨-, hne⟩ | ⟨howner, -⟩ | ⟨p, hp, -, hdone⟩ | ⟨hpoll, -⟩
  · exact hne h.1
  · rw [h.1] at howner
    cases howner
  · exact hdone (h.2 p hp)
  · cases h.2 _ hpoll

theorem Asleep.idle (h : s.Asleep) : s.Idle := by
  intro e he t ht
  rcases step_needs he ht with ⟨hne, -⟩ | ⟨-, hdone⟩ | ⟨p, hp, hpoll, -⟩ | ⟨-, q, hq, hpos⟩
  · exact hne h.1
  · cases h.2.1 _ hdone
  · exact hpoll (h.2.1 p hp)
  · exact absurd (h.2.2 q hq) (Nat.pos_iff_ne_zero.mp hpos)

/-- Nobody is left in front of `worker_thread`, in a pass or at the end of it. -/
theorem Kept.idle_points (h : Kept s) (hidle : s.Idle) : ∀ p ∈ s.threads_, p = .poll ∨ p = .done := by
  intro p hp
  obtain ⟨i, hi⟩ := List.mem_iff_getElem?.mp hp
  cases p with
  | unborn =>
    have hunborn := (h.unborn i (h.le hi)).mp hi
    cases howner : s.owner with
    | spawning k =>
      have hspawn : ∃ t, s.step .spawn = .ok t := by
        simp only [GroupThreads.step, GroupThreads.spawn, howner]
        split <;> exact ⟨_, rfl⟩
      obtain ⟨t, ht⟩ := hspawn
      exact absurd ht (hidle .spawn rfl t)
    | _ =>
      rw [howner] at hunborn
      exact hunborn.elim
  | check =>
    refine absurd ?_ (hidle (.check i) rfl (s.goto i (if s.bf_ then .poll else .wakeup 0)))
    simp only [GroupThreads.step, hi]
  | poll => exact .inl rfl
  | handling actions =>
    cases actions with
    | nil =>
      refine absurd ?_ (hidle (.finish i) rfl (s.goto i .check))
      simp only [GroupThreads.step, hi]
    | cons a as =>
      obtain ⟨t, hok, -⟩ := h.action hi (h.range i _ hi a List.mem_cons_self)
      refine absurd ?_ (hidle (.act i) rfl (t.goto i (.handling as)))
      simp only [GroupThreads.step, hi, hok, ok_bind, pure_eq_ok]
  | wakeup j =>
    obtain ⟨t, hok, -⟩ := h.wakeupNext hi
    refine absurd ?_ (hidle (.wakeup i) rfl (t.goto i (if j < t.n_ then .wakeup (j + 1) else .done)))
    simp only [GroupThreads.step, hi, hok, ok_bind, pure_eq_ok]
  | done => exact .inr rfl

theorem Idle.not_notified (hidle : s.Idle) {i : Nat} (hi : s.threads_[i]? = some .poll) :
    ¬s.Notified i := by
  rintro ⟨q, hq, hpos⟩
  have hok : readAt s.equeues i = .ok q := readAt_eq_ok.mpr hq
  have hguard : (false = true ∨ 0 < q.eventfd_) ∧ ∀ a ∈ ([] : List LoopAction), a.inGroup s.n_ :=
    ⟨.inr hpos, nofun⟩
  refine absurd ?_ (hidle (.poll i false []) rfl (s.goto i (.handling [])))
  simp only [GroupThreads.step, hi, hok, ok_bind, guardOr_pos hguard, pure_eq_ok]

/-- The owner is not in the destructor while threads are in their loops, and not before them when they have ended. -/
theorem Kept.idle_owner (h : Kept s) (hidle : s.Idle) :
    (s.threads_[0]? = some .poll → s.owner = .working) ∧
      ((∀ i, i ≤ s.n_ → s.threads_[i]? = some .done) → s.owner = .destroyed) := by
  have hrange := h.owner
  cases howner : s.owner with
  | spawning k =>
    -- there is a thread that has not been made
    rw [howner] at hrange
    have hunborn := (h.unborn 0 (Nat.zero_le _)).mpr (by rw [howner]; exact .inl rfl)
    rcases h.idle_points hidle _ (List.mem_of_getElem? hunborn) with hp | hp <;> cases hp
  | working =>
    refine ⟨fun _ => rfl, fun hdone => ?_⟩
    have hok : s.step .join = .ok { s with owner := .joining 1 } := by
      simp only [GroupThreads.step, GroupThreads.join, howner, hdone 0 (Nat.zero_le _), if_true]
    exact absurd hok (hidle .join rfl _)
  | joining k =>
    rw [howner] at hrange
    constructor
    · intro hpoll
      have hdone := h.joined 0 (Nat.zero_le _) (by rw [howner]; exact hrange.1)
      rw [hpoll] at hdone
      cases hdone
    · intro hdone
      have hok : ∃ t, s.step .join = .ok t := by
        simp only [GroupThreads.step, GroupThreads.join, howner]
        split
        · next hk => exact ⟨_, if_pos (hdone k hk)⟩
        · exact ⟨_, rfl⟩
      obtain ⟨t, ht⟩ := hok
      exact absurd ht (hidle .join rfl t)
  | destroyed =>
    refine ⟨fun hpoll => ?_, fun _ => rfl⟩
    have hdone := h.joined 0 (Nat.zero_le _) (by rw [howner]; trivial)
    rw [hpoll] at hdone
    cases hdone

/-- **A group in which nothing goes on is gone, or sleeps as a whole.** -/
theorem Kept.idle_iff (h : Kept s) : s.Idle ↔ s.Gone ∨ s.Asleep := by
  refine ⟨fun hidle => ?_, fun hor => hor.elim Gone.idle Asleep.idle⟩
  have hpoints := h.idle_points hidle
  have hthread : ∀ i, i ≤ s.n_ → s.threads_[i]? = some .poll ∨ s.threads_[i]? = some .done := by
    intro i hi
    have hlt : i < s.threads_.length := by
      rw [h.threads]
      exact Nat.lt_succ_of_le hi
    rw [List.getElem?_eq_getElem hlt, Option.some.injEq, Option.some.injEq]
    exact hpoints _ (List.getElem_mem hlt)
  by_cases hdone : .done ∈ s.threads_
  · -- the thread that has ended has woken up all the others
    left
    obtain ⟨i, hi⟩ := List.mem_iff_getElem?.mp hdone
    have hall : ∀ j, j ≤ s.n_ → s.threads_[j]? = some .done := by
      intro j hj
      rcases hthread j hj with hpoll | hd
      · exact absurd (h.woken i j .done hi trivial hpoll) (hidle.not_notified hpoll)
      · exact hd
    refine ⟨(h.idle_owner hidle).2 hall, fun p hp => ?_⟩
    obtain ⟨j, hj⟩ := List.mem_iff_getElem?.mp hp
    have hd := hall j (h.le hj)
    rw [hj] at hd
    exact Option.some.inj hd
  · right
    have hall : ∀ p ∈ s.threads_, p = .poll := fun p hp =>
      (hpoints p hp).resolve_right fun hd => hdone (hd ▸ hp)
    have hpoll : ∀ i, i ≤ s.n_ → s.threads_[i]? = some .poll := fun i hi =>
      (hthread i hi).resolve_right fun hd => hdone (List.mem_of_getElem? hd)
    have howner := (h.idle_owner hidle).1 (hpoll 0 (Nat.zero_le _))
    refine ⟨howner, hall, fun q hq => ?_⟩
    obtain ⟨i, hi⟩ := List.mem_iff_getElem?.mp hq
    have hlt : i < s.equeues.length := (List.getElem?_eq_some_iff.mp hi).1
    rw [h.queues (by rw [howner]; exact nofun)] at hlt
    by_contra hne
    exact hidle.not_notified (hpoll i (Nat.le_of_lt_succ hlt)) ⟨q, hi, Nat.pos_of_ne_zero hne⟩

/-! ## Runs -/

/-- A group that was told does not sleep. -/
theorem Told.not_asleep (htold : s.Told) : ¬s.Asleep := by
  rintro ⟨-, hall, -⟩
  obtain ⟨p, hp, hpt⟩ := htold
  rw [hall p hp] at hpt
  cases hpt

/--
**`bf_` alone stops nothing.** After any steps a group in which no thread can go on is gone, or all of
its threads wait in their pollers with nothing to wake them up, and none of them has asked `bf_` since it says
`false`: `run` asks it between the passes of the loops only.
-/
theorem idle_gone_or_asleep (n : Nat) (es : List ThreadStep) :
    Guarantees (fun s => (s.Idle ↔ s.Gone ∨ s.Asleep) ∧ (s.Asleep → ¬s.Told))
      (run step (init n : GroupThreads H) es) :=
  (run_kept n es).imp_ok fun _ _ hs => ⟨hs.idle_iff, fun hasleep htold => htold.not_asleep hasleep⟩

/-- The loop has taken the count of its eventfd before `bf_` says `false`. -/
example : (run step (init 0 : GroupThreads Unit)
      [.spawn, .check 0, .poll 0 false [.read], .act 0, .finish 0, .check 0, .stop]).toOption.map
      (fun s => (s.bf_, s.threads_, s.equeues.map EventQueue.eventfd_))
    = some (false, [.poll], [0]) := by decide

end GroupThreads

end Liby
