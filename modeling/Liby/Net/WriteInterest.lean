import Liby.Infra.Machine
import Liby.Net.WriteSteps

/-!
# The write interest and the queue

Every `send` turns the write interest on, and the `DeferCaller` at the top of `handleWritEvent` is to
turn it off when the queue is empty. It has no name and is gone before the loop starts, so that it
sees the queue as it was at the start of the event: an event that empties the queue leaves the
interest on.
-/

namespace Liby

open Infra

variable {σ H : Type _} {cb : Callbacks σ H}

namespace Connection

/-- The write interest of the channel. -/
def Writes (c : Connection H) : Bool :=
  match c.chan_ with
  | some ch => ch.writable_
  | none => false

variable {c c' : Connection H}

/-- A call leaves the interest as it was, or on. -/
theorem call_writes {x : ConnCall H} (h : c.call x = .ok c') (halive : c'.destroy_ = false) :
    c'.Writes = true ∨ (c'.Writes = c.Writes ∧ c'.writTasks_ = c.writTasks_ ∧ c.destroy_ = false) := by
  rcases call_cases h with ⟨ch, t, -, -, rfl⟩ | ⟨-, ⟨ch, flag, hch, rfl⟩ | rfl | rfl | rfl⟩
  · exact .inl rfl
  · refine .inr ⟨?_, rfl, halive⟩
    unfold Writes
    rw [hch]
    rfl
  · exact .inr ⟨rfl, rfl, halive⟩
  · rw [destroy_destroyed] at halive
    cases halive
  · exact .inr ⟨rfl, rfl, halive⟩

end Connection

namespace Link

variable {l l' l1 : Link σ H} {first : IoTask H} {tasks : List (IoTask H)} {a : WriteAnswer}
  {as : List WriteAnswer} {pass : Pass (Link σ H) (Link σ H)}

/-! ## The interest stays on -/

/-- The interest is on, unless the connection is destroyed. -/
def On (l : Link σ H) : Prop := l.conn.destroy_ = false → l.conn.Writes = true

theorem steady_on : Steady cb (On (σ := σ) (H := H)) := by
  refine steady_of_conn (P := fun c => c.destroy_ = false → c.Writes = true) ?_ ?_ ?_ ?_
  · intro c c' x _ h hc halive
    rcases Connection.call_writes hc halive with hon | ⟨hsame, -, hbefore⟩
    · exact hon
    · rw [hsame]
      exact h hbefore
  · intro c _ halive
    rw [Connection.destroy_destroyed] at halive
    cases halive
  · exact fun h _ => h
  · exact fun h _ _ => h

/-- The interest is on while there is something to write. -/
def Backed (l : Link σ H) : Prop :=
  l.conn.destroy_ = false → l.conn.writTasks_ ≠ [] → l.conn.Writes = true

theorem On.backed (h : l.On) : l.Backed := fun halive _ => h halive

theorem Backed.on (h : l.Backed) (hfull : l.conn.writTasks_ ≠ []) : l.On := fun halive => h halive hfull

/-- **No event leaves something to write without the interest.** -/
theorem Backed.step (h : l.Backed) {e : Event H} (hstep : l.step cb e = .ok l') : l'.Backed := by
  cases e with
  | call x =>
    obtain ⟨c, hc, hstep⟩ := bind_eq_ok.mp hstep
    cases hstep
    intro halive hfull
    rcases Connection.call_writes hc halive with hon | ⟨hsame, htasks, hbefore⟩
    · exact hon
    · have hfull : c.writTasks_ ≠ [] := hfull
      rw [htasks] at hfull
      show c.Writes = true
      rw [hsame]
      exact h hbefore hfull
  | writ as =>
    rcases handleWritEvent_cases hstep with ⟨hcase, hloop⟩ | ⟨-, hempty, ch, -, rfl⟩
    · rcases hcase with hdestroyed | hfull
      · have hgone := steady_destroyed.writLoop hdestroyed hloop
        intro halive
        rw [hgone] at halive
        cases halive
      · exact (steady_on.writLoop (h.on hfull) hloop).backed
    · exact fun _ hfull => absurd hempty hfull

/-! ## What is left of the queue -/

/-- The kernel takes all that the pass offers. -/
def TakesAll (p : Link σ H × WriteAnswer) : Prop := p.2 = .accepted p.1.conn.offered

/--
The accepted bytes end in the leading buffers, or with them: after a part of one there is something
left, and nothing is left after all of them only.
-/
theorem drain_ends : ∀ {n ret : Nat} {l : Link σ H} {ts rest : List (IoTask H)}
    {pass : Pass (Link σ H) (Link σ H)}, l.conn.writTasks_ = ts ++ rest → ts.length = n →
    drain cb n ret l = .ok pass → pass.out.conn.destroy_ = false →
    (∃ l', pass = .done l' ∧ l'.conn.writTasks_ ≠ [] ∧ ret < (ts.map IoTask.buffered).sum) ∨
    ∃ l', pass = .next l' ∧ (l'.conn.writTasks_ = [] → ret = (ts.map IoTask.buffered).sum)
  | n, 0, l, ts, rest, pass, htasks, _, h, _ => by
    unfold drain at h
    cases h
    refine .inr ⟨l, rfl, fun hempty => ?_⟩
    rw [htasks] at hempty
    rw [(List.append_eq_nil_iff.mp hempty).1]
    rfl
  | 0, ret + 1, _, _, _, _, _, _, h, _ => by
    unfold drain at h
    cases h
  | n + 1, ret + 1, l, [], rest, pass, _, hlen, _, _ => by cases hlen
  | n + 1, ret + 1, l, t :: ts, rest, pass, htasks, hlen, h, halive => by
    rw [List.cons_append] at htasks
    unfold drain at h
    rw [htasks] at h
    dsimp only at h
    split at h
    · cases h
    · next buffer hb =>
      obtain ⟨size, hsize, h⟩ := bind_eq_ok.mp h
      have hbuffered : t.buffered = size := by
        unfold IoTask.buffered
        rw [hb]
        unfold Buffer.size at hsize
        obtain ⟨u, -, hsize⟩ := bind_eq_ok.mp hsize
        exact Except.ok.inj hsize
      rw [List.map_cons, List.sum_cons, hbuffered]
      split at h
      · next hle =>
        obtain ⟨pass1, hfinish, h⟩ := bind_eq_ok.mp h
        -- the task is gone, and its handler may have put in others
        rcases finishBuffer_cases htasks hfinish with ⟨l1, rfl, hdestroyed⟩ | ⟨l1, rfl, hnext⟩
        · cases h
          rw [show (Pass.done l1 : Pass (Link σ H) (Link σ H)).out = l1 from rfl, hdestroyed] at halive
          cases halive
        · have halive1 : l1.conn.destroy_ = false := by
            by_contra hgone
            have hdestroyed := steady_destroyed.drain (Bool.of_not_eq_false hgone) h
            rw [hdestroyed] at halive
            cases halive
          obtain ⟨new, hnew⟩ := hnext halive1
          rw [List.append_assoc] at hnew
          rcases drain_ends hnew (Nat.succ.inj hlen) h halive with ⟨l', rfl, hleft, hlt⟩ | ⟨l', rfl, hempty⟩
          · exact .inl ⟨l', rfl, hleft, by omega⟩
          · exact .inr ⟨l', rfl, fun hnil => by have := hempty hnil; omega⟩
      · next hlt =>
        obtain ⟨rest', -, h⟩ := bind_eq_ok.mp h
        cases h
        -- the kernel took less than the task has
        exact .inl ⟨_, rfl, List.cons_ne_nil _ _, by omega⟩

/-- A pass of a file ends the event with the rest of the file, or goes on with all of it sent. -/
theorem filePass_ends {fp : Bytes} (htasks : l.conn.writTasks_ = first :: tasks)
    (hfp : first.fp_ = some fp) (h : l.filePass cb first fp a = .ok pass)
    (halive : pass.out.conn.destroy_ = false) :
    (∃ l', pass = .done l' ∧ l'.conn.writTasks_ ≠ [] ∧ ¬TakesAll (l, a)) ∨
    ∃ l', pass = .next l' ∧ TakesAll (l, a) := by
  have hoffered : l.conn.offered = first.len_ := by
    unfold Connection.offered
    rw [htasks]
    dsimp only
    rw [hfp]
  unfold TakesAll
  rw [hoffered]
  rcases filePass_cases h with ⟨rfl, rfl⟩ | ⟨l1, h1, rfl⟩ | ⟨l1, rfl, rfl, -⟩ | ⟨ret, rfl, hne, rfl⟩
  · exact .inl ⟨l, rfl, by rw [htasks]; exact List.cons_ne_nil _ _, nofun⟩
  · exact absurd (handleErroEvent_destroyed h1) (by rw [show l1.conn.destroy_ = false from halive]; nofun)
  · exact .inr ⟨l1, rfl, rfl⟩
  · refine .inl ⟨_, rfl, List.cons_ne_nil _ _, fun hall => hne ?_⟩
    injection hall

/-- A pass of buffers ends the event with a rest of them, or goes on. -/
theorem bufferPass_ends (htasks : l.conn.writTasks_ = first :: tasks) (hfp : first.fp_ = none)
    (h : l.bufferPass cb a = .ok pass) (halive : pass.out.conn.destroy_ = false) :
    (∃ l', pass = .done l' ∧ l'.conn.writTasks_ ≠ [] ∧ ¬TakesAll (l, a)) ∨
    ∃ l', pass = .next l' ∧ (l'.conn.writTasks_ = [] → TakesAll (l, a)) := by
  have hoffered : l.conn.offered = (l.conn.leading.map IoTask.buffered).sum := by
    unfold Connection.offered
    rw [htasks]
    dsimp only
    rw [hfp]
  unfold TakesAll
  rw [hoffered]
  rcases bufferPass_cases h with ⟨rfl, rfl⟩ | ⟨l1, h1, rfl⟩ | ⟨iov, ret, hiov, rfl, hdrain⟩
  · exact .inl ⟨l, rfl, by rw [htasks]; exact List.cons_ne_nil _ _, nofun⟩
  · exact absurd (handleErroEvent_destroyed h1) (by rw [show l1.conn.destroy_ = false from halive]; nofun)
  · have hlen : l.conn.leading.length = iov.length := (gather_length hiov).symm
    have hsplit : l.conn.writTasks_
        = l.conn.leading ++ l.conn.writTasks_.dropWhile IoTask.inMemory :=
      (List.takeWhile_append_dropWhile ..).symm
    rcases drain_ends (l := { l with wire := l.wire ++ iov.flatten.take ret }) hsplit hlen hdrain halive with
      ⟨l', rfl, hleft, hlt⟩ | ⟨l', rfl, hempty⟩
    · refine .inl ⟨l', rfl, hleft, fun hall => ?_⟩
      injection hall with hall
      omega
    · exact .inr ⟨l', rfl, fun hnil => by rw [hempty hnil]⟩

theorem writPass_ends (htasks : l.conn.writTasks_ = first :: tasks)
    (h : l.writPass cb first a = .ok pass) (halive : pass.out.conn.destroy_ = false) :
    (∃ l', pass = .done l' ∧ l'.conn.writTasks_ ≠ [] ∧ ¬TakesAll (l, a)) ∨
    ∃ l', pass = .next l' ∧ (l'.conn.writTasks_ = [] → TakesAll (l, a)) := by
  unfold writPass at h
  split at h
  · next fp hfp =>
    rcases filePass_ends htasks hfp h halive with hdone | ⟨l', hnext, hall⟩
    · exact .inl hdone
    · exact .inr ⟨l', hnext, fun _ => hall⟩
  · next hfp => exact bufferPass_ends htasks hfp h halive

/-- **An event leaves something to write exactly if the kernel did not take all that the last pass
offered.** -/
theorem writLoop_leaves : ∀ {as : List WriteAnswer} {l l' : Link σ H}, l.conn.writTasks_ ≠ [] →
    l.writLoop cb as = .ok l' → l'.conn.destroy_ = false →
    (l'.conn.writTasks_ ≠ [] ↔ ∀ p ∈ (l.passes cb as).getLast?, ¬TakesAll p)
  | [], l, l', hfull, h, _ => by
    unfold writLoop at h
    rw [if_neg hfull] at h
    cases h
  | a :: as, l, l', hfull, h, halive => by
    obtain ⟨first, tasks, htasks⟩ := List.exists_cons_of_ne_nil hfull
    unfold writLoop at h
    rw [htasks] at h
    obtain ⟨pass, hpass, h⟩ := bind_eq_ok.mp h
    rw [passes_cons htasks, hpass]
    cases pass with
    | done l1 =>
      cases h
      rcases writPass_ends htasks hpass halive with ⟨l2, heq, hleft, hpart⟩ | ⟨l2, heq, -⟩
      · cases heq
        exact iff_of_true hleft fun p hp => by cases hp; exact hpart
      · cases heq
    | next l1 =>
      have halive1 : l1.conn.destroy_ = false := by
        by_contra hgone
        have hdestroyed := steady_destroyed.writLoop (Bool.of_not_eq_false hgone) h
        rw [hdestroyed] at halive
        cases halive
      have h : l1.writLoop cb as = .ok l' := h
      dsimp only
      by_cases hempty : l1.conn.writTasks_ = []
      · rw [writLoop_empty as hempty] at h
        cases h
        rcases writPass_ends htasks hpass halive with ⟨l2, heq, -⟩ | ⟨l2, heq, hall⟩
        · cases heq
        · cases heq
          rw [passes_empty hempty]
          exact iff_of_false (fun hleft => hleft hempty) fun hnot => hnot (l, a) rfl (hall hempty)
      · rw [writLoop_leaves hempty h halive]
        cases as with
        | nil =>
          unfold writLoop at h
          rw [if_neg hempty] at h
          cases h
        | cons a' as =>
          obtain ⟨first', tasks', htasks'⟩ := List.exists_cons_of_ne_nil hempty
          rw [passes_cons htasks', List.getLast?_cons_cons]

/-! ## Every run -/

/--
**The write interest tracks the queue, exactly if the last call of an event leaves something over.** In
every run, when a write event returns and the connection is not destroyed, the interest is on if and
only if there is something to write, unless the event called the kernel and the last call took all
that it was offered.
-/
theorem interest_tracks_iff {conn : Connection H} {world : σ} (hempty : conn.writTasks_ = [])
    {es : List (Event H)} (hrun : run (step cb) (start conn world) es = .ok l)
    (hwrit : l.handleWritEvent cb as = .ok l') (halive : l'.conn.destroy_ = false) :
    (l'.conn.Writes = true ↔ l'.conn.writTasks_ ≠ []) ↔
      ∀ p ∈ (l.passes cb as).getLast?, ¬TakesAll p := by
  have hbacked : l.Backed := run_invariant (I := Backed) (fun _ _ _ h hs => h.step hs)
    (fun _ hfull => absurd hempty hfull) hrun
  rcases handleWritEvent_cases hwrit with ⟨hcase, hloop⟩ | ⟨-, hnone, ch, -, rfl⟩
  · have hfull : l.conn.writTasks_ ≠ [] := by
      rcases hcase with hdestroyed | hfull
      · rw [steady_destroyed.writLoop hdestroyed hloop] at halive
        cases halive
      · exact hfull
    have hon := steady_on.writLoop (hbacked.on hfull) hloop halive
    rw [← writLoop_leaves hfull hloop halive]
    exact ⟨fun h => h.mp hon, fun h => iff_of_true hon h⟩
  · rw [passes_empty hnone]
    exact iff_of_true (iff_of_false Bool.false_ne_true fun hfull => hfull hnone) (by simp)

/-- A user whose handlers do nothing. -/
def sendsNothing : Callbacks Unit Unit where
  complete := fun w _ => (w, [])
  onErro := fun w => (w, [])

/-- Two bytes of which the kernel takes one. -/
theorem interest_tracks_part :
    ∃ l l', run (step sendsNothing) (start .accepted ()) [.call (.send [1, 2] none)] = .ok l ∧
      l.handleWritEvent sendsNothing [.accepted 1] = .ok l' ∧
      ((l'.conn.Writes = true ↔ l'.conn.writTasks_ ≠ []) ↔
        ∀ p ∈ (l.passes sendsNothing [.accepted 1]).getLast?, ¬TakesAll p) := by
  have hview : (run (step sendsNothing) (start .accepted ()) [.call (.send [1, 2] none)] >>=
      fun l => l.handleWritEvent sendsNothing [.accepted 1]).toOption.map
        (fun l' => l'.conn.destroy_) = some false := by
    decide +kernel
  obtain ⟨l', hboth, halive⟩ := ok_of_toOption_map hview
  obtain ⟨l, hrun, hwrit⟩ := bind_eq_ok.mp hboth
  exact ⟨l, l', hrun, hwrit, interest_tracks_iff rfl hrun hwrit halive⟩

/-- The kernel takes the one byte there is, and the interest stays on with nothing to write. -/
theorem interest_stays_on :
    ∃ l, run (step sendsNothing) (start .accepted ()) [.call (.send [1] none), .writ [.accepted 1]] = .ok l ∧
      l.conn.destroy_ = false ∧ l.conn.Writes = true ∧ l.conn.writTasks_ = [] :=
  ⟨_, rfl, rfl, rfl, rfl⟩

end Link

end Liby
