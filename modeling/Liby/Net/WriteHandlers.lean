import Liby.Net.WriteSteps

/-!
# The handlers in the queue

Which completion handlers wait in `writTasks_`: those that the user's calls put there. `Q` is what
is known of them.
-/

namespace Liby

open Infra

variable {σ H : Type _} {cb : Callbacks σ H} {Q : H → Prop}

/-- The handler of every task satisfies `Q`. -/
def Connection.Queues (Q : H → Prop) (c : Connection H) : Prop :=
  ∀ t ∈ c.writTasks_, ∀ handler, t.handler_ = some handler → Q handler

/-- The handlers that a call queues satisfy `Q`. -/
def ConnCall.Queues (Q : H → Prop) (x : ConnCall H) : Prop :=
  ∀ m ∈ x.messages, ∀ handler, m.tag = some handler → Q handler

/-- So do those that the user's callbacks queue. -/
structure Callbacks.Queue (cb : Callbacks σ H) (Q : H → Prop) : Prop where
  complete : ∀ w handler, ∀ x ∈ (cb.complete w handler).2, x.Queues Q
  onErro : ∀ w, ∀ x ∈ (cb.onErro w).2, x.Queues Q

namespace Connection

variable {c c' : Connection H}

theorem Queues.destroy (hq : c.Queues Q) : c.destroy.Queues Q := by
  unfold Connection.destroy
  split
  · exact hq
  · intro t ht
    cases ht

/-- The task at the front is shortened and keeps its handler. -/
theorem Queues.shorten (hq : c.Queues Q) {first first' : IoTask H} {tasks : List (IoTask H)}
    (htasks : c.writTasks_ = first :: tasks) (hhandler : first'.handler_ = first.handler_) :
    Connection.Queues Q { c with writTasks_ := first' :: tasks } := by
  intro t ht
  rcases List.mem_cons.mp ht with rfl | ht
  · rw [hhandler]
    exact hq first (by rw [htasks]; exact List.mem_cons_self)
  · exact hq t (by rw [htasks]; exact List.mem_cons_of_mem _ ht)

/-- What a call puts at the end has a handler that the call names. -/
theorem Queues.call (hq : c.Queues Q) {x : ConnCall H} (hx : x.Queues Q) (h : c.call x = .ok c') :
    c'.Queues Q := by
  rcases call_cases h with ⟨ch, t, -, htag, rfl⟩ | ⟨-, ⟨ch, flag, -, rfl⟩ | rfl | rfl | rfl⟩
  · intro t' ht' handler hhandler
    rcases List.mem_append.mp ht' with hold | hnew
    · exact hq t' hold handler hhandler
    · rw [List.mem_singleton.mp hnew] at hhandler
      have hmem : some handler ∈ x.messages.map Message.tag := by
        rw [htag, hhandler]
        exact List.mem_singleton_self _
      obtain ⟨m, hm, htag⟩ := List.mem_map.mp hmem
      exact hx m hm handler htag
  · exact hq
  · exact hq
  · exact hq.destroy
  · exact hq

end Connection

namespace Link

variable {l l' : Link σ H}

theorem queues_call (hq : l.conn.Queues Q) {x : ConnCall H} (hx : x.Queues Q) (h : l.call x = .ok l') :
    l'.conn.Queues Q := by
  obtain ⟨c, hc, h⟩ := bind_eq_ok.mp h
  cases h
  exact hq.call hx hc

theorem steady_queues (hcb : cb.Queue Q) : Steady cb fun l => l.conn.Queues Q := by
  refine steady_of_conn (P := Connection.Queues Q) ?_ Connection.Queues.destroy ?_
    fun hq htasks hhandler => hq.shorten htasks hhandler
  · intro c c' x hx hq hcall
    rcases hx with ⟨w, handler, hx⟩ | ⟨w, hx⟩
    · exact hq.call (hcb.complete w handler x hx) hcall
    · exact hq.call (hcb.onErro w x hx) hcall
  · intro c first tasks hq htasks t ht
    exact hq t (by rw [htasks]; exact List.mem_cons_of_mem _ ht)

/-- **A write event leaves only such handlers in the queue.** -/
theorem queues_handleWritEvent (hcb : cb.Queue Q) (hq : l.conn.Queues Q) {as : List WriteAnswer}
    (h : l.handleWritEvent cb as = .ok l') : l'.conn.Queues Q :=
  (steady_queues hcb).handleWritEvent (fun _ _ _ hq => hq) hq h

end Link

end Liby
