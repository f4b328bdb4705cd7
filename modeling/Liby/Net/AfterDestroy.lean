import Liby.Infra.Machine
import Liby.Net.WriteSteps

/-!
# Calls on a destroyed connection

A user that holds a connection can call it after `destroy`. The loop of `handleWritEvent` looks at
`destroy_`; the functions below do not, and all but one of them come to the channel that is gone.
-/

namespace Liby

open Infra

variable {H : Type _}

/-- A function of the connection that its user can call. -/
inductive Entry (H : Type _) where
  | call (x : ConnCall H)
  | enableWrit (flag : Bool)
  deriving DecidableEq, Repr

/-- The entries that leave a destroyed connection alone. -/
def Entry.Harmless : Entry H → Prop
  | .call (.sendString str _) => str = []
  | .call .destroy | .call .destroyLater => True
  | .call _ | .enableWrit _ => False

namespace Connection

variable {c c' : Connection H}

/-- A call from outside. -/
def enter (c : Connection H) : Entry H → Exec (Connection H)
  | .call x => c.call x
  | .enableWrit flag => c.enableWrit flag

/-- `destroy` has run, and nothing was put back. -/
structure Gone (c : Connection H) : Prop where
  destroyed : c.destroy_ = true
  chan : c.chan_ = none
  tasks : c.writTasks_ = []

theorem Cleared.gone (h : c.Cleared) : c.destroy.Gone := by
  obtain ⟨hchan, -, htasks⟩ := h.destroy (destroy_destroyed c)
  exact ⟨destroy_destroyed c, hchan, htasks⟩

theorem Gone.channel (h : c.Gone) : c.channel = .error .nullDeref := by
  unfold Connection.channel
  rw [h.chan]

/-- The task is in the queue when the channel is looked for. -/
theorem Gone.emplace (h : c.Gone) (t : IoTask H) : c.emplace t = .error .nullDeref := by
  have hqueued : ({ c with writTasks_ := c.writTasks_ ++ [t] } : Connection H).channel
      = .error .nullDeref := h.channel
  unfold Connection.emplace enableWrit
  rw [hqueued]
  rfl

theorem Gone.enter_ok (h : c.Gone) {e : Entry H} (he : e.Harmless) :
    ∃ c', c.enter e = .ok c' ∧ c'.Gone := by
  cases e with
  | enableWrit flag => exact absurd he id
  | call x =>
    cases x with
    | sendString str handler => exact ⟨c, if_pos he, h⟩
    | destroy =>
      refine ⟨c, ?_, h⟩
      show Except.ok c.destroy = _
      unfold destroy
      rw [if_pos h.destroyed]
    | destroyLater => exact ⟨c.destroyLater, rfl, h.destroyed, h.chan, h.tasks⟩
    | _ => exact absurd he id

/-- The other entries come to the channel, or to an `assert` before it. -/
theorem Gone.enter_fails (h : c.Gone) {e : Entry H} (he : ¬e.Harmless) :
    c.enter e = .error .nullDeref ∨ c.enter e = .error .assertFailed := by
  cases e with
  | enableWrit flag =>
    left
    show enableWrit c flag = _
    unfold enableWrit
    rw [h.channel]
    rfl
  | call x =>
    cases x with
    | send base handler => exact .inl (h.emplace _)
    | sendMoved buf handler => exact .inl (h.emplace _)
    | sendCString buf handler => exact .inl (h.emplace _)
    | sendFile fp off len handler => exact .inl (h.emplace _)
    | sendBuffer buf handler =>
      show (sendBuffer c buf handler >>= fun r => _) = _ ∨ (sendBuffer c buf handler >>= fun r => _) = _
      unfold sendBuffer
      by_cases hassert : 0 < buf.capacity_ ∧ buf.leftIndex_ ≤ buf.rightIndex_
      · left
        rw [guardOr_pos hassert, ok_bind, h.emplace]
        rfl
      · right
        rw [guardOr_neg hassert]
        rfl
    | sendString str handler =>
      have hne : str ≠ [] := he
      left
      show sendString c str handler = _
      unfold sendString
      rw [if_neg hne]
      exact h.emplace _
    | enableRead flag =>
      left
      show enableRead c flag = _
      unfold enableRead
      rw [h.channel]
      rfl
    | destroy => exact absurd trivial he
    | destroyLater => exact absurd trivial he

/-- What returns is harmless, call by call. -/
theorem Gone.harmless_of_run : ∀ {es : List (Entry H)} {c : Connection H}, c.Gone →
    run enter c es = .ok c' → ∀ e ∈ es, e.Harmless
  | [], _, _, _ => nofun
  | e :: es, c, h, hrun => by
    obtain ⟨c1, hc1, hrest⟩ := run_cons_ok hrun
    have he : e.Harmless := by
      by_contra hnot
      rcases h.enter_fails hnot with hfault | hfault
      · rw [hfault] at hc1
        cases hc1
      · rw [hfault] at hc1
        cases hc1
    obtain ⟨c2, hc2, hgone⟩ := h.enter_ok he
    rw [hc1] at hc2
    cases hc2
    exact List.forall_mem_cons.mpr ⟨he, hgone.harmless_of_run hrest⟩

/--
**Calls on a destroyed connection are no-ops, exactly if they send nothing at all.** A sequence of
calls returns and leaves the connection destroyed and its queue empty if and only if each of them is
a `send` of an empty `std::string`, or `destroy` again.
-/
theorem after_destroy_iff (h : c.Cleared) : ∀ es : List (Entry H),
    (∃ c', run enter c.destroy es = .ok c' ∧ c'.destroy_ = true ∧ c'.writTasks_ = []) ↔
      ∀ e ∈ es, e.Harmless := by
  intro es
  constructor
  · rintro ⟨c', hrun, -⟩
    exact h.gone.harmless_of_run hrun
  · intro hes
    obtain ⟨c', hrun, hc'⟩ := run_total_along (C := fun _ e => e.Harmless)
      (fun _ _ h he => h.enter_ok he) es h.gone (along_of_forall (fun e he _ => hes e he) c.destroy)
    exact ⟨c', hrun, hc'.destroyed, hc'.tasks⟩

theorem after_destroy_iff_accepted :
    (∃ c', run enter (accepted : Connection Unit).destroy [.call (.sendString [] none), .call .destroy]
        = .ok c' ∧ c'.destroy_ = true ∧ c'.writTasks_ = []) ↔
      ∀ e ∈ [Entry.call (.sendString [] (none : Option Unit)), .call .destroy], e.Harmless :=
  after_destroy_iff (cleared_of_alive rfl) _

/-- One byte sent, and the two interests set, after `destroy`. -/
theorem after_destroy_faults :
    (accepted : Connection Unit).destroy.enter (.call (.send [1] none)) = .error .nullDeref ∧
      (accepted : Connection Unit).destroy.enter (.call (.enableRead true)) = .error .nullDeref ∧
      (accepted : Connection Unit).destroy.enter (.enableWrit false) = .error .nullDeref ∧
      ¬∀ (c : Connection Unit) (e : Entry Unit), c.Cleared →
        ∃ c', c.destroy.enter e = .ok c' ∧ c'.destroy_ = true ∧ c'.writTasks_ = [] := by
  have hsend : (accepted : Connection Unit).destroy.enter (.call (.send [1] none)) = .error .nullDeref := rfl
  refine ⟨hsend, rfl, rfl, fun hall => ?_⟩
  obtain ⟨c', hc', -⟩ := hall accepted (.call (.send [1] none)) (cleared_of_alive rfl)
  rw [hsend] at hc'
  cases hc'

end Connection

end Liby
