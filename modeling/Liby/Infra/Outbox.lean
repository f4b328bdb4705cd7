import Mathlib.Data.List.Basic
import Mathlib.Tactic.Common

/-!
# Messages on a stream

A sender puts messages on a stream of bytes, in order and without gaps. At any time the stream has
the messages that are out as a whole, and the first part of the next one (`Cut`). What is out and
what is left make up all that was sent, and the messages that are out are those whose last byte is
on the stream.
-/

namespace Infra

/-- A message with something that belongs to it. -/
structure Message (β τ : Type _) where
  payload : List β
  tag : τ
  deriving DecidableEq, Repr

namespace Outbox

variable {β τ : Type _}

/-- The messages one after the other. -/
def stream (messages : List (Message β τ)) : List β := (messages.map Message.payload).flatten

@[simp] theorem stream_nil : stream ([] : List (Message β τ)) = [] := rfl

@[simp] theorem stream_cons (m : Message β τ) (ms : List (Message β τ)) :
    stream (m :: ms) = m.payload ++ stream ms := rfl

@[simp] theorem stream_append (ms ms' : List (Message β τ)) :
    stream (ms ++ ms') = stream ms ++ stream ms' := by
  simp [stream]

/-- The messages that lie in the first `n` bytes of the stream as a whole. -/
def completed : Nat → List (Message β τ) → List (Message β τ)
  | _, [] => []
  | n, m :: ms => if m.payload.length ≤ n then m :: completed (n - m.payload.length) ms else []

/-- The messages that are not out, with `part` of the first one out. -/
def whole (part : List β) : List (Message β τ) → List (Message β τ)
  | [] => []
  | m :: ms => { m with payload := part ++ m.payload } :: ms

/--
Of the messages `sent`, `done` are out as a whole, and of the others `left` is left. `wire` is what
the stream has.
-/
structure Cut (sent : List (Message β τ)) (wire : List β) (done left : List (Message β τ)) :
    Prop where
  split : ∃ part, sent = done ++ whole part left ∧ wire = stream done ++ part ∧
    (left = [] → part = [])
  filled : ∀ m ∈ left, m.payload ≠ []

variable {sent done left : List (Message β τ)} {wire : List β}

theorem stream_whole (part : List β) (h : left = [] → part = []) :
    stream (whole part left) = part ++ stream left := by
  cases left with
  | nil => rw [h rfl]; rfl
  | cons m ms => simp [whole]

/-- **What is out and what is left make up all that was sent.** -/
theorem Cut.stream_eq (h : Cut sent wire done left) : wire ++ stream left = stream sent := by
  obtain ⟨part, hsent, hwire, hpart⟩ := h.split
  rw [hsent, hwire, stream_append, stream_whole part hpart, List.append_assoc]

theorem completed_stream (ms : List (Message β τ)) (n : Nat) :
    ∀ done : List (Message β τ), completed ((stream done).length + n) (done ++ ms)
      = done ++ completed n ms
  | [] => by simp
  | m :: done => by
    rw [stream_cons, List.length_append, List.cons_append, completed, if_pos (by omega)]
    have hrest : m.payload.length + (stream done).length + n - m.payload.length
        = (stream done).length + n := by omega
    rw [hrest, completed_stream ms n done, List.cons_append]

/-- **The messages that are out are those whose last byte is on the stream.** -/
theorem Cut.completed_eq (h : Cut sent wire done left) : completed wire.length sent = done := by
  obtain ⟨part, hsent, hwire, -⟩ := h.split
  rw [hsent, hwire, List.length_append, completed_stream]
  cases hl : left with
  | nil => simp [whole, completed]
  | cons m ms =>
    have hm : m.payload ≠ [] := h.filled m (by simp [hl])
    have := List.length_pos_iff.mpr hm
    rw [whole, completed, if_neg (by simp only [List.length_append]; omega), List.append_nil]

/-- What is out as a whole is a start of the messages, and on the stream. -/
theorem Cut.done_out (h : Cut sent wire done left) : done <+: sent ∧ stream done <+: wire := by
  obtain ⟨part, hsent, hwire, -⟩ := h.split
  exact ⟨⟨_, hsent.symm⟩, ⟨part, hwire.symm⟩⟩

theorem completed_start : ∀ (n : Nat) (ms : List (Message β τ)), completed n ms <+: ms
  | _, [] => List.nil_prefix
  | n, m :: ms => by
    unfold completed
    split
    · exact (List.prefix_cons_inj m).mpr (completed_start _ ms)
    · exact List.nil_prefix

theorem length_stream_completed : ∀ (n : Nat) (ms : List (Message β τ)),
    (stream (completed n ms)).length ≤ n
  | n, [] => Nat.zero_le n
  | n, m :: ms => by
    unfold completed
    split
    · next hle =>
      have hrest := length_stream_completed (n - m.payload.length) ms
      rw [stream_cons, List.length_append]
      omega
    · exact Nat.zero_le n

/-- The messages that lie on the stream as a whole are on it one after the other. -/
theorem stream_completed (h : wire <+: stream sent) : stream (completed wire.length sent) <+: wire := by
  obtain ⟨rest, hrest⟩ := completed_start wire.length sent
  refine List.prefix_of_prefix_length_le ⟨stream rest, ?_⟩ h (length_stream_completed _ _)
  rw [← stream_append, hrest]

/-- What belongs to the messages, in the order of the messages. -/
theorem Cut.tags_eq {τ : Type _} {sent done left : List (Message β (Option τ))}
    (h : Cut sent wire done left) :
    sent.filterMap Message.tag = done.filterMap Message.tag ++ left.filterMap Message.tag := by
  obtain ⟨part, hsent, -⟩ := h.split
  rw [hsent, List.filterMap_append]
  cases left with
  | nil => rfl
  | cons m ms => simp [whole, List.filterMap_cons]

theorem cut_nil : Cut ([] : List (Message β τ)) ([] : List β) [] [] where
  split := ⟨[], rfl, rfl, fun _ => rfl⟩
  filled := fun _ h => by cases h

/-- One more message is sent. -/
theorem Cut.push (h : Cut sent wire done left) {ms : List (Message β τ)}
    (hms : ∀ m ∈ ms, m.payload ≠ []) : Cut (sent ++ ms) wire done (left ++ ms) where
  split := by
    obtain ⟨part, hsent, hwire, hpart⟩ := h.split
    cases left with
    | nil =>
      have hnil := hpart rfl
      subst hnil
      refine ⟨[], ?_, hwire, fun _ => rfl⟩
      rw [hsent]
      cases ms with
      | nil => simp [whole]
      | cons m ms => simp [whole]
    | cons m left =>
      refine ⟨part, ?_, hwire, fun hnil => by cases hnil⟩
      rw [hsent]
      simp [whole]
  filled := by
    intro m hm
    rcases List.mem_append.mp hm with hm | hm
    · exact h.filled m hm
    · exact hms m hm

/-- The rest of the first message goes out. -/
theorem Cut.pop {m : Message β τ} (h : Cut sent wire done (m :: left)) :
    ∃ out, Cut sent (wire ++ m.payload) (done ++ [{ m with payload := out }]) left := by
  obtain ⟨part, hsent, hwire, -⟩ := h.split
  refine ⟨part ++ m.payload, ⟨[], ?_, ?_, fun _ => rfl⟩,
    fun m' hm' => h.filled m' (List.mem_cons_of_mem m hm')⟩
  · rw [hsent, whole, List.append_assoc]
    cases left with
    | nil => rfl
    | cons m' left => simp [whole]
  · rw [hwire]
    simp

/-- A part of the first message goes out. -/
theorem Cut.take {m : Message β τ} (h : Cut sent wire done (m :: left)) {n : Nat}
    (hn : n < m.payload.length) :
    Cut sent (wire ++ m.payload.take n) done ({ m with payload := m.payload.drop n } :: left) where
  split := by
    obtain ⟨part, hsent, hwire, -⟩ := h.split
    refine ⟨part ++ m.payload.take n, ?_, ?_, fun hnil => by cases hnil⟩
    · rw [hsent, whole, whole]
      simp
    · rw [hwire, List.append_assoc]
  filled := by
    intro m' hm'
    rcases List.mem_cons.mp hm' with rfl | hm'
    · intro hnil
      have := congrArg List.length hnil
      simp only [List.length_drop, List.length_nil] at this
      omega
    · exact h.filled m' (List.mem_cons_of_mem m hm')

end Outbox

end Infra
