import Liby.Buffer.Contents
import Liby.Infra.Machine

/-!
# Buffers refine byte queues

The buffers of a program, made and changed by any sequence of the operations of `Buffer`, hold what
plain byte strings hold under the same operations. `Buffers` is the machine with the code's blocks
and indices, `ByteQueues` the one with the strings.
-/

namespace Liby

open Infra

/-- An operation of a program on its buffers, which are numbered in the order they are made. -/
inductive BufferOp where
  | ofLength (length : Nat)
  | ofBytes (buf : Bytes)
  | copyConstruct (that : Nat)
  | moveConstruct (that : Nat)
  | assign (i that : Nat)
  | swap (i that : Nat)
  | append (i : Nat) (buf : Bytes)
  | appendBuffer (i that : Nat)
  /-- `bytes` written at `wdata()`, and then `append(off_t)` of their number. -/
  | appendLength (i : Nat) (bytes : Bytes)
  | retrieveAll (i : Nat)
  | retrieve (i : Nat) (len : Int)
  | forward (i : Nat)
  | resize (i : Nat) (minSize : Int)
  | reserve (i : Nat) (minSize : Int)
  | retriveveAsString (i : Nat) (len : Int)
  deriving DecidableEq, Repr

/-- Sizes that stay in the range of `off_t` when they are doubled. -/
def BufferOp.InRange : BufferOp → Prop
  | .reserve _ minSize => minSize ≤ Buffer.maxBlock
  | _ => True

instance : DecidablePred BufferOp.InRange
  | .reserve _ minSize => inferInstanceAs (Decidable (minSize ≤ Buffer.maxBlock))
  | .ofLength _ | .ofBytes _ | .copyConstruct _ | .moveConstruct _ | .assign _ _ | .swap _ _
  | .append _ _ | .appendBuffer _ _ | .appendLength _ _ | .retrieveAll _ | .retrieve _ _
  | .forward _ | .resize _ _ | .retriveveAsString _ _ => isTrue trivial

/-! ## The reference -/

/-- Byte strings in the place of the buffers, and the strings that `retriveveAsString` returned. -/
structure ByteQueues where
  queues : List Bytes
  strings : List Bytes
  deriving DecidableEq, Repr

namespace ByteQueues

def init : ByteQueues := { queues := [], strings := [] }

def at_ (q : ByteQueues) (i : Nat) : Bytes := q.queues.getD i []

def set (q : ByteQueues) (i : Nat) (bytes : Bytes) : ByteQueues :=
  { q with queues := q.queues.set i bytes }

def make (q : ByteQueues) (bytes : Bytes) : ByteQueues :=
  { q with queues := q.queues ++ [bytes] }

def record (q : ByteQueues) (ret : Bytes) : ByteQueues :=
  { q with strings := q.strings ++ [ret] }

/-- What an operation does to the strings. -/
def next (q : ByteQueues) : BufferOp → ByteQueues
  | .ofLength _ => q.make []
  | .ofBytes buf => q.make buf
  | .copyConstruct that => q.make (q.at_ that)
  | .moveConstruct that => (q.set that []).make (q.at_ that)
  | .assign i that => q.set i (q.at_ that)
  | .swap i that => (q.set i (q.at_ that)).set that (q.at_ i)
  | .append i buf => q.set i (q.at_ i ++ buf)
  | .appendBuffer i that => q.set i (q.at_ i ++ q.at_ that)
  | .appendLength i bytes => q.set i (q.at_ i ++ bytes)
  | .retrieveAll i => q.set i []
  | .retrieve i len => q.set i ((q.at_ i).drop len.toNat)
  | .forward _ | .resize _ _ | .reserve _ _ => q
  | .retriveveAsString i len =>
    let n := Buffer.taken (q.at_ i) len
    (q.set i ((q.at_ i).drop n)).record ((q.at_ i).take n)

end ByteQueues

/-! ## The buffers -/

/-- The buffers of a program, and the strings that `retriveveAsString` returned. -/
structure Buffers where
  buffers : List Buffer
  strings : List Bytes
  deriving DecidableEq, Repr

namespace Buffers

def init : Buffers := { buffers := [], strings := [] }

def at_ (s : Buffers) (i : Nat) : Exec Buffer :=
  match s.buffers[i]? with
  | some b => .ok b
  | none => .error .environment

def set (s : Buffers) (i : Nat) (b : Buffer) : Buffers :=
  { s with buffers := s.buffers.set i b }

def make (s : Buffers) (b : Buffer) : Buffers :=
  { s with buffers := s.buffers ++ [b] }

def record (s : Buffers) (ret : Bytes) : Buffers :=
  { s with strings := s.strings ++ [ret] }

/-- A member function called on buffer `i`. -/
def update (s : Buffers) (i : Nat) (f : Buffer → Exec Buffer) : Exec Buffers := do
  let b ← s.at_ i
  let b ← f b
  return s.set i b

/-- What an operation does to the buffers. -/
def step (s : Buffers) : BufferOp → Exec Buffers
  | .ofLength length => .ok (s.make (Buffer.ofLength length))
  | .ofBytes buf => .ok (s.make (Buffer.ofBytes buf))
  | .copyConstruct that => do
    let b ← s.at_ that
    let b ← Buffer.copyConstruct b
    return s.make b
  | .moveConstruct that => do
    let b ← s.at_ that
    let (new, b) := Buffer.moveConstruct b
    return (s.set that b).make new
  | .assign i that =>
    -- `this == &that`
    if i = that then .ok s
    else do
      let b ← s.at_ that
      s.update i fun a => a.deepCopy b
  | .swap i that => do
    let a ← s.at_ i
    let b ← s.at_ that
    let (a, b) := a.swap b
    return (s.set i a).set that b
  | .append i buf => s.update i fun b => b.append buf
  | .appendBuffer i that => do
    let b ← s.at_ that
    s.update i fun a => a.appendBuffer b
  | .appendLength i bytes => s.update i fun b => do
    let b ← b.writeAtEnd bytes
    b.appendLength bytes.length
  | .retrieveAll i => s.update i fun b => .ok b.clear
  | .retrieve i len => s.update i fun b => b.retrieve len
  | .forward i => s.update i fun b => b.forward
  | .resize i minSize => s.update i fun b => b.resize minSize
  | .reserve i minSize => s.update i fun b => b.reserve minSize
  | .retriveveAsString i len => do
    let b ← s.at_ i
    let (ret, b) ← b.retriveveAsString len
    return (s.set i b).record ret

/-- Buffer `i` is there and has `P`. -/
def Has (s : Buffers) (i : Nat) (P : Buffer → Prop) : Prop := ∃ b ∈ s.buffers[i]?, P b

instance (s : Buffers) (i : Nat) (P : Buffer → Prop) [DecidablePred P] : Decidable (s.Has i P) :=
  inferInstanceAs (Decidable (∃ b ∈ s.buffers[i]?, P b))

/-- What the operations ask for: lengths that are not negative, bytes to append, another buffer to
append, the room that `availbleSize` gives, room to double, and bytes to make a string of. -/
def Allowed (s : Buffers) : BufferOp → Prop
  | .ofLength _ | .ofBytes _ => True
  | .copyConstruct that | .moveConstruct that => s.Has that fun _ => True
  | .assign i that | .swap i that => (s.Has i fun _ => True) ∧ s.Has that fun _ => True
  | .append i buf => s.Has i fun _ => buf ≠ []
  | .appendBuffer i that => i ≠ that ∧ (s.Has i fun _ => True) ∧ s.Has that fun _ => True
  | .appendLength i bytes =>
    s.Has i fun b => b.buffer_.isSome ∧ b.rightIndex_ + bytes.length ≤ b.capacity_
  | .retrieveAll i | .forward i | .resize i _ => s.Has i fun _ => True
  | .retrieve i len => s.Has i fun _ => 0 ≤ len
  | .reserve i _ => s.Has i fun b => 0 < b.capacity_
  | .retriveveAsString i len => s.Has i fun b => b.empty = false ∧ 0 ≤ len

instance (s : Buffers) : ∀ op, Decidable (s.Allowed op)
  | .ofLength _ | .ofBytes _ => isTrue trivial
  | .copyConstruct _ | .moveConstruct _ | .append _ _ | .appendLength _ _ | .retrieveAll _
  | .forward _ | .resize _ _ | .retrieve _ _ | .reserve _ _ | .retriveveAsString _ _ =>
    inferInstanceAs (Decidable (s.Has _ _))
  | .assign _ _ | .swap _ _ => inferInstanceAs (Decidable (s.Has _ _ ∧ s.Has _ _))
  | .appendBuffer _ _ => inferInstanceAs (Decidable (_ ≠ _ ∧ s.Has _ _ ∧ s.Has _ _))

/-- The contents of the buffers. -/
def contents (s : Buffers) : ByteQueues where
  queues := s.buffers.map Buffer.contents
  strings := s.strings

/-! ## One operation -/

/-- The buffers hold what the byte strings hold, within their blocks. -/
structure Holds (s : Buffers) (q : ByteQueues) : Prop where
  wf : ∀ b ∈ s.buffers, b.Wf
  contents : s.contents = q

theorem holds_init : Holds init ByteQueues.init where
  wf := by simp [init]
  contents := rfl

variable {s : Buffers} {q : ByteQueues} {i that : Nat} {P : Buffer → Prop}

/-- A buffer that is there. -/
theorem Holds.at_ok (h : Holds s q) (hi : s.Has i P) :
    ∃ b, s.at_ i = .ok b ∧ b.Wf ∧ P b ∧ q.at_ i = b.contents := by
  obtain ⟨b, hb, hp⟩ := hi
  refine ⟨b, ?_, h.wf b (List.mem_of_getElem? hb), hp, ?_⟩
  · unfold at_
    rw [hb]
  · rw [← h.contents]
    unfold ByteQueues.at_ Buffers.contents
    simp [Option.mem_def.mp hb]

/-- A string put back where it is. -/
theorem Holds.set_at_ (h : Holds s q) (hi : s.Has i P) : q.set i (q.at_ i) = q := by
  obtain ⟨b, hb, -⟩ := hi
  obtain ⟨hlt, -⟩ := List.getElem?_eq_some_iff.mp hb
  rw [← h.contents]
  unfold ByteQueues.set ByteQueues.at_ Buffers.contents
  simp only [List.getD_eq_getElem?_getD, List.getElem?_map, List.getElem?_eq_getElem hlt,
    Option.map_some, Option.getD_some]
  rw [← List.map_set, List.set_getElem_self]

theorem Holds.set (h : Holds s q) {b : Buffer} (hb : b.Wf) :
    Holds (s.set i b) (q.set i b.contents) where
  wf := by
    intro b' hb'
    rcases List.mem_or_eq_of_mem_set hb' with hmem | rfl
    · exact h.wf b' hmem
    · exact hb
  contents := by
    rw [← h.contents]
    unfold Buffers.set ByteQueues.set Buffers.contents
    rw [List.map_set]

theorem Holds.make (h : Holds s q) {b : Buffer} (hb : b.Wf) :
    Holds (s.make b) (q.make b.contents) where
  wf := by
    intro b' hb'
    rcases List.mem_append.mp hb' with hmem | hmem
    · exact h.wf b' hmem
    · rw [List.mem_singleton.mp hmem]
      exact hb
  contents := by
    rw [← h.contents]
    simp [Buffers.make, ByteQueues.make, Buffers.contents]

theorem Holds.record (h : Holds s q) (ret : Bytes) : Holds (s.record ret) (q.record ret) where
  wf := h.wf
  contents := by
    rw [← h.contents]
    rfl

/-- A member function that does to the contents what `g` does to a string. -/
theorem Holds.update_ok (h : Holds s q) (hi : s.Has i P) {f : Buffer → Exec Buffer}
    {g : Bytes → Bytes}
    (hf : ∀ b, b.Wf → P b → ∃ b', f b = .ok b' ∧ b'.Wf ∧ b'.contents = g b.contents) :
    ∃ s', s.update i f = .ok s' ∧ Holds s' (q.set i (g (q.at_ i))) := by
  obtain ⟨b, hb, hwf, hp, hat⟩ := h.at_ok hi
  obtain ⟨b', hb', hwf', hcontents⟩ := hf b hwf hp
  refine ⟨s.set i b', ?_, ?_⟩
  · unfold update
    rw [hb, ok_bind, hb']
    rfl
  · rw [hat, ← hcontents]
    exact h.set hwf'

/-- A member function that keeps the contents. -/
theorem Holds.update_keeps (h : Holds s q) (hi : s.Has i P) {f : Buffer → Exec Buffer}
    (hf : ∀ b, b.Wf → P b → ∃ b', f b = .ok b' ∧ b'.Wf ∧ b'.contents = b.contents) :
    ∃ s', s.update i f = .ok s' ∧ Holds s' q := by
  obtain ⟨s', hs', hholds⟩ := h.update_ok hi (g := id) hf
  rw [id_eq, h.set_at_ hi] at hholds
  exact ⟨s', hs', hholds⟩

/-- **An allowed operation does to the buffers what it does to the strings.** -/
theorem step_follows (op : BufferOp) (h : Holds s q) (hallowed : s.Allowed op) (hrange : op.InRange) :
    ∃ s', s.step op = .ok s' ∧ Holds s' (q.next op) := by
  cases op with
  | ofLength length => exact ⟨_, rfl, h.make (Buffer.wf_ofLength length)⟩
  | ofBytes buf =>
    have hmake := h.make (Buffer.wf_ofBytes buf)
    rw [Buffer.contents_ofBytes] at hmake
    exact ⟨_, rfl, hmake⟩
  | copyConstruct that =>
    obtain ⟨b, hb, hwf, -, hat⟩ := h.at_ok hallowed
    obtain ⟨new, hnew, hwf', hcontents⟩ := Buffer.wf_init.deepCopy_ok hwf
    refine ⟨s.make new, ?_, ?_⟩
    · simp only [step, Buffer.copyConstruct]
      rw [hb, ok_bind, hnew]
      rfl
    · show Holds _ (q.make (q.at_ that))
      rw [hat, ← hcontents]
      exact h.make hwf'
  | moveConstruct that =>
    obtain ⟨b, hb, hwf, -, hat⟩ := h.at_ok hallowed
    refine ⟨(s.set that Buffer.init).make b, ?_, ?_⟩
    · simp only [step]
      rw [hb]
      rfl
    · show Holds _ ((q.set that []).make (q.at_ that))
      rw [hat]
      exact (h.set Buffer.wf_init).make hwf
  | assign i that =>
    obtain ⟨hi, hthat⟩ := hallowed
    obtain ⟨b, hb, hwf, -, hat⟩ := h.at_ok hthat
    show ∃ s', (if i = that then _ else _) = _ ∧ Holds s' (q.set i (q.at_ that))
    split
    · next heq =>
      subst heq
      -- self-assignment returns at once
      exact ⟨s, rfl, by rw [h.set_at_ hi]; exact h⟩
    · rw [hb, ok_bind, hat]
      exact h.update_ok hi (g := fun _ => b.contents) fun a ha _ => ha.deepCopy_ok hwf
  | swap i that =>
    obtain ⟨hi, hthat⟩ := hallowed
    obtain ⟨a, ha, hwfa, -, hata⟩ := h.at_ok hi
    obtain ⟨b, hb, hwfb, -, hatb⟩ := h.at_ok hthat
    refine ⟨(s.set i b).set that a, ?_, ?_⟩
    · simp only [step]
      rw [ha, ok_bind, hb]
      rfl
    · show Holds _ ((q.set i (q.at_ that)).set that (q.at_ i))
      rw [hata, hatb]
      exact (h.set hwfb).set hwfa
  | append i buf =>
    exact h.update_ok hallowed (g := fun bytes => bytes ++ buf) fun b hb hne => hb.append_ok hne
  | appendBuffer i that =>
    obtain ⟨-, hi, hthat⟩ := hallowed
    obtain ⟨b, hb, hwf, -, hat⟩ := h.at_ok hthat
    simp only [step, ByteQueues.next]
    rw [hb, ok_bind, hat]
    exact h.update_ok hi (g := fun bytes => bytes ++ b.contents)
      fun a ha _ => ha.appendBuffer_ok hwf
  | appendLength i bytes =>
    refine h.update_ok hallowed (g := fun old => old ++ bytes) fun b hb hroom => ?_
    obtain ⟨block, hblock⟩ := Option.isSome_iff_exists.mp hroom.1
    obtain ⟨b1, b2, hwrite, happend, hwf, hcontents⟩ := hb.appendLength_ok hblock bytes hroom.2
    exact ⟨b2, by rw [hwrite, ok_bind, happend], hwf, hcontents⟩
  | retrieveAll i =>
    exact h.update_ok hallowed (g := fun _ => []) fun b hb _ => ⟨b.clear, rfl, hb.clear_ok⟩
  | retrieve i len =>
    refine h.update_ok hallowed (g := fun bytes => bytes.drop len.toNat) fun b hb hlen => ?_
    obtain ⟨b', hb', hwf, hcontents, -⟩ := hb.retrieve_ok len.toNat
    rw [Int.toNat_of_nonneg hlen] at hb'
    exact ⟨b', hb', hwf, hcontents⟩
  | forward i =>
    refine h.update_keeps hallowed fun b hb _ => ?_
    obtain ⟨b', hb', hwf, hcontents, -⟩ := hb.forward_ok
    exact ⟨b', hb', hwf, hcontents⟩
  | resize i minSize =>
    refine h.update_keeps hallowed fun b hb _ => ?_
    obtain ⟨b', hb', hwf, hcontents, -⟩ := hb.resize_ok minSize
    exact ⟨b', hb', hwf, hcontents⟩
  | reserve i minSize =>
    refine h.update_keeps hallowed fun b hb hpos => ?_
    obtain ⟨b', hb', hwf, hcontents, -⟩ := hb.reserve_ok hpos hrange
    exact ⟨b', hb', hwf, hcontents⟩
  | retriveveAsString i len =>
    obtain ⟨b, hb, hwf, ⟨hfull, hlen⟩, hat⟩ := h.at_ok hallowed
    -- the caller asks `empty()` before
    have hne : b.contents ≠ [] := by
      intro hnil
      rw [hwf.empty_iff.mpr hnil] at hfull
      cases hfull
    obtain ⟨b', hb', hwf', hcontents⟩ := hwf.retriveveAsString_ok hne hlen
    refine ⟨(s.set i b').record (b.contents.take (Buffer.taken b.contents len)), ?_, ?_⟩
    · simp only [step]
      rw [hb, ok_bind, hb', ok_bind]
      rfl
    · simp only [ByteQueues.next, hat, ← hcontents]
      exact (h.set hwf').record _

/-! ## Every sequence of operations -/

/--
**The buffers of a program refine byte queues.** Under every sequence of allowed operations, with no
`reserve` that asks for more than `maxBlock`, no copy leaves its block, the windows hold what the
byte strings hold, and they lie in their blocks.
-/
theorem run_refines {ops : List BufferOp} (h : Along step (fun s op => s.Allowed op ∧ op.InRange) init ops) :
    ∃ s, run step init ops = .ok s ∧ s.contents = ops.foldl ByteQueues.next ByteQueues.init ∧
      ∀ b ∈ s.buffers, b.leftIndex_ ≤ b.rightIndex_ ∧ b.rightIndex_ ≤ b.capacity_ ∧
        ∀ block ∈ b.buffer_, block.length = b.capacity_ := by
  obtain ⟨s, hs, hholds⟩ :=
    run_follows (fun _ _ op hr ha => step_follows op hr ha.1 ha.2) ops holds_init h
  refine ⟨s, hs, hholds.contents, fun b hb => ?_⟩
  have hwf := hholds.wf b hb
  exact ⟨hwf.left_le, hwf.right_le, hwf.block⟩

/-- A buffer that is written, copied, read, compacted, doubled and read again. -/
def mixedOps : List BufferOp :=
  [.ofLength 4, .appendLength 0 [1, 2, 3], .copyConstruct 0, .retrieve 0 2, .append 0 [4, 5, 6],
    .appendBuffer 0 1, .swap 0 1, .moveConstruct 1, .resize 1 2, .assign 1 2, .reserve 2 20,
    .retriveveAsString 2 3, .retriveveAsString 2 0, .retrieveAll 0, .forward 0]

theorem run_refines_mixed :
    ∃ s, run step init mixedOps = .ok s ∧
      s.contents = { queues := [[], [3, 4, 5, 6, 1, 2, 3], []], strings := [[3, 4, 5], [6, 1, 2, 3]] } ∧
      ∀ b ∈ s.buffers, b.leftIndex_ ≤ b.rightIndex_ ∧ b.rightIndex_ ≤ b.capacity_ ∧
        ∀ block ∈ b.buffer_, block.length = b.capacity_ := by
  have hallowed : Along step (fun s op => s.Allowed op ∧ op.InRange) init mixedOps := by decide +kernel
  exact run_refines hallowed

/-- More asked for than doubling leads to within `off_t`: the loop of `reserve` goes on for ever. -/
theorem reserve_out_of_range :
    run step init [.ofLength 1, .reserve 0 (2 ^ 62 + 1)] = .error .diverges ∧
      ¬∀ ops : List BufferOp, Along step Allowed init ops → ∃ s, run step init ops = .ok s := by
  have hrun : run step init [.ofLength 1, .reserve 0 (2 ^ 62 + 1)] = .error .diverges := by decide +kernel
  have hallowed : Along step Allowed init [.ofLength 1, .reserve 0 (2 ^ 62 + 1)] := by decide +kernel
  refine ⟨hrun, ?_⟩
  intro hall
  obtain ⟨s, hs⟩ := hall _ hallowed
  rw [hrun] at hs
  cases hs

end Buffers

end Liby
