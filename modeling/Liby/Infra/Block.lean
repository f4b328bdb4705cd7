import Liby.Infra.Cursor

/-!
# Copies between blocks of memory

`memcpy` and `memmove` on a block, with both ends of the copy checked against it. A write is the
block with a slice of it replaced.
-/

namespace Infra.Block

/-- The `n` bytes of the block from `at_` on. -/
def slice (block : Bytes) (at_ n : Nat) : Bytes := (block.drop at_).take n

/-- `memcpy(block + at_, bytes, n)`. -/
def write (block : Bytes) (at_ : Nat) (bytes : Bytes) : Exec Bytes :=
  if at_ + bytes.length ≤ block.length then
    .ok (block.take at_ ++ bytes ++ block.drop (at_ + bytes.length))
  else .error .outOfBounds

/-- The source of a copy. -/
def read (block : Bytes) (at_ n : Nat) : Exec Bytes :=
  if at_ + n ≤ block.length then .ok (slice block at_ n) else .error .outOfBounds

/-- `memmove(block + dst, block + src, n)`. -/
def move (block : Bytes) (dst src n : Nat) : Exec Bytes := do
  let bytes ← read block src n
  write block dst bytes

theorem length_slice {block : Bytes} {at_ n : Nat} (h : at_ + n ≤ block.length) :
    (slice block at_ n).length = n := by
  unfold slice
  rw [List.length_take, List.length_drop]
  omega

theorem read_ok (block : Bytes) (at_ n : Nat) (h : at_ + n ≤ block.length) :
    read block at_ n = .ok (slice block at_ n) := if_pos h

/-- A write in bounds keeps the length, puts the bytes where they go and leaves the rest. -/
theorem write_ok (block bytes : Bytes) (at_ : Nat) (h : at_ + bytes.length ≤ block.length) :
    ∃ block', write block at_ bytes = .ok block' ∧ block'.length = block.length ∧
      block'.take at_ = block.take at_ ∧ slice block' at_ bytes.length = bytes := by
  have htake : (block.take at_).length = at_ := by
    rw [List.length_take]
    omega
  refine ⟨_, if_pos h, ?_, ?_, ?_⟩
  · simp only [List.length_append, List.length_take, List.length_drop]
    omega
  · rw [List.append_assoc, List.take_append_of_le_length (by omega), List.take_take, min_self]
  · unfold slice
    rw [List.append_assoc, List.drop_append_of_le_length (by omega), List.drop_of_length_le (by omega),
      List.nil_append, List.take_left]

/-- The bytes behind a write are as before. -/
theorem write_drop {block block' bytes : Bytes} {at_ : Nat} (h : write block at_ bytes = .ok block') :
    block'.drop (at_ + bytes.length) = block.drop (at_ + bytes.length) := by
  unfold write at h
  split at h
  · next hle =>
    cases h
    have hlen : (block.take at_ ++ bytes).length = at_ + bytes.length := by
      rw [List.length_append, List.length_take]
      omega
    rw [List.drop_append_of_le_length hlen.ge, List.drop_of_length_le hlen.le, List.nil_append]
  · cases h

/-- A move returns exactly if both ends of it lie in the block. -/
theorem move_returns (block : Bytes) (dst src n : Nat) :
    (∃ block', move block dst src n = .ok block') ↔
      src + n ≤ block.length ∧ dst + n ≤ block.length := by
  unfold move
  by_cases hsrc : src + n ≤ block.length
  · rw [read_ok block src n hsrc, ok_bind]
    unfold write
    rw [length_slice hsrc]
    by_cases hdst : dst + n ≤ block.length
    · rw [if_pos hdst]
      exact ⟨fun _ => ⟨hsrc, hdst⟩, fun _ => ⟨_, rfl⟩⟩
    · rw [if_neg hdst]
      exact ⟨fun ⟨_, h⟩ => (by cases h), fun h => absurd h.2 hdst⟩
  · unfold read
    rw [if_neg hsrc]
    exact ⟨fun ⟨_, h⟩ => (by cases h), fun h => absurd h.1 hsrc⟩

/-- **A move puts the bytes where they go and leaves what is behind them.** -/
theorem move_ok {block block' : Bytes} {dst src n : Nat} (h : move block dst src n = .ok block') :
    block'.length = block.length ∧ slice block' dst n = slice block src n ∧
      block'.drop (dst + n) = block.drop (dst + n) := by
  obtain ⟨hsrc, hdst⟩ := (move_returns block dst src n).mp ⟨block', h⟩
  unfold move at h
  rw [read_ok block src n hsrc, ok_bind] at h
  have hlen := length_slice hsrc
  obtain ⟨block'', hwrite, hlength, -, hslice⟩ := write_ok block (slice block src n) dst (by omega)
  have hdrop := write_drop hwrite
  rw [hwrite] at h
  cases h
  rw [hlen] at hslice hdrop
  exact ⟨hlength, hslice, hdrop⟩

theorem slice_take (block : Bytes) {at_ n m : Nat} (h : at_ + n ≤ m) :
    slice (block.take m) at_ n = slice block at_ n := by
  unfold slice
  rw [List.drop_take, List.take_take, min_eq_left (by omega)]

/-- Two slices side by side. -/
theorem slice_add (block : Bytes) (at_ n m : Nat) :
    slice block at_ (n + m) = slice block at_ n ++ slice block (at_ + n) m := by
  unfold slice
  rw [List.take_add, List.drop_drop]

theorem slice_drop (block : Bytes) (at_ n m : Nat) :
    (slice block at_ n).drop m = slice block (at_ + m) (n - m) := by
  unfold slice
  rw [List.drop_take, List.drop_drop]

end Infra.Block
