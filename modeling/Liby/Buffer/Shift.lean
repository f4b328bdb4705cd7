import Liby.Buffer.ByteQueue

/-!
# Moving the window of a Buffer

`forward`, `backward` and `prepend` move the window inside its block. Each is compared with what it
is for: the window moves by the offset and keeps what still has a place in the block, or it grows to
the left by the bytes prepended. They do so in some of the cases of the source and not in others,
and the conditions below say in which.
-/

namespace Liby.Buffer

open Infra

variable {b b' : Buffer} {block block' buf : Bytes} {dst src n k l r : Nat}

/-! ## A window in a block after a move -/

theorem Wf.block_ok (h : b.Wf) (hpos : 0 < b.capacity_) :
    ∃ block, b.buffer_ = some block ∧ b.block = .ok block ∧ block.length = b.capacity_ := by
  obtain ⟨block, hb⟩ := h.block_of_pos hpos
  refine ⟨block, hb, ?_, h.block block hb⟩
  unfold Buffer.block
  rw [hb]

theorem Wf.moved (h : b.Wf) (hb : b.buffer_ = some block)
    (hmove : Block.move block dst src n = .ok block') (hlr : l ≤ r) (hr : r ≤ b.capacity_) :
    Wf { b with buffer_ := some block', leftIndex_ := l, rightIndex_ := r } where
  left_le := hlr
  right_le := hr
  block := by
    intro block'' hblock
    cases hblock
    exact (Block.move_ok hmove).1.trans (h.block block hb)
  noBlock := fun hnone => by cases hnone

/-- The window is where the bytes were moved to. -/
theorem contents_moved (hmove : Block.move block dst src n = .ok block') (hr : r = dst + n) :
    contents { b with buffer_ := some block', leftIndex_ := dst, rightIndex_ := r }
      = Block.slice block src n := by
  unfold contents
  dsimp only
  rw [hr, Nat.add_sub_cancel_left, (Block.move_ok hmove).2.1]

/-- What is behind the bytes that were moved is as before. -/
theorem slice_moved (hmove : Block.move block dst src n = .ok block') (m : Nat) :
    Block.slice block' dst (n + m) = Block.slice block src n ++ Block.slice block (dst + n) m := by
  obtain ⟨-, hslice, hdrop⟩ := Block.move_ok hmove
  rw [Block.slice_add, hslice]
  unfold Block.slice
  rw [hdrop]

theorem contents_drop (hb : b.buffer_ = some block) (m : Nat) :
    b.contents.drop m = Block.slice block (b.leftIndex_ + m) (b.rightIndex_ - b.leftIndex_ - m) := by
  rw [contents_of_block hb, Block.slice_drop]

theorem contents_take (hb : b.buffer_ = some block) {m : Nat} (hm : m ≤ b.rightIndex_ - b.leftIndex_) :
    b.contents.take m = Block.slice block b.leftIndex_ m := by
  rw [contents_of_block hb]
  unfold Block.slice
  rw [List.take_take, min_eq_left hm]

/-- An empty window at the end of the block. -/
theorem Wf.atEnd (h : b.Wf) :
    Wf { b with leftIndex_ := b.capacity_, rightIndex_ := b.capacity_ } ∧
      contents { b with leftIndex_ := b.capacity_, rightIndex_ := b.capacity_ } = [] := by
  refine ⟨⟨le_rfl, le_rfl, h.block, h.noBlock⟩, ?_⟩
  unfold contents
  dsimp only
  rw [Nat.sub_self]
  split
  · rfl
  · exact List.take_zero

/-! ## forward -/

/--
`b'` is `b` with its window moved down by `k`, or to the start of the block for `k = 0`. The bytes
that stay are those that still have a place in the block.
-/
structure ShiftedForward (b : Buffer) (k : Nat) (b' : Buffer) : Prop where
  wf : b'.Wf
  capacity : b'.capacity_ = b.capacity_
  left : b'.leftIndex_ = if k = 0 then 0 else b.leftIndex_ - k
  right : b'.rightIndex_ = if k = 0 then b.rightIndex_ - b.leftIndex_ else b.rightIndex_ - k
  contents : b'.contents = b.contents.drop (k - b.leftIndex_)

/--
`forward(k)` drops no byte, or all of them, or it takes the bytes that stay from the right place: from
`rightIndex_ - k` on there lie the same bytes as from `k` on.
-/
def ForwardCopies (b : Buffer) (k : Nat) : Prop :=
  k ≤ b.leftIndex_ ∨ b.rightIndex_ ≤ k ∨
    (2 * (b.rightIndex_ - k) ≤ b.capacity_ ∧ ∀ block ∈ b.buffer_,
      Block.slice block (b.rightIndex_ - k) (b.rightIndex_ - k)
        = Block.slice block k (b.rightIndex_ - k))

/-- `forward(k)` that drops no byte, or all of them. -/
theorem Wf.forwardBy_clean (h : b.Wf) (hk : k ≤ b.leftIndex_ ∨ b.rightIndex_ ≤ k) :
    ∃ b', b.forwardBy k = .ok b' ∧ ShiftedForward b k b' := by
  have hleft := h.left_le
  have hright := h.right_le
  have hsize := h.length_contents
  unfold forwardBy
  rw [guardOr_pos (Int.natCast_nonneg k), ok_bind]
  dsimp only
  rw [Int.toNat_natCast]
  split
  · next hzero =>
    obtain ⟨b', hb', hwf, hcontents, hl, hcap⟩ := h.forward_ok
    have hsize' := hwf.length_contents
    rw [hcontents, hsize, hl] at hsize'
    refine ⟨b', hb', hwf, hcap, by rw [if_pos hzero, hl], ?_, ?_⟩
    · rw [if_pos hzero]
      omega
    · rw [hcontents, hzero, Nat.zero_sub, List.drop_zero]
  · next hne =>
    split
    · next hall =>
      obtain ⟨hwf, hnil⟩ := h.clear_ok
      refine ⟨_, rfl, hwf, rfl, ?_, ?_, ?_⟩
      · rw [if_neg hne, Nat.sub_eq_zero_of_le (by omega)]
      · rw [if_neg hne, Nat.sub_eq_zero_of_le hall]
      · rw [List.drop_of_length_le (by omega)]
        exact hnil
    · next hsome =>
      have hnone : k ≤ b.leftIndex_ := hk.resolve_right hsome
      obtain ⟨block, hb, hblock, hlen⟩ := h.block_ok (by omega)
      obtain ⟨block', hmove⟩ := (Block.move_returns block (b.leftIndex_ - k) b.leftIndex_
        (b.rightIndex_ - b.leftIndex_)).mpr (by omega)
      rw [if_pos hnone, hblock, ok_bind, hmove]
      refine ⟨_, rfl, h.moved hb hmove (by omega) (by omega), rfl, (if_neg hne).symm,
        (if_neg hne).symm, ?_⟩
      rw [contents_moved hmove (by omega), Nat.sub_eq_zero_of_le hnone, List.drop_zero,
        contents_of_block hb]

/-- `forward(k)` that drops a part of the window. -/
theorem Wf.forwardBy_part (h : b.Wf) (hl : b.leftIndex_ < k) (hr : k < b.rightIndex_) :
    ∃ block, b.buffer_ = some block ∧ block.length = b.capacity_ ∧ b.forwardBy k = (do
      let block ← Block.move block 0 (b.rightIndex_ - k) (b.rightIndex_ - k)
      return { b with buffer_ := some block, leftIndex_ := 0, rightIndex_ := b.rightIndex_ - k }) := by
  have hright := h.right_le
  obtain ⟨block, hb, hblock, hlen⟩ := h.block_ok (by omega)
  refine ⟨block, hb, hlen, ?_⟩
  unfold forwardBy
  rw [guardOr_pos (Int.natCast_nonneg k), ok_bind]
  dsimp only
  rw [Int.toNat_natCast, if_neg (by omega), if_neg (by omega), if_neg (by omega), hblock, ok_bind]

/-- **`forward(k)` keeps the bytes that still have a place exactly if it takes them from the right place.** -/
theorem Wf.forwardBy_iff (h : b.Wf) (k : Nat) :
    (∃ b', b.forwardBy k = .ok b' ∧ ShiftedForward b k b') ↔ b.ForwardCopies k := by
  by_cases hclean : k ≤ b.leftIndex_ ∨ b.rightIndex_ ≤ k
  · exact iff_of_true (h.forwardBy_clean hclean) (hclean.imp_right .inl)
  obtain ⟨hl, hr⟩ := not_or.mp hclean
  have hright := h.right_le
  obtain ⟨block, hb, hlen, hrun⟩ := h.forwardBy_part (k := k) (by omega) (by omega)
  have hstay : b.contents.drop (k - b.leftIndex_) = Block.slice block k (b.rightIndex_ - k) := by
    rw [contents_drop hb]
    congr 1 <;> omega
  rw [hrun]
  constructor
  · rintro ⟨b', hb', hshift⟩
    obtain ⟨block', hmove, hb'⟩ := bind_eq_ok.mp hb'
    cases hb'
    have hbounds := (Block.move_returns _ _ _ _).mp ⟨block', hmove⟩
    refine .inr (.inr ⟨by omega, fun block'' hblock'' => ?_⟩)
    rw [hb] at hblock''
    cases hblock''
    rw [← hstay, ← hshift.contents, contents_moved hmove (by omega)]
  · rintro (hle | hle | ⟨hroom, hsame⟩)
    · exact absurd hle hl
    · exact absurd hle hr
    · obtain ⟨block', hmove⟩ := (Block.move_returns block 0 (b.rightIndex_ - k)
        (b.rightIndex_ - k)).mpr (by omega)
      have hne : k ≠ 0 := by omega
      rw [hmove]
      refine ⟨_, rfl, h.moved hb hmove (by omega) (by omega), rfl, ?_, (if_neg hne).symm, ?_⟩
      · have hall : b.leftIndex_ ≤ k := by omega
        rw [if_neg hne, Nat.sub_eq_zero_of_le hall]
      · rw [contents_moved hmove (by omega), hstay, hsame block hb]

/-- Wherever it takes them from, the window is in the block afterwards. -/
theorem Wf.forwardBy_wf (h : b.Wf) {offset : Int} (hb' : b.forwardBy offset = .ok b') : b'.Wf := by
  have hnonneg : 0 ≤ offset := by
    unfold forwardBy at hb'
    obtain ⟨u, hguard, -⟩ := bind_eq_ok.mp hb'
    exact guardOr_eq_ok.mp hguard
  obtain ⟨k, rfl⟩ := Int.eq_ofNat_of_zero_le hnonneg
  by_cases hclean : k ≤ b.leftIndex_ ∨ b.rightIndex_ ≤ k
  · obtain ⟨b'', hb'', hshift⟩ := h.forwardBy_clean hclean
    rw [hb''] at hb'
    cases hb'
    exact hshift.wf
  · have hright := h.right_le
    obtain ⟨block, hb, -, hrun⟩ := h.forwardBy_part (k := k) (by omega) (by omega)
    rw [hrun] at hb'
    obtain ⟨block', hmove, hb'⟩ := bind_eq_ok.mp hb'
    cases hb'
    exact h.moved hb hmove (by omega) (by omega)

/-! ## backward -/

/--
`b'` is `b` with its window moved up by `k`, or to the end of the block for `k = 0`. The bytes that
stay are those that still have a place in the block.
-/
structure ShiftedBackward (b : Buffer) (k : Nat) (b' : Buffer) : Prop where
  wf : b'.Wf
  capacity : b'.capacity_ = b.capacity_
  left : b'.leftIndex_ = if k = 0 then b.capacity_ - (b.rightIndex_ - b.leftIndex_)
    else min (b.leftIndex_ + k) b.capacity_
  right : b'.rightIndex_ = if k = 0 then b.capacity_ else min (b.rightIndex_ + k) b.capacity_
  contents : b'.contents = b.contents.take (b.capacity_ - (b.leftIndex_ + k))

/-- The room behind the window. -/
def room (b : Buffer) : Nat := b.capacity_ - b.rightIndex_

/--
`backward(0)` has nothing to move, or it moves as many bytes as there is room behind the window: the
window has that many, and the bytes behind them lie where they are to be already. `backward(k)` drops
no byte, or all of them, or as many as it is to leave out in front.
-/
def BackwardCopies (b : Buffer) (k : Nat) : Prop :=
  if k = 0 then
    b.rightIndex_ = b.capacity_ ∨ (b.room ≤ b.rightIndex_ - b.leftIndex_ ∧ ∀ block ∈ b.buffer_,
      Block.slice block (b.leftIndex_ + b.room + b.room) (b.rightIndex_ - b.leftIndex_ - b.room)
        = Block.slice block (b.leftIndex_ + b.room) (b.rightIndex_ - b.leftIndex_ - b.room))
  else
    b.capacity_ ≤ b.leftIndex_ + k ∨ b.rightIndex_ + k ≤ b.capacity_ ∨
      b.capacity_ = b.leftIndex_ + k + k

theorem Wf.take_all (h : b.Wf) : b.contents.take (b.capacity_ - b.leftIndex_) = b.contents := by
  have hright := h.right_le
  refine List.take_of_length_le ?_
  rw [h.length_contents]
  omega

/-- `backward(0)` of a window that is not at the end of the block. -/
theorem Wf.backward_zero (h : b.Wf) (hroom : b.rightIndex_ ≠ b.capacity_) :
    ∃ block, b.buffer_ = some block ∧ block.length = b.capacity_ ∧ b.backward 0 = (do
      let block ← Block.move block (b.leftIndex_ + b.room) b.leftIndex_ b.room
      return { b with
        buffer_ := some block
        leftIndex_ := b.leftIndex_ + b.room
        rightIndex_ := b.capacity_ }) := by
  have hright := h.right_le
  obtain ⟨block, hb, hblock, hlen⟩ := h.block_ok (by omega)
  refine ⟨block, hb, hlen, ?_⟩
  unfold backward
  rw [guardOr_pos le_rfl, ok_bind]
  dsimp only
  rw [Int.toNat_zero, if_pos rfl, if_neg hroom, hblock, ok_bind]
  rfl

/-- **`backward(0)` keeps the bytes exactly if it moves enough of them.** -/
theorem Wf.backward_zero_iff (h : b.Wf) :
    (∃ b', b.backward 0 = .ok b' ∧ ShiftedBackward b 0 b') ↔ b.BackwardCopies 0 := by
  have hleft := h.left_le
  have hright := h.right_le
  unfold BackwardCopies
  rw [if_pos rfl]
  by_cases hfull : b.rightIndex_ = b.capacity_
  · refine iff_of_true ⟨b, ?_, h, rfl, ?_, hfull, h.take_all.symm⟩ (.inl hfull)
    · unfold backward
      rw [guardOr_pos le_rfl, ok_bind]
      dsimp only
      rw [Int.toNat_zero, if_pos rfl, if_pos hfull]
      rfl
    · rw [if_pos rfl]
      omega
  obtain ⟨block, hb, hlen, hrun⟩ := h.backward_zero hfull
  have hroom : b.capacity_ = b.rightIndex_ + b.room := by
    unfold room
    omega
  -- the bytes that move, and those that the move leaves where they are
  have hsplit : b.room ≤ b.rightIndex_ - b.leftIndex_ → b.contents
      = Block.slice block b.leftIndex_ b.room ++
        Block.slice block (b.leftIndex_ + b.room) (b.rightIndex_ - b.leftIndex_ - b.room) := by
    intro hle
    rw [contents_of_block hb, ← Block.slice_add, Nat.add_sub_cancel' hle]
  have hmoved : ∀ block', Block.move block (b.leftIndex_ + b.room) b.leftIndex_ b.room = .ok block' →
      b.room ≤ b.rightIndex_ - b.leftIndex_ →
      contents { b with
          buffer_ := some block', leftIndex_ := b.leftIndex_ + b.room, rightIndex_ := b.capacity_ }
        = Block.slice block b.leftIndex_ b.room ++
          Block.slice block (b.leftIndex_ + b.room + b.room)
            (b.rightIndex_ - b.leftIndex_ - b.room) := by
    intro block' hmove hle
    rw [← slice_moved hmove]
    unfold contents
    dsimp only
    congr 1
    omega
  rw [hrun]
  constructor
  · rintro ⟨b', hb', hshift⟩
    obtain ⟨block', hmove, hb'⟩ := bind_eq_ok.mp hb'
    cases hb'
    have hbounds := (Block.move_returns _ _ _ _).mp ⟨block', hmove⟩
    have hle : b.room ≤ b.rightIndex_ - b.leftIndex_ := by omega
    refine .inr ⟨hle, fun block'' hblock'' => ?_⟩
    rw [hb] at hblock''
    cases hblock''
    -- the two have the bytes that move in common
    have hcontents := hshift.contents
    rw [Nat.add_zero, h.take_all, hmoved block' hmove hle, hsplit hle] at hcontents
    exact List.append_cancel_left hcontents
  · rintro (hend | ⟨hle, hsame⟩)
    · exact absurd hend hfull
    · obtain ⟨block', hmove⟩ := (Block.move_returns block (b.leftIndex_ + b.room) b.leftIndex_
        b.room).mpr (by omega)
      rw [hmove]
      refine ⟨_, rfl, h.moved hb hmove (by omega) le_rfl, rfl, ?_, rfl, ?_⟩
      · rw [if_pos rfl]
        dsimp only
        omega
      · rw [Nat.add_zero, h.take_all, hsplit hle, ← hsame block hb]
        exact hmoved block' hmove hle

/-- `backward(k)` that drops no byte, or all of them. -/
theorem Wf.backward_clean (h : b.Wf) (hne : k ≠ 0)
    (hk : b.capacity_ ≤ b.leftIndex_ + k ∨ b.rightIndex_ + k ≤ b.capacity_) :
    ∃ b', b.backward k = .ok b' ∧ ShiftedBackward b k b' := by
  have hleft := h.left_le
  have hright := h.right_le
  unfold backward
  rw [guardOr_pos (Int.natCast_nonneg k), ok_bind]
  dsimp only
  rw [Int.toNat_natCast, if_neg hne]
  split
  · next hall =>
    obtain ⟨hwf, hnil⟩ := h.atEnd
    refine ⟨_, rfl, hwf, rfl, ?_, ?_, ?_⟩
    · rw [if_neg hne, min_eq_right (by omega)]
    · rw [if_neg hne, min_eq_right (by omega)]
    · rw [hnil, Nat.sub_eq_zero_of_le (by omega), List.take_zero]
  · next hsome =>
    obtain ⟨block, hb, hblock, hlen⟩ := h.block_ok (by omega)
    obtain ⟨block', hmove⟩ := (Block.move_returns block (b.leftIndex_ + k) b.leftIndex_
      (b.rightIndex_ - b.leftIndex_)).mpr (by omega)
    rw [if_pos (by omega), hblock, ok_bind, hmove]
    refine ⟨_, rfl, h.moved hb hmove (by omega) (by omega), rfl, ?_, ?_, ?_⟩
    · rw [if_neg hne, min_eq_left (by omega)]
    · rw [if_neg hne, min_eq_left (by omega)]
    · rw [List.take_of_length_le (by rw [h.length_contents]; omega), contents_moved hmove (by omega),
        contents_of_block hb]

/-- `backward(k)` that drops a part of the window. -/
theorem Wf.backward_part (h : b.Wf) (hne : k ≠ 0) (hl : b.leftIndex_ + k < b.capacity_)
    (hr : b.capacity_ < b.rightIndex_ + k) :
    ∃ block block', b.buffer_ = some block ∧
      Block.move block (b.leftIndex_ + k) b.leftIndex_ (b.capacity_ - b.leftIndex_ - k) = .ok block' ∧
      b.backward k = .ok { b with
        buffer_ := some block'
        leftIndex_ := b.leftIndex_ + (b.capacity_ - b.leftIndex_ - k)
        rightIndex_ := b.capacity_ } := by
  have hright := h.right_le
  obtain ⟨block, hb, hblock, hlen⟩ := h.block_ok (by omega)
  obtain ⟨block', hmove⟩ := (Block.move_returns block (b.leftIndex_ + k) b.leftIndex_
    (b.capacity_ - b.leftIndex_ - k)).mpr (by omega)
  refine ⟨block, block', hb, hmove, ?_⟩
  unfold backward
  rw [guardOr_pos (Int.natCast_nonneg k), ok_bind]
  dsimp only
  rw [Int.toNat_natCast, if_neg hne, if_neg (by omega), if_neg (by omega), hblock, ok_bind, hmove]
  rfl

/-- **`backward(k)` keeps the bytes that still have a place exactly if it moves all that it has to.** -/
theorem Wf.backward_iff (h : b.Wf) (k : Nat) :
    (∃ b', b.backward k = .ok b' ∧ ShiftedBackward b k b') ↔ b.BackwardCopies k := by
  rcases Nat.eq_zero_or_pos k with rfl | hpos
  · exact h.backward_zero_iff
  have hne : k ≠ 0 := hpos.ne'
  unfold BackwardCopies
  rw [if_neg hne]
  by_cases hclean : b.capacity_ ≤ b.leftIndex_ + k ∨ b.rightIndex_ + k ≤ b.capacity_
  · exact iff_of_true (h.backward_clean hne hclean) (hclean.imp_right .inl)
  obtain ⟨hl, hr⟩ := not_or.mp hclean
  have hright := h.right_le
  obtain ⟨block, block', hb, hmove, hrun⟩ := h.backward_part hne (by omega) (by omega)
  rw [hrun]
  constructor
  · rintro ⟨b', hb', hshift⟩
    cases hb'
    have hleft := hshift.left
    rw [if_neg hne, min_eq_left (by omega)] at hleft
    dsimp only at hleft
    exact .inr (.inr (by omega))
  · rintro (hle | hle | heq)
    · exact absurd hle hl
    · exact absurd hle hr
    · have hn : b.capacity_ - b.leftIndex_ - k = k := by omega
      have hstay : b.capacity_ - (b.leftIndex_ + k) = k := by omega
      rw [hn] at hmove ⊢
      refine ⟨_, rfl, h.moved hb hmove (by omega) le_rfl, rfl, ?_, ?_, ?_⟩
      · rw [if_neg hne, min_eq_left (by omega)]
      · rw [if_neg hne, min_eq_right (by omega)]
      · rw [hstay, contents_take hb (by omega), contents_moved hmove heq]

/-- Whatever it moves, the window is in the block afterwards. -/
theorem Wf.backward_wf (h : b.Wf) {offset : Int} (hb' : b.backward offset = .ok b') : b'.Wf := by
  have hright := h.right_le
  have hnonneg : 0 ≤ offset := by
    unfold backward at hb'
    obtain ⟨u, hguard, -⟩ := bind_eq_ok.mp hb'
    exact guardOr_eq_ok.mp hguard
  obtain ⟨k, rfl⟩ := Int.eq_ofNat_of_zero_le hnonneg
  rcases Nat.eq_zero_or_pos k with rfl | hpos
  · by_cases hfull : b.rightIndex_ = b.capacity_
    · obtain ⟨b'', hb'', hshift⟩ := h.backward_zero_iff.mpr (.inl hfull)
      rw [Int.natCast_zero, hb''] at hb'
      cases hb'
      exact hshift.wf
    · obtain ⟨block, hb, hlen, hrun⟩ := h.backward_zero hfull
      rw [Int.natCast_zero, hrun] at hb'
      obtain ⟨block', hmove, hb'⟩ := bind_eq_ok.mp hb'
      cases hb'
      have hbounds := (Block.move_returns _ _ _ _).mp ⟨block', hmove⟩
      exact h.moved hb hmove (by omega) le_rfl
  · have hne : k ≠ 0 := hpos.ne'
    by_cases hclean : b.capacity_ ≤ b.leftIndex_ + k ∨ b.rightIndex_ + k ≤ b.capacity_
    · obtain ⟨b'', hb'', hshift⟩ := h.backward_clean hne hclean
      rw [hb''] at hb'
      cases hb'
      exact hshift.wf
    · obtain ⟨hl, hr⟩ := not_or.mp hclean
      obtain ⟨block, block', hb, hmove, hrun⟩ := h.backward_part hne (by omega) (by omega)
      rw [hrun] at hb'
      cases hb'
      exact h.moved hb hmove (by omega) le_rfl

/-! ## Every buffer, every offset -/

/--
**`forward` and `backward` only drop what falls off the ends, exactly if they copy the bytes that
stay.** They return the window where it is to be, with the bytes that still have a place in the block,
and the copy stays inside the block.
-/
theorem shifts_keep_iff (h : b.Wf) (k : Nat) :
    ((∃ b', b.forwardBy k = .ok b' ∧ ShiftedForward b k b') ↔ b.ForwardCopies k) ∧
      ((∃ b', b.backward k = .ok b' ∧ ShiftedBackward b k b') ↔ b.BackwardCopies k) :=
  ⟨h.forwardBy_iff k, h.backward_iff k⟩

/-- Seven bytes, moved by three in one direction and by four in the other. -/
theorem shifts_keep_seven :
    ((∃ b', (ofBytes [1, 2, 3, 4, 5, 6, 7]).forwardBy (3 : Nat) = .ok b' ∧
        ShiftedForward (ofBytes [1, 2, 3, 4, 5, 6, 7]) 3 b') ↔
      (ofBytes [1, 2, 3, 4, 5, 6, 7]).ForwardCopies 3) ∧
    ((∃ b', (ofBytes [1, 2, 3, 4, 5, 6, 7]).backward (3 : Nat) = .ok b' ∧
        ShiftedBackward (ofBytes [1, 2, 3, 4, 5, 6, 7]) 3 b') ↔
      (ofBytes [1, 2, 3, 4, 5, 6, 7]).BackwardCopies 3) :=
  shifts_keep_iff (wf_ofBytes [1, 2, 3, 4, 5, 6, 7]) 3

/--
`forward(1)` of three bytes reads behind the block, `backward(0)` of an empty buffer writes behind it,
and `backward(1)` of three bytes keeps one of them.
-/
theorem shifts_lose_bytes :
    (ofBytes [1, 2, 3]).forwardBy 1 = .error .outOfBounds ∧
      (ofLength 1).backward 0 = .error .outOfBounds ∧
      (∃ b', (ofBytes [1, 2, 3]).backward 1 = .ok b' ∧ b'.contents = [2]) ∧
      ¬∀ b : Buffer, b.Wf → ∀ k : Nat, (∃ b', b.forwardBy k = .ok b' ∧ ShiftedForward b k b') ∧
        ∃ b', b.backward k = .ok b' ∧ ShiftedBackward b k b' := by
  have hread : (ofBytes [1, 2, 3]).forwardBy 1 = .error .outOfBounds := by decide +kernel
  refine ⟨hread, by decide +kernel, ?_, fun hall => ?_⟩
  · have hsees : ((ofBytes [1, 2, 3]).backward 1).toOption.map contents = some [2] := by
      decide +kernel
    exact ok_of_toOption_map hsees
  · obtain ⟨b', hb', -⟩ := (hall _ (wf_ofBytes [1, 2, 3]) 1).1
    rw [Nat.cast_one, hread] at hb'
    cases hb'

end Liby.Buffer
