import Liby.Buffer.Shift

/-!
# Prepending to a Buffer

`prepend` finds the room for the bytes in front of the window, makes it by moving the window up, or
takes a larger buffer. In the last case `append` gives that buffer a block without any room in it, and
the bytes are written in front of the block.
-/

namespace Liby

open Infra

namespace Buffer

variable {b b' : Buffer} {buf : Bytes}

/-- Bytes copied in front of the window, where there is room for them. -/
theorem Wf.safePreappend_ok (h : b.Wf) (hbuf : buf ≠ []) (hroom : buf.length ≤ b.leftIndex_) :
    ∃ b', b.safePreappend buf = .ok b' ∧ b'.Wf ∧ b'.contents = buf ++ b.contents := by
  have hpos := List.length_pos_iff.mpr hbuf
  have hleft := h.left_le
  have hright := h.right_le
  obtain ⟨block, hb, hblock, hlen⟩ := h.block_ok (by omega)
  obtain ⟨block', hwrite, hlen', -, hslice⟩ :=
    Block.write_ok block buf (b.leftIndex_ - buf.length) (by omega)
  have hdrop := Block.write_drop hwrite
  unfold safePreappend
  rw [guardOr_pos ⟨by simp [hb], hleft⟩, ok_bind, hblock, ok_bind, guardOr_pos hroom, ok_bind, hwrite,
    ok_bind]
  refine ⟨_, rfl, ⟨?_, hright, ?_, ?_⟩, ?_⟩
  · show b.leftIndex_ - buf.length ≤ b.rightIndex_
    omega
  · intro block'' hblock''
    cases hblock''
    rw [hlen', hlen]
  · intro hnone
    cases hnone
  · have hsum : b.rightIndex_ - (b.leftIndex_ - buf.length)
        = buf.length + (b.rightIndex_ - b.leftIndex_) := by omega
    have hstart : b.leftIndex_ - buf.length + buf.length = b.leftIndex_ := by omega
    rw [hstart] at hdrop
    show Block.slice block' (b.leftIndex_ - buf.length) (b.rightIndex_ - (b.leftIndex_ - buf.length)) = _
    rw [hsum, Block.slice_add, hslice, hstart, contents_of_block hb]
    unfold Block.slice
    rw [hdrop]

/-- Without the room the copy begins in front of the block. -/
theorem safePreappend_fails (hroom : b.leftIndex_ < buf.length) : b.safePreappend buf ≠ .ok b' := by
  intro h
  unfold safePreappend at h
  obtain ⟨u, -, h⟩ := bind_eq_ok.mp h
  obtain ⟨block, -, h⟩ := bind_eq_ok.mp h
  rw [guardOr_neg (by omega)] at h
  cases h

/-- A buffer that takes over what `b` holds has no room in front of it, however large it was made. -/
theorem Wf.appendBuffer_ofLength (h : b.Wf) (length : Nat) :
    ∃ nb, (ofLength length).appendBuffer b = .ok nb ∧ nb.leftIndex_ = 0 := by
  unfold appendBuffer
  split
  · exact ⟨ofLength length, rfl, rfl⟩
  · next hfull =>
    have hne : b.contents ≠ [] := fun hnil => hfull (h.empty_iff.mpr hnil)
    refine ⟨ofBytes b.contents, ?_, rfl⟩
    rw [h.data_eq hne, ok_bind]
    unfold append
    rw [guardOr_pos (List.length_pos_iff.mpr hne), ok_bind]
    rfl

/-- There is room for the bytes in the block. -/
theorem Wf.prepend_ok (h : b.Wf) (hbuf : buf ≠ [])
    (hroom : buf.length + b.contents.length ≤ b.capacity_) :
    ∃ b', b.prepend buf = .ok b' ∧ b'.Wf ∧ b'.contents = buf ++ b.contents := by
  have hpos := List.length_pos_iff.mpr hbuf
  have hleft := h.left_le
  have hright := h.right_le
  have hsize := h.length_contents
  unfold prepend
  rw [guardOr_pos hpos, ok_bind]
  split
  · next hhead => exact h.safePreappend_ok hbuf hhead
  · next hhead =>
    have hne : buf.length - b.leftIndex_ ≠ 0 := by omega
    -- the window moves up until the bytes fit in front of it, and loses none of its own
    obtain ⟨b1, hb1, hshift⟩ := h.backward_clean hne (.inr (by omega))
    have hl := hshift.left
    rw [if_neg hne, min_eq_left (by omega)] at hl
    have hcontents := hshift.contents
    rw [List.take_of_length_le (by omega)] at hcontents
    obtain ⟨b2, hb2, hwf, hcontents2⟩ := hshift.wf.safePreappend_ok hbuf (by omega)
    refine ⟨b2, ?_, hwf, by rw [hcontents2, hcontents]⟩
    rw [Int.natCast_sub (by omega)] at hb1
    rw [h.size_eq, ok_bind, if_pos hroom, hb1, ok_bind]
    exact hb2

/-- There is no room for the bytes in the block. -/
theorem Wf.prepend_fails (h : b.Wf) (hroom : b.capacity_ < buf.length + b.contents.length) :
    b.prepend buf ≠ .ok b' := by
  have hleft := h.left_le
  have hright := h.right_le
  have hsize := h.length_contents
  intro hb'
  unfold prepend at hb'
  obtain ⟨u, hguard, hb'⟩ := bind_eq_ok.mp hb'
  have hpos := guardOr_eq_ok.mp hguard
  rw [if_neg (by omega), h.size_eq, ok_bind, if_neg (by omega)] at hb'
  obtain ⟨nb, hnb, hzero⟩ := h.appendBuffer_ofLength (buf.length + b.contents.length)
  rw [hnb] at hb'
  have hlt : nb.leftIndex_ < buf.length := by omega
  exact safePreappend_fails hlt hb'

/-- A `prepend` that returns leaves the window in the block. -/
theorem Wf.prepend_wf (h : b.Wf) (hb' : b.prepend buf = .ok b') : b'.Wf := by
  have hbuf : buf ≠ [] := by
    unfold prepend at hb'
    obtain ⟨u, hguard, -⟩ := bind_eq_ok.mp hb'
    exact List.length_pos_iff.mp (guardOr_eq_ok.mp hguard)
  by_cases hroom : buf.length + b.contents.length ≤ b.capacity_
  · obtain ⟨b'', hb'', hwf, -⟩ := h.prepend_ok hbuf hroom
    rw [hb''] at hb'
    cases hb'
    exact hwf
  · exact absurd hb' (h.prepend_fails (by omega))

/--
**`prepend` puts bytes in front of the contents, exactly if the block has room for both.** Otherwise
it writes in front of its block.
-/
theorem prepend_iff (h : b.Wf) (hbuf : buf ≠ []) :
    (∃ b', b.prepend buf = .ok b' ∧ b'.contents = buf ++ b.contents ∧
      b'.leftIndex_ ≤ b'.rightIndex_ ∧ b'.rightIndex_ ≤ b'.capacity_ ∧
      ∀ block ∈ b'.buffer_, block.length = b'.capacity_) ↔
    buf.length + b.contents.length ≤ b.capacity_ := by
  constructor
  · rintro ⟨b', hb', -⟩
    by_contra hroom
    exact h.prepend_fails (by omega) hb'
  · intro hroom
    obtain ⟨b', hb', hwf, hcontents⟩ := h.prepend_ok hbuf hroom
    exact ⟨b', hb', hcontents, hwf.left_le, hwf.right_le, hwf.block⟩

theorem prepend_iff_ofLength :
    (∃ b', (ofLength 4).prepend [1, 2] = .ok b' ∧ b'.contents = [1, 2] ++ (ofLength 4).contents ∧
      b'.leftIndex_ ≤ b'.rightIndex_ ∧ b'.rightIndex_ ≤ b'.capacity_ ∧
      ∀ block ∈ b'.buffer_, block.length = b'.capacity_) ↔
    [(1 : UInt8), 2].length + (ofLength 4).contents.length ≤ (ofLength 4).capacity_ :=
  prepend_iff (wf_ofLength 4) (by decide)

/-- One byte in front of a buffer that holds one byte in a block of one byte. -/
theorem prepend_full :
    (ofBytes [1]).prepend [2] = .error .outOfBounds ∧
      ¬∀ (b : Buffer) (buf : Bytes), b.Wf → buf ≠ [] →
        ∃ b', b.prepend buf = .ok b' ∧ b'.contents = buf ++ b.contents := by
  have hfails : (ofBytes [1]).prepend [2] = .error .outOfBounds := by decide +kernel
  refine ⟨hfails, fun hall => ?_⟩
  obtain ⟨b', hb', -⟩ := hall (ofBytes [1]) [2] (wf_ofBytes [1]) (by decide)
  rw [hfails] at hb'
  cases hb'

end Buffer

/-! ## Every buffer of a program -/

/-- An operation on the buffers of a program, those that move the window among them. -/
inductive WindowOp where
  | call (op : BufferOp)
  | forward (i : Nat) (offset : Int)
  | backward (i : Nat) (offset : Int)
  | prepend (i : Nat) (buf : Bytes)
  deriving DecidableEq, Repr

namespace Buffers

variable {s s' : Buffers} {i : Nat}

/-- What an operation does to the buffers. -/
def stepWindow (s : Buffers) : WindowOp → Exec Buffers
  | .call op => s.step op
  | .forward i offset => s.update i fun b => b.forwardBy offset
  | .backward i offset => s.update i fun b => b.backward offset
  | .prepend i buf => s.update i fun b => b.prepend buf

/-- The calls that ask for something ask for it here as well. -/
def AllowedWindow (s : Buffers) : WindowOp → Prop
  | .call op => s.Allowed op
  | .forward _ _ | .backward _ _ | .prepend _ _ => True

/-- Every window lies in its block. -/
def Sound (s : Buffers) : Prop := ∀ b ∈ s.buffers, b.Wf

theorem Sound.update (h : s.Sound) {f : Buffer → Exec Buffer}
    (hf : ∀ b b', b.Wf → f b = .ok b' → b'.Wf) (hs' : s.update i f = .ok s') : s'.Sound := by
  unfold Buffers.update at hs'
  obtain ⟨b, hb, hs'⟩ := bind_eq_ok.mp hs'
  obtain ⟨b', hb', hs'⟩ := bind_eq_ok.mp hs'
  cases hs'
  have hmem : b ∈ s.buffers := by
    unfold at_ at hb
    split at hb
    · next hget =>
      cases hb
      exact List.mem_of_getElem? hget
    · cases hb
  intro b'' hb''
  rcases List.mem_or_eq_of_mem_set hb'' with hold | rfl
  · exact h b'' hold
  · exact hf b b'' (h b hmem) hb'

/-- An operation that returns leaves every window in its block. -/
theorem Sound.step (op : WindowOp) (h : s.Sound) (hallowed : s.AllowedWindow op)
    (hs' : s.stepWindow op = .ok s') : s'.Sound := by
  cases op with
  | call op =>
    by_cases hrange : op.InRange
    · have hholds : Holds s s.contents := ⟨h, rfl⟩
      obtain ⟨s'', hs'', hholds'⟩ := step_follows op hholds hallowed hrange
      have heq := hs''.symm.trans hs'
      cases heq
      exact hholds'.wf
    · -- a size out of range is asked of `reserve`
      cases op with
      | reserve i minSize => exact h.update (f := fun b => b.reserve minSize) (fun b b' hb hb' => hb.reserve_wf hb') hs'
      | _ => exact absurd trivial hrange
  | forward i offset => exact h.update (fun b b' hb hb' => hb.forwardBy_wf hb') hs'
  | backward i offset => exact h.update (fun b b' hb hb' => hb.backward_wf hb') hs'
  | prepend i buf => exact h.update (fun b b' hb hb' => hb.prepend_wf hb') hs'

/-- **The windows of a program's buffers stay in their blocks in every run that returns.** -/
theorem sound_of_run {ops : List WindowOp} (hallowed : Along stepWindow AllowedWindow init ops)
    (h : run stepWindow init ops = .ok s) : s.Sound :=
  run_invariant_along (fun _ op _ hs ha hs' => hs.step op ha hs') (by simp [Sound, init]) hallowed h

end Buffers

end Liby
