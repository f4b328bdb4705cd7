import Liby.Buffer.Buffer

/-!
# A Buffer is a queue of bytes

`contents` is the window as a list. On a buffer whose window lies in its block (`Wf`) the
operations do to the contents what they do to a queue of bytes, and none of them leaves the
block.
-/

namespace Liby.Buffer

open Infra

/-- The bytes in the window. -/
def contents (b : Buffer) : Bytes :=
  match b.buffer_ with
  | none => []
  | some block => Block.slice block b.leftIndex_ (b.rightIndex_ - b.leftIndex_)

/-- The window lies in the block, and `capacity_` is the length of the block. -/
structure Wf (b : Buffer) : Prop where
  left_le : b.leftIndex_ ≤ b.rightIndex_
  right_le : b.rightIndex_ ≤ b.capacity_
  block : ∀ block ∈ b.buffer_, block.length = b.capacity_
  noBlock : b.buffer_ = none → b.capacity_ = 0

theorem wf_init : Wf init where
  left_le := le_rfl
  right_le := le_rfl
  block := fun _ h => by cases h
  noBlock := fun _ => rfl

theorem wf_ofLength (length : Nat) : Wf (ofLength length) where
  left_le := le_rfl
  right_le := Nat.zero_le _
  block := fun block h => by
    cases h
    exact List.length_replicate
  noBlock := fun h => by cases h

theorem wf_ofBytes (buf : Bytes) : Wf (ofBytes buf) where
  left_le := Nat.zero_le _
  right_le := le_rfl
  block := fun block h => by
    cases h
    rfl
  noBlock := fun h => by cases h

@[simp] theorem contents_ofBytes (buf : Bytes) : (ofBytes buf).contents = buf := by
  simp [contents, ofBytes, Block.slice]

@[simp] theorem contents_init : init.contents = [] := rfl

variable {b : Buffer}

theorem Wf.length_contents (h : Wf b) : b.contents.length = b.rightIndex_ - b.leftIndex_ := by
  unfold contents
  split
  · next hnone =>
    have h0 := h.noBlock hnone
    have := h.right_le
    simp only [List.length_nil]
    omega
  · next block hsome =>
    refine Block.length_slice ?_
    have hlen := h.block block hsome
    have := h.left_le
    have := h.right_le
    omega

theorem Wf.size_eq (h : Wf b) : b.size = .ok b.contents.length := by
  unfold size
  rw [guardOr_pos h.left_le, h.length_contents]
  rfl

theorem Wf.empty_iff (h : Wf b) : b.empty = true ↔ b.contents = [] := by
  rw [← List.length_eq_zero_iff, h.length_contents]
  have := h.left_le
  unfold empty
  rw [beq_iff_eq]
  omega

/-- A buffer with bytes in it has a block. -/
theorem block_of_ne (hne : b.contents ≠ []) : ∃ block, b.buffer_ = some block := by
  cases hb : b.buffer_ with
  | some block => exact ⟨block, rfl⟩
  | none =>
    refine absurd ?_ hne
    unfold contents
    rw [hb]

theorem contents_of_block {block : Bytes} (hb : b.buffer_ = some block) :
    b.contents = Block.slice block b.leftIndex_ (b.rightIndex_ - b.leftIndex_) := by
  unfold contents
  rw [hb]

theorem Wf.data_of_block (h : Wf b) {block : Bytes} (hb : b.buffer_ = some block) :
    b.data = .ok b.contents := by
  have hlen := h.block block hb
  have hleft := h.left_le
  have hright := h.right_le
  unfold data Buffer.block
  rw [guardOr_pos ⟨by simp [hb], hleft⟩, ok_bind, hb, contents_of_block hb]
  exact Block.read_ok block _ _ (by omega)

/-- **`data` gives the contents.** -/
theorem Wf.data_eq (h : Wf b) (hne : b.contents ≠ []) : b.data = .ok b.contents := by
  obtain ⟨block, hb⟩ := block_of_ne hne
  exact h.data_of_block hb

/-- The contents lie in the block between `data()` and `data() + size()`. -/
theorem Wf.range_eq (h : Wf b) (hne : b.contents ≠ []) :
    ∃ block, b.range = .ok (block, b.leftIndex_, b.rightIndex_) ∧ b.leftIndex_ < b.rightIndex_ ∧
      b.rightIndex_ ≤ block.length ∧
      Cursor.window block b.leftIndex_ b.rightIndex_ = b.contents := by
  obtain ⟨block, hb⟩ := block_of_ne hne
  have hlen := h.block block hb
  have hleft := h.left_le
  have hright := h.right_le
  have hpos := List.length_pos_iff.mpr hne
  rw [h.length_contents] at hpos
  refine ⟨block, ?_, by omega, by omega, ?_⟩
  · unfold range Buffer.block
    rw [guardOr_pos ⟨by simp [hb], hleft⟩, ok_bind, hb]
    rfl
  · rw [contents_of_block hb]
    exact List.drop_take

/-- A buffer without its bytes. -/
theorem Wf.clear_ok (h : Wf b) : Wf b.clear ∧ b.clear.contents = [] := by
  refine ⟨⟨le_rfl, Nat.zero_le _, h.block, h.noBlock⟩, ?_⟩
  unfold contents clear
  dsimp only
  split
  · rfl
  · exact List.take_zero

/-- **`retrieve` drops bytes from the front.** -/
theorem Wf.retrieve_ok (h : Wf b) (len : Nat) :
    ∃ b', b.retrieve len = .ok b' ∧ Wf b' ∧ b'.contents = b.contents.drop len ∧
      b'.capacity_ = b.capacity_ := by
  have hleft := h.left_le
  have hright := h.right_le
  have hlen := h.length_contents
  unfold retrieve
  rw [guardOr_pos (Int.natCast_nonneg len), ok_bind, h.size_eq, ok_bind]
  split
  · next hzero =>
    refine ⟨b, rfl, h, ?_, rfl⟩
    rw [List.length_eq_zero_iff.mp hzero, List.drop_nil]
  · next hpos =>
    split
    · next hlt =>
      obtain ⟨hwf, hnil⟩ := h.clear_ok
      exact ⟨b.clear, rfl, hwf, by rw [List.drop_of_length_le (by omega), hnil], rfl⟩
    · next hge =>
      refine ⟨_, rfl, ⟨?_, hright, h.block, h.noBlock⟩, ?_, rfl⟩
      · show b.leftIndex_ + len ≤ b.rightIndex_
        omega
      · obtain ⟨block, hb⟩ := block_of_ne fun hnil => hpos (List.length_eq_zero_iff.mpr hnil)
        rw [contents_of_block hb, Block.slice_drop]
        unfold contents
        dsimp only
        rw [hb]
        show Block.slice block (b.leftIndex_ + len) (b.rightIndex_ - (b.leftIndex_ + len)) = _
        rw [Nat.sub_sub]

/-- A buffer with room in it has a block. -/
theorem Wf.block_of_pos (h : Wf b) (hpos : 0 < b.capacity_) : ∃ block, b.buffer_ = some block := by
  cases hb : b.buffer_ with
  | some block => exact ⟨block, rfl⟩
  | none =>
    rw [h.noBlock hb] at hpos
    exact absurd hpos (lt_irrefl 0)

/-- The window moves to the start of the block and keeps its bytes. -/
theorem Wf.forward_ok (h : Wf b) :
    ∃ b', b.forward = .ok b' ∧ Wf b' ∧ b'.contents = b.contents ∧ b'.leftIndex_ = 0 ∧
      b'.capacity_ = b.capacity_ := by
  have hleft := h.left_le
  have hright := h.right_le
  unfold forward
  split
  · next hzero => exact ⟨b, rfl, h, rfl, hzero, rfl⟩
  · next hne =>
    obtain ⟨block, hb⟩ := h.block_of_pos (by omega)
    have hlen := h.block block hb
    have hcont := contents_of_block hb
    have hsize : b.contents.length = b.rightIndex_ - b.leftIndex_ := h.length_contents
    have hread := Block.read_ok block b.leftIndex_ b.contents.length (by omega)
    obtain ⟨block', hwrite, hlen', -, hslice⟩ :=
      Block.write_ok block b.contents 0 (by omega)
    unfold Block.move Buffer.block
    rw [h.size_eq, ok_bind, hb]
    dsimp only
    rw [ok_bind, hread, ok_bind, hsize, ← hcont, hwrite, ok_bind]
    refine ⟨_, rfl, ⟨Nat.zero_le _, ?_, ?_, ?_⟩, ?_, rfl, rfl⟩
    · show b.rightIndex_ - b.leftIndex_ ≤ b.capacity_
      omega
    · intro block'' hb''
      cases hb''
      rw [hlen', hlen]
    · intro hnone
      cases hnone
    · show Block.slice block' 0 (b.rightIndex_ - b.leftIndex_ - 0) = b.contents
      rw [Nat.sub_zero, ← hsize, hslice]

/-- Below the highest bits a shift doubles. -/
theorem shl_eq {n : Int} (hpos : 0 ≤ n) (hlt : n < 2 ^ 62) : shl n = 2 * n :=
  Int.bmod_eq_of_le_mul_two (by omega) (by omega)

theorem doublingPass_lt {minSize newSize : Int} (h : newSize < minSize) :
    doublingPass minSize newSize = .ok (.next (shl newSize)) := if_pos h

theorem doublingPass_ge {minSize newSize : Int} (h : minSize ≤ newSize) :
    doublingPass minSize newSize = .ok (.done newSize) := if_neg (by omega)

/-- As many doublings as lead to `minSize` are enough. -/
theorem passes_doubling {minSize : Int} (hmin : minSize ≤ 2 ^ 62) : ∀ (k : Nat) {newSize : Int},
    0 < newSize → minSize ≤ 2 ^ k * newSize →
    ∃ n, Loop.passes (doublingPass minSize) (k + 1) newSize = some (.ok n) ∧ minSize ≤ n := by
  intro k
  induction k with
  | zero =>
    intro newSize _ hle
    rw [pow_zero, one_mul] at hle
    exact ⟨newSize, Loop.passes_done (doublingPass_ge hle), hle⟩
  | succ k ih =>
    intro newSize hpos hle
    by_cases hlt : newSize < minSize
    · have hshl : shl newSize = 2 * newSize := shl_eq (by omega) (by omega)
      have hle' : minSize ≤ 2 ^ k * shl newSize := by
        rw [hshl, ← mul_assoc, ← pow_succ]
        exact hle
      obtain ⟨n, hn, hnle⟩ := ih (by omega) hle'
      exact ⟨n, Loop.passes_next (doublingPass_lt hlt) hn, hnle⟩
    · rw [Loop.passes, doublingPass_ge (by omega)]
      exact ⟨newSize, rfl, by omega⟩

/-- The loop ends if no shift leaves the range of `off_t`. -/
theorem doubled_ok {minSize newSize : Int} (hpos : 0 < newSize) (hmin : minSize ≤ 2 ^ 62) :
    ∃ n, doubled newSize minSize = .ok n ∧ minSize ≤ n := by
  obtain ⟨n, hn, hle⟩ := passes_doubling hmin 64 hpos (by omega)
  refine ⟨n, ?_, hle⟩
  unfold doubled
  rw [hn]
  rfl

/-- The bytes that a copy of the whole window reads. -/
theorem Wf.source_eq (h : Wf b) : b.source b.contents.length = .ok b.contents := by
  unfold source Buffer.block
  split
  · next hzero => rw [List.length_eq_zero_iff.mp hzero]
  · next hne =>
    obtain ⟨block, hb⟩ := block_of_ne fun hnil => hne (List.length_eq_zero_iff.mpr hnil)
    have hlen := h.block block hb
    have hleft := h.left_le
    have hright := h.right_le
    have hsize := h.length_contents
    rw [hb]
    dsimp only
    rw [ok_bind, Block.read_ok block _ _ (by omega), hsize, contents_of_block hb]

/-- A larger block holds the same window. -/
theorem Wf.resize_ok (h : Wf b) (minSize : Int) :
    ∃ b', b.resize minSize = .ok b' ∧ Wf b' ∧ b'.contents = b.contents ∧
      b'.rightIndex_ = b.rightIndex_ ∧ b'.leftIndex_ = b.leftIndex_ ∧ minSize ≤ b'.capacity_ := by
  have hleft := h.left_le
  have hright := h.right_le
  unfold resize
  split
  · next hlt => exact ⟨b, rfl, h, rfl, rfl, rfl, by omega⟩
  · next hge =>
    have hsize := h.length_contents
    have hnew : (newBlock minSize.toNat).length = minSize.toNat := List.length_replicate
    obtain ⟨block', hwrite, hlen', -, hslice⟩ :=
      Block.write_ok (newBlock minSize.toNat) b.contents b.leftIndex_ (by omega)
    rw [h.size_eq, ok_bind, h.source_eq, ok_bind, hwrite, ok_bind]
    refine ⟨_, rfl, ⟨hleft, ?_, ?_, ?_⟩, ?_, rfl, rfl, ?_⟩
    · show b.rightIndex_ ≤ minSize.toNat
      omega
    · intro block'' hb''
      cases hb''
      rw [hlen', hnew]
    · intro hnone
      cases hnone
    · show Block.slice block' b.leftIndex_ (b.rightIndex_ - b.leftIndex_) = b.contents
      rw [← hsize, hslice]
    · show minSize ≤ (minSize.toNat : Int)
      omega

/-- `reserve` ends and gives the room asked for, on a buffer that has room for something. -/
theorem Wf.reserve_ok (h : Wf b) (hpos : 0 < b.capacity_) {minSize : Int} (hmin : minSize ≤ maxBlock) :
    ∃ b', b.reserve minSize = .ok b' ∧ Wf b' ∧ b'.contents = b.contents ∧
      b'.rightIndex_ = b.rightIndex_ ∧ b'.leftIndex_ = b.leftIndex_ ∧ minSize ≤ b'.capacity_ := by
  have hlimit : (maxBlock : Int) = 2 ^ 61 := rfl
  unfold reserve
  split
  · next hlt => exact ⟨b, rfl, h, rfl, rfl, rfl, by omega⟩
  · have hshl : shl b.capacity_ = 2 * b.capacity_ := shl_eq (by omega) (by omega)
    have hroom : 0 < shl b.capacity_ := by omega
    have hmin' : minSize ≤ 2 ^ 62 := by omega
    obtain ⟨n, hn, hle⟩ := doubled_ok hroom hmin'
    obtain ⟨b', hb', hwf, hcont, hr, hl, hcap⟩ := h.resize_ok n
    refine ⟨b', ?_, hwf, hcont, hr, hl, by omega⟩
    rw [hn, ok_bind, hb']

/-- `reserve` leaves the window in its block whenever it returns. -/
theorem Wf.reserve_wf (h : Wf b) {minSize : Int} {b' : Buffer} (hb' : b.reserve minSize = .ok b') :
    Wf b' := by
  unfold reserve at hb'
  split at hb'
  · cases hb'
    exact h
  · obtain ⟨n, -, hb'⟩ := bind_eq_ok.mp hb'
    obtain ⟨b'', hb'', hwf, -⟩ := h.resize_ok n
    cases hb''.symm.trans hb'
    exact hwf

/-- `append` makes room, also for more than memory holds. -/
theorem Wf.grow_ok (h : Wf b) (hpos : 0 < b.capacity_) (minSize : Nat) :
    ∃ b', b.grow minSize = .ok b' ∧ Wf b' ∧ b'.contents = b.contents ∧ b'.rightIndex_ = b.rightIndex_ ∧
      b'.leftIndex_ = b.leftIndex_ ∧ minSize ≤ b'.capacity_ := by
  unfold grow
  split
  · next hle =>
    have hle' : (minSize : Int) ≤ maxBlock := by exact_mod_cast hle
    obtain ⟨b', hb', hwf, hcont, hr, hl, hcap⟩ := h.reserve_ok hpos hle'
    exact ⟨b', hb', hwf, hcont, hr, hl, by omega⟩
  · obtain ⟨b', hb', hwf, hcont, hr, hl, hcap⟩ := h.resize_ok minSize
    exact ⟨b', hb', hwf, hcont, hr, hl, by omega⟩

/-- Bytes copied behind the window, where there is room for them. -/
theorem Wf.safeAppend_ok (h : Wf b) {block : Bytes} (hb : b.buffer_ = some block) (buf : Bytes)
    (hroom : b.rightIndex_ + buf.length ≤ b.capacity_) :
    ∃ b', b.safeAppend buf = .ok b' ∧ Wf b' ∧ b'.contents = b.contents ++ buf := by
  have hlen := h.block block hb
  have hleft := h.left_le
  have hright := h.right_le
  have hcont := contents_of_block hb
  obtain ⟨block', hwrite, hlen', htake, hslice⟩ :=
    Block.write_ok block buf b.rightIndex_ (by omega)
  unfold safeAppend Buffer.block
  rw [hb]
  dsimp only
  rw [ok_bind, hwrite, ok_bind]
  refine ⟨_, rfl, ⟨?_, hroom, ?_, ?_⟩, ?_⟩
  · show b.leftIndex_ ≤ b.rightIndex_ + buf.length
    omega
  · intro block'' hb''
    cases hb''
    rw [hlen', hlen]
  · intro hnone
    cases hnone
  · show Block.slice block' b.leftIndex_ (b.rightIndex_ + buf.length - b.leftIndex_) = _
    have hsum : b.rightIndex_ + buf.length - b.leftIndex_
        = (b.rightIndex_ - b.leftIndex_) + buf.length := by omega
    have hend : b.leftIndex_ + (b.rightIndex_ - b.leftIndex_) = b.rightIndex_ := by omega
    rw [hsum, Block.slice_add, hend, hslice, hcont,
      ← Block.slice_take block' (m := b.rightIndex_) (by omega), htake,
      Block.slice_take block (by omega)]

/-- Bytes that someone else wrote behind the window, and that count now. -/
theorem Wf.appendLength_ok (h : Wf b) {block : Bytes} (hb : b.buffer_ = some block) (bytes : Bytes)
    (hroom : b.rightIndex_ + bytes.length ≤ b.capacity_) :
    ∃ b' b'', b.writeAtEnd bytes = .ok b' ∧ b'.appendLength bytes.length = .ok b'' ∧ Wf b'' ∧
      b''.contents = b.contents ++ bytes := by
  obtain ⟨b'', happend, hwf, hcontents⟩ := h.safeAppend_ok hb bytes hroom
  unfold safeAppend at happend
  obtain ⟨block', hblock, happend⟩ := bind_eq_ok.mp happend
  obtain ⟨block'', hwrite, happend⟩ := bind_eq_ok.mp happend
  cases happend
  refine ⟨{ b with buffer_ := some block'' }, _, ?_, ?_, hwf, hcontents⟩
  · unfold writeAtEnd
    rw [hblock, ok_bind, hwrite]
    rfl
  · unfold appendLength
    rw [guardOr_pos (by dsimp only; omega), ok_bind, Int.toNat_natCast]
    rfl

/-- `retrieve` keeps the block. -/
theorem retrieve_buffer {len : Int} {b' : Buffer} (h : b.retrieve len = .ok b') :
    b'.buffer_ = b.buffer_ := by
  unfold retrieve at h
  obtain ⟨u, -, h⟩ := bind_eq_ok.mp h
  obtain ⟨size, -, h⟩ := bind_eq_ok.mp h
  split at h
  · cases h
    rfl
  · split at h
    · cases h
      rfl
    · cases h
      rfl

/-- **`append` puts bytes at the end.** -/
theorem Wf.append_ok (h : Wf b) {buf : Bytes} (hbuf : buf ≠ []) :
    ∃ b', b.append buf = .ok b' ∧ Wf b' ∧ b'.contents = b.contents ++ buf := by
  have hpos := List.length_pos_iff.mpr hbuf
  unfold append
  rw [guardOr_pos hpos, ok_bind]
  split
  · next hempty =>
    refine ⟨ofBytes buf, rfl, wf_ofBytes buf, ?_⟩
    rw [h.empty_iff.mp hempty, contents_ofBytes, List.nil_append]
  · next hfull =>
    have hne : b.contents ≠ [] := fun hnil => hfull (h.empty_iff.mpr hnil)
    have hsize := h.length_contents
    have hright := h.right_le
    have hleft := h.left_le
    have hsome := List.length_pos_iff.mpr hne
    rw [h.size_eq, ok_bind]
    split
    · next hroom =>
      obtain ⟨block, hb⟩ := block_of_ne hne
      rw [pure_eq_ok, ok_bind]
      exact h.safeAppend_ok hb buf hroom
    · split
      · next hfit =>
        obtain ⟨b1, hb1, hwf, hcont, hl, hcap⟩ := h.forward_ok
        have hsize1 := hwf.length_contents
        obtain ⟨block, hblock⟩ := block_of_ne (b := b1) (by rw [hcont]; exact hne)
        obtain ⟨b2, hb2, hwf2, hcont2⟩ := hwf.safeAppend_ok hblock buf
          (by rw [hcont, hl] at hsize1; omega)
        exact ⟨b2, by rw [hb1, ok_bind]; exact hb2, hwf2, by rw [hcont2, hcont]⟩
      · obtain ⟨b1, hb1, hwf, hcont, hr, -, hcap⟩ :=
          h.grow_ok (by omega) (b.contents.length + buf.length + b.leftIndex_)
        obtain ⟨block, hblock⟩ := block_of_ne (b := b1) (by rw [hcont]; exact hne)
        obtain ⟨b2, hb2, hwf2, hcont2⟩ := hwf.safeAppend_ok hblock buf (by omega)
        exact ⟨b2, by rw [hb1, ok_bind]; exact hb2, hwf2, by rw [hcont2, hcont]⟩

/-- `append` of what another buffer holds. -/
theorem Wf.appendBuffer_ok (h : Wf b) {that : Buffer} (hthat : Wf that) :
    ∃ b', b.appendBuffer that = .ok b' ∧ Wf b' ∧ b'.contents = b.contents ++ that.contents := by
  unfold appendBuffer
  split
  · next hempty =>
    exact ⟨b, rfl, h, by rw [hthat.empty_iff.mp hempty, List.append_nil]⟩
  · next hfull =>
    have hne : that.contents ≠ [] := fun hnil => hfull (hthat.empty_iff.mpr hnil)
    rw [hthat.data_eq hne, ok_bind]
    exact h.append_ok hne

/-- `deepCopy` leaves what `that` holds, in a block of its own. -/
theorem Wf.deepCopy_ok (h : Wf b) {that : Buffer} (hthat : Wf that) :
    ∃ b', b.deepCopy that = .ok b' ∧ Wf b' ∧ b'.contents = that.contents := by
  unfold deepCopy
  split
  · next hempty =>
    obtain ⟨hwf, hnil⟩ := h.clear_ok
    exact ⟨b.clear, rfl, hwf, by rw [hnil, hthat.empty_iff.mp hempty]⟩
  · next hfull =>
    have hne : that.contents ≠ [] := fun hnil => hfull (hthat.empty_iff.mpr hnil)
    have hnew : (newBlock that.contents.length).length = that.contents.length :=
      List.length_replicate
    obtain ⟨block, hwrite, hlen, -, hslice⟩ :=
      Block.write_ok (newBlock that.contents.length) that.contents 0 (by omega)
    rw [hthat.size_eq, ok_bind, hthat.data_eq hne, ok_bind, hwrite, ok_bind]
    refine ⟨_, rfl, ⟨Nat.zero_le _, le_rfl, ?_, ?_⟩, ?_⟩
    · intro block' hblock'
      cases hblock'
      rw [hlen, hnew]
    · intro hnone
      cases hnone
    · exact hslice

/-- The first bytes of the window as a string. -/
theorem Wf.takeString_ok (h : Wf b) (hne : b.contents ≠ []) {len : Nat}
    (hlen : len ≤ b.contents.length) :
    ∃ b', b.takeString len = .ok (b.contents.take len, b') ∧ Wf b' ∧
      b'.contents = b.contents.drop len := by
  obtain ⟨block, hrange, -, hright, hwindow⟩ := h.range_eq hne
  obtain ⟨b', hretrieve, hwf, hcontents, -⟩ := h.retrieve_ok len
  have hsize := h.length_contents
  have hleft := h.left_le
  have hread := Block.read_ok block b.leftIndex_ len (by omega)
  refine ⟨b', ?_, hwf, hcontents⟩
  unfold takeString
  rw [hrange, ok_bind]
  dsimp only
  rw [hread, ok_bind, hretrieve, ← hwindow]
  unfold Cursor.window Block.slice
  rw [List.drop_take, List.take_take, min_eq_left (by omega)]
  rfl

/-- How many of `bytes` a `retriveveAsString(len)` takes: all of them if `len` is zero or too much. -/
def taken (bytes : Bytes) (len : Int) : Nat :=
  if len = 0 ∨ (bytes.length : Int) < len then bytes.length else len.toNat

/-- **`retriveveAsString` moves bytes from the front into a string.** -/
theorem Wf.retriveveAsString_ok (h : Wf b) (hne : b.contents ≠ []) {len : Int} (hlen : 0 ≤ len) :
    ∃ b', b.retriveveAsString len = .ok (b.contents.take (taken b.contents len), b') ∧ Wf b' ∧
      b'.contents = b.contents.drop (taken b.contents len) := by
  unfold retriveveAsString taken
  rw [guardOr_pos hlen, ok_bind, h.size_eq, ok_bind]
  split
  · have hsize : b.contents.length ≠ 0 := fun hzero => hne (List.length_eq_zero_iff.mp hzero)
    rw [if_neg hsize]
    exact h.takeString_ok hne le_rfl
  · exact h.takeString_ok hne (by omega)

end Liby.Buffer
