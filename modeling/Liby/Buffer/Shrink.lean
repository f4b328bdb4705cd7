import Liby.Buffer.Extraction
import Liby.Buffer.Prepend

/-!
# Giving memory back

`shrink` takes a smaller block and copies the start of the old one into it, but empties the window.
`shrink_to_fit` keeps the window where it takes the block itself; where it leaves that to `shrink`,
the window is gone.
-/

namespace Liby

open Infra

namespace Buffer

/-- The `n` bytes at `buffer_` that a `memcpy` reads. -/
def prefixOf (b : Buffer) (n : Nat) : Exec Bytes :=
  if n = 0 then .ok []
  else do
    let block ← b.block
    Block.read block 0 n

/-- `shrink`. -/
def shrink (b : Buffer) (len : Int) : Exec Buffer :=
  if len < b.capacity_ then do
    -- `new char[len]`
    guardOr .exception (0 ≤ len)
    let newBuffer ← b.prefixOf len.toNat
    return { buffer_ := some newBuffer, leftIndex_ := 0, rightIndex_ := 0, capacity_ := len.toNat }
  else .ok b

/-- `shrink_to_fit`. -/
def shrinkToFit (b : Buffer) (len : Int) : Exec Buffer := do
  let size ← b.size
  if len < size then b.shrink size
  else if len < (b.capacity_ : Int) - b.leftIndex_ then
    let bytes ← b.source size
    let newBuffer ← Block.write (newBlock (len.toNat + b.leftIndex_)) b.leftIndex_ bytes
    return { b with buffer_ := some newBuffer, capacity_ := len.toNat + b.leftIndex_ }
  else return b

/-- `b'` holds what `b` does, in a block that is not larger. -/
structure Shrunk (b b' : Buffer) : Prop where
  contents : b'.contents = b.contents
  capacity : b'.capacity_ ≤ b.capacity_
  left_le : b'.leftIndex_ ≤ b'.rightIndex_
  right_le : b'.rightIndex_ ≤ b'.capacity_

variable {b b' : Buffer} {len : Int}

theorem Wf.shrunk (h : b'.Wf) (hcontents : b'.contents = b.contents)
    (hcapacity : b'.capacity_ ≤ b.capacity_) : Shrunk b b' :=
  ⟨hcontents, hcapacity, h.left_le, h.right_le⟩

/-- A smaller block has the bytes, and its window has none of them. -/
theorem Wf.shrink_ok (h : b.Wf) {n : Nat} (hn : n < b.capacity_) :
    ∃ b', b.shrink n = .ok b' ∧ b'.Wf ∧ b'.contents = [] ∧ b'.capacity_ = n := by
  obtain ⟨block, hb, hblock, hlen⟩ := h.block_ok (by omega)
  have hprefix : ∃ newBuffer, b.prefixOf n = .ok newBuffer ∧ newBuffer.length = n := by
    unfold prefixOf
    split
    · next hzero => exact ⟨[], rfl, hzero.symm⟩
    · rw [hblock, ok_bind, Block.read_ok block 0 n (by omega)]
      exact ⟨_, rfl, Block.length_slice (by omega)⟩
  obtain ⟨newBuffer, hnew, hlength⟩ := hprefix
  unfold shrink
  rw [if_pos (by omega), guardOr_pos (Int.natCast_nonneg n), ok_bind, Int.toNat_natCast, hnew, ok_bind]
  refine ⟨_, rfl, ⟨le_rfl, Nat.zero_le _, ?_, nofun⟩, rfl, rfl⟩
  intro block' hblock'
  cases hblock'
  exact hlength

/-- A block that is not larger than `len` is kept. -/
theorem shrink_keeps (hlen : (b.capacity_ : Int) ≤ len) : b.shrink len = .ok b :=
  if_neg (by omega)

/-- **`shrink` keeps the bytes below `len` exactly if it does nothing, or there are none.** -/
theorem Wf.shrink_iff (h : b.Wf) (len : Nat) :
    (∃ b', b.shrink len = .ok b' ∧ b'.contents = b.contents.take (len - b.leftIndex_)) ↔
      b.capacity_ ≤ len ∨ len ≤ b.leftIndex_ ∨ b.contents = [] := by
  have hsize := h.length_contents
  have hright := h.right_le
  have hbelow : b.contents.take (len - b.leftIndex_) = [] ↔ len ≤ b.leftIndex_ ∨ b.contents = [] := by
    rw [List.take_eq_nil_iff, Nat.sub_eq_zero_iff_le]
  by_cases hlen : b.capacity_ ≤ len
  · refine iff_of_true ⟨b, shrink_keeps (by omega), ?_⟩ (.inl hlen)
    rw [List.take_of_length_le (by omega)]
  · obtain ⟨b', hb', -, hnil, -⟩ := h.shrink_ok (n := len) (by omega)
    rw [or_iff_right hlen, ← hbelow]
    constructor
    · rintro ⟨b'', hb'', hkept⟩
      rw [hb'] at hb''
      cases hb''
      rw [← hkept, hnil]
    · intro hnone
      exact ⟨b', hb', by rw [hnil, hnone]⟩

/-- `shrink_to_fit` where it takes the block itself. -/
theorem Wf.shrinkToFit_fits (h : b.Wf) {len : Nat} (hlen : b.contents.length ≤ len) :
    ∃ b', b.shrinkToFit len = .ok b' ∧ b'.Wf ∧ Shrunk b b' := by
  have hleft := h.left_le
  have hright := h.right_le
  have hsize := h.length_contents
  unfold shrinkToFit
  rw [h.size_eq, ok_bind, if_neg (by omega)]
  split
  · next hless =>
    have hnew : (newBlock (len + b.leftIndex_)).length = len + b.leftIndex_ := List.length_replicate
    obtain ⟨block', hwrite, hlength, -, hslice⟩ :=
      Block.write_ok (newBlock (len + b.leftIndex_)) b.contents b.leftIndex_ (by omega)
    rw [h.source_eq, ok_bind, Int.toNat_natCast, hwrite, ok_bind]
    have hwf : Wf { b with buffer_ := some block', capacity_ := len + b.leftIndex_ } := by
      refine ⟨hleft, ?_, ?_, nofun⟩
      · show b.rightIndex_ ≤ len + b.leftIndex_
        omega
      · intro block'' hblock''
        cases hblock''
        rw [hlength, hnew]
    refine ⟨_, rfl, hwf, hwf.shrunk ?_ ?_⟩
    · show Block.slice block' b.leftIndex_ (b.rightIndex_ - b.leftIndex_) = b.contents
      rw [← hsize, hslice]
    · show len + b.leftIndex_ ≤ b.capacity_
      omega
  · exact ⟨b, rfl, h, h.shrunk rfl le_rfl⟩

/-- **`shrink_to_fit` keeps the contents exactly if they fit into `len`, or fill their block.** -/
theorem Wf.shrinkToFit_iff (h : b.Wf) (len : Nat) :
    (∃ b', b.shrinkToFit len = .ok b' ∧ Shrunk b b') ↔
      b.contents.length ≤ len ∨ b.contents.length = b.capacity_ := by
  have hright := h.right_le
  have hsize := h.length_contents
  by_cases hlen : b.contents.length ≤ len
  · obtain ⟨b', hb', -, hshrunk⟩ := h.shrinkToFit_fits hlen
    exact iff_of_true ⟨b', hb', hshrunk⟩ (.inl hlen)
  · have hrun : b.shrinkToFit len = b.shrink b.contents.length := by
      unfold shrinkToFit
      rw [h.size_eq, ok_bind, if_pos (by omega)]
    rw [hrun, or_iff_right hlen]
    constructor
    · rintro ⟨b', hb', hshrunk⟩
      by_contra hless
      obtain ⟨b'', hb'', -, hnil, -⟩ := h.shrink_ok (n := b.contents.length) (by omega)
      rw [hb''] at hb'
      cases hb'
      have hcontents := hshrunk.contents
      rw [hnil] at hcontents
      rw [← hcontents] at hlen
      exact hlen (Nat.zero_le _)
    · intro hfull
      exact ⟨b, shrink_keeps (by omega), h.shrunk rfl le_rfl⟩

/--
**Shrinking keeps the data exactly if the window fits.** `shrink_to_fit` loses the contents where `len`
is too small for them and the block is larger than they are, `shrink` wherever it takes a smaller block
and there is something below `len`.
-/
theorem shrinking_keeps_iff (h : b.Wf) (len : Nat) :
    ((∃ b', b.shrinkToFit len = .ok b' ∧ Shrunk b b') ↔
        b.contents.length ≤ len ∨ b.contents.length = b.capacity_) ∧
      ((∃ b', b.shrink len = .ok b' ∧ b'.contents = b.contents.take (len - b.leftIndex_)) ↔
        b.capacity_ ≤ len ∨ len ≤ b.leftIndex_ ∨ b.contents = []) :=
  ⟨h.shrinkToFit_iff len, h.shrink_iff len⟩

theorem shrinking_keeps_two :
    ((∃ b', (ofBytes [1, 2]).shrinkToFit 1 = .ok b' ∧ Shrunk (ofBytes [1, 2]) b') ↔
        (ofBytes [1, 2]).contents.length ≤ 1 ∨
          (ofBytes [1, 2]).contents.length = (ofBytes [1, 2]).capacity_) ∧
      ((∃ b', (ofBytes [1, 2]).shrink 1 = .ok b' ∧
          b'.contents = (ofBytes [1, 2]).contents.take (1 - (ofBytes [1, 2]).leftIndex_)) ↔
        (ofBytes [1, 2]).capacity_ ≤ 1 ∨ 1 ≤ (ofBytes [1, 2]).leftIndex_ ∨
          (ofBytes [1, 2]).contents = []) :=
  shrinking_keeps_iff (wf_ofBytes [1, 2]) 1

/-- Two of three bytes are left in the block of three; and a block is cut through its contents. -/
theorem shrinkToFit_loses :
    (∃ b b', (ofBytes [1, 2, 3]).retrieve 1 = .ok b ∧ b.contents = [2, 3] ∧
        b.shrinkToFit 0 = .ok b' ∧ b'.contents = []) ∧
      (∃ b', (ofBytes [1, 2]).shrink 1 = .ok b' ∧ b'.contents = []) ∧
      ¬∀ (b : Buffer) (len : Nat), b.Wf → ∃ b', b.shrinkToFit len = .ok b' ∧ Shrunk b b' := by
  obtain ⟨b, hb, hwf, hcontents, hcapacity⟩ := (wf_ofBytes [1, 2, 3]).retrieve_ok 1
  have hlength : b.contents.length = 2 := by rw [hcontents]; rfl
  have hthree : b.capacity_ = 3 := hcapacity
  obtain ⟨b', hb', -, hnil, -⟩ := hwf.shrink_ok (n := 2) (by omega)
  have hfit : b.shrinkToFit 0 = .ok b' := by
    unfold shrinkToFit
    rw [hwf.size_eq, ok_bind, hlength, if_pos (by decide)]
    exact hb'
  obtain ⟨c, hc, -, hc', -⟩ := (wf_ofBytes [1, 2]).shrink_ok (n := 1) (by decide)
  refine ⟨⟨b, b', hb, hcontents, hfit, hnil⟩, ⟨c, hc, hc'⟩, fun hall => ?_⟩
  have hkeeps := (hwf.shrinkToFit_iff 0).mp (hall b 0 hwf)
  omega

/-! ## Every buffer of a program -/

theorem Wf.shrink_wf (h : b.Wf) (hb' : b.shrink len = .ok b') : b'.Wf := by
  by_cases hlen : (b.capacity_ : Int) ≤ len
  · rw [shrink_keeps hlen] at hb'
    cases hb'
    exact h
  · have hnonneg : 0 ≤ len := by
      unfold shrink at hb'
      rw [if_pos (by omega)] at hb'
      obtain ⟨u, hguard, -⟩ := bind_eq_ok.mp hb'
      exact guardOr_eq_ok.mp hguard
    obtain ⟨n, rfl⟩ := Int.eq_ofNat_of_zero_le hnonneg
    obtain ⟨b'', hb'', hwf, -⟩ := h.shrink_ok (n := n) (by omega)
    rw [hb''] at hb'
    cases hb'
    exact hwf

theorem Wf.shrinkToFit_wf (h : b.Wf) (hb' : b.shrinkToFit len = .ok b') : b'.Wf := by
  by_cases hlen : len < b.contents.length
  · unfold shrinkToFit at hb'
    rw [h.size_eq, ok_bind, if_pos hlen] at hb'
    exact h.shrink_wf hb'
  · obtain ⟨n, rfl⟩ := Int.eq_ofNat_of_zero_le (a := len) (by omega)
    have hfits : b.contents.length ≤ n := by omega
    obtain ⟨b'', hb'', hwf, -⟩ := h.shrinkToFit_fits hfits
    rw [hb''] at hb'
    cases hb'
    exact hwf

theorem Wf.retriveveAsVector_wf (h : b.Wf) {ret : Bytes}
    (hb' : b.retriveveAsVector len = .ok (ret, b')) : b'.Wf := by
  have hlen : 0 ≤ len := by
    unfold retriveveAsVector at hb'
    obtain ⟨u, hguard, -⟩ := bind_eq_ok.mp hb'
    exact guardOr_eq_ok.mp hguard
  have hne : b.contents ≠ [] := by
    intro hnil
    obtain ⟨n, hn⟩ := (h.retriveveAsVector_iff hlen).mp hb'
    have hfirst : (ExtractCall.len len).Nonneg := hlen
    exact h.vectorCalls.not_terminates hnil hfirst ⟨n, by rw [hn]; rfl⟩
  obtain ⟨b'', hb'', hwf, -⟩ := h.retriveveAsVector_ok hne hlen
  rw [hb''] at hb'
  cases hb'
  exact hwf

end Buffer

/-- An operation on the buffers of a program, with those that give memory back and the vectors. -/
inductive BlockOp where
  | window (op : WindowOp)
  | shrink (i : Nat) (len : Int)
  | shrinkToFit (i : Nat) (len : Int)
  | retriveveAsVector (i : Nat) (len : Int)
  deriving DecidableEq, Repr

namespace Buffers

variable {s s' : Buffers}

/-- What an operation does to the buffers. -/
def stepBlock (s : Buffers) : BlockOp → Exec Buffers
  | .window op => s.stepWindow op
  | .shrink i len => s.update i fun b => b.shrink len
  | .shrinkToFit i len => s.update i fun b => b.shrinkToFit len
  | .retriveveAsVector i len => s.update i fun b => do
    let (_, b) ← b.retriveveAsVector len
    return b

/-- What the operations ask for. -/
def AllowedBlock (s : Buffers) : BlockOp → Prop
  | .window op => s.AllowedWindow op
  | .shrink _ _ | .shrinkToFit _ _ | .retriveveAsVector _ _ => True

theorem Sound.stepBlock (op : BlockOp) (h : s.Sound) (hallowed : s.AllowedBlock op)
    (hs' : s.stepBlock op = .ok s') : s'.Sound := by
  cases op with
  | window op => exact h.step op hallowed hs'
  | shrink i len => exact h.update (fun b b' hb hb' => hb.shrink_wf hb') hs'
  | shrinkToFit i len => exact h.update (fun b b' hb hb' => hb.shrinkToFit_wf hb') hs'
  | retriveveAsVector i len =>
    refine h.update (fun b b' hb hb' => ?_) hs'
    obtain ⟨⟨ret, b''⟩, hret, hb'⟩ := bind_eq_ok.mp hb'
    cases hb'
    exact hb.retriveveAsVector_wf hret

/-- **Whatever a program does with its buffers, every window stays in its block.** -/
theorem sound_of_run_block {ops : List BlockOp} (hallowed : Along Buffers.stepBlock AllowedBlock init ops)
    (h : run Buffers.stepBlock init ops = .ok s) : s.Sound :=
  run_invariant_along (fun _ op _ hs ha hs' => hs.stepBlock op ha hs') (by simp [Sound, init]) hallowed h

end Buffers

end Liby
