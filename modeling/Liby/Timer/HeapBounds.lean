import Liby.Timer.HeapErase

/-!
# BinaryHeap: the cells that are used

`clear` leaves a vector of no cells, and `insert` makes it longer only when `size_` is
`heap.size() - 1`. With no cells this is the greatest `size_t`, the vector stays as it is, and
`heap[1]` is written all the same.
-/

namespace Liby.BinaryHeap

open Infra Infra.Heap

variable {T : Type _} [Inhabited T]

omit [Inhabited T] in
/-- `clear`. -/
def clear (_ : BinaryHeap T) : BinaryHeap T where
  size_ := 0
  heap := []

/-- A call of an operation that changes the heap. -/
inductive Call (T : Type _) where
  | insert (x : T)
  | deleteMin
  | deleteMinInto
  | eraseIf (f_ : T → Bool)
  | clear

/-- One call. -/
def call (lt : T → T → Bool) (h : BinaryHeap T) : Call T → Exec (BinaryHeap T)
  | .insert x => h.insert lt x
  | .deleteMin => h.deleteMin lt
  | .deleteMinInto => do
    let (_, h) ← h.deleteMinInto lt
    return h
  | .eraseIf f_ => h.eraseIf lt f_
  | .clear => .ok h.clear

/-- The vector has cells, if the call is an insertion. -/
def HasCells (h : BinaryHeap T) : Call T → Prop
  | .insert _ => h.heap ≠ []
  | _ => True

/-- The values are in the vector, which may have no cells at all. -/
def Sound (h : BinaryHeap T) : Prop := h.InBounds ∨ h.heap = [] ∧ h.size_ = 0

variable {lt : T → T → Bool} {h : BinaryHeap T}

omit [Inhabited T] in
theorem sound_clear (h : BinaryHeap T) : h.clear.Sound := .inr ⟨rfl, rfl⟩

theorem sound_ofCapacity (capacity : Nat) : (ofCapacity capacity : BinaryHeap T).Sound := by
  cases capacity with
  | zero => exact .inr ⟨rfl, rfl⟩
  | succ n => exact .inl (inBounds_ofCapacity (Nat.succ_pos n))

omit [Inhabited T] in
theorem Sound.inBounds (hs : h.Sound) (hne : h.heap ≠ [] ∨ h.size_ ≠ 0) : h.InBounds := by
  rcases hs with hb | ⟨hnil, hsize⟩
  · exact hb
  · exact (hne.elim (fun hheap => hheap hnil) fun hsz => hsz hsize).elim

/-- `delete_min(x)` stays inside the vector. -/
theorem deleteMinInto_ok (lt : T → T → Bool) (hb : h.InBounds) (hne : h.size_ ≠ 0) :
    ∃ x h', h.deleteMinInto lt = .ok (x, h') ∧ h'.InBounds := by
  have hlt : h.size_ < h.heap.length := hb
  -- one value leaves no cell in use, so the cell it moves to is behind them
  by_cases h1 : h.size_ = 1
  · obtain ⟨heap, hok, hlen⟩ := deleteMinInto_last lt hb h1
    refine ⟨_, _, hok, ?_⟩
    show 0 < heap.length
    omega
  · obtain ⟨heap, hdown, hlen, -⟩ := sink_last_ok lt hb (le_refl 1) (by omega)
    refine ⟨cell h.heap 1, { size_ := h.size_ - 1, heap := heap }, ?_, ?_⟩
    · rw [deleteMinInto_eq hb (by omega), hdown, ok_bind]
    · show h.size_ - 1 < heap.length
      omega

/-- With cells in the vector an operation uses none behind them. -/
theorem Sound.call_outcome (hs : h.Sound) {c : Call T} (hc : h.HasCells c) :
    Outcome (· = .exception) Sound (h.call lt c) := by
  cases c with
  | insert x =>
    obtain ⟨h', hok, hb', -⟩ := insert_ok lt (hs.inBounds (.inl hc)) x
    dsimp only [call]
    rw [hok]
    exact .inl hb'
  | deleteMin =>
    dsimp only [call]
    by_cases hsize : h.size_ = 0
    · unfold BinaryHeap.deleteMin
      rw [guardOr_neg (not_not.mpr hsize)]
      rfl
    · obtain ⟨h', hok, hb', -⟩ := deleteMin_ok lt (hs.inBounds (.inr hsize)) hsize
      rw [hok]
      exact .inl hb'
  | deleteMinInto =>
    dsimp only [call]
    by_cases hsize : h.size_ = 0
    · unfold BinaryHeap.deleteMinInto
      rw [guardOr_neg (not_not.mpr hsize)]
      rfl
    · obtain ⟨x, h', hok, hb'⟩ := deleteMinInto_ok lt (hs.inBounds (.inr hsize)) hsize
      rw [hok]
      exact .inl hb'
  | eraseIf f_ =>
    dsimp only [call]
    by_cases hsize : h.size_ = 0
    · unfold BinaryHeap.eraseIf
      rw [if_pos (by simpa [empty] using hsize)]
      exact hs
    · obtain ⟨h', hok, hb', -⟩ := eraseIf_ok lt (hs.inBounds (.inr hsize)) f_
      rw [hok]
      exact .inl hb'
  | clear => exact sound_clear h

/-- An insertion into a vector of no cells writes behind it. -/
theorem Sound.insert_outOfBounds (hs : h.Sound) {c : Call T} (hc : ¬h.HasCells c) :
    h.call lt c = .error .outOfBounds := by
  cases c with
  | insert x =>
    have hnil : h.heap = [] := not_not.mp hc
    -- so `size_` is 0, and the value goes into cell 1
    have hsize : h.size_ = 0 := by
      rcases hs with hb | ⟨-, hsize⟩
      · unfold InBounds at hb
        rw [hnil] at hb
        cases hb
      · exact hsize
    dsimp only [call, BinaryHeap.insert]
    rw [hnil, hsize, percolateUp]
    rfl
  | deleteMin => exact absurd trivial hc
  | deleteMinInto => exact absurd trivial hc
  | eraseIf f_ => exact absurd trivial hc
  | clear => exact absurd trivial hc

/--
**No index leaves the vector exactly if every insertion finds one with cells**, whatever its capacity
was. A removal from an empty heap throws.
-/
theorem run_inBounds_iff (lt : T → T → Bool) (capacity : Nat) (calls : List (Call T)) :
    (∀ f, run (call lt) (ofCapacity capacity) calls = .error f → f = .exception) ↔
      Along (call lt) HasCells (ofCapacity capacity) calls := by
  refine (along_iff_outcome (fun h c hs hc => hs.call_outcome hc) (fun h c hs hc => ?_) calls
    (sound_ofCapacity capacity)).symm
  exact ⟨.outOfBounds, hs.insert_outOfBounds hc, by decide⟩

/-- A value is inserted after `clear`; and a first one where the capacity is zero. -/
theorem insert_after_clear :
    run (call fun a b : Nat => decide (a < b)) (ofCapacity 100) [.insert 1, .clear, .insert 2] =
        .error .outOfBounds ∧
      run (call fun a b : Nat => decide (a < b)) (ofCapacity 0) [.insert 1] = .error .outOfBounds := by
  constructor
  · decide +kernel
  · decide +kernel

end Liby.BinaryHeap
