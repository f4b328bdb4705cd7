import Liby.Timer.BinaryHeapRuns
import Mathlib.Tactic.IntervalCases

/-!
# BinaryHeap: erase_if

The last value takes the place of the one erased and goes down from there. It never goes up, though it
may come from another branch of the tree, and before the parent of the cell it is put into.
-/

namespace Liby.BinaryHeap

open Infra Infra.Heap

variable {T : Type _}

/-- The loop of `erase_if` from `i` on: the first cell that `f_` accepts, or `size_ + 1`. -/
def firstFrom (f_ : T → Bool) (size_ : Nat) (heap : List T) (i : Nat) : Exec Nat :=
  if i < size_ + 1 then do
    let x ← readAt heap i
    if f_ x then return i else firstFrom f_ size_ heap (i + 1)
  else return i
termination_by size_ + 1 - i

variable [Inhabited T] (lt : T → T → Bool)

/-- `erase_if`. -/
def eraseIf (h : BinaryHeap T) (f_ : T → Bool) : Exec (BinaryHeap T) :=
  if h.empty then return h
  else do
    let i ← firstFrom f_ h.size_ h.heap 1
    if i = h.size_ + 1 then return h
    else
      let last ← readAt h.heap h.size_
      let heap ← writeAt h.heap i last
      let h ← percolateDown lt { size_ := h.size_ - 1, heap := heap } i
      let heap ← writeAt h.heap (h.size_ + 1) default
      return { h with heap := heap }

/-- Cell `i` is the first one in use whose value `f_` accepts. -/
structure First (f_ : T → Bool) (h : BinaryHeap T) (i : Nat) : Prop where
  pos : 1 ≤ i
  bound : i ≤ h.size_
  accepted : f_ (cell h.heap i) = true
  before : ∀ j, 1 ≤ j → j < i → f_ (cell h.heap j) = false

/-- One value that `f_` accepts is gone and the others are there; or `f_` accepts none. -/
def OneErased (f_ : T → Bool) (h h' : BinaryHeap T) : Prop :=
  (∃ x, f_ x = true ∧ h.contents = x ::ₘ h'.contents) ∨
    (∀ x ∈ h.contents, f_ x = false) ∧ h' = h

/-- The last value may be hung under the parent of the cell that is erased. -/
def LastFits (f_ : T → Bool) (h : BinaryHeap T) : Prop :=
  ∀ i, First f_ h i → 2 ≤ i → lt (cell h.heap h.size_) (cell h.heap (i / 2)) = false

variable {lt} {f_ : T → Bool} {h : BinaryHeap T}

/-! ## What is found -/

theorem First.mem {i : Nat} (hi : First f_ h i) : ∃ x ∈ h.contents, f_ x = true :=
  ⟨_, mem_cells.mpr ⟨i, hi.pos, hi.bound, rfl⟩, hi.accepted⟩

theorem First.not_none {i : Nat} (hi : First f_ h i) : ¬∀ x ∈ h.contents, f_ x = false := by
  intro hnone
  obtain ⟨x, hx, haccepted⟩ := hi.mem
  rw [hnone x hx] at haccepted
  cases haccepted

theorem First.not_lt {i j : Nat} (hi : First f_ h i) (hj : First f_ h j) : ¬i < j := by
  intro hlt
  have haccepted := hi.accepted
  rw [hj.before i hi.pos hlt] at haccepted
  cases haccepted

theorem First.unique {i j : Nat} (hi : First f_ h i) (hj : First f_ h j) : i = j := by
  have hij := hi.not_lt hj
  have hji := hj.not_lt hi
  omega

/-- The search ends at the first value accepted, or behind the last cell when there is none. -/
theorem firstFrom_ok (hb : h.InBounds) : ∀ {k i : Nat}, h.size_ + 1 - i = k → 1 ≤ i →
    i ≤ h.size_ + 1 → (∀ j, 1 ≤ j → j < i → f_ (cell h.heap j) = false) →
    (∃ i', firstFrom f_ h.size_ h.heap i = .ok i' ∧ First f_ h i') ∨
      firstFrom f_ h.size_ h.heap i = .ok (h.size_ + 1) ∧ ∀ x ∈ h.contents, f_ x = false := by
  have hlt : h.size_ < h.heap.length := hb
  intro k
  induction k with
  | zero =>
    intro i hk hpos hi hbefore
    have hend : i = h.size_ + 1 := by omega
    subst hend
    -- every cell in use has been looked at
    refine .inr ⟨by rw [firstFrom, if_neg (lt_irrefl _)]; rfl, fun x hx => ?_⟩
    obtain ⟨j, hj, hjn, rfl⟩ := mem_cells.mp hx
    exact hbefore j hj (by omega)
  | succ k ih =>
    intro i hk hpos hi hbefore
    rw [firstFrom, if_pos (by omega), readAt_cell (by omega), ok_bind]
    cases hf : f_ (cell h.heap i) with
    | true => exact .inl ⟨i, rfl, hpos, by omega, hf, hbefore⟩
    | false =>
      refine ih (i := i + 1) (by omega) (by omega) (by omega) fun j hj hji => ?_
      by_cases hsame : j = i
      · rw [hsame, hf]
      · exact hbefore j hj (by omega)

theorem search_ok (hb : h.InBounds) (f_ : T → Bool) :
    (∃ i, firstFrom f_ h.size_ h.heap 1 = .ok i ∧ First f_ h i) ∨
      firstFrom f_ h.size_ h.heap 1 = .ok (h.size_ + 1) ∧ ∀ x ∈ h.contents, f_ x = false :=
  firstFrom_ok hb rfl (le_refl 1) (by omega) fun j hj hj1 => by omega

theorem eraseIf_none (hb : h.InBounds) (hnone : ∀ x ∈ h.contents, f_ x = false) :
    h.eraseIf lt f_ = .ok h := by
  unfold eraseIf
  split
  · rfl
  · rcases search_ok hb f_ with ⟨i, -, hi⟩ | ⟨hend, -⟩
    · exact absurd hnone hi.not_none
    · rw [hend, ok_bind, if_pos rfl]
      rfl

/-- What `erase_if` does: the last value goes down from the cell found. -/
theorem eraseIf_eq (hb : h.InBounds) {i : Nat} (hi : First f_ h i) :
    h.eraseIf lt f_ = (percolateDownLoop lt (h.size_ - 1) (cell h.heap h.size_)
        (h.heap.set i (cell h.heap h.size_)) i >>= fun heap =>
      writeAt heap h.size_ default >>= fun heap => .ok { size_ := h.size_ - 1, heap := heap }) := by
  have hlt : h.size_ < h.heap.length := hb
  have hpos := hi.pos
  have hbound := hi.bound
  have hfound : firstFrom f_ h.size_ h.heap 1 = .ok i := by
    rcases search_ok hb f_ with ⟨i', hfirst, hi'⟩ | ⟨-, hnone⟩
    · rw [hi.unique hi']
      exact hfirst
    · exact absurd hnone hi.not_none
  have hempty : ¬h.empty = true := by
    rw [empty, beq_iff_eq]
    omega
  unfold eraseIf percolateDown
  rw [if_neg hempty, hfound, ok_bind, if_neg (by omega), readAt_cell hlt, ok_bind,
    writeAt_of_lt (by omega), ok_bind, readAt_cell (by rw [List.length_set]; omega), ok_bind,
    cell_set (by omega), Function.update_self]
  dsimp only
  cases percolateDownLoop lt (h.size_ - 1) (cell h.heap h.size_)
      (h.heap.set i (cell h.heap h.size_)) i with
  | error e => rfl
  | ok heap =>
    rw [ok_bind, pure_eq_ok, ok_bind, ok_bind, show h.size_ - 1 + 1 = h.size_ by omega]
    rfl

/-! ## What is erased -/

variable (lt) in
/-- The heap that is left, once the value of cell `i` has been erased. -/
theorem eraseIf_found (hb : h.InBounds) {i : Nat} (hi : First f_ h i) :
    ∃ heap, percolateDownLoop lt (h.size_ - 1) (cell h.heap h.size_)
        (h.heap.set i (cell h.heap h.size_)) i = .ok heap ∧ heap.length = h.heap.length ∧
      h.eraseIf lt f_ = .ok { size_ := h.size_ - 1, heap := heap.set h.size_ default } ∧
      h.contents = cell h.heap i ::ₘ cells (cell (heap.set h.size_ default)) (h.size_ - 1) := by
  have hlt : h.size_ < h.heap.length := hb
  have hbound := hi.bound
  obtain ⟨heap, hdown, hlen, hcells⟩ := sink_last_ok lt hb hi.pos hbound
  refine ⟨heap, hdown, hlen, ?_, ?_⟩
  · rw [eraseIf_eq hb hi, hdown, ok_bind, writeAt_of_lt (by omega), ok_bind]
  · have hpos := hi.pos
    have hkeep := cells_congr fun j (_ : 1 ≤ j) hj =>
      cell_clear heap (show 1 ≤ h.size_ by omega) (by omega) default j hj
    rw [hkeep, hcells, cells_replaced hpos hbound]
    rfl

/-- **`erase_if` stays inside the vector and erases one value that `f_` accepts, if there is one.** -/
theorem eraseIf_ok (lt : T → T → Bool) (hb : h.InBounds) (f_ : T → Bool) :
    ∃ h', h.eraseIf lt f_ = .ok h' ∧ h'.InBounds ∧ OneErased f_ h h' := by
  have hlt : h.size_ < h.heap.length := hb
  by_cases hfound : ∃ i, First f_ h i
  · obtain ⟨i, hi⟩ := hfound
    obtain ⟨heap, -, hlen, hok, hcontents⟩ := eraseIf_found lt hb hi
    refine ⟨_, hok, ?_, .inl ⟨_, hi.accepted, hcontents⟩⟩
    show h.size_ - 1 < (heap.set h.size_ default).length
    rw [List.length_set]
    omega
  · rcases search_ok hb f_ with ⟨i, -, hi⟩ | ⟨-, hnone⟩
    · exact absurd ⟨i, hi⟩ hfound
    · exact ⟨h, eraseIf_none hb hnone, hb, .inr ⟨hnone, rfl⟩⟩

/-! ## The order that is left -/

section Order

variable [IsStrictWeakOrder T fun a b => lt a b = true]

/-- A last value that comes before the parent of the cell it is put into stays there. -/
theorem sink_last_stuck (hb : h.InBounds) (hheap : h.IsHeap fun a b => lt b a = false) {i : Nat}
    (h2 : 2 ≤ i) (hi : i ≤ h.size_)
    (hbefore : lt (cell h.heap h.size_) (cell h.heap (i / 2)) = true) :
    i < h.size_ ∧ percolateDownLoop lt (h.size_ - 1) (cell h.heap h.size_)
      (h.heap.set i (cell h.heap h.size_)) i = .ok (h.heap.set i (cell h.heap h.size_)) := by
  have hlt : h.size_ < h.heap.length := hb
  have hne : i ≠ h.size_ := by
    rintro rfl
    rw [show lt _ _ = false from hheap h.size_ h2 hi] at hbefore
    cases hbefore
  refine ⟨by omega, ?_⟩
  have hstop : ∀ child, smallerChild lt (h.size_ - 1) (h.heap.set i (cell h.heap h.size_)) i =
      .ok child → child ≤ h.size_ - 1 →
      lt (cell (h.heap.set i (cell h.heap h.size_)) child) (cell h.heap h.size_) = false := by
    intro child hchild hcn
    have hbounds := smallerChild_bounds lt hchild
    rw [cell_set (by omega), Function.update_of_ne (by omega)]
    have hup : lt (cell h.heap i) (cell h.heap (i / 2)) = false := hheap i h2 hi
    have hdown : lt (cell h.heap child) (cell h.heap (child / 2)) = false :=
      hheap child (by omega) (by omega)
    rw [show child / 2 = i by omega] at hdown
    -- the child comes after the parent of the cell, and the last value before it
    have hfar : lt (cell h.heap child) (cell h.heap (i / 2)) = false :=
      notAfter_trans _ _ _ hup hdown
    rw [← Bool.not_eq_true] at hfar ⊢
    exact fun hchild => hfar (trans_of (fun a b => lt a b = true) hchild hbefore)
  rw [percolateDownLoop_stop (by rw [List.length_set]; omega) (by rw [List.length_set]; omega) hstop,
    List.set_set]

/-- **The order that is left**: it is broken where the last value should have gone up. -/
theorem eraseIf_isHeap_iff (hb : h.InBounds) (hheap : h.IsHeap fun a b => lt b a = false)
    {h' : BinaryHeap T} (hok : h.eraseIf lt f_ = .ok h') :
    h'.IsHeap (fun a b => lt b a = false) ↔ h.LastFits lt f_ := by
  have hlt : h.size_ < h.heap.length := hb
  rcases search_ok hb f_ with ⟨i, -, hi⟩ | ⟨-, hnone⟩
  · have hpos := hi.pos
    have hbound := hi.bound
    obtain ⟨heap, hdown, hlen, hok', -⟩ := eraseIf_found lt hb hi
    rw [hok] at hok'
    cases hok'
    have hclear := cell_clear heap (show 1 ≤ h.size_ by omega) (by omega) default
    constructor
    · -- a last value that should go up is below the parent that it comes before
      intro hheap' j hj h2
      obtain rfl := hi.unique hj
      rw [← Bool.not_eq_true]
      intro hbefore
      obtain ⟨hinner, hstuck⟩ := sink_last_stuck hb hheap h2 hbound hbefore
      rw [hdown] at hstuck
      cases hstuck
      have hedge : lt (cell ((h.heap.set i (cell h.heap h.size_)).set h.size_ default) i)
          (cell ((h.heap.set i (cell h.heap h.size_)).set h.size_ default) (i / 2)) = false :=
        hheap' i h2 (show i ≤ h.size_ - 1 by omega)
      rw [hclear i (by omega), hclear (i / 2) (by omega), cell_set (by omega),
        Function.update_self, Function.update_of_ne (by omega), hbefore] at hedge
      cases hedge
    · intro hfits j h2 hjn
      have hj : j ≤ h.size_ - 1 := hjn
      have hord := sink_last_ordered notAfter_total notAfter_trans hb hheap hpos hbound
        (fun h2 => hfits i hi h2) hdown fun a _ b _ => agree_notAfter lt a b
      show lt (cell (heap.set h.size_ default) j) (cell (heap.set h.size_ default) (j / 2)) = false
      rw [hclear j hj, hclear (j / 2) (by omega)]
      exact hord j h2 hj
  · rw [eraseIf_none hb hnone] at hok
    cases hok
    exact ⟨fun _ i hi => absurd hnone hi.not_none, fun _ => hheap⟩

/--
**One value is erased, and the order is kept exactly if the last value may stay where it is put.**
A heap that holds values has them in its vector.
-/
theorem eraseIf_iff (hb : h.size_ ≠ 0 → h.InBounds) (hheap : h.IsHeap fun a b => lt b a = false)
    (f_ : T → Bool) :
    (∃ h', h.eraseIf lt f_ = .ok h' ∧ OneErased f_ h h') ∧
      ((∃ h', h.eraseIf lt f_ = .ok h' ∧ OneErased f_ h h' ∧ h'.IsHeap fun a b => lt b a = false) ↔
        h.LastFits lt f_) := by
  by_cases hsize : h.size_ = 0
  · have hok : h.eraseIf lt f_ = .ok h := by
      unfold eraseIf
      rw [if_pos (by simpa [empty] using hsize)]
      rfl
    have hone : OneErased f_ h h := .inr ⟨fun x hx => by simp [contents_eq_zero.mpr hsize] at hx, rfl⟩
    refine ⟨⟨h, hok, hone⟩, fun _ i hi => ?_, fun _ => ⟨h, hok, hone, hheap⟩⟩
    have hpos := hi.pos
    have hbound := hi.bound
    -- no cell is in use
    omega
  · obtain ⟨h', hok, -, hone⟩ := eraseIf_ok lt (hb hsize) f_
    have hiff := eraseIf_isHeap_iff (hb hsize) hheap hok
    refine ⟨⟨h', hok, hone⟩, ?_, fun hfits => ⟨h', hok, hone, hiff.mpr hfits⟩⟩
    rintro ⟨h'', hok'', -, hheap''⟩
    rw [hok] at hok''
    cases hok''
    exact hiff.mp hheap''

end Order

/-- Three levels of numbers. -/
def threeLevels : BinaryHeap Nat where
  size_ := 6
  heap := [0, 1, 10, 2, 11, 12, 3] ++ List.replicate 9 0

theorem threeLevels_inBounds : threeLevels.InBounds := by
  unfold InBounds
  decide

theorem threeLevels_isHeap : threeLevels.IsHeap fun a b => decide (b < a) = false := by
  intro i h2 hi
  have hi' : i ≤ 6 := hi
  interval_cases i <;> decide

theorem eraseIf_iff_threeLevels :
    (∃ h', threeLevels.eraseIf (fun a b => decide (a < b)) (· == 12) = .ok h' ∧
        OneErased (· == 12) threeLevels h') ∧
      ((∃ h', threeLevels.eraseIf (fun a b => decide (a < b)) (· == 12) = .ok h' ∧
          OneErased (· == 12) threeLevels h' ∧ h'.IsHeap fun a b => decide (b < a) = false) ↔
        threeLevels.LastFits (fun a b => decide (a < b)) (· == 12)) := by
  have := strictWeakOrder_nat
  exact eraseIf_iff (fun _ => threeLevels_inBounds) threeLevels_isHeap _

/-- The heap is what insertions make of its values. With 11 erased, 3 is below 10. -/
theorem eraseIf_breaks_order :
    ofInitializerList (fun a b => decide (a < b)) [1, 10, 2, 11, 12, 3] = .ok threeLevels ∧
      threeLevels.IsHeap (fun a b => decide (b < a) = false) ∧
      ∃ h', threeLevels.eraseIf (fun a b => decide (a < b)) (· == 11) = .ok h' ∧
        h'.heap.take 6 = [0, 1, 10, 2, 3, 12] ∧ ¬h'.IsHeap fun a b => decide (b < a) = false := by
  refine ⟨by decide +kernel, threeLevels_isHeap, ?_⟩
  have hok : threeLevels.eraseIf (fun a b => decide (a < b)) (· == 11) =
      .ok { size_ := 5, heap := [0, 1, 10, 2, 3, 12] ++ List.replicate 10 0 } := by
    decide +kernel
  refine ⟨_, hok, rfl, fun hheap => ?_⟩
  have hedge := hheap 4 (by decide) (by decide)
  revert hedge
  decide

end Liby.BinaryHeap
