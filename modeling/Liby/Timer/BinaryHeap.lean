import Liby.Infra.Heap
import Liby.Infra.Fault

/-!
# BinaryHeap

`BinaryHeap.h`. The vector `heap` holds the values in `heap[1], …, heap[size_]`; `heap[0]` is
never used. The comparison `operator<` of the element type is the parameter `lt`, and `T()` is
`default`. `size_type`, which is `uint32_t`, is modelled by `Nat`: a heap has fewer than 2^31 elements here,
so that no size and no index wraps.

`Heap.cells` of the vector is the multiset of the values held. Every operation is followed on
it whatever `lt` is; that the heap order is kept needs `lt` to agree with an order on the values
present (`AgreesOn`).
-/

namespace Liby

open Infra

/-- `template <typename T> class BinaryHeap`. -/
structure BinaryHeap (T : Type _) where
  size_ : Nat
  heap : List T
  deriving DecidableEq, Repr

namespace BinaryHeap

variable {T : Type _} (lt : T → T → Bool)

/-! ## The operations -/

/-- `explicit BinaryHeap(size_type capacity = 100)`. -/
def ofCapacity [Inhabited T] (capacity : Nat) : BinaryHeap T where
  size_ := 0
  heap := List.replicate capacity default

/-- `empty`. -/
def empty (h : BinaryHeap T) : Bool := h.size_ == 0

/-- `find_min`. -/
def findMin (h : BinaryHeap T) : Exec T := readAt h.heap 1

/-- The loop of `insert`: `x` goes up from `hole`. -/
def percolateUp (x : T) (heap : List T) (hole : Nat) : Exec (List T) :=
  if 1 < hole then do
    let parent ← readAt heap (hole / 2)
    if lt x parent then
      let heap ← writeAt heap hole parent
      percolateUp x heap (hole / 2)
    else writeAt heap hole x
  else writeAt heap hole x
termination_by hole

/--
`insert`. The vector is doubled when its last cell is in use. The element is given by value: the caller's
reference is none into `heap` itself, which `resize` would leave dangling.
-/
def insert [Inhabited T] (h : BinaryHeap T) (x : T) : Exec (BinaryHeap T) := do
  let heap :=
    if h.size_ + 1 = h.heap.length then
      h.heap ++ List.replicate h.heap.length default
    else h.heap
  let size_ := h.size_ + 1
  let heap ← percolateUp lt x heap size_
  return { size_ := size_, heap := heap }

/-- The child of `hole` that goes up: the right one only if it comes before the left one. -/
def smallerChild (size_ : Nat) (heap : List T) (hole : Nat) : Exec Nat := do
  let child := hole * 2
  if child ≠ size_ then
    let right ← readAt heap (child + 1)
    let left ← readAt heap child
    return if lt right left then child + 1 else child
  else return child

theorem smallerChild_bounds {size_ : Nat} {heap : List T} {hole child : Nat}
    (h : smallerChild lt size_ heap hole = .ok child) :
    hole * 2 ≤ child ∧ child ≤ hole * 2 + 1 := by
  unfold smallerChild at h
  dsimp only at h
  split at h
  · obtain ⟨right, -, h⟩ := bind_eq_ok.mp h
    obtain ⟨left, -, h⟩ := bind_eq_ok.mp h
    cases h
    split <;> omega
  · cases h
    omega

/--
The loop of `percolate_down`: `tmp` goes down from `hole`. The callers pass a `hole` of at
least 1; from 0 the C++ loop would not move.
-/
def percolateDownLoop (size_ : Nat) (tmp : T) (heap : List T) (hole : Nat) : Exec (List T) :=
  if 1 ≤ hole ∧ hole * 2 ≤ size_ then
    match _hc : smallerChild lt size_ heap hole with
    | .error e => .error e
    | .ok child => do
      let c ← readAt heap child
      if lt c tmp then
        let heap ← writeAt heap hole c
        percolateDownLoop size_ tmp heap child
      else writeAt heap hole tmp
  else writeAt heap hole tmp
termination_by size_ + 1 - hole
decreasing_by
  have := smallerChild_bounds lt _hc
  omega

/-- `percolate_down`. -/
def percolateDown (h : BinaryHeap T) (hole : Nat) : Exec (BinaryHeap T) := do
  let tmp ← readAt h.heap hole
  let heap ← percolateDownLoop lt h.size_ tmp h.heap hole
  return { h with heap := heap }

/-- `delete_min()`. -/
def deleteMin [Inhabited T] (h : BinaryHeap T) : Exec (BinaryHeap T) := do
  guardOr .exception (h.size_ ≠ 0)
  let last ← readAt h.heap h.size_
  let heap ← writeAt h.heap 1 last
  let h ← percolateDown lt { size_ := h.size_ - 1, heap := heap } 1
  let heap ← writeAt h.heap (h.size_ + 1) default
  return { h with heap := heap }

end BinaryHeap

end Liby
