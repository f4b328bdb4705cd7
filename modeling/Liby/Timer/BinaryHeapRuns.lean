import Liby.Infra.Machine
import Liby.Timer.BinaryHeapSound

/-!
# BinaryHeap as a priority queue

The constructors, `build`, the two overloads of `delete_min`, and what a heap holds after any
sequence of calls. With less than 2^31 values held no computation in `size_type` or in `int` wraps,
so the sizes and the indices are natural numbers.
-/

namespace Liby.BinaryHeap

open Infra Infra.Heap

variable {T : Type _} [Inhabited T] (lt : T → T → Bool)

/-! ## The constructors -/

/-- `for (auto &x : L) insert(x);`. -/
def insertAll (h : BinaryHeap T) : List T → Exec (BinaryHeap T)
  | [] => .ok h
  | x :: L => do
    let h ← h.insert lt x
    insertAll h L

/-- `explicit BinaryHeap(std::initializer_list<value_type> L)`. -/
def ofInitializerList (L : List T) : Exec (BinaryHeap T) :=
  insertAll lt { size_ := 0, heap := List.replicate (L.length + 10) default } L

/-- `for (int i = 0; i < items.size(); i++) heap[i + 1] = items[i];`. -/
def copyItems (heap : List T) (i : Nat) : List T → Exec (List T)
  | [] => .ok heap
  | x :: items => do
    let heap ← writeAt heap (i + 1) x
    copyItems heap (i + 1) items

/-- The loop of `build`, for `i, …, 1`. -/
def buildFrom (h : BinaryHeap T) : Nat → Exec (BinaryHeap T)
  | 0 => .ok h
  | i + 1 => do
    let h ← percolateDown lt h (i + 1)
    buildFrom h i

/-- `build`. -/
def build (h : BinaryHeap T) : Exec (BinaryHeap T) := buildFrom lt h (h.size_ / 2)

/-- `explicit BinaryHeap(const std::vector<T> &items)`. -/
def ofVector (items : List T) : Exec (BinaryHeap T) := do
  let heap ← copyItems (List.replicate (items.length + 10) default) 0 items
  build lt { size_ := items.length, heap := heap }

/-- `delete_min(reference_type x)`: what is stored in `x`, and the heap left. -/
def deleteMinInto (h : BinaryHeap T) : Exec (T × BinaryHeap T) := do
  guardOr .exception (h.size_ ≠ 0)
  let x ← readAt h.heap 1
  let heap ← writeAt h.heap 1 default
  let last ← readAt heap h.size_
  let heap ← writeAt heap 1 last
  let h ← percolateDown lt { size_ := h.size_ - 1, heap := heap } 1
  return (x, h)

/-! ## percolate_down and build -/

variable {lt} {le : T → T → Prop}

variable (lt) in
/-- `percolate_down` keeps the values, the size and the room. -/
theorem percolateDown_ok {h : BinaryHeap T} (hb : h.InBounds) {hole : Nat} (hpos : 1 ≤ hole)
    (hn : hole ≤ h.size_) :
    ∃ h', h.percolateDown lt hole = .ok h' ∧ h'.InBounds ∧ h'.size_ = h.size_ ∧
      h'.contents = h.contents := by
  have hlt : h.size_ < h.heap.length := hb
  obtain ⟨heap', hok, hlen, hcells⟩ := percolateDownLoop_ok lt (cell h.heap hole) rfl hpos hn hlt
  refine ⟨{ h with heap := heap' }, ?_, ?_, rfl, ?_⟩
  · unfold percolateDown
    rw [readAt_cell (by omega), ok_bind, hok]
    rfl
  · unfold InBounds
    rw [hlen]
    exact hlt
  · show cells (cell heap') h.size_ = cells (cell h.heap) h.size_
    rw [hcells, Function.update_eq_self]

/-- One pass of `build`: the cells from `hole` on come into order. -/
theorem percolateDown_orderedFrom (htotal : ∀ a b, le a b ∨ le b a)
    (htrans : ∀ a b c, le a b → le b c → le a c) (hagree : ∀ a b, Agree lt le a b)
    {h h' : BinaryHeap T} (hb : h.InBounds) {hole : Nat} (hpos : 1 ≤ hole) (hn : hole ≤ h.size_)
    (hfrom : OrderedFrom le (hole + 1) (cell h.heap) h.size_)
    (h1 : h.percolateDown lt hole = .ok h') : OrderedFrom le hole (cell h'.heap) h'.size_ := by
  have hlt : h.size_ < h.heap.length := hb
  unfold percolateDown at h1
  rw [readAt_cell (by omega), ok_bind] at h1
  obtain ⟨heap', hdown, hok⟩ := bind_eq_ok.mp h1
  cases hok
  exact percolateDownLoop_orderedFrom htotal htrans rfl hlt (le_refl hole)
    (DownReadyFrom.start hfrom hpos hn _) (fun i j _ _ _ _ => hagree _ _) (fun i _ _ => hagree _ _)
    hdown

/-- **`build` brings the cells into heap order and keeps their values.** -/
theorem buildFrom_ok (htotal : ∀ a b, le a b ∨ le b a)
    (htrans : ∀ a b c, le a b → le b c → le a c) (hagree : ∀ a b, Agree lt le a b) :
    ∀ (i : Nat) {h : BinaryHeap T}, h.InBounds → i ≤ h.size_ →
      OrderedFrom le (i + 1) (cell h.heap) h.size_ →
      ∃ h', h.buildFrom lt i = .ok h' ∧ h'.InBounds ∧ h'.IsHeap le ∧ h'.contents = h.contents
  | 0, h, hb, _, hfrom => ⟨h, rfl, hb, hfrom.ordered, rfl⟩
  | i + 1, h, hb, hn, hfrom => by
    obtain ⟨h1, hok, hb1, hsize, hcontents⟩ :=
      percolateDown_ok lt hb (show 1 ≤ i + 1 by omega) hn
    have hfrom1 := percolateDown_orderedFrom htotal htrans hagree hb (by omega) hn hfrom hok
    obtain ⟨h', hok', hb', hheap, hcontents'⟩ :=
      buildFrom_ok htotal htrans hagree i hb1 (by omega) hfrom1
    refine ⟨h', ?_, hb', hheap, hcontents'.trans hcontents⟩
    rw [buildFrom, hok, ok_bind, hok']

/-! ## What the constructors make -/

/-- A heap that stays in its vector, in order, and holds `m`. -/
structure Holds (le : T → T → Prop) (h : BinaryHeap T) (m : Multiset T) : Prop where
  inBounds : h.InBounds
  isHeap : h.IsHeap le
  contents : h.contents = m

theorem holds_empty {heap : List T} (hlen : 0 < heap.length) :
    Holds le { size_ := 0, heap := heap } 0 where
  inBounds := hlen
  isHeap := by
    intro i h2 hn
    have : i ≤ 0 := hn
    omega
  contents := rfl

theorem Holds.insert (htotal : ∀ a b, le a b ∨ le b a)
    (htrans : ∀ a b c, le a b → le b c → le a c) (hagree : ∀ a b, Agree lt le a b)
    {h : BinaryHeap T} {m : Multiset T} (hh : Holds le h m) (x : T) :
    ∃ h', h.insert lt x = .ok h' ∧ Holds le h' (x ::ₘ m) := by
  obtain ⟨h', hok, hb, hcontents⟩ := insert_ok lt hh.inBounds x
  refine ⟨h', hok, hb, ?_, by rw [hcontents, hh.contents]⟩
  exact insert_ordered htotal htrans hh.inBounds hh.isHeap (fun a _ => hagree x a) hok

theorem Holds.insertAll (htotal : ∀ a b, le a b ∨ le b a)
    (htrans : ∀ a b c, le a b → le b c → le a c) (hagree : ∀ a b, Agree lt le a b) :
    ∀ (L : List T) {h : BinaryHeap T} {m : Multiset T}, Holds le h m →
      ∃ h', h.insertAll lt L = .ok h' ∧ Holds le h' (m + L)
  | [], h, m, hh => ⟨h, rfl, by rw [Multiset.coe_nil, add_zero]; exact hh⟩
  | x :: L, h, m, hh => by
    obtain ⟨h1, hok, hh1⟩ := hh.insert htotal htrans hagree x
    obtain ⟨h', hok', hh'⟩ := Holds.insertAll htotal htrans hagree L hh1
    refine ⟨h', by rw [BinaryHeap.insertAll, hok, ok_bind, hok'], ?_⟩
    rw [← Multiset.cons_coe, Multiset.add_cons, ← Multiset.cons_add]
    exact hh'

/-- The copied values are in the cells after those there before. -/
theorem copyItems_ok : ∀ (items : List T) {heap : List T} {i : Nat},
    i + items.length < heap.length →
    ∃ heap', copyItems heap i items = .ok heap' ∧ heap'.length = heap.length ∧
      cells (cell heap') (i + items.length) = cells (cell heap) i + items
  | [], heap, i, _ => ⟨heap, rfl, rfl, by rw [Multiset.coe_nil, add_zero]; rfl⟩
  | x :: items, heap, i, hlen => by
    rw [List.length_cons] at hlen
    obtain ⟨heap', hok, hlen', hcells⟩ := @copyItems_ok items (heap.set (i + 1) x) (i + 1)
      (by rw [List.length_set]; omega)
    refine ⟨heap', ?_, by rw [hlen', List.length_set], ?_⟩
    · rw [copyItems, writeAt_of_lt (by omega), ok_bind, hok]
    · have hkeep : cells (Function.update (cell heap) (i + 1) x) i = cells (cell heap) i :=
        cells_congr fun j _ hj => Function.update_of_ne (by omega) _ _
      rw [List.length_cons, show i + (items.length + 1) = i + 1 + items.length by omega, hcells,
        cell_set (by omega), cells_succ, Function.update_self, hkeep, ← Multiset.cons_coe,
        Multiset.add_cons, Multiset.cons_add]

/-- **A heap made from a vector is in order and holds its items.** -/
theorem ofVector_holds (htotal : ∀ a b, le a b ∨ le b a)
    (htrans : ∀ a b c, le a b → le b c → le a c) (hagree : ∀ a b, Agree lt le a b)
    (items : List T) : ∃ h, ofVector lt items = .ok h ∧ Holds le h items := by
  obtain ⟨heap, hok, hlen, hcells⟩ := @copyItems_ok _ _ items
    (List.replicate (items.length + 10) (default : T)) 0 (by rw [List.length_replicate]; omega)
  rw [List.length_replicate] at hlen
  rw [Nat.zero_add, cells_zero, zero_add] at hcells
  have hb : ({ size_ := items.length, heap := heap } : BinaryHeap T).InBounds := by
    show items.length < heap.length
    omega
  obtain ⟨h, hbuild, hb', hheap, hcontents⟩ := buildFrom_ok htotal htrans hagree
    (items.length / 2) hb (Nat.div_le_self _ _) (orderedFrom_half _ _)
  refine ⟨h, ?_, hb', hheap, hcontents.trans hcells⟩
  unfold ofVector
  rw [hok, ok_bind]
  exact hbuild

/-! ## The two overloads of delete_min -/

/-- What `delete_min(x)` does when a value is left: `delete_min()` without clearing the last cell. -/
theorem deleteMinInto_eq {h : BinaryHeap T} (hb : h.InBounds) (h2 : 2 ≤ h.size_) :
    h.deleteMinInto lt = (percolateDownLoop lt (h.size_ - 1) (cell h.heap h.size_)
        (h.heap.set 1 (cell h.heap h.size_)) 1 >>= fun heap =>
      .ok (cell h.heap 1, { size_ := h.size_ - 1, heap := heap })) := by
  unfold InBounds at hb
  have hne : h.size_ ≠ 0 := by omega
  have hlast : cell (h.heap.set 1 default) h.size_ = cell h.heap h.size_ := by
    rw [cell_set (by omega), Function.update_of_ne (by omega)]
  unfold deleteMinInto percolateDown
  rw [guardOr_pos hne, ok_bind, readAt_cell (by omega), ok_bind, writeAt_of_lt (by omega), ok_bind,
    readAt_cell (by rw [List.length_set]; omega), ok_bind, hlast,
    writeAt_of_lt (by rw [List.length_set]; omega), ok_bind, List.set_set,
    readAt_cell (by rw [List.length_set]; omega), ok_bind, cell_set (by omega),
    Function.update_self]
  cases percolateDownLoop lt (h.size_ - 1) (cell h.heap h.size_)
      (h.heap.set 1 (cell h.heap h.size_)) 1 with
  | error e => rfl
  | ok heap => rfl

variable (lt) in
/-- With one value `delete_min(x)` leaves an empty heap. -/
theorem deleteMinInto_last {h : BinaryHeap T} (hb : h.InBounds) (h1 : h.size_ = 1) :
    ∃ heap, h.deleteMinInto lt = .ok (cell h.heap 1, { size_ := 0, heap := heap }) ∧
      heap.length = h.heap.length := by
  unfold InBounds at hb
  rw [h1] at hb
  unfold deleteMinInto percolateDown
  rw [guardOr_pos (by omega), ok_bind, readAt_cell hb, ok_bind, writeAt_of_lt hb, ok_bind, h1,
    readAt_cell (by rw [List.length_set]; exact hb), ok_bind,
    writeAt_of_lt (by rw [List.length_set]; exact hb), ok_bind,
    readAt_cell (by rw [List.length_set, List.length_set]; exact hb), ok_bind, Nat.sub_self,
    percolateDownLoop_behind Nat.zero_lt_one (by rw [List.length_set, List.length_set]; exact hb)]
  exact ⟨_, rfl, by rw [List.length_set, List.length_set, List.length_set]⟩

/-- The removal of the root, by either overload. -/
theorem Holds.deleteMin (htotal : ∀ a b, le a b ∨ le b a)
    (htrans : ∀ a b c, le a b → le b c → le a c) (hagree : ∀ a b, Agree lt le a b)
    {h : BinaryHeap T} {m : Multiset T} (hh : Holds le h m) (hne : h.size_ ≠ 0) :
    ∃ h' m', h.deleteMin lt = .ok h' ∧ m = cell h.heap 1 ::ₘ m' ∧ Holds le h' m' := by
  obtain ⟨h', hok, hb, hcontents⟩ := deleteMin_ok lt hh.inBounds hne
  refine ⟨h', h'.contents, hok, hh.contents.symm.trans hcontents, hb, ?_, rfl⟩
  exact deleteMin_ordered htotal htrans hh.inBounds hh.isHeap hok fun a _ b _ => hagree a b

theorem Holds.deleteMinInto (htotal : ∀ a b, le a b ∨ le b a)
    (htrans : ∀ a b c, le a b → le b c → le a c) (hagree : ∀ a b, Agree lt le a b)
    {h : BinaryHeap T} {m : Multiset T} (hh : Holds le h m) (hne : h.size_ ≠ 0) :
    ∃ h' m', h.deleteMinInto lt = .ok (cell h.heap 1, h') ∧ m = cell h.heap 1 ::ₘ m' ∧
      Holds le h' m' := by
  have hlen : h.size_ < h.heap.length := hh.inBounds
  obtain ⟨h', m', hok, hm, hh'⟩ := hh.deleteMin htotal htrans hagree hne
  by_cases h1 : h.size_ = 1
  · obtain ⟨heap, hinto, hheap⟩ := deleteMinInto_last lt hh.inBounds h1
    have hm' : m' = 0 := by
      have hcard : Multiset.card m = 1 := by
        rw [← hh.contents]
        unfold BinaryHeap.contents cells
        simp [h1]
      rw [hm, Multiset.card_cons] at hcard
      exact Multiset.card_eq_zero.mp (by omega)
    subst hm'
    exact ⟨_, 0, hinto, hm, holds_empty (by omega)⟩
  · rw [deleteMin_eq lt hh.inBounds hne] at hok
    obtain ⟨heap, hdown, hrest⟩ := bind_eq_ok.mp hok
    obtain ⟨heap', hwrite, hok'⟩ := bind_eq_ok.mp hrest
    cases hok'
    unfold writeAt at hwrite
    split at hwrite
    · next hw =>
      cases hwrite
      -- the cell that only `delete_min()` clears is not in use
      have hkeep : ∀ i, i ≤ h.size_ - 1 → cell (heap.set h.size_ default) i = cell heap i := by
        intro i hi
        rw [cell_set hw, Function.update_of_ne (by omega)]
      refine ⟨{ size_ := h.size_ - 1, heap := heap }, m', ?_, hm, ?_, ?_, ?_⟩
      · rw [deleteMinInto_eq hh.inBounds (by omega), hdown, ok_bind]
      · show h.size_ - 1 < heap.length
        omega
      · intro i h2 hin
        have hedge := hh'.isHeap i h2 hin
        have hin' : i ≤ h.size_ - 1 := hin
        show le (cell heap (i / 2)) (cell heap i)
        rw [← hkeep i hin', ← hkeep (i / 2) (by omega)]
        exact hedge
      · rw [← hh'.contents]
        exact cells_congr fun i _ hi => (hkeep i hi).symm
    · cases hwrite

/-! ## Runs -/

/-- How a heap is made. -/
inductive Construction (T : Type _) where
  /-- `BinaryHeap(capacity)`. -/
  | capacity (capacity : Nat) (pos : 1 ≤ capacity)
  /-- `BinaryHeap(L)`, a list of initial values. -/
  | initializerList (L : List T)
  /-- `BinaryHeap(items)`, a vector of them. -/
  | vector (items : List T)

/-- The values a heap is made with. -/
def Construction.values : Construction T → Multiset T
  | .capacity _ _ => 0
  | .initializerList L => L
  | .vector items => items

/-- The call of the constructor. -/
def Construction.make (lt : T → T → Bool) : Construction T → Exec (BinaryHeap T)
  | .capacity n _ => .ok (ofCapacity n)
  | .initializerList L => ofInitializerList lt L
  | .vector items => ofVector lt items

/-- A call of one of the three operations that change the heap. -/
inductive HeapCall (T : Type _) where
  | insert (x : T)
  | deleteMin
  | deleteMinInto
  deriving DecidableEq, Repr

/-- The call takes a value out. -/
def HeapCall.Removes : HeapCall T → Prop
  | .insert _ => False
  | .deleteMin => True
  | .deleteMinInto => True

/-- A heap, the values put into it, and those taken out, in order. -/
structure Queue (T : Type _) where
  heap : BinaryHeap T
  inserted : Multiset T
  removed : List T

/-- One call; the value that `delete_min()` takes out is the one `find_min` gives before it. -/
def Queue.step (lt : T → T → Bool) (q : Queue T) : HeapCall T → Exec (Queue T)
  | .insert x => do
    let heap ← q.heap.insert lt x
    return { q with heap := heap, inserted := x ::ₘ q.inserted }
  | .deleteMin => do
    let heap ← q.heap.deleteMin lt
    let x ← q.heap.findMin
    return { q with heap := heap, removed := q.removed ++ [x] }
  | .deleteMinInto => do
    let (x, heap) ← q.heap.deleteMinInto lt
    return { q with heap := heap, removed := q.removed ++ [x] }

/-- The heap just made. -/
def Queue.start (lt : T → T → Bool) (c : Construction T) : Exec (Queue T) := do
  let heap ← c.make lt
  return { heap := heap, inserted := c.values, removed := [] }

/-- What holds of a heap between two calls: nothing is lost, and the root is a minimal value. -/
structure IsPriorityQueue (lt : T → T → Bool) (q : Queue T) : Prop where
  /-- `heap[i / 2]` is not greater than `heap[i]`. -/
  order : ∀ i, 2 ≤ i → i ≤ q.heap.size_ → lt (cell q.heap.heap i) (cell q.heap.heap (i / 2)) = false
  /-- The values held are those inserted and not removed. -/
  values : q.heap.contents + q.removed = q.inserted
  findMin : q.heap.empty = false → ∃ x, q.heap.findMin = .ok x ∧ x ∈ q.heap.contents ∧
    ∀ a ∈ q.heap.contents, lt a x = false

/-- The heap is taken empty by `delete_min`, in either form: its values come in order. -/
def Drains (lt : T → T → Bool) (q : Queue T) : Prop :=
  ∀ calls : List (HeapCall T), (∀ call ∈ calls, call.Removes) → calls.length = q.heap.size_ →
    ∃ q' drained, run (Queue.step lt) q calls = .ok q' ∧ q'.heap.empty = true ∧
      q'.removed = q.removed ++ drained ∧ (drained : Multiset T) = q.heap.contents ∧
      drained.Pairwise fun a b => lt b a = false

/-- The invariant of the runs. -/
structure Queue.Kept (le : T → T → Prop) (q : Queue T) : Prop where
  holds : Holds le q.heap q.heap.contents
  values : q.heap.contents + q.removed = q.inserted

theorem Queue.Kept.card {q : Queue T} : Multiset.card q.heap.contents = q.heap.size_ := by
  unfold contents cells
  simp

section Runs

variable (htotal : ∀ a b, le a b ∨ le b a) (htrans : ∀ a b c, le a b → le b c → le a c)
  (hagree : ∀ a b, Agree lt le a b)
include htotal htrans hagree

theorem Queue.start_kept (c : Construction T) : ∃ q, Queue.start lt c = .ok q ∧ q.Kept le := by
  have hmake : ∃ h, c.make lt = .ok h ∧ Holds le h c.values := by
    cases c with
    | capacity n pos => exact ⟨_, rfl, holds_empty (by rw [List.length_replicate]; exact pos)⟩
    | initializerList L =>
      have hempty : Holds le { size_ := 0, heap := List.replicate (L.length + 10) (default : T) } 0 :=
        holds_empty (by rw [List.length_replicate]; omega)
      obtain ⟨h, hok, hh⟩ := hempty.insertAll htotal htrans hagree L
      rw [zero_add] at hh
      exact ⟨h, hok, hh⟩
    | vector items => exact ofVector_holds htotal htrans hagree items
  obtain ⟨h, hok, hh⟩ := hmake
  refine ⟨{ heap := h, inserted := c.values, removed := [] }, ?_, ?_, ?_⟩
  · unfold Queue.start
    rw [hok]
    rfl
  · rw [hh.contents]
    exact hh
  · rw [hh.contents]
    exact add_zero _

/-- A call that removes takes the root, and the others keep the values. -/
theorem Queue.step_removes {q : Queue T} (hk : q.Kept le) {call : HeapCall T} (hcall : call.Removes)
    (hne : q.heap.size_ ≠ 0) :
    ∃ q', q.step lt call = .ok q' ∧ q'.Kept le ∧
      q'.removed = q.removed ++ [cell q.heap.heap 1] ∧
      q.heap.contents = cell q.heap.heap 1 ::ₘ q'.heap.contents := by
  have hfind := (findMin_ok hk.holds.inBounds hne).1
  -- the heap that is left, whichever overload was called
  have hleft : ∀ (h : BinaryHeap T) (m : Multiset T), q.heap.contents = cell q.heap.heap 1 ::ₘ m →
      Holds le h m →
      Queue.Kept le { q with heap := h, removed := q.removed ++ [cell q.heap.heap 1] } ∧
        q.heap.contents = cell q.heap.heap 1 ::ₘ h.contents := by
    intro h m hm hh
    refine ⟨⟨by rw [hh.contents]; exact hh, ?_⟩, by rw [hh.contents]; exact hm⟩
    show h.contents + ((q.removed ++ [cell q.heap.heap 1] : List T) : Multiset T) = q.inserted
    rw [← hk.values, hm, hh.contents, ← Multiset.coe_add, Multiset.coe_singleton, ← add_assoc,
      Multiset.add_comm _ {_}, Multiset.singleton_add, Multiset.cons_add]
  cases call with
  | insert x => exact hcall.elim
  | deleteMin =>
    obtain ⟨h', m', hok, hm, hh'⟩ := hk.holds.deleteMin htotal htrans hagree hne
    obtain ⟨hkept, hcontents⟩ := hleft h' m' hm hh'
    refine ⟨_, ?_, hkept, rfl, hcontents⟩
    unfold Queue.step
    rw [hok, ok_bind, hfind]
    rfl
  | deleteMinInto =>
    obtain ⟨h', m', hok, hm, hh'⟩ := hk.holds.deleteMinInto htotal htrans hagree hne
    obtain ⟨hkept, hcontents⟩ := hleft h' m' hm hh'
    refine ⟨_, ?_, hkept, rfl, hcontents⟩
    unfold Queue.step
    rw [hok]
    rfl

/-- A call returns when it does not take from an empty heap, and keeps the invariant. -/
theorem Queue.step_kept {q : Queue T} (hk : q.Kept le) (call : HeapCall T)
    (hne : call.Removes → q.heap.empty = false) : ∃ q', q.step lt call = .ok q' ∧ q'.Kept le := by
  by_cases hcall : call.Removes
  · have hsize : q.heap.size_ ≠ 0 := by
      have := hne hcall
      simpa [empty] using this
    obtain ⟨q', hok, hkept, -⟩ := Queue.step_removes htotal htrans hagree hk hcall hsize
    exact ⟨q', hok, hkept⟩
  · cases call with
    | insert x =>
      obtain ⟨h', hok, hh'⟩ := hk.holds.insert htotal htrans hagree x
      refine ⟨{ q with heap := h', inserted := x ::ₘ q.inserted }, ?_, ?_, ?_⟩
      · rw [Queue.step, hok]
        rfl
      · rw [hh'.contents]
        exact hh'
      · rw [hh'.contents, Multiset.cons_add, hk.values]
    | deleteMin => exact absurd trivial hcall
    | deleteMinInto => exact absurd trivial hcall

omit htotal htrans hagree in
/-- A removal from an empty heap throws. -/
theorem Queue.step_empty {q : Queue T} {call : HeapCall T} (hcall : call.Removes)
    (hempty : q.heap.empty = true) : q.step lt call = .error .exception := by
  have hsize : ¬q.heap.size_ ≠ 0 := by simpa [empty] using hempty
  cases call with
  | insert x => exact hcall.elim
  | deleteMin =>
    unfold Queue.step BinaryHeap.deleteMin
    rw [guardOr_neg hsize]
    rfl
  | deleteMinInto =>
    unfold Queue.step BinaryHeap.deleteMinInto
    rw [guardOr_neg hsize]
    rfl

/-- **Draining gives the values in order.** -/
theorem Queue.Kept.drains : ∀ {q : Queue T}, q.Kept le → Drains lt q := by
  intro q hk calls
  induction calls generalizing q with
  | nil =>
    intro _ hlen
    have hsize : q.heap.size_ = 0 := hlen.symm
    refine ⟨q, [], rfl, by simpa [empty] using hsize, (List.append_nil _).symm, ?_, .nil⟩
    exact (contents_eq_zero.mpr hsize).symm
  | cons call calls ih =>
    intro hcalls hlen
    rw [List.length_cons] at hlen
    obtain ⟨q1, hok, hk1, hremoved, hcontents⟩ := Queue.step_removes htotal htrans hagree hk
      (hcalls call List.mem_cons_self) (by omega)
    have hlen1 : calls.length = q1.heap.size_ := by
      have hcard := congrArg Multiset.card hcontents
      rw [Multiset.card_cons, Queue.Kept.card, Queue.Kept.card] at hcard
      omega
    obtain ⟨q', drained, hrun, hempty, hremoved', hdrained, hsorted⟩ :=
      ih hk1 (fun call hc => hcalls call (List.mem_cons_of_mem _ hc)) hlen1
    refine ⟨q', cell q.heap.heap 1 :: drained, ?_, hempty, ?_, ?_, ?_⟩
    · rw [run_cons, hok, ok_bind, hrun]
    · rw [hremoved', hremoved, List.append_assoc, List.singleton_append]
    · rw [← Multiset.cons_coe, hdrained, hcontents]
    · refine List.pairwise_cons.mpr ⟨fun a ha => ?_, hsorted⟩
      -- what is taken later is still held, so it is not before the root
      have hmem : a ∈ q.heap.contents := by
        rw [hcontents, ← hdrained]
        exact Multiset.mem_cons_of_mem ha
      have hle := hk.holds.isHeap.root_le_cells (fun a => (htotal a a).elim id id) htrans a hmem
      have hnot := hagree a (cell q.heap.heap 1)
      unfold Agree at hnot
      rw [← Bool.not_eq_true, hnot, not_not]
      exact hle

/-- What the invariant says of `lt`. -/
theorem Queue.Kept.isPriorityQueue {q : Queue T} (hk : q.Kept le) : IsPriorityQueue lt q := by
  have hnot : ∀ a b, le a b → lt b a = false := by
    intro a b hle
    have := hagree b a
    unfold Agree at this
    rw [← Bool.not_eq_true, this, not_not]
    exact hle
  refine ⟨fun i h2 hn => hnot _ _ (hk.holds.isHeap i h2 hn), hk.values, fun hempty => ?_⟩
  have hsize : q.heap.size_ ≠ 0 := by simpa [empty] using hempty
  obtain ⟨hok, hmem⟩ := findMin_ok hk.holds.inBounds hsize
  refine ⟨_, hok, hmem, fun a ha => hnot _ _ ?_⟩
  exact hk.holds.isHeap.root_le_cells (fun a => (htotal a a).elim id id) htrans a ha

end Runs

/--
**A binary heap is a priority queue**: after any calls it is in heap order, holds what was inserted
and not removed, finds a minimal value, and is drained in order. Only a removal from an empty heap
throws.
-/
theorem run_priorityQueue [IsStrictWeakOrder T fun a b => lt a b = true] (c : Construction T)
    (calls : List (HeapCall T)) :
    ∃ q, Queue.start lt c = .ok q ∧
      Outcome
        (fun f => f = .exception ∧
          ¬Along (Queue.step lt) (fun q call => call.Removes → q.heap.empty = false) q calls)
        (fun q' => IsPriorityQueue lt q' ∧ Drains lt q') (run (Queue.step lt) q calls) := by
  have htotal : ∀ a b : T, lt b a = false ∨ lt a b = false := notAfter_total
  have htrans : ∀ a b c : T, lt b a = false → lt c b = false → lt c a = false := notAfter_trans
  have hagree : ∀ a b : T, Agree lt (fun a b => lt b a = false) a b := agree_notAfter lt
  obtain ⟨q, hstart, hk⟩ := Queue.start_kept htotal htrans hagree c
  refine ⟨q, hstart, ?_⟩
  by_cases halong : Along (Queue.step lt) (fun q call => call.Removes → q.heap.empty = false) q calls
  · obtain ⟨q', hrun, hk'⟩ := run_total_along
      (fun q call hk hne => Queue.step_kept htotal htrans hagree hk call hne) calls hk halong
    rw [hrun]
    exact ⟨hk'.isPriorityQueue htotal htrans hagree, hk'.drains htotal htrans hagree⟩
  · have houtcome : ∀ (q : Queue T) (call : HeapCall T), q.Kept (fun a b => lt b a = false) →
        Outcome (· = .exception) (Queue.Kept fun a b => lt b a = false) (q.step lt call) := by
      intro q call hk
      by_cases hne : call.Removes → q.heap.empty = false
      · obtain ⟨q', hok, hk'⟩ := Queue.step_kept htotal htrans hagree hk call hne
        rw [hok]
        exact hk'
      · rw [Classical.not_imp, Bool.not_eq_false] at hne
        rw [Queue.step_empty hne.1 hne.2]
        rfl
    have hrun := run_outcome houtcome calls hk
    cases hq : run (Queue.step lt) q calls with
    | error f =>
      rw [hq] at hrun
      exact ⟨hrun, halong⟩
    | ok q' =>
      rw [hq] at hrun
      exact ⟨hrun.isPriorityQueue htotal htrans hagree, hrun.drains htotal htrans hagree⟩

theorem strictWeakOrder_nat : IsStrictWeakOrder Nat fun a b => decide (a < b) = true where
  irrefl := by simp
  trans := by
    intro a b c
    simp only [decide_eq_true_eq]
    exact Nat.lt_trans
  incomp_trans := by
    intro a b c
    simp only [decide_eq_true_eq]
    omega

/-- A heap made from a vector of numbers, with an insertion and a removal by each overload. -/
theorem run_priorityQueue_nats :
    ∃ q q' : Queue Nat, Queue.start (fun a b => decide (a < b)) (.vector [5, 3, 8, 1]) = .ok q ∧
      run (Queue.step fun a b => decide (a < b)) q [.deleteMin, .insert 2, .deleteMinInto] = .ok q' ∧
      q'.removed = [1, 2] ∧ IsPriorityQueue (fun a b => decide (a < b)) q' := by
  have := strictWeakOrder_nat
  have hremoved : (Queue.start (fun a b : Nat => decide (a < b)) (.vector [5, 3, 8, 1]) >>= fun q =>
      run (Queue.step fun a b => decide (a < b)) q [.deleteMin, .insert 2, .deleteMinInto]).map
        Queue.removed = .ok [1, 2] := by
    decide +kernel
  obtain ⟨q, hq, houtcome⟩ := @run_priorityQueue _ _ (fun a b : Nat => decide (a < b)) _
    (.vector [5, 3, 8, 1]) [.deleteMin, .insert 2, .deleteMinInto]
  rw [hq, ok_bind] at hremoved
  cases hrun : run (Queue.step fun a b : Nat => decide (a < b)) q
      [.deleteMin, .insert 2, .deleteMinInto] with
  | error f =>
    rw [hrun] at hremoved
    cases hremoved
  | ok q' =>
    rw [hrun] at hremoved
    exact ⟨q, q', hq, hrun, Except.ok.inj hremoved, (houtcome.of_ok hrun).1⟩

end Liby.BinaryHeap
