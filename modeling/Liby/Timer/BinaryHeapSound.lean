import Liby.Timer.BinaryHeap

/-!
# BinaryHeap: the operations keep the values and the order

Three kinds of fact, from the weakest assumption on `lt` to the strongest.

* `insert_ok`, `delete_min_ok`: no index leaves the vector, and the values held change by
  exactly the one inserted or the root. For every `lt`.
* `insert_root`: a value that does not come before the root leaves the root where it is.
* `insert_ordered`, `delete_min_ordered`: the heap order is kept, when `lt` agrees with the
  order on the values it is asked about.
-/

namespace Liby.BinaryHeap

open Infra Infra.Heap

variable {T : Type _} [Inhabited T]

/-- Cell `i` of the vector. -/
def cell (heap : List T) (i : Nat) : T := heap.getD i default

theorem readAt_cell {heap : List T} {i : Nat} (h : i < heap.length) :
    readAt heap i = .ok (cell heap i) := by
  rw [readAt_of_lt h]
  simp [cell, h]

theorem cell_set {heap : List T} {i : Nat} (h : i < heap.length) (x : T) :
    cell (heap.set i x) = Function.update (cell heap) i x := by
  funext j
  unfold cell
  by_cases hj : j = i
  · subst hj
    simp [h]
  · rw [Function.update_of_ne hj, List.getD_eq_getElem?_getD, List.getD_eq_getElem?_getD,
      List.getElem?_set_ne (Ne.symm hj)]

theorem cell_append {heap : List T} (n : Nat) :
    cell (heap ++ List.replicate n default) = cell heap := by
  funext i
  unfold cell
  rw [List.getD_eq_getElem?_getD, List.getD_eq_getElem?_getD]
  by_cases hi : i < heap.length
  · rw [List.getElem?_append_left hi]
  · rw [List.getElem?_append_right (by omega), List.getElem?_eq_none (l := heap) (by omega),
      List.getElem?_replicate]
    split <;> rfl

/-- The values held. -/
def contents (h : BinaryHeap T) : Multiset T := cells (cell h.heap) h.size_

/-- The vector has room for the cells in use and for `heap[0]`. -/
def InBounds (h : BinaryHeap T) : Prop := h.size_ < h.heap.length

/-- `lt` says of `a` and `b` what the order `le` says. -/
def Agree (lt : T → T → Bool) (le : T → T → Prop) (a b : T) : Prop :=
  lt a b = true ↔ ¬le b a

section StrictWeakOrder

variable {lt : T → T → Bool} [IsStrictWeakOrder T fun a b => lt a b = true]

omit [Inhabited T] in
theorem notAfter_total (a b : T) : lt b a = false ∨ lt a b = false := by
  rw [← Bool.not_eq_true, ← Bool.not_eq_true]
  exact not_after_total (fun a b => lt a b = true) a b

omit [Inhabited T] in
theorem notAfter_trans (a b c : T) (hba : lt b a = false) (hcb : lt c b = false) :
    lt c a = false := by
  rw [← Bool.not_eq_true] at hba hcb ⊢
  exact not_after_trans (fun a b => lt a b = true) hba hcb

end StrictWeakOrder

omit [Inhabited T] in
/-- A comparison agrees with "does not come after". -/
theorem agree_notAfter (lt : T → T → Bool) (a b : T) :
    Agree lt (fun a b => lt b a = false) a b := by
  unfold Agree
  rw [Bool.not_eq_false]

theorem inBounds_ofCapacity {capacity : Nat} (h : 0 < capacity) :
    (ofCapacity capacity : BinaryHeap T).InBounds := by
  simpa [InBounds, ofCapacity] using h

@[simp] theorem contents_ofCapacity (capacity : Nat) :
    (ofCapacity capacity : BinaryHeap T).contents = 0 := rfl

theorem contents_eq_zero {h : BinaryHeap T} : h.contents = 0 ↔ h.size_ = 0 := by
  unfold contents cells
  simp [Finset.val_eq_zero, Finset.Icc_eq_empty_iff]

theorem empty_iff {h : BinaryHeap T} : h.empty = true ↔ h.contents = 0 := by
  rw [contents_eq_zero]
  simp [empty]

/-- The root of a heap that is not empty is one of its values. -/
theorem findMin_ok {h : BinaryHeap T} (hb : h.InBounds) (hne : h.size_ ≠ 0) :
    h.findMin = .ok (cell h.heap 1) ∧ cell h.heap 1 ∈ h.contents := by
  unfold InBounds at hb
  exact ⟨readAt_cell (by omega), mem_cells.mpr ⟨1, le_refl _, by omega, rfl⟩⟩

variable (lt : T → T → Bool)

/-! ## percolateUp -/

/-- The parent comes down into the hole. -/
theorem percolateUp_move {x : T} {heap : List T} {hole : Nat} (h1 : 1 < hole)
    (hb : hole < heap.length) (hlt : lt x (cell heap (hole / 2)) = true) :
    percolateUp lt x heap hole
      = percolateUp lt x (heap.set hole (cell heap (hole / 2))) (hole / 2) := by
  rw [percolateUp, if_pos h1, readAt_cell (by omega), ok_bind, if_pos hlt, writeAt_of_lt hb, ok_bind]

/-- The value is written. -/
theorem percolateUp_stop {x : T} {heap : List T} {hole : Nat} (hb : hole < heap.length)
    (hstop : 1 < hole → lt x (cell heap (hole / 2)) = false) :
    percolateUp lt x heap hole = .ok (heap.set hole x) := by
  rw [percolateUp]
  split
  · next h1 =>
    rw [readAt_cell (by omega), ok_bind, if_neg (by simp [hstop h1]), writeAt_of_lt hb]
  · exact writeAt_of_lt hb x

theorem percolateUp_ok (x : T) {n : Nat} : ∀ {hole : Nat} {heap : List T}, 1 ≤ hole → hole ≤ n →
    n < heap.length → ∃ heap', percolateUp lt x heap hole = .ok heap' ∧
      heap'.length = heap.length ∧
      cells (cell heap') n = cells (Function.update (cell heap) hole x) n := by
  intro hole
  induction hole using Nat.strongRecOn with
  | _ hole ih =>
    intro heap hpos hn hb
    by_cases hlt : 1 < hole ∧ lt x (cell heap (hole / 2)) = true
    · rw [percolateUp_move lt hlt.1 (by omega) hlt.2]
      obtain ⟨heap', hok, hlen, hcells⟩ := ih (hole / 2) (by omega)
        (show 1 ≤ hole / 2 by omega) (by omega)
        (show n < (heap.set hole (cell heap (hole / 2))).length by simpa using hb)
      refine ⟨heap', hok, by simpa using hlen, ?_⟩
      rw [hcells, cell_set (by omega)]
      exact cells_move (cell heap) hpos hn (by omega) (by omega) (by omega) x
    · refine ⟨_, percolateUp_stop lt (by omega) ?_, List.length_set, by rw [cell_set (by omega)]⟩
      intro h1
      simpa [h1] using hlt

/-- A value that does not come before the root stops below it. -/
theorem percolateUp_root {x : T} : ∀ {hole : Nat} {heap heap' : List T}, 2 ≤ hole →
    hole < heap.length → lt x (cell heap 1) = false →
    percolateUp lt x heap hole = .ok heap' → cell heap' 1 = cell heap 1 := by
  intro hole
  induction hole using Nat.strongRecOn with
  | _ hole ih =>
    intro heap heap' h2 hb hroot h
    by_cases hlt : lt x (cell heap (hole / 2)) = true
    · rw [percolateUp_move lt (by omega) hb hlt] at h
      have hp : 2 ≤ hole / 2 := by
        by_contra hp
        rw [show hole / 2 = 1 by omega, hroot] at hlt
        exact absurd hlt (by simp)
      have hkeep : cell (heap.set hole (cell heap (hole / 2))) 1 = cell heap 1 := by
        rw [cell_set hb, Function.update_of_ne (by omega)]
      rw [← hkeep]
      exact ih (hole / 2) (by omega) hp (by rw [List.length_set]; omega) (by rw [hkeep]; exact hroot) h
    · rw [percolateUp_stop lt hb (fun _ => by simpa using hlt)] at h
      cases h
      rw [cell_set hb, Function.update_of_ne (by omega)]

variable {lt} {le : T → T → Prop}

theorem percolateUp_ordered (htotal : ∀ a b, le a b ∨ le b a)
    (htrans : ∀ a b c, le a b → le b c → le a c) {x : T} {n : Nat} :
    ∀ {hole : Nat} {heap heap' : List T}, n < heap.length → UpReady le (cell heap) n hole x →
      (∀ i, 1 ≤ i → i < hole → Agree lt le x (cell heap i)) →
      percolateUp lt x heap hole = .ok heap' → Ordered le (cell heap') n := by
  intro hole
  induction hole using Nat.strongRecOn with
  | _ hole ih =>
    intro heap heap' hb hup hagree h
    have hpos := hup.pos
    have hbound := hup.bound
    by_cases hlt : 1 < hole ∧ lt x (cell heap (hole / 2)) = true
    · rw [percolateUp_move lt hlt.1 (by omega) hlt.2] at h
      have hbefore : ¬le (cell heap (hole / 2)) x :=
        (hagree (hole / 2) (by omega) (by omega)).mp hlt.2
      have hle : le x (cell heap (hole / 2)) := (htotal _ _).resolve_right hbefore
      refine ih (hole / 2) (by omega) (by rw [List.length_set]; exact hb) ?_ ?_ h
      · rw [cell_set (by omega)]
        exact hup.move htrans (by omega) hle
      · intro i h1 hi
        rw [cell_set (by omega), Function.update_of_ne (by omega)]
        exact hagree i h1 (by omega)
    · have hstop : 1 < hole → lt x (cell heap (hole / 2)) = false := by
        intro h1
        simpa [h1] using hlt
      rw [percolateUp_stop lt (by omega) hstop] at h
      cases h
      rw [cell_set (by omega)]
      refine hup.close fun h2 => ?_
      have hnot := hagree (hole / 2) (by omega) (by omega)
      rw [Agree, hstop (by omega)] at hnot
      simpa using hnot

/-! ## percolateDown -/

variable (lt) in
/-- `smallerChild` looks at both children only when there are two. -/
theorem smallerChild_ok {size_ hole : Nat} {heap : List T}
    (hhole : hole * 2 ≤ size_) (hb : size_ < heap.length) :
    ∃ child, smallerChild lt size_ heap hole = .ok child ∧ child / 2 = hole ∧ child ≤ size_ ∧
      ∀ d, d / 2 = hole → d ≤ size_ → d ≠ child →
        (lt (cell heap d) (cell heap child) = false ∨ lt (cell heap child) (cell heap d) = true) := by
  unfold smallerChild
  by_cases hlast : hole * 2 = size_
  · refine ⟨hole * 2, by simp [hlast], by omega, hhole, ?_⟩
    intro d hd hdn hne
    omega
  · simp only [ne_eq, hlast, not_false_eq_true, ↓reduceIte]
    rw [readAt_cell (by omega), ok_bind, readAt_cell (by omega), ok_bind, pure_eq_ok]
    by_cases hlt : lt (cell heap (hole * 2 + 1)) (cell heap (hole * 2)) = true
    · refine ⟨hole * 2 + 1, by rw [if_pos hlt], by omega, by omega, ?_⟩
      intro d hd hdn hne
      have hleft : d = hole * 2 := by omega
      exact Or.inr (by rw [hleft]; exact hlt)
    · refine ⟨hole * 2, by rw [if_neg hlt], by omega, by omega, ?_⟩
      intro d hd hdn hne
      have hright : d = hole * 2 + 1 := by omega
      exact Or.inl (by rw [hright]; simpa using hlt)

/-- The child comes up into the hole. -/
theorem percolateDownLoop_move {size_ hole child : Nat} {tmp : T} {heap : List T} (hpos : 1 ≤ hole)
    (hhole : hole * 2 ≤ size_) (hb : size_ < heap.length)
    (hchild : smallerChild lt size_ heap hole = .ok child) (hcn : child ≤ size_)
    (hlt : lt (cell heap child) tmp = true) :
    percolateDownLoop lt size_ tmp heap hole
      = percolateDownLoop lt size_ tmp (heap.set hole (cell heap child)) child := by
  rw [percolateDownLoop, if_pos ⟨hpos, hhole⟩]
  split
  · next e he => rw [hchild] at he; cases he
  · next c hc =>
    rw [hchild] at hc
    cases hc
    rw [readAt_cell (by omega), ok_bind, if_pos hlt, writeAt_of_lt (by omega), ok_bind]

/-- The value is written: the hole has no children, or the smaller one does not come before it. -/
theorem percolateDownLoop_stop {size_ hole : Nat} {tmp : T} {heap : List T}
    (hb : size_ < heap.length) (hh : hole < heap.length)
    (hstop : ∀ child, smallerChild lt size_ heap hole = .ok child → child ≤ size_ →
      lt (cell heap child) tmp = false) :
    percolateDownLoop lt size_ tmp heap hole = .ok (heap.set hole tmp) := by
  rw [percolateDownLoop]
  split
  · next hcond =>
    obtain ⟨child, hchild, -, hcn, -⟩ := smallerChild_ok lt hcond.2 hb
    split
    · next e he => rw [hchild] at he; cases he
    · next c hc =>
      rw [hchild] at hc
      cases hc
      rw [readAt_cell (by omega), ok_bind, if_neg (by simp [hstop child hchild hcn]),
        writeAt_of_lt hh]
  · exact writeAt_of_lt hh tmp

variable (lt) in
/-- Where the value goes next: down to a child, or it stays. -/
theorem percolateDownLoop_cases {size_ hole : Nat} {tmp : T} {heap : List T} (hpos : 1 ≤ hole)
    (hb : size_ < heap.length) (hh : hole < heap.length) :
    (∃ child, child / 2 = hole ∧ child ≤ size_ ∧
        smallerChild lt size_ heap hole = .ok child ∧ lt (cell heap child) tmp = true ∧
        percolateDownLoop lt size_ tmp heap hole
          = percolateDownLoop lt size_ tmp (heap.set hole (cell heap child)) child) ∨
      (percolateDownLoop lt size_ tmp heap hole = .ok (heap.set hole tmp) ∧
        ∀ child, smallerChild lt size_ heap hole = .ok child → child ≤ size_ →
          lt (cell heap child) tmp = false) := by
  by_cases hhole : hole * 2 ≤ size_
  · obtain ⟨child, hchild, hpar, hcn, -⟩ := smallerChild_ok lt hhole hb
    by_cases hlt : lt (cell heap child) tmp = true
    · exact Or.inl ⟨child, hpar, hcn, hchild, hlt,
        percolateDownLoop_move hpos hhole hb hchild hcn hlt⟩
    · have hstop : ∀ c, smallerChild lt size_ heap hole = .ok c → c ≤ size_ →
          lt (cell heap c) tmp = false := by
        intro c hc _
        rw [hchild] at hc
        cases hc
        simpa using hlt
      exact Or.inr ⟨percolateDownLoop_stop hb hh hstop, hstop⟩
  · have hstop : ∀ c, smallerChild lt size_ heap hole = .ok c → c ≤ size_ →
        lt (cell heap c) tmp = false := by
      intro c hc hcn
      have := smallerChild_bounds lt hc
      omega
    exact Or.inr ⟨percolateDownLoop_stop hb hh hstop, hstop⟩

variable (lt) in
theorem percolateDownLoop_ok (tmp : T) {n : Nat} : ∀ {k hole : Nat} {heap : List T}, n + 1 - hole = k →
    1 ≤ hole → hole ≤ n → n < heap.length →
    ∃ heap', percolateDownLoop lt n tmp heap hole = .ok heap' ∧ heap'.length = heap.length ∧
      cells (cell heap') n = cells (Function.update (cell heap) hole tmp) n := by
  intro k
  induction k using Nat.strongRecOn with
  | _ k ih =>
    intro hole heap hk hpos hn hb
    rcases percolateDownLoop_cases lt hpos hb (show hole < heap.length by omega) with
      ⟨child, hpar, hcn, -, -, hmove⟩ | ⟨hstop, -⟩
    · rw [hmove]
      obtain ⟨heap', hok, hlen, hcells⟩ := ih (n + 1 - child) (by omega) rfl
        (show 1 ≤ child by omega) hcn
        (show n < (heap.set hole (cell heap child)).length by simpa using hb)
      refine ⟨heap', hok, by simpa using hlen, ?_⟩
      rw [hcells, cell_set (by omega)]
      exact cells_move (cell heap) hpos hn (by omega) hcn (by omega) tmp
    · exact ⟨_, hstop, List.length_set, by rw [cell_set (by omega)]⟩

/-- The order of the cells from `lo` on, where the hole is one of them. -/
theorem percolateDownLoop_orderedFrom (htotal : ∀ a b, le a b ∨ le b a)
    (htrans : ∀ a b c, le a b → le b c → le a c) {lo : Nat} {tmp : T} {n : Nat} :
    ∀ {k hole : Nat} {heap heap' : List T}, n + 1 - hole = k → n < heap.length →
      lo ≤ hole → DownReadyFrom le lo (cell heap) n hole tmp →
      (∀ i j, hole < i → i ≤ n → hole < j → j ≤ n → Agree lt le (cell heap i) (cell heap j)) →
      (∀ i, hole < i → i ≤ n → Agree lt le (cell heap i) tmp) →
      percolateDownLoop lt n tmp heap hole = .ok heap' →
      OrderedFrom le lo (cell heap') n := by
  intro k
  induction k using Nat.strongRecOn with
  | _ k ih =>
    intro hole heap heap' hk hb hlo hdown hagree htmp h
    have hpos := hdown.pos
    have hn := hdown.bound
    -- the child chosen comes before its sibling
    have hmin : ∀ child, smallerChild lt n heap hole = .ok child → child / 2 = hole → child ≤ n →
        ∀ d, d / 2 = hole → d ≤ n → le (cell heap child) (cell heap d) := by
      intro child hchild hpar hcn d hd hdn
      by_cases hdc : d = child
      · rw [hdc]
        exact (htotal _ _).elim id id
      · obtain ⟨c, hc, -, -, hsib⟩ := smallerChild_ok lt (show hole * 2 ≤ n by omega) hb
        rw [hchild] at hc
        cases hc
        rcases hsib d hd hdn hdc with hf | ht
        · have := hagree d child (by omega) hdn (by omega) hcn
          rw [Agree, hf] at this
          simpa using this
        · have := (hagree child d (by omega) hcn (by omega) hdn).mp ht
          exact (htotal _ _).resolve_right this
    rcases percolateDownLoop_cases lt hpos hb (show hole < heap.length by omega) with
      ⟨child, hpar, hcn, hchild, hlt, hmove⟩ | ⟨hstop, hnot⟩
    · rw [hmove] at h
      have hle : le (cell heap child) tmp :=
        (htotal _ _).resolve_right ((htmp child (by omega) hcn).mp hlt)
      have hkeep : ∀ i, child < i → cell (heap.set hole (cell heap child)) i = cell heap i := by
        intro i hi
        rw [cell_set (by omega), Function.update_of_ne (by omega)]
      refine ih (n + 1 - child) (by omega) rfl (by rw [List.length_set]; exact hb)
        (show lo ≤ child by omega) ?_ ?_ ?_ h
      · rw [cell_set (by omega)]
        exact hdown.move hlo hpar hcn (hmin child hchild hpar hcn) hle
      · intro i j hi hin hj hjn
        rw [hkeep i hi, hkeep j hj]
        exact hagree i j (by omega) hin (by omega) hjn
      · intro i hi hin
        rw [hkeep i hi]
        exact htmp i (by omega) hin
    · rw [hstop] at h
      cases h
      rw [cell_set (by omega)]
      refine hdown.close fun c hc hcn => ?_
      obtain ⟨child, hchild, hpar, hchn, -⟩ :=
        smallerChild_ok lt (show hole * 2 ≤ n by omega) hb
      have hle : le tmp (cell heap child) := by
        have := htmp child (by omega) hchn
        rw [Agree, hnot child hchild hchn] at this
        simpa using this
      by_cases hcc : c = child
      · rw [hcc]; exact hle
      · exact htrans _ _ _ hle (hmin child hchild hpar hchn c hc hcn)

theorem percolateDownLoop_ordered (htotal : ∀ a b, le a b ∨ le b a)
    (htrans : ∀ a b c, le a b → le b c → le a c) {tmp : T} {n hole : Nat} {heap heap' : List T}
    (hb : n < heap.length) (hdown : DownReady le (cell heap) n hole tmp)
    (hagree : ∀ i j, hole < i → i ≤ n → hole < j → j ≤ n → Agree lt le (cell heap i) (cell heap j))
    (htmp : ∀ i, hole < i → i ≤ n → Agree lt le (cell heap i) tmp)
    (h : percolateDownLoop lt n tmp heap hole = .ok heap') : Ordered le (cell heap') n :=
  (percolateDownLoop_orderedFrom htotal htrans rfl hb hdown.pos hdown.from_root hagree htmp h).ordered

/-! ## insert and delete_min -/

/-- The heap order on the cells in use. -/
def IsHeap (le : T → T → Prop) (h : BinaryHeap T) : Prop := Ordered le (cell h.heap) h.size_

/-- The vector `insert` writes to: doubled if it is full. -/
def grown (h : BinaryHeap T) : List T :=
  if h.size_ + 1 = h.heap.length then h.heap ++ List.replicate h.heap.length default else h.heap

theorem grown_length {h : BinaryHeap T} (hb : h.InBounds) : h.size_ + 1 < h.grown.length := by
  unfold InBounds at hb
  unfold grown
  split
  · rw [List.length_append, List.length_replicate]; omega
  · omega

@[simp] theorem cell_grown (h : BinaryHeap T) : cell h.grown = cell h.heap := by
  unfold grown
  split
  · exact cell_append _
  · rfl

variable (lt) in
theorem insert_eq (h : BinaryHeap T) (x : T) :
    h.insert lt x = (percolateUp lt x h.grown (h.size_ + 1) >>= fun heap =>
      .ok { size_ := h.size_ + 1, heap := heap }) := rfl

variable (lt) in
/-- **`insert` stays inside the vector and adds exactly the value inserted.** -/
theorem insert_ok {h : BinaryHeap T} (hb : h.InBounds) (x : T) :
    ∃ h', h.insert lt x = .ok h' ∧ h'.InBounds ∧ h'.contents = x ::ₘ h.contents := by
  have hlen := grown_length hb
  obtain ⟨heap', hok, hlen', hcells⟩ :=
    percolateUp_ok lt x (show 1 ≤ h.size_ + 1 by omega) (le_refl _) hlen
  refine ⟨{ size_ := h.size_ + 1, heap := heap' }, by rw [insert_eq, hok, ok_bind], ?_, ?_⟩
  · unfold InBounds
    rw [hlen']
    exact hlen
  · have hkeep : cells (Function.update (cell h.heap) (h.size_ + 1) x) h.size_
        = cells (cell h.heap) h.size_ := by
      refine cells_congr fun i _ hi => ?_
      rw [Function.update_of_ne (by omega)]
    show cells (cell heap') (h.size_ + 1) = x ::ₘ h.contents
    rw [hcells, cell_grown, cells_succ, Function.update_self, hkeep]
    rfl

/-- **A value that does not come before the root leaves the root in place.** -/
theorem insert_root {h h' : BinaryHeap T} {x : T} (hb : h.InBounds) (hne : h.size_ ≠ 0)
    (hroot : lt x (cell h.heap 1) = false) (h1 : h.insert lt x = .ok h') :
    cell h'.heap 1 = cell h.heap 1 := by
  rw [insert_eq] at h1
  obtain ⟨heap', hup, hok⟩ := bind_eq_ok.mp h1
  cases hok
  have hkeep := percolateUp_root lt (show 2 ≤ h.size_ + 1 by omega) (grown_length hb)
    (by rw [cell_grown]; exact hroot) hup
  rw [← cell_grown h]
  exact hkeep

/-- `insert` keeps the heap order when `lt` orders the new value rightly against those held. -/
theorem insert_ordered (htotal : ∀ a b, le a b ∨ le b a)
    (htrans : ∀ a b c, le a b → le b c → le a c) {h h' : BinaryHeap T} {x : T} (hb : h.InBounds)
    (hheap : h.IsHeap le) (hagree : ∀ a ∈ h.contents, Agree lt le x a)
    (h1 : h.insert lt x = .ok h') : h'.IsHeap le := by
  rw [insert_eq] at h1
  obtain ⟨heap', hup, hok⟩ := bind_eq_ok.mp h1
  cases hok
  refine percolateUp_ordered htotal htrans (grown_length hb) ?_ ?_ hup
  · rw [cell_grown]
    exact UpReady.start hheap x
  · intro i hi1 hi
    rw [cell_grown]
    exact hagree _ (mem_cells.mpr ⟨i, hi1, by omega, rfl⟩)

variable (lt) in
/-- What `delete_min` does: the last value goes down from the root of the smaller heap. -/
theorem deleteMin_eq {h : BinaryHeap T} (hb : h.InBounds) (hne : h.size_ ≠ 0) :
    h.deleteMin lt = (percolateDownLoop lt (h.size_ - 1) (cell h.heap h.size_)
        (h.heap.set 1 (cell h.heap h.size_)) 1 >>= fun heap =>
      writeAt heap h.size_ default >>= fun heap => .ok { size_ := h.size_ - 1, heap := heap }) := by
  unfold InBounds at hb
  unfold deleteMin percolateDown
  rw [guardOr_pos hne, ok_bind, readAt_cell hb, ok_bind, writeAt_of_lt (by omega), ok_bind,
    readAt_cell (by rw [List.length_set]; omega), ok_bind, cell_set (by omega),
    Function.update_self]
  dsimp only
  cases percolateDownLoop lt (h.size_ - 1) (cell h.heap h.size_)
      (h.heap.set 1 (cell h.heap h.size_)) 1 with
  | error e => rfl
  | ok heap =>
    rw [ok_bind, pure_eq_ok, ok_bind, ok_bind, show h.size_ - 1 + 1 = h.size_ by omega]
    rfl

omit [Inhabited T] in
/-- The cells that are left when the last value is put into cell `i`. -/
theorem cells_replaced {v : Nat → T} {n i : Nat} (hpos : 1 ≤ i) (hi : i ≤ n) :
    v i ::ₘ cells (Function.update v i (v n)) (n - 1) = cells v n := by
  obtain ⟨m, rfl⟩ : ∃ m, n = m + 1 := ⟨n - 1, by omega⟩
  rw [Nat.add_sub_cancel]
  by_cases hlast : i = m + 1
  · have hkeep : cells (Function.update v i (v (m + 1))) m = cells v m :=
      cells_congr fun j _ hj => Function.update_of_ne (by omega) _ _
    rw [hkeep, hlast, cells_succ]
  · rw [cells_update v hpos (by omega), cells_succ]

/-- The cell behind those in use may be written. -/
theorem cell_clear (heap : List T) {n : Nat} (hn : 1 ≤ n) (hb : n < heap.length) (x : T) :
    ∀ i, i ≤ n - 1 → cell (heap.set n x) i = cell heap i := by
  intro i hi
  rw [cell_set hb, Function.update_of_ne (by omega)]

/-- A hole behind the cells in use: the value is written, and nothing moves. -/
theorem percolateDownLoop_behind {size_ hole : Nat} {tmp : T} {heap : List T} (hsize : size_ < hole)
    (hb : hole < heap.length) : percolateDownLoop lt size_ tmp heap hole = .ok (heap.set hole tmp) := by
  refine percolateDownLoop_stop (by omega) hb fun child hchild hcn => ?_
  have := smallerChild_bounds lt hchild
  omega

variable (lt) in
/-- **The last value, put into cell `i`, goes down from there**: the value of cell `i` is gone. -/
theorem sink_last_ok {h : BinaryHeap T} (hb : h.InBounds) {i : Nat} (hpos : 1 ≤ i)
    (hi : i ≤ h.size_) :
    ∃ heap', percolateDownLoop lt (h.size_ - 1) (cell h.heap h.size_)
        (h.heap.set i (cell h.heap h.size_)) i = .ok heap' ∧ heap'.length = h.heap.length ∧
      cells (cell heap') (h.size_ - 1) =
        cells (Function.update (cell h.heap) i (cell h.heap h.size_)) (h.size_ - 1) := by
  have hlt : h.size_ < h.heap.length := hb
  by_cases hlast : i = h.size_
  · refine ⟨_, percolateDownLoop_behind (by omega) (by rw [List.length_set]; omega), ?_, ?_⟩
    · rw [List.length_set, List.length_set]
    · rw [List.set_set, cell_set (by omega)]
  · obtain ⟨heap', hok, hlen, hcells⟩ := percolateDownLoop_ok lt (cell h.heap h.size_) rfl
      hpos (show i ≤ h.size_ - 1 by omega)
      (show h.size_ - 1 < (h.heap.set i (cell h.heap h.size_)).length by rw [List.length_set]; omega)
    refine ⟨heap', hok, by rw [hlen, List.length_set], ?_⟩
    rw [hcells, cell_set (by omega), Function.update_idem]

/-- The last value goes down into order where it may be hung under the parent of cell `i`. -/
theorem sink_last_ordered (htotal : ∀ a b, le a b ∨ le b a)
    (htrans : ∀ a b c, le a b → le b c → le a c) {h : BinaryHeap T} (hb : h.InBounds)
    (hheap : h.IsHeap le) {i : Nat} (hpos : 1 ≤ i) (hi : i ≤ h.size_)
    (habove : 2 ≤ i → le (cell h.heap (i / 2)) (cell h.heap h.size_)) {heap' : List T}
    (hdown : percolateDownLoop lt (h.size_ - 1) (cell h.heap h.size_)
      (h.heap.set i (cell h.heap h.size_)) i = .ok heap')
    (hagree : ∀ a ∈ cells (cell heap') (h.size_ - 1), ∀ b ∈ cells (cell heap') (h.size_ - 1),
      Agree lt le a b) : Ordered le (cell heap') (h.size_ - 1) := by
  have hlt : h.size_ < h.heap.length := hb
  obtain ⟨heap'', hok, -, hcells⟩ := sink_last_ok lt hb hpos hi
  rw [hdown] at hok
  cases hok
  by_cases hlast : i = h.size_
  · rw [percolateDownLoop_behind (by omega) (by rw [List.length_set]; omega), List.set_set] at hdown
    cases hdown
    -- the last cell itself: nothing moves
    intro j h2 hj
    rw [hlast, cell_clear _ (by omega) hlt _ j hj, cell_clear _ (by omega) hlt _ (j / 2) (by omega)]
    exact hheap j h2 (by omega)
  · have hmem : ∀ j, 1 ≤ j → j ≤ h.size_ - 1 →
        Function.update (cell h.heap) i (cell h.heap h.size_) j ∈
          cells (cell heap') (h.size_ - 1) := by
      intro j hj hjn
      rw [hcells]
      exact mem_cells.mpr ⟨j, hj, hjn, rfl⟩
    have hmoved : cell h.heap h.size_ ∈ cells (cell heap') (h.size_ - 1) := by
      have := hmem i hpos (by omega)
      rwa [Function.update_self] at this
    refine percolateDownLoop_ordered htotal htrans (by rw [List.length_set]; omega) ?_ ?_ ?_ hdown
    · rw [cell_set (by omega)]
      constructor
      · exact hpos
      · omega
      · intro j h2 hjn hj hp
        rw [Function.update_of_ne hj, Function.update_of_ne hp]
        exact hheap j h2 (by omega)
      · -- the child of cell `i` comes after its parent, over the value that goes
        intro h2 c hc hcn
        rw [Function.update_of_ne (by omega), Function.update_of_ne (by omega)]
        have hup := hheap i h2 hi
        have hchild := hheap c (by omega) (by omega)
        rw [hc] at hchild
        exact htrans _ _ _ hup hchild
      · intro h2
        rw [Function.update_of_ne (by omega)]
        exact habove h2
    · intro j k hj hjn hk hkn
      rw [cell_set (by omega)]
      exact hagree _ (hmem j (by omega) hjn) _ (hmem k (by omega) hkn)
    · intro j hj hjn
      rw [cell_set (by omega)]
      exact hagree _ (hmem j (by omega) hjn) _ hmoved

variable (lt) in
/-- **`delete_min` stays inside the vector and removes exactly the root.** -/
theorem deleteMin_ok {h : BinaryHeap T} (hb : h.InBounds) (hne : h.size_ ≠ 0) :
    ∃ h', h.deleteMin lt = .ok h' ∧ h'.InBounds ∧
      h.contents = cell h.heap 1 ::ₘ h'.contents := by
  have hlt : h.size_ < h.heap.length := hb
  obtain ⟨heap', hok, hlen, hcells⟩ := sink_last_ok lt hb (le_refl 1) (by omega)
  refine ⟨{ size_ := h.size_ - 1, heap := heap'.set h.size_ default }, ?_, ?_, ?_⟩
  · rw [deleteMin_eq lt hb hne, hok, ok_bind, writeAt_of_lt (by omega), ok_bind]
  · show h.size_ - 1 < (heap'.set h.size_ default).length
    rw [List.length_set]
    omega
  · have hkeep := cells_congr fun i (_ : 1 ≤ i) hi =>
      cell_clear heap' (show 1 ≤ h.size_ by omega) (by omega) default i hi
    show h.contents = cell h.heap 1 ::ₘ cells (cell (heap'.set h.size_ default)) (h.size_ - 1)
    rw [hkeep, hcells]
    exact (cells_replaced (le_refl 1) (by omega)).symm

/-- `delete_min` keeps the heap order when `lt` orders the values that stay rightly. -/
theorem deleteMin_ordered (htotal : ∀ a b, le a b ∨ le b a)
    (htrans : ∀ a b c, le a b → le b c → le a c) {h h' : BinaryHeap T} (hb : h.InBounds)
    (hheap : h.IsHeap le) (h1 : h.deleteMin lt = .ok h')
    (hagree : ∀ a ∈ h'.contents, ∀ b ∈ h'.contents, Agree lt le a b) : h'.IsHeap le := by
  have hlt : h.size_ < h.heap.length := hb
  have hne : h.size_ ≠ 0 := by
    intro h0
    unfold deleteMin at h1
    rw [guardOr_neg (by simpa using h0)] at h1
    cases h1
  obtain ⟨heap', hdown, hlen, -⟩ := sink_last_ok lt hb (le_refl 1) (by omega)
  rw [deleteMin_eq lt hb hne, hdown, ok_bind, writeAt_of_lt (by omega), ok_bind] at h1
  cases h1
  -- only the cells in use decide the order, and the one cleared is not in use
  have hclear := cell_clear heap' (show 1 ≤ h.size_ by omega) (by omega) default
  have hkeep := cells_congr fun i (_ : 1 ≤ i) hi => hclear i hi
  have hord : Ordered le (cell heap') (h.size_ - 1) := by
    refine sink_last_ordered htotal htrans hb hheap (le_refl 1) (by omega) (by omega) hdown ?_
    rw [← hkeep]
    exact hagree
  intro i h2 hin
  have hin' : i ≤ h.size_ - 1 := hin
  show le (cell (heap'.set h.size_ default) (i / 2)) (cell (heap'.set h.size_ default) i)
  rw [hclear i hin', hclear (i / 2) (by omega)]
  exact hord i h2 hin'

end Liby.BinaryHeap
