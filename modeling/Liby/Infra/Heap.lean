import Mathlib.Algebra.Order.Group.Multiset
import Mathlib.Data.Multiset.Bind
import Mathlib.Order.Defs.Unbundled
import Mathlib.Order.Interval.Finset.Nat
import Mathlib.Tactic.Common

/-!
# Binary heaps with a hole

The cells of a heap are `v 1, …, v n`, and the parent of cell `i` is cell `i / 2`.
Both sifts move a hole through the cells and write the value they carry once, at the
end. `UpReady` and `DownReady` say which edges are in order while the hole is open.

`cells v n` is the multiset of the values in the heap; opening and moving a hole is
followed through `cells_update`.
-/

namespace Infra.Heap

variable {T : Type _}

/-! ## The values in the cells -/

/-- The values in the cells `1, …, n`. -/
def cells (v : Nat → T) (n : Nat) : Multiset T := (Finset.Icc 1 n).val.map v

theorem mem_cells {v : Nat → T} {n : Nat} {a : T} :
    a ∈ cells v n ↔ ∃ i, 1 ≤ i ∧ i ≤ n ∧ v i = a := by
  unfold cells
  simp only [Multiset.mem_map, Finset.mem_val, Finset.mem_Icc]
  constructor
  · rintro ⟨i, ⟨h1, h2⟩, hv⟩
    exact ⟨i, h1, h2, hv⟩
  · rintro ⟨i, h1, h2, hv⟩
    exact ⟨i, ⟨h1, h2⟩, hv⟩

@[simp] theorem cells_zero (v : Nat → T) : cells v 0 = 0 := rfl

theorem cells_succ (v : Nat → T) (n : Nat) : cells v (n + 1) = v (n + 1) ::ₘ cells v n := by
  have hset : Finset.Icc 1 (n + 1) = insert (n + 1) (Finset.Icc 1 n) := by
    ext i
    simp only [Finset.mem_insert, Finset.mem_Icc]
    omega
  unfold cells
  rw [hset, Finset.insert_val_of_notMem (by simp), Multiset.map_cons]

theorem cells_congr {v w : Nat → T} {n : Nat} (h : ∀ i, 1 ≤ i → i ≤ n → v i = w i) :
    cells v n = cells w n := by
  unfold cells
  refine Multiset.map_congr rfl fun i hi => ?_
  simp only [Finset.mem_val, Finset.mem_Icc] at hi
  exact h i hi.1 hi.2

/-- Writing a cell trades its old value for the new one. -/
theorem cells_update (v : Nat → T) {n i : Nat} (h1 : 1 ≤ i) (hn : i ≤ n) (x : T) :
    v i ::ₘ cells (Function.update v i x) n = x ::ₘ cells v n := by
  induction n with
  | zero => omega
  | succ n ih =>
    rw [cells_succ, cells_succ]
    by_cases hi : i = n + 1
    · have hrest : cells (Function.update v i x) n = cells v n :=
        cells_congr fun j _ hj => Function.update_of_ne (by omega) x v
      rw [hrest, hi, Function.update_self, Multiset.cons_swap]
    · rw [Function.update_of_ne (by omega), Multiset.cons_swap, ih (by omega),
        Multiset.cons_swap]

/-- Moving the hole from `i` to `j` keeps the values. -/
theorem cells_move (v : Nat → T) {n i j : Nat} (hi1 : 1 ≤ i) (hin : i ≤ n) (hj1 : 1 ≤ j)
    (hjn : j ≤ n) (hij : i ≠ j) (x : T) :
    cells (Function.update (Function.update v i (v j)) j x) n
      = cells (Function.update v i x) n := by
  have hmove := cells_update (Function.update v i (v j)) hj1 hjn x
  rw [Function.update_of_ne (Ne.symm hij)] at hmove
  have hopen := cells_update v hi1 hin (v j)
  have hfill := cells_update v hi1 hin x
  have key : v i ::ₘ v j ::ₘ cells (Function.update (Function.update v i (v j)) j x) n
      = v i ::ₘ v j ::ₘ cells (Function.update v i x) n := by
    calc v i ::ₘ v j ::ₘ cells (Function.update (Function.update v i (v j)) j x) n
        = x ::ₘ v i ::ₘ cells (Function.update v i (v j)) n := by
          rw [hmove, Multiset.cons_swap]
      _ = v j ::ₘ x ::ₘ cells v n := by rw [hopen, Multiset.cons_swap]
      _ = v i ::ₘ v j ::ₘ cells (Function.update v i x) n := by
          rw [← hfill, Multiset.cons_swap]
  simpa using key

/-! ## Strict weak orders

"Does not come after" is a total preorder.
-/

theorem not_after_total (lt : T → T → Prop) [IsStrictWeakOrder T lt] (a b : T) :
    ¬lt b a ∨ ¬lt a b := by
  rw [← not_and_or]
  rintro ⟨hba, hab⟩
  exact irrefl_of lt a (trans_of lt hab hba)

theorem not_after_trans (lt : T → T → Prop) [IsStrictWeakOrder T lt] {a b c : T} (hba : ¬lt b a)
    (hcb : ¬lt c b) : ¬lt c a := by
  intro hca
  have hab : ¬lt a b := fun hab => hcb (trans_of lt hca hab)
  have hbc : ¬lt b c := fun hbc => hba (trans_of lt hbc hca)
  exact (IsStrictWeakOrder.incomp_trans a b c ⟨hab, hba⟩ ⟨hbc, hcb⟩).2 hca

/-! ## Heap order -/

variable (le : T → T → Prop)

/-- No cell comes before its parent. -/
def Ordered (v : Nat → T) (n : Nat) : Prop :=
  ∀ i, 2 ≤ i → i ≤ n → le (v (i / 2)) (v i)

variable {le}

/-- **In an ordered heap the root comes before every cell.** -/
theorem Ordered.root_le {v : Nat → T} {n : Nat} (hrefl : ∀ a, le a a)
    (htrans : ∀ a b c, le a b → le b c → le a c) (h : Ordered le v n) :
    ∀ i, 1 ≤ i → i ≤ n → le (v 1) (v i) := by
  intro i
  induction i using Nat.strongRecOn with
  | _ i ih =>
    intro h1 hn
    by_cases hi : i = 1
    · rw [hi]; exact hrefl _
    · exact htrans _ _ _ (ih (i / 2) (by omega) (by omega) (by omega)) (h i (by omega) hn)

theorem Ordered.root_le_cells {v : Nat → T} {n : Nat} (hrefl : ∀ a, le a a)
    (htrans : ∀ a b c, le a b → le b c → le a c) (h : Ordered le v n) :
    ∀ a ∈ cells v n, le (v 1) a := by
  intro a ha
  obtain ⟨i, h1, hn, rfl⟩ := mem_cells.mp ha
  exact h.root_le hrefl htrans i h1 hn

variable (le)

/-- The edges in order while `x` is sifted up and the hole is at `hole`. -/
structure UpReady (v : Nat → T) (n hole : Nat) (x : T) : Prop where
  pos : 1 ≤ hole
  bound : hole ≤ n
  /-- Edges that do not touch the hole. -/
  except : ∀ i, 2 ≤ i → i ≤ n → i ≠ hole → i / 2 ≠ hole → le (v (i / 2)) (v i)
  /-- The children of the hole may be hung under its parent. -/
  grand : 2 ≤ hole → ∀ c, c / 2 = hole → c ≤ n → le (v (hole / 2)) (v c)
  /-- The children of the hole may be hung under `x`. -/
  below : ∀ c, c / 2 = hole → c ≤ n → le x (v c)

/-- The edges in order while `x` is sifted down and the hole is at `hole`. -/
structure DownReady (v : Nat → T) (n hole : Nat) (x : T) : Prop where
  pos : 1 ≤ hole
  bound : hole ≤ n
  /-- Edges that do not touch the hole. -/
  except : ∀ i, 2 ≤ i → i ≤ n → i ≠ hole → i / 2 ≠ hole → le (v (i / 2)) (v i)
  /-- The children of the hole may be hung under its parent. -/
  grand : 2 ≤ hole → ∀ c, c / 2 = hole → c ≤ n → le (v (hole / 2)) (v c)
  /-- `x` may be hung under the parent of the hole. -/
  above : 2 ≤ hole → le (v (hole / 2)) x

variable {le}

/-- A new cell at the end of an ordered heap is a hole to sift up from. -/
theorem UpReady.start {v : Nat → T} {n : Nat} (h : Ordered le v n) (x : T) :
    UpReady le v (n + 1) (n + 1) x where
  pos := by omega
  bound := le_refl _
  except := fun i h2 hn hne _ => h i h2 (by omega)
  grand := fun _ c hc hcn => by omega
  below := fun c hc hcn => by omega

/-- One step up: the parent comes down into the hole. -/
theorem UpReady.move {v : Nat → T} {n hole : Nat} {x : T}
    (htrans : ∀ a b c, le a b → le b c → le a c) (h : UpReady le v n hole x) (h2 : 2 ≤ hole)
    (hle : le x (v (hole / 2))) :
    UpReady le (Function.update v hole (v (hole / 2))) n (hole / 2) x := by
  have hb := h.bound
  -- every sibling below the parent was below it before
  have hedge : ∀ c, c / 2 = hole / 2 → c ≤ n → 2 ≤ c → c ≠ hole → le (v (hole / 2)) (v c) := by
    intro c hc hcn hc2 hne
    rw [← hc]
    exact h.except c hc2 hcn hne (by omega)
  constructor
  · omega
  · omega
  · intro i hi hin hne hpar
    by_cases hself : i = hole
    · omega
    · rw [Function.update_of_ne hself]
      by_cases hchild : i / 2 = hole
      · rw [hchild, Function.update_self]
        exact h.grand h2 i hchild hin
      · rw [Function.update_of_ne hchild]
        exact h.except i hi hin hself hchild
  · intro hq c hc hcn
    rw [Function.update_of_ne (by omega)]
    have hup : le (v (hole / 2 / 2)) (v (hole / 2)) :=
      h.except (hole / 2) hq (by omega) (by omega) (by omega)
    by_cases hch : c = hole
    · rw [hch, Function.update_self]
      exact hup
    · rw [Function.update_of_ne hch]
      exact htrans _ _ _ hup (hedge c hc hcn (by omega) hch)
  · intro c hc hcn
    by_cases hch : c = hole
    · rw [hch, Function.update_self]
      exact hle
    · rw [Function.update_of_ne hch]
      exact htrans _ _ _ hle (hedge c hc hcn (by omega) hch)

/-- The hole is closed where its parent comes before `x`, or at the root. -/
theorem UpReady.close {v : Nat → T} {n hole : Nat} {x : T} (h : UpReady le v n hole x)
    (hstop : 2 ≤ hole → le (v (hole / 2)) x) : Ordered le (Function.update v hole x) n := by
  intro i hi hin
  by_cases hself : i = hole
  · rw [hself, Function.update_self, Function.update_of_ne (by omega)]
    exact hstop (by omega)
  · rw [Function.update_of_ne hself]
    by_cases hchild : i / 2 = hole
    · rw [hchild, Function.update_self]
      exact h.below i hchild hin
    · rw [Function.update_of_ne hchild]
      exact h.except i hi hin hself hchild

/-- No cell whose parent is `lo` or a later cell comes before it. -/
def OrderedFrom (le : T → T → Prop) (lo : Nat) (v : Nat → T) (n : Nat) : Prop :=
  ∀ i, 2 ≤ i → i ≤ n → lo ≤ i / 2 → le (v (i / 2)) (v i)

/-- No cell of the second half has children. -/
theorem orderedFrom_half (v : Nat → T) (n : Nat) : OrderedFrom le (n / 2 + 1) v n := by
  intro i h2 hn hlo
  omega

theorem OrderedFrom.ordered {v : Nat → T} {n : Nat} (h : OrderedFrom le 1 v n) : Ordered le v n :=
  fun i h2 hn => h i h2 hn (by omega)

/-- `DownReady` for the cells from `lo` on. -/
structure DownReadyFrom (le : T → T → Prop) (lo : Nat) (v : Nat → T) (n hole : Nat) (x : T) :
    Prop where
  pos : 1 ≤ hole
  bound : hole ≤ n
  /-- Edges that do not touch the hole. -/
  except : ∀ i, 2 ≤ i → i ≤ n → lo ≤ i / 2 → i ≠ hole → i / 2 ≠ hole → le (v (i / 2)) (v i)
  /-- The children of the hole may be hung under its parent. -/
  grand : 2 ≤ hole → lo ≤ hole / 2 → ∀ c, c / 2 = hole → c ≤ n → le (v (hole / 2)) (v c)
  /-- `x` may be hung under the parent of the hole. -/
  above : 2 ≤ hole → lo ≤ hole / 2 → le (v (hole / 2)) x

theorem DownReady.from_root {v : Nat → T} {n hole : Nat} {x : T} (h : DownReady le v n hole x) :
    DownReadyFrom le 1 v n hole x where
  pos := h.pos
  bound := h.bound
  except := fun i h2 hn _ => h.except i h2 hn
  grand := fun h2 _ => h.grand h2
  above := fun h2 _ => h.above h2

/-- The cell before those in order is a hole to sift down from. -/
theorem DownReadyFrom.start {v : Nat → T} {n hole : Nat} (h : OrderedFrom le (hole + 1) v n)
    (hpos : 1 ≤ hole) (hn : hole ≤ n) (x : T) : DownReadyFrom le hole v n hole x where
  pos := hpos
  bound := hn
  except := fun i h2 hin hlo _ hpar => h i h2 hin (by omega)
  grand := fun h2 hlo => by omega
  above := fun h2 hlo => by omega

/-- One step down: the first child `c` comes up into the hole. -/
theorem DownReadyFrom.move {lo : Nat} {v : Nat → T} {n hole c : Nat} {x : T}
    (h : DownReadyFrom le lo v n hole x) (hlo : lo ≤ hole) (hc : c / 2 = hole) (hcn : c ≤ n)
    (hmin : ∀ d, d / 2 = hole → d ≤ n → le (v c) (v d)) (hle : le (v c) x) :
    DownReadyFrom le lo (Function.update v hole (v c)) n c x := by
  have hpos := h.pos
  constructor
  · omega
  · omega
  · intro i hi hin hfrom hne hpar
    by_cases hself : i = hole
    · rw [hself, Function.update_self, Function.update_of_ne (by omega)]
      exact h.grand (by omega) (by omega) c hc hcn
    · rw [Function.update_of_ne hself]
      by_cases hchild : i / 2 = hole
      · rw [hchild, Function.update_self]
        exact hmin i hchild hin
      · rw [Function.update_of_ne hchild]
        exact h.except i hi hin hfrom hself hchild
  · intro _ _ d hd hdn
    rw [hc, Function.update_self, Function.update_of_ne (by omega), ← hd]
    exact h.except d (by omega) hdn (by omega) (by omega) (by omega)
  · intro _ _
    rw [hc, Function.update_self]
    exact hle

/-- The hole is closed where `x` comes before its children, or at a leaf. -/
theorem DownReadyFrom.close {lo : Nat} {v : Nat → T} {n hole : Nat} {x : T}
    (h : DownReadyFrom le lo v n hole x) (hstop : ∀ c, c / 2 = hole → c ≤ n → le x (v c)) :
    OrderedFrom le lo (Function.update v hole x) n := by
  intro i hi hin hfrom
  by_cases hself : i = hole
  · rw [hself, Function.update_self, Function.update_of_ne (by omega)]
    exact h.above (by omega) (by omega)
  · rw [Function.update_of_ne hself]
    by_cases hchild : i / 2 = hole
    · rw [hchild, Function.update_self]
      exact hstop i hchild hin
    · rw [Function.update_of_ne hchild]
      exact h.except i hi hin hfrom hself hchild

end Infra.Heap
