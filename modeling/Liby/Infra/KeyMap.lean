import Mathlib.Data.List.Nodup
import Mathlib.Tactic.Common

/-!
# Maps with an order on their keys

A map as the list of its entries. It looks at its keys only by the order `lt`: two keys are the same
if neither comes before the other. With an order that tells all keys apart (`Separates`) this is a
map by equality.
-/

namespace Infra

variable {K V : Type _} (lt : K → K → Bool)

/-- Neither key comes before the other. -/
def sameKey (a b : K) : Bool := !lt a b && !lt b a

/-- Only equal keys are the same. -/
def Separates : Prop := ∀ a b, sameKey lt a b = true ↔ a = b

/-- The entries of a map. -/
abbrev KeyMap (K V : Type _) := List (K × V)

namespace KeyMap

/-- The value of a key. -/
def find (m : KeyMap K V) (k : K) : Option V := (List.find? (fun e => sameKey lt e.1 k) m).map Prod.snd

/-- The map with a value for a key that had none. -/
def insert (m : KeyMap K V) (k : K) (v : V) : KeyMap K V :=
  if (m.find lt k).isSome then m else m ++ [(k, v)]

/-- The map without a key. -/
def erase (m : KeyMap K V) (k : K) : KeyMap K V := List.filter (fun e => !sameKey lt e.1 k) m

/-- The keys. -/
def keys (m : KeyMap K V) : List K := List.map Prod.fst m

@[simp] theorem find_nil (k : K) : find lt ([] : KeyMap K V) k = none := rfl

variable {lt} (hlt : Separates lt) {m : KeyMap K V} {k k' : K} {v : V}

theorem insert_new (h : m.find lt k = none) : m.insert lt k v = m ++ [(k, v)] := by
  unfold insert
  rw [h]
  rfl

/-- A key without a value is not there to be erased. -/
theorem erase_of_find_none (h : m.find lt k = none) : m.erase lt k = m := by
  unfold find at h
  rw [Option.map_eq_none_iff, List.find?_eq_none] at h
  exact List.filter_eq_self.mpr fun e he => by simpa using h e he

section

variable [DecidableEq K]
include hlt

theorem find_cons (e : K × V) : find lt (e :: m) k = if e.1 = k then some e.2 else m.find lt k := by
  unfold find
  rw [List.find?_cons]
  by_cases he : e.1 = k
  · rw [if_pos he, (hlt e.1 k).mpr he]
    rfl
  · have hne : sameKey lt e.1 k = false := by
      rw [← Bool.not_eq_true, hlt]
      exact he
    rw [if_neg he, hne]

theorem find_append_new (h : m.find lt k = none) (k' : K) :
    find lt (m ++ [(k, v)]) k' = if k = k' then some v else m.find lt k' := by
  induction m with
  | nil => exact find_cons hlt (k, v)
  | cons e m ih =>
    rw [find_cons hlt] at h
    split at h
    · cases h
    · next hne =>
      rw [List.cons_append, find_cons hlt, find_cons hlt, ih h]
      by_cases hk : k = k'
      · subst hk
        rw [if_neg hne, if_pos rfl, if_pos rfl]
      · rw [if_neg hk, if_neg hk]

/-- **A key that was inserted is found, and the others are found as before.** -/
theorem find_insert (h : m.find lt k = none) (k' : K) :
    (m.insert lt k v).find lt k' = if k = k' then some v else m.find lt k' := by
  rw [insert_new h]
  exact find_append_new hlt h k'

/-- **A key that was erased is not found, and the others are found as before.** -/
theorem find_erase (m : KeyMap K V) (k k' : K) :
    (m.erase lt k).find lt k' = if k = k' then none else m.find lt k' := by
  induction m with
  | nil => simp [erase]
  | cons e m ih =>
    by_cases he : e.1 = k
    · have hdrop : erase lt (e :: m) k = erase lt m k :=
        List.filter_cons_of_neg (by simp [(hlt e.1 k).mpr he])
      rw [hdrop, ih]
      by_cases hk : k = k'
      · rw [if_pos hk, if_pos hk]
      · rw [if_neg hk, if_neg hk, find_cons hlt, if_neg (by rw [he]; exact hk)]
    · have hne : sameKey lt e.1 k = false := by
        rw [← Bool.not_eq_true, hlt]
        exact he
      have hkeep : erase lt (e :: m) k = e :: erase lt m k :=
        List.filter_cons_of_pos (by simp [hne])
      rw [hkeep, find_cons hlt, find_cons hlt, ih]
      by_cases hk : k = k'
      · rw [if_pos hk, if_pos hk, if_neg (by rw [← hk]; exact he)]
      · rw [if_neg hk, if_neg hk]

theorem mem_of_find (h : m.find lt k = some v) : (k, v) ∈ m := by
  induction m with
  | nil => cases h
  | cons e m ih =>
    rw [find_cons hlt] at h
    split at h
    · next he =>
      cases h
      rw [← he]
      exact List.mem_cons_self
    · exact List.mem_cons_of_mem e (ih h)

theorem find_isSome : (m.find lt k).isSome = true ↔ k ∈ m.keys := by
  induction m with
  | nil => simp [keys]
  | cons e m ih =>
    rw [find_cons hlt, keys, List.map_cons, List.mem_cons]
    split
    · next he => simp [he]
    · next hne =>
      rw [ih]
      exact ⟨Or.inr, fun h => h.resolve_left (Ne.symm hne)⟩

/-- With one entry for a key, `find` gives the value of each entry. -/
theorem find_of_mem (hkeys : m.keys.Nodup) (h : (k, v) ∈ m) : m.find lt k = some v := by
  obtain ⟨v', hfind⟩ := Option.isSome_iff_exists.mp ((find_isSome hlt).mpr (List.mem_map_of_mem h))
  have hsame := List.inj_on_of_nodup_map hkeys (mem_of_find hlt hfind) h rfl
  exact hfind.trans (congrArg (some ∘ Prod.snd) hsame)

/-- No key has two entries. -/
theorem nodup_insert (h : m.keys.Nodup) : (m.insert lt k v).keys.Nodup := by
  cases hk : m.find lt k with
  | some v' =>
    unfold insert
    rw [hk]
    exact h
  | none =>
    have hnew : k ∉ m.keys := by
      rw [← find_isSome hlt, hk]
      exact Bool.false_ne_true
    rw [insert_new hk, keys, List.map_append]
    exact List.nodup_append.mpr ⟨h, List.nodup_singleton _, by
      rintro a ha b hb rfl
      rw [List.map_singleton, List.mem_singleton] at hb
      rw [hb] at ha
      exact hnew ha⟩

end

theorem nodup_erase (h : m.keys.Nodup) (k : K) : (m.erase lt k).keys.Nodup :=
  h.sublist (List.filter_sublist.map Prod.fst)

end KeyMap

end Infra
