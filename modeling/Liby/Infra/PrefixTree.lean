import Mathlib.Logic.Function.Basic
import Mathlib.Tactic.Common

/-!
# Prefix trees

A node has a value or none, and a child or none for each letter. A word is looked up by going down
from the root, one child a letter, so a tree is a map from words to values.
-/

namespace Infra

universe u v

/-- A tree whose edges are letters of `K`, with values at some of its nodes. -/
inductive PrefixTree (K : Type u) (V : Type v) where
  | node (value : Option V) (child : K → Option (PrefixTree K V))

namespace PrefixTree

variable {K : Type u} {V : Type v}

/-- The value at the root. -/
def value : PrefixTree K V → Option V
  | node value _ => value

/-- The trees below the root. -/
def child : PrefixTree K V → K → Option (PrefixTree K V)
  | node _ child => child

/-- A root without a value and without children. -/
def empty : PrefixTree K V := node none fun _ => none

def setValue (t : PrefixTree K V) (value : Option V) : PrefixTree K V := node value t.child

def setChild [DecidableEq K] (t : PrefixTree K V) (k : K) (c : PrefixTree K V) : PrefixTree K V :=
  node t.value (Function.update t.child k (some c))

/-- The value of a word. -/
def get : List K → PrefixTree K V → Option V
  | [], t => t.value
  | k :: ks, t =>
    match t.child k with
    | none => none
    | some c => get ks c

/-- The child of a letter, a new one if there is none. -/
def childOrEmpty (t : PrefixTree K V) (k : K) : PrefixTree K V := (t.child k).getD empty

/-- The tree with another value for a word. The nodes on the way are made. -/
def alter [DecidableEq K] (f : Option V → Option V) : List K → PrefixTree K V → PrefixTree K V
  | [], t => t.setValue (f t.value)
  | k :: ks, t => t.setChild k (alter f ks (t.childOrEmpty k))

@[simp] theorem value_empty : (empty : PrefixTree K V).value = none := rfl

@[simp] theorem child_empty (k : K) : (empty : PrefixTree K V).child k = none := rfl

@[simp] theorem value_setValue (t : PrefixTree K V) (x : Option V) : (t.setValue x).value = x := rfl

@[simp] theorem child_setValue (t : PrefixTree K V) (x : Option V) :
    (t.setValue x).child = t.child := rfl

@[simp] theorem get_nil (t : PrefixTree K V) : get [] t = t.value := rfl

/-- No word has a value in an empty tree. -/
@[simp] theorem get_empty : ∀ ks : List K, get ks (empty : PrefixTree K V) = none
  | [] => rfl
  | _ :: _ => rfl

/-- Going down to a child that is not there finds what an empty tree has. -/
theorem get_cons (k : K) (ks : List K) (t : PrefixTree K V) :
    get (k :: ks) t = get ks (t.childOrEmpty k) := by
  unfold childOrEmpty
  rw [get]
  cases t.child k with
  | none => exact (get_empty ks).symm
  | some c => rfl

section

variable [DecidableEq K]

@[simp] theorem value_setChild (t : PrefixTree K V) (k : K) (c : PrefixTree K V) :
    (t.setChild k c).value = t.value := rfl

theorem childOrEmpty_setChild (t : PrefixTree K V) (k k' : K) (c : PrefixTree K V) :
    (t.setChild k c).childOrEmpty k' = if k = k' then c else t.childOrEmpty k' := by
  unfold childOrEmpty setChild
  by_cases hk : k = k'
  · subst hk
    rw [if_pos rfl, child, Function.update_self]
    rfl
  · rw [if_neg hk, child, Function.update_of_ne (Ne.symm hk)]

/-- **Another value for a word changes that word's value and no other's.** -/
theorem get_alter (f : Option V → Option V) : ∀ (ks ks' : List K) (t : PrefixTree K V),
    get ks' (alter f ks t) = if ks = ks' then f (get ks t) else get ks' t
  | [], [], t => by rw [if_pos rfl, alter, get_nil, value_setValue, get_nil]
  | [], k' :: ks', t => by
    rw [if_neg (by simp), alter, get_cons, get_cons]
    rfl
  | k :: ks, [], t => by
    rw [if_neg (by simp), alter, get_nil, value_setChild, get_nil]
  | k :: ks, k' :: ks', t => by
    rw [alter, get_cons, childOrEmpty_setChild, get_cons k', get_cons k]
    by_cases hk : k = k'
    · subst hk
      -- the same child: the rest of the words decides
      rw [if_pos rfl, get_alter f ks ks' (t.childOrEmpty k)]
      simp only [List.cons.injEq, true_and]
    · rw [if_neg hk, if_neg (by simp [hk])]

theorem get_alter_self (f : Option V → Option V) (ks : List K) (t : PrefixTree K V) :
    get ks (alter f ks t) = f (get ks t) := by
  rw [get_alter, if_pos rfl]

theorem get_alter_ne (f : Option V → Option V) {ks ks' : List K} (h : ks ≠ ks')
    (t : PrefixTree K V) : get ks' (alter f ks t) = get ks' t := by
  rw [get_alter, if_neg h]

end

end PrefixTree

end Infra
