import Liby.Infra.Cursor
import Liby.Infra.Machine
import Liby.Infra.PrefixTree

/-!
# `Trie`

The class template of `util.h`: a node has an element or none and 95 pointers, one for each
character from 32 to 126. `operator[]`, `find` and `insert` each go down the string on their own.
Nodes are never shared and never taken away, so a node is what is below it.
-/

namespace Liby

open Infra

/-- `Trie<T>::max_elements`. -/
abbrev maxElements : Nat := 95

/-- `Trie<T>`: `element_` and `nodes_`. -/
abbrev Trie (T : Type) := PrefixTree (Fin maxElements) T

namespace Trie

variable {T : Type}

abbrev element_ (p : Trie T) : Option T := p.value

abbrev nodes_ (p : Trie T) : Fin maxElements → Option (Trie T) := p.child

/-- `Trie()`. -/
def init : Trie T := PrefixTree.empty

/-- `conv`. A `throw` without an exception ends the program. -/
def conv (c : UInt8) : Exec (Fin maxElements) :=
  if h : 32 ≤ c.toNat ∧ c.toNat ≤ 126 then .ok ⟨c.toNat - 32, by unfold maxElements; omega⟩
  else .error .exception

/-- The end of the descent of `operator[]`. `fresh` is what `new T` gives; the caller does `use` to
what the reference refers to. -/
def indexHere (fresh : T) (use : T → T) (p : Trie T) : T × Trie T :=
  let element := p.element_.getD fresh
  (element, p.setValue (some (use element)))

/-- The descent of `operator[]`. -/
def indexFrom (fresh : T) (use : T → T) : Bytes → Trie T → Exec (T × Trie T)
  | [], p => .ok (indexHere fresh use p)
  | c :: str, p =>
    if c = 0 then .ok (indexHere fresh use p)
    else do
      let i ← conv c
      let q := (p.nodes_ i).getD init
      let (element, q) ← indexFrom fresh use str q
      return (element, p.setChild i q)

/-- `operator[](const char *)`: the element, and the trie after the caller's `use` of it. -/
def index (p : Trie T) (str : Option Bytes) (fresh : T) (use : T → T) : Exec (T × Trie T) := do
  let str ← derefOr .exception str
  indexFrom fresh use str p

/-- The descent of `find`. -/
def findFrom : Bytes → Trie T → Exec Bool
  | [], p => .ok p.element_.isSome
  | c :: str, p =>
    if c = 0 then .ok p.element_.isSome
    else do
      let i ← conv c
      match p.nodes_ i with
      | none => return false
      | some q => findFrom str q

/-- `find(const char *)`. -/
def find (p : Trie T) : Option Bytes → Exec Bool
  | none => .ok false
  | some str => findFrom str p

/-- The descent of `insert`. -/
def insertFrom (element : T) : Bytes → Trie T → Exec (Trie T)
  | [], p => .ok (p.setValue (some element))
  | c :: str, p =>
    if c = 0 then .ok (p.setValue (some element))
    else do
      let i ← conv c
      let q := (p.nodes_ i).getD init
      let q ← insertFrom element str q
      return p.setChild i q

/-- `insert(const char *, const T &)`. -/
def insert (p : Trie T) (str : Option Bytes) (element : T) : Exec (Trie T) := do
  let str ← derefOr .exception str
  insertFrom element str p

/-! ## Strings and paths -/

/-- The characters that `conv` has a place for. -/
def Printable (str : Bytes) : Prop := ∀ c ∈ str, 32 ≤ c.toNat ∧ c.toNat ≤ 126

instance (str : Bytes) : Decidable (Printable str) :=
  inferInstanceAs (Decidable (∀ c ∈ str, 32 ≤ c.toNat ∧ c.toNat ≤ 126))

/-- The place of a character. -/
def place (c : UInt8) : Fin maxElements :=
  ⟨(c.toNat - 32) % maxElements, Nat.mod_lt _ (by decide)⟩

/-- The way down a string. -/
def path (str : Bytes) : List (Fin maxElements) := str.map place

variable {c d : UInt8} {t : Trie T}

theorem conv_eq (h : 32 ≤ c.toNat ∧ c.toNat ≤ 126) : conv c = .ok (place c) := by
  unfold conv
  rw [dif_pos h]
  congr 1
  refine Fin.ext ?_
  show c.toNat - 32 = (c.toNat - 32) % 95
  rw [Nat.mod_eq_of_lt (by omega)]

theorem ne_zero_of_printable (h : 32 ≤ c.toNat ∧ c.toNat ≤ 126) : ¬c = 0 := by
  rintro rfl
  exact absurd h.1 (by decide)

theorem place_inj (hc : 32 ≤ c.toNat ∧ c.toNat ≤ 126) (hd : 32 ≤ d.toNat ∧ d.toNat ≤ 126)
    (h : place c = place d) : c = d := by
  have hval : (c.toNat - 32) % 95 = (d.toNat - 32) % 95 := congrArg Fin.val h
  rw [Nat.mod_eq_of_lt (by omega), Nat.mod_eq_of_lt (by omega)] at hval
  exact UInt8.toNat_inj.mp (by omega)

/-- Different strings have different ways. -/
theorem path_inj : ∀ {str other : Bytes}, Printable str → Printable other →
    path str = path other → str = other
  | [], [], _, _, _ => rfl
  | [], _ :: _, _, _, h => by cases h
  | _ :: _, [], _, _, h => by cases h
  | c :: str, d :: other, hc, hd, h => by
    obtain ⟨hplace, hrest⟩ := List.cons.inj h
    rw [place_inj (hc c List.mem_cons_self) (hd d List.mem_cons_self) hplace,
      path_inj (fun x hx => hc x (List.mem_cons_of_mem c hx))
        (fun x hx => hd x (List.mem_cons_of_mem d hx)) hrest]

/-! ## The three descents follow the same path -/

theorem findFrom_eq : ∀ {str : Bytes}, Printable str → ∀ p : Trie T,
    findFrom str p = .ok (p.get (path str)).isSome
  | [], _, _ => rfl
  | c :: str, h, p => by
    have hc := h c List.mem_cons_self
    have hrest : Printable str := fun x hx => h x (List.mem_cons_of_mem c hx)
    rw [findFrom, if_neg (ne_zero_of_printable hc), conv_eq hc, ok_bind]
    show _ = Except.ok (PrefixTree.get (place c :: path str) p).isSome
    rw [PrefixTree.get]
    unfold nodes_
    cases hq : p.child (place c) with
    | none => rfl
    | some q => exact findFrom_eq hrest q

theorem insertFrom_eq (element : T) : ∀ {str : Bytes}, Printable str → ∀ p : Trie T,
    insertFrom element str p = .ok (p.alter (fun _ => some element) (path str))
  | [], _, _ => rfl
  | c :: str, h, p => by
    have hc := h c List.mem_cons_self
    have hrest : Printable str := fun x hx => h x (List.mem_cons_of_mem c hx)
    rw [insertFrom, if_neg (ne_zero_of_printable hc), conv_eq hc, ok_bind]
    dsimp only
    rw [insertFrom_eq element hrest, ok_bind]
    rfl

theorem indexFrom_eq (fresh : T) (use : T → T) : ∀ {str : Bytes}, Printable str → ∀ p : Trie T,
    indexFrom fresh use str p = .ok ((p.get (path str)).getD fresh,
      p.alter (fun x => some (use (x.getD fresh))) (path str))
  | [], _, _ => rfl
  | c :: str, h, p => by
    have hc := h c List.mem_cons_self
    have hrest : Printable str := fun x hx => h x (List.mem_cons_of_mem c hx)
    rw [indexFrom, if_neg (ne_zero_of_printable hc), conv_eq hc, ok_bind]
    dsimp only
    rw [indexFrom_eq fresh use hrest, ok_bind]
    show Except.ok (_, _) = Except.ok (PrefixTree.get (place c :: path str) p |>.getD fresh, _)
    rw [PrefixTree.get_cons]
    rfl

/-! ## Sequences of operations -/

/-- A call on a trie of strings. -/
inductive TrieOp (T : Type) where
  | insert (str : Bytes) (element : T)
  /-- `t[str]`, which is read. -/
  | index (str : Bytes) (fresh : T)
  /-- `t[str] = element`. -/
  | assign (str : Bytes) (fresh element : T)

namespace TrieOp

/-- The string of the call. -/
def key : TrieOp T → Bytes
  | .insert str _ | .index str _ | .assign str _ _ => str

/-- The value that the call stores. -/
def stored : TrieOp T → Option T
  | .insert _ element | .assign _ _ element => some element
  | .index _ _ => none

/-- What the call makes of the value of its string. -/
def change : TrieOp T → Option T → Option T
  | .insert _ element, _ | .assign _ _ element, _ => some element
  | .index _ fresh, x => some (x.getD fresh)

end TrieOp

def step (t : Trie T) : TrieOp T → Exec (Trie T)
  | .insert str element => t.insert (some str) element
  | .index str fresh => do
    let (_, t) ← t.index (some str) fresh id
    return t
  | .assign str fresh element => do
    let (_, t) ← t.index (some str) fresh fun _ => element
    return t

/-- The last value that the calls store under a string. -/
def lastStored (ops : List (TrieOp T)) (str : Bytes) : Option T :=
  (ops.filterMap fun op => if op.key = str then op.stored else none).getLast?

/-- What `t[str]` reads. -/
def read (t : Trie T) (str : Bytes) (fresh : T) : Exec T := do
  let (element, _) ← t.index (some str) fresh id
  return element

/-- A trie that answers as a map does that `ops` were done to. -/
structure Answers (t : Trie T) (ops : List (TrieOp T)) : Prop where
  find : ∀ str, Printable str → t.find (some str) = .ok (decide (str ∈ ops.map TrieOp.key))
  read : ∀ str fresh element, Printable str → lastStored ops str = some element →
    t.read str fresh = .ok element
  others : ∀ op str, Printable op.key → Printable str → op.key ≠ str →
    ∃ t', t.step op = .ok t' ∧ t'.find (some str) = t.find (some str) ∧
      ∀ fresh, t'.read str fresh = t.read str fresh

/-! ## The map -/

/-- The map that the calls make. -/
def next (m : Bytes → Option T) (op : TrieOp T) : Bytes → Option T :=
  Function.update m op.key (op.change (m op.key))

/-- The trie has the values of the map. -/
def Holds (t : Trie T) (m : Bytes → Option T) : Prop :=
  ∀ str, Printable str → t.get (path str) = m str

variable {op : TrieOp T} {ops : List (TrieOp T)} {m : Bytes → Option T}

theorem find_eq {str : Bytes} (h : Printable str) (t : Trie T) :
    t.find (some str) = .ok (t.get (path str)).isSome := findFrom_eq h t

theorem read_eq {str : Bytes} (h : Printable str) (t : Trie T) (fresh : T) :
    t.read str fresh = .ok ((t.get (path str)).getD fresh) := by
  unfold read index
  rw [derefOr_some, ok_bind, indexFrom_eq fresh id h, ok_bind]
  rfl

theorem step_eq (h : Printable op.key) (t : Trie T) :
    t.step op = .ok (t.alter op.change (path op.key)) := by
  cases op with
  | insert str element =>
    have hstr : Printable str := h
    simp only [step, insert]
    rw [derefOr_some, ok_bind, insertFrom_eq element hstr]
    rfl
  | index str fresh =>
    have hstr : Printable str := h
    simp only [step, index]
    rw [derefOr_some, ok_bind, indexFrom_eq fresh id hstr, ok_bind]
    rfl
  | assign str fresh element =>
    have hstr : Printable str := h
    simp only [step, index]
    rw [derefOr_some, ok_bind, indexFrom_eq fresh _ hstr, ok_bind]
    rfl

/-- A call does to the trie what it does to the map. -/
theorem Holds.step (h : t.Holds m) (hop : Printable op.key) :
    ∃ t', t.step op = .ok t' ∧ t'.Holds (next m op) := by
  refine ⟨_, step_eq hop t, fun str hstr => ?_⟩
  unfold next
  by_cases hsame : op.key = str
  · subst hsame
    rw [PrefixTree.get_alter_self, Function.update_self, h op.key hstr]
  · have hpath : path op.key ≠ path str := fun heq => hsame (path_inj hop hstr heq)
    rw [PrefixTree.get_alter_ne _ hpath, Function.update_of_ne (Ne.symm hsame), h str hstr]

/-- The calls one after the other. -/
theorem holds_of_ops (hops : ∀ op ∈ ops, Printable op.key) :
    ∃ t, run step (init : Trie T) ops = .ok t ∧ t.Holds (ops.foldl next fun _ => none) := by
  refine run_follows (C := fun _ op => Printable op.key) (fun t m op ht hop => ht.step hop) ops ?_
    (along_of_forall (fun op hop _ => hops op hop) _)
  exact fun str _ => PrefixTree.get_empty (path str)

theorem isSome_change (op : TrieOp T) (x : Option T) : (op.change x).isSome := by
  cases op <;> rfl

/-- The keys of the map are the strings of the calls. -/
theorem isSome_foldl_next (str : Bytes) : ∀ (ops : List (TrieOp T)) (m : Bytes → Option T),
    (ops.foldl next m str).isSome = true ↔ (m str).isSome = true ∨ str ∈ ops.map TrieOp.key
  | [], m => by simp
  | op :: ops, m => by
    rw [List.foldl_cons, isSome_foldl_next str ops, List.map_cons, List.mem_cons, ← or_assoc]
    refine or_congr_left ?_
    unfold next
    by_cases hsame : str = op.key
    · subst hsame
      rw [Function.update_self]
      exact ⟨fun _ => .inr rfl, fun _ => isSome_change op _⟩
    · rw [Function.update_of_ne hsame]
      exact ⟨.inl, fun h => h.resolve_right hsame⟩

/-- The values of the map are the last ones stored. -/
theorem foldl_next_of_stored (str : Bytes) (m : Bytes → Option T) :
    ∀ (ops : List (TrieOp T)) (element : T), lastStored ops str = some element →
      ops.foldl next m str = some element := by
  intro ops
  induction ops using List.reverseRecOn with
  | nil =>
    intro element h
    cases h
  | append_singleton ops op ih =>
    intro element h
    unfold lastStored at h ih
    rw [List.foldl_append]
    rw [List.filterMap_append, List.filterMap_cons, List.filterMap_nil] at h
    show next (ops.foldl next m) op str = some element
    by_cases hsame : op.key = str
    · subst hsame
      rw [if_pos rfl] at h
      rw [next, Function.update_self]
      cases op with
      | insert str' x => simpa [TrieOp.stored, TrieOp.change] using h
      | assign str' fresh x => simpa [TrieOp.stored, TrieOp.change] using h
      | index str' fresh =>
        -- a string that is read keeps its value
        rw [ih element (by simpa [TrieOp.stored] using h)]
        rfl
    · rw [if_neg hsame] at h
      rw [next, Function.update_of_ne (Ne.symm hsame)]
      exact ih element (by simpa using h)

/--
**A trie is a map on printable strings.** After every sequence of calls it finds exactly the strings
that were inserted or indexed, `operator[]` gives the last value stored, and a call for one string
leaves the others as they are.
-/
theorem answers_of_ops (hops : ∀ op ∈ ops, Printable op.key) :
    ∃ t, run step (init : Trie T) ops = .ok t ∧ t.Answers ops := by
  obtain ⟨t, ht, hholds⟩ := holds_of_ops hops
  refine ⟨t, ht, ?_, ?_, ?_⟩
  · intro str hstr
    rw [find_eq hstr, hholds str hstr]
    have hkeys := isSome_foldl_next str ops fun _ => none
    simp only [Option.isSome_none, Bool.false_eq_true, false_or] at hkeys
    congr 1
    rw [Bool.eq_iff_iff, hkeys, decide_eq_true_iff]
  · intro str fresh element hstr hlast
    rw [read_eq hstr, hholds str hstr, foldl_next_of_stored str _ ops element hlast]
    rfl
  · intro op str hop hstr hne
    have hpath : path op.key ≠ path str := fun heq => hne (path_inj hop hstr heq)
    have hget : (t.alter op.change (path op.key)).get (path str) = t.get (path str) :=
      PrefixTree.get_alter_ne _ hpath t
    refine ⟨_, step_eq hop t, ?_, fun fresh => ?_⟩
    · rw [find_eq hstr, find_eq hstr, hget]
    · rw [read_eq hstr, read_eq hstr, hget]

/-- The empty string, a string and a prefix of it. -/
def prefixOps : List (TrieOp Nat) :=
  [.insert (str "abc") 1, .assign (str "ab") 0 2, .index [] 7, .assign (str "abc") 0 3]

theorem answers_of_prefixOps :
    ∃ t, run step (init : Trie Nat) prefixOps = .ok t ∧ t.Answers prefixOps :=
  answers_of_ops (by decide +kernel)

end Trie

end Liby
