import Liby.Infra.MachineInt
import Mathlib.Data.List.DropRight

/-!
# Pointers into a block of bytes

A parser written with raw pointers moves them through one block. A pointer is the number of
bytes before it, and every read is checked against the block, not against the range that the
caller had in mind.

The lemmas say what a scan finds in a block `d` that is `before ++ range ++ after`; the pointers
are given by equations, so that a caller can split the same block in several ways.
-/

namespace Infra

/-- A block of bytes. -/
abbrev Bytes := List UInt8

/-- The bytes of an ASCII literal. -/
def str (s : String) : Bytes := s.toList.map fun c => UInt8.ofNat c.toNat

namespace Cursor

/-- `std::isspace` in the C locale. -/
def isspace (c : UInt8) : Bool := c == 32 || (decide (9 ≤ c) && decide (c ≤ 13))

/-- `std::find(first, last, c)`: the first `c`, or `last` if there is none. -/
def find (d : Bytes) (first last : Nat) (c : UInt8) : Exec Nat :=
  if first ≤ last ∧ last ≤ d.length then .ok (first + ((d.take last).drop first).idxOf c)
  else .error .badRange

/-- `*(p - 1)`. -/
def readBefore (d : Bytes) (p : Nat) : Exec UInt8 :=
  match p with
  | 0 => .error .outOfBounds
  | p + 1 => readAt d p

/-- `std::string(first, last)`. -/
def string (d : Bytes) (first last : Nat) : Exec Bytes :=
  if first ≤ last ∧ last ≤ d.length then .ok ((d.take last).drop first) else .error .badRange

/-- `while (isspace(*left)) left--;`, from and to the pointer after `left`. -/
def skipBack (d : Bytes) : Nat → Exec Nat
  | 0 => .error .outOfBounds
  | left + 1 => do
    let c ← readAt d left
    if isspace c then skipBack d left else .ok (left + 1)

/-- The scan of `skipForward` over the bytes from `right` on. -/
def skipForwardIn (right : Nat) : Bytes → Exec Nat
  | [] => .error .outOfBounds
  | c :: cs => if isspace c then skipForwardIn (right + 1) cs else .ok right

/-- `while (isspace(*right)) right++;`. -/
def skipForward (d : Bytes) (right : Nat) : Exec Nat := skipForwardIn right (d.drop right)

/-! ## Ranges -/

/-- The bytes from `first` to `last`. -/
def window (d : Bytes) (first last : Nat) : Bytes := (d.take last).drop first

variable {d : Bytes} {first last : Nat}

theorem length_window (hrange : first ≤ last ∧ last ≤ d.length) :
    (window d first last).length = last - first := by
  unfold window
  rw [List.length_drop, List.length_take]
  omega

theorem slice_append (before range after : Bytes) :
    ((before ++ range ++ after).take (before.length + range.length)).drop before.length = range := by
  rw [← List.length_append, List.take_left, List.drop_left]

/-- A search in a range of the block. -/
theorem find_range (before range after : Bytes) (hd : d = before ++ range ++ after)
    (hf : first = before.length) (hl : last = before.length + range.length) (c : UInt8) :
    find d first last c = .ok (before.length + range.idxOf c) := by
  subst hd hf hl
  unfold find
  rw [if_pos (by simp only [List.length_append]; omega), slice_append]

/-- A search in a range that has `c` after `token`. -/
theorem find_token (before token rest after : Bytes) {c : UInt8}
    (hd : d = before ++ (token ++ c :: rest) ++ after) (hf : first = before.length)
    (hl : last = before.length + (token ++ c :: rest).length) (h : c ∉ token) :
    find d first last c = .ok (before.length + token.length) := by
  rw [find_range before (token ++ c :: rest) after hd hf hl, List.idxOf_append_of_notMem h,
    List.idxOf_cons_self, Nat.add_zero]

/-- A search that finds nothing. -/
theorem find_none (before range after : Bytes) (hd : d = before ++ range ++ after)
    (hf : first = before.length) (hl : last = before.length + range.length) {c : UInt8}
    (h : c ∉ range) : find d first last c = .ok last := by
  rw [find_range before range after hd hf hl, List.idxOf_of_notMem h, hl]

/-- What `std::find` finds does not lie before the range. -/
theorem le_of_find {c : UInt8} {finish : Nat} (h : find d first last c = .ok finish) :
    first ≤ finish ∧ first ≤ last := by
  unfold find at h
  split at h
  · next hrange =>
    cases h
    exact ⟨Nat.le_add_right _ _, hrange.1⟩
  · cases h

/-- A search that starts after the end of the block. -/
theorem find_past (h : d.length < first) (c : UInt8) :
    find d first d.length c = .error .badRange := if_neg (by omega)

theorem string_range (before range after : Bytes) (hd : d = before ++ range ++ after)
    (hf : first = before.length) (hl : last = before.length + range.length) :
    string d first last = .ok range := by
  subst hd hf hl
  unfold string
  rw [if_pos (by simp only [List.length_append]; omega), slice_append]

theorem take_idxOf (c : UInt8) : ∀ rest : Bytes, rest.take (rest.idxOf c) = rest.takeWhile (· ≠ c)
  | [] => rfl
  | x :: rest => by
    by_cases hx : x = c
    · simp [hx]
    · rw [List.idxOf_cons_ne rest hx, List.take_succ_cons, take_idxOf c rest,
        List.takeWhile_cons_of_pos (by simpa using hx)]

/-- The token that a search has delimited. -/
theorem string_find {c : UInt8} {finish : Nat} (h : find d first last c = .ok finish) :
    string d first finish = .ok ((window d first last).takeWhile (· ≠ c)) := by
  unfold find at h
  split at h
  · next hrange =>
    cases h
    have hle := @List.idxOf_le_length _ _ _ ((d.take last).drop first) c
    rw [List.length_drop, List.length_take] at hle
    unfold string window
    rw [if_pos (by omega), ← take_idxOf, List.drop_take, List.drop_take, List.take_take]
    congr 2
    rw [List.drop_take] at hle
    omega
  · cases h

theorem string_bad (h : last < first) : string d first last = .error .badRange :=
  if_neg (by omega)

theorem readBefore_snoc (before : Bytes) (c : UInt8) (after : Bytes)
    (hd : d = before ++ c :: after) (hl : last = before.length + 1) :
    readBefore d last = .ok c := by
  subst hd hl
  unfold readBefore
  rw [readAt_eq_ok, List.getElem?_append_right le_rfl, Nat.sub_self, List.getElem?_cons_zero]

/-! ## Blanks -/

theorem isspace_LF : isspace 10 = true := by decide

theorem isspace_CR : isspace 13 = true := by decide

theorem rdropWhile_append_rtakeWhile (name : Bytes) :
    name.rdropWhile isspace ++ name.rtakeWhile isspace = name := by
  have hrev := congrArg List.reverse
    (List.takeWhile_append_dropWhile (p := isspace) (l := name.reverse))
  rwa [List.reverse_append, List.reverse_reverse] at hrev

/-- One step back over a blank. -/
theorem skipBack_snoc (before : Bytes) (c : UInt8) (after : Bytes)
    (hd : d = before ++ c :: after) (hl : last = before.length + 1) :
    skipBack d last = if isspace c then skipBack d before.length else .ok last := by
  have hread : readAt d before.length = .ok c := by
    rw [hd, readAt_eq_ok, List.getElem?_append_right le_rfl, Nat.sub_self,
      List.getElem?_cons_zero]
  rw [hl, skipBack, hread, ok_bind]

/-- Backwards over blanks. -/
theorem skipBack_blanks (before blanks after : Bytes) (hd : d = before ++ blanks ++ after)
    (hl : last = before.length + blanks.length) (h : ∀ c ∈ blanks, isspace c = true) :
    skipBack d last = skipBack d before.length := by
  induction blanks using List.reverseRecOn generalizing after last with
  | nil => rw [hl]; rfl
  | append_singleton cs c ih =>
    rw [skipBack_snoc (before ++ cs) c after (by simp [hd]) (by simp [hl]; omega),
      if_pos (h c (by simp))]
    exact ih (c :: after) (by simp [hd]) (by simp)
      fun c' hc' => h c' (List.mem_append_left _ hc')

/-- Backwards over the blanks at the end of `name`, to its last byte that is not blank. -/
theorem skipBack_name (before name after : Bytes) (hd : d = before ++ name ++ after)
    (hl : last = before.length + name.length) (h : ∃ c ∈ name, isspace c = false) :
    skipBack d last = .ok (before.length + (name.rdropWhile isspace).length) := by
  have hne : name.rdropWhile isspace ≠ [] := by
    intro hnil
    obtain ⟨c, hc, hspace⟩ := h
    rw [List.rdropWhile_eq_nil_iff] at hnil
    rw [hnil c hc] at hspace
    cases hspace
  have hlast := List.rdropWhile_last_not isspace name hne
  obtain ⟨init, c, hinit⟩ := (List.eq_nil_or_concat (name.rdropWhile isspace)).resolve_left hne
  rw [List.concat_eq_append] at hinit
  have hc : isspace c = false := by
    have hget : (name.rdropWhile isspace).getLast hne = c := by simp [hinit]
    rw [hget] at hlast
    simpa using hlast
  have hsplit := rdropWhile_append_rtakeWhile name
  rw [skipBack_blanks (before ++ name.rdropWhile isspace) (name.rtakeWhile isspace) after
      (by rw [hd, List.append_assoc before (name.rdropWhile isspace), hsplit])
      (by rw [List.length_append, Nat.add_assoc, ← List.length_append, hsplit, hl])
      (fun c hc => List.mem_rtakeWhile_imp hc),
    skipBack_snoc (before ++ init) c (name.rtakeWhile isspace ++ after)
      (by rw [hd]; conv_lhs => rw [← hsplit, hinit]
          simp)
      (by simp [hinit]; omega)]
  simp [hc]

/-- A backwards scan never goes forward. -/
theorem skipBack_le : ∀ {p q : Nat}, skipBack d p = .ok q → q ≤ p
  | 0, _, h => by cases h
  | p + 1, q, h => by
    rw [skipBack] at h
    obtain ⟨c, -, h⟩ := bind_eq_ok.mp h
    split at h
    · exact le_trans (skipBack_le h) (Nat.le_succ p)
    · cases h
      exact le_rfl

theorem skipForwardIn_blanks {blanks : Bytes} (h : ∀ c ∈ blanks, isspace c = true) (right : Nat)
    (rest : Bytes) :
    skipForwardIn right (blanks ++ rest) = skipForwardIn (right + blanks.length) rest := by
  induction blanks generalizing right with
  | nil => rfl
  | cons c cs ih =>
    rw [List.cons_append, skipForwardIn, if_pos (h c List.mem_cons_self),
      ih (fun c' hc' => h c' (List.mem_cons_of_mem c hc')), List.length_cons]
    congr 1
    omega

/-- A forward scan never goes back. -/
theorem le_skipForwardIn {q : Nat} : ∀ {rest : Bytes} {right : Nat},
    skipForwardIn right rest = .ok q → right ≤ q
  | [], _, h => by cases h
  | c :: cs, right, h => by
    rw [skipForwardIn] at h
    split at h
    · exact le_trans (Nat.le_succ right) (le_skipForwardIn h)
    · cases h
      exact le_rfl

theorem le_skipForward {right q : Nat} (h : skipForward d right = .ok q) : right ≤ q :=
  le_skipForwardIn h

/-- Forwards over the blanks at the start of `value`, to its first byte that is not blank. -/
theorem skipForward_value (before value after : Bytes) (hd : d = before ++ value ++ after)
    (hf : first = before.length) (h : ∃ c ∈ value, isspace c = false) :
    skipForward d first = .ok (before.length + (value.takeWhile isspace).length) := by
  obtain ⟨c, cs, hdrop⟩ : ∃ c cs, value.dropWhile isspace = c :: cs := by
    cases hdw : value.dropWhile isspace with
    | cons c cs => exact ⟨c, cs, rfl⟩
    | nil =>
      obtain ⟨c, hc, hspace⟩ := h
      rw [List.dropWhile_eq_nil_iff] at hdw
      rw [hdw c hc] at hspace
      cases hspace
  have hc : isspace c = false := by
    have hhead := List.head?_dropWhile_not isspace value
    rw [hdrop] at hhead
    simpa using hhead
  unfold skipForward
  rw [hd, hf, List.append_assoc, List.drop_left]
  conv_lhs => rw [← List.takeWhile_append_dropWhile (p := isspace) (l := value), hdrop]
  rw [List.append_assoc, skipForwardIn_blanks fun c hc => List.mem_takeWhile_imp hc,
    List.cons_append, skipForwardIn, hc]
  rfl

/-- Forwards over a range that is all blank, and beyond it. -/
theorem skipForward_blanks (before blanks after : Bytes) (hd : d = before ++ blanks ++ after)
    (hf : first = before.length) (h : ∀ c ∈ blanks, isspace c = true) :
    skipForward d first = skipForwardIn (before.length + blanks.length) after := by
  unfold skipForward
  rw [hd, hf, List.append_assoc, List.drop_left, skipForwardIn_blanks h]

end Cursor

end Infra
