import Liby.Buffer.ByteQueue
import Liby.Infra.Loop

/-!
# Taking bytes out of a Buffer

`retriveveAsString` and `retriveveAsVector` take a length of zero, or one that is too large, for all
there is, and call themselves again with `size()`. The string is made of the bytes asked for, the
vector of the whole window.
-/

namespace Liby.Buffer

open Infra

/-! ## The two paths -/

/-- `std::vector<char> ret(&buffer_[leftIndex_], &buffer_[rightIndex_])` and `retrieve(len)`. -/
def takeVector (b : Buffer) (len : Nat) : Exec (Bytes × Buffer) := do
  let block ← b.block
  -- the whole window, whatever `len` is
  let ret ← Block.read block b.leftIndex_ (b.rightIndex_ - b.leftIndex_)
  let b ← b.retrieve len
  return (ret, b)

/-- `retriveveAsVector`. With nothing in the buffer it is called again for ever. -/
def retriveveAsVector (b : Buffer) (len : Int) : Exec (Bytes × Buffer) := do
  guardOr .assertFailed (0 ≤ len)
  let size ← b.size
  if len = 0 ∨ size < len then
    if size = 0 then .error .diverges else b.takeVector size
  else b.takeVector len.toNat

/-- `retriveveAllAsString`. -/
def retriveveAllAsString (b : Buffer) : Exec (Bytes × Buffer) := do
  let size ← b.size
  b.retriveveAsString size

/-- `retriveveAllAsVector`. -/
def retriveveAllAsVector (b : Buffer) : Exec (Bytes × Buffer) := do
  let size ← b.size
  b.retriveveAsVector size

variable {b b' : Buffer} {len : Int}

theorem taken_le (bytes : Bytes) (len : Int) : taken bytes len ≤ bytes.length := by
  unfold taken
  split <;> omega

/-- All bytes are taken. -/
theorem taken_eq_length {bytes : Bytes} (hlen : 0 ≤ len) :
    taken bytes len = bytes.length ↔ len = 0 ∨ (bytes.length : Int) ≤ len := by
  unfold taken
  split <;> omega

theorem Wf.takeVector_ok (h : b.Wf) (hne : b.contents ≠ []) (len : Nat) :
    ∃ b', b.takeVector len = .ok (b.contents, b') ∧ b'.Wf ∧
      b'.contents = b.contents.drop len := by
  obtain ⟨block, hb⟩ := block_of_ne hne
  obtain ⟨b', hretrieve, hwf, hcontents, -⟩ := h.retrieve_ok len
  have hlen := h.block block hb
  have hleft := h.left_le
  have hright := h.right_le
  refine ⟨b', ?_, hwf, hcontents⟩
  unfold takeVector Buffer.block
  rw [hb]
  dsimp only
  rw [ok_bind, Block.read_ok block _ _ (by omega), ok_bind, hretrieve, contents_of_block hb]
  rfl

/-- **`retriveveAsVector` returns all bytes, and takes out those it was asked for.** -/
theorem Wf.retriveveAsVector_ok (h : b.Wf) (hne : b.contents ≠ []) (hlen : 0 ≤ len) :
    ∃ b', b.retriveveAsVector len = .ok (b.contents, b') ∧ b'.Wf ∧
      b'.contents = b.contents.drop (taken b.contents len) := by
  unfold retriveveAsVector taken
  rw [guardOr_pos hlen, ok_bind, h.size_eq, ok_bind]
  split
  · have hsize : b.contents.length ≠ 0 := fun hzero => hne (List.length_eq_zero_iff.mp hzero)
    rw [if_neg hsize]
    exact h.takeVector_ok hne _
  · exact h.takeVector_ok hne _

/-! ## The calls -/

/-- The next call of an extraction: of the function for all bytes, or with a length. -/
inductive ExtractCall where
  | all
  | len (len : Int)
  deriving DecidableEq, Repr

/-- One call of `retriveveAllAsString` or `retriveveAsString`: a result, or the call in its last line. -/
def stringCall (b : Buffer) : ExtractCall → Exec (Pass ExtractCall (Bytes × Buffer))
  | .all => do
    let size ← b.size
    return .next (.len size)
  | .len len => do
    guardOr .assertFailed (0 ≤ len)
    let size ← b.size
    if len = 0 ∨ size < len then return .next (.len size)
    else
      let ret ← b.takeString len.toNat
      return .done ret

/-- One call of `retriveveAllAsVector` or `retriveveAsVector`. -/
def vectorCall (b : Buffer) : ExtractCall → Exec (Pass ExtractCall (Bytes × Buffer))
  | .all => do
    let size ← b.size
    return .next (.len size)
  | .len len => do
    guardOr .assertFailed (0 ≤ len)
    let size ← b.size
    if len = 0 ∨ size < len then return .next .all
    else
      let ret ← b.takeVector len.toNat
      return .done ret

/-- The calls end, with a result. An empty buffer gives nothing. -/
def Ends (b : Buffer) (call : ExtractCall → Exec (Pass ExtractCall (Bytes × Buffer)))
    (first : ExtractCall) : Prop :=
  ∃ n ret b', Loop.passes call n first = some (.ok (ret, b')) ∧ (b.contents = [] → ret = [])

/-- The extractions from `b` end, by all four functions. -/
structure ExtractionEnds (b : Buffer) (len : Int) : Prop where
  string : b.Ends b.stringCall (.len len)
  allString : b.Ends b.stringCall .all
  vector : b.Ends b.vectorCall (.len len)
  allVector : b.Ends b.vectorCall .all

/-- A call with a length that is not negative, as all calls are that these calls make. -/
def ExtractCall.Nonneg : ExtractCall → Prop
  | .all => True
  | .len len => 0 ≤ len

theorem nonneg_natCast (n : Nat) : (ExtractCall.len n).Nonneg := Int.natCast_nonneg n

/-! ## What the two paths share -/

/-- The result of an extraction of `len` bytes, where `take` takes them. -/
def extracted (b : Buffer) (take : Nat → Exec (Bytes × Buffer)) (len : Int) : Exec (Bytes × Buffer) :=
  if len = 0 ∨ (b.contents.length : Int) < len then
    if b.contents.length = 0 then .error .diverges else take b.contents.length
  else take len.toNat

/-- A call takes the bytes, or makes the call `again`, for all there are. -/
structure Calls (b : Buffer) (call : ExtractCall → Exec (Pass ExtractCall (Bytes × Buffer)))
    (take : Nat → Exec (Bytes × Buffer)) (again : ExtractCall) : Prop where
  all : call .all = .ok (.next (.len b.contents.length))
  len : ∀ len : Int, 0 ≤ len → call (.len len) =
    if len = 0 ∨ (b.contents.length : Int) < len then .ok (.next again)
    else take len.toNat >>= fun ret => .ok (.done ret)
  again : again = .all ∨ again = .len b.contents.length
  take : ∀ k, 0 < k → k ≤ b.contents.length → ∃ ret, take k = .ok ret

theorem Wf.stringCalls (h : b.Wf) :
    b.Calls b.stringCall b.takeString (.len b.contents.length) where
  all := by
    dsimp only [stringCall]
    rw [h.size_eq]
    rfl
  len := fun len hlen => by
    dsimp only [stringCall]
    rw [guardOr_pos hlen, ok_bind, h.size_eq, ok_bind]
    rfl
  again := .inr rfl
  take := fun k hk hle => by
    obtain ⟨b', hb', -⟩ := h.takeString_ok (List.length_pos_iff.mp (by omega)) hle
    exact ⟨_, hb'⟩

theorem Wf.vectorCalls (h : b.Wf) : b.Calls b.vectorCall b.takeVector .all where
  all := by
    dsimp only [vectorCall]
    rw [h.size_eq]
    rfl
  len := fun len hlen => by
    dsimp only [vectorCall]
    rw [guardOr_pos hlen, ok_bind, h.size_eq, ok_bind]
    rfl
  again := .inl rfl
  take := fun k hk hle => by
    obtain ⟨b', hb', -⟩ := h.takeVector_ok (List.length_pos_iff.mp (by omega)) k
    exact ⟨_, hb'⟩

theorem Wf.retriveveAsString_eq (h : b.Wf) (hlen : 0 ≤ len) :
    b.retriveveAsString len = b.extracted b.takeString len := by
  unfold retriveveAsString
  rw [guardOr_pos hlen, ok_bind, h.size_eq, ok_bind]
  rfl

theorem Wf.retriveveAsVector_eq (h : b.Wf) (hlen : 0 ≤ len) :
    b.retriveveAsVector len = b.extracted b.takeVector len := by
  unfold retriveveAsVector
  rw [guardOr_pos hlen, ok_bind, h.size_eq, ok_bind]
  rfl

namespace Calls

variable {call : ExtractCall → Exec (Pass ExtractCall (Bytes × Buffer))}
  {take : Nat → Exec (Bytes × Buffer)} {again first : ExtractCall}

/-- A call for some of the bytes is the last one. -/
theorem last (h : b.Calls call take again) {k : Nat} (hk : 0 < k) (hle : k ≤ b.contents.length) :
    Loop.passes call 1 (.len k) = some (take k) := by
  obtain ⟨ret, hret⟩ := h.take k hk hle
  rw [hret]
  refine Loop.passes_done ?_
  rw [h.len k (Int.natCast_nonneg k), if_neg (by omega), Int.toNat_natCast, hret, ok_bind]

/-- **With bytes in the buffer the calls come to the result.** -/
theorem passes (h : b.Calls call take again) (hne : b.contents ≠ []) (hlen : 0 ≤ len) :
    ∃ n, Loop.passes call n (.len len) = some (b.extracted take len) := by
  have hpos := List.length_pos_iff.mpr hne
  have hnext := h.len len hlen
  unfold extracted
  by_cases hall : len = 0 ∨ (b.contents.length : Int) < len
  · rw [if_pos hall] at hnext
    rw [if_pos hall, if_neg hpos.ne']
    have hlast := h.last hpos le_rfl
    -- the strings' call has the length at once, the vectors' goes by the function for all bytes
    rcases h.again with rfl | rfl
    · exact ⟨3, Loop.passes_next hnext (Loop.passes_next h.all hlast)⟩
    · exact ⟨2, Loop.passes_next hnext hlast⟩
  · obtain ⟨k, rfl⟩ := Int.eq_ofNat_of_zero_le hlen
    rw [if_neg hall, Int.toNat_natCast]
    exact ⟨1, h.last (by omega) (by omega)⟩

/-- With bytes in the buffer there is a result. -/
theorem extracted_ok (h : b.Calls call take again) (hne : b.contents ≠ []) (hlen : 0 ≤ len) :
    ∃ ret, b.extracted take len = .ok ret := by
  have hpos := List.length_pos_iff.mpr hne
  unfold extracted
  split
  · rw [if_neg hpos.ne']
    exact h.take _ hpos le_rfl
  · exact h.take _ (by omega) (by omega)

theorem ends_len (h : b.Calls call take again) (hne : b.contents ≠ []) (hlen : 0 ≤ len) :
    b.Ends call (.len len) := by
  obtain ⟨n, hn⟩ := h.passes hne hlen
  obtain ⟨⟨ret, b'⟩, hret⟩ := h.extracted_ok hne hlen
  exact ⟨n, ret, b', by rw [hn, hret], fun hnil => absurd hnil hne⟩

theorem ends_all (h : b.Calls call take again) (hne : b.contents ≠ []) : b.Ends call .all := by
  obtain ⟨n, ret, b', hn, hret⟩ := h.ends_len hne (Int.natCast_nonneg b.contents.length)
  exact ⟨n + 1, ret, b', Loop.passes_next h.all hn, hret⟩

/-- **With nothing in the buffer every call makes another one.** -/
theorem not_terminates (h : b.Calls call take again) (hnil : b.contents = [])
    (hfirst : first.Nonneg) : ¬Loop.Terminates call first := by
  have hagain : again.Nonneg := by
    rcases h.again with rfl | rfl
    · trivial
    · exact nonneg_natCast _
  refine Loop.not_terminates (I := ExtractCall.Nonneg) ?_ hfirst
  intro next hnonneg
  cases next with
  | all => exact ⟨_, h.all, nonneg_natCast _⟩
  | len len =>
    have hlen : 0 ≤ len := hnonneg
    refine ⟨again, ?_, hagain⟩
    rw [h.len len hlen, hnil, if_pos (by simp; omega)]

/-- **An extraction returns what its calls come to.** -/
theorem extracted_iff (h : b.Calls call take again) (hlen : 0 ≤ len) {r : Bytes × Buffer} :
    b.extracted take len = .ok r ↔ ∃ n, Loop.passes call n (.len len) = some (.ok r) := by
  by_cases hnil : b.contents = []
  · have hfirst : (ExtractCall.len len).Nonneg := hlen
    refine iff_of_false ?_ fun ⟨n, hn⟩ => h.not_terminates hnil hfirst ⟨n, by rw [hn]; rfl⟩
    unfold extracted
    rw [hnil, if_pos (by simp; omega)]
    nofun
  · obtain ⟨n, hn⟩ := h.passes hnil hlen
    constructor
    · exact fun hr => ⟨n, by rw [hn, hr]⟩
    · rintro ⟨m, hm⟩
      exact Loop.passes_unique hn hm

/-- The function for all bytes comes to what its next call does. -/
theorem passes_all_iff (h : b.Calls call take again) {x : Exec (Bytes × Buffer)} :
    (∃ n, Loop.passes call n .all = some x) ↔
      ∃ n, Loop.passes call n (.len b.contents.length) = some x := by
  constructor
  · rintro ⟨n, hn⟩
    cases n with
    | zero => cases hn
    | succ n =>
      rw [Loop.passes, h.all] at hn
      exact ⟨n, hn⟩
  · rintro ⟨n, hn⟩
    exact ⟨n + 1, Loop.passes_next h.all hn⟩

end Calls

/-- Calls that end leave the loop. -/
theorem Ends.terminates {call : ExtractCall → Exec (Pass ExtractCall (Bytes × Buffer))}
    {first : ExtractCall} (h : b.Ends call first) : Loop.Terminates call first := by
  obtain ⟨n, ret, b', hn, -⟩ := h
  exact ⟨n, by rw [hn]; rfl⟩

theorem Wf.retriveveAsString_iff (h : b.Wf) (hlen : 0 ≤ len) {r : Bytes × Buffer} :
    b.retriveveAsString len = .ok r ↔ ∃ n, Loop.passes b.stringCall n (.len len) = some (.ok r) := by
  rw [h.retriveveAsString_eq hlen]
  exact h.stringCalls.extracted_iff hlen

theorem Wf.retriveveAsVector_iff (h : b.Wf) (hlen : 0 ≤ len) {r : Bytes × Buffer} :
    b.retriveveAsVector len = .ok r ↔ ∃ n, Loop.passes b.vectorCall n (.len len) = some (.ok r) := by
  rw [h.retriveveAsVector_eq hlen]
  exact h.vectorCalls.extracted_iff hlen

theorem Wf.retriveveAllAsString_iff (h : b.Wf) {r : Bytes × Buffer} :
    b.retriveveAllAsString = .ok r ↔ ∃ n, Loop.passes b.stringCall n .all = some (.ok r) := by
  rw [h.stringCalls.passes_all_iff, ← h.retriveveAsString_iff (Int.natCast_nonneg _)]
  unfold retriveveAllAsString
  rw [h.size_eq, ok_bind]

theorem Wf.retriveveAllAsVector_iff (h : b.Wf) {r : Bytes × Buffer} :
    b.retriveveAllAsVector = .ok r ↔ ∃ n, Loop.passes b.vectorCall n .all = some (.ok r) := by
  rw [h.vectorCalls.passes_all_iff, ← h.retriveveAsVector_iff (Int.natCast_nonneg _)]
  unfold retriveveAllAsVector
  rw [h.size_eq, ok_bind]

/-- **The calls of an extraction end exactly if there is something in the buffer.** -/
theorem extractionEnds_iff (h : b.Wf) (hlen : 0 ≤ len) :
    b.ExtractionEnds len ↔ b.empty = false := by
  rw [← Bool.not_eq_true, h.empty_iff]
  constructor
  · intro hends hnil
    have hfirst : (ExtractCall.len len).Nonneg := hlen
    exact h.stringCalls.not_terminates hnil hfirst hends.string.terminates
  · exact fun hne => ⟨h.stringCalls.ends_len hne hlen, h.stringCalls.ends_all hne,
      h.vectorCalls.ends_len hne hlen, h.vectorCalls.ends_all hne⟩

theorem extractionEnds_iff_one : (ofBytes [1]).ExtractionEnds 0 ↔ (ofBytes [1]).empty = false :=
  extractionEnds_iff (wf_ofBytes [1]) le_rfl

/-- The buffer that a new connection reads into. -/
theorem not_extractionEnds :
    ¬(ofLength 1024).ExtractionEnds 0 ∧
      ¬∀ (b : Buffer) (len : Int), b.Wf → 0 ≤ len → b.ExtractionEnds len := by
  have hnot : ¬(ofLength 1024).ExtractionEnds 0 := fun hends =>
    (wf_ofLength 1024).stringCalls.not_terminates rfl (nonneg_natCast 0) hends.string.terminates
  exact ⟨hnot, fun hall => hnot (hall _ 0 (wf_ofLength 1024) le_rfl)⟩

/-! ## The two paths against each other -/

/-- Both paths return the first bytes, as many as `len` says, and leave the others. -/
def Agree (b : Buffer) (len : Int) : Prop :=
  ∃ b₁ b₂, b.retriveveAsString len = .ok (b.contents.take (taken b.contents len), b₁) ∧
    b.retriveveAsVector len = .ok (b.contents.take (taken b.contents len), b₂) ∧
    b₁.contents = b.contents.drop (taken b.contents len) ∧ b₂.contents = b₁.contents

theorem agree_iff (h : b.Wf) (hne : b.contents ≠ []) (hlen : 0 ≤ len) :
    b.Agree len ↔ len = 0 ∨ (b.contents.length : Int) ≤ len := by
  obtain ⟨b₁, hs, -, hs'⟩ := h.retriveveAsString_ok hne hlen
  obtain ⟨b₂, hv, -, hv'⟩ := h.retriveveAsVector_ok hne hlen
  have hle := taken_le b.contents len
  rw [← taken_eq_length hlen]
  constructor
  · rintro ⟨-, b', -, hv'', -⟩
    rw [hv] at hv''
    have hsame : b.contents = b.contents.take (taken b.contents len) :=
      congrArg Prod.fst (Except.ok.inj hv'')
    have hlength := congrArg List.length hsame
    rw [List.length_take] at hlength
    omega
  · intro hall
    refine ⟨b₁, b₂, hs, ?_, hs', by rw [hv', hs']⟩
    rw [hv, hall, List.take_length]

/-- An extraction by one of the two paths. -/
inductive Extraction where
  | string (len : Int)
  | vector (len : Int)
  deriving DecidableEq, Repr

/-- The length that it is called with. -/
def Extraction.asked : Extraction → Int
  | .string len => len
  | .vector len => len

/-- The call. -/
def Extraction.call (b : Buffer) : Extraction → Exec (Bytes × Buffer)
  | .string len => b.retriveveAsString len
  | .vector len => b.retriveveAsVector len

/-- A program that extracts: the buffer, and the bytes returned so far. -/
def extract (s : Buffer × Bytes) (x : Extraction) : Exec (Buffer × Bytes) := do
  let (ret, b) ← x.call s.1
  return (b, s.2 ++ ret)

/-- What the extractions return, and what is left after them, is what the buffer held. -/
def Conserved (b : Buffer) (xs : List Extraction) : Prop :=
  ∃ b' out, run extract (b, []) xs = .ok (b', out) ∧ out ++ b'.contents = b.contents

/-- Every extraction finds something, and those by `retriveveAsVector` take it all. -/
def Whole : Bytes → List Extraction → Prop
  | _, [] => True
  | bytes, .string len :: xs => bytes ≠ [] ∧ Whole (bytes.drop (taken bytes len)) xs
  | bytes, .vector len :: xs => bytes ≠ [] ∧ (len = 0 ∨ (bytes.length : Int) ≤ len) ∧
      Whole (bytes.drop (taken bytes len)) xs

/-- What the two paths return of `bytes`. -/
def Extraction.returned (bytes : Bytes) : Extraction → Bytes
  | .string len => bytes.take (taken bytes len)
  | .vector _ => bytes

variable {out out' : Bytes} {x : Extraction} {xs : List Extraction}

theorem Wf.extract_ok (h : b.Wf) (out : Bytes) (hne : b.contents ≠ []) (hx : 0 ≤ x.asked) :
    ∃ b', extract (b, out) x = .ok (b', out ++ x.returned b.contents) ∧ b'.Wf ∧
      b'.contents = b.contents.drop (taken b.contents x.asked) := by
  have hcall : ∃ b', x.call b = .ok (x.returned b.contents, b') ∧ b'.Wf ∧
      b'.contents = b.contents.drop (taken b.contents x.asked) := by
    cases x with
    | string len => exact h.retriveveAsString_ok hne hx
    | vector len => exact h.retriveveAsVector_ok hne hx
  obtain ⟨b', hb', hwf, hcontents⟩ := hcall
  refine ⟨b', ?_, hwf, hcontents⟩
  unfold extract
  rw [hb']
  rfl

/-- From an empty buffer nothing is extracted, not even nothing. -/
theorem Wf.extract_nil (h : b.Wf) (hnil : b.contents = []) (hx : 0 ≤ x.asked) :
    extract (b, out) x = .error .diverges := by
  have hzero : ∀ len : Int, 0 ≤ len → len = 0 ∨ (([] : Bytes).length : Int) < len := by
    intro len hlen
    rw [List.length_nil]
    omega
  have hcall : x.call b = .error .diverges := by
    cases x with
    | string len =>
      have hlen : 0 ≤ len := hx
      dsimp only [Extraction.call, retriveveAsString]
      rw [guardOr_pos hlen, ok_bind, h.size_eq, ok_bind, hnil, if_pos (hzero len hlen)]
      rfl
    | vector len =>
      have hlen : 0 ≤ len := hx
      dsimp only [Extraction.call, retriveveAsVector]
      rw [guardOr_pos hlen, ok_bind, h.size_eq, ok_bind, hnil, if_pos (hzero len hlen)]
      rfl
  unfold extract
  rw [hcall]
  rfl

theorem taken_le_returned (bytes : Bytes) (x : Extraction) :
    taken bytes x.asked ≤ (x.returned bytes).length := by
  have hle := taken_le bytes x.asked
  cases x with
  | string len =>
    rw [Extraction.returned, List.length_take]
    exact le_min le_rfl hle
  | vector len => exact hle

/-- **Extractions lose nothing**: what was returned and what is left is no less than there was. -/
theorem Wf.extract_length (h : b.Wf) (hxs : ∀ x ∈ xs, 0 ≤ x.asked)
    (hrun : run extract (b, out) xs = .ok (b', out')) :
    out.length + b.contents.length ≤ out'.length + b'.contents.length := by
  induction xs generalizing b out with
  | nil =>
    cases hrun
    exact le_rfl
  | cons x xs ih =>
    have hx := hxs x List.mem_cons_self
    rw [run_cons] at hrun
    by_cases hnil : b.contents = []
    · rw [h.extract_nil hnil hx] at hrun
      cases hrun
    · obtain ⟨b1, hb1, hwf, hcontents⟩ := h.extract_ok out hnil hx
      rw [hb1, ok_bind] at hrun
      have hle := ih hwf (fun x hx => hxs x (List.mem_cons_of_mem _ hx)) hrun
      have hreturned := taken_le_returned b.contents x
      rw [List.length_append, hcontents, List.length_drop] at hle
      omega

/-- The bytes come out once each exactly if every extraction is whole. -/
theorem Wf.run_extract_iff (h : b.Wf) (hxs : ∀ x ∈ xs, 0 ≤ x.asked) :
    (∃ b' out', run extract (b, out) xs = .ok (b', out') ∧
      out' ++ b'.contents = out ++ b.contents) ↔ Whole b.contents xs := by
  induction xs generalizing b out with
  | nil => exact ⟨fun _ => trivial, fun _ => ⟨b, out, rfl, rfl⟩⟩
  | cons x xs ih =>
    have hx := hxs x List.mem_cons_self
    have hxs' : ∀ x ∈ xs, 0 ≤ x.asked := fun x hx => hxs x (List.mem_cons_of_mem _ hx)
    rw [run_cons]
    by_cases hnil : b.contents = []
    · rw [h.extract_nil hnil hx]
      refine iff_of_false (fun ⟨_, _, hrun, _⟩ => (by cases hrun)) fun hwhole => ?_
      cases x with
      | string | vector => exact hwhole.1 hnil
    obtain ⟨b1, hb1, hwf, hcontents⟩ := h.extract_ok out hnil hx
    rw [hb1, ok_bind]
    cases x with
    | string len =>
      have hsplit : out ++ b.contents
          = (out ++ (Extraction.string len).returned b.contents) ++ b1.contents := by
        rw [hcontents, List.append_assoc]
        exact congrArg (out ++ ·) (List.take_append_drop _ _).symm
      rw [hsplit, ih hwf hxs', hcontents]
      exact (and_iff_right hnil).symm
    | vector len =>
      have hlen : 0 ≤ len := hx
      have hcontents : b1.contents = b.contents.drop (taken b.contents len) := hcontents
      by_cases hall : len = 0 ∨ (b.contents.length : Int) ≤ len
      · have hrest : b1.contents = [] := by
          rw [hcontents, (taken_eq_length hlen).mpr hall, List.drop_length]
        have hsplit : out ++ b.contents = (out ++ b.contents) ++ b1.contents := by
          rw [hrest, List.append_nil]
        rw [hsplit]
        refine (ih hwf hxs').trans ?_
        rw [hcontents]
        exact ((and_iff_right hnil).trans (and_iff_right hall)).symm
      · refine iff_of_false ?_ fun hwhole => hall hwhole.2.1
        rintro ⟨b', out', hrun, hout⟩
        -- the bytes that are left in the buffer were returned already
        have hle := hwf.extract_length hxs' hrun
        have htaken := taken_le b.contents len
        have hsome := mt (taken_eq_length hlen).mp hall
        have hlength := congrArg List.length hout
        rw [hcontents, List.length_drop] at hle
        simp only [List.length_append, Extraction.returned] at hle hlength
        omega

/--
**The two paths agree on a length exactly if it stands for all bytes**, and extractions of any lengths
return every byte once exactly if each finds something and those into a vector take it all.
-/
theorem extractions_agree_iff (h : b.Wf) (hne : b.contents ≠ []) :
    (∀ len, 0 ≤ len → (b.Agree len ↔ len = 0 ∨ (b.contents.length : Int) ≤ len)) ∧
      ∀ xs : List Extraction, (∀ x ∈ xs, 0 ≤ x.asked) → (b.Conserved xs ↔ Whole b.contents xs) :=
  ⟨fun _ hlen => agree_iff h hne hlen, fun _ hxs => h.run_extract_iff hxs⟩

theorem extractions_agree_three :
    (∀ len, 0 ≤ len → ((ofBytes [1, 2, 3]).Agree len ↔
      len = 0 ∨ ((ofBytes [1, 2, 3]).contents.length : Int) ≤ len)) ∧
    ∀ xs : List Extraction, (∀ x ∈ xs, 0 ≤ x.asked) →
      ((ofBytes [1, 2, 3]).Conserved xs ↔ Whole (ofBytes [1, 2, 3]).contents xs) :=
  extractions_agree_iff (wf_ofBytes [1, 2, 3]) (by decide)

/-- One byte of three asked for: the vector has them all, and two of them are still in the buffer. -/
theorem vector_repeats_bytes :
    (∃ b', (ofBytes [1, 2, 3]).retriveveAsVector 1 = .ok ([1, 2, 3], b') ∧ b'.contents = [2, 3]) ∧
      ¬(ofBytes [1, 2, 3]).Agree 1 ∧ ¬(ofBytes [1, 2, 3]).Conserved [.vector 1, .vector 0] := by
  have hwf := wf_ofBytes [1, 2, 3]
  have hne : (ofBytes [1, 2, 3]).contents ≠ [] := by decide
  refine ⟨?_, ?_, ?_⟩
  · have hlen : (0 : Int) ≤ 1 := by decide
    obtain ⟨b', hb', -, hcontents⟩ := hwf.retriveveAsVector_ok hne hlen
    exact ⟨b', hb', hcontents⟩
  · rw [agree_iff hwf hne (by decide)]
    decide
  · have hxs : ∀ x ∈ [Extraction.vector 1, .vector 0], 0 ≤ x.asked := by decide
    exact fun hconserved => absurd ((hwf.run_extract_iff hxs).mp hconserved).2.1 (by decide)

end Liby.Buffer
