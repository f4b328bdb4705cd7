import Liby.Http.RequestParser

/-!
# The parts of a request in the block

What each part of `RequestParser` does with a block written as what comes before the part, the
part, and what comes after it. The stages of `parse` are then equations between blocks.
-/

namespace Liby.Http

open Infra

/-! ## Tokens and lines -/

/-- A split at the first `c` is unique. -/
theorem token_unique {c : UInt8} {token token' tail tail' : Bytes}
    (h : token ++ c :: tail = token' ++ c :: tail') (hno : c ∉ token) (hno' : c ∉ token') :
    token = token' ∧ tail = tail' := by
  have hlen : token.length = token'.length := by
    have h1 := congrArg (List.idxOf c) h
    rwa [List.idxOf_append_of_notMem hno, List.idxOf_append_of_notMem hno', List.idxOf_cons_self,
      List.idxOf_cons_self, Nat.add_zero, Nat.add_zero] at h1
  obtain ⟨h1, h2⟩ := List.append_inj h hlen
  exact ⟨h1, (List.cons.inj h2).2⟩

/-- A cut of a text with a delimiter comes before the delimiter or after it. -/
theorem cut_token {w tail token rest : Bytes} {c : UInt8} (h : w ++ tail = token ++ c :: rest) :
    (∃ t, token = w ++ t ∧ tail = t ++ c :: rest) ∨ ∃ w', w = token ++ c :: w' ∧ w' ++ tail = rest := by
  rcases List.append_eq_append_iff.mp h with ⟨t, htoken, htail⟩ | ⟨w', hw, hrest⟩
  · exact .inl ⟨t, htoken, htail⟩
  · cases w' with
    | nil => exact .inl ⟨[], by simp [hw], by simpa using hrest.symm⟩
    | cons c' w' =>
      rw [List.cons_append, List.cons.injEq] at hrest
      obtain ⟨rfl, rfl⟩ := hrest
      exact .inr ⟨w', hw, rfl⟩

theorem decide_ne {c : UInt8} {token : Bytes} (h : c ∉ token) :
    ∀ x ∈ token, decide (x ≠ c) = true := by
  rintro x hx
  exact decide_eq_true fun heq => h (heq ▸ hx)

theorem takeWhile_token {c : UInt8} {token : Bytes} (h : c ∉ token) (tail : Bytes) :
    (token ++ c :: tail).takeWhile (· ≠ c) = token := by
  rw [List.takeWhile_append_of_pos (decide_ne h), List.takeWhile_cons_of_neg (by simp),
    List.append_nil]

theorem tail_dropWhile_token {c : UInt8} {token : Bytes} (h : c ∉ token) (tail : Bytes) :
    ((token ++ c :: tail).dropWhile (· ≠ c)).tail = tail := by
  rw [List.dropWhile_append_of_pos (decide_ne h), List.dropWhile_cons_of_neg (by simp),
    List.tail_cons]

theorem takeWhile_of_notMem {c : UInt8} {rest : Bytes} (h : c ∉ rest) :
    rest.takeWhile (· ≠ c) = rest := List.takeWhile_eq_self_iff.mpr (decide_ne h)

/-- A line without the CR at its end. -/
def stripCR (line : Bytes) : Bytes := if line.getLast? = some 13 then line.dropLast else line

theorem stripCR_eq (line : Bytes) : line = stripCR line ∨ line = stripCR line ++ [13] := by
  unfold stripCR
  split
  · next h =>
    obtain ⟨init, hinit⟩ := List.getLast?_eq_some_iff.mp h
    right
    rw [hinit, List.dropLast_concat]
  · exact Or.inl rfl

theorem stripCR_snoc (line : Bytes) : stripCR (line ++ [13]) = line := by
  unfold stripCR
  rw [List.getLast?_concat, if_pos rfl, List.dropLast_concat]

theorem length_stripCR_le (line : Bytes) : (stripCR line).length ≤ line.length := by
  rcases stripCR_eq line with h | h
  · rw [← h]
  · conv_rhs => rw [h, List.length_append]
    omega

/-- A line that is empty but for a CR. -/
def IsBlank (line : Bytes) : Prop := line = [] ∨ line = [13]

instance (line : Bytes) : Decidable (IsBlank line) := inferInstanceAs (Decidable (_ ∨ _))

theorem isBlank_short {line : Bytes} (h : IsBlank line) : 10 ∉ line ∧ line.length ≤ 1 := by
  rcases h with rfl | rfl <;> decide

variable {d : Bytes} {first last : Nat}

theorem lineEnd_line (before line after : Bytes) (hd : d = before ++ line ++ after)
    (hl : last = before.length + line.length) (h : line ≠ []) :
    lineEnd d last = .ok (before.length + (stripCR line).length) := by
  obtain ⟨init, c, rfl⟩ := (List.eq_nil_or_concat line).resolve_left h
  rw [List.concat_eq_append] at hd hl ⊢
  unfold lineEnd stripCR
  rw [Cursor.readBefore_snoc (before ++ init) c after (by simp [hd]) (by simp [hl]; omega), ok_bind,
    List.getLast?_concat, List.dropLast_concat]
  by_cases hc : c = 13
  · rw [if_pos hc, if_pos (by rw [hc]), hl]
    simp
  · rw [if_neg hc, if_neg (by simpa using hc), hl]
    rfl

/-! ## The map of the headers -/

theorem lookup_filter_ne {key other : Bytes} (h : other ≠ key) : ∀ headers : Headers,
    (headers.filter fun header => header.1 ≠ key).lookup other = headers.lookup other
  | [] => rfl
  | header :: headers => by
    have hrest := lookup_filter_ne h headers
    by_cases hkey : header.1 = key
    · have hother : (other == header.1) = false := by simp [hkey, h]
      rw [List.filter_cons_of_neg (by simp [hkey]), hrest, List.lookup_cons, hother]
    · rw [List.filter_cons_of_pos (by simp [hkey]), List.lookup_cons, List.lookup_cons, hrest]

/-- What a map has under a name after `headers[key] = value`. -/
theorem Headers.lookup_set (headers : Headers) (key value other : Bytes) :
    (headers.set key value).lookup other =
      if other = key then some value else headers.lookup other := by
  unfold Headers.set
  rw [List.lookup_append]
  split
  · next heq =>
    have hnone : (headers.filter fun header => header.1 ≠ key).lookup other = none := by
      rw [List.lookup_eq_none_iff, heq]
      intro header hheader
      have hkey : header.1 ≠ key := by simpa using (List.mem_filter.mp hheader).2
      simp [hkey.symm]
    rw [hnone, heq, Option.none_or, List.lookup_cons_self]
  · next hne =>
    have hother : (other == key) = false := by simpa using hne
    rw [lookup_filter_ne hne, List.lookup_cons, hother, List.lookup_nil, Option.or_none]

/-! ## ParseHeader -/

/-- A line with a colon, and on both sides of the first one a byte that is not blank. -/
def HeaderLine (line : Bytes) : Prop :=
  ∃ name value, line = name ++ 58 :: value ∧ 58 ∉ name ∧
    (∃ c ∈ name, Cursor.isspace c = false) ∧ ∃ c ∈ value, Cursor.isspace c = false

/-- A line with a name is no short line. -/
theorem one_lt_of_name {line name value : Bytes} (hline : stripCR line = name ++ 58 :: value)
    (hname : ∃ c ∈ name, Cursor.isspace c = false) : 1 < line.length := by
  obtain ⟨c, hc, -⟩ := hname
  have hpos := List.length_pos_of_mem hc
  have hle := length_stripCR_le line
  rw [hline, List.length_append, List.length_cons] at hle
  omega

/-- The key that `ParseHeader` makes of what stands before the colon. -/
def headerKey (name : Bytes) : Bytes := name.rdropWhile Cursor.isspace

/-- The value that `ParseHeader` makes of what stands after the colon. -/
def headerValue (value : Bytes) : Bytes := value.dropWhile Cursor.isspace

/-- **A header line is put into the map.** -/
theorem ParseHeader_ok (headers_ : Headers) (before name value after : Bytes)
    (hd : d = before ++ (name ++ 58 :: value) ++ after) (hf : first = before.length)
    (hl : last = before.length + (name ++ 58 :: value).length) (hcolon : 58 ∉ name)
    (hname : ∃ c ∈ name, Cursor.isspace c = false)
    (hvalue : ∃ c ∈ value, Cursor.isspace c = false) :
    ParseHeader headers_ d first last = .ok (headers_.set (headerKey name) (headerValue value)) := by
  have hsplit := Cursor.rdropWhile_append_rtakeWhile name
  have hval := List.takeWhile_append_dropWhile (p := Cursor.isspace) (l := value)
  have hlen := congrArg List.length hval
  rw [List.length_append] at hlen
  have hleft : Cursor.skipBack d (before.length + name.length)
      = .ok (before.length + (headerKey name).length) :=
    Cursor.skipBack_name before name (58 :: value ++ after) (by simp [hd]) rfl hname
  have hright : Cursor.skipForward d (before.length + name.length + 1)
      = .ok ((before ++ name ++ [58]).length + (value.takeWhile Cursor.isspace).length) :=
    Cursor.skipForward_value (before ++ name ++ [58]) value after (by simp [hd])
      (by simp; omega) hvalue
  have hkeyd : d = before ++ headerKey name
      ++ (name.rtakeWhile Cursor.isspace ++ 58 :: value ++ after) := by
    calc d = before ++ ((headerKey name ++ name.rtakeWhile Cursor.isspace) ++ 58 :: value)
        ++ after := by rw [headerKey, hsplit, hd]
      _ = _ := by simp
  have hvald : d = before ++ name ++ [58] ++ value.takeWhile Cursor.isspace ++ headerValue value
      ++ after := by
    calc d = before ++ (name ++ 58 :: (value.takeWhile Cursor.isspace ++ headerValue value))
        ++ after := by rw [headerValue, hval, hd]
      _ = _ := by simp
  unfold ParseHeader
  rw [guardOr_pos (by simp [hf, hl]), ok_bind,
    Cursor.find_token before name value after hd hf hl hcolon, ok_bind, hleft, ok_bind, hright,
    ok_bind, Cursor.string_range before (headerKey name) _ hkeyd hf rfl, ok_bind,
    Cursor.string_range _ (headerValue value) after hvald (by simp; omega)
      (by simp [hl, headerValue]; omega), ok_bind]
  rfl

/-- What stands before a line: nothing, or bytes up to a LF. -/
def AtLineStart (before : Bytes) : Prop := before = [] ∨ ∃ init, before = init ++ [10]

/-- What stands after a line without its CR: nothing, or a blank. -/
def AtLineEnd (after : Bytes) : Prop := ∀ c ∈ after.head?, Cursor.isspace c = true

/-- A scan back over a blank name leaves the line. -/
theorem skipBack_before {p left : Nat} (before blanks after : Bytes)
    (hd : d = before ++ blanks ++ after) (hl : p = before.length + blanks.length)
    (hbefore : AtLineStart before) (h : ∀ c ∈ blanks, Cursor.isspace c = true)
    (hleft : Cursor.skipBack d p = .ok left) : left < before.length := by
  rw [Cursor.skipBack_blanks before blanks after hd hl h] at hleft
  rcases hbefore with rfl | ⟨init, rfl⟩
  · cases hleft
  · rw [Cursor.skipBack_snoc init 10 (blanks ++ after) (by simp [hd]) (by simp),
      if_pos Cursor.isspace_LF] at hleft
    have hle := Cursor.skipBack_le hleft
    simp
    omega

/-- A scan forward over a blank value leaves the line. -/
theorem skipForward_after {right : Nat} (before blanks after : Bytes)
    (hd : d = before ++ blanks ++ after) (hf : first = before.length) (hafter : AtLineEnd after)
    (h : ∀ c ∈ blanks, Cursor.isspace c = true) (hright : Cursor.skipForward d first = .ok right) :
    before.length + blanks.length < right := by
  rw [Cursor.skipForward_blanks before blanks after hd hf h] at hright
  cases after with
  | nil => cases hright
  | cons c cs =>
    rw [Cursor.skipForwardIn, if_pos (hafter c rfl)] at hright
    exact Cursor.le_skipForwardIn hright

theorem all_blank {bytes : Bytes} (h : ¬∃ c ∈ bytes, Cursor.isspace c = false) :
    ∀ c ∈ bytes, Cursor.isspace c = true := by
  intro c hc
  by_contra hspace
  exact h ⟨c, hc, by simpa using hspace⟩

/-- **Only a header line is.** On any other line a scan leaves the line. -/
theorem headerLine_of_ParseHeader {headers_ headers' : Headers} (before line after : Bytes)
    (hd : d = before ++ line ++ after) (hf : first = before.length)
    (hl : last = before.length + line.length) (hbefore : AtLineStart before)
    (hafter : AtLineEnd after) (h : ParseHeader headers_ d first last = .ok headers') :
    HeaderLine line := by
  unfold ParseHeader at h
  obtain ⟨_, -, h⟩ := bind_eq_ok.mp h
  obtain ⟨mid, hmid, h⟩ := bind_eq_ok.mp h
  obtain ⟨left, hleft, h⟩ := bind_eq_ok.mp h
  obtain ⟨right, hright, h⟩ := bind_eq_ok.mp h
  obtain ⟨key, hkey, h⟩ := bind_eq_ok.mp h
  obtain ⟨value, hvalue, -⟩ := bind_eq_ok.mp h
  have hle : first ≤ left := by
    by_contra hlt
    rw [Cursor.string_bad (not_le.mp hlt)] at hkey
    cases hkey
  have hge : right ≤ last := by
    by_contra hlt
    rw [Cursor.string_bad (not_le.mp hlt)] at hvalue
    cases hvalue
  by_cases hcolon : (58 : UInt8) ∈ line
  · obtain ⟨name, value, rfl, hno⟩ := List.eq_append_cons_of_mem hcolon
    rw [Cursor.find_token before name value after hd hf hl hno] at hmid
    cases hmid
    refine ⟨name, value, rfl, hno, ?_, ?_⟩
    · by_contra hblank
      have := skipBack_before before name (58 :: value ++ after) (by simp [hd]) rfl hbefore
        (all_blank hblank) hleft
      omega
    · by_contra hblank
      have := skipForward_after (before ++ name ++ [58]) value after (by simp [hd])
        (by simp; omega) hafter (all_blank hblank) hright
      simp at this hl
      omega
  · -- without a colon the value would start after the end of the line
    rw [Cursor.find_none before line after hd hf hl hcolon] at hmid
    cases hmid
    have := Cursor.le_skipForward hright
    omega

/-! ## The loop over the headers -/

namespace Parsing

/-- `parseHeaders` without the equation that its termination needs. -/
theorem parseHeaders_eq (f : Parsing) (d : Bytes) (first : Nat) :
    f.parseHeaders d first =
      if first = d.length then .ok f
      else Cursor.find d first d.length 10 >>= fun finish =>
        if first = finish ∨ first + 1 = finish then
          .ok ((f.update { f.parser with progress_ := .Good }).advance (finish + 1 - first))
        else
          lineEnd d finish >>= fun last =>
          ParseHeader f.parser.headers_ d first last >>= fun headers_ =>
          parseHeaders
            ((f.update { f.parser with headers_ := headers_ }).advance (finish + 1 - first))
            d (finish + 1) := by
  rw [parseHeaders]
  split
  · rfl
  · split
    · next e h => rw [h, error_bind]
    · next finish h => rw [h, ok_bind]

/-- The parser with a header more, after a line of `n` bytes. -/
def withHeaders (f : Parsing) (headers_ : Headers) (n : Nat) : Parsing :=
  (f.update { f.parser with headers_ := headers_ }).advance n

/-- The parser with a complete request, after a line of `n` bytes. -/
def good (f : Parsing) (n : Nat) : Parsing :=
  (f.update { f.parser with progress_ := .Good }).advance n

@[simp] theorem withHeaders_added (f : Parsing) (headers_ : Headers) (n : Nat) :
    (f.withHeaders headers_ n).added = f.added + n := rfl

@[simp] theorem good_added (f : Parsing) (n : Nat) : (f.good n).added = f.added + n := rfl

theorem parseHeaders_end (f : Parsing) (h : first = d.length) : f.parseHeaders d first = .ok f := by
  rw [parseHeaders_eq, if_pos h]

theorem parseHeaders_past (f : Parsing) (h : d.length < first) :
    f.parseHeaders d first = .error .badRange := by
  rw [parseHeaders_eq, if_neg (by omega), Cursor.find_past h]
  rfl

/-- A line of at most one byte ends the request. -/
theorem parseHeaders_blank (f : Parsing) (before line tail : Bytes)
    (hd : d = before ++ (line ++ 10 :: tail)) (hf : first = before.length) (hno : 10 ∉ line)
    (hlen : line.length ≤ 1) : f.parseHeaders d first = .ok (f.good (line.length + 1)) := by
  have hfind : Cursor.find d first d.length 10 = .ok (before.length + line.length) :=
    Cursor.find_token before line tail [] (by simp [hd]) hf (by simp [hd]) hno
  rw [parseHeaders_eq, if_neg (by simp [hd, hf]), hfind, ok_bind, if_pos (by omega)]
  have hn : before.length + line.length + 1 - first = line.length + 1 := by omega
  rw [hn]
  rfl

/-- A longer line goes to `ParseHeader`. -/
theorem parseHeaders_line (f : Parsing) (before line tail : Bytes)
    (hd : d = before ++ (line ++ 10 :: tail)) (hf : first = before.length) (hno : 10 ∉ line)
    (hlen : 1 < line.length) :
    f.parseHeaders d first =
      ParseHeader f.parser.headers_ d first (before.length + (stripCR line).length) >>=
        fun headers_ => (f.withHeaders headers_ (line.length + 1)).parseHeaders d
          (before.length + line.length + 1) := by
  have hfind : Cursor.find d first d.length 10 = .ok (before.length + line.length) :=
    Cursor.find_token before line tail [] (by simp [hd]) hf (by simp [hd]) hno
  have hline : lineEnd d (before.length + line.length)
      = .ok (before.length + (stripCR line).length) :=
    lineEnd_line before line (10 :: tail) (by simp [hd]) rfl (by rintro rfl; simp at hlen)
  have hn : before.length + line.length + 1 - first = line.length + 1 := by omega
  rw [parseHeaders_eq, if_neg (by simp [hd, hf]), hfind, ok_bind, if_neg (by omega), hline, ok_bind,
    hn]
  rfl

/-- A single last byte that is not a LF is taken for a blank line, and for two bytes. -/
theorem parseHeaders_single (f : Parsing) (before : Bytes) {c : UInt8} (hd : d = before ++ [c])
    (hf : first = before.length) (hc : c ≠ 10) : f.parseHeaders d first = .ok (f.good 2) := by
  have hfind : Cursor.find d first d.length 10 = .ok d.length :=
    Cursor.find_none before [c] [] (by simp [hd]) hf (by simp [hd]) (by simpa using hc.symm)
  rw [parseHeaders_eq, if_neg (by simp [hd, hf]), hfind, ok_bind,
    if_pos (Or.inr (by simp [hd, hf]))]
  have hn : d.length + 1 - first = 2 := by simp [hd, hf]; omega
  rw [hn]
  rfl

/-- Of a longer rest without a LF the loop makes a header, and then starts after the block. -/
theorem parseHeaders_unfinished (f : Parsing) (before rest : Bytes) (hd : d = before ++ rest)
    (hf : first = before.length) (hno : 10 ∉ rest) (hlen : 1 < rest.length) (g : Parsing) :
    f.parseHeaders d first ≠ .ok g := by
  have hfind : Cursor.find d first d.length 10 = .ok d.length :=
    Cursor.find_none before rest [] (by simp [hd]) hf (by simp [hd]) hno
  have hn : d.length = before.length + rest.length := by simp [hd]
  rw [parseHeaders_eq, if_neg (by omega), hfind, ok_bind, if_neg (by omega)]
  intro h
  obtain ⟨_, -, h⟩ := bind_eq_ok.mp h
  obtain ⟨_, -, h⟩ := bind_eq_ok.mp h
  rw [parseHeaders_past _ (Nat.lt_succ_self _)] at h
  cases h

end Parsing

/-- What stands after a line without its CR is a blank. -/
theorem atLineEnd_stripCR (line tail : Bytes) :
    ∃ after, line ++ 10 :: tail = stripCR line ++ after ∧ AtLineEnd after := by
  rcases stripCR_eq line with h | h
  · exact ⟨10 :: tail, by rw [← h], fun c hc => by cases hc; exact Cursor.isspace_LF⟩
  · refine ⟨13 :: 10 :: tail, ?_, fun c hc => by cases hc; exact Cursor.isspace_CR⟩
    conv_lhs => rw [h]
    simp

/-- What `ParseHttpVersion` accepts. -/
def IsVersion (line : Bytes) : Prop :=
  toInt line.length = 8 ∧ (line.take 8 = str "HTTP/1.1" ∨ line.take 8 = str "HTTP/1.0")

/-! ## The version -/

instance (line : Bytes) : Decidable (IsVersion line) :=
  inferInstanceAs (Decidable (_ ∧ (_ ∨ _)))

/-- The parser after a version. -/
def RequestParser.withVersion (p : RequestParser) (line : Bytes) : RequestParser :=
  { p with
    httpVersionMajor_ := 1
    httpVersionMinor_ := if line.take 8 = str "HTTP/1.1" then 1 else 0
    progress_ := .ParsingHeaders }

theorem length_of_toInt {n k : Nat} (h : toInt n = k) : k ≤ n := by
  unfold toInt at h
  rw [Int.bmod_def] at h
  split at h <;> omega

theorem ParseHttpVersion_eq (p : RequestParser) (before line after : Bytes)
    (hd : d = before ++ line ++ after) (hf : first = before.length) (hl : last = first + line.length) :
    p.ParseHttpVersion d first last = .ok (if IsVersion line then (true, p.withVersion line)
      else (false, { p with progress_ := .InvalidVersion })) := by
  have hlen : (last : Int) - first = line.length := by omega
  unfold RequestParser.ParseHttpVersion
  rw [guardOr_pos (by omega), ok_bind, hlen]
  by_cases h8 : toInt line.length = 8
  · have htake : (d.drop first).take 8 = line.take 8 := by
      rw [hd, hf, List.append_assoc, List.drop_left,
        List.take_append_of_le_length (length_of_toInt h8)]
    rw [if_neg (by simp [h8]), htake]
    by_cases h1 : line.take 8 = str "HTTP/1.1"
    · rw [if_pos h1, if_pos ⟨h8, Or.inl h1⟩]
      simp [RequestParser.withVersion, h1]
    · rw [if_neg h1]
      by_cases h0 : line.take 8 = str "HTTP/1.0"
      · rw [if_pos h0, if_pos ⟨h8, Or.inr h0⟩]
        simp [RequestParser.withVersion, h1]
      · rw [if_neg h0, if_neg fun h => h.2.elim h1 h0]
        rfl
  · rw [if_pos h8, if_neg fun h => h8 h.1]
    rfl

/-- What stands before the version: nothing when `parse` resumes there, else the URI's blank. -/
def BeforeVersion (start : Bool) (before : Bytes) : Prop :=
  if start then before = [] else ∃ init, before = init ++ [32]

theorem lineEnd_version {start : Bool} (before line after : Bytes) (hd : d = before ++ line ++ after)
    (hl : last = before.length + line.length) (hbefore : BeforeVersion start before)
    (hstart : start = true → line ≠ []) :
    lineEnd d last = .ok (before.length + (stripCR line).length) := by
  by_cases hnil : line = []
  · cases start with
    | true => exact absurd hnil (hstart rfl)
    | false =>
      obtain ⟨init, rfl⟩ := hbefore
      unfold lineEnd
      rw [Cursor.readBefore_snoc init 32 (line ++ after) (by simp [hd]) (by simp [hl, hnil]), ok_bind,
        if_neg (by decide), hl, hnil]
      rfl
  · exact lineEnd_line before line after hd hl hnil

namespace Parsing

/-- The version stage on a line that ends in the block. -/
theorem parseVersion_line {start : Bool} (f : Parsing) (before line tail : Bytes)
    (hd : d = before ++ (line ++ 10 :: tail)) (hf : first = before.length)
    (hbefore : BeforeVersion start before) (hstart : start = true → line ≠ []) (hno : 10 ∉ line) :
    f.parseVersion d first =
      if IsVersion (stripCR line) then
        ((f.update (f.parser.withVersion (stripCR line))).advance (line.length + 1)).parseHeaders d
          (before.length + line.length + 1)
      else .ok (f.update { f.parser with progress_ := .InvalidVersion }) := by
  have hfind : Cursor.find d first d.length 10 = .ok (before.length + line.length) :=
    Cursor.find_token before line tail [] (by simp [hd]) hf (by simp [hd]) hno
  obtain ⟨after, hsplit, -⟩ := atLineEnd_stripCR line tail
  have hn : before.length + line.length + 1 - first = line.length + 1 := by omega
  unfold parseVersion
  rw [hfind, ok_bind, lineEnd_version before line (10 :: tail) (by simp [hd]) rfl hbefore hstart,
    ok_bind, ParseHttpVersion_eq f.parser before (stripCR line) after
      (by rw [hd, hsplit, List.append_assoc]) hf (by omega), ok_bind]
  by_cases hv : IsVersion (stripCR line)
  · rw [if_pos hv, if_pos hv]
    dsimp only
    rw [if_pos rfl, hn]
  · rw [if_neg hv, if_neg hv]
    rfl

/-- The version stage on a line that the end of the block cuts off. -/
theorem parseVersion_unfinished {start : Bool} (f : Parsing) (before rest : Bytes)
    (hd : d = before ++ rest) (hf : first = before.length) (hbefore : BeforeVersion start before)
    (hstart : start = true → rest ≠ []) (hno : 10 ∉ rest) :
    f.parseVersion d first =
      if IsVersion (stripCR rest) then .error .badRange
      else .ok (f.update { f.parser with progress_ := .InvalidVersion }) := by
  have hlen : d.length = before.length + rest.length := by simp [hd]
  have hfind : Cursor.find d first d.length 10 = .ok d.length :=
    Cursor.find_none before rest [] (by simp [hd]) hf (by simp [hd]) hno
  obtain ⟨after, hsplit⟩ : ∃ after, rest = stripCR rest ++ after := by
    rcases stripCR_eq rest with h | h
    · exact ⟨[], by rwa [List.append_nil]⟩
    · exact ⟨[13], h⟩
  unfold parseVersion
  rw [hfind, ok_bind, lineEnd_version before rest [] (by simp [hd]) hlen hbefore hstart, ok_bind,
    ParseHttpVersion_eq f.parser before (stripCR rest) after
      (by rw [hd, List.append_assoc, ← hsplit]) hf (by omega), ok_bind]
  by_cases hv : IsVersion (stripCR rest)
  · rw [if_pos hv, if_pos hv]
    dsimp only
    rw [if_pos rfl, parseHeaders_past _ (Nat.lt_succ_self _)]
  · rw [if_neg hv, if_neg hv]
    rfl

/-- At an empty line at the start of the block, the byte before the block is read. -/
theorem parseVersion_start (f : Parsing) (hd : d = [] ∨ ∃ tail, d = 10 :: tail) (g : Parsing) :
    f.parseVersion d 0 ≠ .ok g := by
  have hfind : Cursor.find d 0 d.length 10 = .ok 0 := by
    rcases hd with rfl | ⟨tail, rfl⟩
    · rfl
    · exact Cursor.find_token [] [] tail [] (by simp) rfl (by simp) (by simp)
  unfold parseVersion
  rw [hfind]
  intro h
  cases h

end Parsing

/-! ## The URI -/

/-- The empty decoding that `ParseURI` starts from. -/
def Decoded.empty : Decoded := { temp := [], queryIndex := none }

theorem ParseURI_long (p : RequestParser) {n : Nat} (hl : last = first + n)
    (h : toInt n + 1 < 0) :
    p.ParseURI d first last = .ok (false, { p with progress_ := .InvalidURI }) := by
  have hlen : (last : Int) - first = n := by omega
  unfold RequestParser.ParseURI
  rw [guardOr_pos (by omega), ok_bind, hlen]
  dsimp only
  rw [guardOr_pos (by omega), ok_bind, if_pos h]
  rfl

theorem ParseURI_token (p : RequestParser) {n : Nat} {t : Decoded} (hl : last = first + n)
    (h0 : 0 ≤ toInt n) (h1 : toInt n + 1 < 2 ^ 31)
    (ht : decodeURI d first (toInt n).toNat Decoded.empty = .ok t) :
    p.ParseURI d first last = .ok (true, p.setURI t) := by
  have hlen : (last : Int) - first = n := by omega
  unfold RequestParser.ParseURI
  rw [guardOr_pos (by omega), ok_bind, hlen]
  dsimp only
  unfold Decoded.empty at ht
  rw [guardOr_pos h1, ok_bind, if_neg (by omega), guardOr_pos (by omega), ok_bind, ht]
  rfl

/-- The ways `ParseURI` returns. -/
theorem ParseURI_cases {p : RequestParser} {n : Nat} {r : Bool × RequestParser}
    (hl : last = first + n) (h : p.ParseURI d first last = .ok r) :
    toInt n + 1 < 0 ∨ 0 ≤ toInt n ∧ toInt n + 1 < 2 ^ 31 ∧
      ∃ t, decodeURI d first (toInt n).toNat Decoded.empty = .ok t := by
  have hlen : (last : Int) - first = n := by omega
  unfold RequestParser.ParseURI at h
  rw [hlen] at h
  obtain ⟨_, -, h⟩ := bind_eq_ok.mp h
  dsimp only at h
  obtain ⟨_, h1, h⟩ := bind_eq_ok.mp h
  rw [guardOr_eq_ok] at h1
  by_cases hneg : toInt n + 1 < 0
  · exact Or.inl hneg
  · rw [if_neg hneg] at h
    obtain ⟨_, h0, h⟩ := bind_eq_ok.mp h
    rw [guardOr_eq_ok] at h0
    obtain ⟨t, ht, -⟩ := bind_eq_ok.mp h
    exact Or.inr ⟨by omega, h1, t, ht⟩

/-- Every escape in the next `n` bytes has two bytes after it in the block. -/
def EscapesFit : Nat → Bytes → Prop
  | 0, _ => True
  | _ + 1, [] => False
  | n + 1, c :: rest =>
    if c = 37 then 2 ≤ rest.length ∧ EscapesFit (n - 2) (rest.drop 2) else EscapesFit n rest

theorem readAt_drop {n : Nat} {c : UInt8} {rest : Bytes} (h : d.drop n = c :: rest) :
    readAt d n = .ok c ∧ d.drop (n + 1) = rest := by
  constructor
  · have hget : (d.drop n)[0]? = d[n + 0]? := List.getElem?_drop
    rw [h, Nat.add_zero] at hget
    exact readAt_eq_ok.mpr hget.symm
  · rw [← List.drop_drop, h, List.drop_one, List.tail_cons]

theorem readAt_drop_nil {n : Nat} (h : d.drop n = []) : readAt d n = .error .outOfBounds :=
  readAt_of_le (List.drop_eq_nil_iff.mp h)

theorem parseHex_ok {n : Nat} : (∃ c, parseHex d n = .ok c) ↔ 2 ≤ (d.drop n).length := by
  unfold parseHex
  cases h1 : d.drop n with
  | nil =>
    rw [readAt_drop_nil h1]
    simp
  | cons c rest =>
    obtain ⟨hread, hrest⟩ := readAt_drop h1
    rw [hread, ok_bind]
    cases h2 : rest with
    | nil =>
      rw [readAt_drop_nil (by rw [hrest, h2])]
      simp
    | cons c' rest' =>
      rw [(readAt_drop (by rw [hrest, h2])).1]
      simp

/-- **The loop of `ParseURI` stays in the block exactly when no escape is cut off.** -/
theorem decodeURI_ok : ∀ (n src : Nat) (t : Decoded),
    (∃ t', decodeURI d src n t = .ok t') ↔ EscapesFit n (d.drop src) := by
  intro n
  induction n using Nat.strong_induction_on with
  | _ n ih =>
    intro src t
    cases n with
    | zero => simp [decodeURI, EscapesFit]
    | succ n =>
      rw [decodeURI]
      cases hdrop : d.drop src with
      | nil =>
        rw [readAt_drop_nil hdrop]
        simp [EscapesFit]
      | cons c rest =>
        obtain ⟨hread, hrest⟩ := readAt_drop hdrop
        rw [hread, ok_bind, EscapesFit]
        by_cases hc : c = 37
        · rw [if_pos hc, if_pos hc]
          have hhex := parseHex_ok (d := d) (n := src + 1)
          rw [hrest] at hhex
          cases hp : parseHex d (src + 1) with
          | error e =>
            rw [hp] at hhex
            have hshort : ¬2 ≤ rest.length := fun h => by
              obtain ⟨_, hok⟩ := hhex.mpr h
              cases hok
            rw [error_bind]
            simp [hshort]
          | ok v =>
            rw [ok_bind, ih (n - 2) (by omega), ← hrest, List.drop_drop, hrest,
              and_iff_right (hhex.mp ⟨v, hp⟩)]
        · rw [if_neg hc, if_neg hc, ih n (by omega), hrest]

/-! ## The method -/

theorem ParseMethod_eq (p : RequestParser) (before token after : Bytes)
    (hd : d = before ++ token ++ after) (hf : first = before.length)
    (hl : last = first + token.length) :
    p.ParseMethod d first last = .ok (match methods token with
      | none => (false, { p with progress_ := .InvalidMethod })
      | some method => (true, { p with method_ := method, progress_ := .ParsingURI })) := by
  unfold RequestParser.ParseMethod
  rw [guardOr_pos (by omega), ok_bind, Cursor.string_range before token after hd hf (by omega),
    ok_bind]
  cases methods token <;> rfl

namespace Parsing

theorem find_blank (before token tail : Bytes) (hd : d = before ++ (token ++ 32 :: tail))
    (hf : first = before.length) (hno : 32 ∉ token) :
    Cursor.find d first d.length 32 = .ok (first + token.length) := by
  rw [hf]
  exact Cursor.find_token before token tail [] (by simp [hd]) rfl (by simp [hd]) hno

theorem find_blank_none (before rest : Bytes) (hd : d = before ++ rest) (hf : first = before.length)
    (hno : 32 ∉ rest) : Cursor.find d first d.length 32 = .ok (first + rest.length) := by
  have hlen : d.length = first + rest.length := by simp [hd, hf]
  rw [← hlen]
  exact Cursor.find_none before rest [] (by simp [hd]) hf (by simp [hd]) hno

/-- The method stage on a token that a blank ends in the block. -/
theorem parseMethod_token (f : Parsing) (before token tail : Bytes) {method : Method}
    (hd : d = before ++ (token ++ 32 :: tail)) (hf : first = before.length) (hno : 32 ∉ token)
    (hm : methods token = some method) :
    f.parseMethod d first =
      ((f.update { f.parser with method_ := method, progress_ := .ParsingURI }).advance
        (token.length + 1)).parseURI d (first + token.length + 1) := by
  have hn : first + token.length + 1 - first = token.length + 1 := by omega
  unfold parseMethod
  rw [find_blank before token tail hd hf hno, ok_bind,
    ParseMethod_eq f.parser before token (32 :: tail) (by simp [hd]) hf rfl, ok_bind, hm]
  dsimp only
  rw [if_pos rfl, hn]

/-- The method stage on a method that is known and that the end of the block cuts off. -/
theorem parseMethod_unfinished (f : Parsing) (before rest : Bytes) (hd : d = before ++ rest)
    (hf : first = before.length) (hno : 32 ∉ rest) (hm : methods rest ≠ none) (g : Parsing) :
    f.parseMethod d first ≠ .ok g := by
  have hlen : d.length = first + rest.length := by simp [hd, hf]
  obtain ⟨method, hmethod⟩ := Option.ne_none_iff_exists'.mp hm
  unfold parseMethod
  rw [find_blank_none before rest hd hf hno, ok_bind,
    ParseMethod_eq f.parser before rest [] (by simp [hd]) hf rfl, ok_bind, hmethod]
  dsimp only
  unfold parseURI
  rw [if_pos rfl, Cursor.find_past (by omega)]
  intro h
  cases h

/-- The method stage on a method that is not known. -/
theorem parseMethod_unknown (f : Parsing) (before token after : Bytes)
    (hd : d = before ++ token ++ after) (hf : first = before.length)
    (hfind : Cursor.find d first d.length 32 = .ok (first + token.length))
    (hm : methods token = none) :
    f.parseMethod d first = .ok (f.update { f.parser with progress_ := .InvalidMethod }) := by
  unfold parseMethod
  rw [hfind, ok_bind, ParseMethod_eq f.parser before token after hd hf rfl, ok_bind, hm]
  rfl

/-- The URI stage on a token that a blank ends in the block. -/
theorem parseURI_token (f : Parsing) (before token tail : Bytes) {t : Decoded}
    (hd : d = before ++ (token ++ 32 :: tail)) (hf : first = before.length) (hno : 32 ∉ token)
    (h0 : 0 ≤ toInt token.length) (h1 : toInt token.length + 1 < 2 ^ 31)
    (ht : decodeURI d first (toInt token.length).toNat Decoded.empty = .ok t) :
    f.parseURI d first =
      ((f.update (f.parser.setURI t)).advance (token.length + 1)).parseVersion d
        (first + token.length + 1) := by
  have hn : first + token.length + 1 - first = token.length + 1 := by omega
  unfold parseURI
  rw [find_blank before token tail hd hf hno, ok_bind, ParseURI_token f.parser rfl h0 h1 ht, ok_bind]
  dsimp only
  rw [if_pos rfl, hn]

/-- The URI stage on a token that is longer than an `int`. -/
theorem parseURI_long (f : Parsing) (before token tail : Bytes)
    (hd : d = before ++ (token ++ 32 :: tail)) (hf : first = before.length) (hno : 32 ∉ token)
    (hlong : toInt token.length + 1 < 0) :
    f.parseURI d first = .ok (f.update { f.parser with progress_ := .InvalidURI }) := by
  unfold parseURI
  rw [find_blank before token tail hd hf hno, ok_bind, ParseURI_long f.parser rfl hlong]
  rfl

/-- When the URI stage returns, the token has been decoded. -/
theorem parseURI_decoded (f : Parsing) (before token tail : Bytes)
    (hd : d = before ++ (token ++ 32 :: tail)) (hf : first = before.length) (hno : 32 ∉ token)
    (hlong : ¬toInt token.length + 1 < 0) {g : Parsing} (h : f.parseURI d first = .ok g) :
    0 ≤ toInt token.length ∧ toInt token.length + 1 < 2 ^ 31 ∧
      ∃ t, decodeURI d first (toInt token.length).toNat Decoded.empty = .ok t := by
  unfold parseURI at h
  rw [find_blank before token tail hd hf hno, ok_bind] at h
  obtain ⟨r, hr, -⟩ := bind_eq_ok.mp h
  exact (ParseURI_cases rfl hr).resolve_left hlong

/-- The URI stage on a token that the end of the block cuts off, if it returns. -/
theorem parseURI_unfinished (f : Parsing) (before rest : Bytes) (hd : d = before ++ rest)
    (hf : first = before.length) (hno : 32 ∉ rest) {g : Parsing}
    (h : f.parseURI d first = .ok g) :
    toInt rest.length + 1 < 0 ∧ g = f.update { f.parser with progress_ := .InvalidURI } := by
  have hlen : d.length = first + rest.length := by simp [hd, hf]
  unfold parseURI at h
  rw [find_blank_none before rest hd hf hno, ok_bind] at h
  by_cases hlong : toInt rest.length + 1 < 0
  · rw [ParseURI_long f.parser rfl hlong] at h
    cases h
    exact ⟨hlong, rfl⟩
  · exfalso
    obtain ⟨r, hr, h⟩ := bind_eq_ok.mp h
    obtain ⟨h0, h1, t, ht⟩ := (ParseURI_cases rfl hr).resolve_left hlong
    rw [ParseURI_token f.parser rfl h0 h1 ht] at hr
    cases hr
    dsimp only at h
    unfold parseVersion at h
    rw [if_pos rfl, Cursor.find_past (by omega)] at h
    cases h

end Parsing

end Liby.Http
