import Liby.Http.ReplyText

/-!
# Where a reply may be cut

What the stages of `ReplyParser::parse` do with a range that ends inside a reply. At some places the
parser waits for more; one byte into a line it takes that byte for the blank line, and goes on to the
body; at all other places it leaves the range, throws, finds an error, or is good too early.
-/

namespace Liby.Http

open Infra

/-! ## Cutting lists -/

/-- A cut that leaves no more than `rest` comes after what stands before `rest`. -/
theorem cut_after {w tail start rest : Bytes} (h : w ++ tail = start ++ rest)
    (hle : tail.length ≤ rest.length) : ∃ w', w = start ++ w' ∧ w' ++ tail = rest := by
  rcases List.append_eq_append_iff.mp h with ⟨t, hstart, htail⟩ | ⟨w', hw, hrest⟩
  · have hnil : t = [] := by
      rw [htail, List.length_append] at hle
      exact List.length_eq_zero_iff.mp (by omega)
    subst hnil
    exact ⟨[], by simpa using hstart.symm, by simpa using htail⟩
  · exact ⟨w', hw, hrest.symm⟩

namespace ReplyParsing

variable {d before w after : Bytes} {first last : Nat}

/-! ## Stages without their delimiter -/

theorem find_past (h : last < first) (c : UInt8) :
    Cursor.find d first last c = .error .badRange := if_neg (by omega)

theorem parseHeaders_past (f : ReplyParsing) (h : last < first) :
    f.parseHeaders d first last = .error .badRange := by
  rw [parseHeaders_eq, if_neg (by omega), find_past h]
  rfl

/-- A version that is cut off is an error, or `parse` goes on after the range. -/
theorem parseVersion_cut (f g : ReplyParsing) {t : Bytes} (h : InBlock d first last before w after)
    (hw : str "HTTP/1.1" = w ++ t) (hg : f.parseVersion d first last = .ok g) :
    g.parser.isError = true := by
  have hsize := h.size
  have h8 := congrArg List.length hw
  rw [List.length_append] at h8
  have hlen : (str "HTTP/1.1").length = 8 := rfl
  have hblank : 32 ∉ w := by
    intro hmem
    have hmem : 32 ∈ str "HTTP/1.1" := by rw [hw]; exact List.mem_append_left t hmem
    exact absurd hmem (by decide)
  have hint : toInt ((last : Int) - first) = (w.length : Int) := by
    rw [toInt_of_lt (by omega) (by omega)]
    omega
  unfold parseVersion ReplyParser.ParseHttpVersion at hg
  rw [h.find_none hblank, ok_bind, guardOr_pos (by omega), ok_bind, hint] at hg
  by_cases hshort : w.length = 8
  · rw [if_neg (by omega)] at hg
    obtain ⟨⟨flag, parser⟩, hversion, hg⟩ := bind_eq_ok.mp hg
    split at hversion
    · cases hversion
      dsimp only at hg
      rw [if_pos rfl] at hg
      unfold parseStatus at hg
      rw [find_past (Nat.lt_succ_self last)] at hg
      cases hg
    · cases hversion
      cases hg
      rfl
  · rw [if_pos (by omega)] at hg
    cases hg
    rfl

/-- A reason that is cut off makes `parse` go on after the range. -/
theorem parseStatusString_cut (f g : ReplyParsing) (h : InBlock d first last before w after)
    (hno : 10 ∉ w) : f.parseStatusString d first last ≠ .ok g := by
  intro hg
  unfold parseStatusString at hg
  rw [h.find_none hno, ok_bind] at hg
  obtain ⟨stop, -, hg⟩ := bind_eq_ok.mp hg
  dsimp only [ReplyParser.ParseStatusString] at hg
  rw [if_pos rfl, parseHeaders_past _ (Nat.lt_succ_self last)] at hg
  cases hg

/-- A status that is cut off in its first two digits is waited for. -/
theorem parseStatus_wait (f : ReplyParsing) (h : InBlock d first last before w after)
    (hno : 32 ∉ w) (hunknown : (stoi w).map statusNumber = .ok none) :
    f.parseStatus d first last = .ok f := by
  have htext : Cursor.string d first last = .ok w :=
    Cursor.string_range before w after h.block h.first h.last
  unfold parseStatus ReplyParser.ParseStatus
  rw [h.find_none hno, ok_bind, htext, ok_bind]
  cases hstoi : stoi w with
  | error e =>
    rw [hstoi] at hunknown
    cases hunknown
  | ok n =>
    rw [hstoi] at hunknown
    have hnone : statusNumber n = none := Except.ok.inj hunknown
    rw [ok_bind, hnone]
    rfl

/-- A status without a digit is an exception, and after all of its digits `parse` leaves the range. -/
theorem parseStatus_cut (f g : ReplyParsing) (h : InBlock d first last before w after)
    (hno : 32 ∉ w) (hw : w = [] ∨ ∃ n, stoi w = .ok n ∧ (statusNumber n).isSome) :
    f.parseStatus d first last ≠ .ok g := by
  have htext : Cursor.string d first last = .ok w :=
    Cursor.string_range before w after h.block h.first h.last
  intro hg
  unfold parseStatus ReplyParser.ParseStatus at hg
  rw [h.find_none hno, ok_bind, htext, ok_bind] at hg
  rcases hw with rfl | ⟨n, hn, hknown⟩
  · cases hg
  · obtain ⟨text, hsome⟩ := Option.isSome_iff_exists.mp hknown
    rw [hn, ok_bind, hsome] at hg
    dsimp only at hg
    rw [pure_eq_ok, ok_bind] at hg
    dsimp only at hg
    unfold parseStatusString at hg
    rw [if_pos rfl, find_past (Nat.lt_succ_self last)] at hg
    cases hg

/-- Of a longer rest without a LF the loop makes a header, and goes on after the range. -/
theorem parseHeaders_unfinished (f g : ReplyParsing) (h : InBlock d first last before w after)
    (hno : 10 ∉ w) (hlen : 1 < w.length) : f.parseHeaders d first last ≠ .ok g := by
  have hsize := h.size
  intro hg
  rw [parseHeaders_eq, if_neg (by omega), h.find_none hno, ok_bind, if_neg (by omega)] at hg
  obtain ⟨_, -, hg⟩ := bind_eq_ok.mp hg
  obtain ⟨_, -, hg⟩ := bind_eq_ok.mp hg
  rw [parseHeaders_past _ (Nat.lt_succ_self last)] at hg
  cases hg

/-- **A single last byte is taken for a blank line, and for two bytes.** -/
theorem parseHeaders_single (f : ReplyParsing) {c : UInt8} (h : InBlock d first last before [c] after)
    (hc : c ≠ 10) : f.parseHeaders d first last =
      (f.blankLine 2).parseBody d (last + 1) last := by
  have hsize : last = first + 1 := h.size
  have hn : last + 1 - first = 2 := by omega
  rw [parseHeaders_eq, if_neg (by omega), h.find_none (by simpa using hc.symm), ok_bind,
    if_pos (Or.inr (by omega)), hn]
  rfl

/-- At the end of the range the loop falls through to the body. -/
theorem parseHeaders_none (f : ReplyParsing) (h : InBlock d first last before [] after) :
    f.parseHeaders d first last = f.parseBody d first last := by
  have hsize : last = first := h.size
  rw [parseHeaders_eq, if_pos hsize.symm]

/-- Without a length there is an exception. -/
theorem parseBody_none (f g : ReplyParsing) (h : f.parser.headers_.get (str "Content-Length") = []) :
    f.parseBody d first last ≠ .ok g := by
  unfold parseBody
  rw [h]
  intro hg
  cases hg

/-- A length of zero makes the parser good. -/
theorem parseBody_zero (f g : ReplyParsing)
    (h : stoi (f.parser.headers_.get (str "Content-Length")) = .ok 0)
    (hg : f.parseBody d first last = .ok g) : g.parser.isGood = true := by
  unfold parseBody at hg
  rw [h, ok_bind, if_pos rfl] at hg
  cases hg
  rfl

end ReplyParsing

/-! ## The places -/

open ReplyParsing

namespace ReplyText

/--
The cuts at which the parser waits, by what is to come: inside the status after its first digit;
after a header line, once the length is told and is not zero; and in the body.
-/
inductive Harmless (r : ReplyText) : Bytes → Prop where
  | status (k : Nat) (hk : k ∈ [1, 2]) :
      Harmless r (r.number.drop k ++ 32 :: (r.reason ++ [13] ++ 10 :: (lines r.headers ++ r.ending)))
  | headers (hs hs' : List HeaderText) (hr : r.headers = hs ++ hs') (htold : TellsLength hs)
      (hbody : r.body ≠ []) : Harmless r (lines hs' ++ r.ending)
  | body (k : Nat) : Harmless r (r.body.drop k)

/-- The cuts one byte into a line after the headers `hs`, once the length is told and is not zero. -/
inductive OneByte (r : ReplyText) (hs : List HeaderText) : Bytes → Prop where
  | intro (hs' : List HeaderText) (c : UInt8) (tail : Bytes) (hr : r.headers = hs ++ hs')
      (htold : TellsLength hs) (hbody : r.body ≠ []) (hline : c :: tail = lines hs' ++ r.ending) :
      OneByte r hs tail

variable {r : ReplyText}

/-- Headers that do not tell the length leave no entry for it. -/
theorem get_not_told : ∀ (hs : List HeaderText) (headers_ : Headers),
    headers_.get (str "Content-Length") = [] → ¬TellsLength hs →
    (addHeaders headers_ hs).get (str "Content-Length") = []
  | [], _, hnone, _ => hnone
  | h :: hs, headers_, hnone, htold => by
    have hname : h.name ≠ str "Content-Length" := fun hname => htold ⟨h, List.mem_cons_self, hname⟩
    refine get_not_told hs (headers_.set (headerKey h.name) (headerValue h.value)) ?_ ?_
    · unfold Headers.get at hnone ⊢
      rw [h.headerKey_name, Headers.lookup_set, if_neg hname.symm]
      exact hnone
    · rintro ⟨h', hh', hname'⟩
      exact htold ⟨h', List.mem_cons_of_mem h hh', hname'⟩

/-- Two ways to split the headers, of which the second leaves no more to come. -/
theorem split_headers {hs hs' hs1 hs1' : List HeaderText} (h : hs ++ hs' = hs1 ++ hs1')
    (hle : (lines hs1').length ≤ (lines hs').length) : ∃ m, hs1 = hs ++ m ∧ hs' = m ++ hs1' := by
  rcases List.append_eq_append_iff.mp h with ⟨m, hm, hm'⟩ | ⟨m, hm, hm'⟩
  · exact ⟨m, hm, hm'⟩
  · have hnil : m = [] := by
      cases m with
      | nil => rfl
      | cons header m =>
        rw [hm', List.cons_append, lines_cons, List.length_append, List.length_cons, lines_append,
          List.length_append] at hle
        omega
    subst hnil
    exact ⟨[], by simpa using hm.symm, by simpa using hm'.symm⟩

end ReplyText

/-! ## Cuts that spoil the parser -/

namespace ReplyParsing

open ReplyText

variable {d before w tail after : Bytes} {first last : Nat} {r : ReplyText}

/-- A call that returns has found an error, or is good. -/
def Ends (x : Exec ReplyParsing) : Prop :=
  ∀ g, x = .ok g → g.parser.isGood = true ∨ g.parser.isError = true

/-- The body stage when the length is not told, or is zero. -/
theorem parseBody_ends (hlen : r.body.length < 2 ^ 31) {f : ReplyParsing} {hs hs' : List HeaderText}
    (hr : r.headers = hs ++ hs') (hf : f.parser.headers_ = addHeaders [] hs)
    (h : ¬(TellsLength hs ∧ r.body ≠ [])) (first last : Nat) : Ends (f.parseBody d first last) := by
  intro g hg
  by_cases htold : TellsLength hs
  · have hzero : r.body = [] := not_not.mp fun hne => h ⟨htold, hne⟩
    have hstoi := stoi_told hlen hr htold
    rw [hzero, ← hf] at hstoi
    exact .inl (parseBody_zero f g hstoi hg)
  · have hnone := get_not_told hs [] rfl htold
    rw [← hf] at hnone
    exact absurd hg (parseBody_none f g hnone)

/-- A range that ends inside a line of the headers, or before it. -/
theorem parseHeaders_part (hlen : r.body.length < 2 ^ 31) {f : ReplyParsing}
    {hs hs' : List HeaderText} (h : InBlock d first last before w after) (hno : 10 ∉ w)
    (hcut : w ++ tail = lines hs' ++ r.ending) (hr : r.headers = hs ++ hs')
    (hf : f.parser.headers_ = addHeaders [] hs) :
    Ends (f.parseHeaders d first last) ∨ Harmless r tail ∨ OneByte r hs tail := by
  cases w with
  | nil =>
    by_cases htold : TellsLength hs ∧ r.body ≠ []
    · rw [List.nil_append] at hcut
      rw [hcut]
      exact .inr (.inl (.headers hs hs' hr htold.1 htold.2))
    · rw [f.parseHeaders_none h]
      exact .inl (parseBody_ends hlen hr hf htold _ _)
  | cons c w =>
    cases w with
    | nil =>
      by_cases htold : TellsLength hs ∧ r.body ≠ []
      · exact .inr (.inr (.intro hs' c tail hr htold.1 htold.2 hcut))
      · rw [f.parseHeaders_single h fun heq => hno (by simp [heq])]
        refine .inl (parseBody_ends hlen hr ?_ htold _ _)
        exact hf
    | cons c' w =>
      exact .inl fun g hg => absurd hg (parseHeaders_unfinished f g h hno (by simp))

/-- **A cut at the headers**: it spoils the parser, or is harmless, or is one byte into a line. -/
theorem parseHeaders_cases (hlen : r.body.length < 2 ^ 31) (hfilled : r.Filled) :
    ∀ (hs' hs : List HeaderText) (f : ReplyParsing) {first : Nat} {before w : Bytes},
    InBlock d first last before w after → w ++ tail = lines hs' ++ r.ending → r.headers = hs ++ hs' →
    f.parser.headers_ = addHeaders [] hs →
    Ends (f.parseHeaders d first last) ∨ Harmless r tail ∨ ∃ hs, OneByte r hs tail
  | [], hs, f, first, before, w, h, hcut, hr, hf => by
    have hline : w ++ tail = [13] ++ 10 :: r.body := hcut
    rcases cut_token hline with ⟨t, hw, -⟩ | ⟨w', -, hbody⟩
    · have hno : 10 ∉ w := fun hmem => by
        have hmem : (10 : UInt8) ∈ [13] := by rw [hw]; exact List.mem_append_left t hmem
        exact absurd hmem (by decide)
      exact (parseHeaders_part hlen h hno hcut hr hf).imp_right (Or.imp_right fun hone => ⟨hs, hone⟩)
    · have htail : tail = r.body.drop w'.length := by rw [← hbody, List.drop_left]
      rw [htail]
      exact .inr (.inl (.body w'.length))
  | header :: hs', hs, f, first, before, w, h, hcut, hr, hf => by
    have hline : w ++ tail = header.line ++ 10 :: (lines hs' ++ r.ending) := by
      rw [hcut, lines_cons, List.append_assoc, List.cons_append]
    rcases cut_token hline with ⟨t, hw, -⟩ | ⟨w', rfl, hrest⟩
    · have hno : 10 ∉ w := fun hmem =>
        header.lf_not_mem (by rw [hw]; exact List.mem_append_left t hmem)
      exact (parseHeaders_part hlen h hno hcut hr hf).imp_right (Or.imp_right fun hone => ⟨hs, hone⟩)
    · rw [f.parseHeaders_text h (hfilled header (by rw [hr]; simp))]
      refine parseHeaders_cases hlen hfilled hs' (hs ++ [header]) (f.addHeader header) h.tail hrest
        (by rw [hr]; simp) ?_
      rw [addHeaders_append, ← hf]
      rfl

/-- **A cut at the status or after it.** -/
theorem parseStatus_cases (hlen : r.bytes.length < 2 ^ 31) (hfilled : r.Filled) {f : ReplyParsing}
    (hf : AtStatus f.parser) (h : InBlock d first last before w after)
    (hcut : w ++ tail = r.afterVersion) :
    Ends (f.parseStatus d first last) ∨ Harmless r tail ∨ ∃ hs, OneByte r hs tail := by
  obtain ⟨hstoi, hdigits, hthree, -⟩ := statusNumber_spec r.status_known
  have hbody : r.body.length < 2 ^ 31 := by
    have := r.length_bytes
    have := r.length_afterVersion
    have := r.length_ending
    omega
  rcases cut_token hcut with ⟨t, hw, htail⟩ | ⟨w', rfl, hrest⟩
  · -- the range ends inside the status
    have hno : 32 ∉ w := fun hmem =>
      absurd (hdigits 32 (by rw [hw]; exact List.mem_append_left t hmem)) (by decide)
    have hsum := congrArg List.length hw
    rw [List.length_append] at hsum
    have hdrop : t = r.number.drop w.length := by rw [hw, List.drop_left]
    by_cases hzero : w.length = 0
    · exact .inl fun g hg =>
        absurd hg (parseStatus_cut f g h hno (.inl (List.length_eq_zero_iff.mp hzero)))
    · by_cases hall : w.length = 3
      · have hnil : t = [] := List.length_eq_zero_iff.mp (by omega)
        rw [hnil, List.append_nil] at hw
        rw [hw] at hstoi
        exact .inl fun g hg => absurd hg (parseStatus_cut f g h hno
          (.inr ⟨r.status, hstoi, by rw [r.status_known]; rfl⟩))
      · rw [htail, hdrop]
        exact .inr (.inl (.status w.length (by simp; omega)))
  · rcases cut_token hrest with ⟨t, hw, -⟩ | ⟨w2, rfl, hlines⟩
    · -- the range ends inside the reason
      have hno : 10 ∉ w' := fun hmem => by
        have hmem : (10 : UInt8) ∈ r.reason ++ [13] := by rw [hw]; exact List.mem_append_left t hmem
        rcases List.mem_append.mp hmem with hmem | hmem
        · exact r.reason_line hmem
        · exact absurd hmem (by decide)
      left
      intro g hg
      rw [f.parseStatus_token h r.number_spec.2 hstoi (by rw [r.status_known]; rfl)] at hg
      exact absurd hg (parseStatusString_cut _ g h.tail hno)
    · obtain ⟨f', first', before', hstatus, hblock, -, hf'⟩ := parseStatus_line hf h hlen
      rw [hstatus]
      exact parseHeaders_cases hbody hfilled r.headers [] f' hblock hlines rfl hf'.headers

end ReplyParsing

end Liby.Http
