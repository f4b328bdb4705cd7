import Liby.Http.RequestFeed

/-!
# When the pieces do not matter

`ChunkIndependent` says that a request fed in pieces ends as if it had come at once, and that the
parser comes to no end before the last piece. It holds exactly when every piece ends at a line
end, every header has a value that is not blank and the length fits in an `int`.
-/

namespace Liby.Http

open Infra

namespace Reading

variable {r : RequestText} {chunks : List Bytes}

/-- Fed in these pieces, the request ends as if fed at once, and not before the last piece. -/
structure ChunkIndependent (r : RequestText) (chunks : List Bytes) : Prop where
  /-- The parser is good and the same, `bytes_` is the length, and the buffer is empty. -/
  same : ∃ s one : Reading, run feed init chunks = .ok s ∧ run feed init [r.bytes] = .ok one ∧
    s.requestParser = one.requestParser ∧ s.requestParser.isGood = true ∧
    s.requestParser.bytes_ = r.bytes.length ∧ s.readBuf.empty = true
  notBefore : ∀ before after : List Bytes, chunks = before ++ after → after ≠ [] →
    ∀ s, run feed init before = .ok s →
      s.requestParser.isGood = false ∧ s.requestParser.isError = false

theorem rest_nothing {rest : Rest} (h : rest.bytes = []) : rest = .nothing := by
  cases rest with
  | all r => simp [Rest.bytes, RequestText.bytes] at h
  | headers hs => simp [Rest.bytes, headersBytes] at h
  | nothing => rfl

/-- What is still to come ends with a LF. -/
theorem rest_getLast {rest : Rest} (h : rest.bytes ≠ []) : rest.bytes.getLast? = some 10 := by
  cases rest with
  | all r =>
    have hbytes : r.bytes = (r.line ++ 10 :: r.headers.flatMap (fun h => h.line ++ [10]) ++ [13])
        ++ [10] := by
      simp [RequestText.bytes, headersBytes]
    rw [Rest.bytes, hbytes, List.getLast?_concat]
  | headers hs =>
    have hbytes : headersBytes hs = (hs.flatMap (fun h => h.line ++ [10]) ++ [13]) ++ [10] := by
      simp [headersBytes]
    rw [Rest.bytes, hbytes, List.getLast?_concat]
  | nothing => exact absurd rfl h

/-- While something is still to come, the parser is neither good nor in error. -/
theorem Awaits.not_ended {total : Nat} {p : RequestParser} {rest : Rest}
    (h : rest.Awaits total p) (hne : rest.bytes ≠ []) : p.isGood = false ∧ p.isError = false := by
  cases rest with
  | all r => rw [h.1]; exact ⟨rfl, rfl⟩
  | headers hs =>
    obtain ⟨hp, -⟩ := h
    unfold RequestParser.isGood RequestParser.isError
    rw [hp]
    exact ⟨rfl, rfl⟩
  | nothing => exact absurd rfl hne

/-- While something is still to come, a piece may start where the parser is. -/
theorem Awaits.progress {total : Nat} {p : RequestParser} {rest : Rest}
    (h : rest.Awaits total p) (hne : rest.bytes ≠ []) :
    p.progress_ = .ParsingMethod ∨ p.progress_ = .ParsingHeaders := by
  cases rest with
  | all r => rw [h.1]; exact Or.inl rfl
  | headers hs => exact Or.inr h.1
  | nothing => exact absurd rfl hne

/-- The pieces before some point, all of which end at line ends. -/
theorem run_before (tail : Bytes) (hlen : r.bytes.length < 2 ^ 31) (hfilled : ∀ h ∈ r.headers, h.Filled)
    {before : List Bytes} (hcut : before.flatten ++ tail = r.bytes)
    (hne : ∀ c ∈ before, c ≠ []) (hends : ∀ c ∈ before, c.getLast? = some 10) :
    ∃ (s : Reading) (rest : Rest), run feed init before = .ok s ∧ Drained s ∧ rest.bytes = tail ∧
      rest.Awaits r.bytes.length s.requestParser ∧
      rest.finish s.requestParser = (Rest.all r).finish RequestParser.clear := by
  obtain ⟨s, rest, hrun, hs, hrest, hawaits, -, hfinish⟩ :=
    @Drained.run_pieces r.bytes.length hlen before init (.all r) tail drained_init hne hcut
      (fun c hc => Or.inr (hends c hc)) hfilled ⟨rfl, rfl⟩
  exact ⟨s, rest, hrun, hs, hrest, hawaits, hfinish⟩

/-- A request whose pieces end at line ends is taken up as a whole. -/
theorem run_whole (hlen : r.bytes.length < 2 ^ 31) (hfilled : ∀ h ∈ r.headers, h.Filled)
    (hcut : chunks.flatten = r.bytes) (hne : ∀ c ∈ chunks, c ≠ [])
    (hends : ∀ c ∈ chunks, c.getLast? = some 10) :
    ∃ s : Reading, run feed init chunks = .ok s ∧
      s.requestParser = (Rest.all r).finish RequestParser.clear ∧
      s.requestParser.isGood = true ∧ s.requestParser.bytes_ = r.bytes.length ∧
      s.readBuf.empty = true := by
  obtain ⟨s, rest, hrun, hs, hrest, hawaits, hfinish⟩ :=
    run_before [] hlen hfilled (by rw [List.append_nil, hcut]) hne hends
  obtain rfl := rest_nothing hrest
  exact ⟨s, hrun, hfinish, hawaits.1, hawaits.2, hs.wf.empty_iff.mpr hs.contents⟩

theorem bytes_getLast (r : RequestText) : r.bytes.getLast? = some 10 :=
  @rest_getLast (.all r) (by simp [Rest.bytes, RequestText.bytes])

theorem chunkIndependent_of_lines (hlen : r.bytes.length < 2 ^ 31)
    (hfilled : ∀ h ∈ r.headers, h.Filled) (hcut : chunks.flatten = r.bytes)
    (hne : ∀ c ∈ chunks, c ≠ []) (hends : ∀ c ∈ chunks, c.getLast? = some 10) :
    ChunkIndependent r chunks where
  same := by
    obtain ⟨s, hrun, hfinish, hgood, hbytes, hempty⟩ := run_whole hlen hfilled hcut hne hends
    obtain ⟨one, hone, hfinish', -⟩ := @run_whole r [r.bytes] hlen hfilled (by simp)
      (by simp [RequestText.bytes]) (by simpa using bytes_getLast r)
    exact ⟨s, one, hrun, hone, by rw [hfinish, hfinish'], hgood, hbytes, hempty⟩
  notBefore := by
    rintro before after rfl hafter s hs
    have hne' : ∀ c ∈ before, c ≠ [] := fun c hc => hne c (List.mem_append_left _ hc)
    obtain ⟨s', rest, hrun, -, hrest, hawaits, -⟩ := run_before after.flatten hlen hfilled
      (by rw [← List.flatten_append, hcut]) hne'
      (fun c hc => hends c (List.mem_append_left _ hc))
    rw [hs] at hrun
    cases hrun
    refine Awaits.not_ended hawaits ?_
    rw [hrest]
    obtain ⟨c, hc⟩ := List.exists_mem_of_ne_nil _ hafter
    intro hnil
    exact hne c (List.mem_append_right _ hc) (List.flatten_eq_nil_iff.mp hnil c hc)

/-! ## The conditions are needed -/

/-- When a piece has been taken up, its parser is that of `parse` on the piece. -/
theorem Drained.parse_of_feed {s s' : Reading} (h : Drained s) {chunk : Bytes} (hne : chunk ≠ [])
    (hfeed : s.feed chunk = .ok s') :
    ∃ g : Parsing, s.requestParser.parse chunk = .ok g ∧ s'.requestParser = g.parser ∧
      g.parser.bytes_ - s.requestParser.bytes_ < 2 ^ 31 := by
  obtain ⟨readBuf, -, -, heq⟩ := h.feed_eq hne
  rw [heq] at hfeed
  obtain ⟨g, hg, hfeed⟩ := bind_eq_ok.mp hfeed
  obtain ⟨n, hn, hfeed⟩ := bind_eq_ok.mp hfeed
  obtain ⟨readBuf', -, hfeed⟩ := bind_eq_ok.mp hfeed
  cases hfeed
  refine ⟨g, hg, rfl, ?_⟩
  unfold subInt at hn
  split at hn
  · next hrange => exact hrange.2
  · cases hn

/-- A block of header lines that is taken up has no blank value. -/
theorem filled_of_parseHeaders : ∀ (hs : List HeaderText) {d before : Bytes} {f g : Parsing},
    d = before ++ headersBytes hs → AtLineStart before → f.parseHeaders d before.length = .ok g →
    ∀ h ∈ hs, h.Filled
  | [], _, _, _, _, _, _, _, _, h => by cases h
  | h :: hs, d, before, f, g, hd, hbefore, hok, h', hh' => by
    rw [headersBytes_cons] at hd
    by_cases hfilled : h.Filled
    · rw [Parsing.parseHeaders_text f before _ hd rfl hfilled] at hok
      have hlen : (before ++ h.line ++ [10]).length = before.length + h.line.length + 1 := by
        simp [Nat.add_assoc]
      rw [← hlen] at hok
      rcases List.mem_cons.mp hh' with rfl | hh'
      · exact hfilled
      · exact filled_of_parseHeaders hs (by simp [hd]) (Or.inr ⟨_, rfl⟩) hok h' hh'
    · exact absurd hok (Parsing.parseHeaders_blankValue f g before _ hd rfl hbefore hfilled)

/-- A request that is taken up at once has no blank value and a length that fits in an `int`. -/
theorem of_run_whole {one : Reading} (hone : run feed init [r.bytes] = .ok one)
    (hbytes : one.requestParser.bytes_ = r.bytes.length) :
    r.bytes.length < 2 ^ 31 ∧ ∀ h ∈ r.headers, h.Filled := by
  obtain ⟨s, hs, hnil⟩ := run_cons_ok hone
  cases hnil
  obtain ⟨g, hg, hparser, hdiff⟩ := drained_init.parse_of_feed (by simp [RequestText.bytes]) hs
  rw [hparser] at hbytes
  have hzero : init.requestParser.bytes_ = 0 := rfl
  have hlen : r.bytes.length < 2 ^ 31 := by omega
  refine ⟨hlen, ?_⟩
  have hline : r.line.length + 1 < 2 ^ 31 := by
    rw [RequestText.bytes, List.length_append, List.length_cons] at hlen
    omega
  have htext := Parsing.parseMethod_text { parser := RequestParser.clear, added := 0 } r
    (headersBytes r.headers) hline
  have hbefore : (r.line ++ [10]).length = r.line.length + 1 := by simp
  rw [← hbefore] at htext
  exact filled_of_parseHeaders r.headers (by simp) (Or.inr ⟨r.line, rfl⟩)
    (htext.symm.trans hg)

/-- The first piece that does not end at a line end. -/
theorem exists_first_cut (h : ¬∀ c ∈ chunks, c.getLast? = some (10 : UInt8)) :
    ∃ before c after, chunks = before ++ c :: after ∧ (∀ b ∈ before, b.getLast? = some 10) ∧
      CutOff c := by
  induction chunks with
  | nil => exact absurd (fun c hc => by cases hc) h
  | cons c cs ih =>
    by_cases hc : c.getLast? = some 10
    · obtain ⟨before, c', after, rfl, hbefore, hcut⟩ := ih fun hall =>
        h (List.forall_mem_cons.mpr ⟨hc, hall⟩)
      exact ⟨c :: before, c', after, rfl, List.forall_mem_cons.mpr ⟨hc, hbefore⟩, hcut⟩
    · exact ⟨[], c, cs, rfl, (fun b hb => by cases hb), hc⟩

/-- A piece that does not end at a line end brings the parser to an end before the last piece. -/
theorem lines_of_chunkIndependent (hcut : chunks.flatten = r.bytes) (hne : ∀ c ∈ chunks, c ≠ [])
    (hlen : r.bytes.length < 2 ^ 31) (hfilled : ∀ h ∈ r.headers, h.Filled)
    (h : ChunkIndependent r chunks) : ∀ c ∈ chunks, c.getLast? = some 10 := by
  by_contra hnot
  obtain ⟨before, c, after, rfl, hbefore, hcutoff⟩ := exists_first_cut hnot
  have hc : c ≠ [] := hne c (by simp)
  obtain ⟨s1, rest, hrun1, hs1, hrest, hawaits, -⟩ := run_before (c ++ after.flatten) hlen
    hfilled (by rw [← hcut]; simp)
    (fun b hb => hne b (List.mem_append_left _ hb)) hbefore
  have hrestne : rest.bytes ≠ [] := by
    rw [hrest]
    simp [hc]
  have hafter : after ≠ [] := by
    rintro rfl
    rw [List.flatten_nil, List.append_nil] at hrest
    exact hcutoff (hrest ▸ rest_getLast hrestne)
  obtain ⟨s, -, hrun, -⟩ := h.same
  rw [run_append, hrun1, ok_bind] at hrun
  obtain ⟨s2, hfeed, -⟩ := run_cons_ok hrun
  obtain ⟨g, hg, hparser, -⟩ := hs1.parse_of_feed hc hfeed
  obtain ⟨hgood, herror⟩ := h.notBefore (before ++ [c]) after (by simp) hafter s2
    (run_snoc hrun1 hfeed)
  rcases parse_cut hc hcutoff (Awaits.progress hawaits hrestne) hg with hended | hended
  · rw [hparser, hended] at hgood
    cases hgood
  · rw [hparser, hended] at herror
    cases herror

/--
**When the pieces do not matter.** A well-formed request cut into pieces ends as if it had come
at once, and no sooner, exactly when every piece ends at a line end, every header value has a
byte that is not blank, and the length fits in an `int`.
-/
theorem chunkIndependent_iff (hcut : chunks.flatten = r.bytes) (hne : ∀ c ∈ chunks, c ≠ []) :
    ChunkIndependent r chunks ↔ (∀ c ∈ chunks, c.getLast? = some 10) ∧
      (∀ h ∈ r.headers, h.Filled) ∧ r.bytes.length < 2 ^ 31 := by
  constructor
  · intro h
    obtain ⟨s, one, hrun, hone, hsame, -, hbytes, -⟩ := h.same
    obtain ⟨hlen, hfilled⟩ := of_run_whole hone (by rw [← hsame]; exact hbytes)
    exact ⟨lines_of_chunkIndependent hcut hne hlen hfilled h, hfilled, hlen⟩
  · rintro ⟨hends, hfilled, hlen⟩
    exact chunkIndependent_of_lines hlen hfilled hcut hne hends

/-- A request with one header. -/
def getRequest : RequestText where
  method := str "GET"
  uri := str "/a%20b?c"
  http11 := true
  headers := [{
    name := str "Host"
    value := str " liby"
    name_ne := by decide
    name_token := by decide +kernel
    value_line := by decide }]
  method_known := methods_get
  uri_ne := by decide
  uri_token := by decide

/-- Cut after its first line. -/
theorem chunkIndependent_lines :
    ChunkIndependent getRequest
      [str "GET /a%20b?c HTTP/1.1\r\n", str "Host: liby\r\n\r\n"] :=
  (chunkIndependent_iff (by decide) (by decide)).mpr ⟨by decide, by decide, by decide⟩

/-- Cut after its first byte: the parser does not know the method `G`. -/
theorem not_chunkIndependent :
    [str "G", str "ET /a%20b?c HTTP/1.1\r\nHost: liby\r\n\r\n"].flatten = getRequest.bytes ∧
      ¬ChunkIndependent getRequest
        [str "G", str "ET /a%20b?c HTTP/1.1\r\nHost: liby\r\n\r\n"] := by
  refine ⟨by decide, fun h => ?_⟩
  have hrun : run feed init [str "G"] = .ok
      { requestParser := { RequestParser.clear with progress_ := .InvalidMethod }
        readBuf := Buffer.ofBytes (str "G") } := by decide +kernel
  have herror := (h.notBefore [str "G"] _ rfl (by simp) _ hrun).2
  cases herror

/-- The first byte of a request is never a method. -/
theorem first_byte_error (r : RequestText) :
    ∃ s, run feed init [r.bytes.take 1] = .ok s ∧ s.requestParser.isError = true := by
  have hfirst : r.bytes.take 1 = r.method.take 1 := by
    have hpos : 1 ≤ r.method.length := by
      rcases methods_cases r.method_known with h | h | h | h <;> rw [h] <;> decide
    rw [RequestText.bytes, RequestText.line, List.append_assoc, List.take_append_of_le_length hpos]
  have hstate : ∀ c : UInt8, c = 71 ∨ c = 80 ∨ c = 72 ∨ c = 79 →
      run feed init [[c]] = .ok
        { requestParser := { RequestParser.clear with progress_ := .InvalidMethod }
          readBuf := Buffer.ofBytes [c] } := by
    rintro c (rfl | rfl | rfl | rfl) <;> decide +kernel
  rw [hfirst]
  rcases methods_cases r.method_known with h | h | h | h <;> rw [h]
  · exact ⟨_, hstate 71 (by decide), rfl⟩
  · exact ⟨_, hstate 80 (by decide), rfl⟩
  · exact ⟨_, hstate 72 (by decide), rfl⟩
  · exact ⟨_, hstate 79 (by decide), rfl⟩

end Reading

end Liby.Http
