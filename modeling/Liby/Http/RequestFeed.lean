import Liby.Buffer.Contents
import Liby.Http.RequestText
import Liby.Infra.Machine

/-!
# Requests in pieces

What `HttpServer::handleReadEvent` does with each piece of input that arrives: the piece is
appended to the read buffer, `parse` sees the whole buffer, and what was added to `bytes_`
is retrieved.

Fed a request whose pieces end at line ends, the parser takes each piece up completely. A piece
that ends elsewhere is taken as if it were complete, and the parser ends in an error or takes the
request for good too early.
-/

namespace Liby.Http

open Infra

/-! ## A block that does not end with a line end -/

section Cut

variable {d : Bytes} {first : Nat}

/-- The rest of a block that does not end with a LF. -/
def CutOff (rest : Bytes) : Prop := rest.getLast? ≠ some 10

theorem CutOff.tail {token rest : Bytes} {c : UInt8} (h : CutOff (token ++ c :: rest))
    (hne : rest ≠ []) : CutOff rest := by
  unfold CutOff at *
  rwa [List.getLast?_append_of_ne_nil _ (by simp), List.getLast?_cons_of_ne_nil hne] at h

theorem CutOff.ne_nil {line rest : Bytes} (h : CutOff (line ++ 10 :: rest)) : rest ≠ [] := by
  rintro rfl
  exact h (by simp)

/-- What follows a token of a block that is cut off, if anything does, is cut off too. -/
theorem CutOff.after {token rest : Bytes} {c : UInt8} (h : CutOff (token ++ c :: rest)) :
    CutOff rest := by
  by_cases hnil : rest = []
  · rw [hnil]
    exact fun heq => by cases heq
  · exact h.tail hnil

namespace Parsing

/-- The loop over the headers never ends in the middle: it is good too early, or leaves the block. -/
theorem parseHeaders_cut : ∀ (before rest : Bytes) (f g : Parsing), d = before ++ rest →
    first = before.length → rest ≠ [] → CutOff rest → f.parseHeaders d first = .ok g →
    g.parser.isGood = true := by
  intro before rest
  induction hn : rest.length using Nat.strong_induction_on generalizing before rest first with
  | _ n ih =>
    subst hn
    intro f g hd hf hne hcut h
    by_cases hmem : (10 : UInt8) ∈ rest
    · obtain ⟨line, tail, rfl, hno⟩ := List.eq_append_cons_of_mem hmem
      by_cases hlen : line.length ≤ 1
      · rw [parseHeaders_blank f before line tail hd hf hno hlen] at h
        cases h
        rfl
      · rw [parseHeaders_line f before line tail hd hf hno (by omega)] at h
        obtain ⟨headers', -, h⟩ := bind_eq_ok.mp h
        exact ih tail.length (by simp; omega) (before ++ line ++ [10]) tail rfl _ g (by simp [hd])
          (by simp [Nat.add_assoc]) hcut.ne_nil (hcut.tail hcut.ne_nil) h
    · by_cases hlen : 1 < rest.length
      · exact absurd h (parseHeaders_unfinished f before rest hd hf hmem hlen g)
      · obtain ⟨c, rfl⟩ : ∃ c, rest = [c] :=
          List.length_eq_one_iff.mp (le_antisymm (by omega) (List.length_pos_iff.mpr hne))
        rw [parseHeaders_single f before hd hf (by rintro rfl; simp at hmem)] at h
        cases h
        rfl

/-- The parser has come to an end, good or bad. -/
def Ended (g : Parsing) : Prop := g.parser.isGood = true ∨ g.parser.isError = true

theorem parseVersion_cut (f g : Parsing) (before rest : Bytes) (hd : d = before ++ rest)
    (hf : first = before.length) (hbefore : BeforeVersion false before) (hcut : CutOff rest)
    (h : f.parseVersion d first = .ok g) : g.Ended := by
  by_cases hmem : (10 : UInt8) ∈ rest
  · obtain ⟨line, tail, rfl, hno⟩ := List.eq_append_cons_of_mem hmem
    rw [parseVersion_line f before line tail hd hf hbefore (by simp) hno] at h
    split at h
    · exact Or.inl (parseHeaders_cut (before ++ line ++ [10]) tail _ g (by simp [hd])
        (by simp [Nat.add_assoc]) hcut.ne_nil (hcut.tail hcut.ne_nil) h)
    · cases h
      exact Or.inr rfl
  · rw [parseVersion_unfinished f before rest hd hf hbefore (by simp) hmem] at h
    split at h
    · cases h
    · cases h
      exact Or.inr rfl

theorem parseURI_cut (f g : Parsing) (before rest : Bytes) (hd : d = before ++ rest)
    (hf : first = before.length) (hcut : CutOff rest) (h : f.parseURI d first = .ok g) :
    g.Ended := by
  by_cases hmem : (32 : UInt8) ∈ rest
  · obtain ⟨token, tail, rfl, hno⟩ := List.eq_append_cons_of_mem hmem
    by_cases hlong : toInt token.length + 1 < 0
    · rw [parseURI_long f before token tail hd hf hno hlong] at h
      cases h
      exact Or.inr rfl
    · obtain ⟨h0, h1, t, ht⟩ := parseURI_decoded f before token tail hd hf hno hlong h
      rw [parseURI_token f before token tail hd hf hno h0 h1 ht] at h
      exact parseVersion_cut _ g (before ++ token ++ [32]) tail (by simp [hd])
        (by simp [hf, Nat.add_assoc]) ⟨before ++ token, rfl⟩ hcut.after h
  · obtain ⟨-, rfl⟩ := parseURI_unfinished f before rest hd hf hmem h
    exact Or.inr rfl

theorem parseMethod_cut (f g : Parsing) (before rest : Bytes) (hd : d = before ++ rest)
    (hf : first = before.length) (hcut : CutOff rest) (h : f.parseMethod d first = .ok g) :
    g.Ended := by
  by_cases hmem : (32 : UInt8) ∈ rest
  · obtain ⟨token, tail, rfl, hno⟩ := List.eq_append_cons_of_mem hmem
    cases hm : methods token with
    | none =>
      rw [parseMethod_unknown f before token (32 :: tail) (by simp [hd]) hf
        (find_blank before token tail hd hf hno) hm] at h
      cases h
      exact Or.inr rfl
    | some method =>
      rw [parseMethod_token f before token tail hd hf hno hm] at h
      exact parseURI_cut _ g (before ++ token ++ [32]) tail (by simp [hd])
        (by simp [hf, Nat.add_assoc]) hcut.after h
  · by_cases hm : methods rest = none
    · rw [parseMethod_unknown f before rest [] (by simp [hd]) hf
        (find_blank_none before rest hd hf hmem) hm] at h
      cases h
      exact Or.inr rfl
    · exact absurd h (parseMethod_unfinished f before rest hd hf hmem hm g)

end Parsing

/--
**A block that does not end with a line end is taken as complete.** Where a piece may start, at
the method or at a header line, the parser comes to an end in it.
-/
theorem parse_cut {p : RequestParser} {g : Parsing} (hne : d ≠ []) (hcut : CutOff d)
    (hp : p.progress_ = .ParsingMethod ∨ p.progress_ = .ParsingHeaders)
    (h : p.parse d = .ok g) : g.Ended := by
  unfold RequestParser.parse at h
  rcases hp with hp | hp
  · rw [hp] at h
    exact Parsing.parseMethod_cut _ g [] d rfl rfl hcut h
  · rw [hp] at h
    exact Or.inl (Parsing.parseHeaders_cut [] d _ g rfl rfl hne hcut h)

end Cut

/-! ## A block that ends with a line end -/

/-- What of a request is still to come. -/
inductive Rest where
  | all (r : RequestText)
  | headers (hs : List HeaderText)
  | nothing

namespace Rest

/-- Its bytes. -/
def bytes : Rest → Bytes
  | .all r => r.bytes
  | .headers hs => headersBytes hs
  | .nothing => []

/-- Every header still to come has a value. -/
def Filled : Rest → Prop
  | .all r => ∀ h ∈ r.headers, h.Filled
  | .headers hs => ∀ h ∈ hs, h.Filled
  | .nothing => True

/-- The parser waits for just that, and has counted the rest of `total` bytes. -/
def Awaits (total : Nat) (p : RequestParser) : Rest → Prop
  | .all r => p = RequestParser.clear ∧ r.bytes.length = total
  | .headers hs => p.progress_ = .ParsingHeaders ∧ 0 ≤ p.bytes_ ∧
      p.bytes_ + (headersBytes hs).length = total
  | .nothing => p.isGood = true ∧ p.bytes_ = total

/-- What the parser becomes when all of it has come. -/
def finish (p : RequestParser) : Rest → RequestParser
  | .all r => (r.headers.foldl RequestParser.addHeader (p.startLine r)).complete
  | .headers hs => (hs.foldl RequestParser.addHeader p).complete
  | .nothing => p

end Rest

/-- A piece that ends at a line end: nothing, or bytes up to a LF. -/
def EndsLine (piece : Bytes) : Prop := piece = [] ∨ piece.getLast? = some 10

/-- Of a line that is followed by more, such a piece has nothing, or all and a piece of the rest. -/
theorem EndsLine.cut {line piece tail rest : Bytes} (hno : 10 ∉ line) (hpiece : EndsLine piece)
    (h : piece ++ tail = line ++ 10 :: rest) :
    piece = [] ∨ ∃ piece', piece = line ++ 10 :: piece' ∧ piece' ++ tail = rest ∧
      EndsLine piece' := by
  refine hpiece.imp id fun hlast => ?_
  have hmem : (10 : UInt8) ∈ piece := List.mem_of_getLast? hlast
  rcases List.append_eq_append_iff.mp h with ⟨a, rfl, -⟩ | ⟨a, rfl, hrest⟩
  · exact absurd (List.mem_append_left _ hmem) hno
  · cases a with
    | nil => exact absurd (by simpa using hmem) hno
    | cons c piece' =>
      obtain ⟨rfl, rfl⟩ := List.cons.inj hrest
      refine ⟨piece', rfl, rfl, ?_⟩
      by_cases hnil : piece' = []
      · exact Or.inl hnil
      · rw [List.getLast?_append_of_ne_nil _ (by simp), List.getLast?_cons_of_ne_nil hnil] at hlast
        exact Or.inr hlast

/--
**A block that ends with a line end is taken up completely**: by the loop over the headers, up to
the header lines or the end of the request.
-/
theorem parseHeaders_piece {total : Nat} (htotal : total < 2 ^ 31) :
    ∀ (hs : List HeaderText) {d before piece tail : Bytes} {f : Parsing}, d = before ++ piece →
    piece ++ tail = headersBytes hs → EndsLine piece → (∀ h ∈ hs, h.Filled) →
    (Rest.headers hs).Awaits total f.parser →
    ∃ (g : Parsing) (r : Rest), f.parseHeaders d before.length = .ok g ∧ g.added = f.added + piece.length ∧
      r.bytes = tail ∧ r.Awaits total g.parser ∧ r.Filled ∧
      r.finish g.parser = (Rest.headers hs).finish f.parser
  | [], d, before, piece, tail, f, hd, hcut, hends, _, hawaits => by
    obtain ⟨hprogress, h0, hbytes⟩ := hawaits
    -- the piece is empty, or it has the blank line as a whole
    rcases @EndsLine.cut [13] piece tail [] (by decide) hends hcut with rfl | ⟨piece', rfl, htail, -⟩
    · refine ⟨f, .headers [], ?_, by simp, ?_, ⟨hprogress, h0, hbytes⟩, by simp [Rest.Filled], rfl⟩
      · exact Parsing.parseHeaders_end f (by simp [hd])
      · exact hcut.symm
    · obtain ⟨rfl, rfl⟩ := List.append_eq_nil_iff.mp htail
      refine ⟨f.good 2, .nothing, ?_, by simp, rfl, ⟨rfl, ?_⟩, trivial, rfl⟩
      · exact Parsing.parseHeaders_blank f before [13] [] (by simp [hd]) rfl (by decide) (by decide)
      · have hcount := RequestParser.count_bytes (n := 2) h0 (by simp [headersBytes] at hbytes; omega)
        refine hcount.trans ?_
        simpa [headersBytes] using hbytes
  | h :: hs, d, before, piece, tail, f, hd, hcut, hends, hfilled, hawaits => by
    have hhs : ∀ h' ∈ hs, h'.Filled := fun h' hh' => hfilled h' (List.mem_cons_of_mem h hh')
    rw [headersBytes_cons] at hcut
    -- the piece is empty, or it has the first header as a whole
    rcases hends.cut h.lf_not_mem hcut with rfl | ⟨piece', rfl, htail, hends'⟩
    · refine ⟨f, .headers (h :: hs), ?_, by simp, ?_, hawaits, hfilled, rfl⟩
      · exact Parsing.parseHeaders_end f (by simp [hd])
      · rw [Rest.bytes, headersBytes_cons]
        exact hcut.symm
    · obtain ⟨hprogress, h0, hbytes⟩ := hawaits
      rw [headersBytes_cons, List.length_append, List.length_cons] at hbytes
      have hcount := RequestParser.count_bytes (n := h.line.length + 1)
        (p := { f.parser with
          headers_ := f.parser.headers_.set (headerKey h.name) (headerValue h.value) })
        h0 (by push_cast at hbytes ⊢; omega)
      have hnext : (Rest.headers hs).Awaits total (f.parser.addHeader h) := by
        have hval : (f.parser.addHeader h).bytes_ = f.parser.bytes_ + (h.line.length + 1 : Nat) :=
          hcount
        refine ⟨hprogress, ?_, ?_⟩
        · rw [hval]
          omega
        · rw [hval]
          push_cast at hbytes ⊢
          omega
      obtain ⟨g, r, hg, hadded, hrest, hawaits', hfilled', hfinish⟩ :=
        @parseHeaders_piece total htotal hs d (before ++ h.line ++ [10]) piece' tail
          { parser := f.parser.addHeader h, added := f.added + (h.line.length + 1) }
          (by simp [hd]) htail hends' hhs hnext
      refine ⟨g, r, ?_, ?_, hrest, hawaits', hfilled', hfinish⟩
      · rw [Parsing.parseHeaders_text f before piece' hd rfl (hfilled h List.mem_cons_self)]
        have hlen : (before ++ h.line ++ [10]).length = before.length + h.line.length + 1 := by
          simp [Nat.add_assoc]
        rw [← hlen]
        exact hg
      · rw [hadded]
        simp
        omega

theorem Rest.Awaits.count {total : Nat} {p : RequestParser} {r : Rest} (h : r.Awaits total p) :
    p.bytes_ + r.bytes.length = total := by
  cases r with
  | all r =>
    obtain ⟨rfl, hlen⟩ := h
    simp [Rest.bytes, RequestParser.clear, hlen]
  | headers hs => exact h.2.2
  | nothing => simpa [Rest.bytes] using h.2

theorem Rest.Awaits.nonneg {total : Nat} {p : RequestParser} {r : Rest} (h : r.Awaits total p) :
    0 ≤ p.bytes_ := by
  cases r with
  | all r => rw [h.1]; exact Int.le_refl 0
  | headers hs => exact h.2.1
  | nothing => rw [h.2]; exact Int.natCast_nonneg total

/-- **`parse` takes up a piece that ends with a line end.** -/
theorem parse_piece {total : Nat} (htotal : total < 2 ^ 31) {p : RequestParser} {r : Rest}
    {piece tail : Bytes} (hne : piece ≠ []) (hcut : piece ++ tail = r.bytes) (hends : EndsLine piece)
    (hfilled : r.Filled) (hawaits : r.Awaits total p) :
    ∃ (g : Parsing) (r' : Rest), p.parse piece = .ok g ∧ r'.bytes = tail ∧
      r'.Awaits total g.parser ∧ r'.Filled ∧ r'.finish g.parser = r.finish p := by
  cases r with
  | all r =>
    obtain ⟨rfl, hlen⟩ := hawaits
    obtain ⟨piece', rfl, htail, hends'⟩ := (hends.cut r.lf_not_mem hcut).resolve_left hne
    have hbytes : r.line.length + (headersBytes r.headers).length + 1 = total := by
      rw [← hlen]
      simp [RequestText.bytes]
      omega
    have hcount := RequestParser.startLine_bytes (p := RequestParser.clear) r (Int.le_refl 0)
      (by show (0 : Int) + _ < _; omega)
    rw [show RequestParser.clear.bytes_ = 0 from rfl, Int.zero_add] at hcount
    obtain ⟨g, r', hg, -, hrest, hawaits', hfilled', hfinish⟩ :=
      @parseHeaders_piece total htotal r.headers (r.line ++ 10 :: piece') (r.line ++ [10]) piece' tail
        { parser := RequestParser.clear.startLine r, added := 0 + (r.line.length + 1) } (by simp)
        htail hends' hfilled ⟨rfl, by rw [hcount]; omega, by rw [hcount]; omega⟩
    refine ⟨g, r', ?_, hrest, hawaits', hfilled', hfinish⟩
    have htext := Parsing.parseMethod_text { parser := RequestParser.clear, added := 0 } r piece'
      (by omega)
    rw [List.length_append, List.length_singleton] at hg
    exact htext.trans hg
  | headers hs =>
    obtain ⟨g, r', hg, -, hrest⟩ :=
      @parseHeaders_piece total htotal hs piece [] piece tail { parser := p, added := 0 } rfl hcut
        hends hfilled hawaits
    refine ⟨g, r', ?_, hrest⟩
    unfold RequestParser.parse
    rw [hawaits.1]
    exact hg
  | nothing => exact absurd (List.append_eq_nil_iff.mp hcut).1 hne

/-! ## The read buffer -/

/-- A connection's parser and its read buffer. -/
structure Reading where
  requestParser : RequestParser
  readBuf : Buffer
  deriving DecidableEq, Repr

namespace Reading

/-- A new connection. -/
def init : Reading := { requestParser := RequestParser.clear, readBuf := Buffer.init }

/-- What `handleReadEvent` does with a piece that arrives, up to the outcome of the parser. -/
def feed (s : Reading) (chunk : Bytes) : Exec Reading := do
  let readBuf ← s.readBuf.append chunk
  let d ← readBuf.data
  let f ← s.requestParser.parse d
  let n ← subInt f.parser.bytes_ s.requestParser.bytes_
  let readBuf ← readBuf.retrieve n
  return { requestParser := f.parser, readBuf := readBuf }

/-- The buffer is empty. -/
structure Drained (s : Reading) : Prop where
  wf : s.readBuf.Wf
  contents : s.readBuf.contents = []

theorem drained_init : Drained init := ⟨Buffer.wf_init, rfl⟩

variable {s : Reading}

/-- On an empty buffer `parse` sees the piece alone. -/
theorem Drained.feed_eq (h : Drained s) {chunk : Bytes} (hne : chunk ≠ []) :
    ∃ readBuf : Buffer, readBuf.Wf ∧ readBuf.contents = chunk ∧
      s.feed chunk = (s.requestParser.parse chunk >>= fun f =>
        subInt f.parser.bytes_ s.requestParser.bytes_ >>= fun n =>
        readBuf.retrieve n >>= fun readBuf =>
        .ok { requestParser := f.parser, readBuf := readBuf }) := by
  obtain ⟨readBuf, happend, hwf, hcont⟩ := h.wf.append_ok hne
  rw [h.contents, List.nil_append] at hcont
  refine ⟨readBuf, hwf, hcont, ?_⟩
  unfold feed
  rw [happend, ok_bind, hwf.data_eq (by rw [hcont]; exact hne), ok_bind, hcont]
  rfl

/-- A piece that ends with a line end leaves the buffer empty again. -/
theorem Drained.feed_piece (h : Drained s) {total : Nat} (htotal : total < 2 ^ 31) {r : Rest}
    {piece tail : Bytes} (hne : piece ≠ []) (hcut : piece ++ tail = r.bytes) (hends : EndsLine piece)
    (hfilled : r.Filled) (hawaits : r.Awaits total s.requestParser) :
    ∃ (s' : Reading) (r' : Rest), s.feed piece = .ok s' ∧ Drained s' ∧ r'.bytes = tail ∧
      r'.Awaits total s'.requestParser ∧ r'.Filled ∧
      r'.finish s'.requestParser = r.finish s.requestParser := by
  obtain ⟨readBuf, hwf, hcont, hfeed⟩ := h.feed_eq hne
  obtain ⟨g, r', hg, hrest, hawaits', hfilled', hfinish⟩ :=
    parse_piece htotal hne hcut hends hfilled hawaits
  -- what was added to `bytes_` is the length of the piece
  have hcount := hawaits.count
  have hcount' := hawaits'.count
  have hnonneg := hawaits.nonneg
  have hlen : piece.length + tail.length = r.bytes.length := by rw [← hcut, List.length_append]
  have hdiff : g.parser.bytes_ - s.requestParser.bytes_ = piece.length := by
    rw [hrest] at hcount'
    omega
  obtain ⟨readBuf', hretrieve, hwf', hcont', -⟩ := hwf.retrieve_ok piece.length
  refine ⟨{ requestParser := g.parser, readBuf := readBuf' }, r', ?_, ⟨hwf', ?_⟩, hrest, hawaits',
    hfilled', hfinish⟩
  · rw [hfeed, hg, ok_bind, subInt_ok (by omega) (by omega), ok_bind, hdiff, hretrieve]
    rfl
  · rw [hcont', hcont, List.drop_length]

/-- **A request whose pieces end at line ends is taken up piece by piece.** -/
theorem Drained.run_pieces {total : Nat} (htotal : total < 2 ^ 31) : ∀ {pieces : List Bytes}
    {s : Reading} {r : Rest} {tail : Bytes}, Drained s → (∀ piece ∈ pieces, piece ≠ []) →
    pieces.flatten ++ tail = r.bytes → (∀ piece ∈ pieces, EndsLine piece) → r.Filled →
    r.Awaits total s.requestParser →
    ∃ (s' : Reading) (r' : Rest), run feed s pieces = .ok s' ∧ Drained s' ∧ r'.bytes = tail ∧
      r'.Awaits total s'.requestParser ∧ r'.Filled ∧
      r'.finish s'.requestParser = r.finish s.requestParser
  | [], s, r, tail, hs, _, hcut, _, hfilled, hawaits =>
    ⟨s, r, rfl, hs, hcut.symm, hawaits, hfilled, rfl⟩
  | piece :: pieces, s, r, tail, hs, hne, hcut, hends, hfilled, hawaits => by
    rw [List.flatten_cons, List.append_assoc] at hcut
    obtain ⟨s1, r1, hfeed, hs1, hrest1, hawaits1, hfilled1, hfinish1⟩ :=
      hs.feed_piece htotal (hne piece List.mem_cons_self) hcut (hends piece List.mem_cons_self)
        hfilled hawaits
    obtain ⟨s2, r2, hrun, hs2, hrest2, hawaits2, hfilled2, hfinish2⟩ :=
      run_pieces htotal hs1 (fun p hp => hne p (List.mem_cons_of_mem piece hp)) hrest1.symm
        (fun p hp => hends p (List.mem_cons_of_mem piece hp)) hfilled1 hawaits1
    refine ⟨s2, r2, ?_, hs2, hrest2, hawaits2, hfilled2, hfinish2.trans hfinish1⟩
    rw [run_cons, hfeed]
    exact hrun

end Reading

end Liby.Http
