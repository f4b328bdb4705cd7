import Liby.Buffer.Contents
import Liby.Http.ReplyFeed
import Liby.Infra.Machine

/-!
# When the pieces of a reply do not matter

`ChunkIndependent` says that a reply fed in pieces ends as if it had come at once, and that the
parser comes to no end before the last piece. It holds exactly when every cut is at a place where
the parser waits, or when the body that a cut lets begin too early is the right one by chance.
-/

namespace Liby.Http

open Infra ReplyText

/-- Two maps with the same entries. -/
def Headers.Same (headers headers' : Headers) : Prop :=
  ∀ key, headers.lookup key = headers'.lookup key

/-! ## The read buffer -/

/-- A connection's parser for replies and its read buffer. -/
structure ReplyReading where
  parser_ : ReplyParser
  readBuf : Buffer
  deriving DecidableEq, Repr

namespace ReplyReading

/-- A new connection. -/
def init (status_ : Int) : ReplyReading := { parser_ := .init status_, readBuf := Buffer.init }

/-- What `handleReadEvent` does with a piece that arrives, up to the outcome of the parser. -/
def feed (s : ReplyReading) (chunk : Bytes) : Exec ReplyReading := do
  let readBuf ← s.readBuf.append chunk
  let (block, first, last) ← readBuf.range
  let f ← s.parser_.parse block first last
  let n ← subInt f.parser.bytes_ s.parser_.bytes_
  let readBuf ← readBuf.retrieve n
  return { parser_ := f.parser, readBuf := readBuf }

variable {r : ReplyText} {s s' : ReplyReading} {chunk tail : Bytes}

/-- `parse` sees what the buffer held and the piece. -/
theorem feed_eq (hwf : s.readBuf.Wf) (hne : chunk ≠ []) :
    ∃ (readBuf : Buffer) (d before after : Bytes) (first last : Nat), readBuf.Wf ∧
      readBuf.contents = s.readBuf.contents ++ chunk ∧
      InBlock d first last before (s.readBuf.contents ++ chunk) after ∧
      s.feed chunk = (s.parser_.parse d first last >>= fun f =>
        subInt f.parser.bytes_ s.parser_.bytes_ >>= fun n =>
        readBuf.retrieve n >>= fun readBuf => .ok { parser_ := f.parser, readBuf := readBuf }) := by
  obtain ⟨readBuf, happend, hwf', hcontents⟩ := hwf.append_ok hne
  obtain ⟨block, hrange, hlt, hright, hwindow⟩ := hwf'.range_eq (by rw [hcontents]; simp [hne])
  have hblock := InBlock.of_window (le_of_lt hlt) hright
  rw [hwindow, hcontents] at hblock
  refine ⟨readBuf, block, _, _, _, _, hwf', hcontents, hblock, ?_⟩
  unfold feed
  rw [happend, ok_bind, hrange, ok_bind]
  rfl

/-- When a piece has been taken up, its parser is that of `parse`. -/
theorem parse_of_feed (hwf : s.readBuf.Wf) (hne : chunk ≠ []) (hfeed : s.feed chunk = .ok s') :
    ∃ (d before after : Bytes) (first last : Nat) (g : ReplyParsing),
      InBlock d first last before (s.readBuf.contents ++ chunk) after ∧
      s.parser_.parse d first last = .ok g ∧ s'.parser_ = g.parser := by
  obtain ⟨readBuf, d, before, after, first, last, -, -, hblock, heq⟩ := feed_eq hwf hne
  rw [heq] at hfeed
  obtain ⟨g, hg, hfeed⟩ := bind_eq_ok.mp hfeed
  obtain ⟨n, -, hfeed⟩ := bind_eq_ok.mp hfeed
  obtain ⟨readBuf', -, hfeed⟩ := bind_eq_ok.mp hfeed
  cases hfeed
  exact ⟨d, before, after, first, last, g, hblock, hg, rfl⟩

/-- What a call of `parse` counts is taken off the buffer. -/
theorem feed_of_parse {Q : ReplyParser → Nat → Prop} (hwf : s.readBuf.Wf) (hne : chunk ≠ [])
    (hparse : ∀ {d before after : Bytes} {first last : Nat},
      InBlock d first last before (s.readBuf.contents ++ chunk) after →
      ∃ (g : ReplyParsing) (n : Nat), s.parser_.parse d first last = .ok g ∧
        g.parser.bytes_ = s.parser_.bytes_ + n ∧ n < 2 ^ 31 ∧ Q g.parser n) :
    ∃ (s' : ReplyReading) (n : Nat), s.feed chunk = .ok s' ∧ s'.readBuf.Wf ∧
      s'.readBuf.contents = (s.readBuf.contents ++ chunk).drop n ∧ Q s'.parser_ n := by
  obtain ⟨readBuf, d, before, after, first, last, hwf', hcontents, hblock, heq⟩ := feed_eq hwf hne
  obtain ⟨g, n, hg, hbytes, hn, hq⟩ := hparse hblock
  have hdiff : g.parser.bytes_ - s.parser_.bytes_ = n := by omega
  obtain ⟨readBuf', hretrieve, hwf'', hrest, -⟩ := hwf'.retrieve_ok n
  refine ⟨{ parser_ := g.parser, readBuf := readBuf' }, n, ?_, hwf'', by rw [← hcontents]; exact hrest, hq⟩
  rw [heq, hg, ok_bind, subInt_ok (by omega) (by omega), ok_bind, hdiff, hretrieve]
  rfl

/-! ## Pieces after which the parser waits -/

/-- The parser waits, and `tail` is still to arrive. -/
structure Resumes (r : ReplyText) (tail : Bytes) (s : ReplyReading) : Prop where
  wf : s.readBuf.Wf
  awaits : Awaits r s.parser_ (s.readBuf.contents ++ tail)

theorem resumes_init (r : ReplyText) (status_ : Int) : Resumes r r.bytes (init status_) :=
  ⟨Buffer.wf_init, .start (cleared_init status_)⟩

/-- A piece that ends at a harmless cut. -/
theorem Resumes.feed_waits (hlen : r.bytes.length < 2 ^ 31) (hfilled : r.Filled)
    (h : Resumes r (chunk ++ tail) s) (hne : chunk ≠ []) (htail : tail ≠ [])
    (hharmless : Harmless r tail) : ∃ s', s.feed chunk = .ok s' ∧ Resumes r tail s' := by
  obtain ⟨s', n, hfeed, hwf, hcontents, hawaits⟩ :=
    feed_of_parse (Q := fun p n => Awaits r p ((s.readBuf.contents ++ chunk).drop n ++ tail)) h.wf hne
      fun hblock => by
        obtain ⟨g, n, hg, hn, hawaits⟩ := h.awaits.parse_waits hlen hfilled hblock
          (List.append_assoc _ _ _) htail hharmless
        have hcount := h.awaits.count
        have hcount' := hawaits.count
        simp only [List.length_append, List.length_drop] at hn hcount hcount'
        exact ⟨g, n, hg, by omega, by omega, hawaits⟩
  exact ⟨s', hfeed, hwf, by rw [hcontents]; exact hawaits⟩

/-- After each of the pieces, as long as something is to come, the cut is harmless. -/
def HarmlessCuts (r : ReplyText) (pieces : List Bytes) (tail : Bytes) : Prop :=
  ∀ before after, pieces = before ++ after → before ≠ [] → after.flatten ++ tail ≠ [] →
    Harmless r (after.flatten ++ tail)

theorem harmlessCuts_nil : HarmlessCuts r [] tail := by
  intro before after hnil hbefore
  exact absurd (List.append_eq_nil_iff.mp hnil.symm).1 hbefore

theorem harmlessCuts_cons {piece : Bytes} {pieces : List Bytes} :
    HarmlessCuts r (piece :: pieces) tail ↔
      (pieces.flatten ++ tail ≠ [] → Harmless r (pieces.flatten ++ tail)) ∧
        HarmlessCuts r pieces tail := by
  constructor
  · intro h
    refine ⟨h [piece] pieces rfl (List.cons_ne_nil _ _), ?_⟩
    rintro before after rfl - hne
    exact h (piece :: before) after rfl (List.cons_ne_nil _ _) hne
  · rintro ⟨hfirst, hrest⟩ before after hsplit hbefore hne
    rcases before with _ | ⟨c, _ | ⟨c', before⟩⟩
    · exact absurd rfl hbefore
    · obtain ⟨rfl, rfl⟩ := List.cons.inj hsplit
      exact hfirst hne
    · exact hrest (c' :: before) after (List.cons.inj hsplit).2 (List.cons_ne_nil _ _) hne

theorem HarmlessCuts.first {before after : List Bytes} (h : HarmlessCuts r (before ++ after) tail) :
    HarmlessCuts r before (after.flatten ++ tail) := by
  rintro before' after' rfl hbefore' hne
  rw [← List.append_assoc, ← List.flatten_append] at hne ⊢
  exact h before' (after' ++ after) (List.append_assoc _ _ _) hbefore' hne

/-- Pieces that end at harmless cuts are taken up one after the other. -/
theorem Resumes.run_waits (hlen : r.bytes.length < 2 ^ 31) (hfilled : r.Filled) (htail : tail ≠ []) :
    ∀ {pieces : List Bytes} {s : ReplyReading}, Resumes r (pieces.flatten ++ tail) s →
    (∀ piece ∈ pieces, piece ≠ []) → HarmlessCuts r pieces tail →
    ∃ s', run feed s pieces = .ok s' ∧ Resumes r tail s'
  | [], s, h, _, _ => ⟨s, rfl, h⟩
  | piece :: pieces, s, h, hne, hcuts => by
    rw [List.flatten_cons, List.append_assoc] at h
    have hrest : pieces.flatten ++ tail ≠ [] := by simp [htail]
    obtain ⟨s1, hfeed, h1⟩ := h.feed_waits hlen hfilled (hne piece List.mem_cons_self) hrest
      ((harmlessCuts_cons.mp hcuts).1 hrest)
    obtain ⟨s2, hrun, h2⟩ := h1.run_waits hlen hfilled htail
      (fun p hp => hne p (List.mem_cons_of_mem piece hp)) (harmlessCuts_cons.mp hcuts).2
    refine ⟨s2, ?_, h2⟩
    rw [run_cons, hfeed]
    exact hrun

/-- The last piece. -/
theorem Resumes.feed_completes (hlen : r.bytes.length < 2 ^ 31) (hfilled : r.Filled)
    (h : Resumes r chunk s) (hne : chunk ≠ []) : ∃ s', s.feed chunk = .ok s' ∧ Whole r s'.parser_ := by
  obtain ⟨s', n, hfeed, -, -, hwhole⟩ :=
    feed_of_parse (Q := fun p _ => Whole r p) h.wf hne fun hblock => by
      obtain ⟨g, hg, hwhole⟩ := h.awaits.parse_completes hlen hfilled hblock
      have hcount := h.awaits.count
      exact ⟨g, (s.readBuf.contents ++ chunk).length, hg, by rw [hwhole.bytes]; omega, by omega, hwhole⟩
  exact ⟨s', hfeed, hwhole⟩

/-- A reply that comes at once. -/
theorem run_one (hlen : r.bytes.length < 2 ^ 31) (hfilled : r.Filled) (status_ : Int) :
    ∃ one, run feed (init status_) [r.bytes] = .ok one ∧ Whole r one.parser_ := by
  obtain ⟨one, hfeed, hwhole⟩ :=
    (resumes_init r status_).feed_completes hlen hfilled (by simp [ReplyText.bytes])
  refine ⟨one, ?_, hwhole⟩
  rw [run_cons, hfeed]
  rfl

/-! ## A body that begins too early -/

/-- The parser takes what arrives for the body, and has got `got` of it. -/
structure Fills (r : ReplyText) (hs : List HeaderText) (got : Bytes) (s : ReplyReading) : Prop where
  wf : s.readBuf.Wf
  contents : s.readBuf.contents = got
  body : BodyAfter r hs s.parser_

/-- A piece that ends one byte into a line. -/
theorem Resumes.feed_skews (hlen : r.bytes.length < 2 ^ 31) (hfilled : r.Filled)
    (h : Resumes r (chunk ++ tail) s) (hne : chunk ≠ []) {hs : List HeaderText}
    (hone : OneByte r hs tail) : ∃ s', s.feed chunk = .ok s' ∧ Fills r hs [] s' := by
  have hcount := h.awaits.count
  have hpos : 0 < tail.length := by
    obtain ⟨hs', c, tail, -, -, -, hline⟩ := hone
    have hlines := congrArg List.length hline
    have hending := r.length_ending
    simp only [List.length_append, List.length_cons] at hlines
    omega
  simp only [List.length_append] at hcount
  obtain ⟨s', n, hfeed, hwf, hcontents, hn, hbody⟩ :=
    feed_of_parse (Q := fun p n => n = (s.readBuf.contents ++ chunk).length + 1 ∧ BodyAfter r hs p)
      h.wf hne fun hblock => by
        obtain ⟨g, hg, hbody, hbytes⟩ := h.awaits.parse_skews hlen hfilled hblock
          (List.append_assoc _ _ _) hone
        exact ⟨g, _, hg, hbytes, by rw [List.length_append]; omega, rfl, hbody⟩
  exact ⟨s', hfeed, hwf, by rw [hcontents, hn, List.drop_of_length_le (Nat.le_succ _)], hbody⟩

/-- A piece that does not make the body full. -/
theorem Fills.feed_short {hs : List HeaderText} {got : Bytes} (h : Fills r hs got s) (hne : chunk ≠ [])
    (hlt : (got ++ chunk).length < r.body.length) :
    ∃ s', s.feed chunk = .ok s' ∧ Fills r hs (got ++ chunk) s' := by
  obtain ⟨s', n, hfeed, hwf, hcontents, hn, hbody⟩ :=
    feed_of_parse (Q := fun p n => n = 0 ∧ BodyAfter r hs p) h.wf hne fun {d before after first last} hblock => by
      have hsize := hblock.size
      rw [h.contents] at hsize
      refine ⟨{ parser := s.parser_, added := 0 }, 0, ?_, (Int.add_zero _).symm, by decide, rfl, h.body⟩
      unfold ReplyParser.parse
      rw [h.body.progress]
      exact AtBody.wait (f := { parser := s.parser_, added := 0 }) h.body.toAtBody (by omega) (by omega)
  exact ⟨s', hfeed, hwf, by rw [hcontents, hn, List.drop_zero, h.contents], hbody⟩

/-- The piece that makes the body full. -/
theorem Fills.feed_full {hs : List HeaderText} {got : Bytes} (h : Fills r hs got s) (hne : chunk ≠ [])
    (hle : r.body.length ≤ (got ++ chunk).length) :
    ∃ s', s.feed chunk = .ok s' ∧ s'.parser_.progress_ = .Good ∧ s'.parser_.status_ = r.status ∧
      s'.parser_.headers_ = addHeaders [] hs ∧
      s'.parser_.content_.contents = (got ++ chunk).take r.body.length := by
  have hlength : ((got ++ chunk).take r.body.length).length = r.body.length := by
    rw [List.length_take]
    omega
  have hroom := h.body.room
  have hnonneg := h.body.nonneg
  obtain ⟨s', n, hfeed, -, -, hgood⟩ :=
    feed_of_parse (Q := fun p _ => p.progress_ = .Good ∧ p.status_ = r.status ∧
        p.headers_ = addHeaders [] hs ∧ p.content_.contents = (got ++ chunk).take r.body.length)
      h.wf hne fun {d before after first last} hblock => by
        rw [h.contents, ← List.take_append_drop r.body.length (got ++ chunk)] at hblock
        obtain ⟨content_, -, hcontents, hparse⟩ :=
          ({ parser := s.parser_, added := 0 } : ReplyParsing).parseBody_whole hblock
            (by rw [hlength]; exact h.body.told) h.body.wf h.body.content hnonneg
            (by rw [hlength]; exact hroom)
        unfold ReplyParser.parse
        rw [h.body.progress]
        rw [hlength] at hparse
        exact ⟨_, r.body.length, hparse, rfl, by omega, rfl, h.body.status, h.body.headers, hcontents⟩
  exact ⟨s', hfeed, hgood⟩

/-- Pieces that do not make the body full. -/
theorem Fills.run_short {hs : List HeaderText} : ∀ (pieces : List Bytes) {got : Bytes} {s : ReplyReading},
    Fills r hs got s → (∀ piece ∈ pieces, piece ≠ []) →
    (got ++ pieces.flatten).length < r.body.length →
    ∃ s', run feed s pieces = .ok s' ∧ Fills r hs (got ++ pieces.flatten) s'
  | [], got, s, h, _, _ => ⟨s, rfl, by simpa using h⟩
  | piece :: pieces, got, s, h, hne, hlt => by
    rw [List.flatten_cons, ← List.append_assoc] at hlt ⊢
    obtain ⟨s1, hfeed, h1⟩ := h.feed_short (hne piece List.mem_cons_self)
      (by rw [List.length_append] at hlt; omega)
    obtain ⟨s2, hrun, h2⟩ := h1.run_short pieces (fun p hp => hne p (List.mem_cons_of_mem piece hp)) hlt
    refine ⟨s2, ?_, h2⟩
    rw [run_cons, hfeed]
    exact hrun

/-! ## When the pieces do not matter -/

/--
Fed in these pieces, the reply ends as if fed at once, and not before the last piece: the parser is
good, with the same status, entries and content.
-/
structure ChunkIndependent (status_ : Int) (r : ReplyText) (chunks : List Bytes) : Prop where
  same : ∃ s one : ReplyReading, run feed (init status_) chunks = .ok s ∧
    run feed (init status_) [r.bytes] = .ok one ∧ s.parser_.isGood = true ∧
    s.parser_.status_ = one.parser_.status_ ∧ s.parser_.headers_.Same one.parser_.headers_ ∧
    s.parser_.content_.contents = one.parser_.content_.contents
  notBefore : ∀ before after : List Bytes, chunks = before ++ after → after ≠ [] →
    ∃ s, run feed (init status_) before = .ok s ∧ s.parser_.isGood = false ∧ s.parser_.isError = false

/--
A body that begins too early and is right by chance. The cut is one byte into a line; the headers
before it are all of the map; and the last piece completes a body that is the one of the reply.
-/
def EarlyBody (r : ReplyText) (chunks : List Bytes) : Prop :=
  ∃ (before : List Bytes) (piece : Bytes) (mid : List Bytes) (last : Bytes) (hs : List HeaderText),
    chunks = before ++ piece :: (mid ++ [last]) ∧
    HarmlessCuts r before (piece ++ (mid ++ [last]).flatten) ∧ OneByte r hs (mid ++ [last]).flatten ∧
    (addHeaders [] hs).Same r.headers_ ∧ mid.flatten.length < r.body.length ∧
    (mid ++ [last]).flatten.take r.body.length = r.body

theorem isGood_of_progress {p : ReplyParser} (h : p.progress_ = .Good) : p.isGood = true := by
  unfold ReplyParser.isGood
  rw [h]
  rfl

variable {chunks : List Bytes} {status_ : Int}

/-- What is to come of a reply that is cut into pieces. -/
theorem flatten_ne_nil {after : List Bytes} (hne : ∀ c ∈ after, c ≠ []) (h : after ≠ []) :
    after.flatten ≠ [] := by
  obtain ⟨c, hc⟩ := List.exists_mem_of_ne_nil _ h
  intro hnil
  exact hne c hc (List.flatten_eq_nil_iff.mp hnil c hc)

/-- Before a piece, when the cuts so far were harmless. -/
theorem run_before (hlen : r.bytes.length < 2 ^ 31) (hfilled : r.Filled) {before : List Bytes}
    (hcut : before.flatten ++ tail = r.bytes) (hne : ∀ c ∈ before, c ≠ []) (htail : tail ≠ [])
    (hcuts : HarmlessCuts r before tail) :
    ∃ s, run feed (init status_) before = .ok s ∧ Resumes r tail s := by
  have hstart := resumes_init r status_
  rw [← hcut] at hstart
  exact hstart.run_waits hlen hfilled htail hne hcuts

/-- Harmless cuts do not matter. -/
theorem chunkIndependent_of_harmless (hlen : r.bytes.length < 2 ^ 31) (hfilled : r.Filled)
    (hcut : chunks.flatten = r.bytes) (hne : ∀ c ∈ chunks, c ≠ []) (hcuts : HarmlessCuts r chunks []) :
    ChunkIndependent status_ r chunks := by
  have hbefore : ∀ before after : List Bytes, chunks = before ++ after → after ≠ [] →
      ∃ s, run feed (init status_) before = .ok s ∧ Resumes r after.flatten s := by
    rintro before after rfl hafter
    rw [List.flatten_append] at hcut
    refine run_before hlen hfilled hcut (fun c hc => hne c (List.mem_append_left _ hc))
      (flatten_ne_nil (fun c hc => hne c (List.mem_append_right _ hc)) hafter) ?_
    rw [← List.append_nil after.flatten]
    exact hcuts.first
  obtain ⟨one, hone, hwhole⟩ := run_one hlen hfilled status_
  constructor
  · obtain ⟨init', last, hchunks⟩ := (List.eq_nil_or_concat chunks).resolve_left (by
      rintro rfl
      simp [ReplyText.bytes] at hcut)
    rw [List.concat_eq_append] at hchunks
    obtain ⟨s1, hrun, h1⟩ := hbefore init' [last] hchunks (List.cons_ne_nil _ _)
    rw [List.flatten_singleton] at h1
    obtain ⟨s, hfeed, hs⟩ := h1.feed_completes hlen hfilled (hne last (by simp [hchunks]))
    refine ⟨s, one, by rw [hchunks]; exact run_snoc hrun hfeed, hone, isGood_of_progress hs.progress,
      hs.status.trans hwhole.status.symm, ?_, hs.content.trans hwhole.content.symm⟩
    rw [hs.headers, hwhole.headers]
    exact fun key => rfl
  · intro before after hchunks hafter
    obtain ⟨s, hrun, hs⟩ := hbefore before after hchunks hafter
    exact ⟨s, hrun, hs.awaits.not_ended⟩

/-- A parser that takes bytes for the body has come to no end. -/
theorem Fills.not_ended {hs : List HeaderText} {got : Bytes} (h : Fills r hs got s) :
    s.parser_.isGood = false ∧ s.parser_.isError = false := by
  unfold ReplyParser.isGood ReplyParser.isError
  rw [h.body.progress]
  exact ⟨rfl, rfl⟩

/-- A body that begins too early, and is right, does not matter either. -/
theorem chunkIndependent_of_earlyBody (hlen : r.bytes.length < 2 ^ 31) (hfilled : r.Filled)
    (hcut : chunks.flatten = r.bytes) (hne : ∀ c ∈ chunks, c ≠ []) (hearly : EarlyBody r chunks) :
    ChunkIndependent status_ r chunks := by
  obtain ⟨before, piece, mid, last, hs, rfl, hcuts, hone, hsame, hshort, hbody⟩ := hearly
  have hpiece : piece ≠ [] := hne piece (by simp)
  have hmid : ∀ c ∈ mid, c ≠ [] := fun c hc => hne c (by simp [hc])
  have hstart : ∃ s, run feed (init status_) before = .ok s ∧
      Resumes r (piece ++ (mid ++ [last]).flatten) s :=
    run_before hlen hfilled (by simpa using hcut) (fun c hc => hne c (by simp [hc])) (by simp [hpiece])
      hcuts
  obtain ⟨s1, hrun1, h1⟩ := hstart
  obtain ⟨s2, hfeed, h2⟩ := h1.feed_skews hlen hfilled hpiece hone
  -- the pieces in the middle are too short for the body, and wait
  have hfills : ∀ {pieces rest : List Bytes}, mid = pieces ++ rest →
      ∃ s, run feed (init status_) (before ++ piece :: pieces) = .ok s ∧ Fills r hs pieces.flatten s := by
    rintro pieces rest rfl
    rw [List.flatten_append, List.length_append] at hshort
    obtain ⟨s3, hrun3, h3⟩ := h2.run_short pieces
      (fun c hc => hmid c (List.mem_append_left _ hc)) (by rw [List.nil_append]; omega)
    refine ⟨s3, ?_, h3⟩
    rw [run_append, hrun1, ok_bind, run_cons, hfeed]
    exact hrun3
  obtain ⟨one, hone', hwhole⟩ := run_one hlen hfilled status_
  constructor
  · obtain ⟨s3, hrun3, h3⟩ := hfills (List.append_nil mid).symm
    have hfull := congrArg List.length hbody
    rw [List.flatten_append, List.flatten_singleton] at hbody hfull
    rw [List.length_take] at hfull
    obtain ⟨s, hfeed', hgood, hstatus, hheaders, hcontents⟩ :=
      h3.feed_full (hne last (by simp)) (by omega)
    refine ⟨s, one, ?_, hone', isGood_of_progress hgood, hstatus.trans hwhole.status.symm, ?_, ?_⟩
    · have happend : before ++ piece :: (mid ++ [last]) = (before ++ piece :: mid) ++ [last] := by simp
      rw [happend]
      exact run_snoc hrun3 hfeed'
    · rw [hheaders, hwhole.headers]
      exact hsame
    · rw [hcontents, hwhole.content, hbody]
  · intro b a hchunks ha
    -- the cut is behind `before`, or in it
    rcases List.append_eq_append_iff.mp hchunks with ⟨t, rfl, hrest⟩ | ⟨t, rfl, rfl⟩
    · cases t with
      | nil =>
        rw [List.append_nil]
        exact ⟨s1, hrun1, h1.awaits.not_ended⟩
      | cons c t =>
        rw [List.cons_append, List.cons.injEq] at hrest
        obtain ⟨rfl, hrest⟩ := hrest
        obtain ⟨a', x, ha'⟩ := (List.eq_nil_or_concat a).resolve_left ha
        rw [ha', List.concat_eq_append, ← List.append_assoc] at hrest
        obtain ⟨s, hrun, hs⟩ := hfills (List.append_inj_left' hrest rfl)
        exact ⟨s, hrun, hs.not_ended⟩
    · have hb : ∃ s, run feed (init status_) b = .ok s ∧
          Resumes r (t.flatten ++ (piece ++ (mid ++ [last]).flatten)) s :=
        run_before hlen hfilled (by simpa using hcut) (fun c hc => hne c (by simp [hc]))
          (by simp [hpiece]) hcuts.first
      obtain ⟨s, hrun, hs⟩ := hb
      exact ⟨s, hrun, hs.awaits.not_ended⟩

/-! ## The conditions are needed -/

/-- The first cut that is not harmless. -/
theorem exists_first_cut : ∀ {pieces : List Bytes}, ¬HarmlessCuts r pieces [] →
    ∃ before piece after, pieces = before ++ piece :: after ∧ after.flatten ≠ [] ∧
      HarmlessCuts r before (piece ++ after.flatten) ∧ ¬Harmless r after.flatten
  | [], h => absurd harmlessCuts_nil h
  | piece :: pieces, h => by
    rw [harmlessCuts_cons, List.append_nil] at h
    by_cases hrest : HarmlessCuts r pieces []
    · have hfirst : ¬(pieces.flatten ≠ [] → Harmless r pieces.flatten) := fun hfirst => h ⟨hfirst, hrest⟩
      obtain ⟨hne, hnot⟩ := Classical.not_imp.mp hfirst
      exact ⟨[], piece, pieces, rfl, hne, harmlessCuts_nil, hnot⟩
    · obtain ⟨before, piece', after, rfl, hne, hcuts, hnot⟩ := exists_first_cut hrest
      by_cases hfirst : Harmless r (before ++ piece' :: after).flatten
      · refine ⟨piece :: before, piece', after, rfl, hne, harmlessCuts_cons.mpr ⟨fun _ => ?_, hcuts⟩, hnot⟩
        simpa using hfirst
      · refine ⟨[], piece, before ++ piece' :: after, rfl, ?_, harmlessCuts_nil, hfirst⟩
        simp [hne]

/-- The first piece that makes `n` bytes full. -/
theorem exists_full : ∀ (pieces : List Bytes) {n : Nat}, 0 < n → n ≤ pieces.flatten.length →
    ∃ mid last rest, pieces = mid ++ last :: rest ∧ mid.flatten.length < n ∧
      n ≤ (mid ++ [last]).flatten.length
  | [], _, hpos, hle => absurd hle (not_le.mpr hpos)
  | piece :: pieces, n, hpos, hle => by
    by_cases hfull : n ≤ piece.length
    · exact ⟨[], piece, pieces, rfl, hpos, by simpa using hfull⟩
    · rw [List.flatten_cons, List.length_append] at hle
      obtain ⟨mid, last, rest, rfl, hlt, hle'⟩ :=
        @exists_full pieces (n - piece.length) (by omega) (by omega)
      refine ⟨piece :: mid, last, rest, rfl, ?_, ?_⟩
      · rw [List.flatten_cons, List.length_append]
        omega
      · rw [List.cons_append, List.flatten_cons, List.length_append]
        omega

/-- A reply that is taken up at once has no blank value. -/
theorem filled_of_run_one (hlen : r.bytes.length < 2 ^ 31) {one : ReplyReading}
    (hone : run feed (init status_) [r.bytes] = .ok one) : r.Filled := by
  obtain ⟨s, hfeed, -⟩ := run_cons_ok hone
  obtain ⟨d, before, after, first, last, g, hblock, hg, -⟩ :=
    parse_of_feed Buffer.wf_init (by simp [ReplyText.bytes]) hfeed
  have hnil : (init status_).readBuf.contents = [] := rfl
  rw [hnil, List.nil_append] at hblock
  exact filled_of_parse hlen (cleared_init status_) hblock hg

/-- A run of all the pieces has a run of the first of them. -/
theorem run_first {before after : List Bytes} (h : run feed (init status_) (before ++ after) = .ok s') :
    ∃ s, run feed (init status_) before = .ok s ∧ run feed s after = .ok s' := by
  rw [run_append] at h
  exact bind_eq_ok.mp h

/-- A cut that is not harmless, when it does not matter. -/
theorem earlyBody_of_chunkIndependent (hlen : r.bytes.length < 2 ^ 31) (hfilled : r.Filled)
    (hcut : chunks.flatten = r.bytes) (hne : ∀ c ∈ chunks, c ≠ []) (h : ChunkIndependent status_ r chunks)
    (hcuts : ¬HarmlessCuts r chunks []) : EarlyBody r chunks := by
  obtain ⟨before, piece, after, rfl, hafter, hbefore, hnot⟩ := exists_first_cut hcuts
  have hpiece : piece ≠ [] := hne piece (by simp)
  have hafterne : ∀ c ∈ after, c ≠ [] := fun c hc => hne c (by simp [hc])
  obtain ⟨s, one, hrun, hone, -, -, hheaders, hcontents⟩ := h.same
  obtain ⟨s1, hrun1, hrest⟩ := run_first hrun
  obtain ⟨s2, hfeed, hrest⟩ := run_cons_ok hrest
  have hstart : ∃ s, run feed (init status_) before = .ok s ∧ Resumes r (piece ++ after.flatten) s :=
    run_before hlen hfilled (by simpa using hcut) (fun c hc => hne c (by simp [hc])) (by simp [hpiece])
      hbefore
  obtain ⟨s1', hrun1', h1⟩ := hstart
  cases hrun1.symm.trans hrun1'
  -- the cut does not bring the parser to an end, so it is one byte into a line
  obtain ⟨hs, hone'⟩ : ∃ hs, OneByte r hs after.flatten := by
    obtain ⟨d, before', after', first, last, g, hblock, hg, hparser⟩ := parse_of_feed h1.wf hpiece hfeed
    obtain ⟨s2', hrun2, hgood, herror⟩ := h.notBefore (before ++ [piece]) after (by simp)
      (fun hnil => hafter (by rw [hnil]; rfl))
    cases (run_snoc hrun1 hfeed).symm.trans hrun2
    rcases h1.awaits.parse_cases hlen hfilled hblock (List.append_assoc _ _ _) with
      hends | hharmless | hone'
    · rw [hparser] at hgood herror
      rcases hends g hg with hend | hend
      · rw [hend] at hgood
        cases hgood
      · rw [hend] at herror
        cases herror
    · exact absurd hharmless hnot
    · exact hone'
  obtain ⟨s2', hfeed', h2⟩ := h1.feed_skews hlen hfilled hpiece hone'
  cases hfeed.symm.trans hfeed'
  -- the pieces up to the one that makes the body full
  have hlong : r.body.length ≤ after.flatten.length := by
    obtain ⟨hs', c, tail, -, -, -, hline⟩ := id hone'
    have hlines := congrArg List.length hline
    have hending := r.length_ending
    rw [List.length_cons, List.length_append] at hlines
    omega
  have hbody : 0 < r.body.length := by
    obtain ⟨-, -, -, -, -, hbody, -⟩ := id hone'
    exact List.length_pos_iff.mpr hbody
  obtain ⟨mid, last, rest, rfl, hshort, hfull⟩ := exists_full _ hbody hlong
  obtain ⟨s3, hrun3, h3⟩ := h2.run_short mid (fun c hc => hafterne c (by simp [hc])) hshort
  rw [List.flatten_append, List.flatten_singleton] at hfull
  obtain ⟨s4, hfeed4, hgood4, -, hheaders4, hcontents4⟩ := h3.feed_full (hafterne last (by simp)) hfull
  -- the parser is good then, so that piece is the last one
  have hrun4 : run feed (init status_) (before ++ piece :: (mid ++ [last])) = .ok s4 := by
    rw [run_append, hrun1, ok_bind, run_cons, hfeed, ok_bind]
    exact run_snoc hrun3 hfeed4
  have hrestnil : rest = [] := by
    by_contra hrestne
    obtain ⟨s4', hrun4', hgood, -⟩ := h.notBefore (before ++ piece :: (mid ++ [last])) rest (by simp)
      hrestne
    cases hrun4.symm.trans hrun4'
    rw [isGood_of_progress hgood4] at hgood
    cases hgood
  subst hrestnil
  cases hrun.symm.trans hrun4
  obtain ⟨one', hone1, hwhole⟩ := run_one hlen hfilled status_
  cases hone.symm.trans hone1
  refine ⟨before, piece, mid, last, hs, rfl, hbefore, hone', ?_, hshort, ?_⟩
  · rw [hheaders4, hwhole.headers] at hheaders
    exact hheaders
  · rw [hcontents4, hwhole.content] at hcontents
    rw [List.flatten_append, List.flatten_singleton]
    exact hcontents

/--
**When the pieces do not matter.** A well-formed reply that is cut into pieces ends as if it had come
at once, and no sooner, exactly when every header value has a byte that is not blank and every cut is
harmless, or the body that begins too early is right by chance.
-/
theorem replyChunkIndependent_iff (hlen : r.bytes.length < 2 ^ 31) (hcut : chunks.flatten = r.bytes)
    (hne : ∀ c ∈ chunks, c ≠ []) : ChunkIndependent status_ r chunks ↔
      r.Filled ∧ (HarmlessCuts r chunks [] ∨ EarlyBody r chunks) := by
  constructor
  · intro h
    obtain ⟨s, one, -, hone, -⟩ := h.same
    have hfilled := filled_of_run_one hlen hone
    refine ⟨hfilled, ?_⟩
    by_cases hcuts : HarmlessCuts r chunks []
    · exact .inl hcuts
    · exact .inr (earlyBody_of_chunkIndependent hlen hfilled hcut hne h hcuts)
  · rintro ⟨hfilled, hcuts | hearly⟩
    · exact chunkIndependent_of_harmless hlen hfilled hcut hne hcuts
    · exact chunkIndependent_of_earlyBody hlen hfilled hcut hne hearly

/-- A reply with a body of two bytes. -/
def okReply : ReplyText where
  status := 200
  number := str "200"
  reason := str "Ok"
  headers := [{
    name := str "Content-Length"
    value := str " 2"
    name_ne := contentLength_ne
    name_token := contentLength_token
    value_line := by decide }]
  body := str "hi"
  status_known := by decide
  reason_line := by decide
  length_header := by decide
  length_value := by
    intro h hh _
    rw [List.mem_singleton.mp hh]
    exact @writesNumber_blank (str "2") (by decide) (by decide +kernel)

/-- Cut after a digit of the status, after the header line, and in the body. -/
theorem chunkIndependent_waits : ChunkIndependent 0 okReply
    [str "HTTP/1.1 2", str "00 Ok\r\nContent-Length: 2\r\n", str "\r\nh", str "i"] := by
  have hcuts : HarmlessCuts okReply
      [str "HTTP/1.1 2", str "00 Ok\r\nContent-Length: 2\r\n", str "\r\nh", str "i"] [] := by
    refine harmlessCuts_cons.mpr ⟨fun _ => .status 1 (by decide), ?_⟩
    refine harmlessCuts_cons.mpr
      ⟨fun _ => .headers okReply.headers [] rfl okReply.length_header (List.cons_ne_nil _ _), ?_⟩
    refine harmlessCuts_cons.mpr ⟨fun _ => .body 1, ?_⟩
    exact harmlessCuts_cons.mpr ⟨fun hne => absurd rfl hne, harmlessCuts_nil⟩
  have hfilled : okReply.Filled := by
    unfold ReplyText.Filled
    decide
  exact (replyChunkIndependent_iff (by decide) (by decide) (by decide)).mpr ⟨hfilled, .inl hcuts⟩

/-- Cut between the CR and the LF of the blank line: the LF is taken for the first byte of the body. -/
theorem not_chunkIndependent_crlf :
    [str "HTTP/1.1 200 Ok\r\nContent-Length: 2\r\n\r", str "\nhi"].flatten = okReply.bytes ∧
      ¬ChunkIndependent 0 okReply
        [str "HTTP/1.1 200 Ok\r\nContent-Length: 2\r\n\r", str "\nhi"] := by
  refine ⟨by decide, fun h => ?_⟩
  obtain ⟨s, one, hrun, hone, -, -, -, hcontents⟩ := h.same
  have hrun' : (run feed (init 0)
      [str "HTTP/1.1 200 Ok\r\nContent-Length: 2\r\n\r", str "\nhi"]).map
        (fun s => s.parser_.content_.contents) = .ok (str "\nh") := by decide +kernel
  have hone' : (run feed (init 0) [okReply.bytes]).map (fun s => s.parser_.content_.contents)
      = .ok (str "hi") := by decide +kernel
  rw [hrun] at hrun'
  rw [hone] at hone'
  have heq := (Except.ok.inj hrun').symm.trans (hcontents.trans (Except.ok.inj hone'))
  exact absurd heq (by decide)

end ReplyReading

end Liby.Http
