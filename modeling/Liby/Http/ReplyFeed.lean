import Liby.Http.ReplyCut

/-!
# Replies in pieces

What `parse` does with the next piece of a reply, from each place where it waits: it waits again, it
takes the reply up, or it goes on to the body one byte too early.
-/

namespace Liby.Http

open Infra ReplyParsing ReplyText

variable {r : ReplyText} {d before w tail after : Bytes} {first last : Nat}

/-! ## Parsers that wait -/

/-- A parser at the body, after the headers `hs`. -/
structure BodyAfter (r : ReplyText) (hs : List HeaderText) (p : ReplyParser) : Prop
    extends AtBody r.body.length p where
  status : p.status_ = r.status
  headers : p.headers_ = addHeaders [] hs

/-- A parser that waits, and what it is still to read of the reply. -/
inductive Awaits (r : ReplyText) (p : ReplyParser) : Bytes → Prop where
  | start (hp : Cleared p) : Awaits r p r.bytes
  | status (hp : AtStatus p) : Awaits r p r.afterVersion
  | headers (hs hs' : List HeaderText) (hp : AtHeaders r hs hs' p) : Awaits r p (lines hs' ++ r.ending)
  | body (hp : BodyAfter r r.headers p) (hcount : p.bytes_ + r.body.length = r.bytes.length) :
      Awaits r p r.body

/-- A waiting parser has come to no end. -/
theorem Awaits.not_ended {p : ReplyParser} {left : Bytes} (h : Awaits r p left) :
    p.isGood = false ∧ p.isError = false := by
  have hprogress : p.progress_ = .ParseStarting ∨ p.progress_ = .ParsingStatus ∨
      p.progress_ = .ParsingHeaders ∨ p.progress_ = .ParsingBody := by
    cases h with
    | start hp => exact .inl hp.progress
    | status hp => exact .inr (.inl hp.progress)
    | headers hs hs' hp => exact .inr (.inr (.inl hp.progress))
    | body hp => exact .inr (.inr (.inr hp.progress))
  unfold ReplyParser.isGood ReplyParser.isError
  rcases hprogress with hp | hp | hp | hp <;> rw [hp] <;> exact ⟨rfl, rfl⟩

/-- What is in the range already and what is to come make up what the parser counts to. -/
theorem Awaits.count {p : ReplyParser} {left : Bytes} (h : Awaits r p left) :
    0 ≤ p.bytes_ ∧ p.bytes_ + left.length = r.bytes.length := by
  have hlength := r.length_bytes
  cases h with
  | start hp =>
    have hzero := hp.bytes
    omega
  | status hp =>
    have hnine := hp.bytes
    omega
  | headers hs hs' hp => exact ⟨hp.nonneg, hp.bytes⟩
  | body hp hcount => exact ⟨hp.nonneg, hcount⟩

/-! ## Up to the headers -/

/-- `parse` has come to the headers `hs'`, with `w'` of the range ahead. -/
def Reaches (r : ReplyText) (d : Bytes) (last : Nat) (after : Bytes) (hs hs' : List HeaderText)
    (w' : Bytes) (x : Exec ReplyParsing) : Prop :=
  ∃ (f : ReplyParsing) (first' : Nat) (before' : Bytes), x = f.parseHeaders d first' last ∧
    InBlock d first' last before' w' after ∧ AtHeaders r hs hs' f.parser

/-- From the status, when no more than the headers is to come. -/
theorem AtStatus.reaches (hlen : r.bytes.length < 2 ^ 31) {f : ReplyParsing} (hf : AtStatus f.parser)
    (h : InBlock d first last before w after) (hcut : w ++ tail = r.afterVersion)
    (hle : tail.length ≤ (lines r.headers ++ r.ending).length) :
    ∃ start w', w = start ++ w' ∧ w' ++ tail = lines r.headers ++ r.ending ∧
      Reaches r d last after [] r.headers w' (f.parseStatus d first last) := by
  have hsplit : r.afterVersion = r.number ++ 32 :: (r.reason ++ [13] ++ [10]) ++
      (lines r.headers ++ r.ending) := by
    unfold afterVersion
    simp
  rw [hsplit] at hcut
  obtain ⟨w', hw, hrest⟩ := cut_after hcut hle
  have hblock : InBlock d first last before (r.number ++ 32 :: (r.reason ++ [13] ++ 10 :: w')) after := by
    rw [hw] at h
    simpa using h
  obtain ⟨f', first', before', hstatus, hblock', -, hf'⟩ := parseStatus_line hf hblock hlen
  exact ⟨_, w', hw, hrest, ⟨f', first', before', hstatus, hblock', hf'⟩⟩

/-- From any place before the body, when no more than the headers is to come. -/
theorem Awaits.reaches (hlen : r.bytes.length < 2 ^ 31) {p : ReplyParser} {left : Bytes}
    (hp : Awaits r p left) (h : InBlock d first last before w after) (hcut : w ++ tail = left)
    (hle : tail.length ≤ (lines r.headers ++ r.ending).length) :
    (BodyAfter r r.headers p ∧ p.bytes_ + r.body.length = r.bytes.length ∧ left = r.body) ∨
      ∃ hs hs' start w', w = start ++ w' ∧ w' ++ tail = lines hs' ++ r.ending ∧
        Reaches r d last after hs hs' w' (p.parse d first last) := by
  cases hp with
  | start hp =>
    right
    have hsplit : r.bytes = str "HTTP/1.1" ++ [32] ++ r.afterVersion := by
      unfold ReplyText.bytes
      simp
    have hafter := r.length_afterVersion
    rw [hsplit] at hcut
    obtain ⟨w1, hw, hrest⟩ := cut_after hcut (by rw [List.length_append] at hle; omega)
    have hblock : InBlock d first last before (str "HTTP/1.1" ++ 32 :: w1) after := by
      rw [hw] at h
      simpa using h
    obtain ⟨f, before', hversion, hblock', hf⟩ := parse_version hp hblock
    obtain ⟨start, w', hw', hrest', hreaches⟩ := hf.reaches hlen hblock' hrest hle
    rw [hversion]
    exact ⟨[], r.headers, str "HTTP/1.1" ++ [32] ++ start, w', by rw [hw, hw']; simp,
      hrest', hreaches⟩
  | status hp =>
    right
    have hparse : p.parse d first last
        = ({ parser := p, added := 0 } : ReplyParsing).parseStatus d first last := by
      unfold ReplyParser.parse
      rw [hp.progress]
    obtain ⟨start, w', hw, hrest, hreaches⟩ :=
      AtStatus.reaches hlen (f := { parser := p, added := 0 }) hp h hcut hle
    rw [hparse]
    exact ⟨[], r.headers, start, w', hw, hrest, hreaches⟩
  | headers hs hs' hp =>
    right
    have hparse : p.parse d first last
        = ({ parser := p, added := 0 } : ReplyParsing).parseHeaders d first last := by
      unfold ReplyParser.parse
      rw [hp.progress]
    exact ⟨hs, hs', [], w, rfl, hcut, ⟨_, first, before, hparse, h, hp⟩⟩
  | body hp hcount => exact .inl ⟨hp, hcount, rfl⟩

/-- **All that was to come**: from any place the parser takes up the whole reply. -/
theorem Awaits.parse_completes (hlen : r.bytes.length < 2 ^ 31) (hfilled : r.Filled) {p : ReplyParser}
    {left : Bytes} (hp : Awaits r p left) (h : InBlock d first last before left after) :
    ∃ g, p.parse d first last = .ok g ∧ Whole r g.parser := by
  rcases hp.reaches hlen h (List.append_nil left) (Nat.zero_le _) with
    ⟨hbody, hcount, rfl⟩ | ⟨hs, hs', start, w', -, hrest, f, first', before', hparse, hblock, hf⟩
  · have hblock : InBlock d first last before (r.body ++ []) after := by simpa using h
    obtain ⟨content_, hwf, hcontents, hparse⟩ :=
      ({ parser := p, added := 0 } : ReplyParsing).parseBody_whole hblock hbody.told hbody.wf
        hbody.content hbody.nonneg hbody.room
    unfold ReplyParser.parse
    rw [hbody.progress]
    exact ⟨_, hparse, rfl, hbody.status, hbody.headers, hcount, hwf, hcontents⟩
  · rw [List.append_nil] at hrest
    have hblock' : InBlock d first' last before' (lines hs' ++ (r.ending ++ [])) after := by
      rw [List.append_nil, ← hrest]
      exact hblock
    rw [hparse]
    exact parseHeaders_complete hf hblock' hfilled hlen

/-! ## Cuts at which the parser waits -/

/-- The call takes `n` bytes of `w`, and waits then. -/
def WaitsAfter (r : ReplyText) (x : Exec ReplyParsing) (w tail : Bytes) : Prop :=
  ∃ (g : ReplyParsing) (n : Nat), x = .ok g ∧ n ≤ w.length ∧ Awaits r g.parser (w.drop n ++ tail)

theorem WaitsAfter.prepend {x : Exec ReplyParsing} (start : Bytes) (h : WaitsAfter r x w tail) :
    WaitsAfter r x (start ++ w) tail := by
  obtain ⟨g, n, hg, hn, hawaits⟩ := h
  refine ⟨g, start.length + n, hg, by rw [List.length_append]; omega, ?_⟩
  rw [← List.drop_drop, List.drop_left]
  exact hawaits

/-- A body that is not all there is waited for. -/
theorem AtBody.wait {f : ReplyParsing} {n : Nat} (hf : AtBody n f.parser)
    (hlt : (last : Int) - first < n) (hpos : 0 < n) : f.parseBody d first last = .ok f :=
  f.parseBody_short hf.told (by omega) hlt

/-- A cut after a header, once the length is told and is not zero. -/
theorem AtHeaders.wait {f : ReplyParsing} {hs m hs' : List HeaderText} (hlen : r.bytes.length < 2 ^ 31)
    (hfilled : r.Filled) (hf : AtHeaders r hs (m ++ hs') f.parser)
    (h : InBlock d first last before (lines m) after) (htold : TellsLength (hs ++ m))
    (hbody : r.body ≠ []) :
    WaitsAfter r (f.parseHeaders d first last) (lines m) (lines hs' ++ r.ending) := by
  obtain ⟨hat, -⟩ := hf.foldl hlen
  have hblock : InBlock d first last before (lines m ++ []) after := by simpa using h
  have hend := hblock.drop.size
  have hlength := r.length_bytes
  have hlength' := r.length_afterVersion
  have hending := r.length_ending
  have hpos := List.length_pos_iff.mpr hbody
  have hstoi := stoi_told (by omega) hat.split htold
  rw [← hat.headers] at hstoi
  have hshort : (m.foldl addHeader f).parseBody d (first + (lines m).length) last = .ok _ :=
    parseBody_short _ hstoi (by omega) (by rw [List.length_nil] at hend; omega)
  refine ⟨m.foldl addHeader f, (lines m).length, ?_, le_rfl, ?_⟩
  · rw [f.parseHeaders_lines m hblock fun header hh => hfilled header (by rw [hf.split]; simp [hh]),
      parseHeaders_none _ hblock.drop, hshort]
  · rw [List.drop_length, List.nil_append]
    exact .headers (hs ++ m) hs' hat

/-- A cut in the body, or right before it. -/
theorem AtHeaders.wait_body {f : ReplyParsing} {hs hs' : List HeaderText}
    (hlen : r.bytes.length < 2 ^ 31) (hfilled : r.Filled) (hf : AtHeaders r hs hs' f.parser) {k : Nat}
    (h : InBlock d first last before (lines hs' ++ ([13] ++ 10 :: r.body.take k)) after)
    (hk : k < r.body.length) :
    WaitsAfter r (f.parseHeaders d first last) (lines hs' ++ ([13] ++ 10 :: r.body.take k))
      (r.body.drop k) := by
  obtain ⟨hat, hbody, hcount⟩ := hf.blank hlen
  have hbytes := hat.bytes
  have hending := r.length_ending
  have hnil : (lines [] ++ r.ending).length = r.ending.length := rfl
  have hsize := h.drop.tail.size
  rw [List.length_take] at hsize
  have hshort : ((hs'.foldl addHeader f).blankLine 2).parseBody d
      (first + (lines hs').length + [(13 : UInt8)].length + 1) last = .ok _ :=
    hbody.wait (by omega) (by omega)
  refine ⟨_, (lines hs').length + 2, (f.parseHeaders_lines hs' h fun header hh =>
      hfilled header (by rw [hf.split]; simp [hh])).trans
    ((parseHeaders_blank _ h.drop (by decide) (by decide)).trans hshort), ?_, ?_⟩
  · simp only [List.length_append, List.length_cons, List.length_nil]
    omega
  · have hdrop : (lines hs' ++ ([13] ++ 10 :: r.body.take k)).drop ((lines hs').length + 2)
        = r.body.take k := by
      rw [← List.drop_drop, List.drop_left]
      rfl
    rw [hdrop, List.take_append_drop]
    refine .body ⟨hbody, hat.status, ?_⟩ (by omega)
    show (hs'.foldl addHeader f).parser.headers_ = r.headers_
    rw [hat.headers]
    rfl

/-- What is to come after a cut that is harmless. -/
theorem ReplyText.Harmless.place (h : Harmless r tail) :
    (∃ k ∈ [1, 2], tail = r.number.drop k ++ 32 :: (r.reason ++ [13] ++ 10 ::
      (lines r.headers ++ r.ending))) ∨ tail.length ≤ (lines r.headers ++ r.ending).length := by
  have hending := r.length_ending
  cases h with
  | status k hk => exact .inl ⟨k, hk, rfl⟩
  | headers hs hs' hr htold hbody =>
    right
    rw [hr, lines_append, List.append_assoc]
    simp only [List.length_append]
    omega
  | body k =>
    right
    rw [List.length_append, List.length_drop]
    omega

/-- **A harmless cut at the headers or after them.** -/
theorem parseHeaders_waits (hlen : r.bytes.length < 2 ^ 31) (hfilled : r.Filled)
    {f : ReplyParsing} {hs hs' : List HeaderText} (hf : AtHeaders r hs hs' f.parser)
    (h : InBlock d first last before w after) (hcut : w ++ tail = lines hs' ++ r.ending)
    (htail : tail ≠ []) (hharmless : Harmless r tail) :
    WaitsAfter r (f.parseHeaders d first last) w tail := by
  have hsum := congrArg List.length hcut
  rw [List.length_append, List.length_append] at hsum
  cases hharmless with
  | status k hk =>
    -- what is to come is more than the headers
    have hlines : (lines hs').length ≤ (lines r.headers).length := by
      rw [hf.split, lines_append, List.length_append]
      omega
    simp only [List.length_append, List.length_cons] at hsum
    omega
  | headers hs1 hs1' hr htold hbody =>
    rw [List.length_append] at hsum
    obtain ⟨m, rfl, rfl⟩ := split_headers (hf.split.symm.trans hr) (by omega)
    have hw : w = lines m := by
      rw [lines_append, List.append_assoc] at hcut
      exact List.append_cancel_right hcut
    subst hw
    exact hf.wait hlen hfilled h htold hbody
  | body k =>
    have hw : w = lines hs' ++ ([13] ++ 10 :: r.body.take k) := by
      have hsplit : lines hs' ++ r.ending = lines hs' ++ ([13] ++ 10 :: r.body.take k) ++ r.body.drop k := by
        simp [ReplyText.ending]
      rw [hsplit] at hcut
      exact List.append_cancel_right hcut
    subst hw
    refine hf.wait_body hlen hfilled h ?_
    by_contra hge
    exact htail (List.drop_of_length_le (by omega))

/-- A cut inside the status, after its first or its second digit. -/
theorem AtStatus.wait {f : ReplyParsing} (hf : AtStatus f.parser) {k : Nat} (hk : k ∈ [1, 2])
    (h : InBlock d first last before w after) (hcut : w ++ tail = r.afterVersion)
    (htail : tail = r.number.drop k ++ 32 :: (r.reason ++ [13] ++ 10 :: (lines r.headers ++ r.ending))) :
    WaitsAfter r (f.parseStatus d first last) w tail := by
  obtain ⟨-, hdigits, -, hunknown⟩ := statusNumber_spec r.status_known
  have hw : w = r.number.take k := by
    have hsplit : r.afterVersion = r.number.take k ++ tail := by
      rw [htail, ← List.append_assoc, List.take_append_drop]
      rfl
    rw [hsplit] at hcut
    exact List.append_cancel_right hcut
  have hno : 32 ∉ w := fun hmem =>
    absurd (hdigits 32 (List.mem_of_mem_take (by rw [← hw]; exact hmem))) (by decide)
  have hwait := f.parseStatus_wait h hno (by rw [hw]; exact hunknown k hk)
  refine ⟨f, 0, hwait, Nat.zero_le _, ?_⟩
  rw [List.drop_zero, hcut]
  exact .status hf

/-- The start of a reply whose cut is inside the status. -/
theorem Awaits.wait_status {p : ReplyParser} {left : Bytes} (hp : Awaits r p left) {k : Nat}
    (hk : k ∈ [1, 2]) (h : InBlock d first last before w after) (hcut : w ++ tail = left)
    (htail : tail = r.number.drop k ++ 32 :: (r.reason ++ [13] ++ 10 :: (lines r.headers ++ r.ending))) :
    WaitsAfter r (p.parse d first last) w tail := by
  have hsum := congrArg List.length hcut
  have htail' := congrArg List.length htail
  simp only [List.length_append, List.length_cons, List.length_drop, List.length_nil] at hsum htail'
  cases hp with
  | start hp =>
    have hsplit : r.bytes = str "HTTP/1.1" ++ [32] ++ r.number.take k ++ tail := by
      rw [htail, List.append_assoc, ← List.append_assoc (r.number.take k), List.take_append_drop]
      simp [ReplyText.bytes, afterVersion]
    rw [hsplit] at hcut
    have hw := List.append_cancel_right hcut
    have hblock : InBlock d first last before (str "HTTP/1.1" ++ 32 :: r.number.take k) after := by
      rw [hw] at h
      simpa using h
    obtain ⟨f, before', hversion, hblock', hf⟩ := parse_version hp hblock
    rw [hversion, hw]
    refine (hf.wait hk hblock' ?_ htail).prepend _
    rw [htail, ← List.append_assoc, List.take_append_drop]
    rfl
  | status hp =>
    have hparse : p.parse d first last
        = ({ parser := p, added := 0 } : ReplyParsing).parseStatus d first last := by
      unfold ReplyParser.parse
      rw [hp.progress]
    rw [hparse]
    exact AtStatus.wait (f := { parser := p, added := 0 }) hp hk h hcut htail
  | headers hs hs' hp =>
    have hlines : (lines hs').length ≤ (lines r.headers).length := by
      rw [hp.split, lines_append, List.length_append]
      omega
    rw [List.length_append] at hsum
    omega
  | body hp =>
    have hending := r.length_ending
    omega

/-- **A harmless cut anywhere in a reply.** -/
theorem Awaits.parse_waits (hlen : r.bytes.length < 2 ^ 31) (hfilled : r.Filled) {p : ReplyParser}
    {left : Bytes} (hp : Awaits r p left) (h : InBlock d first last before w after)
    (hcut : w ++ tail = left) (htail : tail ≠ []) (hharmless : Harmless r tail) :
    WaitsAfter r (p.parse d first last) w tail := by
  rcases hharmless.place with ⟨k, hk, hstatus⟩ | hle
  · exact hp.wait_status hk h hcut hstatus
  · rcases hp.reaches hlen h hcut hle with ⟨hbody, -, hleft⟩ | ⟨hs, hs', start, w', hw, hrest, hreaches⟩
    · -- in the body every range but the whole is too short
      have hsize := h.size
      have hsum := congrArg List.length (hcut.trans hleft)
      have hpos := List.length_pos_iff.mpr htail
      rw [List.length_append] at hsum
      refine ⟨{ parser := p, added := 0 }, 0, ?_, Nat.zero_le _, ?_⟩
      · unfold ReplyParser.parse
        rw [hbody.progress]
        exact AtBody.wait (f := { parser := p, added := 0 }) hbody.toAtBody (by omega) (by omega)
      · rw [List.drop_zero, hcut]
        exact hp
    · obtain ⟨f, first', before', hparse, hblock, hf⟩ := hreaches
      rw [hparse, hw]
      exact (parseHeaders_waits hlen hfilled hf hblock hrest htail hharmless).prepend start

/-! ## Cuts one byte into a line -/

/-- The first byte of a line is not a LF. -/
theorem first_of_line {hs' : List HeaderText} {c : UInt8} (h : c :: tail = lines hs' ++ r.ending) :
    c ≠ 10 := by
  cases hs' with
  | nil =>
    cases h
    decide
  | cons header hs' =>
    rintro rfl
    have hline := header.one_lt_length
    obtain ⟨c, rest, hcons⟩ := List.exists_cons_of_length_pos (by omega : 0 < header.line.length)
    rw [lines_cons, List.append_assoc, hcons] at h
    have hlf := header.lf_not_mem
    rw [hcons, ← (List.cons.inj h).1] at hlf
    exact hlf List.mem_cons_self

/-- Lines are not a single byte. -/
theorem lines_ne_singleton : ∀ m : List HeaderText, (lines m).length ≠ 1
  | [] => Nat.zero_ne_one
  | header :: m => by
    have hline := header.one_lt_length
    rw [lines_cons, List.length_append, List.length_cons]
    omega

/-- The headers, with a cut one byte into the next line. -/
theorem AtHeaders.skews {f : ReplyParsing} {hs m hs' : List HeaderText} {c : UInt8}
    (hlen : r.bytes.length < 2 ^ 31) (hfilled : r.Filled) (hf : AtHeaders r hs (m ++ hs') f.parser)
    (h : InBlock d first last before (lines m ++ [c]) after) (htold : TellsLength (hs ++ m))
    (hbody : r.body ≠ []) (hline : c :: tail = lines hs' ++ r.ending) :
    ∃ g, f.parseHeaders d first last = .ok g ∧ BodyAfter r (hs ++ m) g.parser ∧
      g.parser.bytes_ = f.parser.bytes_ + ((lines m).length + 2 : Nat) := by
  obtain ⟨hat, hcount⟩ := hf.foldl hlen
  obtain ⟨hskew, hcount'⟩ := hat.body hlen htold
  have hpos := List.length_pos_iff.mpr hbody
  have hshort : ((m.foldl addHeader f).blankLine 2).parseBody d (last + 1) last = .ok _ :=
    hskew.wait (by omega) hpos
  refine ⟨_, (f.parseHeaders_lines m h fun header hh => hfilled header (by rw [hf.split]; simp [hh])).trans
    ((parseHeaders_single _ h.drop (first_of_line hline)).trans hshort), ⟨hskew, hat.status, hat.headers⟩,
    by omega⟩

/-- **A cut one byte into a line.** The parser counts one byte more than there is. -/
theorem Awaits.parse_skews (hlen : r.bytes.length < 2 ^ 31) (hfilled : r.Filled) {p : ReplyParser}
    {left : Bytes} {hs : List HeaderText} (hp : Awaits r p left)
    (h : InBlock d first last before w after) (hcut : w ++ tail = left)
    (hone : OneByte r hs tail) :
    ∃ g, p.parse d first last = .ok g ∧ BodyAfter r hs g.parser ∧
      g.parser.bytes_ = p.bytes_ + (w.length + 1 : Nat) := by
  obtain ⟨hs1', c, tail, hr, htold, hbody, hline⟩ := hone
  have hsum := congrArg List.length hcut
  have hlines := congrArg List.length hline
  have hheaders : (lines hs1').length ≤ (lines r.headers).length := by
    rw [hr, lines_append, List.length_append]
    omega
  have hending := r.length_ending
  simp only [List.length_append, List.length_cons] at hsum hlines
  rcases hp.reaches hlen h hcut (by rw [List.length_append]; omega) with
    ⟨-, -, rfl⟩ | ⟨hs0, hs', start, w', hw, hrest, f, first', before', hparse, hblock, hf⟩
  · omega
  · have hsum' := congrArg List.length hrest
    rw [List.length_append, List.length_append] at hsum'
    have hsplit : hs0 ++ hs' = hs ++ hs1' := hf.split.symm.trans hr
    have hle : (lines hs1').length ≤ (lines hs').length := by
      by_contra hlt
      obtain ⟨m, -, rfl⟩ := split_headers hsplit.symm (by omega)
      exact lines_ne_singleton m (by rw [lines_append, List.length_append] at hlines hlt; omega)
    obtain ⟨m, rfl, rfl⟩ := split_headers hsplit hle
    have hw' : w' = lines m ++ [c] := by
      rw [lines_append, List.append_assoc, ← hline, ← List.singleton_append, ← List.append_assoc] at hrest
      exact List.append_cancel_right hrest
    rw [hw'] at hblock hsum'
    obtain ⟨g, hg, hbodyAfter, hbytes⟩ := hf.skews hlen hfilled hblock htold hbody hline
    refine ⟨g, hparse.trans hg, hbodyAfter, ?_⟩
    have hcount := hp.count
    have hcount' := hf.bytes
    simp only [lines_append, List.length_append] at hcount'
    omega

/-! ## Cuts that spoil the parser -/

/-- **A cut anywhere in a reply** spoils the parser, or is harmless, or is one byte into a line. -/
theorem Awaits.parse_cases (hlen : r.bytes.length < 2 ^ 31) (hfilled : r.Filled) {p : ReplyParser}
    {left : Bytes} (hp : Awaits r p left) (h : InBlock d first last before w after)
    (hcut : w ++ tail = left) :
    Ends (p.parse d first last) ∨ Harmless r tail ∨ ∃ hs, OneByte r hs tail := by
  have hbody : r.body.length < 2 ^ 31 := by
    have := r.length_bytes
    have := r.length_afterVersion
    have := r.length_ending
    omega
  unfold ReplyParser.parse
  cases hp with
  | start hp =>
    rcases cut_token hcut with ⟨t, hw, -⟩ | ⟨w', rfl, hrest⟩
    · rw [hp.progress]
      exact .inl fun g hg => .inr (parseVersion_cut _ g h hw hg)
    · obtain ⟨f, before', hversion, hblock, hf⟩ := parse_version hp h
      unfold ReplyParser.parse at hversion
      rw [hversion]
      exact parseStatus_cases hlen hfilled hf hblock hrest
  | status hp =>
    rw [hp.progress]
    exact parseStatus_cases hlen hfilled hp h hcut
  | headers hs hs' hp =>
    rw [hp.progress]
    exact parseHeaders_cases hbody hfilled hs' hs _ h hcut hp.split hp.headers
  | body hp =>
    have htail : tail = r.body.drop w.length := by rw [← hcut, List.drop_left]
    rw [htail]
    exact .inr (.inl (.body w.length))

/-! ## Header values that are blank -/

/-- A header line whose value is blank is not taken. -/
theorem parseHeaders_blankValue (f g : ReplyParsing) {rest : Bytes} {header : HeaderText}
    (h : InBlock d first last before (header.line ++ 10 :: rest) after) (hbefore : AtLineStart before)
    (hblank : ¬header.Filled) : f.parseHeaders d first last ≠ .ok g := by
  rw [f.parseHeaders_line h header.lf_not_mem header.one_lt_length]
  intro hok
  obtain ⟨headers', hheader, -⟩ := bind_eq_ok.mp hok
  rw [header.stripCR_line] at hheader
  obtain ⟨name, value, hline, hcolon, -, hvalue⟩ := headerLine_of_ParseHeader before
    (header.name ++ 58 :: header.value) ([13] ++ 10 :: rest ++ after)
    (by rw [h.block]; simp [HeaderText.line]) h.first rfl hbefore
    (fun c hc => by cases hc; exact Cursor.isspace_CR) hheader
  obtain ⟨-, rfl⟩ := token_unique hline header.colon_not_mem hcolon
  exact hblank hvalue

/-- Header lines that are taken up have no blank value. -/
theorem filled_of_parseHeaders {rest : Bytes} {g : ReplyParsing} : ∀ (hs : List HeaderText)
    {first : Nat} {before : Bytes} {f : ReplyParsing},
    InBlock d first last before (lines hs ++ rest) after → AtLineStart before →
    f.parseHeaders d first last = .ok g → ∀ header ∈ hs, header.Filled
  | [], _, _, _, _, _, _, _, hh => by cases hh
  | header :: hs, first, before, f, h, hbefore, hok, header', hh' => by
    have hline : InBlock d first last before (header.line ++ 10 :: (lines hs ++ rest)) after := by
      rw [lines_cons, List.append_assoc, List.cons_append] at h
      exact h
    by_cases hfilled : header.Filled
    · rw [f.parseHeaders_text hline hfilled] at hok
      rcases List.mem_cons.mp hh' with rfl | hh'
      · exact hfilled
      · exact filled_of_parseHeaders hs hline.tail (.inr ⟨_, rfl⟩) hok header' hh'
    · exact absurd hok (parseHeaders_blankValue f g hline hbefore hfilled)

/-- A reply that is taken up at once has no blank value. -/
theorem filled_of_parse (hlen : r.bytes.length < 2 ^ 31) {p : ReplyParser} {g : ReplyParsing}
    (hp : Cleared p) (h : InBlock d first last before r.bytes after)
    (hg : p.parse d first last = .ok g) : r.Filled := by
  obtain ⟨f, before1, hversion, hblock1, hf⟩ := parse_version hp h
  obtain ⟨f', first', before2, hstatus, hblock2, hbefore, -⟩ := parseStatus_line hf hblock1 hlen
  exact filled_of_parseHeaders r.headers hblock2 hbefore (hstatus.symm.trans (hversion.symm.trans hg))

end Liby.Http
