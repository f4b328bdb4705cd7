import Liby.Http.ReplyCut
import Liby.Http.ReplyFaults
import Liby.Http.RequestBounds

/-!
# When ReplyParser returns

Every stage of `parse` may throw or leave the range. `ReplyParser.Returns` is the exact condition
under which none does, stage by stage over what the range holds.
-/

namespace Liby.Http

open Infra
open ReplyParsing (statusToken)

/-! ## The condition -/

/-- What comes after the first blank. -/
def afterToken (rest : Bytes) : Bytes := (rest.dropWhile (· ≠ 32)).tail

/-- The body stage, with `n` bytes left: there is a length, and its sum with `bytes_` is an `int`. -/
def BodyReturns (bytes_ : Int) (headers_ : Headers) (n : Int) : Prop :=
  ∃ len, stoi (headers_.get (str "Content-Length")) = .ok len ∧ 0 ≤ len ∧
    (len = 0 ∨ n < len ∨ InInt (bytes_ + len))

/-- The header lines from here to the end of the range, or to a blank line. -/
inductive HeadersReturn : Int → Headers → Bytes → Prop
  -- the loop ends without a blank line, and falls through to the body
  | cut {bytes_ : Int} {headers_ : Headers} (h : BodyReturns bytes_ headers_ 0) :
      HeadersReturn bytes_ headers_ []
  -- a single byte is taken for a blank line that ends one byte behind the range
  | single {bytes_ : Int} {headers_ : Headers} {c : UInt8} (hc : c ≠ 10)
      (h : BodyReturns (toInt (bytes_ + 2)) headers_ (-1)) : HeadersReturn bytes_ headers_ [c]
  | blank {bytes_ : Int} {headers_ : Headers} {line rest : Bytes} (hno : 10 ∉ line)
      (hlen : line.length ≤ 1)
      (h : BodyReturns (toInt (bytes_ + (line.length + 1 : Nat))) headers_ rest.length) :
      HeadersReturn bytes_ headers_ (line ++ 10 :: rest)
  | header {bytes_ : Int} {headers_ : Headers} {line name value rest : Bytes} (hno : 10 ∉ line)
      (hlen : 1 < line.length) (hline : stripCR line = name ++ 58 :: value) (hcolon : 58 ∉ name)
      (hname : ∃ c ∈ name, Cursor.isspace c = false)
      (hvalue : ∃ c ∈ value, Cursor.isspace c = false)
      (h : HeadersReturn (toInt (bytes_ + (line.length + 1 : Nat)))
        (headers_.set (headerKey name) (headerValue value)) rest) :
      HeadersReturn bytes_ headers_ (line ++ 10 :: rest)

/-- The reason and what follows. At the start of the block there is no byte before a LF. -/
def ReasonReturns (start : Bool) (bytes_ : Int) (headers_ : Headers) (rest : Bytes) : Prop :=
  ∃ line tail, rest = line ++ 10 :: tail ∧ 10 ∉ line ∧ (start = true → line ≠ []) ∧
    HeadersReturn (toInt (bytes_ + (line.length + 1 : Nat))) headers_ tail

/-- The status and what follows: a number, and after that of a known status a reason. -/
def StatusReturns (bytes_ : Int) (headers_ : Headers) (rest : Bytes) : Prop :=
  ∃ n, stoi (statusToken rest) = .ok n ∧ ((statusNumber n).isSome → 32 ∈ rest ∧
    ReasonReturns false (toInt (bytes_ + ((statusToken rest).length + 1 : Nat))) headers_
      (afterToken rest))

/-- The version and what follows. -/
def ReplyVersionReturns (bytes_ : Int) (headers_ : Headers) (rest : Bytes) : Prop :=
  TakenVersion (statusToken rest) → 32 ∈ rest ∧
    StatusReturns (toInt (bytes_ + ((statusToken rest).length + 1 : Nat))) headers_
      (afterToken rest)

/-- What `parse` comes through, by where it resumes. -/
def ReplyParser.Returns (p : ReplyParser) (d : Bytes) : Prop :=
  match p.progress_ with
  | .ParseStarting | .ParsingVersion => ReplyVersionReturns p.bytes_ p.headers_ d
  | .ParsingStatus => StatusReturns p.bytes_ p.headers_ d
  | .ParsingStatusString => ReasonReturns true p.bytes_ p.headers_ d
  | .ParsingHeaders => HeadersReturn p.bytes_ p.headers_ d
  | .ParsingBody => BodyReturns p.bytes_ p.headers_ d.length
  | _ => True

theorem headersReturn_line {bytes_ : Int} {headers_ : Headers} {line rest : Bytes}
    (hno : 10 ∉ line) :
    HeadersReturn bytes_ headers_ (line ++ 10 :: rest) ↔
      line.length ≤ 1 ∧ BodyReturns (toInt (bytes_ + (line.length + 1 : Nat))) headers_ rest.length ∨
      1 < line.length ∧ ∃ name value, stripCR line = name ++ 58 :: value ∧ 58 ∉ name ∧
        (∃ c ∈ name, Cursor.isspace c = false) ∧ (∃ c ∈ value, Cursor.isspace c = false) ∧
        HeadersReturn (toInt (bytes_ + (line.length + 1 : Nat)))
          (headers_.set (headerKey name) (headerValue value)) rest := by
  constructor
  · generalize heq : line ++ 10 :: rest = bytes
    rintro (h | ⟨hc, h⟩ | ⟨hno', hlen, h⟩ | ⟨hno', hlen, hline, hcolon, hname, hvalue, h⟩)
    · simp at heq
    · cases line with
      | nil =>
        cases heq
        exact absurd rfl hc
      | cons c line => simp at heq
    · obtain ⟨rfl, rfl⟩ := token_unique heq hno hno'
      exact .inl ⟨hlen, h⟩
    · obtain ⟨rfl, rfl⟩ := token_unique heq hno hno'
      exact .inr ⟨hlen, _, _, hline, hcolon, hname, hvalue, h⟩
  · rintro (⟨hlen, h⟩ | ⟨hlen, name, value, hline, hcolon, hname, hvalue, h⟩)
    · exact .blank hno hlen h
    · exact .header hno hlen hline hcolon hname hvalue h

theorem not_headersReturn {bytes_ : Int} {headers_ : Headers} {rest : Bytes} (hno : 10 ∉ rest)
    (hlen : 1 < rest.length) : ¬HeadersReturn bytes_ headers_ rest := by
  intro h
  cases h with
  | cut | single => simp at hlen
  | blank | header => simp at hno

theorem headersReturn_nil {bytes_ : Int} {headers_ : Headers}
    (h : HeadersReturn bytes_ headers_ []) : BodyReturns bytes_ headers_ 0 := by
  generalize heq : ([] : Bytes) = bytes at h
  cases h with
  | cut h => exact h
  | single => cases heq
  | blank | header => simp at heq

theorem headersReturn_single {bytes_ : Int} {headers_ : Headers} {c : UInt8} (hc : c ≠ 10) :
    HeadersReturn bytes_ headers_ [c] ↔ BodyReturns (toInt (bytes_ + 2)) headers_ (-1) := by
  constructor
  · generalize heq : [c] = bytes
    rintro (h | ⟨-, h⟩ | ⟨hno, -, -⟩ | ⟨hno, hlen, -⟩)
    · cases heq
    · exact h
    · cases List.append_eq_singleton_iff.mp heq.symm with
      | inl h => exact absurd (List.head_eq_of_cons_eq h.2).symm hc
      | inr h => cases h.2
    · have := congrArg List.length heq
      simp at this
      omega
  · exact .single hc

/-! ## The stages -/

namespace ReplyParsing

variable {d before rest after : Bytes} {first last : Nat} {f g : ReplyParsing}

/-- The body stage. -/
theorem parseBody_returns (f : ReplyParsing) (first last : Nat) (hf : f.Sound)
    (hrange : first ≤ last + 1 ∧ last ≤ d.length) :
    (∃ g, f.parseBody d first last = .ok g) ↔
      BodyReturns f.parser.bytes_ f.parser.headers_ ((last : Int) - first) := by
  unfold parseBody
  constructor
  · rintro ⟨g, hg⟩
    obtain ⟨len, hlen, hg⟩ := bind_eq_ok.mp hg
    by_cases hzero : len = 0
    · exact ⟨len, hlen, by omega, .inl hzero⟩
    · rw [if_neg hzero] at hg
      by_cases hshort : (last : Int) - first < len
      · exact ⟨len, hlen, by omega, .inr (.inl hshort)⟩
      · rw [if_neg hshort] at hg
        obtain ⟨bytes_, hadd, hg⟩ := bind_eq_ok.mp hg
        obtain ⟨u, hpos, -⟩ := bind_eq_ok.mp hg
        have hpos : 0 < len := guardOr_eq_ok.mp hpos
        obtain ⟨rfl, hint⟩ := addInt_eq_ok hadd
        exact ⟨len, hlen, by omega, .inr (.inr hint)⟩
  · rintro ⟨len, hlen, h0, h⟩
    rw [hlen, ok_bind]
    by_cases hzero : len = 0
    · exact ⟨_, if_pos hzero⟩
    · rw [if_neg hzero]
      by_cases hshort : (last : Int) - first < len
      · exact ⟨_, if_pos hshort⟩
      · have hint : InInt (f.parser.bytes_ + len) := (h.resolve_left hzero).resolve_left hshort
        have hadd : addInt f.parser.bytes_ len = .ok (f.parser.bytes_ + len) := if_pos hint
        have hread : Block.read d first len.toNat = .ok (Block.slice d first len.toNat) :=
          Block.read_ok d _ _ (by omega)
        have hbody : Block.slice d first len.toNat ≠ [] := by
          rw [← List.length_pos_iff]
          unfold Block.slice
          rw [List.length_take, List.length_drop]
          omega
        obtain ⟨content_, happend, -⟩ := Buffer.Wf.append_ok hf hbody
        rw [if_neg hshort, hadd, ok_bind, guardOr_pos (by omega), ok_bind, hread, ok_bind, happend]
        exact ⟨_, rfl⟩

/-- The parser with a header more, after a line of `n` bytes. -/
def withHeaders (f : ReplyParsing) (headers_ : Headers) (n : Nat) : ReplyParsing :=
  (f.update { f.parser with headers_ := headers_ }).advance n

/-- A header line that is gone through was put into the map. -/
theorem parseHeaders_next {line : Bytes}
    (h : InBlock d first last before (line ++ 10 :: rest) after) (hbefore : AtLineStart before)
    (hno : 10 ∉ line) (hlen : 1 < line.length) :
    f.parseHeaders d first last = .ok g ↔
      ∃ name value, stripCR line = name ++ 58 :: value ∧ 58 ∉ name ∧
        (∃ c ∈ name, Cursor.isspace c = false) ∧ (∃ c ∈ value, Cursor.isspace c = false) ∧
        (f.withHeaders (f.parser.headers_.set (headerKey name) (headerValue value))
          (line.length + 1)).parseHeaders d (first + line.length + 1) last = .ok g := by
  have hblock : d = before ++ (line ++ 10 :: (rest ++ after)) := by
    rw [h.block]
    simp
  rw [f.parseHeaders_line h hno hlen, bind_eq_ok]
  constructor
  · rintro ⟨headers', hheader, hg⟩
    obtain ⟨name, value, hline, hcolon, hname, hvalue, rfl⟩ :=
      (ParseHeader_eq_ok before line _ hblock h.first hbefore).mp hheader
    exact ⟨name, value, hline, hcolon, hname, hvalue, hg⟩
  · rintro ⟨name, value, hline, hcolon, hname, hvalue, hg⟩
    exact ⟨_, (ParseHeader_eq_ok before line _ hblock h.first hbefore).mpr
      ⟨name, value, hline, hcolon, hname, hvalue, rfl⟩, hg⟩

/-- **The loop over the headers.** -/
theorem parseHeaders_returns (rest : Bytes) : ∀ {f : ReplyParsing} {before : Bytes} {first : Nat},
    f.Sound → InBlock d first last before rest after → AtLineStart before →
    ((∃ g, f.parseHeaders d first last = .ok g) ↔
      HeadersReturn f.parser.bytes_ f.parser.headers_ rest) := by
  induction hn : rest.length using Nat.strong_induction_on generalizing rest with
  | _ n ih =>
    subst hn
    intro f before first hf h hbefore
    have hsize := h.size
    have hle := h.le
    by_cases hmem : (10 : UInt8) ∈ rest
    · obtain ⟨line, tail, rfl, hno⟩ := List.eq_append_cons_of_mem hmem
      rw [List.length_append, List.length_cons] at hsize
      rw [headersReturn_line hno]
      by_cases hlen : line.length ≤ 1
      · have hleft : (last : Int) - ((first + line.length + 1 : Nat)) = tail.length := by omega
        have hbody := parseBody_returns (d := d) (f.blankLine (line.length + 1))
          (first + line.length + 1) last hf ⟨by omega, hle.2⟩
        rw [hleft] at hbody
        rw [f.parseHeaders_blank h hno hlen, or_iff_left (by omega), and_iff_right hlen, hbody]
        rfl
      · have hlen : 1 < line.length := by omega
        rw [or_iff_right (by omega), and_iff_right hlen]
        -- whatever the line sets, the lines behind it are read alike
        have hnext := fun headers_ : Headers =>
          ih tail.length (by simp; omega) tail rfl (f := f.withHeaders headers_ (line.length + 1))
            hf h.tail (.inr ⟨_, rfl⟩)
        constructor
        · rintro ⟨g, hg⟩
          obtain ⟨name, value, hline, hcolon, hname, hvalue, hg⟩ :=
            (parseHeaders_next h hbefore hno hlen).mp hg
          exact ⟨name, value, hline, hcolon, hname, hvalue, (hnext _).mp ⟨g, hg⟩⟩
        · rintro ⟨name, value, hline, hcolon, hname, hvalue, hreturn⟩
          obtain ⟨g, hg⟩ :=
            (hnext (f.parser.headers_.set (headerKey name) (headerValue value))).mpr hreturn
          exact ⟨g, (parseHeaders_next h hbefore hno hlen).mpr
            ⟨name, value, hline, hcolon, hname, hvalue, hg⟩⟩
    · rcases Nat.lt_or_ge 1 rest.length with hlen | hlen
      · constructor
        · rintro ⟨g, hg⟩
          exact absurd hg (f.parseHeaders_unfinished g h hmem hlen)
        · exact fun hreturn => absurd hreturn (not_headersReturn hmem hlen)
      · -- no line end, and at most one byte: the parser takes it for the blank line
        match rest, hlen with
        | [], _ =>
          have hleft : (last : Int) - first = 0 := by
            rw [List.length_nil] at hsize
            omega
          have hbody := parseBody_returns (d := d) f first last hf ⟨by omega, hle.2⟩
          rw [f.parseHeaders_none h, hbody, hleft]
          exact ⟨.cut, headersReturn_nil⟩
        | [c], _ =>
          have hc : c ≠ 10 := by
            rintro rfl
            simp at hmem
          have hleft : (last : Int) - ((last + 1 : Nat)) = -1 := by omega
          have hbody := parseBody_returns (d := d) (f.blankLine 2) (last + 1) last hf
            ⟨le_rfl, hle.2⟩
          rw [f.parseHeaders_single h hc, hbody, hleft, headersReturn_single hc]
          rfl

/-- **The reason.** Without a LF the loop over the headers would start behind the range. -/
theorem parseStatusString_returns (start : Bool) (hf : f.Sound)
    (h : InBlock d first last before rest after) (hstart : start = true ↔ before = []) :
    (∃ g, f.parseStatusString d first last = .ok g) ↔
      ReasonReturns start f.parser.bytes_ f.parser.headers_ rest := by
  by_cases hmem : (10 : UInt8) ∈ rest
  · obtain ⟨line, tail, rfl, hno⟩ := List.eq_append_cons_of_mem hmem
    have hiff : ReasonReturns start f.parser.bytes_ f.parser.headers_ (line ++ 10 :: tail) ↔
        (start = true → line ≠ []) ∧
          HeadersReturn (toInt (f.parser.bytes_ + (line.length + 1 : Nat))) f.parser.headers_ tail := by
      constructor
      · rintro ⟨line', tail', heq, hno', hne, hreturn⟩
        obtain ⟨rfl, rfl⟩ := token_unique heq hno hno'
        exact ⟨hne, hreturn⟩
      · rintro ⟨hne, hreturn⟩
        exact ⟨line, tail, rfl, hno, hne, hreturn⟩
    rw [hiff]
    by_cases hne : before ++ line ≠ []
    · have hline : start = true → line ≠ [] := by
        rintro hs rfl
        exact hne (by rw [hstart.mp hs]; rfl)
      rw [f.parseStatusString_stop h hno hne, and_iff_right hline]
      exact parseHeaders_returns (f := (f.update { f.parser with
        progress_ := .ParsingHeaders }).advance (line.length + 1)) tail hf h.tail (.inr ⟨_, rfl⟩)
    · -- at the start of the block the byte before the line end is not there
      rw [not_not, List.append_eq_nil_iff] at hne
      obtain ⟨rfl, rfl⟩ := hne
      constructor
      · rintro ⟨g, hg⟩
        unfold parseStatusString at hg
        rw [h.find_token hno, ok_bind, h.first] at hg
        cases hg
      · exact fun hreturn => absurd rfl (hreturn.1 (hstart.mpr rfl))
  · constructor
    · rintro ⟨g, hg⟩
      exact absurd hg (f.parseStatusString_cut g h hmem)
    · rintro ⟨line, tail, rfl, -⟩
      simp at hmem

/-- A range is a token and what comes after its blank, or a token that no blank ends. -/
theorem token_cases (rest : Bytes) :
    rest = statusToken rest ++ 32 :: afterToken rest ∧ 32 ∈ rest ∨
      statusToken rest = rest ∧ 32 ∉ rest := by
  by_cases hmem : (32 : UInt8) ∈ rest
  · obtain ⟨token, tail, rfl, hno⟩ := List.eq_append_cons_of_mem hmem
    left
    have htoken : statusToken (token ++ 32 :: tail) = token := takeWhile_token hno tail
    have htail : afterToken (token ++ 32 :: tail) = tail := tail_dropWhile_token hno tail
    rw [htoken, htail]
    exact ⟨rfl, hmem⟩
  · exact .inr ⟨takeWhile_of_notMem hmem, hmem⟩

/-- **The status.** -/
theorem parseStatus_returns (hf : f.Sound) (h : InBlock d first last before rest after) :
    (∃ g, f.parseStatus d first last = .ok g) ↔
      StatusReturns f.parser.bytes_ f.parser.headers_ rest := by
  rw [f.parseStatus_eq h]
  unfold StatusReturns
  cases stoi (statusToken rest) with
  | error e => simp
  | ok n =>
    rw [ok_bind]
    by_cases hknown : (statusNumber n).isSome
    · rw [if_pos hknown]
      rcases token_cases rest with ⟨hsplit, hmem⟩ | ⟨htoken, hmem⟩
      · have htail := h
        rw [hsplit] at htail
        rw [parseStatusString_returns false (f := (f.update { f.parser with
          progress_ := .ParsingStatusString, status_ := n }).advance
            ((statusToken rest).length + 1)) hf htail.tail (by simp)]
        constructor
        · exact fun hreturn => ⟨n, rfl, fun _ => ⟨hmem, hreturn⟩⟩
        · rintro ⟨_, ⟨⟩, hreturn⟩
          exact (hreturn hknown).2
      · -- `parse` goes on one byte behind the range
        have hsize := h.size
        constructor
        · rintro ⟨g, hg⟩
          unfold parseStatusString at hg
          rw [find_past (by rw [htoken]; omega)] at hg
          cases hg
        · rintro ⟨_, ⟨⟩, hreturn⟩
          exact absurd (hreturn hknown).1 hmem
    · rw [if_neg hknown]
      exact ⟨fun _ => ⟨n, rfl, fun hk => absurd hk hknown⟩, fun _ => ⟨f, rfl⟩⟩

/-- **The version.** -/
theorem parseVersion_returns (hf : f.Sound) (h : InBlock d first last before rest after) :
    (∃ g, f.parseVersion d first last = .ok g) ↔
      ReplyVersionReturns f.parser.bytes_ f.parser.headers_ rest := by
  rw [f.parseVersion_eq h]
  unfold ReplyVersionReturns
  by_cases htaken : TakenVersion (statusToken rest)
  · rw [if_pos htaken, imp_iff_right htaken]
    rcases token_cases rest with ⟨hsplit, hmem⟩ | ⟨htoken, hmem⟩
    · have htail := h
      rw [hsplit] at htail
      rw [and_iff_right hmem]
      exact parseStatus_returns (f := (f.update { f.parser with
        progress_ := .ParsingStatus }).advance ((statusToken rest).length + 1)) hf htail.tail
    · have hsize := h.size
      constructor
      · rintro ⟨g, hg⟩
        unfold parseStatus at hg
        rw [find_past (by rw [htoken]; omega)] at hg
        cases hg
      · exact fun hreturn => absurd hreturn.1 hmem
  · rw [if_neg htaken]
    exact ⟨fun _ hk => absurd hk htaken, fun _ => ⟨_, rfl⟩⟩

end ReplyParsing

namespace ReplyParser

open ReplyParsing

/-- A byte string by itself. -/
theorem inBlock_whole (d : Bytes) : InBlock d 0 d.length [] d [] where
  block := by simp
  first := rfl
  last := by simp

/-- **When `parse` returns**, in every state and on every byte string. -/
theorem parse_returns_iff (p : ReplyParser) (hp : p.content_.Wf) (d : Bytes) :
    (∃ f, p.parse d 0 d.length = .ok f) ↔ p.Returns d := by
  have hd := inBlock_whole d
  unfold ReplyParser.parse ReplyParser.Returns
  cases p.progress_ with
  | ParseStarting =>
    exact parseVersion_returns (f := ReplyParsing.update { parser := p, added := 0 }
      { p with progress_ := .ParsingVersion }) hp hd
  | ParsingVersion => exact parseVersion_returns (f := { parser := p, added := 0 }) hp hd
  | ParsingStatus => exact parseStatus_returns (f := { parser := p, added := 0 }) hp hd
  | ParsingStatusString =>
    exact parseStatusString_returns true (f := { parser := p, added := 0 }) hp hd (by simp)
  | ParsingHeaders =>
    exact parseHeaders_returns (f := { parser := p, added := 0 }) d hp hd (.inl rfl)
  | ParsingBody =>
    have hbody := parseBody_returns (d := d) { parser := p, added := 0 } 0 d.length hp
      ⟨Nat.zero_le _, le_rfl⟩
    simpa using hbody
  | Good | InvalidVersion | InvalidStatus | InvalidStatusString | InvalidHeader =>
    exact ⟨fun _ => trivial, fun _ => ⟨_, rfl⟩⟩

end ReplyParser

end Liby.Http
