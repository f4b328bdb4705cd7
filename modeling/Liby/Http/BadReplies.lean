import Liby.Http.ReplyReturns

/-!
# Bad replies

What `ReplyParser::parse` is to reject and to accept, against what it does. `progress_` reports
nothing but a version that `ParseHttpVersion` refuses: a status that is not in the table is waited
for, and everything else that is wrong either goes unseen or ends `parse` on the way.
-/

namespace Liby.Http

open Infra
open ReplyParsing (statusToken)

/-! ## What is to be rejected, and what accepted -/

/-- A text that is a number: blanks, a sign, digits, and blanks. -/
def Numeric (text : Bytes) : Prop :=
  (takeSign (text.dropWhile Cursor.isspace)).2.takeWhile isdigit ≠ [] ∧
    ∀ c ∈ (takeSign (text.dropWhile Cursor.isspace)).2.dropWhile isdigit, Cursor.isspace c = true

/-- A status of the table. -/
def KnownStatus (text : Bytes) : Prop :=
  Numeric text ∧ ∃ n, stoi text = .ok n ∧ (statusNumber n).isSome

/-- A length: a number that is no less than zero and an `int`. -/
def GoodLength (text : Bytes) : Prop := Numeric text ∧ ∃ n, stoi text = .ok n ∧ 0 ≤ n

/-- There is a `Content-Length` that is no length. -/
def BadLength (headers_ : Headers) : Prop :=
  ∃ text, headers_.lookup (str "Content-Length") = some text ∧ ¬GoodLength text

/-- There is no `Content-Length`, or it is zero. -/
def NoBody (headers_ : Headers) : Prop :=
  ∀ text, headers_.lookup (str "Content-Length") = some text → Numeric text ∧ stoi text = .ok 0

/-- Header lines with one that has no colon, or a blank line after a bad length. -/
inductive BadHeaders : Headers → Bytes → Prop
  | noColon {headers_ : Headers} {line rest : Bytes} (hno : 10 ∉ line) (hline : ¬IsBlank line)
      (hcolon : 58 ∉ line) : BadHeaders headers_ (line ++ 10 :: rest)
  | length {headers_ : Headers} {line rest : Bytes} (hline : IsBlank line)
      (h : BadLength headers_) : BadHeaders headers_ (line ++ 10 :: rest)
  | later {headers_ : Headers} {line name value rest : Bytes} (hno : 10 ∉ line)
      (hline : stripCR line = name ++ 58 :: value) (hcolon : 58 ∉ name)
      (h : BadHeaders (headers_.set (headerKey name) (headerValue value)) rest) :
      BadHeaders headers_ (line ++ 10 :: rest)

/-- Header lines and a blank line, and no body is announced. -/
inductive Bodiless : Headers → Bytes → Prop
  | blank {headers_ : Headers} {line rest : Bytes} (hline : IsBlank line) (h : NoBody headers_) :
      Bodiless headers_ (line ++ 10 :: rest)
  | header {headers_ : Headers} {line name value rest : Bytes} (hno : 10 ∉ line)
      (hline : stripCR line = name ++ 58 :: value) (hcolon : 58 ∉ name)
      (hname : ∃ c ∈ name, Cursor.isspace c = false)
      (h : Bodiless (headers_.set (headerKey name) (headerValue value)) rest) :
      Bodiless headers_ (line ++ 10 :: rest)

namespace ReplyParser

/-- What is to be rejected, by where `parse` resumes. -/
def Bad (p : ReplyParser) (d : Bytes) : Prop :=
  match p.progress_ with
  | .ParseStarting | .ParsingVersion => ∃ line rest, d = line ++ 10 :: rest ∧ 10 ∉ line ∧
      (statusToken (stripCR line) ≠ str "HTTP/1.1" ∨
        ¬KnownStatus (statusToken (afterToken (stripCR line))) ∨ BadHeaders p.headers_ rest)
  | .ParsingStatus => ∃ line rest, d = line ++ 10 :: rest ∧ 10 ∉ line ∧
      (¬KnownStatus (statusToken (stripCR line)) ∨ BadHeaders p.headers_ rest)
  | .ParsingStatusString => ∃ line rest, d = line ++ 10 :: rest ∧ 10 ∉ line ∧
      BadHeaders p.headers_ rest
  | .ParsingHeaders => BadHeaders p.headers_ d
  | .ParsingBody => BadLength p.headers_
  | _ => False

/-- What is to be accepted without a body, by where `parse` resumes. -/
def HasNoBody (p : ReplyParser) (d : Bytes) : Prop :=
  match p.progress_ with
  | .ParseStarting | .ParsingVersion => ∃ number reason rest,
      d = str "HTTP/1.1" ++ 32 :: (number ++ 32 :: (reason ++ 10 :: rest)) ∧
        32 ∉ number ∧ 10 ∉ number ∧ KnownStatus number ∧ 10 ∉ reason ∧ Bodiless p.headers_ rest
  | .ParsingStatus => ∃ number reason rest, d = number ++ 32 :: (reason ++ 10 :: rest) ∧
      32 ∉ number ∧ 10 ∉ number ∧ KnownStatus number ∧ 10 ∉ reason ∧ Bodiless p.headers_ rest
  | .ParsingStatusString => ∃ reason rest, d = reason ++ 10 :: rest ∧ 10 ∉ reason ∧
      Bodiless p.headers_ rest
  | .ParsingHeaders => Bodiless p.headers_ d
  | .ParsingBody => NoBody p.headers_
  | _ => False

/-- A parser `q` that comes out as it should. -/
structure Judges (p : ReplyParser) (d : Bytes) (q : ReplyParser) : Prop where
  rejects : p.Bad d → q.isError = true
  accepts : p.HasNoBody d → q.isGood = true

/-- The version is still to come, and `ParseHttpVersion` refuses it. -/
def RefusesVersion (p : ReplyParser) (d : Bytes) : Prop :=
  (p.progress_ = .ParseStarting ∨ p.progress_ = .ParsingVersion) ∧ ¬TakenVersion (statusToken d)

end ReplyParser

/-! ## No other error -/

namespace ReplyParsing

variable {d before rest after : Bytes} {first last : Nat} {f g : ReplyParsing}

theorem parseBody_calm (hf : f.parser.isError = false) (h : f.parseBody d first last = .ok g) :
    g.parser.isError = false := by
  unfold parseBody at h
  obtain ⟨len, -, h⟩ := bind_eq_ok.mp h
  split at h
  · cases h
    rfl
  · split at h
    · cases h
      exact hf
    · obtain ⟨bytes_, -, h⟩ := bind_eq_ok.mp h
      obtain ⟨u, -, h⟩ := bind_eq_ok.mp h
      obtain ⟨body, -, h⟩ := bind_eq_ok.mp h
      obtain ⟨content_, -, h⟩ := bind_eq_ok.mp h
      cases h
      rfl

theorem parseHeaders_calm (first : Nat) (f : ReplyParsing) (hf : f.parser.isError = false)
    (h : f.parseHeaders d first last = .ok g) : g.parser.isError = false := by
  rw [parseHeaders_eq] at h
  split at h
  · exact parseBody_calm hf h
  · obtain ⟨finish, hfind, h⟩ := bind_eq_ok.mp h
    have hle := Cursor.le_of_find hfind
    split at h
    · exact parseBody_calm rfl h
    · obtain ⟨stop, -, h⟩ := bind_eq_ok.mp h
      obtain ⟨headers_, -, h⟩ := bind_eq_ok.mp h
      refine parseHeaders_calm (finish + 1) _ ?_ h
      exact hf
termination_by last + 1 - first

theorem parseStatusString_calm (h : f.parseStatusString d first last = .ok g) :
    g.parser.isError = false := by
  unfold parseStatusString at h
  obtain ⟨finish, -, h⟩ := bind_eq_ok.mp h
  obtain ⟨stop, -, h⟩ := bind_eq_ok.mp h
  dsimp only [ReplyParser.ParseStatusString] at h
  rw [if_pos rfl] at h
  exact parseHeaders_calm _ _ rfl h

theorem parseStatus_calm (hf : f.parser.isError = false)
    (hblock : InBlock d first last before rest after) (h : f.parseStatus d first last = .ok g) :
    g.parser.isError = false := by
  rw [f.parseStatus_eq hblock] at h
  obtain ⟨n, -, h⟩ := bind_eq_ok.mp h
  split at h
  · exact parseStatusString_calm h
  · cases h
    exact hf

/-- **The version stage ends in an error exactly when the version is refused.** -/
theorem parseVersion_error_iff (hblock : InBlock d first last before rest after)
    (h : f.parseVersion d first last = .ok g) :
    g.parser.isError = true ↔ ¬TakenVersion (statusToken rest) := by
  rw [f.parseVersion_eq hblock] at h
  by_cases htaken : TakenVersion (statusToken rest)
  · rw [if_pos htaken] at h
    have hcalm : g.parser.isError = false := by
      rcases token_cases rest with ⟨hsplit, -⟩ | ⟨htoken, -⟩
      · rw [hsplit] at hblock
        exact parseStatus_calm rfl hblock.tail h
      · have hsize := hblock.size
        unfold parseStatus at h
        rw [find_past (by rw [htoken]; omega)] at h
        cases h
    simp [hcalm, htaken]
  · rw [if_neg htaken] at h
    cases h
    exact ⟨fun _ => htaken, fun _ => rfl⟩

/-! ## Replies without a body -/

theorem parseBody_bodiless (hbody : NoBody f.parser.headers_)
    (h : f.parseBody d first last = .ok g) : g.parser.isGood = true := by
  cases hlookup : f.parser.headers_.lookup (str "Content-Length") with
  | none =>
    have hget : f.parser.headers_.get (str "Content-Length") = [] := by
      rw [Headers.get, hlookup]
      rfl
    exact absurd h (f.parseBody_none g hget)
  | some text =>
    have hget : f.parser.headers_.get (str "Content-Length") = text := by
      rw [Headers.get, hlookup]
      rfl
    refine f.parseBody_zero g ?_ h
    rw [hget]
    exact (hbody text hlookup).2

theorem parseHeaders_bodiless {headers_ : Headers} (hbody : Bodiless headers_ rest) :
    ∀ {f : ReplyParsing} {before : Bytes} {first : Nat}, f.parser.headers_ = headers_ →
    InBlock d first last before rest after → AtLineStart before →
    f.parseHeaders d first last = .ok g → g.parser.isGood = true := by
  induction hbody with
  | blank hline hbody =>
    rintro f before first rfl h - hg
    obtain ⟨hno, hlen⟩ := isBlank_short hline
    rw [f.parseHeaders_blank h hno hlen] at hg
    refine parseBody_bodiless ?_ hg
    exact hbody
  | @header headers_ line name value rest hno hline hcolon hname _ ih =>
    rintro f before first rfl h hbefore hg
    obtain ⟨name', value', hline', hcolon', -, -, hg⟩ :=
      (parseHeaders_next h hbefore hno (one_lt_of_name hline hname)).mp hg
    obtain ⟨rfl, rfl⟩ := token_unique (hline.symm.trans hline') hcolon hcolon'
    exact ih rfl h.tail (.inr ⟨_, rfl⟩) hg

theorem parseStatusString_bodiless {reason : Bytes}
    (hblock : InBlock d first last before (reason ++ 10 :: rest) after) (hno : 10 ∉ reason)
    (hbody : Bodiless f.parser.headers_ rest) (h : f.parseStatusString d first last = .ok g) :
    g.parser.isGood = true := by
  by_cases hne : before ++ reason ≠ []
  · rw [f.parseStatusString_stop hblock hno hne] at h
    refine parseHeaders_bodiless hbody ?_ hblock.tail (.inr ⟨_, rfl⟩) h
    rfl
  · rw [not_not, List.append_eq_nil_iff] at hne
    obtain ⟨rfl, rfl⟩ := hne
    unfold parseStatusString at h
    rw [hblock.find_token hno, ok_bind, hblock.first] at h
    cases h

theorem parseStatus_bodiless {number reason : Bytes}
    (hblock : InBlock d first last before (number ++ 32 :: (reason ++ 10 :: rest)) after)
    (hnumber : 32 ∉ number) (hknown : KnownStatus number) (hno : 10 ∉ reason)
    (hbody : Bodiless f.parser.headers_ rest) (h : f.parseStatus d first last = .ok g) :
    g.parser.isGood = true := by
  obtain ⟨-, n, hn, hstatus⟩ := hknown
  rw [f.parseStatus_token hblock hnumber hn hstatus] at h
  refine parseStatusString_bodiless hblock.tail hno ?_ h
  exact hbody

theorem parseVersion_bodiless {number reason : Bytes}
    (hblock : InBlock d first last before
      (str "HTTP/1.1" ++ 32 :: (number ++ 32 :: (reason ++ 10 :: rest))) after)
    (hnumber : 32 ∉ number) (hknown : KnownStatus number) (hno : 10 ∉ reason)
    (hbody : Bodiless f.parser.headers_ rest) (h : f.parseVersion d first last = .ok g) :
    g.parser.isGood = true := by
  rw [f.parseVersion_token hblock] at h
  have htail : InBlock d (first + 9) last _ _ _ := hblock.tail
  refine parseStatus_bodiless htail hnumber hknown hno ?_ h
  exact hbody

end ReplyParsing

/-! ## parse -/

namespace ReplyParser

open ReplyParsing

variable {p : ReplyParser} {d : Bytes} {f : ReplyParsing}

/-- **`parse` reports a refused version and nothing else.** -/
theorem parse_error_iff (hp : p.isError = false) (h : p.parse d 0 d.length = .ok f) :
    f.parser.isError = true ↔ p.RefusesVersion d := by
  have hd := inBlock_whole d
  unfold RefusesVersion
  unfold ReplyParser.parse at h
  split at h
  · next hprogress => simpa [hprogress] using parseVersion_error_iff hd h
  · next hprogress => simpa [hprogress] using parseVersion_error_iff hd h
  · next hprogress => simp [parseStatus_calm hp hd h, hprogress]
  · next hprogress => simp [parseStatusString_calm h, hprogress]
  · next hprogress => simp [parseHeaders_calm _ _ hp h, hprogress]
  · next hprogress => simp [parseBody_calm hp h, hprogress]
  · next h1 h2 _ _ _ _ =>
    cases h
    rw [hp]
    exact ⟨fun heq => (Bool.false_ne_true heq).elim, fun ⟨hversion, _⟩ => (hversion.elim h1 h2).elim⟩

/-- **A reply without a body that `parse` comes through is accepted.** -/
theorem parse_bodiless (hbody : p.HasNoBody d) (h : p.parse d 0 d.length = .ok f) :
    f.parser.isGood = true := by
  have hd := inBlock_whole d
  unfold HasNoBody at hbody
  unfold ReplyParser.parse at h
  cases hprogress : p.progress_ with
  | ParseStarting =>
    rw [hprogress] at h hbody
    obtain ⟨number, reason, rest, rfl, hnumber, -, hknown, hno, hrest⟩ := hbody
    exact parseVersion_bodiless hd hnumber hknown hno hrest h
  | ParsingVersion =>
    rw [hprogress] at h hbody
    obtain ⟨number, reason, rest, rfl, hnumber, -, hknown, hno, hrest⟩ := hbody
    exact parseVersion_bodiless hd hnumber hknown hno hrest h
  | ParsingStatus =>
    rw [hprogress] at h hbody
    obtain ⟨number, reason, rest, rfl, hnumber, -, hknown, hno, hrest⟩ := hbody
    exact parseStatus_bodiless hd hnumber hknown hno hrest h
  | ParsingStatusString =>
    rw [hprogress] at h hbody
    obtain ⟨reason, rest, rfl, hno, hrest⟩ := hbody
    exact parseStatusString_bodiless hd hno hrest h
  | ParsingHeaders =>
    rw [hprogress] at h hbody
    exact parseHeaders_bodiless hbody rfl hd (.inl rfl) h
  | ParsingBody =>
    rw [hprogress] at h hbody
    exact parseBody_bodiless hbody h
  | Good | InvalidVersion | InvalidStatus | InvalidStatusString | InvalidHeader =>
    rw [hprogress] at hbody
    exact hbody.elim

/-- A parser that has found an error is given nothing bad. -/
theorem isError_of_bad (h : p.Bad d) : p.isError = false := by
  unfold Bad at h
  unfold isError
  split at h <;> first | (next hprogress => rw [hprogress]) | exact h.elim

/--
**Bad replies.** In every state and on every byte string, `parse` comes through, rejects what is to
be rejected and accepts a reply without a body exactly when it comes through and nothing is to be
rejected but what stands after a version that it refuses.
-/
theorem judges_replies_iff (p : ReplyParser) (hp : p.content_.Wf) (d : Bytes) :
    (∃ f, p.parse d 0 d.length = .ok f ∧ p.Judges d f.parser) ↔
      p.Returns d ∧ (p.Bad d → p.RefusesVersion d) := by
  rw [← parse_returns_iff p hp d]
  constructor
  · rintro ⟨f, hf, hjudges⟩
    exact ⟨⟨f, hf⟩, fun hbad =>
      (parse_error_iff (isError_of_bad hbad) hf).mp (hjudges.rejects hbad)⟩
  · rintro ⟨⟨f, hf⟩, hrefuses⟩
    exact ⟨f, hf, fun hbad => (parse_error_iff (isError_of_bad hbad) hf).mpr (hrefuses hbad),
      fun hbody => parse_bodiless hbody hf⟩

/-- A reply of another version is rejected, and one of length zero accepted at its body. -/
theorem judges_replies_version :
    (∃ f, (init 0).parse (str "HTTP/1.0 200 Ok\r\n\r\n") 0 19 = .ok f ∧
      (init 0).Judges (str "HTTP/1.0 200 Ok\r\n\r\n") f.parser) ∧
    ∃ f, ReplyParser.parse { init 0 with
        headers_ := [(str "Content-Length", str "0")], progress_ := .ParsingBody } [] 0 0 = .ok f ∧
      ReplyParser.Judges { init 0 with
        headers_ := [(str "Content-Length", str "0")], progress_ := .ParsingBody } [] f.parser := by
  constructor
  · exact (judges_replies_iff (init 0) Buffer.wf_init (str "HTTP/1.0 200 Ok\r\n\r\n")).mpr
      ⟨fun htaken => absurd htaken (by decide +kernel), fun _ => ⟨.inl rfl, by decide +kernel⟩⟩
  · refine (judges_replies_iff { init 0 with
      headers_ := [(str "Content-Length", str "0")], progress_ := .ParsingBody } Buffer.wf_init
        []).mpr ⟨⟨0, by decide +kernel, le_rfl, .inl rfl⟩, ?_⟩
    have hzero : GoodLength (str "0") :=
      ⟨⟨by decide +kernel, by decide +kernel⟩, 0, by decide +kernel, le_rfl⟩
    rintro ⟨text, htext, hbad⟩
    cases htext
    exact absurd hzero hbad

/-- A status outside the table is waited for; a status or a length that is no number is an exception,
as is a length that is missing; a negative one fails an assertion; and a line without a colon makes a
string that ends before it begins. -/
theorem bad_replies_pass :
    (¬∃ f, (init 0).parse (str "HTTP/1.1 299 Odd\r\n\r\n") 0 20 = .ok f ∧
      (init 0).Judges (str "HTTP/1.1 299 Odd\r\n\r\n") f.parser) ∧
    (init 0).parse (str "HTTP/1.1 two Ok\r\n\r\n") 0 19 = .error .exception ∧
    (init 0).parse (str "HTTP/1.1 200 Ok\r\n\r\n") 0 19 = .error .exception ∧
    (init 0).parse (str "HTTP/1.1 200 Ok\r\nContent-Length: -1\r\n\r\n") 0 39
      = .error .assertFailed ∧
    (init 0).parse (str "HTTP/1.1 200 Ok\r\nHost\r\nA: b\r\n\r\n") 0 31 = .error .badRange := by
  refine ⟨?_, by decide +kernel, by decide +kernel, by decide +kernel, by decide +kernel⟩
  rintro ⟨f, hf, hjudges⟩
  have hcalm : ((init 0).parse (str "HTTP/1.1 299 Odd\r\n\r\n") 0 20).map
      (fun f => f.parser.isError) = .ok false := by decide +kernel
  have hbad : (init 0).Bad (str "HTTP/1.1 299 Odd\r\n\r\n") := by
    refine ⟨str "HTTP/1.1 299 Odd\r", str "\r\n", by decide +kernel, by decide +kernel,
      .inr (.inl ?_)⟩
    rintro ⟨-, n, hn, hstatus⟩
    have hnumber : stoi (statusToken (afterToken (stripCR (str "HTTP/1.1 299 Odd\r")))) = .ok 299 := by
      decide +kernel
    rw [hnumber] at hn
    cases hn
    exact absurd hstatus (by decide +kernel)
  rw [hf] at hcalm
  have hcalm : f.parser.isError = false := Except.ok.inj hcalm
  have herror := hjudges.rejects hbad
  rw [hcalm] at herror
  cases herror

end ReplyParser

end Liby.Http
