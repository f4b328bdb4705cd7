import Liby.Http.RequestLine

/-!
# The bounds of RequestParser

Every cursor of `parse` stays in the block exactly on the inputs of `SafeInput`: each token that
is taken is delimited in the block, each header has a name and a value that are not blank, no
escape is cut off by the end of the block, and a version is not asked for at an empty line at
the start of the block.
-/

namespace Liby.Http

open Infra

/-- The header lines from here to the end of the block, or to a blank line. -/
inductive HeadersSafe : Bytes → Prop
  | done : HeadersSafe []
  | blank {line rest : Bytes} (hno : 10 ∉ line) (hlen : line.length ≤ 1) :
      HeadersSafe (line ++ 10 :: rest)
  | header {line rest : Bytes} (hno : 10 ∉ line) (hlen : 1 < line.length)
      (hline : HeaderLine (stripCR line)) (hrest : HeadersSafe rest) :
      HeadersSafe (line ++ 10 :: rest)

/-- The version and what follows. At the start of the block there is no byte before a LF. -/
def VersionSafe (start : Bool) (rest : Bytes) : Prop :=
  (∃ line tail, rest = line ++ 10 :: tail ∧ 10 ∉ line ∧ (start = true → line ≠ []) ∧
    (IsVersion (stripCR line) → HeadersSafe tail)) ∨
  (10 ∉ rest ∧ (start = true → rest ≠ []) ∧ ¬IsVersion (stripCR rest))

/-- The URI and what follows. A token longer than an `int` is not an URI. -/
def URISafe (rest : Bytes) : Prop :=
  (∃ token tail, rest = token ++ 32 :: tail ∧ 32 ∉ token ∧
    (toInt token.length + 1 < 0 ∨
      0 ≤ toInt token.length ∧ toInt token.length + 1 < 2 ^ 31 ∧
        EscapesFit (toInt token.length).toNat rest ∧ VersionSafe false tail)) ∨
  (32 ∉ rest ∧ toInt rest.length + 1 < 0)

/-- The method and what follows. -/
def MethodSafe (rest : Bytes) : Prop :=
  (∃ token tail, rest = token ++ 32 :: tail ∧ 32 ∉ token ∧ (methods token ≠ none → URISafe tail)) ∨
  (32 ∉ rest ∧ methods rest = none)

/-- What `parse` takes without leaving the block, by where it resumes. -/
def SafeInput (progress_ : RequestProgress) (d : Bytes) : Prop :=
  match progress_ with
  | .ParsingMethod => MethodSafe d
  | .ParsingURI => URISafe d
  | .ParsingVersion => VersionSafe true d
  | .ParsingHeaders => HeadersSafe d
  | _ => True

variable {d : Bytes} {first : Nat}

/-- A stage that ends in the block: it returns and has added no more than the bytes it had. -/
def Within (x : Exec Parsing) (limit : Nat) : Prop := ∃ g, x = .ok g ∧ g.added ≤ limit

theorem within_ok {g : Parsing} {limit : Nat} : Within (.ok g) limit ↔ g.added ≤ limit := by
  constructor
  · rintro ⟨g', hg, hle⟩
    cases hg
    exact hle
  · exact fun hle => ⟨g, rfl, hle⟩

theorem not_within_error {e : Fault} {limit : Nat} : ¬Within (.error e) limit := by
  rintro ⟨g, hg, -⟩
  cases hg

theorem headersSafe_line {line rest : Bytes} (hno : 10 ∉ line) :
    HeadersSafe (line ++ 10 :: rest) ↔
      line.length ≤ 1 ∨ 1 < line.length ∧ HeaderLine (stripCR line) ∧ HeadersSafe rest := by
  constructor
  · generalize h : line ++ 10 :: rest = bytes
    rintro (_ | ⟨hno', hlen⟩ | ⟨hno', hlen, hline, hrest⟩)
    · simp at h
    · obtain ⟨rfl, rfl⟩ := token_unique h hno hno'
      exact Or.inl hlen
    · obtain ⟨rfl, rfl⟩ := token_unique h hno hno'
      exact Or.inr ⟨hlen, hline, hrest⟩
  · rintro (hlen | ⟨hlen, hline, hrest⟩)
    · exact .blank hno hlen
    · exact .header hno hlen hline hrest

theorem not_headersSafe {rest : Bytes} (hne : rest ≠ []) (hno : 10 ∉ rest) : ¬HeadersSafe rest := by
  intro h
  cases h with
  | done => exact hne rfl
  | blank => simp at hno
  | header => simp at hno

/-- **What `ParseHeader` makes of a line**: it needs a colon, and on both sides of it a byte that is
not blank. -/
theorem ParseHeader_eq_ok {headers_ headers' : Headers} (before line tail : Bytes)
    (hd : d = before ++ (line ++ 10 :: tail)) (hf : first = before.length)
    (hbefore : AtLineStart before) :
    ParseHeader headers_ d first (before.length + (stripCR line).length) = .ok headers' ↔
      ∃ name value, stripCR line = name ++ 58 :: value ∧ 58 ∉ name ∧
        (∃ c ∈ name, Cursor.isspace c = false) ∧ (∃ c ∈ value, Cursor.isspace c = false) ∧
        headers' = headers_.set (headerKey name) (headerValue value) := by
  obtain ⟨after, hsplit, hafter⟩ := atLineEnd_stripCR line tail
  have hd' : d = before ++ stripCR line ++ after := by rw [hd, hsplit, List.append_assoc]
  have hset : ∀ {name value}, stripCR line = name ++ 58 :: value → 58 ∉ name →
      (∃ c ∈ name, Cursor.isspace c = false) → (∃ c ∈ value, Cursor.isspace c = false) →
      ParseHeader headers_ d first (before.length + (stripCR line).length)
        = .ok (headers_.set (headerKey name) (headerValue value)) := by
    intro name value hline hcolon hname hvalue
    rw [hline] at hd' ⊢
    exact ParseHeader_ok headers_ before name value after hd' hf rfl hcolon hname hvalue
  constructor
  · intro h
    obtain ⟨name, value, hline, hcolon, hname, hvalue⟩ :=
      headerLine_of_ParseHeader before (stripCR line) after hd' hf rfl hbefore hafter h
    rw [hset hline hcolon hname hvalue] at h
    cases h
    exact ⟨name, value, hline, hcolon, hname, hvalue, rfl⟩
  · rintro ⟨name, value, hline, hcolon, hname, hvalue, rfl⟩
    exact hset hline hcolon hname hvalue

/-- **A line is taken in bounds exactly when it is a header line.** -/
theorem ParseHeader_iff (headers_ : Headers) (before line tail : Bytes)
    (hd : d = before ++ (line ++ 10 :: tail)) (hf : first = before.length)
    (hbefore : AtLineStart before) :
    (∃ headers', ParseHeader headers_ d first (before.length + (stripCR line).length)
      = .ok headers') ↔ HeaderLine (stripCR line) := by
  constructor
  · rintro ⟨headers', h⟩
    obtain ⟨name, value, hline, hcolon, hname, hvalue, -⟩ :=
      (ParseHeader_eq_ok before line tail hd hf hbefore).mp h
    exact ⟨name, value, hline, hcolon, hname, hvalue⟩
  · rintro ⟨name, value, hline, hcolon, hname, hvalue⟩
    exact ⟨_, (ParseHeader_eq_ok before line tail hd hf hbefore).mpr
      ⟨name, value, hline, hcolon, hname, hvalue, rfl⟩⟩

namespace Parsing

/-- **The loop over the headers.** -/
theorem parseHeaders_within (f : Parsing) : ∀ (before rest : Bytes), AtLineStart before →
    d = before ++ rest → first = before.length →
    (Within (f.parseHeaders d first) (f.added + rest.length) ↔ HeadersSafe rest) := by
  intro before rest hbefore hd hf
  induction hn : rest.length using Nat.strong_induction_on generalizing before rest first f with
  | _ n ih =>
    subst hn
    by_cases hmem : (10 : UInt8) ∈ rest
    · obtain ⟨line, tail, rfl, hno⟩ := List.eq_append_cons_of_mem hmem
      rw [headersSafe_line hno]
      by_cases hlen : line.length ≤ 1
      · rw [parseHeaders_blank f before line tail hd hf hno hlen, within_ok]
        refine ⟨fun _ => Or.inl hlen, fun _ => ?_⟩
        simp
      · have hlen : 1 < line.length := by omega
        -- the line is a header, and the loop goes on behind it
        have hiff := ParseHeader_iff f.parser.headers_ before line tail hd hf hbefore
        rw [parseHeaders_line f before line tail hd hf hno hlen, or_iff_right (by omega),
          and_iff_right hlen, ← hiff]
        cases hp : ParseHeader f.parser.headers_ d first
            (before.length + (stripCR line).length) with
        | error e =>
          rw [error_bind]
          exact ⟨fun h => absurd h not_within_error, fun ⟨⟨_, h⟩, _⟩ => by cases h⟩
        | ok headers' =>
          have hnext : Within ((f.withHeaders headers' (line.length + 1)).parseHeaders d
              (before.length + line.length + 1))
              ((f.withHeaders headers' (line.length + 1)).added + tail.length) ↔ HeadersSafe tail :=
            ih tail.length (by simp; omega) _ (before ++ line ++ [10]) tail
              (Or.inr ⟨before ++ line, by simp⟩) (by simp [hd]) (by simp; omega) rfl
          have hlimit : f.added + (line ++ 10 :: tail).length
              = (f.withHeaders headers' (line.length + 1)).added + tail.length := by
            simp
            omega
          rw [ok_bind, hlimit, hnext]
          exact ⟨fun h => ⟨⟨_, rfl⟩, h⟩, fun h => h.2⟩
    · by_cases hnil : rest = []
      · subst hnil
        rw [parseHeaders_end f (by simp [hd, hf]), within_ok]
        exact ⟨fun _ => .done, fun _ => le_rfl⟩
      · refine ⟨fun hw => ?_, fun hs => absurd hs (not_headersSafe hnil hmem)⟩
        exfalso
        -- no line end: the loop starts behind the range, or takes two bytes for the one there is
        by_cases hlen : 1 < rest.length
        · obtain ⟨g, hg, -⟩ := hw
          exact parseHeaders_unfinished f before rest hd hf hmem hlen g hg
        · obtain ⟨c, rfl⟩ : ∃ c, rest = [c] := by
            cases rest with
            | nil => exact absurd rfl hnil
            | cons c cs =>
              cases cs with
              | nil => exact ⟨c, rfl⟩
              | cons c' cs' => simp at hlen
          rw [parseHeaders_single f before hd hf (by rintro rfl; simp at hmem), within_ok] at hw
          simp at hw

end Parsing

/-! ## The stages before the headers -/

/-- A property of the token at the front, where there is one. -/
theorem token_or_iff {c : UInt8} {token tail : Bytes} {P : Bytes → Bytes → Prop} {q : Prop}
    (hno : c ∉ token) : ((∃ token' tail', token ++ c :: tail = token' ++ c :: tail' ∧ c ∉ token' ∧
      P token' tail') ∨ (c ∉ token ++ c :: tail ∧ q)) ↔ P token tail := by
  constructor
  · rintro (⟨token', tail', heq, hno', hp⟩ | ⟨hmem, -⟩)
    · obtain ⟨rfl, rfl⟩ := token_unique heq hno hno'
      exact hp
    · simp at hmem
  · exact fun hp => .inl ⟨token, tail, rfl, hno, hp⟩

/-- And where there is none. -/
theorem unfinished_or_iff {c : UInt8} {rest : Bytes} {P : Bytes → Bytes → Prop} {q : Prop}
    (hno : c ∉ rest) : ((∃ token tail, rest = token ++ c :: tail ∧ c ∉ token ∧ P token tail) ∨
      (c ∉ rest ∧ q)) ↔ q := by
  constructor
  · rintro (⟨token, tail, rfl, -⟩ | ⟨-, hq⟩)
    · simp at hno
    · exact hq
  · exact fun hq => .inr ⟨hno, hq⟩

theorem versionSafe_line {start : Bool} {line tail : Bytes} (hno : 10 ∉ line) :
    VersionSafe start (line ++ 10 :: tail) ↔
      (start = true → line ≠ []) ∧ (IsVersion (stripCR line) → HeadersSafe tail) :=
  token_or_iff hno

theorem versionSafe_unfinished {start : Bool} {rest : Bytes} (hno : 10 ∉ rest) :
    VersionSafe start rest ↔ (start = true → rest ≠ []) ∧ ¬IsVersion (stripCR rest) :=
  unfinished_or_iff hno

theorem uriSafe_token {token tail : Bytes} (hno : 32 ∉ token) :
    URISafe (token ++ 32 :: tail) ↔ toInt token.length + 1 < 0 ∨
      0 ≤ toInt token.length ∧ toInt token.length + 1 < 2 ^ 31 ∧
        EscapesFit (toInt token.length).toNat (token ++ 32 :: tail) ∧ VersionSafe false tail :=
  token_or_iff hno

theorem uriSafe_unfinished {rest : Bytes} (hno : 32 ∉ rest) :
    URISafe rest ↔ toInt rest.length + 1 < 0 :=
  unfinished_or_iff hno

theorem methodSafe_token {token tail : Bytes} (hno : 32 ∉ token) :
    MethodSafe (token ++ 32 :: tail) ↔ (methods token ≠ none → URISafe tail) :=
  token_or_iff hno

theorem methodSafe_unfinished {rest : Bytes} (hno : 32 ∉ rest) :
    MethodSafe rest ↔ methods rest = none :=
  unfinished_or_iff hno

namespace Parsing

theorem parseVersion_within (start : Bool) (f : Parsing) (before rest : Bytes)
    (hd : d = before ++ rest) (hf : first = before.length) (hbefore : BeforeVersion start before) :
    Within (f.parseVersion d first) (f.added + rest.length) ↔ VersionSafe start rest := by
  -- at the start of the block an empty line is out of bounds
  have hempty : start = true → (rest = [] ∨ ∃ tail, rest = 10 :: tail) →
      ¬Within (f.parseVersion d first) (f.added + rest.length) := by
    rintro rfl hrest ⟨g, hg, -⟩
    have hnil : before = [] := hbefore
    subst hnil
    rw [hf] at hg
    exact parseVersion_start f (by simpa [hd] using hrest) g hg
  by_cases hmem : (10 : UInt8) ∈ rest
  · obtain ⟨line, tail, rfl, hno⟩ := List.eq_append_cons_of_mem hmem
    rw [versionSafe_line hno]
    by_cases hstart : start = true → line ≠ []
    · rw [parseVersion_line f before line tail hd hf hbefore hstart hno, and_iff_right hstart]
      by_cases hv : IsVersion (stripCR line)
      · have hheaders := parseHeaders_within (d := d)
          ((f.update (f.parser.withVersion (stripCR line))).advance (line.length + 1))
          (before ++ line ++ [10]) tail (Or.inr ⟨before ++ line, rfl⟩) (by simp [hd]) rfl
        have hfirst : (before ++ line ++ [10]).length = before.length + line.length + 1 := by
          simp [Nat.add_assoc]
        have hlimit : f.added + (line ++ 10 :: tail).length
            = ((f.update (f.parser.withVersion (stripCR line))).advance (line.length + 1)).added
              + tail.length := by
          simp [advance, update]
          omega
        rw [if_pos hv, imp_iff_right hv, ← hheaders, hfirst, hlimit]
      · rw [if_neg hv, within_ok]
        exact ⟨fun _ h => absurd h hv, fun _ => Nat.le_add_right _ _⟩
    · rw [Classical.not_imp, not_not] at hstart
      obtain ⟨hs, rfl⟩ := hstart
      exact ⟨fun hw => absurd hw (hempty hs (Or.inr ⟨tail, rfl⟩)), fun h => absurd rfl (h.1 hs)⟩
  · rw [versionSafe_unfinished hmem]
    by_cases hstart : start = true → rest ≠ []
    · rw [parseVersion_unfinished f before rest hd hf hbefore hstart hmem, and_iff_right hstart]
      by_cases hv : IsVersion (stripCR rest)
      · rw [if_pos hv]
        exact ⟨fun hw => absurd hw not_within_error, fun h => absurd hv h⟩
      · rw [if_neg hv, within_ok]
        exact ⟨fun _ => hv, fun _ => Nat.le_add_right _ _⟩
    · rw [Classical.not_imp, not_not] at hstart
      obtain ⟨hs, rfl⟩ := hstart
      exact ⟨fun hw => absurd hw (hempty hs (Or.inl rfl)), fun h => absurd rfl (h.1 hs)⟩

theorem parseURI_within (f : Parsing) (before rest : Bytes) (hd : d = before ++ rest)
    (hf : first = before.length) :
    Within (f.parseURI d first) (f.added + rest.length) ↔ URISafe rest := by
  have hdrop : d.drop first = rest := by rw [hd, hf, List.drop_left]
  by_cases hmem : (32 : UInt8) ∈ rest
  · obtain ⟨token, tail, rfl, hno⟩ := List.eq_append_cons_of_mem hmem
    rw [uriSafe_token hno]
    by_cases hlong : toInt token.length + 1 < 0
    · rw [parseURI_long f before token tail hd hf hno hlong, within_ok]
      exact ⟨fun _ => Or.inl hlong, fun _ => Nat.le_add_right _ _⟩
    · rw [or_iff_right hlong, ← hdrop, ← decodeURI_ok _ _ Decoded.empty]
      by_cases hfit : 0 ≤ toInt token.length ∧ toInt token.length + 1 < 2 ^ 31 ∧
          ∃ t, decodeURI d first (toInt token.length).toNat Decoded.empty = .ok t
      · obtain ⟨h0, h1, t, ht⟩ := hfit
        have hlimit : f.added + (d.drop first).length
            = ((f.update (f.parser.setURI t)).advance (token.length + 1)).added + tail.length := by
          rw [hdrop]
          simp [advance, update]
          omega
        rw [parseURI_token f before token tail hd hf hno h0 h1 ht, hlimit,
          parseVersion_within false _ (before ++ token ++ [32]) tail (by simp [hd])
            (by simp [hf, Nat.add_assoc]) ⟨before ++ token, rfl⟩]
        exact ⟨fun h => ⟨h0, h1, ⟨t, ht⟩, h⟩, fun h => h.2.2.2⟩
      · constructor
        · rintro ⟨g, hg, -⟩
          exact absurd (parseURI_decoded f before token tail hd hf hno hlong hg) hfit
        · rintro ⟨h0, h1, ht, -⟩
          exact absurd ⟨h0, h1, ht⟩ hfit
  · rw [uriSafe_unfinished hmem]
    constructor
    · rintro ⟨g, hg, -⟩
      exact (parseURI_unfinished f before rest hd hf hmem hg).1
    · intro hlong
      unfold parseURI
      rw [find_blank_none before rest hd hf hmem, ok_bind, ParseURI_long f.parser rfl hlong, ok_bind]
      exact ⟨_, rfl, Nat.le_add_right _ _⟩

theorem parseMethod_within (f : Parsing) (before rest : Bytes) (hd : d = before ++ rest)
    (hf : first = before.length) :
    Within (f.parseMethod d first) (f.added + rest.length) ↔ MethodSafe rest := by
  by_cases hmem : (32 : UInt8) ∈ rest
  · obtain ⟨token, tail, rfl, hno⟩ := List.eq_append_cons_of_mem hmem
    rw [methodSafe_token hno]
    cases hm : methods token with
    | none =>
      rw [parseMethod_unknown f before token (32 :: tail) (by simp [hd]) hf
        (find_blank before token tail hd hf hno) hm, within_ok]
      exact ⟨fun _ h => absurd rfl h, fun _ => Nat.le_add_right _ _⟩
    | some method =>
      have hlimit : f.added + (token ++ 32 :: tail).length = ((f.update { f.parser with
          method_ := method, progress_ := .ParsingURI }).advance (token.length + 1)).added
            + tail.length := by
        simp [advance, update]
        omega
      rw [parseMethod_token f before token tail hd hf hno hm, imp_iff_right (by simp), hlimit]
      exact parseURI_within _ (before ++ token ++ [32]) tail (by simp [hd])
        (by simp [hf, Nat.add_assoc])
  · rw [methodSafe_unfinished hmem]
    constructor
    · rintro ⟨g, hg, -⟩
      by_contra hm
      exact parseMethod_unfinished f before rest hd hf hmem hm g hg
    · intro hm
      rw [parseMethod_unknown f before rest [] (by simp [hd]) hf
        (find_blank_none before rest hd hf hmem) hm, within_ok]
      exact Nat.le_add_right _ _

end Parsing

/--
**The bounds of `parse`.** In every state and on every block, `parse` reads inside the block,
builds only substrings that do not end before they begin and adds to `bytes_` at most the length
of the block, exactly when the block is a `SafeInput` for that state.
-/
theorem parse_in_bounds_iff (p : RequestParser) (d : Bytes) :
    (∃ f, p.parse d = .ok f ∧ 0 ≤ f.added ∧ f.added ≤ d.length) ↔ SafeInput p.progress_ d := by
  have hwithin : (∃ f, p.parse d = .ok f ∧ 0 ≤ f.added ∧ f.added ≤ d.length) ↔
      Within (p.parse d) (0 + d.length) := by
    rw [Nat.zero_add]
    exact ⟨fun ⟨f, hf, _, hle⟩ => ⟨f, hf, hle⟩, fun ⟨f, hf, hle⟩ => ⟨f, hf, Nat.zero_le _, hle⟩⟩
  rw [hwithin]
  unfold RequestParser.parse SafeInput
  cases p.progress_ with
  | ParsingMethod => exact Parsing.parseMethod_within _ [] d rfl rfl
  | ParsingURI => exact Parsing.parseURI_within _ [] d rfl rfl
  | ParsingVersion => exact Parsing.parseVersion_within true _ [] d rfl rfl rfl
  | ParsingHeaders => exact Parsing.parseHeaders_within _ [] d (Or.inl rfl) rfl rfl
  | Good | InvalidMethod | InvalidURI | InvalidVersion | InvalidHeader =>
    exact ⟨fun _ => trivial, fun _ => ⟨_, rfl, Nat.zero_le _⟩⟩

/-- A header without a value: the scan for its first byte runs through the blank line and out. -/
theorem parse_out_of_bounds :
    RequestParser.clear.parse (str "GET / HTTP/1.1\r\nAccept:\r\n\r\n") = .error .outOfBounds := by
  decide +kernel

end Liby.Http
