import Liby.Http.PlainHeaders
import Liby.Http.ReplyLine

/-!
# Complete replies

A well-formed reply as text, and what `parse` makes of it when all of it is there, from the start
and from the places where it can resume.
-/

namespace Liby.Http

open Infra ReplyParsing

/-- `value` is a decimal number between blanks. -/
def WritesNumber (value : Bytes) (n : Nat) : Prop :=
  ∃ blanks digits rest, value = blanks ++ (digits ++ rest) ∧
    (∀ c ∈ blanks, Cursor.isspace c = true) ∧ digits ≠ [] ∧ (∀ c ∈ digits, isdigit c = true) ∧
    (∀ c ∈ rest, Cursor.isspace c = true) ∧ digitsValue digits = n

/-- One blank and the digits write the number. -/
theorem writesNumber_blank {digits : Bytes} (hne : digits ≠ [])
    (hdigits : ∀ c ∈ digits, isdigit c = true) :
    WritesNumber (str " " ++ digits) (digitsValue digits) := by
  refine ⟨str " ", digits, [], ?_, ?_, hne, hdigits, ?_, rfl⟩
  · rw [List.append_nil]
  · decide +kernel
  · intro c hc
    cases hc

/-- `stoi` reads what a header value writes. -/
theorem WritesNumber.stoi_eq {value : Bytes} {n : Nat} (h : WritesNumber value n) (hn : n < 2 ^ 31) :
    stoi (headerValue value) = .ok n := by
  obtain ⟨blanks, digits, rest, rfl, hblanks, hne, hdigits, hrest, rfl⟩ := h
  have hvalue : headerValue (blanks ++ (digits ++ rest)) = digits ++ rest := by
    obtain ⟨c, cs, rfl⟩ := List.exists_cons_of_ne_nil hne
    have hc := isspace_of_isdigit (hdigits c List.mem_cons_self)
    unfold headerValue
    rw [List.dropWhile_append_of_pos hblanks, List.cons_append,
      List.dropWhile_cons_of_neg (by simp [hc])]
  have hend : ∀ c ∈ rest.head?, isdigit c = false := by
    intro c hc
    have hblank := hrest c (List.mem_of_head? hc)
    rw [← Bool.not_eq_true]
    intro hdigit
    rw [isspace_of_isdigit hdigit] at hblank
    cases hblank
  rw [hvalue]
  exact @stoi_digits [] digits rest (by simp) hne hdigits hend hn

/-- A complete reply: `HTTP/1.1 number reason CRLF`, header lines, blank line, body. -/
structure ReplyText where
  status : Int
  number : Bytes
  reason : Bytes
  headers : List HeaderText
  body : Bytes
  status_known : statusNumber status = some number
  reason_line : 10 ∉ reason
  /-- There is a header with the length of the body, and each such header tells it. -/
  length_header : ∃ h ∈ headers, h.name = str "Content-Length"
  length_value : ∀ h ∈ headers, h.name = str "Content-Length" → WritesNumber h.value body.length

/-! ## The length in the headers -/

theorem contentLength_ne : str "Content-Length" ≠ [] := by decide

theorem contentLength_token :
    ∀ c ∈ str "Content-Length", Cursor.isspace c = false ∧ c ≠ 58 := by decide +kernel

/-- The key of a name is the name. -/
theorem HeaderText.headerKey_name (h : HeaderText) : headerKey h.name = h.name := by
  refine List.rdropWhile_eq_self_iff.mpr fun hne => ?_
  rw [(h.name_token _ (List.getLast_mem hne)).1]
  exact Bool.false_ne_true

/-- `Content-Length` among some headers: the number that all of them write. -/
theorem stoi_length {n : Nat} (hn : n < 2 ^ 31) : ∀ (headers : List HeaderText) (headers_ : Headers),
    (∀ h ∈ headers, h.name = str "Content-Length" → WritesNumber h.value n) →
    stoi (headers_.get (str "Content-Length")) = .ok n ∨
      (∃ h ∈ headers, h.name = str "Content-Length") →
    stoi ((addHeaders headers_ headers).get (str "Content-Length")) = .ok n
  | [], headers_, _, hsome => hsome.resolve_right (by simp)
  | h :: headers, headers_, hvalue, hsome => by
    refine stoi_length hn headers _ (fun h' hh' => hvalue h' (List.mem_cons_of_mem h hh')) ?_
    dsimp only
    unfold Headers.get
    rw [h.headerKey_name, Headers.lookup_set]
    split
    · next heq => exact .inl ((hvalue h List.mem_cons_self heq.symm).stoi_eq hn)
    · next hne =>
      refine hsome.imp_right ?_
      rintro ⟨h', hh', hname⟩
      rcases List.mem_cons.mp hh' with rfl | hh'
      · exact absurd hname.symm hne
      · exact ⟨h', hh', hname⟩

namespace ReplyText

/-- The blank line and the body. -/
def ending (r : ReplyText) : Bytes := [13] ++ 10 :: r.body

/-- The reply from the status on. -/
def afterVersion (r : ReplyText) : Bytes :=
  r.number ++ 32 :: (r.reason ++ [13] ++ 10 :: (lines r.headers ++ r.ending))

/-- The reply. -/
def bytes (r : ReplyText) : Bytes := str "HTTP/1.1" ++ 32 :: r.afterVersion

/-- Every header value has a byte that is not blank. -/
def Filled (r : ReplyText) : Prop := ∀ h ∈ r.headers, h.Filled

/-- The map of the headers. -/
def headers_ (r : ReplyText) : Headers := addHeaders [] r.headers

theorem number_spec (r : ReplyText) : stoi r.number = .ok r.status ∧ 32 ∉ r.number := by
  obtain ⟨hstoi, hdigits, -, -⟩ := statusNumber_spec r.status_known
  exact ⟨hstoi, fun hc => absurd (hdigits 32 hc) (by decide)⟩

/-- One of the headers tells the length. -/
def TellsLength (headers : List HeaderText) : Prop := ∃ h ∈ headers, h.name = str "Content-Length"

/-- The length, once it is told. -/
theorem stoi_told {r : ReplyText} (hlen : r.body.length < 2 ^ 31) {hs hs' : List HeaderText}
    (hr : r.headers = hs ++ hs') (htold : TellsLength hs) :
    stoi ((addHeaders [] hs).get (str "Content-Length")) = .ok r.body.length :=
  stoi_length hlen hs [] (fun h hh => r.length_value h (by rw [hr]; exact List.mem_append_left hs' hh))
    (.inr htold)

theorem length_ending (r : ReplyText) : r.ending.length = 2 + r.body.length := by
  rw [ending, List.length_append, List.length_singleton, List.length_cons]
  omega

theorem length_afterVersion (r : ReplyText) : r.afterVersion.length =
    r.number.length + 1 + (r.reason.length + 2) + ((lines r.headers).length + r.ending.length) := by
  unfold afterVersion
  simp only [List.length_append, List.length_cons, List.length_nil]
  omega

theorem length_bytes (r : ReplyText) : r.bytes.length = 9 + r.afterVersion.length := by
  have h8 : (str "HTTP/1.1").length = 8 := rfl
  rw [bytes, List.length_append, List.length_cons]
  omega

end ReplyText

/-! ## The places where `parse` resumes -/

/-- The content is empty. -/
structure NoContent (p : ReplyParser) : Prop where
  wf : p.content_.Wf
  content : p.content_.contents = []

/-- A parser that is new or was cleared. -/
structure Cleared (p : ReplyParser) : Prop extends NoContent p where
  progress : p.progress_ = .ParseStarting
  bytes : p.bytes_ = 0
  headers : p.headers_ = []

theorem cleared_init (status_ : Int) : Cleared (.init status_) :=
  ⟨⟨Buffer.wf_init, rfl⟩, rfl, rfl, rfl⟩

theorem cleared_clear {p : ReplyParser} (h : p.content_.Wf) : Cleared p.clear :=
  ⟨⟨h.clear_ok.1, h.clear_ok.2⟩, rfl, rfl, rfl⟩

/-- A parser at the status. -/
structure AtStatus (p : ReplyParser) : Prop extends NoContent p where
  progress : p.progress_ = .ParsingStatus
  bytes : p.bytes_ = 9
  headers : p.headers_ = []

/-- A parser at the headers `hs'`, after the headers `hs`. -/
structure AtHeaders (r : ReplyText) (hs hs' : List HeaderText) (p : ReplyParser) : Prop
    extends NoContent p where
  split : r.headers = hs ++ hs'
  progress : p.progress_ = .ParsingHeaders
  status : p.status_ = r.status
  headers : p.headers_ = addHeaders [] hs
  nonneg : 0 ≤ p.bytes_
  bytes : p.bytes_ + (lines hs' ++ r.ending).length = r.bytes.length

/-- A parser at a body of `n` bytes. -/
structure AtBody (n : Nat) (p : ReplyParser) : Prop extends NoContent p where
  progress : p.progress_ = .ParsingBody
  told : stoi (p.headers_.get (str "Content-Length")) = .ok n
  nonneg : 0 ≤ p.bytes_
  room : p.bytes_ + n < 2 ^ 31

/-- A parser that has all of a reply. -/
structure Whole (r : ReplyText) (p : ReplyParser) : Prop where
  progress : p.progress_ = .Good
  status : p.status_ = r.status
  headers : p.headers_ = r.headers_
  bytes : p.bytes_ = r.bytes.length
  wf : p.content_.Wf
  content : p.content_.contents = r.body

/-! ## All of a reply -/

namespace ReplyParsing

variable {d before w rest after : Bytes} {first last : Nat} {r : ReplyText}

/-- From the start to the status. -/
theorem parse_version {p : ReplyParser} (hp : Cleared p)
    (h : InBlock d first last before (str "HTTP/1.1" ++ 32 :: w) after) :
    ∃ (f : ReplyParsing) (before' : Bytes), p.parse d first last = f.parseStatus d (first + 9) last ∧
      InBlock d (first + 9) last before' w after ∧ AtStatus f.parser := by
  let f : ReplyParsing := ({ parser := p, added := 0 } : ReplyParsing).update
    { p with progress_ := .ParsingVersion }
  let f1 := (f.update { f.parser with progress_ := .ParsingStatus }).advance 9
  have hzero : p.bytes_ = 0 := hp.bytes
  have h1 : f1.parser.bytes_ = p.bytes_ + (9 : Nat) :=
    toInt_of_lt (by dsimp only [f, update]; omega) (by dsimp only [f, update]; omega)
  refine ⟨f1, _, ?_, h.tail, ⟨⟨hp.wf, hp.content⟩, rfl, by omega, hp.headers⟩⟩
  unfold ReplyParser.parse
  rw [hp.progress]
  exact f.parseVersion_token h

/-- From the status to the headers. -/
theorem parseStatus_line {f : ReplyParsing} (hf : AtStatus f.parser)
    (h : InBlock d first last before (r.number ++ 32 :: (r.reason ++ [13] ++ 10 :: w)) after)
    (hlen : r.bytes.length < 2 ^ 31) :
    ∃ (f' : ReplyParsing) (first' : Nat) (before' : Bytes),
      f.parseStatus d first last = f'.parseHeaders d first' last ∧
      InBlock d first' last before' w after ∧ AtLineStart before' ∧
      AtHeaders r [] r.headers f'.parser := by
  obtain ⟨hstoi, hblank⟩ := r.number_spec
  have hbytes := hf.bytes
  have hlength := r.length_bytes
  have hlength' := r.length_afterVersion
  let f1 := (f.update { f.parser with progress_ := .ParsingStatusString, status_ := r.status }).advance
    (r.number.length + 1)
  let f2 := (f1.update { f1.parser with progress_ := .ParsingHeaders }).advance (r.reason.length + 2)
  have h1 : f1.parser.bytes_ = f.parser.bytes_ + (r.number.length + 1 : Nat) :=
    toInt_of_lt (by dsimp only [update]; omega) (by dsimp only [update]; omega)
  have h2 : f2.parser.bytes_ = f1.parser.bytes_ + (r.reason.length + 2 : Nat) :=
    toInt_of_lt (by dsimp only [update]; omega) (by dsimp only [update]; omega)
  have hstart := f.parseStatus_token h hblank hstoi (by rw [r.status_known]; rfl)
  have hnext := f1.parseStatusString_line h.tail (by simp [r.reason_line]) (by simp)
  have hcount : (r.reason ++ [13]).length + 1 = r.reason.length + 2 := by simp
  rw [hcount] at hnext
  refine ⟨f2, _, _, hstart.trans hnext, h.tail.tail, .inr ⟨_, rfl⟩, ⟨⟨hf.wf, hf.content⟩, rfl, rfl, rfl, hf.headers,
    by omega, ?_⟩⟩
  rw [List.length_append]
  omega

theorem lines_append (hs hs' : List HeaderText) : lines (hs ++ hs') = lines hs ++ lines hs' := by
  simp [lines]

end ReplyParsing

open ReplyParsing

variable {r : ReplyText} {f : ReplyParsing} {hs hs' m : List HeaderText}

/-- After some more of the headers. -/
theorem AtHeaders.foldl (hf : AtHeaders r hs (m ++ hs') f.parser) (hlen : r.bytes.length < 2 ^ 31) :
    AtHeaders r (hs ++ m) hs' (m.foldl addHeader f).parser ∧
      (m.foldl addHeader f).parser.bytes_ = f.parser.bytes_ + (lines m).length := by
  have hbytes := hf.bytes
  have hnonneg := hf.nonneg
  rw [lines_append, List.append_assoc, List.length_append] at hbytes
  have hparser := foldl_addHeader m f hnonneg (by omega)
  rw [hparser]
  refine ⟨⟨⟨hf.wf, hf.content⟩, by rw [hf.split, List.append_assoc], hf.progress, hf.status, ?_, ?_, ?_⟩,
    rfl⟩
  · dsimp only
    rw [addHeaders_append, ← hf.headers]
  · dsimp only
    omega
  · dsimp only
    omega

/-- After a line that is taken for the blank line. -/
theorem AtHeaders.body (hf : AtHeaders r hs hs' f.parser) (hlen : r.bytes.length < 2 ^ 31)
    (htold : ReplyText.TellsLength hs) :
    AtBody r.body.length (f.blankLine 2).parser ∧ (f.blankLine 2).parser.bytes_ = f.parser.bytes_ + 2 := by
  have hbytes := hf.bytes
  have hnonneg := hf.nonneg
  have hending := r.length_ending
  rw [List.length_append] at hbytes
  have htwo : toInt (f.parser.bytes_ + (2 : Nat)) = f.parser.bytes_ + 2 :=
    toInt_of_lt (by omega) (by omega)
  have hstoi := ReplyText.stoi_told (by omega) hf.split htold
  rw [← hf.headers] at hstoi
  have hcount : (f.blankLine 2).parser.bytes_ = f.parser.bytes_ + 2 := htwo
  exact ⟨⟨⟨hf.wf, hf.content⟩, rfl, hstoi, by omega, by omega⟩, hcount⟩

/-- The headers that are to come, and the blank line. -/
theorem AtHeaders.blank (hf : AtHeaders r hs hs' f.parser) (hlen : r.bytes.length < 2 ^ 31) :
    AtHeaders r r.headers [] (hs'.foldl addHeader f).parser ∧
      AtBody r.body.length ((hs'.foldl addHeader f).blankLine 2).parser ∧
      ((hs'.foldl addHeader f).blankLine 2).parser.bytes_ = (hs'.foldl addHeader f).parser.bytes_ + 2 := by
  have hr : hs ++ hs' = r.headers := hf.split.symm
  rw [← List.append_nil hs'] at hf
  obtain ⟨hat, -⟩ := hf.foldl hlen
  rw [hr] at hat
  exact ⟨hat, hat.body hlen r.length_header⟩

namespace ReplyParsing

variable {d before w rest after : Bytes} {first last : Nat}

/-- **The headers that are to come, the blank line and the body.** -/
theorem parseHeaders_complete (hf : AtHeaders r hs hs' f.parser)
    (h : InBlock d first last before (lines hs' ++ (r.ending ++ rest)) after)
    (hfilled : r.Filled) (hlen : r.bytes.length < 2 ^ 31) :
    ∃ g, f.parseHeaders d first last = .ok g ∧ Whole r g.parser := by
  have hblock : InBlock d first last before (lines hs' ++ ([13] ++ 10 :: (r.body ++ rest))) after := by
    simpa [ReplyText.ending] using h
  obtain ⟨hat, hbody, hcount⟩ := hf.blank hlen
  have hbytes := hat.bytes
  have hending := r.length_ending
  have hnil : (lines [] ++ r.ending).length = r.ending.length := rfl
  obtain ⟨content_, hwf, hcontents, hparse⟩ := ((hs'.foldl addHeader f).blankLine 2).parseBody_whole
    hblock.drop.tail hbody.told hbody.wf hbody.content hbody.nonneg hbody.room
  refine ⟨_, (parseHeaders_lines hs' f hblock fun h hh => hfilled h (by
      rw [hf.split]
      exact List.mem_append_right hs hh)).trans
    ((parseHeaders_blank _ hblock.drop (by decide) (by decide)).trans hparse), ?_⟩
  refine ⟨rfl, hat.status, ?_, ?_, hwf, hcontents⟩
  · show (hs'.foldl addHeader f).parser.headers_ = r.headers_
    rw [hat.headers]
    rfl
  · show ((hs'.foldl addHeader f).blankLine 2).parser.bytes_ + r.body.length = r.bytes.length
    omega

/-- **A complete reply is taken up as a whole**, whatever comes after it. -/
theorem parse_complete {p : ReplyParser} (hp : Cleared p)
    (h : InBlock d first last before (r.bytes ++ rest) after) (hfilled : r.Filled)
    (hlen : r.bytes.length < 2 ^ 31) :
    ∃ g, p.parse d first last = .ok g ∧ Whole r g.parser := by
  have hblock : InBlock d first last before (str "HTTP/1.1" ++ 32 :: (r.number ++ 32 :: (r.reason ++ [13]
      ++ 10 :: (lines r.headers ++ (r.ending ++ rest))))) after := by
    simpa [ReplyText.bytes, ReplyText.afterVersion] using h
  obtain ⟨f, before1, hversion, hblock1, hf⟩ := parse_version hp hblock
  obtain ⟨f', first', before2, hstatus, hblock2, -, hf'⟩ := parseStatus_line hf hblock1 hlen
  obtain ⟨g, hg, hwhole⟩ := parseHeaders_complete hf' hblock2 hfilled hlen
  exact ⟨g, hversion.trans (hstatus.trans hg), hwhole⟩

end ReplyParsing

end Liby.Http
