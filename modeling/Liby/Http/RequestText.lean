import Liby.Http.RequestLine

/-!
# Complete requests

A well-formed request as text, and what `parse` does with a block that starts with lines of it.
The block may end after any of the lines: the parser takes up the lines that are there, and
what it becomes does not depend on where the block ends.
-/

namespace Liby.Http

open Infra

/-! ## The text of a request -/

/-- A header line `name:value`. -/
structure HeaderText where
  name : Bytes
  value : Bytes
  name_ne : name ≠ []
  name_token : ∀ c ∈ name, Cursor.isspace c = false ∧ c ≠ 58
  value_line : 10 ∉ value

namespace HeaderText

/-- The line without its LF. -/
def line (h : HeaderText) : Bytes := h.name ++ 58 :: h.value ++ [13]

/-- The value has a byte that is not blank. -/
def Filled (h : HeaderText) : Prop := ∃ c ∈ h.value, Cursor.isspace c = false

instance (h : HeaderText) : Decidable h.Filled :=
  inferInstanceAs (Decidable (∃ c ∈ h.value, Cursor.isspace c = false))

theorem name_filled (h : HeaderText) : ∃ c ∈ h.name, Cursor.isspace c = false := by
  obtain ⟨c, hc⟩ := List.exists_mem_of_ne_nil _ h.name_ne
  exact ⟨c, hc, (h.name_token c hc).1⟩

theorem colon_not_mem (h : HeaderText) : 58 ∉ h.name := fun hc => (h.name_token 58 hc).2 rfl

theorem lf_not_mem (h : HeaderText) : 10 ∉ h.line := by
  have hname : (10 : UInt8) ∉ h.name := fun hc => by
    have hspace := (h.name_token 10 hc).1
    rw [Cursor.isspace_LF] at hspace
    cases hspace
  simp [line, hname, h.value_line]

theorem one_lt_length (h : HeaderText) : 1 < h.line.length := by
  simp [line]
  omega

theorem stripCR_line (h : HeaderText) : stripCR h.line = h.name ++ 58 :: h.value :=
  stripCR_snoc _

end HeaderText

/-- The header lines and the blank line. -/
def headersBytes (headers : List HeaderText) : Bytes :=
  (headers.flatMap fun h => h.line ++ [10]) ++ [13, 10]

theorem headersBytes_cons (h : HeaderText) (hs : List HeaderText) :
    headersBytes (h :: hs) = h.line ++ 10 :: headersBytes hs := by
  simp [headersBytes]

/-- A complete request: `method SP uri SP HTTP/1.x CRLF`, header lines, blank line. -/
structure RequestText where
  method : Bytes
  uri : Bytes
  http11 : Bool
  headers : List HeaderText
  method_known : methods method ≠ none
  uri_ne : uri ≠ []
  uri_token : 32 ∉ uri ∧ 10 ∉ uri ∧ 13 ∉ uri

theorem methods_get : methods (str "GET") ≠ none := by decide

namespace RequestText

/-- `HTTP/1.1` or `HTTP/1.0`. -/
def version (r : RequestText) : Bytes := if r.http11 then str "HTTP/1.1" else str "HTTP/1.0"

/-- The first line without its LF. -/
def line (r : RequestText) : Bytes := r.method ++ 32 :: (r.uri ++ 32 :: (r.version ++ [13]))

/-- The request. -/
def bytes (r : RequestText) : Bytes := r.line ++ 10 :: headersBytes r.headers

theorem length_version (r : RequestText) : r.version.length = 8 := by
  unfold version
  split <;> rfl

theorem isVersion_version (r : RequestText) : IsVersion r.version := by
  unfold version
  split <;> decide

theorem version_not_mem (r : RequestText) : 10 ∉ r.version := by
  unfold version
  split <;> decide

end RequestText

theorem RequestText.length_line (r : RequestText) :
    r.line.length = r.method.length + 1 + r.uri.length + 10 := by
  simp only [line, List.length_append, List.length_cons, r.length_version, List.length_nil]
  omega

/-- The names of the methods. -/
theorem methods_cases {name : Bytes} (h : methods name ≠ none) :
    name = str "GET" ∨ name = str "POST" ∨ name = str "HEAD" ∨ name = str "OPTIONS" := by
  unfold methods at h
  split_ifs at h with h1 h2 h3 h4
  · exact Or.inl h1
  · exact Or.inr (Or.inl h2)
  · exact Or.inr (Or.inr (Or.inl h3))
  · exact Or.inr (Or.inr (Or.inr h4))
  · exact absurd rfl h

theorem methods_token {name : Bytes} (h : methods name ≠ none) : 32 ∉ name ∧ 10 ∉ name := by
  rcases methods_cases h with h | h | h | h <;> rw [h] <;> decide

theorem RequestText.method_token (r : RequestText) : 32 ∉ r.method ∧ 10 ∉ r.method :=
  methods_token r.method_known

theorem RequestText.lf_not_mem (r : RequestText) : 10 ∉ r.line := by
  simp [line, r.method_token.2, r.uri_token.2.1, r.version_not_mem]

/-! ## What the parser becomes -/

namespace RequestParser

/-- `bytes_ += n`. -/
def count (p : RequestParser) (n : Nat) : RequestParser :=
  { p with bytes_ := toInt (p.bytes_ + n) }

/-- After a header line. -/
def addHeader (p : RequestParser) (h : HeaderText) : RequestParser :=
  { p with headers_ := p.headers_.set (headerKey h.name) (headerValue h.value) }.count
    (h.line.length + 1)

/-- After the blank line. -/
def complete (p : RequestParser) : RequestParser := { p with progress_ := .Good }.count 2

@[simp] theorem setURI_bytes (p : RequestParser) (t : Decoded) :
    (p.setURI t).bytes_ = p.bytes_ := rfl

@[simp] theorem withVersion_bytes (p : RequestParser) (line : Bytes) :
    (p.withVersion line).bytes_ = p.bytes_ := rfl

theorem count_bytes {p : RequestParser} {n : Nat} (h0 : 0 ≤ p.bytes_)
    (h : p.bytes_ + n < 2 ^ 31) : (p.count n).bytes_ = p.bytes_ + n :=
  toInt_of_lt (by omega) h

end RequestParser

namespace Parsing

variable {d : Bytes} {first : Nat}

/-- A header line that is there. -/
theorem parseHeaders_text (f : Parsing) (before rest : Bytes) {h : HeaderText}
    (hd : d = before ++ (h.line ++ 10 :: rest)) (hf : first = before.length) (hfilled : h.Filled) :
    f.parseHeaders d first =
      ({ parser := f.parser.addHeader h, added := f.added + (h.line.length + 1) } : Parsing).parseHeaders
        d (before.length + h.line.length + 1) := by
  have hheader : ParseHeader f.parser.headers_ d first (before.length + (stripCR h.line).length)
      = .ok (f.parser.headers_.set (headerKey h.name) (headerValue h.value)) := by
    rw [h.stripCR_line]
    exact ParseHeader_ok _ before h.name h.value ([13] ++ 10 :: rest)
      (by simp [hd, HeaderText.line]) hf rfl h.colon_not_mem h.name_filled hfilled
  rw [parseHeaders_line f before h.line rest hd hf h.lf_not_mem h.one_lt_length, hheader, ok_bind]
  rfl

/-- A header line whose value is blank is not taken. -/
theorem parseHeaders_blankValue (f g : Parsing) (before rest : Bytes) {h : HeaderText}
    (hd : d = before ++ (h.line ++ 10 :: rest)) (hf : first = before.length)
    (hbefore : AtLineStart before) (hblank : ¬h.Filled) : f.parseHeaders d first ≠ .ok g := by
  rw [parseHeaders_line f before h.line rest hd hf h.lf_not_mem h.one_lt_length]
  intro hok
  obtain ⟨headers', hheader, -⟩ := bind_eq_ok.mp hok
  rw [h.stripCR_line] at hheader
  obtain ⟨name, value, hline, hcolon, -, hvalue⟩ := headerLine_of_ParseHeader before
    (h.name ++ 58 :: h.value) ([13] ++ 10 :: rest) (by simp [hd, HeaderText.line]) hf rfl hbefore
    (fun c hc => by cases hc; exact Cursor.isspace_CR) hheader
  obtain ⟨-, rfl⟩ := token_unique hline h.colon_not_mem hcolon
  exact hblank hvalue

end Parsing

/-! ## The first line -/

theorem escapesFit_of_le : ∀ (n : Nat) (rest : Bytes), n + 2 ≤ rest.length → EscapesFit n rest := by
  intro n
  induction n using Nat.strong_induction_on with
  | _ n ih =>
    intro rest hle
    cases n with
    | zero => simp [EscapesFit]
    | succ n =>
      cases rest with
      | nil => simp at hle
      | cons c rest =>
        simp only [List.length_cons] at hle
        rw [EscapesFit]
        split
        · refine ⟨by omega, ?_⟩
          by_cases hn : n - 2 = 0
          · rw [hn]
            simp [EscapesFit]
          · exact ih (n - 2) (by omega) _ (by rw [List.length_drop]; omega)
        · exact ih n (by omega) rest (by omega)

theorem readAt_append {x : Bytes} {n : Nat} (h : n < x.length) (y : Bytes) :
    readAt (x ++ y) n = readAt x n := by
  unfold readAt
  rw [List.getElem?_append_left h]

/-- The decoding does not depend on what comes more than two bytes after the token. -/
theorem decodeURI_append (x y : Bytes) : ∀ (n src : Nat) (t : Decoded), src + n + 2 ≤ x.length →
    decodeURI (x ++ y) src n t = decodeURI x src n t := by
  intro n
  induction n using Nat.strong_induction_on with
  | _ n ih =>
    intro src t hle
    cases n with
    | zero => rw [decodeURI, decodeURI]
    | succ n =>
      have hhex : parseHex (x ++ y) (src + 1) = parseHex x (src + 1) := by
        unfold parseHex
        rw [readAt_append (by omega), readAt_append (by omega)]
      have hskip : ∀ t', decodeURI (x ++ y) (src + 3) (n - 2) t' = decodeURI x (src + 3) (n - 2) t' := by
        intro t'
        by_cases hn : n - 2 = 0
        · rw [hn, decodeURI, decodeURI]
        · exact ih (n - 2) (by omega) (src + 3) t' (by omega)
      rw [decodeURI, decodeURI, readAt_append (by omega), hhex]
      simp only [hskip, ih n (by omega) (src + 1) _ (by omega)]

namespace RequestText

/-- What `ParseURI` makes of the URI. -/
def decoded (r : RequestText) : Decoded :=
  match decodeURI r.line (r.method.length + 1) r.uri.length Decoded.empty with
  | .ok t => t
  | .error _ => Decoded.empty

theorem decodeURI_line (r : RequestText) (y : Bytes) :
    decodeURI (r.line ++ y) (r.method.length + 1) r.uri.length Decoded.empty = .ok r.decoded := by
  have hlen := r.length_line
  rw [decodeURI_append r.line y _ _ _ (by omega)]
  obtain ⟨t, ht⟩ := (decodeURI_ok (d := r.line) r.uri.length (r.method.length + 1) Decoded.empty).mpr
    (escapesFit_of_le _ _ (by rw [List.length_drop]; omega))
  unfold decoded
  rw [ht]

end RequestText

namespace RequestParser

/-- After the method. -/
def startMethod (p : RequestParser) (r : RequestText) : RequestParser :=
  { p with
    method_ := (methods r.method).getD .INVALID_METHOD
    progress_ := .ParsingURI }.count (r.method.length + 1)

/-- After the URI. -/
def startURI (p : RequestParser) (r : RequestText) : RequestParser :=
  ((p.startMethod r).setURI r.decoded).count (r.uri.length + 1)

/-- After the first line. -/
def startLine (p : RequestParser) (r : RequestText) : RequestParser :=
  ((p.startURI r).withVersion r.version).count (r.version.length + 2)

theorem startLine_bytes {p : RequestParser} (r : RequestText) (h0 : 0 ≤ p.bytes_)
    (hlen : p.bytes_ + (r.line.length + 1) < 2 ^ 31) :
    (p.startLine r).bytes_ = p.bytes_ + (r.line.length + 1) := by
  have hline := r.length_line
  have h8 := r.length_version
  have h1 : (p.startMethod r).bytes_ = p.bytes_ + (r.method.length + 1 : Nat) :=
    toInt_of_lt (by dsimp only; omega) (by dsimp only; omega)
  have h2 : (p.startURI r).bytes_ = (p.startMethod r).bytes_ + (r.uri.length + 1 : Nat) :=
    toInt_of_lt (by rw [setURI_bytes, h1]; omega) (by rw [setURI_bytes, h1]; omega)
  have h3 : (p.startLine r).bytes_ = (p.startURI r).bytes_ + (r.version.length + 2 : Nat) :=
    toInt_of_lt (by rw [withVersion_bytes, h2, h1]; omega)
      (by rw [withVersion_bytes, h2, h1]; omega)
  rw [h3, h2, h1]
  omega

end RequestParser

/-- **The stages of a first line**: the method, the URI and the version. -/
theorem Parsing.parseMethod_firstLine {d : Bytes} (f : Parsing) (method uri version rest : Bytes)
    {m : Method} {t : Decoded} (hd : d = method ++ 32 :: (uri ++ 32 :: (version ++ [13] ++ 10 :: rest)))
    (hm : methods method = some m) (huri : 32 ∉ uri) (hversion : IsVersion version)
    (hlf : 10 ∉ version) (hlen : uri.length + 1 < 2 ^ 31)
    (ht : decodeURI d (method.length + 1) uri.length Decoded.empty = .ok t) :
    f.parseMethod d 0 =
      ({ parser := ((((({ f.parser with method_ := m, progress_ := .ParsingURI } :
          RequestParser).count (method.length + 1)).setURI t).count (uri.length + 1)).withVersion
          version).count (version.length + 2)
         added := f.added + (method.length + 1) + (uri.length + 1) + (version.length + 2) } :
        Parsing).parseHeaders d (method.length + 1 + (uri.length + 1) + (version.length + 2)) := by
  have hlength : toInt uri.length = uri.length := toInt_of_lt (by omega) (by omega)
  have hdecode : decodeURI d (method.length + 1) (toInt uri.length).toNat Decoded.empty = .ok t := by
    rw [hlength, Int.toNat_natCast]
    exact ht
  have hmethod : 32 ∉ method := (methods_token (hm ▸ Option.some_ne_none m)).1
  let f1 : Parsing := (f.update { f.parser with
    method_ := m, progress_ := .ParsingURI }).advance (method.length + 1)
  let f2 : Parsing := (f1.update (f1.parser.setURI t)).advance (uri.length + 1)
  have h1 : f.parseMethod d 0 = f1.parseURI d (0 + method.length + 1) :=
    parseMethod_token f [] method _ hd rfl hmethod hm
  have h2 : f1.parseURI d (method.length + 1)
      = f2.parseVersion d (method.length + 1 + uri.length + 1) :=
    parseURI_token f1 (method ++ [32]) uri (version ++ [13] ++ 10 :: rest) (by simp [hd])
      (by simp) huri (by omega) (by omega) hdecode
  have hbefore : BeforeVersion false (method ++ 32 :: uri ++ [32]) := ⟨method ++ 32 :: uri, rfl⟩
  have h3 := parseVersion_line f2 (method ++ 32 :: uri ++ [32]) (version ++ [13]) rest
    (d := d) (by simp [hd]) rfl hbefore (by simp) (by simp [hlf])
  rw [stripCR_snoc, if_pos hversion] at h3
  have hfirst : (method ++ 32 :: uri ++ [32]).length = method.length + 1 + uri.length + 1 := by
    simp
    omega
  have hlast : method.length + 1 + uri.length + 1 + (version ++ [13]).length + 1
      = method.length + 1 + (uri.length + 1) + (version.length + 2) := by
    simp
    omega
  have hcount : (version ++ [13]).length + 1 = version.length + 2 := by simp
  rw [hfirst, hlast, hcount] at h3
  rw [h1, Nat.zero_add, h2, h3]
  rfl

/-- **The first line of a request.** -/
theorem Parsing.parseMethod_text (f : Parsing) (r : RequestText) (rest : Bytes)
    (hlen : r.line.length + 1 < 2 ^ 31) :
    f.parseMethod (r.line ++ 10 :: rest) 0 =
      ({ parser := f.parser.startLine r, added := f.added + (r.line.length + 1) } : Parsing).parseHeaders
        (r.line ++ 10 :: rest) (r.line.length + 1) := by
  have hline := r.length_line
  have h8 := r.length_version
  obtain ⟨method, hmethod⟩ := Option.ne_none_iff_exists'.mp r.method_known
  have hfirst := f.parseMethod_firstLine r.method r.uri r.version rest (d := r.line ++ 10 :: rest)
    (by simp [RequestText.line]) hmethod r.uri_token.1 r.isVersion_version r.version_not_mem
    (by omega) (r.decodeURI_line _)
  have hlast : r.method.length + 1 + (r.uri.length + 1) + (r.version.length + 2)
      = r.line.length + 1 := by omega
  have hadded : f.added + (r.method.length + 1) + (r.uri.length + 1) + (r.version.length + 2)
      = f.added + (r.line.length + 1) := by omega
  rw [hfirst, hlast, hadded]
  simp only [RequestParser.startLine, RequestParser.startURI, RequestParser.startMethod, hmethod,
    Option.getD_some]

end Liby.Http
