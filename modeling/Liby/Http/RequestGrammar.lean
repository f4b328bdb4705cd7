import Liby.Http.RequestBounds
import Liby.Http.RequestText

/-!
# The grammar of a request

A byte string that contains its whole header block, the grammar of that block, and what
`RequestParser::parse` makes of it. The searches of `parse` do not stop at the end of a line, a line
of any one byte is taken for the blank one, and no header line is ever reported as an error.
-/

namespace Liby.Http

open Infra

/-! ## The grammar -/

/-- Lines with their LFs. -/
def linesBytes (lines : List Bytes) : Bytes := lines.flatMap fun line => line ++ [10]

/-- The lines of a byte string up to the first blank one, and that one. -/
structure HeaderBlock where
  lines : List Bytes
  blank : Bytes
  full : ∀ line ∈ lines, 10 ∉ line ∧ ¬IsBlank line
  isBlank : IsBlank blank

namespace HeaderBlock

/-- The bytes of the block. -/
def bytes (b : HeaderBlock) : Bytes := linesBytes b.lines ++ (b.blank ++ [10])

/-- The first line. -/
def first (b : HeaderBlock) : Bytes := b.lines.headD b.blank

/-- The header lines. -/
def headers (b : HeaderBlock) : List Bytes := b.lines.tail

end HeaderBlock

/-- A line that starts with a known method and a blank. -/
def KnownMethod (line : Bytes) : Prop :=
  ∃ method rest, line = method ++ 32 :: rest ∧ methods method ≠ none

/-- A line `method SP uri SP ..`. -/
def HasURI (line : Bytes) : Prop :=
  ∃ method uri rest, line = method ++ 32 :: (uri ++ 32 :: rest) ∧ methods method ≠ none ∧
    uri ≠ [] ∧ 32 ∉ uri

/-- The versions of a request. -/
def KnownVersion (version : Bytes) : Prop := version = str "HTTP/1.1" ∨ version = str "HTTP/1.0"

/-- A line `method SP uri SP version`, up to a CR. -/
def IsRequestLine (line : Bytes) : Prop :=
  ∃ method uri version, line = method ++ 32 :: (uri ++ 32 :: version) ∧ methods method ≠ none ∧
    uri ≠ [] ∧ 32 ∉ uri ∧ KnownVersion (stripCR version)

/-- A line `name: value`, up to a CR. The value may be empty. -/
def IsField (line : Bytes) : Prop :=
  ∃ name value, stripCR line = name ++ 58 :: value ∧ 58 ∉ name ∧
    ∃ c ∈ name, Cursor.isspace c = false

/-- The name of a field, without the blanks before the colon. -/
def fieldKey (line : Bytes) : Bytes := headerKey ((stripCR line).takeWhile (· ≠ 58))

/-- The value of a field, without the blanks after the colon. -/
def fieldValue (line : Bytes) : Bytes := headerValue ((stripCR line).dropWhile (· ≠ 58)).tail

namespace HeaderBlock

/-- A block that the grammar accepts. -/
def WellFormed (b : HeaderBlock) : Prop :=
  IsRequestLine b.first ∧ ∀ line ∈ b.headers, IsField line

/-- The part of a block that does not fit the grammar, by the error it is to end in. -/
inductive Offends (b : HeaderBlock) : RequestProgress → Prop
  | method (h : ¬KnownMethod b.first) : Offends b .InvalidMethod
  | uri (hmethod : KnownMethod b.first) (h : ¬HasURI b.first) : Offends b .InvalidURI
  | version (huri : HasURI b.first) (h : ¬IsRequestLine b.first) : Offends b .InvalidVersion
  | header {line : Bytes} (hfirst : IsRequestLine b.first) (hline : line ∈ b.headers)
      (h : ¬IsField line) : Offends b .InvalidHeader

end HeaderBlock

/-- A parser that has read the block by the grammar. -/
structure ReadsBlock (b : HeaderBlock) (p : RequestParser) : Prop where
  good : p.progress_ = .Good ↔ b.WellFormed
  bytes_ : b.WellFormed → p.bytes_ = b.bytes.length
  fields : b.WellFormed → ∀ key value, p.headers_.lookup key = some value ↔
    ∃ line ∈ b.headers, fieldKey line = key ∧ fieldValue line = value
  offends : ∀ progress_, b.Offends progress_ → p.progress_ = progress_

/-- The blocks of the grammar that `parse` takes. -/
structure HeaderBlock.Taken (b : HeaderBlock) : Prop where
  wellFormed : b.WellFormed
  length : b.bytes.length < 2 ^ 31
  values : ∀ line ∈ b.headers, fieldValue line ≠ []
  once : ∀ line ∈ b.headers, ∀ line' ∈ b.headers, fieldKey line = fieldKey line' →
    fieldValue line = fieldValue line'

/-- The blocks that `parse` reads by the grammar, with what comes after them. -/
inductive HeaderBlock.Regular (b : HeaderBlock) (rest : Bytes) : Prop
  | method (h : ¬KnownMethod b.first)
  -- the token that is taken for the URI is no `int` in length
  | uri {method after : Bytes} (hd : b.bytes ++ rest = method ++ 32 :: after)
      (hmethod : methods method ≠ none) (h : ¬HasURI b.first)
      (hlong : toInt (after.takeWhile (· ≠ 32)).length + 1 < 0)
  | version {method uri version : Bytes} (hline : b.first = method ++ 32 :: (uri ++ 32 :: version))
      (hmethod : methods method ≠ none) (hne : uri ≠ []) (huri : 32 ∉ uri)
      (h0 : 0 ≤ toInt uri.length) (h1 : toInt uri.length + 1 < 2 ^ 31)
      (h : ¬IsVersion (stripCR version))
  | good (h : b.Taken)

variable {d line : Bytes} {first : Nat} {b : HeaderBlock}

/-! ## Fields -/

theorem field_eq {name value : Bytes} (hline : stripCR line = name ++ 58 :: value)
    (hcolon : 58 ∉ name) : fieldKey line = headerKey name ∧ fieldValue line = headerValue value := by
  unfold fieldKey fieldValue
  rw [hline, takeWhile_token hcolon, tail_dropWhile_token hcolon]
  exact ⟨rfl, rfl⟩

theorem headerValue_ne_nil {value : Bytes} :
    headerValue value ≠ [] ↔ ∃ c ∈ value, Cursor.isspace c = false := by
  rw [headerValue, ne_eq, List.dropWhile_eq_nil_iff]
  simp

/-- The map with the fields of some lines. -/
def setFields (headers_ : Headers) (lines : List Bytes) : Headers :=
  lines.foldl (fun headers_ line => headers_.set (fieldKey line) (fieldValue line)) headers_

/-- What is in the map comes from a line, or was there before. -/
theorem lookup_setFields {key value : Bytes} : ∀ (lines : List Bytes) {headers_ : Headers},
    (setFields headers_ lines).lookup key = some value →
    (∃ line ∈ lines, fieldKey line = key ∧ fieldValue line = value) ∨
      headers_.lookup key = some value
  | [], _, h => .inr h
  | line :: lines, headers_, h => by
    rcases lookup_setFields lines h with ⟨line', hmem, hfield⟩ | hbefore
    · exact .inl ⟨line', List.mem_cons_of_mem line hmem, hfield⟩
    · rw [Headers.lookup_set] at hbefore
      split at hbefore
      · next hkey =>
        cases hbefore
        exact .inl ⟨line, List.mem_cons_self, hkey.symm, rfl⟩
      · exact .inr hbefore

theorem isSome_lookup_setFields {key : Bytes} : ∀ (lines : List Bytes) (headers_ : Headers),
    ((∃ line ∈ lines, fieldKey line = key) ∨ (headers_.lookup key).isSome) →
    ((setFields headers_ lines).lookup key).isSome
  | [], _, h => by simpa [setFields] using h
  | line :: lines, headers_, h => by
    refine isSome_lookup_setFields lines _ ?_
    dsimp only
    rw [Headers.lookup_set]
    by_cases hkey : key = fieldKey line
    · exact .inr (by rw [if_pos hkey]; rfl)
    · rw [if_neg hkey]
      rcases h with ⟨line', hmem, hfield⟩ | hbefore
      · rcases List.mem_cons.mp hmem with rfl | hmem
        · exact absurd hfield.symm hkey
        · exact .inl ⟨line', hmem, hfield⟩
      · exact .inr hbefore

/-- **The map holds every field exactly when no two fields of one name differ.** -/
theorem setFields_iff (lines : List Bytes) :
    (∀ key value, (setFields [] lines).lookup key = some value ↔
      ∃ line ∈ lines, fieldKey line = key ∧ fieldValue line = value) ↔
    ∀ line ∈ lines, ∀ line' ∈ lines, fieldKey line = fieldKey line' →
      fieldValue line = fieldValue line' := by
  constructor
  · intro h line hline line' hline' hkey
    have h1 := (h (fieldKey line) (fieldValue line)).mpr ⟨line, hline, rfl, rfl⟩
    have h2 := (h (fieldKey line) (fieldValue line')).mpr ⟨line', hline', hkey.symm, rfl⟩
    rw [h1] at h2
    exact Option.some.inj h2
  · intro honce key value
    constructor
    · intro h
      exact (lookup_setFields lines h).resolve_right (by simp)
    · rintro ⟨line, hline, rfl, rfl⟩
      obtain ⟨value, hvalue⟩ := Option.isSome_iff_exists.mp
        (isSome_lookup_setFields lines [] (.inl ⟨line, hline, rfl⟩))
      obtain ⟨line', hline', hkey, rfl⟩ := (lookup_setFields lines hvalue).resolve_right (by simp)
      rw [hvalue, honce line hline line' hline' hkey.symm]

/-! ## The loop over the headers -/

namespace Parsing

/-- `bytes_` is what was added, as an `int`. -/
def Counted (f : Parsing) : Prop := f.parser.bytes_ = toInt f.added

theorem Counted.advance {f : Parsing} (h : f.Counted) (n : Nat) : (f.advance n).Counted := by
  have hsum : toInt (toInt f.added + n) = toInt (f.added + n : Nat) := by
    unfold toInt
    rw [Int.bmod_add_bmod]
    rfl
  show toInt (f.parser.bytes_ + n) = toInt (f.added + n : Nat)
  rw [← hsum, h]

theorem Counted.update {f : Parsing} (h : f.Counted) {parser : RequestParser}
    (hbytes : parser.bytes_ = f.parser.bytes_) : (f.update parser).Counted := hbytes.trans h

/-- The parser with the field of a line. -/
def takeField (f : Parsing) (line : Bytes) : Parsing :=
  f.withHeaders (f.parser.headers_.set (fieldKey line) (fieldValue line)) (line.length + 1)

/-- **A field is taken exactly when its value is not empty.** -/
theorem parseHeaders_field (f : Parsing) (before tail : Bytes) {g : Parsing}
    (hd : d = before ++ (line ++ 10 :: tail)) (hf : first = before.length)
    (hbefore : AtLineStart before) (hno : 10 ∉ line) (hfield : IsField line) :
    f.parseHeaders d first = .ok g ↔ fieldValue line ≠ [] ∧
      (f.takeField line).parseHeaders d (before.length + line.length + 1) = .ok g := by
  obtain ⟨name, value, hline, hcolon, hname⟩ := hfield
  obtain ⟨hkey, hvalue⟩ := field_eq hline hcolon
  rw [parseHeaders_line f before line tail hd hf hno (one_lt_of_name hline hname), bind_eq_ok]
  constructor
  · rintro ⟨headers', hheader, hg⟩
    obtain ⟨name', value', hline', hcolon', -, hfilled, rfl⟩ :=
      (ParseHeader_eq_ok before line tail hd hf hbefore).mp hheader
    obtain ⟨rfl, rfl⟩ := token_unique (hline.symm.trans hline') hcolon hcolon'
    rw [takeField, hkey, hvalue]
    exact ⟨headerValue_ne_nil.mpr hfilled, hg⟩
  · rintro ⟨hfilled, hg⟩
    rw [takeField, hkey, hvalue] at hg
    rw [hvalue] at hfilled
    exact ⟨_, (ParseHeader_eq_ok before line tail hd hf hbefore).mpr
      ⟨name, value, hline, hcolon, hname, headerValue_ne_nil.mp hfilled, rfl⟩, hg⟩

/-- **The fields of a block are taken one by one, and the blank line ends them.** -/
theorem parseHeaders_fields {blank : Bytes} {g : Parsing} (rest : Bytes) (hblank : IsBlank blank) :
    ∀ (headers : List Bytes) {f : Parsing} (before : Bytes) {first : Nat},
    (∀ line ∈ headers, 10 ∉ line ∧ IsField line) →
    d = before ++ (linesBytes headers ++ (blank ++ 10 :: rest)) → first = before.length →
    AtLineStart before →
    (f.parseHeaders d first = .ok g ↔ (∀ line ∈ headers, fieldValue line ≠ []) ∧
      g = (headers.foldl takeField f).good (blank.length + 1))
  | [], f, before, first, _, hd, hf, _ => by
    obtain ⟨hno, hlen⟩ := isBlank_short hblank
    rw [parseHeaders_blank f before blank rest (by simpa [linesBytes] using hd) hf hno hlen,
      Except.ok.injEq]
    exact ⟨fun h => ⟨fun _ hmem => absurd hmem List.not_mem_nil, h.symm⟩, fun h => h.2.symm⟩
  | line :: headers, f, before, first, hall, hd, hf, hbefore => by
    obtain ⟨hno, hfield⟩ := hall line List.mem_cons_self
    have hd' : d = before ++ (line ++ 10 :: (linesBytes headers ++ (blank ++ 10 :: rest))) := by
      rw [hd]
      simp [linesBytes]
    rw [parseHeaders_field f before _ hd' hf hbefore hno hfield,
      parseHeaders_fields rest hblank headers (before ++ line ++ [10])
        (fun line' hmem => hall line' (List.mem_cons_of_mem line hmem)) (by rw [hd']; simp)
        (by simp [Nat.add_assoc]) (.inr ⟨_, rfl⟩), List.forall_mem_cons, and_assoc]
    rfl

/-- What the fields leave of the parser. -/
theorem foldl_takeField : ∀ (headers : List Bytes) {f : Parsing}, f.Counted →
    (headers.foldl takeField f).Counted ∧
    (headers.foldl takeField f).added = f.added + (linesBytes headers).length ∧
    (headers.foldl takeField f).parser.headers_ = setFields f.parser.headers_ headers
  | [], f, h => ⟨h, rfl, rfl⟩
  | line :: headers, f, h => by
    have hstep : (f.takeField line).Counted := (h.update rfl).advance _
    obtain ⟨hcounted, hadded, hheaders⟩ := foldl_takeField headers hstep
    refine ⟨hcounted, ?_, hheaders⟩
    have hline : (f.takeField line).added = f.added + (line.length + 1) := rfl
    rw [List.foldl_cons, hadded, hline]
    simp [linesBytes]
    omega

/-- The loop never reports an error. -/
theorem parseHeaders_progress (first : Nat) (f g : Parsing) (h : f.parseHeaders d first = .ok g) :
    g.parser.progress_ = .Good ∨ g.parser.progress_ = f.parser.progress_ := by
  rw [parseHeaders_eq] at h
  split at h
  · cases h
    exact .inr rfl
  · obtain ⟨finish, hfind, h⟩ := bind_eq_ok.mp h
    have hle := Cursor.le_of_find hfind
    split at h
    · cases h
      exact .inl rfl
    · obtain ⟨last, -, h⟩ := bind_eq_ok.mp h
      obtain ⟨headers_, -, h⟩ := bind_eq_ok.mp h
      have hnext := parseHeaders_progress (finish + 1) _ g h
      exact hnext
termination_by d.length + 1 - first

/-! ## The stages of the first line -/

/-- How a version stage ends that returns. -/
def PastURI (progress_ : RequestProgress) : Prop :=
  progress_ = .InvalidVersion ∨ progress_ = .ParsingHeaders ∨ progress_ = .Good

theorem parseVersion_progress {f g : Parsing} (h : f.parseVersion d first = .ok g) :
    PastURI g.parser.progress_ := by
  unfold parseVersion at h
  obtain ⟨finish, -, h⟩ := bind_eq_ok.mp h
  obtain ⟨last, -, h⟩ := bind_eq_ok.mp h
  obtain ⟨⟨flag, parser⟩, hversion, h⟩ := bind_eq_ok.mp h
  have hparser : flag = true ∧ parser.progress_ = .ParsingHeaders ∨
      flag = false ∧ parser.progress_ = .InvalidVersion := by
    unfold RequestParser.ParseHttpVersion at hversion
    obtain ⟨_, -, hversion⟩ := bind_eq_ok.mp hversion
    split_ifs at hversion <;> cases hversion <;> simp
  dsimp only at h
  rcases hparser with ⟨rfl, hprogress⟩ | ⟨rfl, hprogress⟩
  · rw [if_pos rfl] at h
    rcases parseHeaders_progress _ _ g h with hgood | hsame
    · exact .inr (.inr hgood)
    · exact .inr (.inl (hsame.trans hprogress))
  · cases h
    exact .inl hprogress

/-- **The URI stage reports an error exactly when the token is no `int` in length.** -/
theorem parseURI_progress {f g : Parsing} (before rest : Bytes) (hd : d = before ++ rest)
    (hf : first = before.length) (h : f.parseURI d first = .ok g) :
    g.parser.progress_ = .InvalidURI ∧ toInt (rest.takeWhile (· ≠ 32)).length + 1 < 0 ∨
      PastURI g.parser.progress_ := by
  have hfind : Cursor.find d first d.length 32
      = .ok (first + (rest.takeWhile (· ≠ 32)).length) := by
    by_cases hmem : (32 : UInt8) ∈ rest
    · obtain ⟨token, tail, rfl, hno⟩ := List.eq_append_cons_of_mem hmem
      rw [takeWhile_token hno]
      exact find_blank before token tail hd hf hno
    · rw [takeWhile_of_notMem hmem]
      exact find_blank_none before rest hd hf hmem
  unfold parseURI at h
  rw [hfind, ok_bind] at h
  by_cases hlong : toInt (rest.takeWhile (· ≠ 32)).length + 1 < 0
  · rw [ParseURI_long f.parser rfl hlong] at h
    cases h
    exact .inl ⟨rfl, hlong⟩
  · obtain ⟨r, hr, h⟩ := bind_eq_ok.mp h
    obtain ⟨h0, h1, t, ht⟩ := (ParseURI_cases rfl hr).resolve_left hlong
    rw [ParseURI_token f.parser rfl h0 h1 ht] at hr
    cases hr
    dsimp only at h
    rw [if_pos rfl] at h
    exact .inr (parseVersion_progress h)

/-- A token that is no `int` in length is an error. -/
theorem parseURI_tooLong (f : Parsing) (before rest : Bytes) (hd : d = before ++ rest)
    (hf : first = before.length) (hlong : toInt (rest.takeWhile (· ≠ 32)).length + 1 < 0) :
    f.parseURI d first = .ok (f.update { f.parser with progress_ := .InvalidURI }) := by
  by_cases hmem : (32 : UInt8) ∈ rest
  · obtain ⟨token, tail, rfl, hno⟩ := List.eq_append_cons_of_mem hmem
    rw [takeWhile_token hno] at hlong
    exact parseURI_long f before token tail hd hf hno hlong
  · rw [takeWhile_of_notMem hmem] at hlong
    unfold parseURI
    rw [find_blank_none before rest hd hf hmem, ok_bind, ParseURI_long f.parser rfl hlong]
    rfl

/-- A new parser at the start of a block. -/
def fresh : Parsing := { parser := .clear, added := 0 }

theorem counted_fresh : fresh.Counted := by
  show (0 : Int) = toInt 0
  decide

/-- A token without LF that a blank ends lies in the first line. -/
theorem line_of_token {token after tail : Bytes} (h : line ++ 10 :: tail = token ++ 32 :: after)
    (hno : 10 ∉ token) : ∃ rest, line = token ++ 32 :: rest ∧ after = rest ++ 10 :: tail := by
  rcases cut_token h with ⟨t, rfl, htail⟩ | ⟨rest, hline, hrest⟩
  · cases t with
    | nil => cases htail
    | cons c t =>
      cases htail
      simp at hno
  · exact ⟨rest, hline, hrest.symm⟩

/-- **A line that does not start with a known method is an error.** The token that is looked up may
go on behind the line, and is no method then. -/
theorem parseMethod_bad (tail : Bytes) (hd : d = line ++ 10 :: tail) (h : ¬KnownMethod line) :
    fresh.parseMethod d 0
      = .ok (fresh.update { fresh.parser with progress_ := .InvalidMethod }) := by
  by_cases hmem : (32 : UInt8) ∈ d
  · obtain ⟨token, after, hsplit, hno⟩ := List.eq_append_cons_of_mem hmem
    have hunknown : methods token = none := by
      by_contra hknown
      obtain ⟨rest, hline, -⟩ := line_of_token (hd ▸ hsplit) (methods_token hknown).2
      exact h ⟨token, rest, hline, hknown⟩
    exact parseMethod_unknown fresh [] token (32 :: after) (by simp [hsplit]) rfl
      (find_blank [] token after hsplit rfl hno) hunknown
  · have hunknown : methods d = none := by
      by_contra hknown
      have hno := (methods_token hknown).2
      rw [hd] at hno
      simp at hno
    exact parseMethod_unknown fresh [] d [] (by simp) rfl
      (find_blank_none [] d rfl rfl hmem) hunknown

/-- The parser has taken `n` bytes and no header. -/
structure Reached (f : Parsing) (n : Nat) : Prop where
  counted : f.Counted
  added : f.added = n
  headers : f.parser.headers_ = []

/-- **The method.** -/
theorem parseMethod_known {method after : Bytes} (hd : d = method ++ 32 :: after)
    (hmethod : methods method ≠ none) :
    ∃ f : Parsing, f.Reached (method.length + 1) ∧
      fresh.parseMethod d 0 = f.parseURI d (method.length + 1) := by
  obtain ⟨m, hm⟩ := Option.ne_none_iff_exists'.mp hmethod
  have hparse : fresh.parseMethod d 0 = _ :=
    parseMethod_token fresh [] method after (by simp [hd]) rfl (methods_token hmethod).1 hm
  rw [Nat.zero_add] at hparse
  rw [hparse]
  refine ⟨_, ⟨?_, ?_, ?_⟩, rfl⟩
  · exact Counted.advance (Counted.update counted_fresh rfl) _
  · exact Nat.zero_add _
  · rfl

/-- **The URI.** -/
theorem parseURI_stage {f : Parsing} {start uri tail : Bytes}
    (hd : d = start ++ [32] ++ (uri ++ 32 :: tail)) (htail : tail ≠ []) (huri : 32 ∉ uri)
    (h0 : 0 ≤ toInt uri.length) (h1 : toInt uri.length + 1 < 2 ^ 31)
    (hf : f.Reached (start.length + 1)) :
    ∃ f' : Parsing, f'.Reached (start.length + 1 + (uri.length + 1)) ∧
      f.parseURI d (start.length + 1) = f'.parseVersion d (start.length + 1 + (uri.length + 1)) := by
  have hdvd := dvd_toInt_sub uri.length
  have hpos := List.length_pos_iff.mpr htail
  obtain ⟨t, ht⟩ := (decodeURI_ok (d := d) (toInt uri.length).toNat (start.length + 1)
    Decoded.empty).mpr (escapesFit_of_le _ _ (by
      rw [hd, List.length_drop]
      simp only [List.length_append, List.length_cons]
      omega))
  have hparse := parseURI_token f (start ++ [32]) uri tail hd (by simp) huri h0 h1 ht
  rw [hparse, Nat.add_assoc _ uri.length 1]
  refine ⟨_, ⟨?_, ?_, ?_⟩, rfl⟩
  · refine Counted.advance (Counted.update hf.counted ?_) _
    exact RequestParser.setURI_bytes _ _
  · show f.added + (uri.length + 1) = _
    rw [hf.added]
  · exact hf.headers

/-- **The version.** -/
theorem parseVersion_stage {f : Parsing} {start version : Bytes} (tail : Bytes)
    (hd : d = start ++ 32 :: version ++ 10 :: tail) (hno : 10 ∉ version)
    (hf : f.Reached (start.length + 1)) :
    (¬IsVersion (stripCR version) ∧ ∃ g, f.parseVersion d (start.length + 1) = .ok g ∧
      g.parser.progress_ = .InvalidVersion) ∨
    IsVersion (stripCR version) ∧ ∃ f' : Parsing,
      f'.Reached (start.length + 1 + (version.length + 1)) ∧
        f'.parser.progress_ = .ParsingHeaders ∧
        f.parseVersion d (start.length + 1)
          = f'.parseHeaders d (start.length + 1 + (version.length + 1)) := by
  have hbefore : BeforeVersion false (start ++ [32]) := ⟨start, rfl⟩
  have hline : f.parseVersion d (start.length + 1) = _ :=
    parseVersion_line f (start ++ [32]) version tail (by simp [hd]) (by simp) hbefore (by simp) hno
  by_cases hversion : IsVersion (stripCR version)
  · rw [if_pos hversion] at hline
    refine .inr ⟨hversion, (f.update (f.parser.withVersion (stripCR version))).advance
      (version.length + 1), ⟨?_, ?_, hf.headers⟩, rfl, ?_⟩
    · exact (hf.counted.update rfl).advance _
    · show f.added + (version.length + 1) = _
      rw [hf.added]
    · rw [hline]
      congr 1
      simp
      omega
  · rw [if_neg hversion] at hline
    exact .inl ⟨hversion, _, hline, rfl⟩

end Parsing

/-! ## What a block is to end in -/

/-- The three parts of a first line are told apart by their blanks. -/
theorem requestLine_unique {method uri version method' uri' version' : Bytes}
    (h : method ++ 32 :: (uri ++ 32 :: version) = method' ++ 32 :: (uri' ++ 32 :: version'))
    (hmethod : methods method ≠ none) (hmethod' : methods method' ≠ none) (huri : 32 ∉ uri)
    (huri' : 32 ∉ uri') : uri = uri' ∧ version = version' := by
  obtain ⟨-, hrest⟩ := token_unique h (methods_token hmethod).1 (methods_token hmethod').1
  exact token_unique hrest huri huri'

theorem HasURI.knownMethod (h : HasURI line) : KnownMethod line := by
  obtain ⟨method, uri, rest, hline, hmethod, -⟩ := h
  exact ⟨method, _, hline, hmethod⟩

theorem IsRequestLine.hasURI (h : IsRequestLine line) : HasURI line := by
  obtain ⟨method, uri, version, hline, hmethod, hne, huri, -⟩ := h
  exact ⟨method, uri, version, hline, hmethod, hne, huri⟩

theorem isVersion_of_known {version : Bytes} (h : KnownVersion version) : IsVersion version := by
  rcases h with rfl | rfl <;> decide

namespace HeaderBlock

variable {progress_ progress_' : RequestProgress}

theorem Offends.not_wellFormed (h : b.Offends progress_) : ¬b.WellFormed := by
  rintro ⟨hfirst, hfields⟩
  cases h with
  | method h => exact h hfirst.hasURI.knownMethod
  | uri _ h => exact h hfirst.hasURI
  | version _ h => exact h hfirst
  | header _ hline h => exact h (hfields _ hline)

/-- Only one part of a block is the offending one. -/
theorem Offends.unique (h : b.Offends progress_) (h' : b.Offends progress_') :
    progress_ = progress_' := by
  cases h with
  | method h =>
    cases h' with
    | method => rfl
    | uri hmethod => exact absurd hmethod h
    | version huri => exact absurd huri.knownMethod h
    | header hfirst => exact absurd hfirst.hasURI.knownMethod h
  | uri hmethod h =>
    cases h' with
    | method h' => exact absurd hmethod h'
    | uri => rfl
    | version huri => exact absurd huri h
    | header hfirst => exact absurd hfirst.hasURI h
  | version huri h =>
    cases h' with
    | method h' => exact absurd huri.knownMethod h'
    | uri _ h' => exact absurd huri h'
    | version => rfl
    | header hfirst => exact absurd hfirst h
  | header hfirst _ _ =>
    cases h' with
    | method h' => exact absurd hfirst.hasURI.knownMethod h'
    | uri _ h' => exact absurd hfirst.hasURI h'
    | version _ h' => exact absurd hfirst h'
    | header => rfl

theorem Offends.ne_good (h : b.Offends progress_) : progress_ ≠ .Good := by
  cases h <;> exact fun heq => by cases heq

/-- A block fits the grammar, or a part of it offends. -/
theorem wellFormed_or_header (hfirst : IsRequestLine b.first) :
    b.WellFormed ∨ b.Offends .InvalidHeader := by
  by_cases hfields : ∀ line ∈ b.headers, IsField line
  · exact .inl ⟨hfirst, hfields⟩
  · push Not at hfields
    obtain ⟨line, hline, hfield⟩ := hfields
    exact .inr (.header hfirst hline hfield)

/-- A parser in the error state of the offending part has read the block. -/
theorem Offends.reads {p : RequestParser} (h : b.Offends progress_) (hp : p.progress_ = progress_) :
    ReadsBlock b p where
  good := by
    rw [hp]
    exact ⟨fun heq => absurd heq h.ne_good, fun hwell => absurd hwell h.not_wellFormed⟩
  bytes_ hwell := absurd hwell h.not_wellFormed
  fields hwell := absurd hwell h.not_wellFormed
  offends progress_' h' := by rw [hp, h.unique h']

/-! ## The bytes of a block -/

theorem lf_not_mem_first (b : HeaderBlock) : 10 ∉ b.first := by
  unfold first
  cases hlines : b.lines with
  | nil => exact (isBlank_short b.isBlank).1
  | cons line lines => exact (b.full line (by rw [hlines]; exact List.mem_cons_self)).1

theorem bytes_first (b : HeaderBlock) (rest : Bytes) :
    ∃ tail, b.bytes ++ rest = b.first ++ 10 :: tail := by
  unfold bytes first
  cases b.lines with
  | nil => exact ⟨rest, by simp [linesBytes]⟩
  | cons line lines => exact ⟨linesBytes lines ++ (b.blank ++ 10 :: rest), by simp [linesBytes]⟩

/-- A block with a method has header lines after its first line. -/
theorem bytes_headers (h : KnownMethod b.first) (rest : Bytes) :
    b.bytes ++ rest = b.first ++ 10 :: (linesBytes b.headers ++ (b.blank ++ 10 :: rest)) := by
  unfold bytes first headers
  unfold first at h
  cases hlines : b.lines with
  | nil =>
    rw [hlines] at h
    obtain ⟨method, after, hblank, -⟩ := h
    have hmem : (32 : UInt8) ∈ b.blank := by
      rw [show b.blank = method ++ 32 :: after from hblank]
      simp
    rcases b.isBlank with hb | hb <;> rw [hb] at hmem <;> simp at hmem
  | cons line lines => simp [linesBytes]

theorem length_bytes (h : KnownMethod b.first) :
    b.bytes.length = b.first.length + 1 + (linesBytes b.headers).length + (b.blank.length + 1) := by
  have hbytes := congrArg List.length (bytes_headers h [])
  simp only [List.append_nil, List.length_append, List.length_cons, List.length_nil] at hbytes
  omega

/-- **A byte string with a blank line contains its whole header block.** -/
theorem exists_of_blank {blank : Bytes} (hblank : IsBlank blank) : ∀ {start rest : Bytes},
    AtLineStart start → d = start ++ (blank ++ 10 :: rest) →
    ∃ (b : HeaderBlock) (rest' : Bytes), d = b.bytes ++ rest' := by
  induction hn : d.length using Nat.strong_induction_on generalizing d with
  | _ n ih =>
    subst hn
    intro start rest hstart hd
    have hmem : (10 : UInt8) ∈ d := by simp [hd]
    obtain ⟨line, tail, rfl, hno⟩ := List.eq_append_cons_of_mem hmem
    by_cases hline : IsBlank line
    · exact ⟨⟨[], line, fun _ h => absurd h List.not_mem_nil, hline⟩, tail, by
        simp [bytes, linesBytes]⟩
    · -- the blank line comes later, and the lines of the rest end at it
      rcases hstart with rfl | ⟨init, rfl⟩
      · obtain ⟨rfl, -⟩ := token_unique hd hno (isBlank_short hblank).1
        exact absurd hblank hline
      · obtain ⟨line', start', hsplit, hno'⟩ :=
          List.eq_append_cons_of_mem (show (10 : UInt8) ∈ init ++ [10] by simp)
        have hd' := hd
        rw [hsplit, List.append_assoc, List.cons_append] at hd'
        obtain ⟨rfl, htail⟩ := token_unique hd' hno hno'
        have hstart' : AtLineStart start' := by
          rcases List.eq_nil_or_concat start' with hnil | ⟨init', c, hinit'⟩
          · exact .inl hnil
          · right
            rw [List.concat_eq_append] at hinit'
            have hlast := congrArg List.getLast? hsplit
            rw [hinit', ← List.cons_append, ← List.append_assoc] at hlast
            simp only [List.getLast?_concat, Option.some.injEq] at hlast
            exact ⟨init', by rw [hinit', ← hlast]⟩
        obtain ⟨b, rest', hb⟩ := ih tail.length (by simp; omega) rfl hstart' htail
        refine ⟨⟨line :: b.lines, b.blank, List.forall_mem_cons.mpr ⟨⟨hno, hline⟩, b.full⟩,
          b.isBlank⟩, rest', ?_⟩
        rw [hb]
        simp [bytes, linesBytes]

/-! ## parse -/

/-- **The header lines of a block with a request line.** -/
theorem headers_iff {rest : Bytes} {f : Parsing} (hfirst : IsRequestLine b.first)
    (hf : f.Reached (b.first.length + 1)) (hprogress : f.parser.progress_ = .ParsingHeaders) :
    (∃ g, f.parseHeaders (b.bytes ++ rest) (b.first.length + 1) = .ok g ∧ ReadsBlock b g.parser) ↔
      b.Taken := by
  have hknown := hfirst.hasURI.knownMethod
  have hfull : ∀ line ∈ b.headers, 10 ∉ line := fun line hmem =>
    (b.full line (List.mem_of_mem_tail hmem)).1
  obtain ⟨hcounted, hadded, hheaders⟩ := Parsing.foldl_takeField b.headers hf.counted
  rw [hf.headers] at hheaders
  have hbytes : ((b.headers.foldl Parsing.takeField f).good (b.blank.length + 1)).parser.bytes_
      = toInt b.bytes.length := by
    have hgood : ((b.headers.foldl Parsing.takeField f).good (b.blank.length + 1)).Counted :=
      Parsing.Counted.advance (Parsing.Counted.update hcounted rfl) _
    rw [hgood, Parsing.good_added, hadded, hf.added, length_bytes hknown]
  have hparse : b.WellFormed → ∀ g, f.parseHeaders (b.bytes ++ rest) (b.first.length + 1) = .ok g ↔
      (∀ line ∈ b.headers, fieldValue line ≠ []) ∧
        g = (b.headers.foldl Parsing.takeField f).good (b.blank.length + 1) := fun hwell g =>
    Parsing.parseHeaders_fields rest b.isBlank b.headers (b.first ++ [10])
      (fun line hmem => ⟨hfull line hmem, hwell.2 line hmem⟩)
      (by rw [bytes_headers hknown rest]; simp) (by simp) (.inr ⟨b.first, rfl⟩)
  constructor
  · rintro ⟨g, hg, hreads⟩
    have hwell : b.WellFormed := by
      refine (wellFormed_or_header hfirst).resolve_right fun hoffends => ?_
      rcases Parsing.parseHeaders_progress _ _ _ hg with h | h
      · rw [hreads.offends _ hoffends] at h
        cases h
      · rw [hreads.offends _ hoffends, hprogress] at h
        cases h
    obtain ⟨hvalues, rfl⟩ := (hparse hwell g).mp hg
    refine ⟨hwell, ?_, hvalues, ?_⟩
    · have hlength := hreads.bytes_ hwell
      rw [hbytes] at hlength
      have hint := toInt_inInt b.bytes.length
      rw [hlength] at hint
      exact_mod_cast hint.2
    · rw [← setFields_iff, ← hheaders]
      exact hreads.fields hwell
  · rintro ⟨hwell, hlen, hvalues, honce⟩
    refine ⟨_, (hparse hwell _).mpr ⟨hvalues, rfl⟩, ⟨fun _ => hwell, fun _ => rfl⟩, fun _ => ?_,
      fun _ => ?_, fun progress_ hoffends => absurd hwell hoffends.not_wellFormed⟩
    · rw [hbytes, toInt_of_lt (by omega) (by omega)]
    · have hfields := (setFields_iff b.headers).mpr honce
      rw [← hheaders] at hfields
      exact hfields

/-- A parser that has read a block with a URI does not complain of the URI. -/
theorem ne_invalidURI {p : RequestParser} (h : ReadsBlock b p) (huri : HasURI b.first) :
    p.progress_ ≠ .InvalidURI := by
  intro hp
  by_cases hfirst : IsRequestLine b.first
  · rcases wellFormed_or_header hfirst with hwell | hoffends
    · rw [h.good.mpr hwell] at hp
      cases hp
    · rw [h.offends _ hoffends] at hp
      cases hp
  · rw [h.offends _ (.version huri hfirst)] at hp
    cases hp

/-- What is left of `Regular` for a block with a URI. -/
theorem regular_iff {rest method uri version : Bytes}
    (hline : b.first = method ++ 32 :: (uri ++ 32 :: version)) (hmethod : methods method ≠ none)
    (hne : uri ≠ []) (huri : 32 ∉ uri) :
    b.Regular rest ↔
      (0 ≤ toInt uri.length ∧ toInt uri.length + 1 < 2 ^ 31) ∧ ¬IsVersion (stripCR version) ∨
        b.Taken := by
  have hasURI : HasURI b.first := ⟨method, uri, version, hline, hmethod, hne, huri⟩
  constructor
  · rintro (h | ⟨-, -, h, -⟩ | ⟨hline', hmethod', -, huri', h0, h1, h⟩ | h)
    · exact absurd hasURI.knownMethod h
    · exact absurd hasURI h
    · obtain ⟨rfl, rfl⟩ := requestLine_unique (hline.symm.trans hline') hmethod hmethod' huri huri'
      exact .inl ⟨⟨h0, h1⟩, h⟩
    · exact .inr h
  · rintro (⟨⟨h0, h1⟩, h⟩ | h)
    · exact .version hline hmethod hne huri h0 h1 h
    · exact .good h

/-- **A block with a URI.** -/
theorem request_iff {rest method uri version : Bytes}
    (hline : b.first = method ++ 32 :: (uri ++ 32 :: version)) (hmethod : methods method ≠ none)
    (hne : uri ≠ []) (huri : 32 ∉ uri) :
    (∃ f, Parsing.fresh.parseMethod (b.bytes ++ rest) 0 = .ok f ∧ ReadsBlock b f.parser) ↔
      b.Regular rest := by
  have hasURI : HasURI b.first := ⟨method, uri, version, hline, hmethod, hne, huri⟩
  obtain ⟨tail, htail⟩ := b.bytes_first rest
  have hd : b.bytes ++ rest = method ++ 32 :: (uri ++ 32 :: (version ++ 10 :: tail)) := by
    rw [htail, hline]
    simp
  have hlf : (10 : UInt8) ∉ version := by
    have hno := b.lf_not_mem_first
    rw [hline] at hno
    simp only [List.mem_append, List.mem_cons, not_or] at hno
    exact hno.2.2.2.2
  -- a line splits at its two blanks in one way only
  have hexact : IsRequestLine b.first → IsVersion (stripCR version) := by
    rintro ⟨method', uri', version', hline', hmethod', -, huri', hversion⟩
    obtain ⟨-, rfl⟩ := requestLine_unique (hline.symm.trans hline') hmethod hmethod' huri huri'
    exact isVersion_of_known hversion
  rw [regular_iff hline hmethod hne huri]
  have hd' : b.bytes ++ rest = method ++ [32] ++ (uri ++ 32 :: (version ++ 10 :: tail)) := by
    rw [hd]
    simp
  obtain ⟨f, hf, hmethodStage⟩ := Parsing.parseMethod_known hd hmethod
  rw [hmethodStage]
  by_cases hfit : 0 ≤ toInt uri.length ∧ toInt uri.length + 1 < 2 ^ 31
  · obtain ⟨f, hf, hparse⟩ := Parsing.parseURI_stage hd' (by simp) huri hfit.1 hfit.2 hf
    have hstart : (method ++ 32 :: uri).length + 1 = method.length + 1 + (uri.length + 1) := by
      simp
      omega
    have hlength : (method ++ 32 :: uri).length + 1 + (version.length + 1) = b.first.length + 1 := by
      rw [hline]
      simp
      omega
    rw [← hstart] at hf hparse
    rw [hparse, and_iff_right hfit]
    have hd'' : b.bytes ++ rest = method ++ 32 :: uri ++ 32 :: version ++ 10 :: tail := by
      rw [htail, hline]
      simp
    rcases Parsing.parseVersion_stage tail hd'' hlf hf with ⟨hversion, g, hg, hprogress⟩ |
        ⟨hversion, f', hf', hprogress, hheaders⟩
    · have hoffends : b.Offends .InvalidVersion := .version hasURI fun h => hversion (hexact h)
      exact ⟨fun _ => .inl hversion, fun _ => ⟨g, hg, hoffends.reads hprogress⟩⟩
    · rw [hlength] at hf' hheaders
      rw [hheaders, or_iff_right (not_not_intro hversion)]
      by_cases hfirst : IsRequestLine b.first
      · exact headers_iff hfirst hf' hprogress
      · -- the version is taken for a good one, and nothing complains of it later
        constructor
        · rintro ⟨g, hg, hreads⟩
          have hbad := hreads.offends _ (.version hasURI hfirst)
          rcases Parsing.parseHeaders_progress _ _ _ hg with h | h
          · rw [hbad] at h
            cases h
          · rw [hbad, hprogress] at h
            cases h
        · exact fun h => absurd h.wellFormed.1 hfirst
  · -- the length of the URI is no `int`, or the sum is not
    constructor
    · rintro ⟨g, hg, hreads⟩
      exfalso
      by_cases hlong : toInt uri.length + 1 < 0
      · rw [Parsing.parseURI_long _ (method ++ [32]) uri _ hd' (by simp) huri hlong] at hg
        cases hg
        exact ne_invalidURI hreads hasURI rfl
      · obtain ⟨h0, h1, -⟩ :=
          Parsing.parseURI_decoded _ (method ++ [32]) uri _ hd' (by simp) huri hlong hg
        exact hfit ⟨h0, h1⟩
    · rintro (⟨h, -⟩ | h)
      · exact absurd h hfit
      · have hlength := length_bytes hasURI.knownMethod
        have hlen := h.length
        rw [hline] at hlength
        simp only [List.length_append, List.length_cons] at hlength
        have hint : toInt uri.length = uri.length := toInt_of_lt (by omega) (by omega)
        exact absurd ⟨by omega, by omega⟩ hfit

/-- **A block with a method and no URI.** -/
theorem method_iff {rest method after : Bytes} (hd : b.bytes ++ rest = method ++ 32 :: after)
    (hmethod : methods method ≠ none) (hknown : KnownMethod b.first) (hno : ¬HasURI b.first) :
    (∃ f, Parsing.fresh.parseMethod (b.bytes ++ rest) 0 = .ok f ∧ ReadsBlock b f.parser) ↔
      b.Regular rest := by
  have hoffends : b.Offends .InvalidURI := .uri hknown hno
  have hd' : b.bytes ++ rest = method ++ [32] ++ after := by
    rw [hd]
    simp
  obtain ⟨f, -, hmethodStage⟩ := Parsing.parseMethod_known hd hmethod
  rw [hmethodStage]
  constructor
  · rintro ⟨g, hg, hreads⟩
    have hbad := hreads.offends _ hoffends
    rcases Parsing.parseURI_progress (method ++ [32]) after hd' (by simp) hg with ⟨-, hlong⟩ | h
    · exact .uri hd hmethod hno hlong
    · rw [hbad] at h
      rcases h with h | h | h <;> cases h
  · rintro (h | ⟨hd'', hmethod', -, hlong⟩ | ⟨hline, hmethod', hne, huri, -, -, -⟩ | h)
    · exact absurd hknown h
    · obtain ⟨rfl, rfl⟩ :=
        token_unique (hd.symm.trans hd'') (methods_token hmethod).1 (methods_token hmethod').1
      exact ⟨_, Parsing.parseURI_tooLong _ (method ++ [32]) after hd' (by simp) hlong,
        hoffends.reads rfl⟩
    · exact absurd ⟨_, _, _, hline, hmethod', hne, huri⟩ hno
    · exact absurd h.wellFormed.1.hasURI hno

/--
**The grammar of a request.** On a byte string that contains its whole header block, a new parser
reads the block by the grammar exactly when the block is a regular one.
-/
theorem parse_grammar_iff (b : HeaderBlock) (rest : Bytes) :
    (∃ f, RequestParser.clear.parse (b.bytes ++ rest) = .ok f ∧ ReadsBlock b f.parser) ↔
      b.Regular rest := by
  show (∃ f, Parsing.fresh.parseMethod (b.bytes ++ rest) 0 = .ok f ∧ ReadsBlock b f.parser) ↔ _
  by_cases hknown : KnownMethod b.first
  · by_cases hasURI : HasURI b.first
    · obtain ⟨method, uri, version, hline, hmethod, hne, huri⟩ := hasURI
      exact request_iff hline hmethod hne huri
    · obtain ⟨method, after, hline, hmethod⟩ := id hknown
      obtain ⟨tail, htail⟩ := b.bytes_first rest
      have hd : b.bytes ++ rest = method ++ 32 :: (after ++ 10 :: tail) := by
        rw [htail, hline]
        simp
      exact method_iff hd hmethod hknown hasURI
  · obtain ⟨tail, htail⟩ := b.bytes_first rest
    exact ⟨fun _ => .method hknown, fun _ =>
      ⟨_, Parsing.parseMethod_bad tail htail hknown, (Offends.method hknown).reads rfl⟩⟩

/-! ## Blocks with one header line -/

/-- `GET / HTTP/1.1` and one header line. -/
def withLine (line : Bytes) (hline : 10 ∉ line ∧ ¬IsBlank line) : HeaderBlock where
  lines := [str "GET / HTTP/1.1\r", line]
  blank := [13]
  full := by
    rintro line' hmem
    rcases List.mem_cons.mp hmem with rfl | hmem
    · decide +kernel
    · rw [List.mem_singleton.mp hmem]
      exact hline
  isBlank := .inr rfl

theorem isRequestLine_get : IsRequestLine (str "GET / HTTP/1.1\r") :=
  ⟨str "GET", str "/", str "HTTP/1.1\r", by decide +kernel, by decide, by decide, by decide,
    .inl (by decide +kernel)⟩

/-- A field with a value is read by the grammar. -/
theorem parse_grammar_field :
    ∃ f, RequestParser.clear.parse
        ((withLine (str "A : b\r") (by decide +kernel)).bytes ++ str "rest") = .ok f ∧
      ReadsBlock (withLine (str "A : b\r") (by decide +kernel)) f.parser := by
  refine (parse_grammar_iff _ _).mpr (.good ⟨⟨isRequestLine_get, ?_⟩, by decide +kernel, ?_, ?_⟩)
  · intro line hmem
    rw [List.mem_singleton.mp hmem]
    exact ⟨str "A ", str " b", by decide +kernel, by decide, 65, by decide, by decide⟩
  · intro line hmem
    rw [List.mem_singleton.mp hmem]
    decide +kernel
  · intro line hmem line' hmem' _
    rw [List.mem_singleton.mp hmem, List.mem_singleton.mp hmem']

/-- An empty value leaves the block, and a line of one byte is taken for the blank one; a line without
a colon makes a string that ends before it begins, and a URI may go on in the next line. -/
theorem parse_not_by_grammar :
    (¬∃ f, RequestParser.clear.parse
        ((withLine (str "A:\r") (by decide +kernel)).bytes ++ []) = .ok f ∧
      ReadsBlock (withLine (str "A:\r") (by decide +kernel)) f.parser) ∧
    (¬∃ f, RequestParser.clear.parse
        ((withLine (str "x") (by decide +kernel)).bytes ++ []) = .ok f ∧
      ReadsBlock (withLine (str "x") (by decide +kernel)) f.parser) ∧
    RequestParser.clear.parse (str "GET / HTTP/1.1\r\nHost\r\nA: b\r\n\r\n") = .error .badRange ∧
    (RequestParser.clear.parse (str "GET /\r\nA: HTTP/1.1\r\n\r\n")).map (fun f => f.parser.isGood)
      = .ok true := by
  refine ⟨?_, ?_, by decide +kernel, by decide +kernel⟩
  · rintro ⟨f, hf, -⟩
    have hparse : RequestParser.clear.parse
        ((withLine (str "A:\r") (by decide +kernel)).bytes ++ []) = .error .outOfBounds := by
      decide +kernel
    rw [hparse] at hf
    cases hf
  · rintro ⟨f, hf, hreads⟩
    have hgood : (RequestParser.clear.parse
        ((withLine (str "x") (by decide +kernel)).bytes ++ [])).map (fun f => f.parser.progress_)
          = .ok .Good := by decide +kernel
    rw [hf] at hgood
    obtain ⟨-, hfields⟩ := hreads.good.mp (Except.ok.inj hgood)
    obtain ⟨name, value, hline, -⟩ := hfields (str "x") (List.mem_singleton.mpr rfl)
    have hcolon : (58 : UInt8) ∈ stripCR (str "x") := by
      rw [hline]
      simp
    exact absurd hcolon (by decide +kernel)

end HeaderBlock

end Liby.Http
