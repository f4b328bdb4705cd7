import Liby.Buffer.Contents
import Liby.Http.ReplyCount
import Liby.Http.RequestText

/-!
# The parts of a reply in the block

What each stage of `ReplyParser::parse` does with a range that starts with the part it looks for.
-/

namespace Liby.Http

open Infra

/-! ## The map of the headers -/

/-- The map with the headers of some lines. -/
def addHeaders (headers_ : Headers) (headers : List HeaderText) : Headers :=
  headers.foldl (fun headers_ h => headers_.set (headerKey h.name) (headerValue h.value)) headers_

theorem addHeaders_append (headers_ : Headers) (hs hs' : List HeaderText) :
    addHeaders headers_ (hs ++ hs') = addHeaders (addHeaders headers_ hs) hs' := List.foldl_append

/-! ## Status numbers -/

/-- What holds of every entry of a table holds of what is found in it. -/
theorem lookup_all {α β : Type _} [BEq α] [LawfulBEq α] {P : α × β → Prop} {table : List (α × β)}
    (h : ∀ entry ∈ table, P entry) {key : α} {value : β} (hv : table.lookup key = some value) :
    P (key, value) := by
  obtain ⟨init, rest, rfl, -⟩ := List.lookup_eq_some_iff.mp hv
  exact h (key, value) (by simp)

/-- A known status has a number of three digits, and the first of them make no known status. -/
theorem statusNumber_spec {status : Int} {number : Bytes} (h : statusNumber status = some number) :
    stoi number = .ok status ∧ (∀ c ∈ number, isdigit c = true) ∧ number.length = 3 ∧
      ∀ k ∈ [1, 2], (stoi (number.take k)).map statusNumber = .ok none := by
  unfold statusNumber at h
  exact lookup_all (P := fun entry => stoi entry.2 = .ok entry.1 ∧
    (∀ c ∈ entry.2, isdigit c = true) ∧ entry.2.length = 3 ∧
      ∀ k ∈ [1, 2], (stoi (entry.2.take k)).map statusNumber = .ok none) (by decide +kernel) h

/-! ## Ranges -/

/-- `range` stands in the block from `first` to `last`, between `before` and `after`. -/
structure InBlock (d : Bytes) (first last : Nat) (before range after : Bytes) : Prop where
  block : d = before ++ range ++ after
  first : first = before.length
  last : last = before.length + range.length

namespace InBlock

variable {d before range token rest after : Bytes} {first last : Nat} {c : UInt8}

theorem le (h : InBlock d first last before range after) : first ≤ last ∧ last ≤ d.length := by
  rw [h.block, h.first, h.last]
  simp only [List.length_append]
  omega

theorem size (h : InBlock d first last before range after) : last = first + range.length := by
  rw [h.last, h.first]

/-- The range after its first bytes. -/
theorem drop (h : InBlock d first last before (token ++ rest) after) :
    InBlock d (first + token.length) last (before ++ token) rest after where
  block := by rw [h.block]; simp
  first := by rw [h.first]; simp
  last := by rw [h.last]; simp; omega

/-- The range after a token and its delimiter. -/
theorem tail (h : InBlock d first last before (token ++ c :: rest) after) :
    InBlock d (first + token.length + 1) last (before ++ token ++ [c]) rest after where
  block := by rw [h.block]; simp
  first := by rw [h.first]; simp; omega
  last := by rw [h.last]; simp; omega

theorem find_token (h : InBlock d first last before (token ++ c :: rest) after) (hno : c ∉ token) :
    Cursor.find d first last c = .ok (first + token.length) := by
  rw [Cursor.find_token before token rest after h.block h.first h.last hno, h.first]

theorem find_none (h : InBlock d first last before range after) (hno : c ∉ range) :
    Cursor.find d first last c = .ok last :=
  Cursor.find_none before range after h.block h.first h.last hno

theorem string_token (h : InBlock d first last before (token ++ rest) after) :
    Cursor.string d first (first + token.length) = .ok token :=
  Cursor.string_range before token (rest ++ after) (by rw [h.block]; simp) h.first
    (by rw [h.first])

/-- The bytes of the window of a buffer. -/
theorem of_window {block : Bytes} {left right : Nat} (hle : left ≤ right)
    (hright : right ≤ block.length) :
    InBlock block left right (block.take left) (Cursor.window block left right)
      (block.drop right) where
  block := by
    have hsplit : block.take left ++ Cursor.window block left right = block.take right := by
      have htake : (block.take right).take left = block.take left := by
        rw [List.take_take, min_eq_left hle]
      rw [← htake]
      exact List.take_append_drop left (block.take right)
    rw [hsplit, List.take_append_drop]
  first := by
    rw [List.length_take]
    omega
  last := by
    rw [List.length_take, Cursor.length_window ⟨hle, hright⟩]
    omega

end InBlock

/-- What `ParseHttpVersion` takes for the version. -/
def TakenVersion (token : Bytes) : Prop :=
  toInt token.length = 8 ∧ token.take 8 = str "HTTP/1.1"

instance (token : Bytes) : Decidable (TakenVersion token) :=
  inferInstanceAs (Decidable (_ ∧ _))

namespace ReplyParsing

variable {d before rest after : Bytes} {first last : Nat}

/-! ## The status line -/

/-- The first token of a range, if a blank ends it or not. -/
theorem find_statusToken (h : InBlock d first last before rest after) :
    Cursor.find d first last 32 = .ok (first + (statusToken rest).length) ∧
      Cursor.string d first (first + (statusToken rest).length) = .ok (statusToken rest) := by
  have hsplit := List.takeWhile_append_dropWhile (p := fun c : UInt8 => decide (c ≠ 32)) (l := rest)
  have hstring : Cursor.string d first (first + (statusToken rest).length)
      = .ok (statusToken rest) := by
    rw [← hsplit] at h
    exact h.string_token
  refine ⟨?_, hstring⟩
  have hlen : (statusToken rest).length = rest.idxOf 32 := by
    rw [statusToken, ← Cursor.take_idxOf, List.length_take, min_eq_left List.idxOf_le_length]
  rw [Cursor.find_range before rest after h.block h.first h.last, hlen, h.first]

/-- The version stage. -/
theorem parseVersion_eq (f : ReplyParsing) (h : InBlock d first last before rest after) :
    f.parseVersion d first last =
      if TakenVersion (statusToken rest) then
        ((f.update { f.parser with progress_ := .ParsingStatus }).advance
          ((statusToken rest).length + 1)).parseStatus d (first + (statusToken rest).length + 1) last
      else .ok (f.update { f.parser with progress_ := .InvalidVersion }) := by
  have hn : first + (statusToken rest).length + 1 - first = (statusToken rest).length + 1 := by
    omega
  have hlen : ((first + (statusToken rest).length : Nat) : Int) - first
      = (statusToken rest).length := by omega
  unfold parseVersion ReplyParser.ParseHttpVersion
  rw [(find_statusToken h).1, ok_bind, guardOr_pos (Nat.le_add_right _ _), ok_bind, hlen]
  by_cases h8 : toInt (statusToken rest).length = 8
  · have hsplit : rest ++ after
        = statusToken rest ++ (rest.dropWhile (fun c => decide (c ≠ 32)) ++ after) := by
      rw [← List.append_assoc, statusToken, List.takeWhile_append_dropWhile]
    have htake : (d.drop first).take 8 = (statusToken rest).take 8 := by
      rw [h.block, h.first, List.append_assoc, List.drop_left, hsplit,
        List.take_append_of_le_length (length_of_toInt h8)]
    rw [if_neg (not_not_intro h8), htake]
    by_cases htext : (statusToken rest).take 8 = str "HTTP/1.1"
    · rw [if_pos htext, if_pos ⟨h8, htext⟩, pure_eq_ok, ok_bind]
      dsimp only
      rw [if_pos rfl, hn]
    · rw [if_neg htext, if_neg fun htaken => htext htaken.2]
      rfl
  · rw [if_pos h8, if_neg fun htaken => h8 htaken.1]
    rfl

/-- The status stage. -/
theorem parseStatus_eq (f : ReplyParsing) (h : InBlock d first last before rest after) :
    f.parseStatus d first last = stoi (statusToken rest) >>= fun n =>
      if (statusNumber n).isSome then
        ((f.update { f.parser with progress_ := .ParsingStatusString, status_ := n }).advance
          ((statusToken rest).length + 1)).parseStatusString d
            (first + (statusToken rest).length + 1) last
      else .ok f := by
  obtain ⟨hfind, hstring⟩ := find_statusToken h
  have hn : first + (statusToken rest).length + 1 - first = (statusToken rest).length + 1 := by
    omega
  unfold parseStatus ReplyParser.ParseStatus
  rw [hfind, ok_bind, hstring, ok_bind]
  cases stoi (statusToken rest) with
  | error e => rfl
  | ok n =>
    rw [ok_bind, ok_bind]
    cases hstatus : statusNumber n with
    | none => rfl
    | some text =>
      rw [Option.isSome_some, if_pos rfl]
      dsimp only
      rw [pure_eq_ok, ok_bind]
      dsimp only
      rw [if_pos rfl, hn]

/-- The version stage on the version. -/
theorem parseVersion_token (f : ReplyParsing)
    (h : InBlock d first last before (str "HTTP/1.1" ++ 32 :: rest) after) :
    f.parseVersion d first last =
      ((f.update { f.parser with progress_ := .ParsingStatus }).advance 9).parseStatus d
        (first + 9) last := by
  have htoken : statusToken (str "HTTP/1.1" ++ 32 :: rest) = str "HTTP/1.1" :=
    takeWhile_token (by decide) rest
  have htaken : TakenVersion (str "HTTP/1.1") := ⟨by decide, rfl⟩
  rw [f.parseVersion_eq h, htoken, if_pos htaken]
  rfl

/-- The status stage on a number of a known status. -/
theorem parseStatus_token (f : ReplyParsing) {number : Bytes} {status : Int}
    (h : InBlock d first last before (number ++ 32 :: rest) after) (hno : 32 ∉ number)
    (hnumber : stoi number = .ok status) (hknown : (statusNumber status).isSome) :
    f.parseStatus d first last =
      ((f.update { f.parser with progress_ := .ParsingStatusString, status_ := status }).advance
        (number.length + 1)).parseStatusString d (first + number.length + 1) last := by
  have htoken : statusToken (number ++ 32 :: rest) = number := takeWhile_token hno rest
  rw [f.parseStatus_eq h, htoken, hnumber, ok_bind, if_pos hknown]

/-- The last byte before a line end is read, and must be there. -/
theorem lineEnd_of_ne {line : Bytes} (h : InBlock d first last before (line ++ rest) after)
    (hne : before ++ line ≠ []) : ∃ stop, lineEnd d (first + line.length) = .ok stop := by
  obtain ⟨init, c, hinit⟩ := (List.eq_nil_or_concat (before ++ line)).resolve_left hne
  rw [List.concat_eq_append] at hinit
  have hread : Cursor.readBefore d (first + line.length) = .ok c := by
    refine Cursor.readBefore_snoc init c (rest ++ after) ?_ ?_
    · rw [h.block, ← List.append_assoc before, hinit]
      simp
    · rw [h.first, ← List.length_append, hinit]
      simp
  unfold lineEnd
  rw [hread, ok_bind]
  exact ⟨_, rfl⟩

/-- The stage that goes over the reason. -/
theorem parseStatusString_stop (f : ReplyParsing) {line : Bytes}
    (h : InBlock d first last before (line ++ 10 :: rest) after) (hno : 10 ∉ line)
    (hne : before ++ line ≠ []) :
    f.parseStatusString d first last =
      ((f.update { f.parser with progress_ := .ParsingHeaders }).advance
        (line.length + 1)).parseHeaders d (first + line.length + 1) last := by
  obtain ⟨stop, hstop⟩ := lineEnd_of_ne h hne
  have hn : first + line.length + 1 - first = line.length + 1 := by omega
  unfold parseStatusString
  rw [h.find_token hno, ok_bind, hstop, ok_bind]
  dsimp only [ReplyParser.ParseStatusString]
  rw [if_pos rfl, hn]

theorem parseStatusString_line (f : ReplyParsing) {line : Bytes}
    (h : InBlock d first last before (line ++ 10 :: rest) after) (hno : 10 ∉ line)
    (hne : before ≠ []) :
    f.parseStatusString d first last =
      ((f.update { f.parser with progress_ := .ParsingHeaders }).advance
        (line.length + 1)).parseHeaders d (first + line.length + 1) last :=
  f.parseStatusString_stop h hno (by simp [hne])

/-! ## The headers -/

/-- `parseHeaders` without the equation that its termination needs. -/
theorem parseHeaders_eq (f : ReplyParsing) (d : Bytes) (first last : Nat) :
    f.parseHeaders d first last =
      if first = last then f.parseBody d first last
      else Cursor.find d first last 10 >>= fun finish =>
        if first = finish ∨ first + 1 = finish then
          ((f.update { f.parser with progress_ := .ParsingBody }).advance
            (finish + 1 - first)).parseBody d (finish + 1) last
        else
          lineEnd d finish >>= fun stop =>
          ParseHeader f.parser.headers_ d first stop >>= fun headers_ =>
          parseHeaders
            ((f.update { f.parser with headers_ := headers_ }).advance (finish + 1 - first))
            d (finish + 1) last := by
  rw [parseHeaders]
  split
  · rfl
  · split
    · next e h => rw [h, error_bind]
    · next finish h => rw [h, ok_bind]

/-- The parser with the header of a line. -/
def addHeader (f : ReplyParsing) (h : HeaderText) : ReplyParsing :=
  (f.update { f.parser with
    headers_ := f.parser.headers_.set (headerKey h.name) (headerValue h.value) }).advance
      (h.line.length + 1)

/-- A longer line goes to `ParseHeader`. -/
theorem parseHeaders_line (f : ReplyParsing) {line : Bytes}
    (h : InBlock d first last before (line ++ 10 :: rest) after) (hno : 10 ∉ line)
    (hlen : 1 < line.length) :
    f.parseHeaders d first last =
      ParseHeader f.parser.headers_ d first (before.length + (stripCR line).length) >>=
        fun headers_ => ((f.update { f.parser with headers_ := headers_ }).advance
          (line.length + 1)).parseHeaders d (first + line.length + 1) last := by
  have hsize := h.size
  rw [List.length_append, List.length_cons] at hsize
  have hline : lineEnd d (first + line.length) = .ok (before.length + (stripCR line).length) := by
    rw [h.first]
    exact lineEnd_line before line (10 :: rest ++ after) (by rw [h.block]; simp) rfl
      (by rintro rfl; simp at hlen)
  have hn : first + line.length + 1 - first = line.length + 1 := by omega
  rw [parseHeaders_eq, if_neg (by omega), h.find_token hno, ok_bind, if_neg (by omega), hline,
    ok_bind, hn]

/-- A header line that is there. -/
theorem parseHeaders_text (f : ReplyParsing) {header : HeaderText}
    (h : InBlock d first last before (header.line ++ 10 :: rest) after) (hfilled : header.Filled) :
    f.parseHeaders d first last =
      (f.addHeader header).parseHeaders d (first + header.line.length + 1) last := by
  have hheader : ParseHeader f.parser.headers_ d first
      (before.length + (stripCR header.line).length)
        = .ok (f.parser.headers_.set (headerKey header.name) (headerValue header.value)) := by
    rw [header.stripCR_line]
    exact ParseHeader_ok _ before header.name header.value ([13] ++ 10 :: rest ++ after)
      (by rw [h.block]; simp [HeaderText.line]) h.first rfl header.colon_not_mem header.name_filled
      hfilled
  rw [f.parseHeaders_line h header.lf_not_mem header.one_lt_length, hheader, ok_bind]
  rfl

/-- The lines of some headers. -/
def lines (headers : List HeaderText) : Bytes := headers.flatMap fun h => h.line ++ [10]

theorem lines_cons (h : HeaderText) (hs : List HeaderText) :
    lines (h :: hs) = h.line ++ 10 :: lines hs := by simp [lines]

/-- **Header lines are taken up one after the other.** -/
theorem parseHeaders_lines : ∀ (headers : List HeaderText) (f : ReplyParsing) {first : Nat}
    {before : Bytes}, InBlock d first last before (lines headers ++ rest) after →
    (∀ header ∈ headers, header.Filled) →
    f.parseHeaders d first last =
      (headers.foldl addHeader f).parseHeaders d (first + (lines headers).length) last
  | [], _, _, _, _, _ => rfl
  | header :: headers, f, first, before, h, hfilled => by
    have hline : InBlock d first last before (header.line ++ 10 :: (lines headers ++ rest)) after := by
      rw [lines_cons, List.append_assoc, List.cons_append] at h
      exact h
    have hn : first + header.line.length + 1 + (lines headers).length
        = first + (lines (header :: headers)).length := by
      rw [lines_cons, List.length_append, List.length_cons]
      omega
    rw [f.parseHeaders_text hline (hfilled header List.mem_cons_self),
      parseHeaders_lines headers _ hline.tail fun h hh => hfilled h (List.mem_cons_of_mem header hh),
      hn]
    rfl

/-- The parser after a line that is taken for the blank line, and for `n` bytes. -/
def blankLine (f : ReplyParsing) (n : Nat) : ReplyParsing :=
  (f.update { f.parser with progress_ := .ParsingBody }).advance n

/-- A line of at most one byte ends the headers. -/
theorem parseHeaders_blank (f : ReplyParsing) {line : Bytes}
    (h : InBlock d first last before (line ++ 10 :: rest) after) (hno : 10 ∉ line)
    (hlen : line.length ≤ 1) :
    f.parseHeaders d first last =
      (f.blankLine (line.length + 1)).parseBody d (first + line.length + 1) last := by
  have hsize := h.size
  rw [List.length_append, List.length_cons] at hsize
  have hn : first + line.length + 1 - first = line.length + 1 := by omega
  rw [parseHeaders_eq, if_neg (by omega), h.find_token hno, ok_bind, if_pos (by omega), hn]
  rfl

/-- What the headers leave of the parser. -/
theorem foldl_addHeader : ∀ (headers : List HeaderText) (f : ReplyParsing), 0 ≤ f.parser.bytes_ →
    f.parser.bytes_ + (lines headers).length < 2 ^ 31 →
    (headers.foldl addHeader f).parser = { f.parser with
      headers_ := addHeaders f.parser.headers_ headers
      bytes_ := f.parser.bytes_ + (lines headers).length }
  | [], f, _, _ => by
    have hzero : f.parser.bytes_ + (lines []).length = f.parser.bytes_ := Int.add_zero _
    rw [hzero]
    rfl
  | header :: headers, f, h0, hlen => by
    have hlength : (lines (header :: headers)).length
        = header.line.length + 1 + (lines headers).length := by
      rw [lines_cons, List.length_append, List.length_cons]
      omega
    have hbytes : (f.addHeader header).parser.bytes_
        = f.parser.bytes_ + (header.line.length + 1 : Nat) :=
      toInt_of_lt (by dsimp only [update]; omega) (by dsimp only [update]; omega)
    have hsum : (f.addHeader header).parser.bytes_ + (lines headers).length
        = f.parser.bytes_ + (lines (header :: headers)).length := by omega
    rw [List.foldl_cons, foldl_addHeader headers (f.addHeader header) (by omega) (by omega), hsum]
    rfl

/-! ## The body -/

/-- The body is there. -/
theorem parseBody_whole (f : ReplyParsing) {body : Bytes}
    (h : InBlock d first last before (body ++ rest) after)
    (hlength : stoi (f.parser.headers_.get (str "Content-Length")) = .ok body.length)
    (hwf : f.parser.content_.Wf) (hcontent : f.parser.content_.contents = [])
    (h0 : 0 ≤ f.parser.bytes_) (hlen : f.parser.bytes_ + body.length < 2 ^ 31) :
    ∃ content_ : Buffer, content_.Wf ∧ content_.contents = body ∧
      f.parseBody d first last = .ok {
        parser := { f.parser with
          progress_ := .Good, bytes_ := f.parser.bytes_ + body.length, content_ := content_ }
        added := f.added + body.length } := by
  unfold parseBody
  rw [hlength, ok_bind]
  by_cases hnil : body = []
  · refine ⟨f.parser.content_, hwf, by rw [hcontent, hnil], ?_⟩
    rw [if_pos (by rw [hnil]; rfl)]
    simp [update, hnil]
  · have hsize := h.size
    rw [List.length_append] at hsize
    have hpos := List.length_pos_iff.mpr hnil
    have hadd : addInt f.parser.bytes_ body.length = .ok (f.parser.bytes_ + body.length) :=
      if_pos ⟨by omega, by omega⟩
    have hread : Block.read d first (body.length : Int).toNat = .ok body := by
      have hslice : Block.slice d first body.length = body := by
        unfold Block.slice
        rw [h.block, h.first, List.append_assoc, List.drop_left, List.append_assoc, List.take_left]
      rw [Int.toNat_natCast, Block.read_ok d _ _ (by have := h.le; omega), hslice]
    obtain ⟨content_, happend, hwf', hcontents⟩ := hwf.append_ok hnil
    refine ⟨content_, hwf', by rw [hcontents, hcontent, List.nil_append], ?_⟩
    rw [if_neg (by omega), if_neg (by omega), hadd, ok_bind, guardOr_pos (by omega), ok_bind, hread,
      ok_bind, happend]
    rfl

/-- The body is not all there. -/
theorem parseBody_short (f : ReplyParsing) {len : Int}
    (hlength : stoi (f.parser.headers_.get (str "Content-Length")) = .ok len) (hne : len ≠ 0)
    (hshort : (last : Int) - first < len) : f.parseBody d first last = .ok f := by
  unfold parseBody
  rw [hlength, ok_bind, if_neg hne, if_pos hshort]
  rfl

end ReplyParsing

end Liby.Http
