import Liby.Http.RequestText
import Liby.Infra.Percent

/-!
# Decoding the URI

`ParseURI` against the law of percent-coding: the first literal question mark ends the path, and
what stands on each side of it is decoded by itself. The loop decodes first and looks for the
question mark afterwards, its strings end at a NUL, and it never rejects an escape.
-/

namespace Liby.Http

open Infra

/-! ## The law -/

/-- What stands before the first `?`. -/
def uriPath (u : Bytes) : Bytes := u.takeWhile (· ≠ 63)

/-- What stands after the first `?`; nothing if there is none. -/
def uriQuery (u : Bytes) : Bytes := (u.dropWhile (· ≠ 63)).tail

/-- The parser that the law gives for a path and a query. -/
def RequestParser.withURI (p : RequestParser) (path query : Bytes) : RequestParser :=
  { p with uri_ := path, query_ := query, progress_ := .ParsingVersion }

/-- What `ParseURI` is to return for the token `u`. -/
structure DecodesURI (p : RequestParser) (u : Bytes) (r : Bool × RequestParser) : Prop where
  decoded : ∀ path query, Coded (uriPath u) path → Coded (uriQuery u) query →
    r = (true, p.withURI path query)
  invalid : ∀ before after, u = before ++ 37 :: after → ¬TwoDigits after →
    r = (false, { p with progress_ := .InvalidURI })

/-- A part that codes bytes other than NUL and `?`. -/
def PlainPart (part : Bytes) : Prop := ∃ bytes, Coded part bytes ∧ 0 ∉ bytes ∧ 63 ∉ bytes

/-- A token with a `%` that two digits do not follow. -/
def BadEscape (u : Bytes) : Prop := ∃ before after, u = before ++ 37 :: after ∧ ¬TwoDigits after

/-- The tokens that `ParseURI` takes by the law. A length that is no `int` may come out negative. -/
def LawfulToken (u : Bytes) : Prop :=
  u.length + 1 < 2 ^ 31 ∧ PlainPart (uriPath u) ∧ PlainPart (uriQuery u) ∨
    toInt u.length + 1 < 0 ∧ BadEscape u

variable {d u path query : Bytes}

theorem uri_mark {before : Bytes} (h : 63 ∉ before) (after : Bytes) :
    uriPath (before ++ 63 :: after) = before ∧ uriQuery (before ++ 63 :: after) = after :=
  ⟨takeWhile_token h after, tail_dropWhile_token h after⟩

theorem uri_plain (h : 63 ∉ u) : uriPath u = u ∧ uriQuery u = [] := by
  refine ⟨takeWhile_of_notMem h, ?_⟩
  rw [uriQuery, List.dropWhile_eq_nil_iff.mpr (decide_ne h), List.tail_nil]

/-- The decodings of the two parts make up that of the token. -/
theorem coded_parts (hpath : Coded (uriPath u) path) (hquery : Coded (uriQuery u) query) :
    63 ∈ u ∧ Coded u (path ++ 63 :: query) ∨ 63 ∉ u ∧ query = [] ∧ Coded u path := by
  by_cases hmark : (63 : UInt8) ∈ u
  · obtain ⟨before, after, rfl, hno⟩ := List.eq_append_cons_of_mem hmark
    obtain ⟨hbefore, hafter⟩ := uri_mark hno after
    rw [hbefore] at hpath
    rw [hafter] at hquery
    exact .inl ⟨hmark, hpath.append (.byte (by decide) hquery)⟩
  · obtain ⟨hbefore, hafter⟩ := uri_plain hmark
    rw [hbefore] at hpath
    rw [hafter] at hquery
    cases hquery
    exact .inr ⟨hmark, rfl, hpath⟩

/-- A token codes something as a whole when its parts do. -/
theorem coded_or_bad (u : Bytes) :
    BadEscape u ∨ ∃ path query, Coded (uriPath u) path ∧ Coded (uriQuery u) query := by
  by_cases hcoded : ∃ bytes, Coded u bytes
  · right
    obtain ⟨bytes, hbytes⟩ := hcoded
    by_cases hmark : (63 : UInt8) ∈ u
    · obtain ⟨before, after, rfl, hno⟩ := List.eq_append_cons_of_mem hmark
      obtain ⟨path, query, -, hpath, hquery⟩ := hbytes.split (by decide) (by decide)
      obtain ⟨hbefore, hafter⟩ := uri_mark hno after
      rw [hbefore, hafter]
      exact ⟨path, query, hpath, hquery⟩
    · obtain ⟨hbefore, hafter⟩ := uri_plain hmark
      rw [hbefore, hafter]
      exact ⟨bytes, [], hbytes, .nil⟩
  · left
    rw [exists_coded_iff] at hcoded
    push Not at hcoded
    exact hcoded

/-- A bad escape leaves one of the parts without a decoding. -/
theorem not_coded_of_bad (h : BadEscape u) (hpath : Coded (uriPath u) path)
    (hquery : Coded (uriQuery u) query) : False := by
  obtain ⟨before, after, hu, hbad⟩ := h
  have hwhole : ∃ bytes, Coded u bytes := by
    rcases coded_parts hpath hquery with ⟨-, hcoded⟩ | ⟨-, -, hcoded⟩
    · exact ⟨_, hcoded⟩
    · exact ⟨_, hcoded⟩
  exact hbad ((exists_coded_iff u).mp hwhole before after hu)

/-! ## The loop -/

theorem hexDigit_eq {c : UInt8} (h : isxdigit c = true) : hexDigit c = hexValue c := by
  have hall : ∀ n : Fin 256, isxdigit (UInt8.ofFin n) = true →
      hexDigit (UInt8.ofFin n) = hexValue (UInt8.ofFin n) := by decide +kernel
  exact hall c.toFin h

/-- On a code the loop takes up the bytes one by one. It may stop before the end of the code. -/
theorem decodeURI_coded {text bytes after : Bytes} (h : Coded text bytes) :
    ∀ {n src : Nat} (t : Decoded), d.drop src = text ++ after → n ≤ text.length →
    ∃ j ≤ n, (n = text.length → j = bytes.length) ∧
      decodeURI d src n t = .ok ((bytes.take j).foldl Decoded.put t) := by
  -- no byte may be read any more
  have hstop : ∀ {src : Nat} (text bytes : Bytes) (t : Decoded), text ≠ [] →
      ∃ j ≤ 0, (0 = text.length → j = bytes.length) ∧
        decodeURI d src 0 t = .ok ((bytes.take j).foldl Decoded.put t) := fun text bytes t hne =>
    ⟨0, le_rfl, fun h0 => absurd (List.length_eq_zero_iff.mp h0.symm) hne, by rw [decodeURI]; rfl⟩
  induction h with
  | nil =>
    intro n src t _ hn
    obtain rfl : n = 0 := Nat.le_zero.mp hn
    exact ⟨0, le_rfl, fun _ => rfl, by rw [decodeURI]; rfl⟩
  | @byte c text bytes hc _ ih =>
    intro n src t hd hn
    cases n with
    | zero => exact hstop _ _ t (List.cons_ne_nil _ _)
    | succ n =>
      obtain ⟨hread, hrest⟩ := readAt_drop hd
      obtain ⟨j, hj, hfull, hdecode⟩ := ih (t.put c) hrest (by simpa using hn)
      refine ⟨j + 1, by omega, fun heq => ?_, ?_⟩
      · rw [List.length_cons, hfull (by simpa using heq)]
      · rw [decodeURI, hread, ok_bind, if_neg hc, hdecode]
        rfl
  | @escape x y text bytes hx hy _ ih =>
    intro n src t hd hn
    cases n with
    | zero => exact hstop _ _ t (List.cons_ne_nil _ _)
    | succ n =>
      obtain ⟨hread, hrest⟩ := readAt_drop hd
      obtain ⟨hreadx, hresty⟩ := readAt_drop hrest
      obtain ⟨hready, htext⟩ := readAt_drop hresty
      have hhex : parseHex d (src + 1) = .ok (hexValue x * 16 + hexValue y) := by
        unfold parseHex
        rw [hreadx, ok_bind, hready, ok_bind, hexDigit_eq hx, hexDigit_eq hy]
        rfl
      -- an escape may start within the length and end behind it
      simp only [List.length_cons] at hn
      obtain ⟨j, hj, hfull, hdecode⟩ := ih (t.put (hexValue x * 16 + hexValue y)) htext
        (n := n - 2) (by omega)
      refine ⟨j + 1, by omega, fun heq => ?_, ?_⟩
      · simp only [List.length_cons] at heq
        rw [List.length_cons, hfull (by omega)]
      · rw [decodeURI, hread, ok_bind, if_pos rfl, hhex, ok_bind, hdecode]
        rfl

/-! ## The strings -/

theorem foldl_put_plain : ∀ {bytes : Bytes}, 63 ∉ bytes → ∀ t : Decoded,
    bytes.foldl Decoded.put t = { t with temp := t.temp ++ bytes }
  | [], _, t => by simp
  | c :: bytes, h, t => by
    have hput : t.put c = { t with temp := t.temp ++ [c] } :=
      if_neg fun hc => h (by simp [hc])
    rw [List.foldl_cons, hput, foldl_put_plain fun hmem => h (List.mem_cons_of_mem c hmem)]
    simp

theorem length_put (t : Decoded) (c : UInt8) : (t.put c).temp.length = t.temp.length + 1 := by
  unfold Decoded.put
  split <;> simp

theorem length_foldl_put : ∀ (bytes : Bytes) (t : Decoded),
    (bytes.foldl Decoded.put t).temp.length = t.temp.length + bytes.length
  | [], _ => rfl
  | c :: bytes, t => by
    rw [List.foldl_cons, length_foldl_put bytes, length_put, List.length_cons]
    omega

/-- No question mark is left in `temp`. -/
theorem mark_not_mem : ∀ (bytes : Bytes) (t : Decoded), 63 ∉ t.temp →
    63 ∉ (bytes.foldl Decoded.put t).temp
  | [], _, h => h
  | c :: bytes, t, h => by
    refine mark_not_mem bytes _ ?_
    unfold Decoded.put
    split
    · simpa using h
    · next hc => simpa using ⟨h, Ne.symm hc⟩

/-- What the loop leaves: the last question mark splits it. -/
theorem foldl_put_cases (bytes : Bytes) :
    (63 ∉ bytes ∧ bytes.foldl Decoded.put Decoded.empty = { temp := bytes, queryIndex := none }) ∨
    ∃ before after : Bytes, bytes = before ++ 63 :: after ∧ 63 ∉ after ∧ ∃ temp : Bytes,
      temp.length = before.length ∧ 63 ∉ temp ∧
      bytes.foldl Decoded.put Decoded.empty
        = { temp := temp ++ 0 :: after, queryIndex := some temp.length } := by
  by_cases hmark : (63 : UInt8) ∈ bytes
  · right
    obtain ⟨after, before, hbytes, hno⟩ :=
      List.eq_append_cons_of_mem (List.mem_reverse.mpr hmark)
    have hno' : (63 : UInt8) ∉ after.reverse := by simpa using hno
    have hsplit : bytes = before.reverse ++ 63 :: after.reverse := by
      have hrev := congrArg List.reverse hbytes
      simpa using hrev
    refine ⟨before.reverse, after.reverse, hsplit, hno',
      (before.reverse.foldl Decoded.put Decoded.empty).temp, ?_,
      mark_not_mem _ _ (by simp [Decoded.empty]), ?_⟩
    · rw [length_foldl_put]
      exact Nat.zero_add _
    · rw [hsplit, List.foldl_append, List.foldl_cons, foldl_put_plain hno']
      simp [Decoded.put]
  · left
    refine ⟨hmark, ?_⟩
    rw [foldl_put_plain hmark]
    rfl

theorem cString_eq_self {temp : Bytes} (h : 0 ∉ temp) : cString temp = temp := by
  rw [cString, List.takeWhile_eq_self_iff]
  exact fun c hc => decide_eq_true fun heq => h (heq ▸ hc)

theorem cString_nul {temp after : Bytes} : cString (temp ++ 0 :: after) = cString temp := by
  unfold cString
  rw [List.takeWhile_append]
  split
  · next hlen =>
    rw [List.takeWhile_cons_of_neg (by decide), List.append_nil]
    exact (List.takeWhile_eq_self_iff.mpr
      (List.takeWhile_eq_self_iff.mp ((List.takeWhile_prefix _).eq_of_length hlen))).symm
  · rfl

theorem mem_cString {temp : Bytes} {c : UInt8} (h : c ∈ cString temp) : c ≠ 0 ∧ c ∈ temp :=
  ⟨by simpa using List.mem_takeWhile_imp h, (List.takeWhile_sublist _).mem h⟩

theorem length_cString_le (temp : Bytes) : (cString temp).length ≤ temp.length :=
  (List.takeWhile_sublist _).length_le

namespace RequestParser

variable {p : RequestParser}

/-- **What the strings can be**: no NUL and no question mark is in them, and they are no longer than
what was decoded. -/
theorem setURI_strings (hp : p.query_ = []) (bytes : Bytes) :
    ∃ path query, p.setURI (bytes.foldl Decoded.put Decoded.empty) = p.withURI path query ∧
      (∀ c ∈ path ++ query, c ≠ 0 ∧ c ≠ 63) ∧ path.length + query.length ≤ bytes.length := by
  rcases foldl_put_cases bytes with ⟨hno, hfold⟩ |
    ⟨before, after, rfl, hno, temp, hlen, htemp, hfold⟩
  · refine ⟨cString bytes, [], ?_, ?_, ?_⟩
    · rw [hfold]
      simp [setURI, withURI, hp]
    · intro c hc
      obtain ⟨h0, hmem⟩ := mem_cString (by simpa using hc)
      exact ⟨h0, fun heq => hno (heq ▸ hmem)⟩
    · simpa using length_cString_le bytes
  · refine ⟨cString temp, cString after, ?_, ?_, ?_⟩
    · rw [hfold]
      simp [setURI, withURI, cString_nul]
    · intro c hc
      rcases List.mem_append.mp hc with hc | hc
      · obtain ⟨h0, hmem⟩ := mem_cString hc
        exact ⟨h0, fun heq => htemp (heq ▸ hmem)⟩
      · obtain ⟨h0, hmem⟩ := mem_cString hc
        exact ⟨h0, fun heq => hno (heq ▸ hmem)⟩
    · have := length_cString_le temp
      have := length_cString_le after
      rw [List.length_append, List.length_cons]
      omega

theorem setURI_mark {path query : Bytes} (hpath : 0 ∉ path ∧ 63 ∉ path)
    (hquery : 0 ∉ query ∧ 63 ∉ query) :
    p.setURI ((path ++ 63 :: query).foldl Decoded.put Decoded.empty) = p.withURI path query := by
  rw [List.foldl_append, List.foldl_cons, foldl_put_plain hpath.2, foldl_put_plain hquery.2]
  simp [setURI, withURI, Decoded.put, Decoded.empty, cString_nul, cString_eq_self hpath.1,
    cString_eq_self hquery.1]

theorem setURI_plain (hp : p.query_ = []) {path : Bytes} (hpath : 0 ∉ path ∧ 63 ∉ path) :
    p.setURI (path.foldl Decoded.put Decoded.empty) = p.withURI path [] := by
  rw [foldl_put_plain hpath.2]
  simp [setURI, withURI, Decoded.empty, cString_eq_self hpath.1, hp]

end RequestParser

/-! ## ParseURI -/

section ParseURI

variable {p : RequestParser} {bytes after : Bytes} {first last : Nat}

/-- `ParseURI` on a code whose length is an `int`, or comes out as a smaller one. -/
theorem ParseURI_coded (hd : d.drop first = u ++ after) (hl : last = first + u.length)
    (h0 : 0 ≤ toInt u.length) (h1 : toInt u.length + 1 < 2 ^ 31) (h : Coded u bytes) :
    ∃ j : Nat, j ≤ toInt u.length ∧ (toInt u.length = u.length → j = bytes.length) ∧
      p.ParseURI d first last
        = .ok (true, p.setURI ((bytes.take j).foldl Decoded.put Decoded.empty)) := by
  have hdvd := dvd_toInt_sub u.length
  have hle : (toInt u.length).toNat ≤ u.length := by omega
  obtain ⟨j, hj, hfull, hdecode⟩ := decodeURI_coded h Decoded.empty hd hle
  exact ⟨j, by omega, fun heq => hfull (by omega), ParseURI_token p hl h0 h1 hdecode⟩

/-- The strings of a token that is longer than an `int` are too short. -/
theorem fits_of_strings {path query : Bytes} {j : Nat} (h : Coded u bytes)
    (hparts : bytes.length ≤ path.length + query.length + 1) (h1 : toInt u.length + 1 < 2 ^ 31)
    (hj : j ≤ toInt u.length) (hle : path.length + query.length ≤ j) : u.length + 1 < 2 ^ 31 := by
  have hdvd := dvd_toInt_sub u.length
  have hlen := h.length_le
  omega

/-- **A token is taken by the law exactly when it is a lawful one.** -/
theorem ParseURI_iff (hp : p.query_ = []) (hd : d.drop first = u ++ after)
    (hl : last = first + u.length) :
    (∃ r, p.ParseURI d first last = .ok r ∧ DecodesURI p u r) ↔ LawfulToken u := by
  constructor
  · rintro ⟨r, hr, hlaw⟩
    rcases coded_or_bad u with hbad | ⟨path, query, hpath, hquery⟩
    · obtain ⟨before, rest, hu, hno⟩ := hbad
      have hinvalid := hlaw.invalid before rest hu hno
      rcases ParseURI_cases hl hr with hlong | ⟨h0, h1, t, ht⟩
      · exact .inr ⟨hlong, before, rest, hu, hno⟩
      · rw [ParseURI_token p hl h0 h1 ht] at hr
        cases hr
        cases hinvalid
    · have hdecoded := hlaw.decoded path query hpath hquery
      rcases ParseURI_cases hl hr with hlong | ⟨h0, h1, -⟩
      · rw [ParseURI_long p hl hlong] at hr
        cases hr
        cases hdecoded
      · obtain ⟨bytes, hcoded, hparts⟩ : ∃ bytes, Coded u bytes ∧
            bytes.length ≤ path.length + query.length + 1 := by
          rcases coded_parts hpath hquery with ⟨-, hcoded⟩ | ⟨-, rfl, hcoded⟩
          · exact ⟨_, hcoded, by simp; omega⟩
          · exact ⟨_, hcoded, by simp⟩
        obtain ⟨j, hj, -, htoken⟩ := ParseURI_coded (p := p) hd hl h0 h1 hcoded
        obtain ⟨path', query', hset, hclean, hle⟩ := RequestParser.setURI_strings hp (bytes.take j)
        rw [htoken, hset] at hr
        cases hr
        cases hdecoded
        have htake : (bytes.take j).length ≤ j := List.length_take_le j bytes
        refine .inl ⟨fits_of_strings hcoded hparts h1 hj (hle.trans htake),
          ⟨path, hpath, fun h => ?_, fun h => ?_⟩, ⟨query, hquery, fun h => ?_, fun h => ?_⟩⟩
        · exact (hclean 0 (List.mem_append_left _ h)).1 rfl
        · exact (hclean 63 (List.mem_append_left _ h)).2 rfl
        · exact (hclean 0 (List.mem_append_right _ h)).1 rfl
        · exact (hclean 63 (List.mem_append_right _ h)).2 rfl
  · rintro (⟨hlen, ⟨path, hpath, hcleanp⟩, ⟨query, hquery, hcleanq⟩⟩ | ⟨hlong, hbad⟩)
    · have hint : toInt u.length = u.length := toInt_of_lt (by omega) (by omega)
      refine ⟨(true, p.withURI path query), ?_, fun path' query' hpath' hquery' => ?_,
        fun before rest hu hno => (not_coded_of_bad ⟨before, rest, hu, hno⟩ hpath hquery).elim⟩
      · rcases coded_parts hpath hquery with ⟨-, hcoded⟩ | ⟨-, rfl, hcoded⟩
        · obtain ⟨j, -, hfull, htoken⟩ :=
            ParseURI_coded (p := p) hd hl (by omega) (by omega) hcoded
          rw [htoken, hfull hint, List.take_length, RequestParser.setURI_mark hcleanp hcleanq]
        · obtain ⟨j, -, hfull, htoken⟩ :=
            ParseURI_coded (p := p) hd hl (by omega) (by omega) hcoded
          rw [htoken, hfull hint, List.take_length, RequestParser.setURI_plain hp hcleanp]
      · rw [hpath.unique hpath', hquery.unique hquery']
    · refine ⟨_, ParseURI_long p hl hlong, fun path query hpath hquery => ?_, fun _ _ _ _ => rfl⟩
      exact (not_coded_of_bad hbad hpath hquery).elim

end ParseURI

/-- The parser in front of the URI: `query_` is still empty. -/
def atURI : RequestParser :=
  { RequestParser.clear with method_ := .GET, progress_ := .ParsingURI, bytes_ := 4 }

/--
**URI decoding.** In a complete request line `ParseURI` takes a token by the law of percent-coding
exactly when it is a lawful one; and a code that writes `?` as an escape, of a row of bytes without
NUL, is read back exactly when it fits and codes no `?`.
-/
theorem uri_decoding_iff (p : RequestParser) (hp : p.query_ = []) (before version rest : Bytes) :
    (∀ u : Bytes,
      (∃ r, p.ParseURI (before ++ u ++ 32 :: (version ++ 10 :: rest)) before.length
          (before.length + u.length) = .ok r ∧ DecodesURI p u r) ↔ LawfulToken u) ∧
    ∀ bytes text : Bytes, 0 ∉ bytes → Coded text bytes → 63 ∉ text →
      (p.ParseURI (before ++ text ++ 32 :: (version ++ 10 :: rest)) before.length
          (before.length + text.length) = .ok (true, p.withURI bytes []) ↔
        text.length + 1 < 2 ^ 31 ∧ 63 ∉ bytes) := by
  have hdrop : ∀ u : Bytes, (before ++ u ++ 32 :: (version ++ 10 :: rest)).drop before.length
      = u ++ 32 :: (version ++ 10 :: rest) := fun u => by
    rw [List.append_assoc, List.drop_left]
  have hiff := fun u : Bytes => ParseURI_iff hp (hdrop u) rfl
  refine ⟨hiff, fun bytes text hnul hcoded hmark => ?_⟩
  obtain ⟨hpath, hquery⟩ := uri_plain hmark
  have hcodedPath : Coded (uriPath text) bytes := by rwa [hpath]
  have hcodedQuery : Coded (uriQuery text) [] := by
    rw [hquery]
    exact .nil
  constructor
  · intro h
    have hlaw : DecodesURI p text (true, p.withURI bytes []) :=
      ⟨fun path query hp' hq' => by rw [hcodedPath.unique hp', hcodedQuery.unique hq'],
        fun before' after' hu hno =>
          (not_coded_of_bad ⟨before', after', hu, hno⟩ hcodedPath hcodedQuery).elim⟩
    rcases (hiff text).mp ⟨_, h, hlaw⟩ with ⟨hlen, ⟨path, hp', -, hno⟩, -⟩ | ⟨-, hbad⟩
    · rw [hcodedPath.unique hp']
      exact ⟨hlen, hno⟩
    · exact (not_coded_of_bad hbad hcodedPath hcodedQuery).elim
  · rintro ⟨hlen, hno⟩
    obtain ⟨r, hr, hlaw⟩ := (hiff text).mpr (.inl ⟨hlen, ⟨bytes, hcodedPath, hnul, hno⟩,
      ⟨[], hcodedQuery, List.not_mem_nil, List.not_mem_nil⟩⟩)
    rw [hr, hlaw.decoded bytes [] hcodedPath hcodedQuery]

/-- An escaped letter before the question mark, and none after it. -/
theorem uri_decoding_letter :
    atURI.ParseURI (str "GET /%41?b HTTP/1.1\n") 4 10
      = .ok (true, atURI.withURI (str "/A") (str "b")) := by
  have hpath : Coded (str "/%41") (str "/A") := .byte (by decide) (.escape rfl rfl .nil)
  have hquery : Coded (str "b") (str "b") := .byte (by decide) .nil
  obtain ⟨r, hr, hlaw⟩ := ((uri_decoding_iff atURI rfl (str "GET ") (str "HTTP/1.1") []).1
    (str "/%41?b")).mpr (.inl ⟨by decide, ⟨str "/A", hpath, by decide, by decide⟩,
      ⟨str "b", hquery, by decide, by decide⟩⟩)
  rw [hlaw.decoded (str "/A") (str "b") hpath hquery] at hr
  exact hr

/-- `%3F` ends the path, and of two question marks the last one starts the query. -/
theorem uri_marks_decoded :
    (¬∃ r, atURI.ParseURI (str "GET /a%3Fb HTTP/1.1\n") 4 10 = .ok r ∧
      DecodesURI atURI (str "/a%3Fb") r) ∧
    atURI.ParseURI (str "GET /a%3Fb HTTP/1.1\n") 4 10
      = .ok (true, atURI.withURI (str "/a") (str "b")) ∧
    atURI.ParseURI (str "GET /?a?b HTTP/1.1\n") 4 9
      = .ok (true, atURI.withURI (str "/") (str "b")) := by
  have hread : atURI.ParseURI (str "GET /a%3Fb HTTP/1.1\n") 4 10
      = .ok (true, atURI.withURI (str "/a") (str "b")) := by decide +kernel
  have hquery : Coded (str "") (str "") := .nil
  have hpath : Coded (str "/a%3Fb") (str "/a?b") :=
    .byte (by decide) (.byte (by decide) (.escape rfl rfl (.byte (by decide) .nil)))
  refine ⟨fun ⟨r, hr, hlaw⟩ => ?_, hread, by decide +kernel⟩
  have hdecoded := hlaw.decoded (str "/a?b") (str "") hpath hquery
  rw [hread] at hr
  cases hr
  exact absurd hdecoded (by decide +kernel)

end Liby.Http
