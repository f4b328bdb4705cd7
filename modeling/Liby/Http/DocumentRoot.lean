import Liby.Http.HttpServer
import Liby.Http.RequestLine
import Liby.Infra.Path

/-!
# The document root

The path that `handleReadEvent` opens is `root_` with the target of the request after it, as it was
decoded. Nothing looks at the components of the target, so the path stays below `root_` only if they
do.
-/

namespace Liby.Http

open Infra

/-! ## The target -/

/--
The pathname that the next `n` bytes say: their percent escapes are resolved, and the first question
mark or NUL ends it, however it is written.
-/
def pathname : Nat → Bytes → Bytes
  | 0, _ => []
  | _ + 1, [] => []
  | n + 1, c :: rest =>
    if c = 37 then
      match rest with
      | c1 :: c2 :: rest =>
        let c := hexDigit c1 * 16 + hexDigit c2
        if c = 63 ∨ c = 0 then [] else c :: pathname (n - 2) rest
      | _ => []
    else if c = 63 ∨ c = 0 then []
    else c :: pathname n rest

theorem pathname_escape (n : Nat) (c1 c2 : UInt8) (rest : Bytes) :
    pathname (n + 1) (37 :: c1 :: c2 :: rest) =
      if hexDigit c1 * 16 + hexDigit c2 = 63 ∨ hexDigit c1 * 16 + hexDigit c2 = 0 then []
      else (hexDigit c1 * 16 + hexDigit c2) :: pathname (n - 2) rest := rfl

theorem pathname_plain (n : Nat) {c : UInt8} (h : c ≠ 37) (rest : Bytes) :
    pathname (n + 1) (c :: rest) = if c = 63 ∨ c = 0 then [] else c :: pathname n rest := by
  conv_lhs => unfold pathname
  rw [if_neg h]

/-- The pathname of the target of a request, which stands between the first two blanks. -/
def requestTarget (d : Bytes) : Bytes :=
  let rest := (d.dropWhile (· ≠ 32)).tail
  -- the length of the target is an `int`
  pathname (toInt (rest.takeWhile (· ≠ 32)).length).toNat rest

theorem requestTarget_tokens {method token tail : Bytes} (hmethod : 32 ∉ method) (htoken : 32 ∉ token) :
    requestTarget (method ++ 32 :: (token ++ 32 :: tail)) =
      pathname (toInt token.length).toNat (token ++ 32 :: tail) := by
  have hskip : ∀ {l : Bytes}, 32 ∉ l → ∀ c ∈ l, decide (c ≠ (32 : UInt8)) = true := by
    intro l hno c hc
    exact decide_eq_true fun heq => hno (heq ▸ hc)
  unfold requestTarget
  rw [List.dropWhile_append_of_pos (hskip hmethod), List.dropWhile_cons_of_neg (by simp), List.tail_cons]
  dsimp only
  rw [List.takeWhile_append_of_pos (hskip htoken), List.takeWhile_cons_of_neg (by simp), List.append_nil]

theorem Decoded.put_temp (t : Decoded) (c : UInt8) :
    (t.put c).temp = t.temp ++ [if c = 63 then 0 else c] := by
  unfold Decoded.put
  split <;> rfl

/-- The loop of `ParseURI` only adds to what is decoded. -/
theorem decodeURI_prefix {d : Bytes} (n : Nat) {src : Nat} {t t' : Decoded}
    (h : decodeURI d src n t = .ok t') : t.temp <+: t'.temp := by
  induction n using Nat.strong_induction_on generalizing src t with
  | _ n ih =>
    cases n with
    | zero =>
      rw [decodeURI] at h
      cases h
      exact List.prefix_refl _
    | succ n =>
      rw [decodeURI] at h
      obtain ⟨c, -, h⟩ := bind_eq_ok.mp h
      have hput : ∀ c, t.temp <+: (t.put c).temp := fun c => by
        rw [Decoded.put_temp]
        exact List.prefix_append _ _
      split at h
      · obtain ⟨c', -, h⟩ := bind_eq_ok.mp h
        exact (hput c').trans (ih (n - 2) (by omega) h)
      · exact (hput c).trans (ih n (by omega) h)

theorem ne_zero_of_not_mem {temp : Bytes} (hno : 0 ∉ temp) :
    ∀ c ∈ temp, decide (c ≠ (0 : UInt8)) = true :=
  fun _ hc => decide_eq_true fun heq => hno (heq ▸ hc)

theorem cString_stop {front temp : Bytes} (hno : 0 ∉ front) (h : front ++ [0] <+: temp) :
    cString temp = front := by
  obtain ⟨rest, rfl⟩ := h
  unfold cString
  rw [List.append_assoc, List.takeWhile_append_of_pos (ne_zero_of_not_mem hno), List.singleton_append,
    List.takeWhile_cons_of_neg (by simp), List.append_nil]

/-- **What `uri_` becomes is the pathname.** -/
theorem cString_decodeURI {d : Bytes} (n : Nat) {src : Nat} {t t' : Decoded} (hno : 0 ∉ t.temp)
    (h : decodeURI d src n t = .ok t') : cString t'.temp = t.temp ++ pathname n (d.drop src) := by
  induction n using Nat.strong_induction_on generalizing src t with
  | _ n ih =>
    cases n with
    | zero =>
      rw [decodeURI] at h
      cases h
      rw [pathname, List.append_nil]
      exact List.takeWhile_eq_self_iff.mpr (ne_zero_of_not_mem hno)
    | succ n =>
      rw [decodeURI] at h
      obtain ⟨c, hc, h⟩ := bind_eq_ok.mp h
      -- a byte that is decoded, with `k` bytes left from `next` on
      have hnext : ∀ {c : UInt8} {k next : Nat}, k < n + 1 → decodeURI d next k (t.put c) = .ok t' →
          cString t'.temp = t.temp ++
            (if c = 63 ∨ c = 0 then [] else c :: pathname k (d.drop next)) := by
        intro c k next hk hrest
        by_cases hend : c = 63 ∨ c = 0
        · have hzero : (if c = 63 then 0 else c) = 0 := by
            rcases hend with rfl | rfl <;> rfl
          rw [if_pos hend, List.append_nil]
          refine cString_stop hno ?_
          rw [← hzero, ← Decoded.put_temp]
          exact decodeURI_prefix k hrest
        · have hc : (t.put c).temp = t.temp ++ [c] := by
            rw [Decoded.put_temp, if_neg fun heq => hend (.inl heq)]
          have hno' : 0 ∉ (t.put c).temp := by
            rw [hc]
            simp only [List.mem_append, List.mem_singleton, not_or]
            exact ⟨hno, fun heq => hend (.inr heq.symm)⟩
          rw [if_neg hend, ih k hk hno' hrest, hc, List.append_assoc]
          rfl
      obtain ⟨hlt, rfl⟩ := List.getElem?_eq_some_iff.mp (readAt_eq_ok.mp hc)
      rw [List.drop_eq_getElem_cons hlt]
      split at h
      · next h37 =>
        obtain ⟨c', hc', h⟩ := bind_eq_ok.mp h
        rw [h37]
        unfold parseHex at hc'
        obtain ⟨c1, hc1, hc'⟩ := bind_eq_ok.mp hc'
        obtain ⟨c2, hc2, hc'⟩ := bind_eq_ok.mp hc'
        cases hc'
        obtain ⟨hlt1, rfl⟩ := List.getElem?_eq_some_iff.mp (readAt_eq_ok.mp hc1)
        obtain ⟨hlt2, rfl⟩ := List.getElem?_eq_some_iff.mp (readAt_eq_ok.mp hc2)
        rw [List.drop_eq_getElem_cons hlt1, List.drop_eq_getElem_cons hlt2, pathname_escape]
        exact hnext (by omega) h
      · next h37 =>
        rw [pathname_plain n h37]
        exact hnext (Nat.lt_succ_self n) h

/-! ## The parser -/

namespace RequestParser

/-- A parser that has no request, or one whose target is `target`. -/
def Told (target : Bytes) (p : RequestParser) : Prop :=
  p.isError = true ∨ p.uri_ = target ∧ (p.progress_ = .Good ∨ p.progress_ = .ParsingHeaders)

variable {target : Bytes} {p : RequestParser}

theorem Told.uri_eq (h : Told target p) (hgood : p.isGood = true) : p.uri_ = target := by
  rcases h with herror | ⟨huri, -⟩
  · unfold isGood at hgood
    unfold isError at herror
    rw [beq_iff_eq.mp hgood] at herror
    cases herror
  · exact huri

end RequestParser

namespace Parsing

open RequestParser

variable {target d : Bytes} {f g : Parsing}

theorem parseHeaders_told {first : Nat} (hf : f.parser.uri_ = target)
    (hheaders : f.parser.progress_ = .ParsingHeaders) (h : f.parseHeaders d first = .ok g) :
    Told target g.parser := by
  induction hn : d.length + 1 - first using Nat.strong_induction_on generalizing f first with
  | _ n ih =>
    rw [parseHeaders_eq] at h
    split at h
    · cases h
      exact .inr ⟨hf, .inr hheaders⟩
    · obtain ⟨finish, hfind, h⟩ := bind_eq_ok.mp h
      split at h
      · cases h
        exact .inr ⟨hf, .inl rfl⟩
      · obtain ⟨last, -, h⟩ := bind_eq_ok.mp h
        obtain ⟨headers_, -, h⟩ := bind_eq_ok.mp h
        have hle : first ≤ finish ∧ first ≤ d.length := by
          unfold Cursor.find at hfind
          split at hfind
          · next hrange =>
            cases hfind
            exact ⟨Nat.le_add_right _ _, hrange.1⟩
          · cases hfind
        refine ih (d.length + 1 - (finish + 1)) (by omega) ?_ ?_ h rfl
        · exact hf
        · exact hheaders

theorem parseVersion_told {first : Nat} (hf : f.parser.uri_ = target)
    (h : f.parseVersion d first = .ok g) : Told target g.parser := by
  unfold parseVersion at h
  obtain ⟨finish, -, h⟩ := bind_eq_ok.mp h
  obtain ⟨last, -, h⟩ := bind_eq_ok.mp h
  obtain ⟨⟨flag, parser⟩, hversion, h⟩ := bind_eq_ok.mp h
  have hparser : flag = true ∧ parser.uri_ = target ∧ parser.progress_ = .ParsingHeaders ∨
      flag = false ∧ parser.isError = true := by
    unfold RequestParser.ParseHttpVersion at hversion
    obtain ⟨_, -, hversion⟩ := bind_eq_ok.mp hversion
    split at hversion
    · cases hversion
      exact .inr ⟨rfl, rfl⟩
    · split at hversion
      · cases hversion
        exact .inl ⟨rfl, hf, rfl⟩
      · split at hversion
        · cases hversion
          exact .inl ⟨rfl, hf, rfl⟩
        · cases hversion
          exact .inr ⟨rfl, rfl⟩
  dsimp only at h
  rcases hparser with ⟨rfl, huri, hheaders⟩ | ⟨rfl, herror⟩
  · rw [if_pos rfl] at h
    refine parseHeaders_told ?_ ?_ h
    · exact huri
    · exact hheaders
  · rw [if_neg Bool.false_ne_true] at h
    cases h
    exact .inl herror

/-- **The target of a request is the pathname in its first line.** -/
theorem parseMethod_told (h : f.parseMethod d 0 = .ok g) : Told (requestTarget d) g.parser := by
  by_cases hmem : (32 : UInt8) ∈ d
  · obtain ⟨method, rest, rfl, hmethod⟩ := List.eq_append_cons_of_mem hmem
    cases hm : methods method with
    | none =>
      have heq : f.parseMethod (method ++ 32 :: rest) 0 = _ :=
        parseMethod_unknown f [] method (32 :: rest) (by simp) rfl
          (find_blank [] method rest rfl rfl hmethod) hm
      rw [heq] at h
      cases h
      exact .inl rfl
    | some name =>
      have heq : f.parseMethod (method ++ 32 :: rest) 0 = _ :=
        parseMethod_token f [] method rest rfl rfl hmethod hm
      rw [heq] at h
      have hlen : 0 + method.length + 1 = (method ++ [32]).length := by simp
      by_cases hmem' : (32 : UInt8) ∈ rest
      · obtain ⟨token, tail, rfl, htoken⟩ := List.eq_append_cons_of_mem hmem'
        have hd : method ++ 32 :: (token ++ 32 :: tail) = method ++ [32] ++ (token ++ 32 :: tail) := by
          simp
        by_cases hlong : toInt token.length + 1 < 0
        · rw [parseURI_long _ (method ++ [32]) token tail hd hlen htoken hlong] at h
          cases h
          exact .inl rfl
        · obtain ⟨h0, h1, t, ht⟩ := parseURI_decoded _ (method ++ [32]) token tail hd hlen htoken hlong h
          rw [parseURI_token _ (method ++ [32]) token tail hd hlen htoken h0 h1 ht] at h
          refine parseVersion_told ?_ h
          show cString t.temp = _
          rw [cString_decodeURI _ List.not_mem_nil ht, requestTarget_tokens hmethod htoken, hlen, hd,
            List.drop_left]
          exact List.nil_append _
      · have hd : method ++ 32 :: rest = method ++ [32] ++ rest := by simp
        have hg := (parseURI_unfinished _ (method ++ [32]) rest hd hlen hmem' h).2
        rw [hg]
        exact .inl rfl
  · cases hm : methods d with
    | none =>
      have heq : f.parseMethod d 0 = _ :=
        parseMethod_unknown f [] d [] (by simp) rfl (find_blank_none [] d rfl rfl hmem) hm
      rw [heq] at h
      cases h
      exact .inl rfl
    | some name =>
      exact absurd h (parseMethod_unfinished f [] d rfl rfl hmem (by rw [hm]; exact Option.some_ne_none _) g)

end Parsing

namespace RequestParser

/-- `parse` on a block. -/
def parseBlock (p : RequestParser) (d : Bytes) : Exec RequestParser := do
  let f ← p.parse d
  return f.parser

variable {target d : Bytes} {p p' : RequestParser}

theorem parseBlock_new (h : clear.parseBlock d = .ok p) : Told (requestTarget d) p := by
  obtain ⟨g, hg, h⟩ := bind_eq_ok.mp h
  cases h
  exact Parsing.parseMethod_told hg

theorem Told.parseBlock (hp : Told target p) (h : p.parseBlock d = .ok p') : Told target p' := by
  obtain ⟨g, hg, h⟩ := bind_eq_ok.mp h
  cases h
  unfold parse at hg
  rcases hp with herror | ⟨huri, hgood | hheaders⟩
  · have hsame : g.parser = p := by
      unfold isError at herror
      cases hprogress : p.progress_ <;> rw [hprogress] at herror hg <;>
        first | (cases hg; rfl) | cases herror
    rw [hsame]
    exact .inl herror
  · rw [hgood] at hg
    cases hg
    exact .inr ⟨huri, .inl hgood⟩
  · rw [hheaders] at hg
    exact Parsing.parseHeaders_told huri hheaders hg

/-- **The target of a request that comes in any blocks is the pathname in the first one.** -/
theorem run_parseBlock_told : ∀ {ds : List Bytes}, run parseBlock clear (d :: ds) = .ok p →
    Told (requestTarget d) p := by
  intro ds h
  obtain ⟨p₁, h₁, hrest⟩ := run_cons_ok h
  exact run_invariant (fun _ _ _ hp hstep => hp.parseBlock hstep) (parseBlock_new h₁) hrest

end RequestParser

/-! ## The path -/

open RequestParser

namespace HttpLink

/-- The path that a pass of `handleReadEvent` opens, if it comes to that. -/
def opens (root_ : Bytes) (l : HttpLink) : Option Bytes :=
  match l.conn.readBuf_.data >>= l.world.requestParser.parseBlock with
  | .error _ => none
  | .ok p => if p.isGood then some (root_ ++ p.uri_) else none

/-- A pass of `handleReadEvent` asks for this path only. -/
theorem handleReadEventPass_opens (root_ : Bytes) {fs fs' : FileSystem} (l : HttpLink)
    (h : ∀ path, opens root_ l = some path → fs path = fs' path) :
    handleReadEventPass root_ fs walk l = handleReadEventPass root_ fs' walk l := by
  unfold handleReadEventPass
  split
  · rfl
  · unfold opens RequestParser.parseBlock at h
    cases hdata : l.conn.readBuf_.data with
    | error e => rfl
    | ok d =>
      rw [hdata, ok_bind] at h
      rw [ok_bind, ok_bind]
      cases hparse : l.world.requestParser.parse d with
      | error e => rfl
      | ok f =>
        rw [hparse, ok_bind] at h
        rw [ok_bind, ok_bind]
        refine congrArg _ (funext fun length => congrArg _ (funext fun readBuf => ?_))
        dsimp only
        split
        · rfl
        · split
          · next hgood =>
            have hpath := h (root_ ++ f.parser.uri_) (if_pos hgood)
            have hfile : openFile fs (root_ ++ f.parser.uri_) = openFile fs' (root_ ++ f.parser.uri_) := by
              unfold openFile
              rw [hpath]
            unfold respond parsed
            dsimp only
            rw [hfile]
          · rfl

end HttpLink

/-- **Served files stay under the document root exactly if the target of the request does.** -/
theorem served_below_iff (root_ : Bytes) {d : Bytes} {ds : List Bytes} {p : RequestParser}
    (h : run parseBlock clear (d :: ds) = .ok p) (hgood : p.isGood = true) :
    Place.Below (Path.normalise root_) (Path.normalise (root_ ++ p.uri_)) ↔
      Path.StaysBelow root_ (requestTarget d) := by
  rw [(run_parseBlock_told h).uri_eq hgood]
  exact Path.below_append_iff root_ (requestTarget d)

/-- A target that leaves a directory and comes back, in a request of two blocks. -/
theorem served_below_two : ∃ p,
    run parseBlock clear [str "GET /a/../b.html HTTP/1.1\r\n", str "Host: x\r\n\r\n"] = .ok p ∧
      Place.Below (Path.normalise (str "/srv/www")) (Path.normalise (str "/srv/www" ++ p.uri_)) := by
  have hsees : (run parseBlock clear
      [str "GET /a/../b.html HTTP/1.1\r\n", str "Host: x\r\n\r\n"]).toOption.map isGood = some true := by
    decide +kernel
  obtain ⟨p, hrun, hgood⟩ := ok_of_toOption_map hsees
  exact ⟨p, hrun, (served_below_iff (str "/srv/www") hrun hgood).mpr (by decide +kernel)⟩

/-- The server opens a file outside of its document root, for a target with its dots as escapes. -/
theorem served_outside : ∃ p,
    run parseBlock clear [str "GET /%2e%2e%2fsecret?x HTTP/1.1\r\n\r\n"] = .ok p ∧ p.isGood = true ∧
      str "/srv/www" ++ p.uri_ = str "/srv/www/../secret" ∧
      ¬Place.Below (Path.normalise (str "/srv/www")) (Path.normalise (str "/srv/www" ++ p.uri_)) := by
  have hsees : (run parseBlock clear [str "GET /%2e%2e%2fsecret?x HTTP/1.1\r\n\r\n"]).toOption.map
      (fun p => (p.isGood, p.uri_)) = some (true, str "/../secret") := by
    decide +kernel
  obtain ⟨p, hrun, heq⟩ := ok_of_toOption_map hsees
  obtain ⟨hgood, huri⟩ := Prod.mk.inj heq
  refine ⟨p, hrun, hgood, ?_, ?_⟩
  · rw [huri]
    decide +kernel
  · rw [huri]
    decide +kernel

end Liby.Http
