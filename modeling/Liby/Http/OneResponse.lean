import Liby.Http.HttpServer

/-!
# One response for each request

`handleReadEvent` clears the parser only after a request for a file that is there, on a connection
that is kept alive. Where the parser stays good a later event comes to the same request again, and
where the file is not there the request has no response.
-/

namespace Liby.Http.HttpLink

open Infra

variable {root_ : Bytes} {fs : FileSystem} {walk : Walk} {l l' : HttpLink}

/-- Every request that was recognised has one response queued, in order. -/
def Exact (l : HttpLink) : Prop := l.world.answered = List.range l.world.recognised

/-- The file that a request names can be opened and has a size. -/
def Serves (root_ : Bytes) (fs : FileSystem) (p : RequestParser) : Prop :=
  ∃ fp ∈ openFile fs (root_ ++ p.uri_), fp.getFileSize ≠ none

instance (root_ : Bytes) (fs : FileSystem) (p : RequestParser) : Decidable (Serves root_ fs p) :=
  match h : openFile fs (root_ ++ p.uri_) with
  | none => isFalse fun ⟨fp, hfp, _⟩ => by rw [h] at hfp; cases hfp
  | some fp => decidable_of_iff (fp.getFileSize ≠ none)
      ⟨fun hs => ⟨fp, h, hs⟩, fun ⟨fp', hfp, hs⟩ => by rw [h] at hfp; cases hfp; exact hs⟩

/--
The pass from here on gets it right: a request that it recognises names a file that is there, and a
parser that is good from before does not come to a file.
-/
def Answerable (root_ : Bytes) (fs : FileSystem) (l : HttpLink) : Prop :=
  l.conn.readBuf_.empty = false →
    if l.world.requestParser.isGood then ¬Serves root_ fs l.world.requestParser
    else ∀ d f, l.conn.readBuf_.data = .ok d → l.world.requestParser.parse d = .ok f →
      f.parser.isGood = true → Serves root_ fs f.parser

/-- A parser that is good from before has had its request counted. -/
def Counted (l : HttpLink) : Prop :=
  l.world.requestParser.isGood = true → 0 < l.world.recognised

/-! ## One pass -/

theorem parse_good {p : RequestParser} (h : p.isGood = true) (d : Bytes) :
    p.parse d = .ok { parser := p, added := 0 } := by
  have hp : p.progress_ = .Good := by simpa [RequestParser.isGood] using h
  unfold RequestParser.parse
  rw [hp]

theorem isError_of_isGood {p : RequestParser} (h : p.isGood = true) : p.isError = false := by
  have hp : p.progress_ = .Good := by simpa [RequestParser.isGood] using h
  unfold RequestParser.isError
  rw [hp]

/-- Where there is no file there is no response. -/
theorem respond_missing (h : ¬Serves root_ fs l.world.requestParser) :
    respond root_ fs walk l = .ok (.done l) := by
  unfold respond
  dsimp only
  split
  · rfl
  · next fp hfp =>
    split
    · rfl
    · next size hsize => exact absurd ⟨fp, hfp, by rw [hsize]; simp⟩ h

/-- Where there is one, there is a response, and the parser is cleared if the loop goes on. -/
theorem respond_serves (hs : Serves root_ fs l.world.requestParser)
    {pass : Pass HttpLink HttpLink} (h : respond root_ fs walk l = .ok pass) :
    pass.out.world.answered = l.world.answered ++ [l.world.recognised - 1] ∧
    pass.out.world.recognised = l.world.recognised ∧
    pass.out.world.requestParser.progress_ = (match pass with
      | .next _ => .ParsingMethod
      | .done _ => l.world.requestParser.progress_) := by
  obtain ⟨fp, hfp, hsize⟩ := hs
  obtain ⟨size, hsize⟩ := Option.ne_none_iff_exists'.mp hsize
  unfold respond at h
  dsimp only at h
  rw [Option.mem_def.mp hfp] at h
  dsimp only at h
  rw [hsize] at h
  dsimp only at h
  obtain ⟨rep, -, h⟩ := bind_eq_ok.mp h
  obtain ⟨l1, hcall, h⟩ := bind_eq_ok.mp h
  have hworld := (Link.still_call hcall).world
  split at h
  · cases h
    exact ⟨by simp [Pass.out, answer, hworld], by simp [Pass.out, answer, hworld], rfl⟩
  · cases h
    exact ⟨by simp [Pass.out, answer, hworld], by simp [Pass.out, answer, hworld], rfl⟩

/-- What a pass does: it finds no bytes, or it parses and may respond. -/
theorem pass_cases {pass : Pass HttpLink HttpLink}
    (h : handleReadEventPass root_ fs walk l = .ok pass) :
    (l.conn.readBuf_.empty = true ∧ pass = .done l) ∨
    ∃ d f readBuf, l.conn.readBuf_.empty = false ∧ l.conn.readBuf_.data = .ok d ∧
      l.world.requestParser.parse d = .ok f ∧
      ((f.parser.isGood = false ∧ ∃ l', pass = .done l' ∧
          l'.world = (parsed l f.parser readBuf).world) ∨
        (f.parser.isGood = true ∧ respond root_ fs walk (parsed l f.parser readBuf) = .ok pass)) := by
  unfold handleReadEventPass at h
  split at h
  · next hempty =>
    cases h
    exact .inl ⟨hempty, rfl⟩
  · next hfull =>
    obtain ⟨d, hd, h1⟩ := bind_eq_ok.mp h
    obtain ⟨f, hf, h2⟩ := bind_eq_ok.mp h1
    obtain ⟨length, -, h3⟩ := bind_eq_ok.mp h2
    obtain ⟨readBuf, -, hrest⟩ := bind_eq_ok.mp h3
    refine .inr ⟨d, f, readBuf, by simpa using hfull, hd, hf, ?_⟩
    dsimp only at hrest
    split at hrest
    · next herr =>
      obtain ⟨l1, hcall, hrest⟩ := bind_eq_ok.mp hrest
      cases hrest
      refine .inl ⟨?_, l1, rfl, (Link.still_call hcall).world⟩
      cases hgood : f.parser.isGood with
      | false => rfl
      | true => rw [isError_of_isGood hgood] at herr; cases herr
    · split at hrest
      · next hgood => exact .inr ⟨hgood, hrest⟩
      · next hgood =>
        cases hrest
        exact .inl ⟨by simpa using hgood, _, rfl, rfl⟩

/-- The responses only become more. -/
theorem pass_answered {pass : Pass HttpLink HttpLink}
    (h : handleReadEventPass root_ fs walk l = .ok pass) :
    l.world.answered <+: pass.out.world.answered := by
  rcases pass_cases h with ⟨-, rfl⟩ | ⟨d, f, readBuf, -, -, -, ⟨-, l', rfl, hworld⟩ | ⟨-, hrespond⟩⟩
  · exact List.prefix_rfl
  · show _ <+: l'.world.answered
    rw [hworld]
    exact List.prefix_rfl
  · by_cases hs : Serves root_ fs (parsed l f.parser readBuf).world.requestParser
    · rw [(respond_serves hs hrespond).1]
      exact List.prefix_append _ _
    · rw [respond_missing hs] at hrespond
      cases hrespond
      exact List.prefix_rfl

/-- A request that was counted before the pass gets a second response, and keeps it. -/
theorem not_nodup_of_twice {n : Nat} (hpos : 0 < n) : ¬(List.range n ++ [n - 1]).Nodup := by
  intro hnodup
  have hdisjoint := (List.nodup_append.mp hnodup).2.2 (n - 1) (List.mem_range.mpr (by omega)) (n - 1)
    (by simp)
  exact hdisjoint rfl

theorem Exact.nodup (h : Exact l) : l.world.answered.Nodup := by
  rw [h]
  exact List.nodup_range

theorem parsed_recognised (f : Parsing) (readBuf : Buffer) (hc : Counted l)
    (h : f.parser.isGood = true) : 0 < (parsed l f.parser readBuf).world.recognised := by
  unfold parsed
  dsimp only
  split
  · exact Nat.succ_pos _
  · next hold => exact hc (by simpa [h] using hold)

theorem pass_counted {pass : Pass HttpLink HttpLink} (hc : Counted l)
    (h : handleReadEventPass root_ fs walk l = .ok pass) : Counted pass.out := by
  rcases pass_cases h with ⟨-, rfl⟩ | ⟨d, f, readBuf, -, -, -, ⟨hnot, l', rfl, hworld⟩ | ⟨hg, hrespond⟩⟩
  · exact hc
  · intro hg
    have hg : l'.world.requestParser.isGood = true := hg
    rw [hworld] at hg
    exact absurd hg (by simp [parsed, hnot])
  · intro _
    have hpos := parsed_recognised f readBuf hc hg
    by_cases hs : Serves root_ fs (parsed l f.parser readBuf).world.requestParser
    · rw [(respond_serves hs hrespond).2.1]
      exact hpos
    · rw [respond_missing hs] at hrespond
      cases hrespond
      exact hpos

/-- A response for the last request that was counted. -/
theorem respond_exact {pass : Pass HttpLink HttpLink} {n : Nat}
    (hanswered : l.world.answered = List.range n) (hn : l.world.recognised = n + 1)
    (h : respond root_ fs walk l = .ok pass) :
    Exact pass.out ↔ Serves root_ fs l.world.requestParser := by
  constructor
  · intro he
    by_contra hs
    rw [respond_missing hs] at h
    cases h
    have hlen := congrArg List.length he
    rw [show (Pass.out (.done l) : HttpLink) = l from rfl, hanswered, hn, List.length_range,
      List.length_range] at hlen
    omega
  · intro hs
    obtain ⟨hmore, hcount, -⟩ := respond_serves hs h
    unfold Exact
    rw [hmore, hcount, hanswered, hn, List.range_succ]
    rfl

/-- A pass on a parser that is good from before: right if the file is not there. -/
theorem pass_still_good {pass : Pass HttpLink HttpLink} (he : Exact l) (hc : Counted l)
    (hgood : l.world.requestParser.isGood = true) (hfull : l.conn.readBuf_.empty = false)
    (h : handleReadEventPass root_ fs walk l = .ok pass) :
    (¬Serves root_ fs l.world.requestParser ∧ Exact pass.out) ∨
      (Serves root_ fs l.world.requestParser ∧ ¬pass.out.world.answered.Nodup) := by
  rcases pass_cases h with ⟨hempty, -⟩ | ⟨d, f, readBuf, -, -, hf, hcase⟩
  · rw [hfull] at hempty
    cases hempty
  · rw [parse_good hgood] at hf
    cases hf
    have hrecognised : (parsed l l.world.requestParser readBuf).world.recognised
        = l.world.recognised := by simp [parsed, hgood]
    have hrespond := (hcase.resolve_left fun hc => by rw [hgood] at hc; cases hc.1).2
    by_cases hs : Serves root_ fs l.world.requestParser
    · obtain ⟨hanswered, -, -⟩ :=
        respond_serves (l := parsed l l.world.requestParser readBuf) hs hrespond
      refine .inr ⟨hs, ?_⟩
      rw [hanswered, hrecognised]
      show ¬(l.world.answered ++ _).Nodup
      rw [he]
      exact not_nodup_of_twice (hc hgood)
    · rw [respond_missing (l := parsed l l.world.requestParser readBuf) hs] at hrespond
      cases hrespond
      refine .inl ⟨hs, ?_⟩
      show l.world.answered = List.range (parsed l l.world.requestParser readBuf).world.recognised
      rw [hrecognised]
      exact he

/-- A pass on a parser that is not good yet: right if a request that is complete now has its file. -/
theorem pass_not_good {pass : Pass HttpLink HttpLink} (he : Exact l)
    (hgood : l.world.requestParser.isGood = false) (hfull : l.conn.readBuf_.empty = false)
    (h : handleReadEventPass root_ fs walk l = .ok pass) :
    ∃ d f, l.conn.readBuf_.data = .ok d ∧ l.world.requestParser.parse d = .ok f ∧
      (Exact pass.out ↔ (f.parser.isGood = true → Serves root_ fs f.parser)) ∧
      ((∃ l', pass = .done l') ∨ Exact pass.out) := by
  rcases pass_cases h with ⟨hempty, -⟩ | ⟨d, f, readBuf, -, hd, hf, ⟨hnot, l', rfl, hworld⟩ | ⟨hnow, hrespond⟩⟩
  · rw [hfull] at hempty
    cases hempty
  · refine ⟨d, f, hd, hf, ⟨fun _ hg => ?_, fun _ => ?_⟩, .inl ⟨l', rfl⟩⟩
    · rw [hnot] at hg
      cases hg
    · have hcount : l'.world.recognised = l.world.recognised := by rw [hworld]; simp [parsed, hnot]
      have hsame : l'.world.answered = l.world.answered := by rw [hworld]; rfl
      show l'.world.answered = List.range l'.world.recognised
      rw [hcount, hsame]
      exact he
  · have hiff := respond_exact (l := parsed l f.parser readBuf) he
      (by simp [parsed, hnow, hgood]) hrespond
    refine ⟨d, f, hd, hf, hiff.trans ⟨fun hs _ => hs, fun hs => hs hnow⟩, ?_⟩
    by_cases hs : Serves root_ fs f.parser
    · exact .inr (hiff.mpr hs)
    · rw [respond_missing (l := parsed l f.parser readBuf) hs] at hrespond
      cases hrespond
      exact .inl ⟨_, rfl⟩

/-- **A pass keeps the count exactly if it is right; a wrong one is the last, or cannot be mended.** -/
theorem pass_exact {pass : Pass HttpLink HttpLink} (he : Exact l) (hc : Counted l)
    (h : handleReadEventPass root_ fs walk l = .ok pass) :
    (Answerable root_ fs l ∧ Exact pass.out) ∨
    (¬Answerable root_ fs l ∧ ¬Exact pass.out ∧
      (¬pass.out.world.answered.Nodup ∨ ∃ l', pass = .done l')) := by
  unfold Answerable
  cases hfull : l.conn.readBuf_.empty with
  | true =>
    rcases pass_cases h with ⟨-, rfl⟩ | ⟨d, f, readBuf, hne, -⟩
    · exact .inl ⟨fun hne => (by cases hne), he⟩
    · rw [hfull] at hne
      cases hne
  | false =>
    rw [imp_iff_right rfl]
    cases hgood : l.world.requestParser.isGood with
    | true =>
      rw [if_pos rfl]
      rcases pass_still_good he hc hgood hfull h with ⟨hs, he'⟩ | ⟨hs, htwice⟩
      · exact .inl ⟨hs, he'⟩
      · exact .inr ⟨not_not_intro hs, fun he' => htwice he'.nodup, .inl htwice⟩
    | false =>
      rw [if_neg Bool.false_ne_true]
      obtain ⟨d, f, hd, hf, hiff, hlast⟩ := pass_not_good he hgood hfull h
      by_cases hs : f.parser.isGood = true → Serves root_ fs f.parser
      · refine .inl ⟨fun d' f' hd' hf' hg => ?_, hiff.mpr hs⟩
        rw [hd] at hd'
        cases hd'
        rw [hf] at hf'
        cases hf'
        exact hs hg
      · have he' : ¬Exact pass.out := fun he' => hs (hiff.mp he')
        exact .inr ⟨fun hall => hs (hall d f hd hf), he', .inr (hlast.resolve_right he')⟩

/-! ## A read event -/

/-- A response that was queued twice stays so to the end of the loop. -/
theorem passes_twice : ∀ {n : Nat} {l l' : HttpLink},
    Loop.passes (handleReadEventPass root_ fs walk) n l = some (.ok l') →
    ¬l.world.answered.Nodup → ¬l'.world.answered.Nodup
  | 0, _, _, h, _ => by cases h
  | n + 1, l, l', h, htwice => by
    rw [Loop.passes] at h
    split at h
    · cases h
    · next r hpass =>
      cases h
      exact fun hnodup => htwice (hnodup.sublist (pass_answered hpass).sublist)
    · next t hpass =>
      exact passes_twice h fun hnodup => htwice (hnodup.sublist (pass_answered hpass).sublist)

theorem passes_counted : ∀ {n : Nat} {l l' : HttpLink}, Counted l →
    Loop.passes (handleReadEventPass root_ fs walk) n l = some (.ok l') → Counted l'
  | 0, _, _, _, h => by cases h
  | n + 1, l, l', hc, h => by
    rw [Loop.passes] at h
    split at h
    · cases h
    · next r hpass =>
      cases h
      exact pass_counted hc hpass
    · next t hpass => exact passes_counted (l := t) (pass_counted hc hpass) h

/-- **The loop keeps the count exactly if each of its passes gets it right.** -/
theorem passes_exact : ∀ {n : Nat} {l l' : HttpLink}, Exact l → Counted l →
    Loop.passes (handleReadEventPass root_ fs walk) n l = some (.ok l') →
    (Exact l' ↔ ∀ t, Loop.Reached (handleReadEventPass root_ fs walk) l t → Answerable root_ fs t)
  | 0, _, _, _, _, h => by cases h
  | n + 1, l, l', he, hc, h => by
    rw [Loop.passes] at h
    split at h
    · cases h
    · next r hpass =>
      cases h
      rcases pass_exact he hc hpass with ⟨hanswer, he'⟩ | ⟨hanswer, hne, -⟩
      · refine ⟨fun _ t ht => ?_, fun _ => he'⟩
        rcases ht.cases_start with rfl | ⟨s, hs, -⟩
        · exact hanswer
        · rw [hpass] at hs
          cases hs
      · exact ⟨fun he' => absurd he' hne, fun hall => absurd (hall l .refl) hanswer⟩
    · next t hpass =>
      rcases pass_exact he hc hpass with ⟨hanswer, he'⟩ | ⟨hanswer, -, htwice | ⟨r, hr⟩⟩
      · have hiff := passes_exact (l := t) he' (pass_counted hc hpass) h
        refine hiff.trans ⟨fun hall u hu => ?_, fun hall u hu => ?_⟩
        · rcases hu.cases_start with rfl | ⟨s, hs, hreached⟩
          · exact hanswer
          · rw [hpass] at hs
            cases hs
            exact hall u hreached
        · exact hall u ((Loop.Reached.refl.step hpass).trans hu)
      · have htwice' := passes_twice h htwice
        exact ⟨fun he' => absurd he'.nodup htwice', fun hall => absurd (hall l .refl) hanswer⟩
      · cases hr

/-! ## Runs -/

/-- All passes of a read event get it right. -/
def Answers (root_ : Bytes) (l : HttpLink) : HttpEvent → Prop
  | .read bytes fs walk => ∀ conn, l.conn.receive bytes = .ok conn → conn.readEventCallback_ = true →
      ∀ t, Loop.Reached (handleReadEventPass root_ fs walk) { l with conn := conn } t →
        Answerable root_ fs t
  | .writ _ | .tick => True

theorem handleReadEvent_passes (h : handleReadEvent root_ fs walk l = .ok l') :
    ∃ n, Loop.passes (handleReadEventPass root_ fs walk) n l = some (.ok l') := by
  unfold handleReadEvent at h
  split at h
  · next r hr =>
    cases h
    exact ⟨_, hr⟩
  · cases h

/-- A read event puts the bytes into the buffer, and goes through its passes if there is a callback. -/
theorem step_read (h : l.step root_ (.read bytes fs walk) = .ok l') : l.conn.destroy_ = false ∧
    ∃ conn, l.conn.receive bytes = .ok conn ∧
      (conn.readEventCallback_ = true ∧
          (∃ n, Loop.passes (handleReadEventPass root_ fs walk) n { l with conn := conn } = some (.ok l')) ∨
        conn.readEventCallback_ ≠ true ∧ l' = { l with conn := conn }) := by
  obtain ⟨u, hguard, h⟩ := bind_eq_ok.mp h
  obtain ⟨availble, -, h⟩ := bind_eq_ok.mp h
  obtain ⟨u', -, h⟩ := bind_eq_ok.mp h
  obtain ⟨conn, hconn, h⟩ := bind_eq_ok.mp h
  refine ⟨(guardOr_eq_ok.mp hguard).1, conn, hconn, ?_⟩
  dsimp only at h
  split at h
  · next hcallback => exact .inl ⟨hcallback, handleReadEvent_passes h⟩
  · next hcallback =>
    cases h
    exact .inr ⟨hcallback, rfl⟩

theorem step_counted {e : HttpEvent} (hc : Counted l) (h : l.step root_ e = .ok l') :
    Counted l' := by
  cases e with
  | read bytes fs walk =>
    obtain ⟨-, conn, -, ⟨-, n, hn⟩ | ⟨-, rfl⟩⟩ := step_read h
    · exact passes_counted (l := { l with conn := conn }) hc hn
    · exact hc
  | writ as =>
    obtain ⟨u, -, hrest⟩ := bind_eq_ok.mp h
    unfold Counted
    rw [(Link.still_handleWritEvent still_httpCallbacks hrest).world]
    exact hc
  | tick =>
    obtain ⟨conn, -, h⟩ := bind_eq_ok.mp h
    cases h
    exact hc

/-- **An event keeps the count exactly if all its passes get it right.** -/
theorem step_exact {e : HttpEvent} (he : Exact l) (hc : Counted l) (h : l.step root_ e = .ok l') :
    Exact l' ↔ Answers root_ l e := by
  cases e with
  | read bytes fs walk =>
    obtain ⟨-, conn, hconn, ⟨hcallback, n, hn⟩ | ⟨hcallback, rfl⟩⟩ := step_read h
    · refine (passes_exact (l := { l with conn := conn }) he hc hn).trans
        ⟨fun hall conn' hconn' _ => ?_, fun hall => hall conn hconn hcallback⟩
      rw [hconn] at hconn'
      cases hconn'
      exact hall
    · refine ⟨fun _ conn' hconn' hcallback' => ?_, fun _ => he⟩
      rw [hconn] at hconn'
      cases hconn'
      exact absurd hcallback' hcallback
  | writ as =>
    obtain ⟨u, -, hrest⟩ := bind_eq_ok.mp h
    have hworld := (Link.still_handleWritEvent still_httpCallbacks hrest).world
    have he' : Exact l' := by
      unfold Exact
      rw [hworld]
      exact he
    exact ⟨fun _ => trivial, fun _ => he'⟩
  | tick =>
    obtain ⟨conn, -, h⟩ := bind_eq_ok.mp h
    cases h
    exact ⟨fun _ => trivial, fun _ => he⟩

/--
**In a run of the server, every state has one response for each request exactly if every pass gets
it right**: no pass comes to the file of a request that was recognised in an earlier event, and
every request that a pass recognises names a file that is there.
-/
theorem one_response_iff (root_ : Bytes) (es : List HttpEvent) (l : HttpLink)
    (hrun : run (step root_) accepted es = .ok l) :
    (∀ es' l', es' <+: es → run (step root_) accepted es' = .ok l' → Exact l') ↔
      Along (step root_) (Answers root_) accepted es := by
  have hexact : Exact accepted := rfl
  have hcounted : Counted accepted := fun h => by cases h
  exact (along_iff_invariant_of (fun _ _ _ hc ht => step_counted hc ht)
    (fun _ _ _ hc he ht => step_exact he hc ht) hcounted hexact hrun).symm

/-- A site with one file. -/
def oneFile : FileSystem := fun path =>
  if path = str "www/a" then some { content := str "hi", stat := true } else none

/-- Two requests that keep the connection alive, the second one in two pieces. -/
theorem one_response_iff_twice :
    let es : List HttpEvent :=
      [.read (str "GET /a HTTP/1.1\r\nConnection: keep-alive\r\n\r\nGET /a HTTP/1.1\r\n") oneFile .listed,
        .read (str "Connection: keep-alive\r\n\r\n") oneFile .listed]
    ∃ l, run (step (str "www")) accepted es = .ok l ∧ l.world.answered = [0, 1] ∧
      ((∀ es' l', es' <+: es → run (step (str "www")) accepted es' = .ok l' → Exact l') ↔
        Along (step (str "www")) (Answers (str "www")) accepted es) := by
  intro es
  have hrun : (run (step (str "www")) accepted es).map (fun l => l.world.answered)
      = .ok [0, 1] := by decide +kernel
  cases hl : run (step (str "www")) accepted es with
  | error f => rw [hl] at hrun; cases hrun
  | ok l =>
    rw [hl] at hrun
    exact ⟨l, rfl, Except.ok.inj hrun, one_response_iff (str "www") es l hl⟩

/--
A request without `keep-alive` has a second response as soon as one more byte comes; a request for
a file that is not there has none.
-/
theorem responses_not_exact :
    (∃ l, run (step (str "www")) accepted
        [.read (str "GET /a HTTP/1.1\r\n\r\n") oneFile .listed, .read (str "G") oneFile .listed] = .ok l ∧
      l.world.recognised = 1 ∧ l.world.answered = [0, 0] ∧ ¬Exact l) ∧
    (∃ l, run (step (str "www")) accepted
        [.read (str "GET /b HTTP/1.1\r\nConnection: keep-alive\r\n\r\n") oneFile .listed] = .ok l ∧
      l.world.recognised = 1 ∧ l.world.answered = [] ∧ ¬Exact l) := by
  have hcount : ∀ {es : List HttpEvent} {n : Nat} {answered : List Nat},
      (run (step (str "www")) accepted es).map (fun l => (l.world.recognised, l.world.answered))
        = .ok (n, answered) → answered ≠ List.range n →
      ∃ l, run (step (str "www")) accepted es = .ok l ∧ l.world.recognised = n ∧
        l.world.answered = answered ∧ ¬Exact l := by
    intro es n answered hrun hne
    cases hl : run (step (str "www")) accepted es with
    | error f => rw [hl] at hrun; cases hrun
    | ok l =>
      rw [hl] at hrun
      cases hrun
      exact ⟨l, rfl, rfl, rfl, hne⟩
  exact ⟨hcount (by decide +kernel) (by decide), hcount (by decide +kernel) (by decide)⟩

end Liby.Http.HttpLink
