import Liby.Buffer.Contents
import Liby.Http.HttpClient
import Liby.Http.ReplyCount

/-!
# When `HttpClient` is stuck on its read buffer

`handleReadEvent` has no exit for a parser that needs more data. A pass that takes no byte is one
whose parser waits, and such a pass may come back for ever.
-/

namespace Liby.Http.ReadingClient

open Infra

variable {σ H : Type _} {handle : Handle σ H} {s t : ReadingClient σ H}

/-- The window of `readBuf` lies in its block, and `bytes_` has the value of an `int`. -/
structure Valid (s : ReadingClient σ H) : Prop where
  wf : s.readBuf.Wf
  inInt : InInt s.client.parser_.bytes_

/-- A call of `parse` that brings `bytes_` round to its old value. -/
def WrapsRound (s : ReadingClient σ H) (p : ReplyParser) : Prop :=
  ∃ block first last added, s.readBuf.range = .ok (block, first, last) ∧
    s.client.parser_.parse block first last = .ok { parser := p, added := added } ∧
    p.isError = false ∧ 0 < added ∧ 2 ^ 32 ∣ added

/-- There is a request for the reply of `p`, and its handler returns. -/
def Replies (handle : Handle σ H) (s : ReadingClient σ H) (p : ReplyParser) : Prop :=
  ∃ r, reply handle { s.client with parser_ := p } s.world = .ok r

/-- A state whose pass goes on and takes nothing from a buffer that is not empty. -/
def Stalled (handle : Handle σ H) (s : ReadingClient σ H) : Prop :=
  s.readBuf.contents ≠ [] ∧
  ∃ p, (s.client.parser_.Waits s.readBuf.contents p ∨ s.WrapsRound p) ∧
    (p.isGood = true → Replies handle s p)

/-- A parser that waits has found no error. -/
theorem waits_not_error {p p' : ReplyParser} {rest : Bytes} (h : p.Waits rest p') :
    p'.isError = false := by
  unfold ReplyParser.isError
  rcases h with hp | ⟨hp, -⟩ | ⟨-, -⟩ | ⟨hp, -⟩
  · rw [hp]
  · rw [hp]
  · rfl
  · rw [hp]

/-- `reply` leaves a parser that is cleared. -/
theorem reply_bytes {c c' : HttpClient H} {w w' : σ} (h : reply handle c w = .ok (c', w')) :
    c'.parser_.bytes_ = 0 := by
  unfold reply at h
  split at h
  · cases h
  · obtain ⟨answer, -, h⟩ := bind_eq_ok.mp h
    obtain ⟨client, -, h⟩ := bind_eq_ok.mp h
    cases h
    rfl

/-- What `bytes_` moved by is zero exactly when what was taken is a multiple of `2 ^ 32`. -/
theorem after_eq_iff {f g : ReplyParsing} (h : ReplyParsing.After f g)
    (hint : InInt f.parser.bytes_) (hzero : f.added = 0) :
    g.parser.bytes_ = f.parser.bytes_ ↔ 2 ^ 32 ∣ g.added := by
  have hg := h.inInt hint
  have hdvd := h.dvd
  unfold InInt at hint hg
  constructor
  · intro heq
    rw [heq] at hdvd
    omega
  · intro hadded
    omega

/-- A pass that goes on takes a byte, or it started in a stalled state. -/
theorem Valid.pass_next (hv : Valid s) (h : handleReadEventPass handle s = .ok (.next t)) :
    Valid t ∧ (t.readBuf.contents.length < s.readBuf.contents.length ∨ Stalled handle s) := by
  unfold handleReadEventPass at h
  split at h
  · cases h
  · next hfull =>
    have hne : s.readBuf.contents ≠ [] := fun hnil => hfull (hv.wf.empty_iff.mpr hnil)
    obtain ⟨block, hrange, hlt, hle, hwindow⟩ := hv.wf.range_eq hne
    rw [hrange, ok_bind] at h
    dsimp only at h
    obtain ⟨f, hparse, h1⟩ := bind_eq_ok.mp h
    obtain ⟨length, hlength, h2⟩ := bind_eq_ok.mp h1
    obtain ⟨readBuf, hretrieve, hrest⟩ := bind_eq_ok.mp h2
    clear h h1 h2
    have hafter := ReplyParser.parse_after hparse
    obtain ⟨rfl, hn⟩ := subInt_eq_ok hlength
    -- `retrieve` asserts that the length is not negative
    obtain ⟨n, hn⟩ : ∃ n : Nat, f.parser.bytes_ - s.client.parser_.bytes_ = n := by
      unfold Buffer.retrieve at hretrieve
      obtain ⟨u, hguard, -⟩ := bind_eq_ok.mp hretrieve
      exact Int.eq_ofNat_of_zero_le (guardOr_eq_ok.mp hguard)
    rw [hn] at hretrieve
    obtain ⟨b, hb, hwf, hcontents, -⟩ := hv.wf.retrieve_ok n
    rw [hb] at hretrieve
    cases hretrieve
    split at hrest
    · cases hrest
    · next herr =>
      have herr : f.parser.isError = false := by simpa using herr
      have hshrinks : readBuf.contents.length < s.readBuf.contents.length ∨
          s.client.parser_.Waits s.readBuf.contents f.parser ∨ s.WrapsRound f.parser := by
        rcases Nat.eq_zero_or_pos n with hzero | hpos
        · right
          -- nothing is retrieved: nothing was parsed, or a multiple of 2^32 bytes was
          have hdvd := (after_eq_iff hafter hv.inInt rfl).mp (by dsimp only; omega)
          rcases Nat.eq_zero_or_pos f.added with hadded | hadded
          · left
            rw [← hwindow]
            exact ReplyParser.waits_of_parse hlt hle hparse hadded herr
          · exact .inr ⟨block, _, _, f.added, hrange, hparse, herr, hadded, hdvd⟩
        · left
          have := List.length_pos_iff.mpr hne
          rw [hcontents, List.length_drop]
          omega
      split at hrest
      · obtain ⟨⟨client, world⟩, hreply, hrest⟩ := bind_eq_ok.mp hrest
        cases hrest
        refine ⟨⟨hwf, ?_⟩, hshrinks.imp_right fun hwait => ⟨hne, f.parser, hwait, fun _ => ?_⟩⟩
        · show InInt client.parser_.bytes_
          rw [reply_bytes hreply]
          decide
        · exact ⟨_, hreply⟩
      · next hgood =>
        cases hrest
        exact ⟨⟨hwf, hafter.inInt hv.inInt⟩, hshrinks.imp_right fun hwait =>
          ⟨hne, f.parser, hwait, fun hg => absurd hg hgood⟩⟩

/-- **The pass of a stalled state goes on and takes nothing.** -/
theorem Valid.pass_stalled (hv : Valid s) (h : Stalled handle s) :
    ∃ t, handleReadEventPass handle s = .ok (.next t) ∧
      t.readBuf.contents = s.readBuf.contents := by
  obtain ⟨hne, p, hwait, hreplies⟩ := h
  have hempty : ¬s.readBuf.empty = true := fun he => hne (hv.wf.empty_iff.mp he)
  obtain ⟨block, hrange, hlt, hle, hwindow⟩ := hv.wf.range_eq hne
  obtain ⟨added, hparse, herr, hdvd⟩ : ∃ added,
      s.client.parser_.parse block s.readBuf.leftIndex_ s.readBuf.rightIndex_
        = .ok { parser := p, added := added } ∧ p.isError = false ∧ 2 ^ 32 ∣ added := by
    rcases hwait with hwait | ⟨block', first, last, added, hrange', hparse, herr, -, hdvd⟩
    · rw [← hwindow] at hwait
      exact ⟨0, ReplyParser.parse_of_waits ⟨le_of_lt hlt, hle⟩ hwait, waits_not_error hwait,
        Nat.dvd_zero _⟩
    · rw [hrange] at hrange'
      cases hrange'
      exact ⟨added, hparse, herr, hdvd⟩
  have hbytes : p.bytes_ = s.client.parser_.bytes_ :=
    (after_eq_iff (ReplyParser.parse_after hparse) hv.inInt rfl).mpr hdvd
  have hlength : subInt p.bytes_ s.client.parser_.bytes_ = .ok ((0 : Nat) : Int) := by
    rw [hbytes, subInt_ok (by omega) (by omega), Int.sub_self]
    rfl
  obtain ⟨b, hb, -, hcontents, -⟩ := hv.wf.retrieve_ok 0
  unfold handleReadEventPass
  rw [if_neg hempty, hrange, ok_bind]
  dsimp only
  rw [hparse, ok_bind, hlength, ok_bind, hb, ok_bind, herr]
  dsimp only
  rw [if_neg Bool.false_ne_true]
  split
  · next hgood =>
    obtain ⟨r, hr⟩ := hreplies hgood
    exact ⟨_, by rw [hr, ok_bind]; rfl, hcontents⟩
  · exact ⟨_, rfl, hcontents⟩

/-- The loop is left, and each of its passes leaves it or takes a byte of the buffer. -/
def Progresses (handle : Handle σ H) (s : ReadingClient σ H) : Prop :=
  Loop.Terminates (handleReadEventPass handle) s ∧
  ∀ t t', Loop.Reached (handleReadEventPass handle) s t →
    handleReadEventPass handle t = .ok (.next t') →
    t'.readBuf.contents.length < t.readBuf.contents.length

/-- **`handleReadEvent` gets through its buffer exactly when it never comes to a stalled state.** -/
theorem handleReadEvent_progresses_iff (handle : Handle σ H) (s : ReadingClient σ H)
    (hv : Valid s) :
    Progresses handle s ↔
      ∀ t, Loop.Reached (handleReadEventPass handle) s t → ¬Stalled handle t := by
  have hvalid : ∀ t, Loop.Reached (handleReadEventPass handle) s t → Valid t := fun t ht =>
    ht.invariant (fun _ _ hi hpass => (hi.pass_next hpass).1) hv
  constructor
  · intro hprogress t ht hstalled
    obtain ⟨t', hpass, hcontents⟩ := (hvalid t ht).pass_stalled hstalled
    have hlt := hprogress.2 t t' ht hpass
    rw [hcontents] at hlt
    exact lt_irrefl _ hlt
  · intro hfree
    have hlt : ∀ t t', Loop.Reached (handleReadEventPass handle) s t →
        handleReadEventPass handle t = .ok (.next t') →
        t'.readBuf.contents.length < t.readBuf.contents.length := fun t t' ht hpass =>
      ((hvalid t ht).pass_next hpass).2.resolve_right (hfree t ht)
    exact ⟨Loop.terminates_of_measure (fun t => t.readBuf.contents.length) hlt, hlt⟩

/-! ## Replies -/

/-- A client with a new parser and one request sent, and `text` in the buffer. -/
def awaiting (text : String) : ReadingClient Unit Unit where
  client := {
    parser_ := .init 0, requestLists_ := [], sendReqeustLists_ := [some ()]
    httpClient_ := true, httpConn_ := true }
  readBuf := .ofBytes (str text)
  world := ()

theorem valid_awaiting (text : String) : (awaiting text).Valid where
  wf := Buffer.wf_ofBytes _
  inInt := by
    show InInt 0
    decide

/-- A handler that looks at nothing. -/
def ignore : Handle Unit Unit := fun world _ p =>
  .ok { world := world, content_ := p.content_, calls := [] }

/-- The client of `awaiting` in the middle of a reply, with `left` bytes of `text` taken. -/
def partWay (text : String) (left : Nat) (parser_ : ReplyParser) : ReadingClient Unit Unit :=
  { awaiting text with
    client := { (awaiting text).client with parser_ := { parser_ with bytes_ := left } }
    readBuf := { Buffer.ofBytes (str text) with leftIndex_ := left } }

/-- A whole reply of 40 bytes. -/
def whole : String := "HTTP/1.1 200 Ok\r\nContent-Length: 2\r\n\r\nab"

/-- The client of `awaiting whole` after its only pass. -/
def answered : ReadingClient Unit Unit :=
  { partWay whole 40 { ReplyParser.init 0 with content_ := (Buffer.ofBytes (str "ab")).clear } with
    client := { (awaiting whole).client with
      parser_ := { ReplyParser.init 0 with content_ := (Buffer.ofBytes (str "ab")).clear }
      sendReqeustLists_ := [] } }

theorem pass_whole : handleReadEventPass ignore (awaiting whole) = .ok (.next answered) ∧
    handleReadEventPass ignore answered = .ok (.done answered) := by decide +kernel

theorem reached_whole {t : ReadingClient Unit Unit}
    (h : Loop.Reached (handleReadEventPass ignore) (awaiting whole) t) :
    t = awaiting whole ∨ t = answered := by
  have hstep : ∀ u u', u = awaiting whole ∨ u = answered →
      handleReadEventPass ignore u = .ok (.next u') → u' = awaiting whole ∨ u' = answered := by
    intro u u' hu hpass
    rcases hu with rfl | rfl
    · rw [pass_whole.1] at hpass
      cases hpass
      exact .inr rfl
    · rw [pass_whole.2] at hpass
      cases hpass
  exact h.invariant hstep (.inl rfl)

/-- A reply that is in the buffer as a whole is got through. -/
theorem handleReadEvent_progresses_whole : Progresses ignore (awaiting whole) := by
  refine (handleReadEvent_progresses_iff ignore _ (valid_awaiting _)).mpr fun t ht hstalled => ?_
  obtain ⟨hne, p, hwait, -⟩ := hstalled
  rcases reached_whole ht with rfl | rfl
  · rcases hwait with hwait | ⟨block, first, last, added, hrange, hparse, -, -, hdvd⟩
    · rcases hwait with hp | ⟨hp, -⟩ | ⟨hp, -⟩ | ⟨hp, -⟩ <;> cases hp
    · cases hrange
      have hadded : ((awaiting whole).client.parser_.parse (str whole) 0 40).map
          (fun f => f.added) = .ok 40 := by decide +kernel
      have hlast : (awaiting whole).readBuf.rightIndex_ = 40 := by decide
      rw [hlast] at hparse
      rw [show (awaiting whole).readBuf.leftIndex_ = 0 from rfl] at hparse
      rw [hparse] at hadded
      cases hadded
      exact absurd hdvd (by decide)
  · exact hne (by decide)

theorem pass_two_segments :
    let text := "HTTP/1.1 200 Ok\r\nContent-Length: 5\r\n\r\nab"
    let stuck := partWay text 38 { ReplyParser.init 200 with
      headers_ := [(str "Content-Length", str "5")], progress_ := .ParsingBody }
    handleReadEventPass ignore (awaiting text) = .ok (.next stuck) ∧
      handleReadEventPass ignore stuck = .ok (.next stuck) := by
  decide +kernel

theorem pass_unknown_status :
    let text := "HTTP/1.1 299 Odd\r\n\r\n"
    let stuck := partWay text 9 { ReplyParser.init 0 with progress_ := .ParsingStatus }
    handleReadEventPass ignore (awaiting text) = .ok (.next stuck) ∧
      handleReadEventPass ignore stuck = .ok (.next stuck) := by
  decide +kernel

/-- The loop is never left for a body in two segments, nor for a status outside the table. -/
theorem handleReadEvent_spins :
    ¬Loop.Terminates (handleReadEventPass ignore)
        (awaiting "HTTP/1.1 200 Ok\r\nContent-Length: 5\r\n\r\nab") ∧
    ¬Loop.Terminates (handleReadEventPass ignore) (awaiting "HTTP/1.1 299 Odd\r\n\r\n") := by
  constructor
  · intro h
    exact Loop.not_terminates_of_fixed pass_two_segments.2 (h.next pass_two_segments.1)
  · intro h
    exact Loop.not_terminates_of_fixed pass_unknown_status.2 (h.next pass_unknown_status.1)

end Liby.Http.ReadingClient
