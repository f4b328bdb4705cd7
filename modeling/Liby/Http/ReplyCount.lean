import Liby.Http.ReplyParser

/-!
# What `ReplyParser` takes

Each stage of `parse` adds to `bytes_` what it has taken, up to the wrap of an `int`, and a stage
that goes on to the next one has taken a byte. What a call takes nothing from is read off the state
it starts in.
-/

namespace Liby.Http

open Infra

namespace ReplyParsing

open Cursor (window)

/-- `g` comes out of `f`: something was added, and `bytes_` moved by as much. -/
structure After (f g : ReplyParsing) : Prop where
  le : f.added ≤ g.added
  dvd : (2 ^ 32 : Int) ∣ g.parser.bytes_ - f.parser.bytes_ - (g.added - f.added)
  inInt : InInt f.parser.bytes_ → InInt g.parser.bytes_

theorem After.refl (f : ReplyParsing) : After f f where
  le := le_rfl
  dvd := by simp
  inInt := id

/-- A parser that has the same count. -/
theorem After.update (f : ReplyParsing) (parser : ReplyParser)
    (h : parser.bytes_ = f.parser.bytes_) : After f (f.update parser) where
  le := le_rfl
  dvd := by simp [ReplyParsing.update, h]
  inInt := fun hint => by rwa [ReplyParsing.update, h]

theorem After.trans {f g k : ReplyParsing} (h : After f g) (h' : After g k) : After f k where
  le := le_trans h.le h'.le
  dvd := by
    have hsum := Int.dvd_add h.dvd h'.dvd
    have heq : k.parser.bytes_ - f.parser.bytes_ - ((k.added : Int) - f.added)
        = (g.parser.bytes_ - f.parser.bytes_ - (g.added - f.added))
          + (k.parser.bytes_ - g.parser.bytes_ - (k.added - g.added)) := by omega
    rwa [heq]
  inInt := fun hint => h'.inInt (h.inInt hint)

/-- `bytes_ += n`. -/
theorem After.advance (f : ReplyParsing) (n : Nat) : After f (f.advance n) where
  le := Nat.le_add_right _ _
  dvd := by
    have hwrap := dvd_toInt_sub (f.parser.bytes_ + n)
    have heq : (f.advance n).parser.bytes_ - f.parser.bytes_ - ((f.advance n).added - f.added)
        = toInt (f.parser.bytes_ + n) - (f.parser.bytes_ + n) := by
      dsimp only [ReplyParsing.advance]
      omega
    rwa [heq]
  inInt := fun _ => toInt_inInt _

variable {f g : ReplyParsing} {d : Bytes} {first last : Nat}

theorem parseBody_after (h : f.parseBody d first last = .ok g) : After f g := by
  unfold parseBody at h
  obtain ⟨len, -, h⟩ := bind_eq_ok.mp h
  split at h
  · cases h
    exact .update f _ rfl
  · split at h
    · cases h
      exact .refl f
    · obtain ⟨bytes_, hadd, h⟩ := bind_eq_ok.mp h
      obtain ⟨u, hpos, h⟩ := bind_eq_ok.mp h
      obtain ⟨body, -, h⟩ := bind_eq_ok.mp h
      obtain ⟨content_, -, h⟩ := bind_eq_ok.mp h
      cases h
      obtain ⟨rfl, hint⟩ := addInt_eq_ok hadd
      have hlen : 0 < len := guardOr_eq_ok.mp hpos
      refine ⟨Nat.le_add_right _ _, ?_, fun _ => hint⟩
      have heq : f.parser.bytes_ + len - f.parser.bytes_ - (((f.added + len.toNat : Nat) : Int)
          - f.added) = 0 := by omega
      dsimp only
      rw [heq]
      exact Int.dvd_zero _

/-- A stage that is over: the parser has the same count, and the line or the token is taken. -/
theorem After.stage (f : ReplyParsing) (parser : ReplyParser) (h : parser.bytes_ = f.parser.bytes_)
    {finish : Nat} (hle : first ≤ finish) :
    After f ((f.update parser).advance (finish + 1 - first)) ∧
      f.added < ((f.update parser).advance (finish + 1 - first)).added := by
  refine ⟨(After.update f parser h).trans (.advance _ _), ?_⟩
  show f.added < f.added + (finish + 1 - first)
  omega

theorem parseHeaders_after (first : Nat) (f g : ReplyParsing)
    (h : f.parseHeaders d first last = .ok g) :
    After f g ∧ (first ≠ last → f.added < g.added) := by
  rw [parseHeaders] at h
  split at h
  · next heq => exact ⟨parseBody_after h, fun hne => absurd heq hne⟩
  · split at h
    · cases h
    · next finish hfind =>
      obtain ⟨hle, hrange⟩ := Cursor.le_of_find hfind
      split at h
      · obtain ⟨hstage, hlt⟩ :=
          After.stage f { f.parser with progress_ := .ParsingBody } rfl hle
        have hbody := parseBody_after h
        exact ⟨hstage.trans hbody, fun _ => lt_of_lt_of_le hlt hbody.le⟩
      · obtain ⟨stop, -, h⟩ := bind_eq_ok.mp h
        obtain ⟨headers_, -, h⟩ := bind_eq_ok.mp h
        obtain ⟨hstage, hlt⟩ :=
          After.stage f { f.parser with headers_ := headers_ } rfl hle
        obtain ⟨hrest, -⟩ := parseHeaders_after (finish + 1) _ g h
        exact ⟨hstage.trans hrest, fun _ => lt_of_lt_of_le hlt hrest.le⟩
termination_by last + 1 - first

/-! ## The stages before the headers -/

theorem parseStatusString_after (h : f.parseStatusString d first last = .ok g) :
    After f g ∧ f.added < g.added := by
  unfold parseStatusString at h
  obtain ⟨finish, hfind, h⟩ := bind_eq_ok.mp h
  obtain ⟨stop, -, h⟩ := bind_eq_ok.mp h
  dsimp only [ReplyParser.ParseStatusString] at h
  rw [if_pos rfl] at h
  obtain ⟨hstage, hlt⟩ := After.stage f { f.parser with progress_ := .ParsingHeaders } rfl
    (Cursor.le_of_find hfind).1
  have hrest := (parseHeaders_after _ _ g h).1
  exact ⟨hstage.trans hrest, lt_of_lt_of_le hlt hrest.le⟩

/-- The token up to the first blank. -/
def statusToken (rest : Bytes) : Bytes := rest.takeWhile (· ≠ 32)

/-- A status that is a number of no known status. -/
def UnknownStatus (rest : Bytes) : Prop :=
  ∃ n, stoi (statusToken rest) = .ok n ∧ statusNumber n = none

theorem parseStatus_unknown (hrange : first ≤ last ∧ last ≤ d.length)
    (h : UnknownStatus (window d first last)) : f.parseStatus d first last = .ok f := by
  obtain ⟨n, hn, hnone⟩ := h
  have hfind : Cursor.find d first last 32 = .ok (first + (window d first last).idxOf 32) :=
    if_pos hrange
  have htext : Cursor.string d first (first + (window d first last).idxOf 32)
      = .ok (statusToken (window d first last)) := Cursor.string_find hfind
  unfold parseStatus ReplyParser.ParseStatus
  rw [hfind, ok_bind, htext, ok_bind, hn, ok_bind, hnone]
  rfl

theorem parseStatus_after (h : f.parseStatus d first last = .ok g) :
    After f g ∧ (UnknownStatus (window d first last) ∧ g = f ∨ f.added < g.added) := by
  unfold parseStatus ReplyParser.ParseStatus at h
  obtain ⟨finish, hfind, h⟩ := bind_eq_ok.mp h
  have htext : Cursor.string d first finish = .ok (statusToken (window d first last)) :=
    Cursor.string_find hfind
  rw [htext, ok_bind] at h
  obtain ⟨⟨flag, parser⟩, hstatus, h⟩ := bind_eq_ok.mp h
  obtain ⟨n, hn, hstatus⟩ := bind_eq_ok.mp hstatus
  split at hstatus
  · next hnone =>
    cases hstatus
    cases h
    exact ⟨.refl f, .inl ⟨⟨n, hn, hnone⟩, rfl⟩⟩
  · cases hstatus
    obtain ⟨hstage, hlt⟩ := After.stage f
      { f.parser with progress_ := .ParsingStatusString, status_ := n } rfl (Cursor.le_of_find hfind).1
    have hrest := (parseStatusString_after h).1
    exact ⟨hstage.trans hrest, .inr (lt_of_lt_of_le hlt hrest.le)⟩

theorem parseVersion_after (h : f.parseVersion d first last = .ok g) :
    After f g ∧ (g.parser.isError = true ∨ f.added < g.added) := by
  unfold parseVersion ReplyParser.ParseHttpVersion at h
  obtain ⟨finish, hfind, h⟩ := bind_eq_ok.mp h
  obtain ⟨⟨flag, parser⟩, hversion, h⟩ := bind_eq_ok.mp h
  obtain ⟨u, -, hversion⟩ := bind_eq_ok.mp hversion
  split at hversion
  · cases hversion
    cases h
    exact ⟨.update f _ rfl, .inl rfl⟩
  · split at hversion
    · cases hversion
      obtain ⟨hstage, hlt⟩ := After.stage f { f.parser with progress_ := .ParsingStatus } rfl
        (Cursor.le_of_find hfind).1
      have hrest := (parseStatus_after h).1
      exact ⟨hstage.trans hrest, .inr (lt_of_lt_of_le hlt hrest.le)⟩
    · cases hversion
      cases h
      exact ⟨.update f _ rfl, .inl rfl⟩

end ReplyParsing

/-! ## parse -/

namespace ReplyParser

open ReplyParsing
open Cursor (window length_window)

/--
The calls of `parse` that take nothing from `rest` and find no error: the parser before the call
and after it.
-/
inductive Waits (p : ReplyParser) (rest : Bytes) : ReplyParser → Prop where
  | good : p.progress_ = .Good → Waits p rest p
  | status : p.progress_ = .ParsingStatus → UnknownStatus rest → Waits p rest p
  | emptyBody : p.progress_ = .ParsingBody →
      stoi (p.headers_.get (str "Content-Length")) = .ok 0 →
      Waits p rest { p with progress_ := .Good }
  | shortBody {len : Int} : p.progress_ = .ParsingBody →
      stoi (p.headers_.get (str "Content-Length")) = .ok len → len ≠ 0 → rest.length < len →
      Waits p rest p

variable {p : ReplyParser} {f : ReplyParsing} {d : Bytes} {first last : Nat}

theorem parse_after (h : p.parse d first last = .ok f) : After { parser := p, added := 0 } f := by
  unfold parse at h
  split at h
  · exact (After.update { parser := p, added := 0 } { p with progress_ := .ParsingVersion }
      rfl).trans (parseVersion_after h).1
  · exact (parseVersion_after h).1
  · exact (parseStatus_after h).1
  · exact (parseStatusString_after h).1
  · exact (parseHeaders_after _ _ _ h).1
  · exact parseBody_after h
  · cases h
    exact .refl _

/-- A call that waits returns, with nothing added. -/
theorem parse_of_waits (hrange : first ≤ last ∧ last ≤ d.length) {p' : ReplyParser}
    (h : Waits p (window d first last) p') :
    p.parse d first last = .ok { parser := p', added := 0 } := by
  have hlength := length_window hrange
  unfold parse
  rcases h with hp | ⟨hp, hunknown⟩ | ⟨hp, hlen⟩ | ⟨hp, hlen, hne, hshort⟩
  · rw [hp]
  · rw [hp]
    exact parseStatus_unknown hrange hunknown
  · rw [hp]
    dsimp only
    unfold parseBody
    rw [hlen, ok_bind, if_pos rfl]
    rfl
  · rw [hp]
    dsimp only
    unfold parseBody
    rw [hlen, ok_bind, if_neg hne, if_pos (by omega)]
    rfl

/-- **A call that adds nothing has found an error, or waits.** -/
theorem waits_of_parse (hlt : first < last) (hle : last ≤ d.length)
    (h : p.parse d first last = .ok f) (hzero : f.added = 0) (herr : f.parser.isError = false) :
    Waits p (window d first last) f.parser := by
  have hlength := length_window ⟨le_of_lt hlt, hle⟩
  have hadded : ¬({ parser := p, added := 0 } : ReplyParsing).added < f.added := by
    dsimp only
    omega
  unfold parse at h
  split at h
  · rcases (parseVersion_after h).2 with herror | hadd
    · rw [herr] at herror
      cases herror
    · exact absurd hadd hadded
  · rcases (parseVersion_after h).2 with herror | hadd
    · rw [herr] at herror
      cases herror
    · exact absurd hadd hadded
  · next hp =>
    rcases (parseStatus_after h).2 with ⟨hunknown, rfl⟩ | hadd
    · exact .status hp hunknown
    · exact absurd hadd hadded
  · exact absurd (parseStatusString_after h).2 hadded
  · exact absurd ((parseHeaders_after _ _ _ h).2 (ne_of_lt hlt)) hadded
  · next hp =>
    unfold parseBody at h
    obtain ⟨len, hlen, h⟩ := bind_eq_ok.mp h
    split at h
    · next hlen0 =>
      subst hlen0
      cases h
      exact .emptyBody hp hlen
    · next hne =>
      split at h
      · cases h
        exact .shortBody hp hlen hne (by omega)
      · obtain ⟨bytes_, -, h⟩ := bind_eq_ok.mp h
        obtain ⟨u, hpos, h⟩ := bind_eq_ok.mp h
        obtain ⟨body, -, h⟩ := bind_eq_ok.mp h
        obtain ⟨content_, -, h⟩ := bind_eq_ok.mp h
        cases h
        -- a body that is there takes bytes
        have hlen : 0 < len := guardOr_eq_ok.mp hpos
        dsimp only at hzero
        omega
  · next h1 h2 h3 h4 h5 h6 =>
    cases h
    cases hp : p.progress_ with
    | Good => exact .good hp
    | ParseStarting => exact absurd hp h1
    | ParsingVersion => exact absurd hp h2
    | ParsingStatus => exact absurd hp h3
    | ParsingStatusString => exact absurd hp h4
    | ParsingHeaders => exact absurd hp h5
    | ParsingBody => exact absurd hp h6
    | _ =>
      dsimp only [isError] at herr
      rw [hp] at herr
      cases herr

end ReplyParser

end Liby.Http
