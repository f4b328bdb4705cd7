import Liby.Http.ReplyCount
import Liby.Net.ReadPath

/-!
# What a parser of replies ends in

`parse` may throw and may read where it must not, but it follows no null pointer and asks nothing of an
empty container, whatever the bytes are; and `content_` stays in order.
-/

namespace Liby.Http

open Infra

/-- A fault that is neither a null pointer nor an empty container. -/
def Mild (f : Fault) : Prop := f ≠ .nullDeref ∧ f ≠ .emptyContainer

instance (f : Fault) : Decidable (Mild f) := inferInstanceAs (Decidable (_ ∧ _))

variable {α : Type _} {d : Bytes} {first last : Nat}

/-! ## Scans -/

theorem find_mild (d : Bytes) (first last : Nat) (c : UInt8) :
    Outcome Mild (fun _ => True) (Cursor.find d first last c) := outcome_ite (by decide)

theorem string_mild (d : Bytes) (first last : Nat) :
    Outcome Mild (fun _ => True) (Cursor.string d first last) := outcome_ite (by decide)

theorem readAt_mild (v : List α) (i : Nat) : Outcome Mild (fun _ => True) (readAt v i) := by
  unfold readAt
  split
  · trivial
  · exact (by decide : Mild .outOfBounds)

theorem lineEnd_mild (d : Bytes) (finish : Nat) :
    Outcome Mild (fun _ => True) (lineEnd d finish) := by
  unfold lineEnd Cursor.readBefore
  split
  · exact (by decide : Mild .outOfBounds)
  · exact (readAt_mild d _).bind fun _ _ => trivial

theorem skipBack_mild (d : Bytes) : ∀ left : Nat,
    Outcome Mild (fun _ => True) (Cursor.skipBack d left)
  | 0 => (by decide : Mild .outOfBounds)
  | left + 1 => by
    rw [Cursor.skipBack]
    refine (readAt_mild d left).bind fun c _ => ?_
    split
    · exact skipBack_mild d left
    · trivial

theorem skipForwardIn_mild : ∀ (bytes : Bytes) (right : Nat),
    Outcome Mild (fun _ => True) (Cursor.skipForwardIn right bytes)
  | [], _ => (by decide : Mild .outOfBounds)
  | c :: bytes, right => by
    rw [Cursor.skipForwardIn]
    split
    · exact skipForwardIn_mild bytes (right + 1)
    · trivial

theorem stoi_mild (text : Bytes) : Outcome Mild (fun _ => True) (stoi text) :=
  outcome_ite (by decide)

theorem ParseHeader_mild (headers_ : Headers) (d : Bytes) (first last : Nat) :
    Outcome Mild (fun _ => True) (ParseHeader headers_ d first last) := by
  unfold ParseHeader
  refine Outcome.guard (by decide) fun _ => (find_mild d _ _ _).bind fun mid _ => ?_
  refine (skipBack_mild d _).bind fun left _ => (skipForwardIn_mild _ _).bind fun right _ => ?_
  exact (string_mild d _ _).bind fun _ _ => (string_mild d _ _).bind fun _ _ => trivial

/-! ## Buffers -/

theorem append_mild {b : Buffer} (h : b.Wf) (buf : Bytes) : Outcome Mild Buffer.Wf (b.append buf) := by
  by_cases hbuf : buf = []
  · subst hbuf
    exact (by decide : Mild .assertFailed)
  · obtain ⟨b', hb', hwf, -⟩ := h.append_ok hbuf
    rw [hb']
    exact hwf

theorem retrieve_mild {b : Buffer} (h : b.Readable) (len : Int) :
    Outcome Mild Buffer.Readable (b.retrieve len) := by
  by_cases hlen : 0 ≤ len
  · obtain ⟨n, rfl⟩ := Int.eq_ofNat_of_zero_le hlen
    obtain ⟨b', hb', hreadable, -⟩ := h.retrieve_ok n
    rw [hb']
    exact hreadable
  · unfold Buffer.retrieve
    rw [guardOr_neg hlen]
    exact (by decide : Mild .assertFailed)

theorem range_mild {b : Buffer} (h : b.Readable) : Outcome Mild (fun _ => True) b.range := by
  obtain ⟨block, hb⟩ := Option.isSome_iff_exists.mp h.block
  unfold Buffer.range Buffer.block
  rw [guardOr_pos ⟨h.block, h.wf.left_le⟩, ok_bind, hb]
  trivial

theorem subInt_mild (a b : Int) : Outcome Mild (fun _ => True) (subInt a b) :=
  outcome_ite (by decide)

theorem addInt_mild (a b : Int) : Outcome Mild (fun _ => True) (addInt a b) :=
  outcome_ite (by decide)

/-! ## parse -/

namespace ReplyParsing

/-- `content_` is in order. -/
def Sound (f : ReplyParsing) : Prop := f.parser.content_.Wf

variable {f : ReplyParsing}

theorem parseBody_mild (h : f.Sound) : Outcome Mild Sound (f.parseBody d first last) := by
  unfold parseBody
  refine (stoi_mild _).bind fun len _ => ?_
  split
  · exact h
  split
  · exact h
  refine (addInt_mild _ _).bind fun bytes_ _ => Outcome.guard (by decide) fun _ => ?_
  have hread : Outcome Mild (fun _ => True) (Block.read d first len.toNat) := outcome_ite (by decide)
  exact hread.bind fun body _ => (append_mild h body).bind fun content_ hwf => hwf

theorem parseHeaders_mild (first : Nat) (f : ReplyParsing) (h : f.Sound) :
    Outcome Mild Sound (f.parseHeaders d first last) := by
  have hfind := find_mild d first last 10
  rw [parseHeaders]
  split
  · exact parseBody_mild h
  · split
    · next e he => rwa [he] at hfind
    · next finish hfinish =>
      have hle := Cursor.le_of_find hfinish
      split
      · exact parseBody_mild h
      · refine (lineEnd_mild d _).bind fun stop _ => (ParseHeader_mild _ d _ _).bind fun headers_ _ => ?_
        exact parseHeaders_mild (finish + 1) _ h
termination_by last + 1 - first

theorem parseStatusString_mild (h : f.Sound) :
    Outcome Mild Sound (f.parseStatusString d first last) := by
  unfold parseStatusString
  refine (find_mild d _ _ _).bind fun finish _ => (lineEnd_mild d _).bind fun _ _ => ?_
  exact parseHeaders_mild _ _ h

theorem parseStatus_mild (h : f.Sound) : Outcome Mild Sound (f.parseStatus d first last) := by
  unfold parseStatus
  refine (find_mild d _ _ _).bind fun finish _ => ?_
  have hstatus : Outcome Mild (fun r => r.2.content_ = f.parser.content_)
      (f.parser.ParseStatus d first finish) := by
    unfold ReplyParser.ParseStatus
    refine (string_mild d _ _).bind fun text _ => (stoi_mild text).bind fun status _ => ?_
    split <;> rfl
  refine hstatus.bind ?_
  rintro ⟨flag, parser⟩ (hcontent : parser.content_ = f.parser.content_)
  have hsound : parser.content_.Wf := by
    rw [hcontent]
    exact h
  dsimp only
  split
  · exact parseStatusString_mild hsound
  · exact hsound

theorem parseVersion_mild (h : f.Sound) : Outcome Mild Sound (f.parseVersion d first last) := by
  unfold parseVersion
  refine (find_mild d _ _ _).bind fun finish _ => ?_
  have hversion : Outcome Mild (fun r => r.2.content_ = f.parser.content_)
      (f.parser.ParseHttpVersion d first finish) := by
    unfold ReplyParser.ParseHttpVersion
    refine Outcome.guard (by decide) fun _ => ?_
    split
    · rfl
    · split <;> rfl
  refine hversion.bind ?_
  rintro ⟨flag, parser⟩ (hcontent : parser.content_ = f.parser.content_)
  have hsound : parser.content_.Wf := by
    rw [hcontent]
    exact h
  dsimp only
  split
  · exact parseStatus_mild hsound
  · exact hsound

end ReplyParsing

/-- **`parse` follows no null pointer, and keeps `content_` in order.** -/
theorem parse_mild {p : ReplyParser} (h : p.content_.Wf) (d : Bytes) (first last : Nat) :
    Outcome Mild ReplyParsing.Sound (p.parse d first last) := by
  unfold ReplyParser.parse
  split
  · exact ReplyParsing.parseVersion_mild h
  · exact ReplyParsing.parseVersion_mild h
  · exact ReplyParsing.parseStatus_mild h
  · exact ReplyParsing.parseStatusString_mild h
  · exact ReplyParsing.parseHeaders_mild _ _ h
  · exact ReplyParsing.parseBody_mild h
  · exact h

end Liby.Http
