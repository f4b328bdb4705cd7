import Liby.Buffer.Extraction
import Liby.Buffer.Prepend

/-!
# Strings in a Buffer

The overloads for `std::string` put `size() + 1` bytes into the buffer, the NUL after the string among
them; the strings that come out are made of all bytes that are in it.
-/

namespace Liby.Buffer

open Infra

/-- `Buffer(const std::string &)`. -/
def ofString (str : Bytes) : Buffer := ofBytes (str ++ [0])

/-- `prepend(const std::string &)`. -/
def prependString (b : Buffer) (str : Bytes) : Exec Buffer := b.prepend (str ++ [0])

variable {b b₁ : Buffer}

theorem Wf.retriveveAllAsString_ok (h : b.Wf) (hne : b.contents ≠ []) :
    ∃ b', b.retriveveAllAsString = .ok (b.contents, b') ∧ b'.Wf ∧ b'.contents = [] := by
  obtain ⟨b', hb', hwf, hcontents⟩ := h.retriveveAsString_ok hne (Int.natCast_nonneg b.contents.length)
  have htaken : taken b.contents b.contents.length = b.contents.length :=
    (taken_eq_length (Int.natCast_nonneg _)).mpr (.inr le_rfl)
  rw [htaken] at hb' hcontents
  rw [List.take_length] at hb'
  rw [List.drop_length] at hcontents
  refine ⟨b', ?_, hwf, hcontents⟩
  unfold retriveveAllAsString
  rw [h.size_eq, ok_bind, hb']

/-- **What comes out of a buffer that strings were put into**: the NUL after each of them as well. -/
theorem Wf.string_with_nul (h : b.Wf) (str : Bytes) :
    (∃ b', (ofString str).retriveveAllAsString = .ok (str ++ [0], b')) ∧
      (∃ b₁ b', b.appendString str = .ok b₁ ∧
        b₁.retriveveAllAsString = .ok (b.contents ++ (str ++ [0]), b')) ∧
      ∀ b₁, b.prependString str = .ok b₁ →
        ∃ b', b₁.retriveveAllAsString = .ok (str ++ [0] ++ b.contents, b') := by
  have hnul : str ++ [0] ≠ [] := by simp
  refine ⟨?_, ?_, ?_⟩
  · have hcontents := contents_ofBytes (str ++ [0])
    obtain ⟨b', hb', -⟩ := (wf_ofBytes (str ++ [0])).retriveveAllAsString_ok (by rw [hcontents]; exact hnul)
    rw [hcontents] at hb'
    exact ⟨b', hb'⟩
  · obtain ⟨b₁, hb₁, hwf, hcontents⟩ := h.append_ok hnul
    obtain ⟨b', hb', -⟩ := hwf.retriveveAllAsString_ok (by rw [hcontents]; simp)
    rw [hcontents] at hb'
    exact ⟨b₁, b', hb₁, hb'⟩
  · intro b₁ hb₁
    have hroom : (str ++ [0]).length + b.contents.length ≤ b.capacity_ := by
      by_contra hroom
      exact h.prepend_fails (by omega) hb₁
    obtain ⟨b₂, hb₂, hwf, hcontents⟩ := h.prepend_ok hnul hroom
    have hsame := hb₂.symm.trans hb₁
    cases hsame
    obtain ⟨b', hb', -⟩ := hwf.retriveveAllAsString_ok (by rw [hcontents]; simp)
    rw [hcontents] at hb'
    exact ⟨b', hb'⟩

/-- A string put into a buffer and taken out again is the same string. -/
structure StringRoundTrip (b : Buffer) (str : Bytes) : Prop where
  construct : ∃ b', (ofString str).retriveveAllAsString = .ok (str, b')
  append : ∃ b₁ b', b.appendString str = .ok b₁ ∧
    b₁.retriveveAllAsString = .ok (b.contents ++ str, b')
  prepend : ∀ b₁, b.prependString str = .ok b₁ →
    ∃ b', b₁.retriveveAllAsString = .ok (str ++ b.contents, b')

/-- Two results of one call are the same. -/
theorem returned_unique {ret ret' : Bytes} (h : ∃ b', b₁.retriveveAllAsString = .ok (ret, b'))
    (h' : ∃ b', b₁.retriveveAllAsString = .ok (ret', b')) : ret = ret' := by
  obtain ⟨b', hb'⟩ := h
  obtain ⟨b'', hb''⟩ := h'
  exact congrArg Prod.fst (Except.ok.inj (hb'.symm.trans hb''))

/--
**No string comes back from a buffer as it was put in**: neither one that a buffer is made of, nor one
that is appended, nor one that is prepended, whatever the buffer holds.
-/
theorem not_stringRoundTrip (h : b.Wf) (str : Bytes) :
    (¬∃ b', (ofString str).retriveveAllAsString = .ok (str, b')) ∧
      (¬∃ b₁ b', b.appendString str = .ok b₁ ∧
        b₁.retriveveAllAsString = .ok (b.contents ++ str, b')) ∧
      (∀ b₁, b.prependString str = .ok b₁ →
        ¬∃ b', b₁.retriveveAllAsString = .ok (str ++ b.contents, b')) ∧
      ¬b.StringRoundTrip str := by
  obtain ⟨hconstruct, ⟨b₁, hb₁, happended, happend⟩, hprepend⟩ := h.string_with_nul str
  have hnot : ¬∃ b', (ofString str).retriveveAllAsString = .ok (str, b') := by
    intro hsame
    have hlength := congrArg List.length (returned_unique hconstruct hsame)
    simp at hlength
  refine ⟨hnot, ?_, ?_, fun htrip => hnot htrip.construct⟩
  · rintro ⟨b₂, b', hb₂, hsame⟩
    rw [happended] at hb₂
    cases hb₂
    have hlength := congrArg List.length (returned_unique ⟨hb₁, happend⟩ ⟨b', hsame⟩)
    simp at hlength
  · intro b₂ hb₂ hsame
    have hlength := congrArg List.length (returned_unique (hprepend b₂ hb₂) hsame)
    simp at hlength

theorem not_stringRoundTrip_room :
    (¬∃ b', (ofString [104, 105]).retriveveAllAsString = .ok ([104, 105], b')) ∧
      (¬∃ b₁ b', (ofLength 8).appendString [104, 105] = .ok b₁ ∧
        b₁.retriveveAllAsString = .ok ((ofLength 8).contents ++ [104, 105], b')) ∧
      (∀ b₁, (ofLength 8).prependString [104, 105] = .ok b₁ →
        ¬∃ b', b₁.retriveveAllAsString = .ok ([104, 105] ++ (ofLength 8).contents, b')) ∧
      ¬(ofLength 8).StringRoundTrip [104, 105] :=
  not_stringRoundTrip (wf_ofLength 8) [104, 105]

/-- The empty string, in a buffer made of it and appended to an empty one. -/
theorem empty_string_grows :
    (∃ b', (ofString []).retriveveAllAsString = .ok ([0], b')) ∧
      ¬∀ (b : Buffer) (str : Bytes), b.Wf → b.StringRoundTrip str := by
  have hgrows := (wf_init.string_with_nul []).1
  refine ⟨hgrows, fun hall => ?_⟩
  have hsame := returned_unique hgrows (hall init [] wf_init).construct
  cases hsame

end Liby.Buffer
