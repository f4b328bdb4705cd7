import Liby.Net.Connection

/-!
# The read path

`handleReadEvent` puts what `readv` gave after what `readBuf_` holds, whether or not `extraBuffer`
is needed.
-/

namespace Liby

open Infra

variable {H : Type _}

/-- A buffer that bytes can be read into. -/
structure Buffer.Readable (b : Buffer) : Prop where
  wf : b.Wf
  block : b.buffer_.isSome

namespace Buffer

variable {b : Buffer}

theorem readable_ofLength (length : Nat) : Readable (ofLength length) where
  wf := wf_ofLength length
  block := rfl

theorem Wf.readable (h : b.Wf) (hne : b.contents ≠ []) : Readable b where
  wf := h
  block := by
    obtain ⟨block, hb⟩ := block_of_ne hne
    rw [hb]
    rfl

/-- What is taken off a buffer leaves it its block. -/
theorem Readable.retrieve_ok (h : Readable b) (len : Nat) :
    ∃ b', b.retrieve len = .ok b' ∧ Readable b' ∧ b'.contents = b.contents.drop len := by
  obtain ⟨b', hb', hwf, hcontents, -⟩ := h.wf.retrieve_ok len
  exact ⟨b', hb', ⟨hwf, by rw [retrieve_buffer hb']; exact h.block⟩, hcontents⟩

theorem Readable.availbleSize_eq (h : Readable b) :
    b.availbleSize = .ok (b.capacity_ - b.rightIndex_) := by
  unfold availbleSize
  rw [guardOr_pos ⟨h.block, h.wf.left_le⟩]
  rfl

end Buffer

namespace Connection

variable {c : Connection H}

/-- `readv` changes nothing but the read buffer. -/
theorem receive_frame {c' : Connection H} {bytes : Bytes} (h : c.receive bytes = .ok c') :
    ∃ buffer : Buffer, c' = { c with readBuf_ := buffer } := by
  obtain ⟨availble, -, h⟩ := bind_eq_ok.mp h
  obtain ⟨u, -, h⟩ := bind_eq_ok.mp h
  obtain ⟨b1, -, h⟩ := bind_eq_ok.mp h
  split at h
  · obtain ⟨b2, -, h⟩ := bind_eq_ok.mp h
    obtain ⟨b3, -, h⟩ := bind_eq_ok.mp h
    cases h
    exact ⟨b3, rfl⟩
  · obtain ⟨b2, -, h⟩ := bind_eq_ok.mp h
    cases h
    exact ⟨b2, rfl⟩

/-- **The bytes that were read stand after those that were there.** -/
theorem receive_ok (h : c.readBuf_.Readable) (bytes : Bytes) :
    Guarantees (fun c' => bytes ≠ [] ∧ ∃ buffer : Buffer, c' = { c with readBuf_ := buffer } ∧
      buffer.Readable ∧ buffer.contents = c.readBuf_.contents ++ bytes) (c.receive bytes) := by
  obtain ⟨block, hblock⟩ := Option.isSome_iff_exists.mp h.block
  have hright := h.wf.right_le
  unfold receive
  rw [h.availbleSize_eq, ok_bind]
  refine Guarantees.guard fun ⟨hne, _⟩ => ?_
  have hroom : c.readBuf_.rightIndex_ + (bytes.take (c.readBuf_.capacity_ - c.readBuf_.rightIndex_)).length
      ≤ c.readBuf_.capacity_ := by
    rw [List.length_take]
    omega
  obtain ⟨b1, b2, hwrite, happend, hwf, hcontents⟩ := h.wf.appendLength_ok hblock _ hroom
  rw [hwrite, ok_bind]
  split
  · next hlt =>
    rw [List.length_take, min_eq_left (Nat.le_of_lt hlt)] at happend
    have hrest : bytes.drop (c.readBuf_.capacity_ - c.readBuf_.rightIndex_) ≠ [] := by
      intro hnil
      have hlen := List.length_drop (i := c.readBuf_.capacity_ - c.readBuf_.rightIndex_) (l := bytes)
      rw [hnil, List.length_nil] at hlen
      omega
    obtain ⟨b3, hextra, hwf', hcontents'⟩ := hwf.append_ok hrest
    rw [happend, ok_bind, hextra]
    have hall : b3.contents = c.readBuf_.contents ++ bytes := by
      rw [hcontents', hcontents, List.append_assoc, List.take_append_drop]
    exact ⟨hne, b3, rfl, hwf'.readable (by simp [hall, hne]), hall⟩
  · next hle =>
    rw [List.take_of_length_le (Nat.le_of_not_lt hle)] at happend hcontents
    rw [happend]
    exact ⟨hne, b2, rfl, hwf.readable (by simp [hcontents, hne]), hcontents⟩

end Connection

end Liby
