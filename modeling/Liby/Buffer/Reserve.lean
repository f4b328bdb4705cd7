import Liby.Buffer.Shrink

/-!
# `reserve`

The size is doubled until it is enough, from twice the capacity. Doubling leads away from zero only
if the capacity is not zero, and there are buffers without any: a new one, one that was moved from,
`Buffer(0)`, and one that was shrunk to nothing.
-/

namespace Liby

open Infra

namespace Buffer

/-- The call ends, with room for `minSize` bytes and what was in the buffer. -/
structure ReserveEnds (b : Buffer) (minSize : Int) : Prop where
  /-- The loop, when it is entered, is left, and no shift leaves the range of `off_t`. -/
  loop : b.capacity_ ≤ minSize → Loop.Terminates (doublingPass minSize) (shl b.capacity_)
  range : b.capacity_ ≤ minSize → shl b.capacity_ = 2 * b.capacity_ ∧
    ∀ n, Loop.Reached (doublingPass minSize) (shl b.capacity_) n → n < minSize → shl n = 2 * n
  result : ∃ b', b.reserve minSize = .ok b' ∧ minSize ≤ b'.capacity_ ∧ b'.contents = b.contents

variable {b b' : Buffer} {minSize newSize n : Int}

/-! ## The loop -/

@[simp] theorem shl_zero : shl 0 = 0 := rfl

theorem doublingPass_next (h : doublingPass minSize newSize = .ok (.next n)) :
    newSize < minSize ∧ n = shl newSize := by
  by_cases hlt : newSize < minSize
  · rw [doublingPass_lt hlt] at h
    cases h
    exact ⟨hlt, rfl⟩
  · rw [doublingPass_ge (by omega)] at h
    cases h

/-- The loop stays at zero. -/
theorem doubling_zero (h : 0 < minSize) : ¬Loop.Terminates (doublingPass minSize) 0 := by
  refine Loop.not_terminates_of_fixed ?_
  rw [doublingPass_lt h, shl_zero]

/-- A positive size grows with each pass. -/
theorem doubling_terminates (hpos : 0 < newSize) (hmin : minSize ≤ 2 ^ 62) :
    Loop.Terminates (doublingPass minSize) newSize := by
  obtain ⟨n, hn, -⟩ := passes_doubling hmin 64 hpos (by omega)
  exact ⟨65, by rw [hn]; rfl⟩

/-- No size that is shifted has one of the highest bits. -/
theorem doubling_range (hpos : 0 ≤ newSize) (hmin : minSize ≤ 2 ^ 62)
    (h : Loop.Reached (doublingPass minSize) newSize n) (hlt : n < minSize) : shl n = 2 * n := by
  have hn : 0 ≤ n := by
    refine Loop.Reached.invariant (I := fun size => 0 ≤ size) ?_ hpos h
    intro s s' hs hnext
    obtain ⟨hlt, rfl⟩ := doublingPass_next hnext
    rw [shl_eq hs (by omega)]
    omega
  exact shl_eq hn (by omega)

/-- The size after some shifts. -/
theorem iterate_shl (n : Int) : ∀ k : Nat, shl^[k + 1] n = (2 ^ (k + 1) * n).bmod (2 ^ 64) := by
  intro k
  induction k with
  | zero => rw [zero_add, Function.iterate_one, pow_one, shl]
  | succ k ih =>
    rw [Function.iterate_succ_apply', ih, shl, Int.mul_bmod_bmod, ← mul_assoc, ← pow_succ']

/-- Where all passes go on, they go on with the shifted sizes. -/
theorem passes_none : ∀ {k : Nat} {newSize : Int},
    Loop.passes (doublingPass minSize) (k + 1) newSize = none →
    shl^[k] newSize < minSize ∧ Loop.Reached (doublingPass minSize) newSize (shl^[k] newSize) := by
  intro k
  induction k with
  | zero =>
    intro newSize h
    refine ⟨?_, .refl⟩
    by_contra hge
    rw [Loop.passes_done (doublingPass_ge (by simpa using hge))] at h
    cases h
  | succ k ih =>
    intro newSize h
    by_cases hlt : newSize < minSize
    · rw [Loop.passes, doublingPass_lt hlt] at h
      obtain ⟨hle, hreached⟩ := ih h
      rw [Function.iterate_succ_apply]
      exact ⟨hle, (Loop.Reached.refl.step (doublingPass_lt hlt)).trans hreached⟩
    · rw [Loop.passes, doublingPass_ge (by omega)] at h
      cases h

/-- After 64 shifts the loop stays at zero. -/
theorem not_terminates_of_none (h : Loop.passes (doublingPass minSize) 65 newSize = none) :
    ¬Loop.Terminates (doublingPass minSize) newSize := by
  obtain ⟨hlt, hreached⟩ := passes_none h
  have hzero : shl^[64] newSize = 0 := by
    rw [iterate_shl newSize 63]
    exact Int.bmod_eq_zero_of_dvd (Dvd.intro _ rfl)
  rw [hzero] at hlt hreached
  intro hends
  exact doubling_zero hlt (hends.reached hreached)

/-- The size that `reserve` goes on with is the one that the loop is left with. -/
theorem doubled_iff {size : Int} : doubled newSize minSize = .ok size ↔
    ∃ k, Loop.passes (doublingPass minSize) k newSize = some (.ok size) := by
  unfold doubled
  cases hpasses : Loop.passes (doublingPass minSize) 65 newSize with
  | none =>
    constructor
    · intro h
      cases h
    · rintro ⟨k, hk⟩
      exact absurd ⟨k, by rw [hk]; rfl⟩ (not_terminates_of_none hpasses)
  | some x =>
    constructor
    · intro h
      cases h
      exact ⟨65, hpasses⟩
    · rintro ⟨k, hk⟩
      exact Loop.passes_unique hpasses hk

/-! ## The call -/

/-- A buffer without any room, and nothing asked for. -/
theorem Wf.reserve_nothing (h : b.Wf) (hzero : b.capacity_ = 0) (hmin : minSize ≤ 0) :
    ∃ b', b.reserve minSize = .ok b' ∧ b'.Wf ∧ b'.contents = b.contents ∧ minSize ≤ b'.capacity_ := by
  unfold reserve
  split
  · next hlt => exact ⟨b, rfl, h, rfl, by omega⟩
  · have hdoubled : doubled (shl b.capacity_) minSize = .ok 0 := by
      rw [hzero]
      exact doubled_iff.mpr ⟨1, Loop.passes_done (doublingPass_ge hmin)⟩
    obtain ⟨b', hb', hwf, hcontents, -, -, hcap⟩ := h.resize_ok 0
    exact ⟨b', by rw [hdoubled, ok_bind, hb'], hwf, hcontents, by omega⟩

/-- **`reserve` ends exactly if there is room to double, or nothing to ask for.** -/
theorem Wf.reserveEnds_iff (h : b.Wf) {minSize : Int} (hmin : minSize ≤ 2 ^ 61) :
    b.ReserveEnds minSize ↔ 0 < b.capacity_ ∨ minSize ≤ 0 := by
  constructor
  · intro hends
    by_contra hnot
    have hzero : b.capacity_ = 0 := by omega
    have hloop := hends.loop (by omega)
    rw [hzero] at hloop
    exact doubling_zero (by omega) hloop
  · intro hroom
    have hrange : b.capacity_ ≤ minSize → shl b.capacity_ = 2 * b.capacity_ ∧
        ∀ n, Loop.Reached (doublingPass minSize) (shl b.capacity_) n → n < minSize → shl n = 2 * n := by
      intro hle
      have hshl : shl b.capacity_ = 2 * b.capacity_ := shl_eq (by omega) (by omega)
      exact ⟨hshl, fun n hreached hlt => doubling_range (by omega) (by omega) hreached hlt⟩
    rcases Nat.eq_zero_or_pos b.capacity_ with hzero | hpos
    · have hnothing : minSize ≤ 0 := by omega
      obtain ⟨b', hb', -, hcontents, hcap⟩ := h.reserve_nothing hzero hnothing
      refine ⟨fun _ => ⟨1, ?_⟩, hrange, b', hb', hcap, hcontents⟩
      rw [hzero, Loop.passes_done (doublingPass_ge (by simpa using hnothing))]
      rfl
    · obtain ⟨b', hb', -, hcontents, -, -, hcap⟩ := h.reserve_ok hpos hmin
      refine ⟨fun hle => ?_, hrange, b', hb', hcap, hcontents⟩
      exact doubling_terminates (by have hshl := (hrange hle).1; omega) (by omega)

end Buffer

/-! ## Every buffer of a program -/

namespace Buffers

variable {s s' : Buffers} {ops : List BlockOp} {b : Buffer} {minSize : Int}

/-- What the operations ask for. `reserve` is called on any buffer. -/
def AllowedReserve (s : Buffers) (op : BlockOp) : Prop :=
  (∃ i minSize, op = .window (.call (.reserve i minSize))) ∨ s.AllowedBlock op

theorem Sound.stepReserve (op : BlockOp) (h : s.Sound) (hallowed : s.AllowedReserve op)
    (hs' : s.stepBlock op = .ok s') : s'.Sound := by
  rcases hallowed with ⟨i, minSize, rfl⟩ | hallowed
  · exact h.update (f := fun b => b.reserve minSize) (fun b b' hb hb' => hb.reserve_wf hb') hs'
  · exact h.stepBlock op hallowed hs'

/-- A buffer of a program that did whatever it liked with its buffers lies in its block. -/
theorem wf_of_run (hallowed : Along Buffers.stepBlock AllowedReserve init ops)
    (h : run Buffers.stepBlock init ops = .ok s) (hb : b ∈ s.buffers) : b.Wf := by
  have hsound : s.Sound := run_invariant_along
    (fun _ op _ hs ha hs' => hs.stepReserve op ha hs') (by simp [Sound, init]) hallowed h
  exact hsound b hb

/--
**`reserve` on the buffers of a program.** In every state that a program's operations lead to, a
call of `reserve` on one of the buffers ends, with the room asked for and the contents unchanged,
exactly if the buffer has a capacity to double or nothing is asked for.
-/
theorem reserveEnds_iff_of_run (hallowed : Along Buffers.stepBlock AllowedReserve init ops)
    (h : run Buffers.stepBlock init ops = .ok s) (hb : b ∈ s.buffers) (hmin : minSize ≤ 2 ^ 61) :
    b.ReserveEnds minSize ↔ 0 < b.capacity_ ∨ minSize ≤ 0 :=
  (wf_of_run hallowed h hb).reserveEnds_iff hmin

/-- A buffer of four bytes, and the one it is moved to. -/
def movedOps : List BlockOp := [.window (.call (.ofLength 4)), .window (.call (.moveConstruct 0))]

theorem allowed_moved : Along Buffers.stepBlock AllowedReserve init movedOps := by
  refine ⟨.inr trivial, fun s hs => ⟨.inr ?_, fun _ _ => trivial⟩⟩
  cases hs
  exact ⟨Buffer.ofLength 4, rfl, trivial⟩

theorem run_moved : run Buffers.stepBlock init movedOps =
    .ok { buffers := [Buffer.init, Buffer.ofLength 4], strings := [] } := rfl

theorem reserveEnds_iff_moved :
    (Buffer.ofLength 4).ReserveEnds 10 ↔ 0 < (Buffer.ofLength 4).capacity_ ∨ (10 : Int) ≤ 0 :=
  reserveEnds_iff_of_run allowed_moved run_moved (by simp) (by decide)

/-- Four bytes asked of the buffer that was moved from. -/
theorem reserve_moved_diverges :
    ¬Buffer.init.ReserveEnds 4 ∧
      ¬∀ (ops : List BlockOp) (s : Buffers) (b : Buffer) (minSize : Int),
        Along Buffers.stepBlock AllowedReserve init ops → run Buffers.stepBlock init ops = .ok s →
        b ∈ s.buffers → minSize ≤ 2 ^ 61 → b.ReserveEnds minSize := by
  have hnot : ¬Buffer.init.ReserveEnds 4 := by
    intro hends
    have hloop := hends.loop (by decide)
    rw [show (Buffer.init.capacity_ : Int) = 0 from rfl, Buffer.shl_zero] at hloop
    exact Buffer.doubling_zero (by decide) hloop
  refine ⟨hnot, fun hall => hnot ?_⟩
  exact hall movedOps _ Buffer.init 4 allowed_moved run_moved (by simp) (by decide)

end Buffers

end Liby
