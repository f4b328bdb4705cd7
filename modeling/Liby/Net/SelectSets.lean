import Liby.Net.BackEnds
import Mathlib.Order.Lattice.Nat

/-!
# The sets of `PollerSelect`

Three sets of descriptors and a bound for `select`. The constructor sets none of the sets. `maxfd_`
goes up to one more than a descriptor that is added; to bring it down `removeChanel` compares it with
the descriptor itself.
-/

namespace Liby

open Infra

def FD_SETSIZE : Nat := 1024

/-- `fd_set`. -/
abbrev FdSet := Fin FD_SETSIZE → Bool

namespace FdSet

/-- `FD_SET` and `FD_CLR`. -/
def put (set : FdSet) (fd : Nat) (flag : Bool) : Exec FdSet :=
  if h : fd < FD_SETSIZE then .ok (Function.update set ⟨fd, h⟩ flag) else .error .outOfBounds

/-- `FD_ISSET`. -/
def isSet (set : FdSet) (fd : Nat) : Exec Bool :=
  if h : fd < FD_SETSIZE then .ok (set ⟨fd, h⟩) else .error .outOfBounds

end FdSet

/-- `class PollerSelect`. -/
structure PollerSelect (C : Type _) where
  channels_ : Nat → Option C
  rset_ : FdSet
  wset_ : FdSet
  eset_ : FdSet
  maxfd_ : Int

namespace PollerSelect

variable {C : Type _}

/-- The constructor. The sets hold what the memory held. -/
def init (rset_ wset_ eset_ : FdSet) : PollerSelect C where
  channels_ := fun _ => none
  rset_ := rset_
  wset_ := wset_
  eset_ := eset_
  maxfd_ := -1

/-- The loop of `removeChanel`, from the value of `maxfd_`. Below zero there is no bit. -/
def scanDown (rset_ wset_ eset_ : FdSet) : Nat → Exec Int
  | 0 => .error .outOfBounds
  | 1 => .ok 0
  | maxfd_ + 2 => do
    let r ← rset_.isSet (maxfd_ + 1)
    let w ← wset_.isSet (maxfd_ + 1)
    let e ← eset_.isSet (maxfd_ + 1)
    if r || w || e then return maxfd_ + 1 else scanDown rset_ wset_ eset_ (maxfd_ + 1)

/-- `addChanel`, `updateChanel` and `removeChanel`. -/
def call (getFd : C → Nat) (p : PollerSelect C) : ChannelCall C → Exec (PollerSelect C)
  | .addChanel ch readable writable => do
    let fd := getFd ch
    guardOr .exception (fd < FD_SETSIZE)
    let maxfd_ : Int := if p.maxfd_ ≤ fd then fd + 1 else p.maxfd_
    let rset_ ← (if readable then p.rset_.put fd true else .ok p.rset_)
    let wset_ ← (if writable then p.wset_.put fd true else .ok p.wset_)
    let eset_ ← p.eset_.put fd true
    return {
      channels_ := setChannel p.channels_ fd (some ch)
      rset_ := rset_
      wset_ := wset_
      eset_ := eset_
      maxfd_ := maxfd_ }
  | .updateChanel ch readable writable => do
    let rset_ ← p.rset_.put (getFd ch) readable
    let wset_ ← p.wset_.put (getFd ch) writable
    return { p with rset_ := rset_, wset_ := wset_ }
  | .removeChanel ch => do
    let fd := getFd ch
    let rset_ ← p.rset_.put fd false
    let wset_ ← p.wset_.put fd false
    let eset_ ← p.eset_.put fd false
    let maxfd_ ← (if (fd : Int) = p.maxfd_ then scanDown rset_ wset_ eset_ fd else .ok p.maxfd_)
    return {
      channels_ := setChannel p.channels_ fd none
      rset_ := rset_
      wset_ := wset_
      eset_ := eset_
      maxfd_ := maxfd_ }

end PollerSelect

/-- What a channel asks for. -/
structure Flags where
  readable : Bool
  writable : Bool
  deriving DecidableEq, Repr

/-- A flag of a descriptor; one that is not registered asks for nothing. -/
def asks (f : Flags → Bool) (flags : Option Flags) : Bool := (flags.map f).getD false

/-- A `PollerSelect`, and the latest flags of the descriptors that are registered. -/
structure SelectRun (C : Type _) where
  poller : PollerSelect C
  registered : Nat → Option Flags

namespace SelectRun

variable {C : Type _} (getFd : C → Nat)

def init (rset_ wset_ eset_ : FdSet) : SelectRun C where
  poller := PollerSelect.init rset_ wset_ eset_
  registered := fun _ => none

/-- The descriptor of a call. -/
def fdOf : ChannelCall C → Nat
  | .addChanel ch _ _ | .updateChanel ch _ _ | .removeChanel ch => getFd ch

/-- What a call makes of the flags of its descriptor. -/
def flagsAfter (call : ChannelCall C) (flags : Option Flags) : Option Flags :=
  match call with
  | .addChanel _ readable writable => some ⟨readable, writable⟩
  | .updateChanel _ readable writable => flags.map fun _ => ⟨readable, writable⟩
  | .removeChanel _ => none

def step (s : SelectRun C) (call : ChannelCall C) : Exec (SelectRun C) := do
  let poller ← s.poller.call getFd call
  let fd := fdOf getFd call
  return {
    poller := poller
    registered := Function.update s.registered fd (flagsAfter call (s.registered fd)) }

/-- The registered descriptors. -/
def descriptors (registered : Nat → Option Flags) : Set Nat := {fd | (registered fd).isSome = true}

/-- A set shows a flag of all descriptors. -/
def Shows (set : FdSet) (f : Flags → Bool) (registered : Nat → Option Flags) : Prop :=
  ∀ fd : Fin FD_SETSIZE, set fd = asks f (registered fd)

/-- The sets are exact, and so is the bound. -/
structure Exact (s : SelectRun C) : Prop where
  rset : Shows s.poller.rset_ Flags.readable s.registered
  wset : Shows s.poller.wset_ Flags.writable s.registered
  eset : Shows s.poller.eset_ (fun _ => true) s.registered
  maxfd : ∀ m, IsGreatest (descriptors s.registered) m → s.poller.maxfd_ = m + 1
  none : descriptors s.registered = ∅ → s.poller.maxfd_ ≤ 0

/-- What keeps them so: an addition of a registered descriptor does not take a flag away, an update of
another one asks for nothing, and the descriptor of a removal is not the largest one, nor the next. -/
def Keeps (s : SelectRun C) : ChannelCall C → Prop
  | .addChanel ch readable writable => ∀ flags ∈ s.registered (getFd ch),
    (flags.readable = true → readable = true) ∧ (flags.writable = true → writable = true)
  | .updateChanel ch readable writable =>
    s.registered (getFd ch) = none → readable = false ∧ writable = false
  | .removeChanel ch => ∀ m, IsGreatest (descriptors s.registered) m → getFd ch ≠ m ∧ getFd ch ≠ m + 1

/-- Exact, with descriptors that fit and a bound that was never brought down. -/
structure Sound (s : SelectRun C) : Prop where
  exact_ : s.Exact
  small : ∀ fd ∈ descriptors s.registered, fd < FD_SETSIZE
  fresh : descriptors s.registered = ∅ → s.poller.maxfd_ = -1

variable {getFd} {s : SelectRun C} {set : FdSet} {f : Flags → Bool} {registered : Nat → Option Flags}
  {fd m : Nat} {flags : Option Flags} {b : Bool}

/-! ## A bit of a set -/

theorem put_eq (h : fd < FD_SETSIZE) (set : FdSet) (flag : Bool) :
    set.put fd flag = .ok (Function.update set ⟨fd, h⟩ flag) := dif_pos h

/-- `FD_SET` under a condition. -/
theorem put_if (h : fd < FD_SETSIZE) (set : FdSet) (flag : Bool) :
    (if flag then set.put fd true else .ok set) =
      .ok (Function.update set ⟨fd, h⟩ (flag || set ⟨fd, h⟩)) := by
  cases flag with
  | true => exact put_eq h set true
  | false => exact congrArg Except.ok (Function.update_eq_self _ _).symm

/-- A set shows the flags after a change if the bit is right. -/
theorem Shows.update_iff (h : Shows set f registered) (hfd : fd < FD_SETSIZE) :
    Shows (Function.update set ⟨fd, hfd⟩ b) f (Function.update registered fd flags) ↔
      b = asks f flags := by
  constructor
  · intro hshows
    have hbit := hshows ⟨fd, hfd⟩
    rwa [Function.update_self, Function.update_self] at hbit
  · intro hb fd'
    by_cases heq : fd' = ⟨fd, hfd⟩
    · subst heq
      rw [Function.update_self, Function.update_self, hb]
    · have hne : (fd' : Nat) ≠ fd := fun hval => heq (Fin.ext hval)
      rw [Function.update_of_ne heq, Function.update_of_ne hne]
      exact h fd'

/-! ## What a call leaves -/

theorem step_addChanel (ch : C) (readable writable : Bool) (hfd : getFd ch < FD_SETSIZE) :
    s.step getFd (.addChanel ch readable writable) = .ok {
      poller := {
        channels_ := setChannel s.poller.channels_ (getFd ch) (some ch)
        rset_ := Function.update s.poller.rset_ ⟨getFd ch, hfd⟩
          (readable || s.poller.rset_ ⟨getFd ch, hfd⟩)
        wset_ := Function.update s.poller.wset_ ⟨getFd ch, hfd⟩
          (writable || s.poller.wset_ ⟨getFd ch, hfd⟩)
        eset_ := Function.update s.poller.eset_ ⟨getFd ch, hfd⟩ true
        maxfd_ := if s.poller.maxfd_ ≤ getFd ch then (getFd ch : Int) + 1 else s.poller.maxfd_ }
      registered := Function.update s.registered (getFd ch) (some ⟨readable, writable⟩) } := by
  unfold step PollerSelect.call
  dsimp only
  rw [guardOr_pos hfd, ok_bind, put_if hfd, ok_bind, put_if hfd, ok_bind, put_eq hfd, ok_bind]
  rfl

theorem step_updateChanel (ch : C) (readable writable : Bool) (hfd : getFd ch < FD_SETSIZE) :
    s.step getFd (.updateChanel ch readable writable) = .ok {
      poller := { s.poller with
        rset_ := Function.update s.poller.rset_ ⟨getFd ch, hfd⟩ readable
        wset_ := Function.update s.poller.wset_ ⟨getFd ch, hfd⟩ writable }
      registered := Function.update s.registered (getFd ch)
        ((s.registered (getFd ch)).map fun _ => ⟨readable, writable⟩) } := by
  unfold step PollerSelect.call
  dsimp only
  rw [put_eq hfd, ok_bind, put_eq hfd, ok_bind]
  rfl

/-- The sets after a removal, and the bound that the comparison gives. -/
theorem step_removeChanel (ch : C) (hfd : getFd ch < FD_SETSIZE) (maxfd_ : Int)
    (hmaxfd : (if (getFd ch : Int) = s.poller.maxfd_ then
      PollerSelect.scanDown (Function.update s.poller.rset_ ⟨getFd ch, hfd⟩ false)
        (Function.update s.poller.wset_ ⟨getFd ch, hfd⟩ false)
        (Function.update s.poller.eset_ ⟨getFd ch, hfd⟩ false) (getFd ch)
      else .ok s.poller.maxfd_) = .ok maxfd_) :
    s.step getFd (.removeChanel ch) = .ok {
      poller := {
        channels_ := setChannel s.poller.channels_ (getFd ch) none
        rset_ := Function.update s.poller.rset_ ⟨getFd ch, hfd⟩ false
        wset_ := Function.update s.poller.wset_ ⟨getFd ch, hfd⟩ false
        eset_ := Function.update s.poller.eset_ ⟨getFd ch, hfd⟩ false
        maxfd_ := maxfd_ }
      registered := Function.update s.registered (getFd ch) none } := by
  unfold step PollerSelect.call
  dsimp only
  rw [put_eq hfd, ok_bind, put_eq hfd, ok_bind, put_eq hfd, ok_bind, hmaxfd, ok_bind]
  rfl

/-! ## The largest descriptor -/

theorem exists_greatest (hsmall : ∀ fd ∈ descriptors registered, fd < FD_SETSIZE)
    (hne : (descriptors registered).Nonempty) : ∃ m, IsGreatest (descriptors registered) m := by
  have hbdd : BddAbove (descriptors registered) := ⟨FD_SETSIZE, fun fd hfd => (hsmall fd hfd).le⟩
  exact ⟨_, Nat.sSup_mem hne hbdd, fun fd hfd => le_csSup hbdd hfd⟩

theorem mem_descriptors_update : m ∈ descriptors (Function.update registered fd flags) ↔
    if m = fd then flags.isSome = true else m ∈ descriptors registered := by
  show (Function.update registered fd flags m).isSome = true ↔ _
  by_cases hm : m = fd
  · subst hm
    rw [Function.update_self, if_pos rfl]
  · rw [Function.update_of_ne hm, if_neg hm]
    exact Iff.rfl

/-- A descriptor that stays, or is not there before and after, leaves the descriptors as they are. -/
theorem descriptors_update_of_isSome (h : flags.isSome = (registered fd).isSome) :
    descriptors (Function.update registered fd flags) = descriptors registered := by
  ext m
  rw [mem_descriptors_update]
  by_cases hm : m = fd
  · subst hm
    rw [if_pos rfl, h]
    exact Iff.rfl
  · rw [if_neg hm]

/-- The bound after an addition. -/
theorem Sound.maxfd_add (h : s.Sound) (fd : Nat) (flags : Flags)
    (hm : IsGreatest (descriptors (Function.update s.registered fd (some flags))) m) :
    (if s.poller.maxfd_ ≤ fd then (fd : Int) + 1 else s.poller.maxfd_) = m + 1 := by
  obtain ⟨hmem, hupper⟩ := hm
  have hfd : fd ≤ m := hupper (mem_descriptors_update.mpr (by rw [if_pos rfl]; rfl))
  rcases Set.eq_empty_or_nonempty (descriptors s.registered) with hempty | hne
  · have hfirst := h.fresh hempty
    have heq : m = fd := by
      by_contra hmfd
      rw [mem_descriptors_update, if_neg hmfd, hempty] at hmem
      exact hmem
    rw [if_pos (by omega), heq]
  · obtain ⟨m', hm'⟩ := exists_greatest h.small hne
    have hbound := h.exact_.maxfd m' hm'
    have hle : m' ≤ m := by
      refine hupper (mem_descriptors_update.mpr ?_)
      split
      · rfl
      · exact hm'.1
    -- the greatest one is the new one or the old one
    have hor : m = fd ∨ m ≤ m' := by
      by_cases hmfd : m = fd
      · exact .inl hmfd
      · rw [mem_descriptors_update, if_neg hmfd] at hmem
        exact .inr (hm'.2 hmem)
    split <;> omega

/-- **An addition keeps the sets exact exactly if it takes no flag away.** -/
theorem Sound.step_add (h : s.Sound) (ch : C) (readable writable : Bool)
    (hfd : getFd ch < FD_SETSIZE) : ∃ t, s.step getFd (.addChanel ch readable writable) = .ok t ∧
      (Keeps getFd s (.addChanel ch readable writable) → t.Sound) ∧
      (t.Exact → Keeps getFd s (.addChanel ch readable writable)) := by
  have hr := h.exact_.rset ⟨getFd ch, hfd⟩
  have hw := h.exact_.wset ⟨getFd ch, hfd⟩
  have hmem : getFd ch ∈ descriptors
      (Function.update s.registered (getFd ch) (some ⟨readable, writable⟩)) :=
    mem_descriptors_update.mpr (by rw [if_pos rfl]; rfl)
  have hne := Set.Nonempty.ne_empty ⟨_, hmem⟩
  refine ⟨_, step_addChanel ch readable writable hfd, ?_⟩
  · constructor
    · intro hkeeps
      refine ⟨⟨?_, ?_, ?_, fun m hm => h.maxfd_add (getFd ch) _ hm, fun hempty => absurd hempty hne⟩,
        fun fd hmem => ?_, fun hempty => absurd hempty hne⟩
      · refine (h.exact_.rset.update_iff hfd).mpr ?_
        rw [hr]
        cases hold : s.registered (getFd ch) with
        | none => simp [asks]
        | some flags => simpa [asks] using (hkeeps flags hold).1
      · refine (h.exact_.wset.update_iff hfd).mpr ?_
        rw [hw]
        cases hold : s.registered (getFd ch) with
        | none => simp [asks]
        | some flags => simpa [asks] using (hkeeps flags hold).2
      · exact (h.exact_.eset.update_iff hfd).mpr rfl
      · have hmem' := mem_descriptors_update.mp hmem
        split at hmem'
        · next heq => exact heq ▸ hfd
        · exact h.small fd hmem'
    · intro hexact flags hflags
      have hr' := (h.exact_.rset.update_iff hfd).mp hexact.rset
      have hw' := (h.exact_.wset.update_iff hfd).mp hexact.wset
      rw [hr, Option.mem_def.mp hflags] at hr'
      rw [hw, Option.mem_def.mp hflags] at hw'
      simp only [asks, Option.map_some, Option.getD_some] at hr' hw'
      exact ⟨fun hon => by rwa [hon, Bool.or_true, eq_comm] at hr',
        fun hon => by rwa [hon, Bool.or_true, eq_comm] at hw'⟩

/-- **An update keeps the sets exact exactly if it is of a registered descriptor, or asks for nothing.** -/
theorem Sound.step_update (h : s.Sound) (ch : C) (readable writable : Bool)
    (hfd : getFd ch < FD_SETSIZE) : ∃ t, s.step getFd (.updateChanel ch readable writable) = .ok t ∧
      (Keeps getFd s (.updateChanel ch readable writable) → t.Sound) ∧
      (t.Exact → Keeps getFd s (.updateChanel ch readable writable)) := by
  have hsame : descriptors (Function.update s.registered (getFd ch)
      ((s.registered (getFd ch)).map fun _ => ⟨readable, writable⟩)) = descriptors s.registered :=
    descriptors_update_of_isSome (by simp)
  refine ⟨_, step_updateChanel ch readable writable hfd, ?_⟩
  · constructor
    · intro hkeeps
      refine ⟨⟨?_, ?_, ?_, fun m hm => h.exact_.maxfd m (hsame ▸ hm), fun hempty =>
        h.exact_.none (hsame ▸ hempty)⟩, fun fd hmem => h.small fd (hsame ▸ hmem), fun hempty =>
        h.fresh (hsame ▸ hempty)⟩
      · refine (h.exact_.rset.update_iff hfd).mpr ?_
        cases hold : s.registered (getFd ch) with
        | none => simpa [asks, hold] using (hkeeps hold).1
        | some flags => simp [asks]
      · refine (h.exact_.wset.update_iff hfd).mpr ?_
        cases hold : s.registered (getFd ch) with
        | none => simpa [asks, hold] using (hkeeps hold).2
        | some flags => simp [asks]
      · have hbit : s.poller.eset_ ⟨getFd ch, hfd⟩ = asks (fun _ => true)
            ((s.registered (getFd ch)).map fun _ => ⟨readable, writable⟩) := by
          rw [h.exact_.eset ⟨getFd ch, hfd⟩]
          cases s.registered (getFd ch) <;> rfl
        have heset := (h.exact_.eset.update_iff hfd).mpr hbit
        rwa [Function.update_eq_self] at heset
    · intro hexact hnone
      have hr' := (h.exact_.rset.update_iff hfd).mp hexact.rset
      have hw' := (h.exact_.wset.update_iff hfd).mp hexact.wset
      simp only [hnone, asks, Option.map_none, Option.getD_none] at hr' hw'
      exact ⟨hr', hw'⟩

/-- A removal that is neither of the largest descriptor nor of the next leaves the sets exact. -/
theorem Sound.step_remove (h : s.Sound) (ch : C) (hfd : getFd ch < FD_SETSIZE)
    (hkeeps : Keeps getFd s (.removeChanel ch)) :
    ∃ t, s.step getFd (.removeChanel ch) = .ok t ∧ t.Sound := by
  have hsub : ∀ m ∈ descriptors (Function.update s.registered (getFd ch) none),
      m ∈ descriptors s.registered := by
    intro m hm
    rw [mem_descriptors_update] at hm
    split at hm
    · cases hm
    · exact hm
  have hstay : ∀ m, IsGreatest (descriptors s.registered) m →
      IsGreatest (descriptors (Function.update s.registered (getFd ch) none)) m := by
    intro m hm
    refine ⟨mem_descriptors_update.mpr ?_, fun m' hm' => hm.2 (hsub m' hm')⟩
    rw [if_neg (Ne.symm (hkeeps m hm).1)]
    exact hm.1
  -- the comparison with `maxfd_` fails
  have hne : ¬(getFd ch : Int) = s.poller.maxfd_ := by
    rcases Set.eq_empty_or_nonempty (descriptors s.registered) with hempty | hne
    · have hfresh := h.fresh hempty
      omega
    · obtain ⟨m, hm⟩ := exists_greatest h.small hne
      have hbound := h.exact_.maxfd m hm
      have hnext := (hkeeps m hm).2
      omega
  refine ⟨_, step_removeChanel ch hfd s.poller.maxfd_ (if_neg hne), ⟨?_, ?_, ?_, ?_, ?_⟩, ?_, ?_⟩
  · exact (h.exact_.rset.update_iff hfd).mpr rfl
  · exact (h.exact_.wset.update_iff hfd).mpr rfl
  · exact (h.exact_.eset.update_iff hfd).mpr rfl
  · intro m hm
    obtain ⟨m', hm'⟩ := exists_greatest h.small ⟨m, hsub m hm.1⟩
    rw [(hstay m' hm').unique hm] at hm'
    exact h.exact_.maxfd m hm'
  · intro hempty
    rcases Set.eq_empty_or_nonempty (descriptors s.registered) with hempty' | hne'
    · exact h.exact_.none hempty'
    · obtain ⟨m, hm⟩ := exists_greatest h.small hne'
      exact absurd (hstay m hm).1 (by rw [hempty]; exact Set.notMem_empty m)
  · exact fun fd hmem => h.small fd (hsub fd hmem)
  · intro hempty
    rcases Set.eq_empty_or_nonempty (descriptors s.registered) with hempty' | hne'
    · exact h.fresh hempty'
    · obtain ⟨m, hm⟩ := exists_greatest h.small hne'
      exact absurd (hstay m hm).1 (by rw [hempty]; exact Set.notMem_empty m)

/-- The scan stops at a descriptor that is in `eset_`. -/
theorem scanDown_of_mem (rset_ wset_ : FdSet) {eset_ : FdSet} (hm : m < FD_SETSIZE) (hmem : eset_ ⟨m, hm⟩ = true) :
    PollerSelect.scanDown rset_ wset_ eset_ (m + 1) = .ok m := by
  cases m with
  | zero => rfl
  | succ m =>
    unfold PollerSelect.scanDown FdSet.isSet
    rw [dif_pos hm, ok_bind, dif_pos hm, ok_bind, dif_pos hm, ok_bind, hmem, Bool.or_true, if_pos rfl]
    rfl

/-- A removal of the largest descriptor, or of the next, leaves the bound one off or more. -/
theorem Sound.step_remove_off (h : s.Sound) (ch : C) (hfd : getFd ch < FD_SETSIZE)
    (hkeeps : ¬Keeps getFd s (.removeChanel ch)) :
    ∃ t, s.step getFd (.removeChanel ch) = .ok t ∧ ¬t.Exact := by
  obtain ⟨m, hm, hor⟩ : ∃ m, IsGreatest (descriptors s.registered) m ∧
      (getFd ch = m ∨ getFd ch = m + 1) := by
    by_contra hall
    refine hkeeps fun m hm => ⟨fun heq => hall ⟨m, hm, .inl heq⟩, fun heq => hall ⟨m, hm, .inr heq⟩⟩
  have hbound := h.exact_.maxfd m hm
  rcases hor with hlargest | hnext
  · -- the bound stays, and no descriptor that is left is as large
    refine ⟨_, step_removeChanel ch hfd s.poller.maxfd_ (if_neg (by omega)), fun hexact => ?_⟩
    rcases Set.eq_empty_or_nonempty
      (descriptors (Function.update s.registered (getFd ch) none)) with hempty | hne
    · have hnone := hexact.none hempty
      dsimp only at hnone
      omega
    · obtain ⟨m', hm'⟩ := exists_greatest (fun fd hmem => by
        rw [mem_descriptors_update] at hmem
        split at hmem
        · cases hmem
        · exact h.small fd hmem) hne
      have hbound' := hexact.maxfd m' hm'
      have hmem := mem_descriptors_update.mp hm'.1
      split at hmem
      · cases hmem
      · dsimp only at hbound'
        omega
  · -- the scan stops at the largest descriptor, one below the bound
    have hmlt := h.small m hm.1
    have heset : Function.update s.poller.eset_ ⟨getFd ch, hfd⟩ false ⟨m, hmlt⟩ = true := by
      rw [Function.update_of_ne (fun heq => by have := congrArg Fin.val heq; simp only at this; omega),
        h.exact_.eset ⟨m, hmlt⟩]
      obtain ⟨flags, hflags⟩ := Option.isSome_iff_exists.mp hm.1
      simp [asks, hflags]
    have hscan := scanDown_of_mem (Function.update s.poller.rset_ ⟨getFd ch, hfd⟩ false)
      (Function.update s.poller.wset_ ⟨getFd ch, hfd⟩ false) hmlt heset
    have hsame : descriptors (Function.update s.registered (getFd ch) none) = descriptors s.registered := by
      refine descriptors_update_of_isSome ?_
      have hnot : getFd ch ∉ descriptors s.registered := fun hmem => by
        have hle := hm.2 hmem
        omega
      exact (Bool.eq_false_iff.mpr hnot).symm
    refine ⟨_, step_removeChanel ch hfd m ?_, fun hexact => ?_⟩
    · rw [if_pos (by omega), ← hscan]
      exact congrArg _ hnext
    · have hbound' := hexact.maxfd m (by rw [hsame]; exact hm)
      dsimp only at hbound'
      omega

/-! ## Every sequence of calls -/

/-- Nothing was in the memory of the sets. -/
def Cleared (rset_ wset_ eset_ : FdSet) : Prop :=
  ∀ fd, rset_ fd = false ∧ wset_ fd = false ∧ eset_ fd = false

theorem descriptors_none : descriptors (fun _ => none) = ∅ :=
  Set.eq_empty_iff_forall_notMem.mpr fun fd h => by cases h

theorem sound_init {rset_ wset_ eset_ : FdSet} (h : Cleared rset_ wset_ eset_) :
    (init rset_ wset_ eset_ : SelectRun C).Sound where
  exact_ := {
    rset := fun fd => (h fd).1
    wset := fun fd => (h fd).2.1
    eset := fun fd => (h fd).2.2
    maxfd := fun m hm => absurd hm.1 (by
      show m ∉ descriptors fun _ => none
      rw [descriptors_none]
      exact Set.notMem_empty m)
    none := fun _ => Int.negSucc_le_zero 0 }
  small fd hfd := by cases hfd
  fresh _ := rfl

theorem cleared_of_exact {rset_ wset_ eset_ : FdSet}
    (h : (init rset_ wset_ eset_ : SelectRun C).Exact) : Cleared rset_ wset_ eset_ :=
  fun fd => ⟨h.rset fd, h.wset fd, h.eset fd⟩

theorem Sound.step (h : s.Sound) (call : ChannelCall C) (hfd : fdOf getFd call < FD_SETSIZE)
    (hkeeps : Keeps getFd s call) : Guarantees Sound (s.step getFd call) := by
  cases call with
  | addChanel ch readable writable =>
    obtain ⟨t, ht, hsound, -⟩ := h.step_add ch readable writable hfd
    rw [ht]
    exact hsound hkeeps
  | updateChanel ch readable writable =>
    obtain ⟨t, ht, hsound, -⟩ := h.step_update ch readable writable hfd
    rw [ht]
    exact hsound hkeeps
  | removeChanel ch =>
    obtain ⟨t, ht, hsound⟩ := h.step_remove ch hfd hkeeps
    rw [ht]
    exact hsound

theorem Sound.step_off (h : s.Sound) (call : ChannelCall C) (hfd : fdOf getFd call < FD_SETSIZE)
    (hkeeps : ¬Keeps getFd s call) : ∃ t, s.step getFd call = .ok t ∧ ¬t.Exact := by
  cases call with
  | addChanel ch readable writable =>
    obtain ⟨t, ht, -, hexact⟩ := h.step_add ch readable writable hfd
    exact ⟨t, ht, fun hex => hkeeps (hexact hex)⟩
  | updateChanel ch readable writable =>
    obtain ⟨t, ht, -, hexact⟩ := h.step_update ch readable writable hfd
    exact ⟨t, ht, fun hex => hkeeps (hexact hex)⟩
  | removeChanel ch => exact h.step_remove_off ch hfd hkeeps

/--
**The sets of `select`.** From any content of the sets, and for every sequence of calls with
descriptors below `FD_SETSIZE`, the sets and the bound are exact in every state exactly if the sets
were empty to begin with and every call keeps them so.
-/
theorem exact_iff (getFd : C → Nat) (rset_ wset_ eset_ : FdSet) {calls : List (ChannelCall C)}
    (hcalls : ∀ call ∈ calls, fdOf getFd call < FD_SETSIZE) :
    (Cleared rset_ wset_ eset_ ∧ Along (SelectRun.step getFd) (Keeps getFd) (init rset_ wset_ eset_) calls) ↔
      (∀ e, run (SelectRun.step getFd) (init rset_ wset_ eset_) calls = .error e → e = .environment) ∧
        ∀ before s, before <+: calls →
          run (SelectRun.step getFd) (init rset_ wset_ eset_) before = .ok s → s.Exact := by
  have hiff (hcleared : Cleared rset_ wset_ eset_) :=
    along_iff_guarantees (K := fun _ call => fdOf getFd call < FD_SETSIZE) (P := Exact)
      (fun _ h => h.exact_) (fun _ call h hfd hkeeps => Sound.step h call hfd hkeeps)
      (fun _ call h hfd hkeeps => Sound.step_off h call hfd hkeeps) calls (sound_init hcleared)
      (along_of_forall (fun call hcall _ => hcalls call hcall) _)
  constructor
  · rintro ⟨hcleared, halong⟩
    exact (hiff hcleared).mp halong
  · intro hall
    have hcleared := cleared_of_exact (hall.2 [] _ List.nil_prefix rfl)
    exact ⟨hcleared, (hiff hcleared).mpr hall⟩

/-- Two descriptors, the larger of which is removed. -/
def twoCalls : List (ChannelCall Nat) :=
  [.addChanel 3 true false, .addChanel 5 true true, .removeChanel 5]

theorem exact_iff_two :
    (Cleared (fun _ => false) (fun _ => false) (fun _ => false) ∧
        Along (SelectRun.step id) (Keeps id) (init (fun _ => false) (fun _ => false) fun _ => false) twoCalls) ↔
      (∀ e, run (SelectRun.step id) (init (fun _ => false) (fun _ => false) fun _ => false) twoCalls =
        .error e → e = .environment) ∧
        ∀ before s, before <+: twoCalls → run (SelectRun.step id)
          (init (fun _ => false) (fun _ => false) fun _ => false) before = .ok s → s.Exact :=
  exact_iff id _ _ _ (by decide)

/-- The bound after the largest descriptor was removed, and a set that held something before. -/
theorem removed_largest :
    (∃ s, run (SelectRun.step id) (init (fun _ => false) (fun _ => false) fun _ => false) twoCalls = .ok s ∧
        s.poller.maxfd_ = 6 ∧ IsGreatest (descriptors s.registered) 3) ∧
      ¬∀ (rset_ wset_ eset_ : FdSet) (calls : List (ChannelCall Nat)),
        (∀ call ∈ calls, fdOf id call < FD_SETSIZE) →
        (∀ e, run (SelectRun.step id) (init rset_ wset_ eset_) calls = .error e → e = .environment) ∧
          ∀ before s, before <+: calls →
            run (SelectRun.step id) (init rset_ wset_ eset_) before = .ok s → s.Exact := by
  have hrun : ∃ s, run (SelectRun.step id) (init (fun _ => false) (fun _ => false) fun _ => false) twoCalls =
      .ok s ∧ s.poller.maxfd_ = 6 ∧ IsGreatest (descriptors s.registered) 3 := by
    refine ⟨_, rfl, rfl, rfl, fun fd hfd => ?_⟩
    by_contra hlt
    have hmem := mem_descriptors_update.mp hfd
    split at hmem
    · cases hmem
    · have hmem' := mem_descriptors_update.mp hmem
      split at hmem'
      · next hne heq => exact hne heq
      · have hmem'' := mem_descriptors_update.mp hmem'
        split at hmem''
        · next heq => exact hlt heq.le
        · cases hmem''
  refine ⟨hrun, fun hall => ?_⟩
  obtain ⟨s, hs, hbound, hgreatest⟩ := hrun
  have hexact := (hall (fun _ => false) (fun _ => false) (fun _ => false) twoCalls (by decide)).2 twoCalls s
    (List.prefix_refl _) hs
  have hmax := hexact.maxfd 3 hgreatest
  omega

end SelectRun

end Liby
