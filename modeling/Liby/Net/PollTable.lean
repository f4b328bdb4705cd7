import Liby.Net.SelectSets

/-!
# The table of `PollerPoll`

`pollfds_` has an entry for each descriptor up to its size. `resize` fills it with entries for the
descriptor 0, and `addChanel` copies a `struct pollfd` whose `revents` nobody set. What is right in the
table depends on which entries the calls have touched.
-/

namespace Liby

open Infra

/-- `struct pollfd`. -/
structure PollEntry where
  fd : Int
  events : Interest
  revents : Revents
  deriving DecidableEq, Repr

/-- No flag is pending. -/
def Revents.clear : Revents :=
  { pollin := false, pollout := false, pollerr := false, pollhup := false, pollrdhup := false }

/-- What `resize` puts into `pollfds_`. -/
def PollEntry.zero : PollEntry where
  fd := 0
  events := { pollin := false, pollout := false, pollrdhup := false }
  revents := .clear

/-- A call on the poller, or `poll`, which writes the `revents` of each entry. -/
inductive PollCall (C : Type _) where
  /-- `revents` is what the memory of `pollfd1` held. -/
  | addChanel (ch : C) (readable writable : Bool) (revents : Revents)
  | updateChanel (ch : C) (readable writable : Bool)
  | removeChanel (ch : C)
  | poll (answers : Nat → Revents)

/-- `class PollerPoll`. -/
structure PollTable (C : Type _) where
  channels_ : Nat → Option C
  pollfds_ : List PollEntry

namespace PollTable

variable {C : Type _}

/-- The constructor; `defaultPollSize` is 48. -/
def init : PollTable C where
  channels_ := fun _ => none
  pollfds_ := List.replicate 48 PollEntry.zero

/-- `pollfds_.resize(fd * 2 + 1)`, if there is no entry for `fd`. -/
def grow (pollfds_ : List PollEntry) (fd : Nat) : Exec (List PollEntry) :=
  if pollfds_.length ≤ fd then do
    guardOr .signedOverflow (fd * 2 + 1 < 2 ^ 31)
    return pollfds_ ++ List.replicate (fd * 2 + 1 - pollfds_.length) PollEntry.zero
  else .ok pollfds_

/-- What the kernel leaves in an entry. -/
def answered (answers : Nat → Revents) (i : Nat) (entry : PollEntry) : PollEntry :=
  { entry with revents := if entry.fd < 0 then .clear else answers i }

/-- `addChanel`, `updateChanel`, `removeChanel`, and the call of `poll` in `loop_once`. -/
def call (getFd : C → Nat) (p : PollTable C) : PollCall C → Exec (PollTable C)
  | .addChanel ch readable writable revents => do
    let fd := getFd ch
    let events := { pollin := readable, pollout := writable, pollrdhup := true }
    let pollfds_ ← grow p.pollfds_ fd
    let pollfds_ ← writeAt pollfds_ fd { fd := fd, events := events, revents := revents }
    return { channels_ := setChannel p.channels_ fd (some ch), pollfds_ := pollfds_ }
  | .updateChanel ch readable writable => do
    let entry ← readAt p.pollfds_ (getFd ch)
    let events := { entry.events with pollin := readable, pollout := writable }
    let pollfds_ ← writeAt p.pollfds_ (getFd ch) { entry with events := events }
    return { p with pollfds_ := pollfds_ }
  | .removeChanel ch => do
    let entry ← readAt p.pollfds_ (getFd ch)
    let pollfds_ ← writeAt p.pollfds_ (getFd ch) { entry with fd := -1 }
    return { channels_ := setChannel p.channels_ (getFd ch) none, pollfds_ := pollfds_ }
  | .poll answers => .ok { p with pollfds_ := p.pollfds_.mapIdx (answered answers) }

end PollTable

/-- What is known of a registered descriptor: its latest flags, and what `poll` said since it was registered. -/
structure Watch where
  flags : Flags
  revents : Revents

/-- The interest that an entry has for flags. -/
def Flags.interest (flags : Flags) : Interest :=
  { pollin := flags.readable, pollout := flags.writable, pollrdhup := true }

/-- A `PollerPoll`, and the descriptors that are registered. -/
structure PollRun (C : Type _) where
  table : PollTable C
  registered : Nat → Option Watch

namespace PollRun

variable {C : Type _} (getFd : C → Nat)

def init : PollRun C where
  table := PollTable.init
  registered := fun _ => none

/-- What a call makes of the registered descriptors. -/
def next (registered : Nat → Option Watch) : PollCall C → Nat → Option Watch
  | .addChanel ch readable writable _ =>
    Function.update registered (getFd ch) (some { flags := ⟨readable, writable⟩, revents := .clear })
  | .updateChanel ch readable writable =>
    Function.update registered (getFd ch)
      ((registered (getFd ch)).map fun w => { w with flags := ⟨readable, writable⟩ })
  | .removeChanel ch => Function.update registered (getFd ch) none
  | .poll answers => fun fd => (registered fd).map fun w => { w with revents := answers fd }

def step (s : PollRun C) (call : PollCall C) : Exec (PollRun C) := do
  let table ← s.table.call getFd call
  return { table := table, registered := next getFd s.registered call }

/-- The entries that `poll` looks at are those of the registered descriptors. -/
structure Exact (s : PollRun C) : Prop where
  watched : ∀ fd w, s.registered fd = some w →
    s.table.pollfds_[fd]? = some { fd := fd, events := w.flags.interest, revents := w.revents }
  others : ∀ (i : Nat) entry, s.table.pollfds_[i]? = some entry → 0 ≤ entry.fd →
    (s.registered i).isSome = true

/-- Updates are of registered channels. -/
def OnRegistered (s : PollRun C) : PollCall C → Prop
  | .updateChanel ch _ _ => (s.registered (getFd ch)).isSome = true
  | _ => True

end PollRun

/-! ## Touched entries -/

/-- What the calls have done to an entry. `clean` is whether its `revents` were set. -/
inductive Slot where
  | unused
  | removed
  | watched (clean : Bool)
  deriving DecidableEq, Repr

/-- What the calls alone say of the table: its size, and what was done to each entry. -/
structure Plan where
  size : Nat
  slots : Nat → Slot

namespace Plan

variable {C : Type _} (getFd : C → Nat)

def init : Plan where
  size := 48
  slots := fun _ => .unused

def next (p : Plan) : PollCall C → Plan
  | .addChanel ch _ _ revents => {
      size := if p.size ≤ getFd ch then getFd ch * 2 + 1 else p.size
      slots := Function.update p.slots (getFd ch) (.watched (revents = .clear)) }
  | .updateChanel _ _ _ => p
  | .removeChanel ch => { p with slots := Function.update p.slots (getFd ch) .removed }
  | .poll _ => { p with
      slots := fun i =>
        match p.slots i with
        | .watched _ => .watched true
        | slot => slot }

/-- The call stays inside the table: the new size is an `int`, and what is removed has an entry. -/
def Fits (p : Plan) : PollCall C → Prop
  | .addChanel ch _ _ _ => p.size ≤ getFd ch → getFd ch * 2 + 1 < 2 ^ 31
  | .removeChanel ch => getFd ch < p.size
  | _ => True

/-- Each call stays inside the table. -/
def FitsAll : Plan → List (PollCall C) → Prop
  | _, [] => True
  | p, call :: calls => p.Fits getFd call ∧ FitsAll (p.next getFd call) calls

/-- Every entry was touched, and where a channel was added its `revents` were set. -/
def Ready (p : Plan) : Prop := ∀ i < p.size, p.slots i = .removed ∨ p.slots i = .watched true

end Plan

/-! ## The table follows the calls -/

namespace PollRun

variable {C : Type _} {getFd : C → Nat} {s : PollRun C} {p : Plan}

/-- An entry is what was done to it. -/
def SlotHolds (i : Nat) (entry : PollEntry) (watch : Option Watch) : Slot → Prop
  | .unused => entry.fd = 0 ∧ watch = none
  | .removed => entry.fd = -1 ∧ watch = none
  | .watched clean => ∃ w, watch = some w ∧ entry.fd = i ∧ entry.events = w.flags.interest ∧
    (entry.revents = w.revents ↔ clean = true)

/-- The table is what was done to it. -/
structure Follows (s : PollRun C) (p : Plan) : Prop where
  size : s.table.pollfds_.length = p.size
  slot : ∀ (i : Nat) entry, s.table.pollfds_[i]? = some entry →
    SlotHolds i entry (s.registered i) (p.slots i)
  beyond : ∀ i, p.size ≤ i → s.registered i = none ∧ p.slots i = .unused

theorem follows_init : (init : PollRun C).Follows Plan.init where
  size := List.length_replicate
  slot i entry h := by
    rw [List.eq_of_mem_replicate (List.mem_of_getElem? h)]
    exact ⟨rfl, rfl⟩
  beyond i _ := ⟨rfl, rfl⟩

/-- **The table is exact when every entry was touched.** -/
theorem Follows.exact_iff_ready (h : s.Follows p) : s.Exact ↔ p.Ready := by
  constructor
  · intro hexact i hi
    have hentry := List.getElem?_eq_getElem (h.size.symm ▸ hi)
    have hholds := h.slot i _ hentry
    cases hslot : p.slots i with
    | unused =>
      rw [hslot] at hholds
      have hsome := hexact.others i _ hentry hholds.1.ge
      rw [hholds.2] at hsome
      cases hsome
    | removed => exact .inl rfl
    | watched clean =>
      rw [hslot] at hholds
      obtain ⟨w, hw, -, -, hclean⟩ := hholds
      have hwatched := hexact.watched i w hw
      rw [hentry] at hwatched
      have hrevents := congrArg PollEntry.revents (Option.some.inj hwatched)
      rw [hclean.mp hrevents]
      exact .inr rfl
  · intro hready
    constructor
    · intro fd w hw
      have hlt : fd < p.size := by
        by_contra hge
        rw [(h.beyond fd (Nat.le_of_not_lt hge)).1] at hw
        cases hw
      have hentry := List.getElem?_eq_getElem (h.size.symm ▸ hlt)
      have hholds := h.slot fd _ hentry
      rcases hready fd hlt with hslot | hslot
      · rw [hslot] at hholds
        rw [hholds.2] at hw
        cases hw
      · rw [hslot] at hholds
        obtain ⟨w', hw', hfd, hevents, hclean⟩ := hholds
        cases hw.symm.trans hw'
        rw [hentry, ← hfd, ← hevents, ← hclean.mpr rfl]
    · intro i entry hentry hnonneg
      have hlt : i < p.size := by
        rw [← h.size]
        exact (List.getElem?_eq_some_iff.mp hentry).1
      have hholds := h.slot i entry hentry
      rcases hready i hlt with hslot | hslot
      · rw [hslot] at hholds
        have hfd := hholds.1
        omega
      · rw [hslot] at hholds
        obtain ⟨w, hw, -⟩ := hholds
        rw [hw]
        rfl

/-- One entry is written. -/
theorem Follows.set {registered : Nat → Option Watch} {pollfds_ : List PollEntry} {channels_ : Nat → Option C}
    {fd : Nat} {entry : PollEntry} {watch : Option Watch} {slot : Slot}
    (h : Follows { table := { channels_ := channels_, pollfds_ := pollfds_ }, registered := registered } p)
    (hfd : fd < p.size) (hentry : SlotHolds fd entry watch slot) (channels_' : Nat → Option C) :
    Follows { table := { channels_ := channels_', pollfds_ := pollfds_.set fd entry }
              registered := Function.update registered fd watch }
      { p with slots := Function.update p.slots fd slot } where
  size := by
    show (pollfds_.set fd entry).length = p.size
    rw [List.length_set]
    exact h.size
  slot i entry' hentry' := by
    dsimp only at hentry' ⊢
    by_cases hi : i = fd
    · subst hi
      rw [List.getElem?_set_self (h.size.symm ▸ hfd)] at hentry'
      cases hentry'
      rw [Function.update_self, Function.update_self]
      exact hentry
    · rw [List.getElem?_set_ne (Ne.symm hi)] at hentry'
      rw [Function.update_of_ne hi, Function.update_of_ne hi]
      exact h.slot i entry' hentry'
  beyond i hi := by
    have hne : i ≠ fd := fun heq => absurd hfd (by rw [← heq]; exact Nat.not_lt.mpr hi)
    dsimp only
    rw [Function.update_of_ne hne, Function.update_of_ne hne]
    exact h.beyond i hi

/-- The table after `resize`. -/
theorem Follows.grow (h : s.Follows p) {fd : Nat} (hfits : p.size ≤ fd → fd * 2 + 1 < 2 ^ 31) :
    ∃ pollfds_, PollTable.grow s.table.pollfds_ fd = .ok pollfds_ ∧
      Follows { s with table := { s.table with pollfds_ := pollfds_ } }
        { p with size := if p.size ≤ fd then fd * 2 + 1 else p.size } := by
  unfold PollTable.grow
  rw [h.size]
  by_cases hle : p.size ≤ fd
  · rw [if_pos hle, if_pos hle, guardOr_pos (hfits hle), ok_bind]
    refine ⟨_, rfl, ?_, fun i entry hentry => ?_, fun i hi => h.beyond i ?_⟩
    · show (s.table.pollfds_ ++ List.replicate _ _).length = _
      rw [List.length_append, List.length_replicate, h.size]
      show p.size + (fd * 2 + 1 - p.size) = fd * 2 + 1
      omega
    · dsimp only at hentry ⊢
      by_cases hi : i < p.size
      · rw [List.getElem?_append_left (h.size.symm ▸ hi)] at hentry
        exact h.slot i entry hentry
      · have hbeyond := h.beyond i (Nat.le_of_not_lt hi)
        rw [List.getElem?_append_right (by rw [h.size]; exact Nat.le_of_not_lt hi)] at hentry
        rw [List.eq_of_mem_replicate (List.mem_of_getElem? hentry), hbeyond.1, hbeyond.2]
        exact ⟨rfl, rfl⟩
    · have hi' : fd * 2 + 1 ≤ i := hi
      omega
  · rw [if_neg hle, if_neg hle]
    exact ⟨_, rfl, h⟩

theorem Follows.entry (h : s.Follows p) {fd : Nat} (hlt : fd < p.size) :
    ∃ entry, s.table.pollfds_[fd]? = some entry :=
  ⟨_, List.getElem?_eq_getElem (h.size.symm ▸ hlt)⟩

/-- What is registered has an entry. -/
theorem Follows.lt_size (h : s.Follows p) {fd : Nat} {w : Watch} (hw : s.registered fd = some w) :
    fd < p.size := by
  by_contra hge
  rw [(h.beyond fd (Nat.le_of_not_lt hge)).1] at hw
  cases hw

theorem Follows.add (h : s.Follows p) (ch : C) (readable writable : Bool) (revents : Revents)
    (hfits : p.Fits getFd (.addChanel ch readable writable revents)) :
    ∃ t, s.step getFd (.addChanel ch readable writable revents) = .ok t ∧
      t.Follows (p.next getFd (.addChanel ch readable writable revents)) := by
  obtain ⟨pollfds_, hgrow, hfollows⟩ := h.grow hfits
  have hlt : getFd ch < if p.size ≤ getFd ch then getFd ch * 2 + 1 else p.size := by
    split <;> omega
  have hlength : getFd ch < pollfds_.length := by
    have hsize : pollfds_.length = _ := hfollows.size
    rw [hsize]
    exact hlt
  let entry : PollEntry := { fd := getFd ch, events := Flags.interest ⟨readable, writable⟩, revents := revents }
  have hslot : SlotHolds (getFd ch) entry (some { flags := ⟨readable, writable⟩, revents := .clear })
      (.watched (revents = .clear)) := ⟨_, rfl, rfl, rfl, decide_eq_true_iff.symm⟩
  refine ⟨_, ?_, hfollows.set hlt hslot (setChannel s.table.channels_ (getFd ch) (some ch))⟩
  unfold PollRun.step PollTable.call
  dsimp only
  rw [hgrow, ok_bind, writeAt_of_lt hlength, ok_bind]
  rfl

theorem Follows.update (h : s.Follows p) (ch : C) (readable writable : Bool)
    (hcall : OnRegistered getFd s (.updateChanel ch readable writable)) :
    ∃ t, s.step getFd (.updateChanel ch readable writable) = .ok t ∧ t.Follows p := by
  obtain ⟨w, hw⟩ := Option.isSome_iff_exists.mp hcall
  have hlt := h.lt_size hw
  obtain ⟨entry, hentry⟩ := h.entry hlt
  have hholds := h.slot _ _ hentry
  obtain ⟨clean, hslot⟩ : ∃ clean, p.slots (getFd ch) = .watched clean := by
    cases hslot : p.slots (getFd ch) with
    | watched clean => exact ⟨clean, rfl⟩
    | unused =>
      rw [hslot, hw] at hholds
      cases hholds.2
    | removed =>
      rw [hslot, hw] at hholds
      cases hholds.2
  rw [hslot, hw] at hholds
  obtain ⟨w', hw', hfd, hevents, hclean⟩ := hholds
  cases hw'
  let events : Interest := { entry.events with pollin := readable, pollout := writable }
  have hset : SlotHolds (getFd ch) { entry with events := events }
      (some { w with flags := ⟨readable, writable⟩ }) (.watched clean) :=
    ⟨_, rfl, hfd, by dsimp only [events]; rw [hevents]; rfl, hclean⟩
  have hfollows := Follows.set h hlt hset s.table.channels_
  rw [← hslot, Function.update_eq_self] at hfollows
  refine ⟨_, ?_, hfollows⟩
  unfold PollRun.step PollTable.call next
  dsimp only
  rw [readAt_eq_ok.mpr hentry, ok_bind, writeAt_of_lt (h.size.symm ▸ hlt), ok_bind, hw]
  rfl

theorem Follows.remove (h : s.Follows p) (ch : C) (hfits : p.Fits getFd (.removeChanel ch)) :
    ∃ t, s.step getFd (.removeChanel ch) = .ok t ∧ t.Follows (p.next getFd (.removeChanel ch)) := by
  have hlt : getFd ch < p.size := hfits
  obtain ⟨entry, hentry⟩ := h.entry hlt
  have hslot : SlotHolds (getFd ch) { entry with fd := -1 } none .removed := ⟨rfl, rfl⟩
  refine ⟨_, ?_, Follows.set h hlt hslot (setChannel s.table.channels_ (getFd ch) none)⟩
  unfold PollRun.step PollTable.call
  dsimp only
  rw [readAt_eq_ok.mpr hentry, ok_bind, writeAt_of_lt (h.size.symm ▸ hlt), ok_bind]
  rfl

/-- After `poll` the `revents` are what it said. -/
theorem Follows.poll (h : s.Follows p) (answers : Nat → Revents) :
    ∃ t, s.step getFd (.poll answers) = .ok t ∧
      t.Follows (p.next getFd (.poll answers : PollCall C)) := by
  refine ⟨_, rfl, ?_, fun i entry hentry => ?_, fun i hi => ?_⟩
  · show (s.table.pollfds_.mapIdx _).length = p.size
    rw [List.length_mapIdx]
    exact h.size
  · have hmap : (s.table.pollfds_.mapIdx (PollTable.answered answers))[i]? = some entry := hentry
    rw [List.getElem?_mapIdx] at hmap
    obtain ⟨old, hold, rfl⟩ := Option.map_eq_some_iff.mp hmap
    have hholds := h.slot i old hold
    show SlotHolds i _ ((s.registered i).map _) (match p.slots i with | .watched _ => _ | slot => slot)
    cases hslot : p.slots i with
    | unused =>
      rw [hslot] at hholds
      rw [hholds.2]
      exact ⟨hholds.1, rfl⟩
    | removed =>
      rw [hslot] at hholds
      rw [hholds.2]
      exact ⟨hholds.1, rfl⟩
    | watched clean =>
      rw [hslot] at hholds
      obtain ⟨w, hw, hfd, hevents, -⟩ := hholds
      rw [hw]
      refine ⟨_, rfl, hfd, hevents, iff_of_true ?_ rfl⟩
      show (if old.fd < 0 then _ else answers i) = answers i
      rw [if_neg (by omega)]
  · have hbeyond := h.beyond i hi
    refine ⟨?_, ?_⟩
    · show (s.registered i).map _ = none
      rw [hbeyond.1]
      rfl
    · show (match p.slots i with | .watched _ => _ | slot => slot) = _
      rw [hbeyond.2]

/-- A call that stays inside the table does to it what it does to the plan. -/
theorem Follows.step (h : s.Follows p) (call : PollCall C) (hcall : OnRegistered getFd s call)
    (hfits : p.Fits getFd call) :
    ∃ t, s.step getFd call = .ok t ∧ t.Follows (p.next getFd call) := by
  cases call with
  | addChanel ch readable writable revents => exact h.add ch readable writable revents hfits
  | updateChanel ch readable writable => exact h.update ch readable writable hcall
  | removeChanel ch => exact h.remove ch hfits
  | poll answers => exact h.poll answers

/-- A call that does not is a fault. -/
theorem Follows.step_fault (h : s.Follows p) (call : PollCall C) (hfits : ¬p.Fits getFd call)
    (t : PollRun C) : s.step getFd call ≠ .ok t := by
  intro ht
  obtain ⟨table, htable, -⟩ := bind_eq_ok.mp ht
  cases call with
  | addChanel ch readable writable revents =>
    obtain ⟨pollfds_, hgrow, -⟩ := bind_eq_ok.mp htable
    refine hfits fun hle => ?_
    unfold PollTable.grow at hgrow
    rw [h.size, if_pos hle] at hgrow
    obtain ⟨u, hguard, -⟩ := bind_eq_ok.mp hgrow
    exact guardOr_eq_ok.mp hguard
  | updateChanel ch readable writable => exact hfits trivial
  | removeChanel ch =>
    obtain ⟨entry, hread, -⟩ := bind_eq_ok.mp htable
    obtain ⟨hlt, -⟩ := List.getElem?_eq_some_iff.mp (readAt_eq_ok.mp hread)
    rw [h.size] at hlt
    exact hfits hlt
  | poll answers => exact hfits trivial

/-! ## Every sequence of calls -/

theorem Follows.run_iff : ∀ (calls : List (PollCall C)) {s : PollRun C} {p : Plan}, s.Follows p →
    Along (PollRun.step getFd) (OnRegistered getFd) s calls →
    ((∃ t, run (PollRun.step getFd) s calls = .ok t ∧ t.Exact) ↔
      p.FitsAll getFd calls ∧ (calls.foldl (Plan.next getFd) p).Ready)
  | [], s, p, h, _ => by
    rw [List.foldl_nil, ← h.exact_iff_ready]
    constructor
    · rintro ⟨t, ht, hexact⟩
      cases ht
      exact ⟨trivial, hexact⟩
    · exact fun hready => ⟨s, rfl, hready.2⟩
  | call :: calls, s, p, h, hcalls => by
    by_cases hfits : p.Fits getFd call
    · obtain ⟨t, ht, hfollows⟩ := h.step call hcalls.1 hfits
      have hrest := Follows.run_iff calls hfollows (hcalls.2 t ht)
      rw [run_cons, ht, ok_bind, hrest, List.foldl_cons]
      exact ⟨fun hr => ⟨⟨hfits, hr.1⟩, hr.2⟩, fun hr => ⟨hr.1.2, hr.2⟩⟩
    · constructor
      · rintro ⟨t, ht, -⟩
        obtain ⟨t1, ht1, -⟩ := run_cons_ok ht
        exact absurd ht1 (h.step_fault call hfits t1)
      · exact fun hr => absurd hr.1.1 hfits

/--
**The table of `poll`.** After a sequence of calls whose updates are of registered channels the
table is exact if and only if the calls stay inside it, every entry up to its size was added or removed
at least once, and no registered entry still has the `revents` of uninitialised memory.
-/
theorem exact_after_iff (getFd : C → Nat) {calls : List (PollCall C)}
    (hcalls : Along (PollRun.step getFd) (OnRegistered getFd) init calls) :
    (∃ s, run (PollRun.step getFd) init calls = .ok s ∧ s.Exact) ↔
      Plan.init.FitsAll getFd calls ∧ (calls.foldl (Plan.next getFd) Plan.init).Ready :=
  follows_init.run_iff calls hcalls

/-- The call writes an entry of its own. -/
def Touches (getFd : C → Nat) (fd : Nat) : PollCall C → Prop
  | .addChanel ch _ _ _ | .removeChanel ch => getFd ch = fd
  | _ => False

theorem next_unused_iff (getFd : C → Nat) (p : Plan) (call : PollCall C) (fd : Nat) :
    (p.next getFd call).slots fd = .unused ↔ p.slots fd = .unused ∧ ¬Touches getFd fd call := by
  cases call with
  | addChanel ch readable writable revents =>
    show Function.update p.slots (getFd ch) _ fd = _ ↔ _ ∧ ¬getFd ch = fd
    by_cases hfd : getFd ch = fd
    · simp [hfd]
    · rw [Function.update_of_ne (Ne.symm hfd), and_iff_left hfd]
  | updateChanel ch readable writable => exact (and_iff_left id).symm
  | removeChanel ch =>
    show Function.update p.slots (getFd ch) _ fd = _ ↔ _ ∧ ¬getFd ch = fd
    by_cases hfd : getFd ch = fd
    · simp [hfd]
    · rw [Function.update_of_ne (Ne.symm hfd), and_iff_left hfd]
  | poll answers =>
    rw [and_iff_left (show ¬Touches getFd fd (.poll answers) from id)]
    show (match p.slots fd with | .watched _ => _ | slot => slot) = _ ↔ _
    cases p.slots fd <;> simp

/-- An entry is unused while no call was for its descriptor. -/
theorem unused_iff (getFd : C → Nat) (fd : Nat) : ∀ (calls : List (PollCall C)) (p : Plan),
    (calls.foldl (Plan.next getFd) p).slots fd = .unused ↔
      p.slots fd = .unused ∧ ∀ call ∈ calls, ¬Touches getFd fd call
  | [], p => by simp
  | call :: calls, p => by
    rw [List.foldl_cons, unused_iff getFd fd calls, next_unused_iff, List.forall_mem_cons, and_assoc]

/-- Each descriptor of the first table removed once, one of them added, and `poll`. -/
def allCalls : List (PollCall Nat) :=
  (List.range 48).map PollCall.removeChanel ++ [.addChanel 5 true false .clear, .poll fun _ => .clear]

theorem exact_after_iff_all :
    (∃ s, run (PollRun.step id) init allCalls = .ok s ∧ s.Exact) ↔
      Plan.init.FitsAll id allCalls ∧ (allCalls.foldl (Plan.next id) Plan.init).Ready := by
  refine exact_after_iff id (along_of_forall (fun call hcall s => ?_) init)
  rcases List.mem_append.mp hcall with hmem | hmem
  · obtain ⟨fd, -, rfl⟩ := List.mem_map.mp hmem
    trivial
  · simp only [List.mem_cons, List.not_mem_nil, or_false] at hmem
    rcases hmem with rfl | rfl <;> trivial

/-- One channel, for the descriptor 5: `poll` is asked for the descriptor 0 as well. -/
theorem watches_zero :
    (∃ s, run (PollRun.step id) init [.addChanel 5 true false .clear] = .ok s ∧
        s.table.pollfds_[7]? = some PollEntry.zero ∧ s.registered 0 = none ∧ s.registered 7 = none) ∧
      ¬∀ calls : List (PollCall Nat), Along (PollRun.step id) (OnRegistered id) init calls →
        ∃ s, run (PollRun.step id) init calls = .ok s ∧ s.Exact := by
  have hrun : ∃ s, run (PollRun.step id) init [.addChanel 5 true false .clear] = .ok s ∧
      s.table.pollfds_[7]? = some PollEntry.zero ∧ s.registered 0 = none ∧ s.registered 7 = none :=
    ⟨_, rfl, rfl, rfl, rfl⟩
  refine ⟨hrun, fun hall => ?_⟩
  obtain ⟨s, hs, hentry, -, hnone⟩ := hrun
  obtain ⟨t, ht, hexact⟩ := hall [.addChanel 5 true false .clear] ⟨trivial, fun _ _ => trivial⟩
  cases hs.symm.trans ht
  have hsome := hexact.others 7 _ hentry (Int.le_refl 0)
  rw [hnone] at hsome
  cases hsome

end PollRun

end Liby
