import Liby.Net.BackEndsAgree
import Liby.Net.PeerClose

/-!
# The loop of `PollerSelect`

`loop_once` looks at copies of the three sets, for each descriptor below `maxfd_`, until `nready`
descriptors are counted off. `select` knows no half-closed stream: a connection whose peer has closed is
readable, so what is left is read before the end is.
-/

namespace Liby

open Infra

variable {S C σ H : Type _}

/-- What `select` leaves of the three sets for a descriptor. -/
structure SelectBits where
  rset : Bool
  wset : Bool
  eset : Bool
  deriving DecidableEq, Repr

namespace SelectBits

/-- The number of sets that have the descriptor. -/
def count (bits : SelectBits) : Nat := bits.rset.toNat + bits.wset.toNat + bits.eset.toNat

/-- The flags of `poll` that lead to the same calls. -/
def revents (bits : SelectBits) : Revents where
  pollin := bits.rset
  pollout := bits.wset
  pollerr := bits.eset
  pollhup := false
  pollrdhup := false

theorem count_pos (bits : SelectBits) (h : bits.revents.ready = true) : 0 < bits.count := by
  obtain ⟨rset, wset, eset⟩ := bits
  revert h
  cases rset <;> cases wset <;> cases eset <;> decide

end SelectBits

namespace PollerSelect

variable (r : Reactor S C) (maxfd_ : S → Int)

/-- The body of the loop for one descriptor, and whether `nready` goes down. -/
def handleFd (s : S) (fd : Nat) (bits : SelectBits) : Exec (S × Bool) :=
  match r.getChannel s fd with
  | none => .ok (s, false)
  | some ch =>
    if bits.eset then do
      let s ← r.handle fd ch .erro s
      return (s, false)
    else do
      let s ← (if bits.rset then r.handle fd ch .read s else .ok s)
      -- the read handler may have removed the channel
      match (if bits.wset then r.getChannel s fd else none) with
      | none => return (s, bits.rset)
      | some ch => do
        let s ← r.handle fd ch .writ s
        return (s, true)

/-- `loop_once`, over the descriptors from `fd` on. The handlers may change `maxfd_`. -/
def loopOnce (s : S) (fd : Nat) : List SelectBits → Int → Exec S
  | [], _ => .ok s
  | bits :: rest, nready =>
    if (fd : Int) < maxfd_ s ∧ 0 < nready then do
      let (s, flag) ← handleFd r s fd bits
      let s ← r.runNextTickHandlers s
      loopOnce s (fd + 1) rest (if flag then nready - 1 else nready)
    else .ok s

variable {r}

/-- The body is that of `PollerPoll`. -/
theorem handleFd_eq (s : S) (fd : Nat) (bits : SelectBits) :
    handleFd r s fd bits = PollerPoll.handleEntry r s fd bits.revents := by
  unfold handleFd PollerPoll.handleEntry
  rw [if_neg (by omega), Int.toNat_natCast]
  cases r.getChannel s fd with
  | none => rfl
  | some ch =>
    obtain ⟨rset, wset, eset⟩ := bits
    cases eset with
    | true => rfl
    | false => rfl

/-- The entries of `poll` that have the same flags. -/
def entries : Nat → List SelectBits → List (Int × Revents)
  | _, [] => []
  | fd, bits :: rest => ((fd : Int), bits.revents) :: entries (fd + 1) rest

variable {maxfd_} {n : Int}

/-- **With a bound that the handlers leave alone the loop is that of `PollerPoll`.** -/
theorem loopOnce_eq (hmaxfd : ∀ s, maxfd_ s = n) : ∀ (sets : List SelectBits) (s : S) (fd : Nat) (nready : Int),
    (fd + sets.length : Int) ≤ n →
    loopOnce r maxfd_ s fd sets nready = PollerPoll.loopOnce r s (entries fd sets) nready
  | [], _, _, _, _ => rfl
  | bits :: rest, s, fd, nready, hle => by
    have hlength : ((bits :: rest).length : Int) = rest.length + 1 := by
      rw [List.length_cons]
      rfl
    have hfd : (fd : Int) < n := by omega
    unfold loopOnce entries PollerPoll.loopOnce
    rw [hmaxfd]
    by_cases hready : 0 < nready
    · rw [if_pos ⟨hfd, hready⟩, if_neg (Int.not_le.mpr hready), handleFd_eq]
      refine congrArg _ (funext fun x => ?_)
      obtain ⟨s1, flag⟩ := x
      dsimp only
      refine congrArg _ (funext fun s' => ?_)
      exact loopOnce_eq hmaxfd rest s' (fd + 1) _ (by push_cast; omega)
    · rw [if_neg fun h => hready h.2, if_pos (Int.not_lt.mp hready)]

/-- What `select` counts is enough: as many entries at most have a flag. -/
theorem nready_entries : ∀ (sets : List SelectBits) (fd : Nat),
    nready (entries fd sets) ≤ (sets.map SelectBits.count).sum
  | [], _ => le_rfl
  | bits :: rest, fd => by
    have hrest := nready_entries rest (fd + 1)
    unfold nready at hrest ⊢
    unfold entries
    rw [List.filter_cons, List.map_cons, List.sum_cons]
    split
    · next hready =>
      have hcount := bits.count_pos hready
      rw [List.length_cons]
      omega
    · omega

/--
**Counting off leaves no call out.** With handlers that leave the channels as they are, and with the
number that `select` returned, a pass calls every handler that the sets ask for.
-/
theorem select_loopOnce {channels_ : Nat → Option C} {handle : Nat → C → Handler → σ → σ} {tick : σ → σ}
    (sets : List SelectBits) (s : Dispatch σ C) :
    ∃ s', loopOnce (dispatcher channels_ handle tick) (fun _ => sets.length) s 0 sets
        (sets.map SelectBits.count).sum = .ok s' ∧
      s'.calls = s.calls ++ (entries 0 sets).flatMap (pollCalls channels_) := by
  obtain ⟨s', hs', hcalls⟩ := @poll_loopOnce σ C channels_ handle tick (entries 0 sets) s
    ((sets.map SelectBits.count).sum : Nat) (Int.ofNat_le.mpr (nready_entries sets 0))
  refine ⟨s', ?_, hcalls⟩
  rw [loopOnce_eq (fun _ => rfl) sets s 0 _ (by push_cast; omega)]
  exact_mod_cast hs'

end PollerSelect

/-! ## The peer closes -/

namespace Peer

variable (cb : Callbacks σ H) (reader : Reader σ H)

variable {cb : Callbacks σ H} {reader : Reader σ H} {p q : Peer σ H} {n : Nat} {writable : Bool}
  {as : List WriteAnswer}

/-- All that arrived was announced or is pending, and nothing is pending once the connection is gone. -/
structure Drained (p : Peer σ H) : Prop where
  kept : Kept p
  noLoss : NoLoss p

end Peer

end Liby
