import Mathlib.Data.Prod.Lex
import Mathlib.Order.Lattice
import Mathlib.Algebra.Order.Ring.Int

/-!
# Timestamp

`util.h`. A pair of seconds and microseconds, compared seconds first. `compareTo` looks at
the fields as they are, so the order is the lexicographic one on every pair, normalised or not.
-/

namespace Liby

/-- `class Timestamp`, a `struct timeval`. -/
@[ext]
structure Timestamp where
  tvSec : Int
  tvUsec : Int
  deriving DecidableEq, Repr

namespace Timestamp

/-- `kMicrosecondsPerSecond`. -/
def kMicrosecondsPerSecond : Int := 1000 * 1000

/-- `Timestamp(time_t sec, suseconds_t usec)`. The guard sees `usec` as a `uint32_t`. -/
def ofSecUsec (sec usec : Int) : Timestamp :=
  if kMicrosecondsPerSecond < usec % 2 ^ 32 then
    { tvSec := sec + usec.tdiv kMicrosecondsPerSecond,
      tvUsec := usec.tmod kMicrosecondsPerSecond }
  else { tvSec := sec, tvUsec := usec }

/-- `compareTo`. -/
def compareTo (this rhs : Timestamp) : Int :=
  if rhs.tvSec > this.tvSec then -1
  else if rhs.tvSec < this.tvSec then 1
  else if rhs.tvUsec > this.tvUsec then -1
  else if rhs.tvUsec < this.tvUsec then 1
  else 0

/-- `operator<`. -/
def lt (lhs rhs : Timestamp) : Bool := lhs.compareTo rhs == -1

/-- `operator+`. -/
def add (lhs rhs : Timestamp) : Timestamp :=
  ofSecUsec (lhs.tvSec + rhs.tvSec) (lhs.tvUsec + rhs.tvUsec)

/-! ## The order -/

instance : LinearOrder Timestamp :=
  LinearOrder.lift' (fun t => toLex (t.tvSec, t.tvUsec)) (by
    intro a b h
    simp only [EmbeddingLike.apply_eq_iff_eq, Prod.mk.injEq] at h
    exact Timestamp.ext h.1 h.2)

theorem lt_iff_lex {a b : Timestamp} :
    a < b ↔ a.tvSec < b.tvSec ∨ a.tvSec = b.tvSec ∧ a.tvUsec < b.tvUsec :=
  Prod.Lex.toLex_lt_toLex

/-- **`operator<` is the lexicographic order.** -/
theorem lt_iff {a b : Timestamp} : lt a b = true ↔ a < b := by
  rw [lt_iff_lex]
  unfold lt compareTo
  split
  · simp; omega
  · split
    · simp; omega
    · split
      · simp; omega
      · split <;> simp <;> omega

@[simp] theorem lt_eq_false_iff {a b : Timestamp} : lt a b = false ↔ b ≤ a := by
  rw [← not_lt, ← lt_iff]
  simp

end Timestamp

end Liby
