import Liby.Infra.Machine
import Liby.Net.WriteSteps

/-!
# A completion handler that destroys the connection

`destroy` clears the queue that `handleWritEvent` is going through, and takes the socket away. After
each handler of a buffer the loop looks at `destroy_` and returns; after the handler of a file it
does not, and pops from the cleared queue.
-/

namespace Liby

open Infra

variable {σ H : Type _} {cb : Callbacks σ H}

namespace Link

variable {l l0 l1 : Link σ H} {a : WriteAnswer} {as : List WriteAnswer}

/-! ## The handlers of an event -/

/-- The handler of a `sendFile` whose last bytes the pass sends returns, and leaves `l1`. -/
inductive FileReturns (cb : Callbacks σ H) (l : Link σ H) (a : WriteAnswer) (l1 : Link σ H) : Prop where
  | intro {first : IoTask H} {tasks : List (IoTask H)} {fp : Bytes} {handler : H}
      (queue : l.conn.writTasks_ = first :: tasks) (file : first.fp_ = some fp)
      (socket : l.conn.socket_ = true) (answer : a = .accepted first.len_) (some_ : first.len_ ≠ 0)
      (there : first.offset_ + first.len_ ≤ fp.length ∧ first.len_ < 2 ^ 31)
      (handler_ : first.handler_ = some handler)
      (run : { l with wire := l.wire ++ (fp.drop first.offset_).take first.len_ }.complete cb handler
        = .ok l1)

/-- A handler of a buffer that lies in the `ret` bytes returns, and leaves `l1`. -/
inductive DrainReturns (cb : Callbacks σ H) : Nat → Nat → Link σ H → Link σ H → Prop where
  | now {gathered ret size : Nat} {l l1 : Link σ H} {first : IoTask H} {tasks : List (IoTask H)}
      {buffer : Buffer} {handler : H} (queue : l.conn.writTasks_ = first :: tasks)
      (buffer_ : first.buffer_ = some buffer) (size_ : buffer.size = .ok size) (out : size ≤ ret + 1)
      (handler_ : first.handler_ = some handler) (run : l.complete cb handler = .ok l1) :
      DrainReturns cb (gathered + 1) (ret + 1) l l1
  | later {gathered ret size : Nat} {l l1 l2 : Link σ H} {first : IoTask H} {tasks : List (IoTask H)}
      {buffer : Buffer} (queue : l.conn.writTasks_ = first :: tasks)
      (buffer_ : first.buffer_ = some buffer) (size_ : buffer.size = .ok size) (out : size ≤ ret + 1)
      (pass : l.finishBuffer cb first = .ok (.next l2))
      (rest : DrainReturns cb gathered (ret + 1 - size) l2 l1) :
      DrainReturns cb (gathered + 1) (ret + 1) l l1

/-- A handler of a buffer that the pass sends as a whole returns, and leaves `l1`. -/
inductive BufferReturns (cb : Callbacks σ H) (l : Link σ H) (a : WriteAnswer) (l1 : Link σ H) : Prop where
  | intro {first : IoTask H} {tasks : List (IoTask H)} {iov : List Bytes} {ret : Nat}
      (queue : l.conn.writTasks_ = first :: tasks) (noFile : first.fp_ = none)
      (iov_ : gather l.conn.writTasks_ = .ok iov) (some_ : iov ≠ []) (socket : l.conn.socket_ = true)
      (answer : a = .accepted (ret + 1))
      (there : ret + 1 ≤ iov.flatten.length ∧ iov.length ≤ IOV_MAX ∧ ret + 1 < 2 ^ 31)
      (run : DrainReturns cb iov.length (ret + 1)
        { l with wire := l.wire ++ iov.flatten.take (ret + 1) } l1)

/-- A completion handler returns in the event, and leaves `l1`. -/
def HandlerReturns (cb : Callbacks σ H) (l : Link σ H) (as : List WriteAnswer) (l1 : Link σ H) : Prop :=
  ∃ p ∈ l.passes cb as, FileReturns cb p.1 p.2 l1 ∨ BufferReturns cb p.1 p.2 l1

/-! ## What the loop does then -/

/-- After a handler of a buffer the pass is over. -/
theorem DrainReturns.drain_eq {gathered ret : Nat} (h : DrainReturns cb gathered ret l l1)
    (hdestroyed : l1.conn.destroy_ = true) : drain cb gathered ret l = .ok (.done l1) := by
  induction h with
  | now queue buffer_ size_ out handler_ run =>
    unfold drain
    rw [queue]
    dsimp only
    rw [buffer_]
    dsimp only
    rw [size_, ok_bind, if_pos out]
    unfold finishBuffer
    rw [handler_]
    dsimp only
    rw [run, ok_bind, if_pos hdestroyed]
    rfl
  | later queue buffer_ size_ out pass rest ih =>
    unfold drain
    rw [queue]
    dsimp only
    rw [buffer_]
    dsimp only
    rw [size_, ok_bind, if_pos out, pass, ok_bind]
    exact ih hdestroyed

theorem BufferReturns.pass_eq {first : IoTask H} {tasks : List (IoTask H)}
    (h : BufferReturns cb l a l1) (htasks : l.conn.writTasks_ = first :: tasks)
    (hdestroyed : l1.conn.destroy_ = true) : l.writPass cb first a = .ok (.done l1) := by
  obtain ⟨queue, noFile, iov_, some_, socket, rfl, there, run⟩ := h
  rw [htasks] at queue
  cases queue
  unfold writPass bufferPass
  rw [noFile]
  dsimp only
  rw [iov_, ok_bind, guardOr_pos some_, ok_bind, guardOr_pos socket, ok_bind, guardOr_pos there, ok_bind,
    if_neg (Nat.succ_ne_zero _)]
  exact run.drain_eq hdestroyed

/-- After the handler of a file the task at the front is taken off, whatever the handler did. -/
theorem FileReturns.pass_eq {first : IoTask H} {tasks : List (IoTask H)}
    (h : FileReturns cb l a l1) (htasks : l.conn.writTasks_ = first :: tasks) :
    l.writPass cb first a = (do
      let conn ← l1.conn.popFront
      return .next { l1 with conn := conn }) := by
  obtain ⟨queue, file, socket, rfl, some_, there, handler_, run⟩ := h
  rw [htasks] at queue
  cases queue
  unfold writPass filePass
  rw [file]
  dsimp only
  rw [guardOr_pos socket, ok_bind, guardOr_pos ⟨le_rfl, there⟩, ok_bind, if_neg some_, if_pos rfl]
  unfold finishFile
  rw [handler_]
  dsimp only
  rw [run, ok_bind]
  cases l1.conn.popFront <;> rfl

/-! ## Every queue, every handler -/

/-- A connection that is destroyed has nothing left in it, whatever the handlers do. -/
theorem steady_cleared : Steady cb fun l => l.conn.Cleared := by
  have hfull : ∀ {c c' : Connection H} {first : IoTask H} {tasks}, c.Cleared →
      c.writTasks_ = first :: tasks → c'.destroy_ = c.destroy_ → c'.Cleared := by
    intro c c' first tasks h htasks hsame hdestroyed
    rw [hsame] at hdestroyed
    have hnil := (h hdestroyed).2.2
    rw [htasks] at hnil
    cases hnil
  exact steady_of_conn (fun _ h hc => h.call hc) (fun h => h.destroy)
    (fun h htasks => hfull h htasks rfl) (fun h htasks _ => hfull h htasks rfl)

/-- **A connection that is destroyed has nothing left in it, in every run.** -/
theorem cleared_of_run {es : List (Event H)} (h : l.conn.Cleared) (hrun : run (step cb) l es = .ok l1) :
    l1.conn.Cleared := by
  refine run_invariant (I := fun l => l.conn.Cleared) (fun l e l' hl hstep => ?_) h hrun
  cases e with
  | call x =>
    obtain ⟨c, hc, hstep⟩ := bind_eq_ok.mp hstep
    cases hstep
    exact hl.call hc
  | writ as =>
    refine steady_cleared.handleWritEvent (fun ch hch _ hl hdestroyed => ?_) hl hstep
    rw [(hl hdestroyed).1] at hch
    cases hch

/--
**A handler may destroy the connection, exactly if it is not the handler of a `sendFile`.** After each
handler that leaves the connection destroyed the event returns at once with what the handler left,
if and only if no handler of a file does so.
-/
theorem handler_may_destroy_iff (h : l.conn.Cleared) (as : List WriteAnswer) :
    (∀ l1, HandlerReturns cb l as l1 → l1.conn.destroy_ = true → l.handleWritEvent cb as = .ok l1) ↔
      ∀ p ∈ l.passes cb as, ∀ l1, FileReturns cb p.1 p.2 l1 → l1.conn.destroy_ = false := by
  have hevent : ∀ {p}, p ∈ l.passes cb as → l.handleWritEvent cb as = l.writLoop cb as := by
    intro p hp
    refine handleWritEvent_of_ne fun hempty => ?_
    rw [passes_empty hempty] at hp
    cases hp
  constructor
  · intro hreturns p hp l1 hfile
    by_contra hdestroyed
    have hdestroyed : l1.conn.destroy_ = true := Bool.of_not_eq_false hdestroyed
    have hok := hreturns l1 ⟨p, hp, .inl hfile⟩ hdestroyed
    obtain ⟨first, tasks, as0, htasks, hloop⟩ := writLoop_of_mem hp
    have hcleared : l1.conn.Cleared := by
      have hp1 := steady_cleared.of_mem h hp
      obtain ⟨-, -, -, -, -, -, -, run⟩ := hfile
      refine steady_cleared.complete ?_ run
      exact hp1
    -- the handler of the file has cleared the queue that the pass pops from
    have hpass : p.1.writPass cb first p.2 = .error .emptyContainer := by
      rw [hfile.pass_eq htasks]
      unfold Connection.popFront
      rw [(hcleared hdestroyed).2.2]
      rfl
    rw [hevent hp, hloop, writLoop_error htasks hpass] at hok
    cases hok
  · rintro hfiles l1 ⟨p, hp, hfile | hbuffer⟩ hdestroyed
    · rw [hfiles p hp l1 hfile] at hdestroyed
      cases hdestroyed
    · obtain ⟨first, tasks, as0, htasks, hloop⟩ := writLoop_of_mem hp
      rw [hevent hp, hloop, writLoop_done htasks (hbuffer.pass_eq htasks hdestroyed)]

/-- A user whose handlers destroy the connection. -/
def destroys : Callbacks Unit Unit where
  complete := fun w _ => (w, [.destroy])
  onErro := fun w => (w, [])

/-- A connection with two buffers to send, and the user's handler behind the first. -/
def twoBuffers : Link Unit Unit :=
  { start .accepted () with conn := { (.accepted : Connection Unit) with
      writTasks_ := [.ofBuffer (.ofBytes [1]) (some ()), .ofBuffer (.ofBytes [2]) none] } }

theorem handler_may_destroy_buffers :
    (∀ l1, HandlerReturns destroys twoBuffers [.accepted 2] l1 → l1.conn.destroy_ = true →
      twoBuffers.handleWritEvent destroys [.accepted 2] = .ok l1) ↔
    ∀ p ∈ twoBuffers.passes destroys [.accepted 2], ∀ l1, FileReturns destroys p.1 p.2 l1 →
      l1.conn.destroy_ = false :=
  handler_may_destroy_iff (Connection.cleared_of_alive rfl) [.accepted 2]

/-- A connection with a file of one byte to send, and the user's handler behind it. -/
def oneFile : Link Unit Unit :=
  { start .accepted () with conn := { (.accepted : Connection Unit) with
      writTasks_ := [.ofFile [1] 0 1 (some ())] } }

/-- The handler of the file destroys the connection, and the event pops from the cleared queue. -/
theorem handler_may_not_destroy_file :
    run (step destroys) (start .accepted ()) [.call (.sendFile [1] 0 1 (some ())), .writ [.accepted 1]]
      = .error .emptyContainer ∧
    ¬∀ (l : Link Unit Unit) (as : List WriteAnswer) (l1 : Link Unit Unit), l.conn.Cleared →
      HandlerReturns destroys l as l1 → l1.conn.destroy_ = true →
        l.handleWritEvent destroys as = .ok l1 := by
  refine ⟨by decide +kernel, fun hall => ?_⟩
  have hpasses : (oneFile, .accepted 1) ∈ oneFile.passes destroys [.accepted 1] := by
    rw [passes_cons rfl]
    exact List.mem_cons_self
  have hfile : FileReturns destroys oneFile (.accepted 1) { oneFile with
      wire := [1], ran := [()], conn := oneFile.conn.destroy } :=
    ⟨rfl, rfl, rfl, rfl, by decide, by decide, rfl, rfl⟩
  have hok := hall oneFile [.accepted 1] _ (Connection.cleared_of_alive rfl)
    ⟨_, hpasses, .inl hfile⟩ rfl
  have hfault : oneFile.handleWritEvent destroys [.accepted 1] = .error .emptyContainer := by
    decide +kernel
  rw [hfault] at hok
  cases hok

end Link

end Liby
