import Liby.Net.Connection

/-!
# The steps of a write event

What a call does to a connection is said once (`call_cases`). A write event is the passes of its
loop (`passes`) and, in them, the completion handlers that return (`HandlerReturns`). What the
pieces of an event keep, the event keeps (`Steady.handleWritEvent`).
-/

namespace Liby

open Infra

variable {σ H : Type _} {cb : Callbacks σ H}

/-! ## What is offered to the kernel -/

namespace IoTask

/-- A task with a buffer and no file, which `writev` can take. -/
def inMemory (t : IoTask H) : Bool := t.fp_.isNone && t.buffer_.isSome

/-- The bytes in the buffer of a task. -/
def buffered (t : IoTask H) : Nat :=
  match t.buffer_ with
  | some buffer => buffer.rightIndex_ - buffer.leftIndex_
  | none => 0

end IoTask

/-- The tasks at the front of the queue that one `writev` takes. -/
def Connection.leading (c : Connection H) : List (IoTask H) := c.writTasks_.takeWhile IoTask.inMemory

/-- How many bytes a pass offers to the kernel: the rest of the file at the front, or the buffers there. -/
def Connection.offered (c : Connection H) : Nat :=
  match c.writTasks_ with
  | [] => 0
  | first :: _ =>
    match first.fp_ with
    | some _ => first.len_
    | none => (c.leading.map IoTask.buffered).sum

theorem length_data {buffer : Buffer} {base : Bytes} (h : buffer.data = .ok base) :
    base.length = buffer.rightIndex_ - buffer.leftIndex_ := by
  unfold Buffer.data at h
  obtain ⟨u, -, h⟩ := bind_eq_ok.mp h
  obtain ⟨block, -, h⟩ := bind_eq_ok.mp h
  unfold Block.read at h
  split at h
  · next hle =>
    cases h
    exact Block.length_slice hle
  · cases h

/-- **The entries of `iov` are the leading buffers.** -/
theorem gather_lengths : ∀ {tasks : List (IoTask H)} {iov : List Bytes}, Link.gather tasks = .ok iov →
    iov.map List.length = (tasks.takeWhile IoTask.inMemory).map IoTask.buffered
  | [], iov, h => by
    cases h
    rfl
  | x :: tasks, iov, h => by
    unfold Link.gather at h
    rw [List.takeWhile_cons]
    unfold IoTask.inMemory
    cases hfp : x.fp_ with
    | some fp =>
      rw [hfp] at h
      cases h
      rfl
    | none =>
      cases hb : x.buffer_ with
      | none =>
        rw [hfp, hb] at h
        cases h
        rfl
      | some buffer =>
        rw [hfp, hb] at h
        obtain ⟨base, hbase, h⟩ := bind_eq_ok.mp h
        obtain ⟨rest, hrest, h⟩ := bind_eq_ok.mp h
        cases h
        have hbuffered : x.buffered = buffer.rightIndex_ - buffer.leftIndex_ := by
          unfold IoTask.buffered
          rw [hb]
        simp only [List.map_cons, Option.isNone_none, Option.isSome_some, Bool.and_self, if_true]
        rw [gather_lengths hrest, length_data hbase, hbuffered]
        rfl

theorem gather_length {tasks : List (IoTask H)} {iov : List Bytes} (h : Link.gather tasks = .ok iov) :
    iov.length = (tasks.takeWhile IoTask.inMemory).length := by
  have hlengths := congrArg List.length (gather_lengths h)
  rwa [List.length_map, List.length_map] at hlengths

/-! ## Calls -/

namespace Connection

variable {c c' : Connection H}

theorem channel_ok {ch : Channel} : c.channel = .ok ch ↔ c.chan_ = some ch := by
  unfold channel
  cases c.chan_ <;> simp

theorem emplace_eq_ok {t : IoTask H} (h : c.emplace t = .ok c') :
    ∃ ch, c.chan_ = some ch ∧ c' = { c with
      writTasks_ := c.writTasks_ ++ [t], chan_ := some { ch with writable_ := true }.updateChannel } := by
  unfold emplace enableWrit at h
  obtain ⟨ch, hch, h⟩ := bind_eq_ok.mp h
  cases h
  exact ⟨ch, channel_ok.mp hch, rfl⟩

/-- A task at the end of the queue with the write interest on, a change of the read interest, or no
more than `destroy` and `destroyLater` do. -/
theorem call_cases {x : ConnCall H} (h : c.call x = .ok c') :
    (∃ ch t, c.chan_ = some ch ∧ x.messages.map Message.tag = [t.handler_] ∧ c' = { c with
      writTasks_ := c.writTasks_ ++ [t], chan_ := some { ch with writable_ := true }.updateChannel }) ∨
    (x.messages = [] ∧ ((∃ ch flag, c.chan_ = some ch ∧
        c' = { c with chan_ := some { ch with readable_ := flag }.updateChannel }) ∨
      c' = c ∨ c' = c.destroy ∨ c' = c.destroyLater)) := by
  have hsend : ∀ {t : IoTask H}, x.messages.map Message.tag = [t.handler_] → c.emplace t = .ok c' →
      ∃ ch t, c.chan_ = some ch ∧ x.messages.map Message.tag = [t.handler_] ∧ c' = { c with
        writTasks_ := c.writTasks_ ++ [t]
        chan_ := some { ch with writable_ := true }.updateChannel } := by
    intro t htag hemplace
    obtain ⟨ch, hch, hc'⟩ := emplace_eq_ok hemplace
    exact ⟨ch, t, hch, htag, hc'⟩
  cases x with
  | send base handler => exact .inl (hsend (t := .ofBuffer (.ofBytes base) handler) rfl h)
  | sendBuffer buf handler =>
    obtain ⟨⟨c1, rest⟩, hsent, h⟩ := bind_eq_ok.mp h
    obtain ⟨u, -, hsent⟩ := bind_eq_ok.mp hsent
    obtain ⟨c2, hc2, hsent⟩ := bind_eq_ok.mp hsent
    cases hsent
    cases h
    exact .inl (hsend (t := .ofBuffer buf handler) rfl hc2)
  | sendMoved buf handler => exact .inl (hsend (t := .ofBuffer buf handler) rfl h)
  | sendCString buf handler =>
    exact .inl (hsend (t := .ofBuffer (.ofBytes (buf.takeWhile (· ≠ 0))) handler) rfl h)
  | sendString str handler =>
    have h : c.sendString str handler = .ok c' := h
    unfold sendString at h
    split at h
    · next hnil =>
      cases h
      exact .inr ⟨if_pos hnil, .inr (.inl rfl)⟩
    · next hne =>
      refine .inl (hsend (t := .ofBuffer (.ofBytes str) handler) ?_ h)
      rw [ConnCall.messages, if_neg hne]
      rfl
  | sendFile fp off len handler => exact .inl (hsend (t := .ofFile fp off len handler) rfl h)
  | enableRead flag =>
    obtain ⟨ch, hch, h⟩ := bind_eq_ok.mp h
    cases h
    exact .inr ⟨rfl, .inl ⟨ch, flag, channel_ok.mp hch, rfl⟩⟩
  | destroy =>
    cases h
    exact .inr ⟨rfl, .inr (.inr (.inl rfl))⟩
  | destroyLater =>
    cases h
    exact .inr ⟨rfl, .inr (.inr (.inr rfl))⟩

theorem destroy_destroyed (c : Connection H) : c.destroy.destroy_ = true := by
  unfold destroy
  split
  · assumption
  · rfl

/-- A tick without handlers does nothing. -/
theorem tick_none {held : Bool} (hticks : c.nextTicks = 0) : c.runNextTickHandlers held = .ok c := by
  rw [runNextTickHandlers, guardOr_pos (.inr (.inl hticks)), ok_bind, if_pos hticks]
  rfl

theorem tick_once {held : Bool} (halive : c.destroy_ = false) (hticks : c.nextTicks = 1) :
    c.runNextTickHandlers held = .ok { c with nextTicks := 0 }.destroy := by
  rw [runNextTickHandlers, guardOr_pos (.inr (.inr ⟨halive, hticks⟩)), ok_bind, if_neg (by omega)]
  rfl

theorem tick_cases {held : Bool} (h : c.runNextTickHandlers held = .ok c') :
    c' = c ∨ c' = { c with nextTicks := 0 }.destroy := by
  obtain ⟨u, -, h⟩ := bind_eq_ok.mp h
  split at h
  · exact .inl (Except.ok.inj h).symm
  · exact .inr (Except.ok.inj h).symm

/-- A connection that is destroyed has no channel, no socket and no tasks left. -/
def Cleared (c : Connection H) : Prop :=
  c.destroy_ = true → c.chan_ = none ∧ c.socket_ = false ∧ c.writTasks_ = []

theorem cleared_of_alive (h : c.destroy_ = false) : c.Cleared := by
  intro hdestroyed
  rw [h] at hdestroyed
  cases hdestroyed

theorem Cleared.destroy (h : c.Cleared) : c.destroy.Cleared := by
  unfold Connection.destroy
  split
  · exact h
  · exact fun _ => ⟨rfl, rfl, rfl⟩

theorem Cleared.call (h : c.Cleared) {x : ConnCall H} (hx : c.call x = .ok c') : c'.Cleared := by
  have halive : ∀ {ch}, c.chan_ = some ch → c.destroy_ = false := by
    intro ch hch
    rw [Bool.eq_false_iff]
    intro hdestroyed
    rw [(h hdestroyed).1] at hch
    cases hch
  rcases call_cases hx with ⟨ch, t, hch, -, rfl⟩ | ⟨-, ⟨ch, flag, hch, rfl⟩ | rfl | rfl | rfl⟩
  · exact cleared_of_alive (halive hch)
  · exact cleared_of_alive (halive hch)
  · exact h
  · exact h.destroy
  · exact h

/-- A call that does not destroy the connection leaves the queue as the start of the new one. -/
theorem call_appends {x : ConnCall H} (h : c.call x = .ok c') (halive : c'.destroy_ = false) :
    c.destroy_ = false ∧ ∃ new, c'.writTasks_ = c.writTasks_ ++ new := by
  rcases call_cases h with ⟨ch, t, -, -, rfl⟩ | ⟨-, ⟨ch, flag, -, rfl⟩ | rfl | rfl | rfl⟩
  · exact ⟨halive, [t], rfl⟩
  · exact ⟨halive, [], (List.append_nil _).symm⟩
  · exact ⟨halive, [], (List.append_nil _).symm⟩
  · rw [destroy_destroyed] at halive
    cases halive
  · exact ⟨halive, [], (List.append_nil _).symm⟩

end Connection

namespace Link

variable {l l' l1 : Link σ H} {handler : H}

/-- What every call keeps, the calls of a callback keep. -/
theorem calls_keep {I : Link σ H → Prop} : ∀ {xs : List (ConnCall H)} {l l' : Link σ H},
    (∀ {l l' : Link σ H} {x}, x ∈ xs → I l → l.call x = .ok l' → I l') → I l →
    l.calls xs = .ok l' → I l'
  | [], _, _, _, hl, h => by
    cases h
    exact hl
  | x :: xs, _, _, hcall, hl, h => by
    obtain ⟨l1, h1, h⟩ := bind_eq_ok.mp h
    exact calls_keep (fun hx => hcall (List.mem_cons_of_mem x hx))
      (hcall List.mem_cons_self hl h1) h

theorem calls_append : ∀ {xs : List (ConnCall H)} {l l' : Link σ H}, l.calls xs = .ok l' →
    l'.conn.destroy_ = false →
    l.conn.destroy_ = false ∧ ∃ new, l'.conn.writTasks_ = l.conn.writTasks_ ++ new
  | [], l, _, h, halive => by
    cases h
    exact ⟨halive, [], (List.append_nil _).symm⟩
  | x :: xs, l, l', h, halive => by
    obtain ⟨l1, h1, h⟩ := bind_eq_ok.mp h
    obtain ⟨c, hc, h1⟩ := bind_eq_ok.mp h1
    cases h1
    obtain ⟨halive1, new', hnew'⟩ := calls_append h halive
    obtain ⟨halive0, new, hnew⟩ := Connection.call_appends hc halive1
    refine ⟨halive0, new ++ new', ?_⟩
    rw [hnew', ← List.append_assoc, ← hnew]

/-- **A handler that leaves the connection alive leaves the queue as the start of the new one.** -/
theorem complete_appends (h : l.complete cb handler = .ok l') (halive : l'.conn.destroy_ = false) :
    l.conn.destroy_ = false ∧ ∃ new, l'.conn.writTasks_ = l.conn.writTasks_ ++ new :=
  calls_append (l := { l with world := (cb.complete l.world handler).1, ran := l.ran ++ [handler] }) h halive

/-! ## What the pieces of an event keep -/

/-- `I` is kept by what happens in the passes of a write event. -/
structure Steady (cb : Callbacks σ H) (I : Link σ H → Prop) : Prop where
  complete : ∀ {l l' : Link σ H} {handler}, I l → l.complete cb handler = .ok l' → I l'
  handleErroEvent : ∀ {l l' : Link σ H}, I l → l.handleErroEvent cb = .ok l' → I l'
  popFront : ∀ {l : Link σ H} {c}, I l → l.conn.popFront = .ok c → I { l with conn := c }
  shorten : ∀ {l : Link σ H} {first first' : IoTask H} {tasks}, I l →
    l.conn.writTasks_ = first :: tasks → first'.handler_ = first.handler_ →
    I { l with conn := { l.conn with writTasks_ := first' :: tasks } }
  accept : ∀ {l : Link σ H} {bytes}, I l → I { l with wire := l.wire ++ bytes }

/-- What is known of the connection alone is kept, if the calls of the callbacks keep it. -/
theorem steady_of_conn {P : Connection H → Prop}
    (hcall : ∀ {c c' : Connection H} {x}, ((∃ w handler, x ∈ (cb.complete w handler).2) ∨
      ∃ w, x ∈ (cb.onErro w).2) → P c → c.call x = .ok c' → P c')
    (hdestroy : ∀ {c : Connection H}, P c → P c.destroy)
    (hpop : ∀ {c : Connection H} {first : IoTask H} {tasks}, P c → c.writTasks_ = first :: tasks →
      P { c with writTasks_ := tasks })
    (hshorten : ∀ {c : Connection H} {first first' : IoTask H} {tasks}, P c →
      c.writTasks_ = first :: tasks → first'.handler_ = first.handler_ →
      P { c with writTasks_ := first' :: tasks }) : Steady cb fun l => P l.conn where
  complete := by
    intro l l' handler hl h
    refine calls_keep (I := fun l => P l.conn) (l := { l with
      world := (cb.complete l.world handler).1, ran := l.ran ++ [handler] }) ?_ hl h
    intro l1 l2 x hx hl1 h1
    obtain ⟨c, hc, h1⟩ := bind_eq_ok.mp h1
    cases h1
    exact hcall (.inl ⟨l.world, handler, hx⟩) hl1 hc
  handleErroEvent := by
    intro l l' hl h
    unfold Link.handleErroEvent at h
    dsimp only at h
    split at h
    · obtain ⟨l3, h3, h⟩ := bind_eq_ok.mp h
      cases h
      refine hdestroy (calls_keep (I := fun l => P l.conn) (l := { l with
        world := (cb.onErro l.world).1 }) ?_ hl h3)
      intro l1 l2 x hx hl1 h1
      obtain ⟨c, hc, h1⟩ := bind_eq_ok.mp h1
      cases h1
      exact hcall (.inr ⟨l.world, hx⟩) hl1 hc
    · cases h
      exact hdestroy hl
  popFront := by
    intro l c hl hc
    unfold Connection.popFront at hc
    split at hc
    · cases hc
    · next first tasks htasks =>
      cases hc
      exact hpop hl htasks
  shorten := fun hl htasks hhandler => hshorten hl htasks hhandler
  accept := id

variable {I : Link σ H → Prop} {first : IoTask H} {tasks : List (IoTask H)}
  {pass : Pass (Link σ H) (Link σ H)}

/-- Nothing brings a destroyed connection back. -/
theorem steady_destroyed : Steady cb fun l => l.conn.destroy_ = true := by
  refine steady_of_conn (P := fun c => c.destroy_ = true) ?_ ?_ ?_ ?_
  · intro c c' x _ h hc
    rcases Connection.call_cases hc with ⟨ch, t, -, -, rfl⟩ | ⟨-, ⟨ch, flag, -, rfl⟩ | rfl | rfl | rfl⟩
    · exact h
    · exact h
    · exact h
    · exact Connection.destroy_destroyed c
    · exact h
  · exact fun {c} _ => Connection.destroy_destroyed c
  · exact fun h _ => h
  · exact fun h _ _ => h

theorem Steady.finishFile (hI : Steady cb I) (hl : I l) (h : l.finishFile cb first = .ok l') : I l' := by
  unfold Link.finishFile at h
  split at h
  · obtain ⟨l1, h1, h⟩ := bind_eq_ok.mp h
    obtain ⟨c, hc, h⟩ := bind_eq_ok.mp h
    cases h1
    cases h
    exact hI.popFront hl hc
  · obtain ⟨l1, h1, h⟩ := bind_eq_ok.mp h
    obtain ⟨c, hc, h⟩ := bind_eq_ok.mp h
    cases h
    exact hI.popFront (hI.complete hl h1) hc

theorem Steady.finishBuffer (hI : Steady cb I) (hl : I l) (h : l.finishBuffer cb first = .ok pass) :
    I pass.out := by
  unfold Link.finishBuffer at h
  split at h
  · obtain ⟨c, hc, h⟩ := bind_eq_ok.mp h
    cases h
    exact hI.popFront hl hc
  · obtain ⟨l1, h1, h⟩ := bind_eq_ok.mp h
    have hl1 := hI.complete hl h1
    split at h
    · cases h
      exact hl1
    · obtain ⟨c, hc, h⟩ := bind_eq_ok.mp h
      cases h
      exact hI.popFront hl1 hc

theorem Steady.drain (hI : Steady cb I) : ∀ {n ret : Nat} {l : Link σ H}
    {pass : Pass (Link σ H) (Link σ H)}, I l → drain cb n ret l = .ok pass → I pass.out
  | _, 0, l, _, hl, h => by
    unfold Link.drain at h
    cases h
    exact hl
  | 0, ret + 1, _, _, _, h => by
    unfold Link.drain at h
    cases h
  | n + 1, ret + 1, l, pass, hl, h => by
    unfold Link.drain at h
    split at h
    · cases h
    · next first tasks htasks =>
      split at h
      · cases h
      · obtain ⟨size, -, h⟩ := bind_eq_ok.mp h
        split at h
        · obtain ⟨pass1, h1, h⟩ := bind_eq_ok.mp h
          have hl1 := hI.finishBuffer hl h1
          cases pass1 with
          | done l1 =>
            cases h
            exact hl1
          | next l1 => exact hI.drain hl1 h
        · obtain ⟨rest, -, h⟩ := bind_eq_ok.mp h
          cases h
          exact hI.shorten hl htasks rfl

/-- What a pass of a file can do: nothing, end in an error, finish the task, or take a part of it. -/
theorem filePass_cases {fp : Bytes} {a : WriteAnswer} (h : l.filePass cb first fp a = .ok pass) :
    (a = .again ∧ pass = .done l) ∨ (∃ l1, l.handleErroEvent cb = .ok l1 ∧ pass = .done l1) ∨
    (∃ l1, a = .accepted first.len_ ∧ pass = .next l1 ∧
      finishFile cb { l with wire := l.wire ++ (fp.drop first.offset_).take first.len_ } first = .ok l1) ∨
    ∃ ret, a = .accepted ret ∧ ret ≠ first.len_ ∧ pass = .done { l with
      wire := l.wire ++ (fp.drop first.offset_).take ret
      conn := { l.conn with writTasks_ :=
        { first with len_ := first.len_ - ret, offset_ := first.offset_ + ret } ::
          l.conn.writTasks_.tail } } := by
  obtain ⟨u, -, h⟩ := bind_eq_ok.mp h
  cases a with
  | again =>
    cases h
    exact .inl ⟨rfl, rfl⟩
  | failed =>
    obtain ⟨l1, h1, h⟩ := bind_eq_ok.mp h
    cases h
    exact .inr (.inl ⟨l1, h1, rfl⟩)
  | accepted ret =>
    obtain ⟨u, -, h⟩ := bind_eq_ok.mp h
    split at h
    · obtain ⟨l1, h1, h⟩ := bind_eq_ok.mp h
      cases h
      exact .inr (.inl ⟨l1, h1, rfl⟩)
    · dsimp only at h
      split at h
      · next heq =>
        obtain ⟨l1, h1, h⟩ := bind_eq_ok.mp h
        cases h
        subst heq
        exact .inr (.inr (.inl ⟨l1, rfl, rfl, h1⟩))
      · next hne =>
        cases h
        exact .inr (.inr (.inr ⟨ret, rfl, hne, rfl⟩))

/-- What a pass of buffers can do: nothing, end in an error, or take what the kernel accepted off them. -/
theorem bufferPass_cases {a : WriteAnswer} (h : l.bufferPass cb a = .ok pass) :
    (a = .again ∧ pass = .done l) ∨ (∃ l1, l.handleErroEvent cb = .ok l1 ∧ pass = .done l1) ∨
    ∃ iov ret, gather l.conn.writTasks_ = .ok iov ∧ a = .accepted ret ∧
      drain cb iov.length ret { l with wire := l.wire ++ iov.flatten.take ret } = .ok pass := by
  obtain ⟨iov, hiov, h⟩ := bind_eq_ok.mp h
  obtain ⟨u, -, h⟩ := bind_eq_ok.mp h
  obtain ⟨u', -, h⟩ := bind_eq_ok.mp h
  cases a with
  | again =>
    cases h
    exact .inl ⟨rfl, rfl⟩
  | failed =>
    obtain ⟨l1, h1, h⟩ := bind_eq_ok.mp h
    cases h
    exact .inr (.inl ⟨l1, h1, rfl⟩)
  | accepted ret =>
    obtain ⟨u, -, h⟩ := bind_eq_ok.mp h
    split at h
    · obtain ⟨l1, h1, h⟩ := bind_eq_ok.mp h
      cases h
      exact .inr (.inl ⟨l1, h1, rfl⟩)
    · exact .inr (.inr ⟨iov, ret, hiov, rfl, h⟩)

theorem Steady.filePass (hI : Steady cb I) (hl : I l) (htasks : l.conn.writTasks_ = first :: tasks)
    {fp : Bytes} {a : WriteAnswer} (h : l.filePass cb first fp a = .ok pass) : I pass.out := by
  rcases filePass_cases h with ⟨-, rfl⟩ | ⟨l1, h1, rfl⟩ | ⟨l1, -, rfl, h1⟩ | ⟨ret, -, -, rfl⟩
  · exact hl
  · exact hI.handleErroEvent hl h1
  · exact hI.finishFile (hI.accept hl) h1
  · dsimp only [Pass.out]
    rw [htasks, List.tail_cons]
    exact hI.shorten (hI.accept hl) htasks rfl

theorem Steady.bufferPass (hI : Steady cb I) (hl : I l) {a : WriteAnswer}
    (h : l.bufferPass cb a = .ok pass) : I pass.out := by
  rcases bufferPass_cases h with ⟨-, rfl⟩ | ⟨l1, h1, rfl⟩ | ⟨iov, ret, -, -, h⟩
  · exact hl
  · exact hI.handleErroEvent hl h1
  · exact hI.drain (hI.accept hl) h

theorem Steady.writPass (hI : Steady cb I) (hl : I l) (htasks : l.conn.writTasks_ = first :: tasks)
    {a : WriteAnswer} (h : l.writPass cb first a = .ok pass) : I pass.out := by
  unfold Link.writPass at h
  split at h
  · exact hI.filePass hl htasks h
  · exact hI.bufferPass hl h

theorem Steady.writLoop (hI : Steady cb I) : ∀ {as : List WriteAnswer} {l l' : Link σ H}, I l →
    l.writLoop cb as = .ok l' → I l'
  | [], l, l', hl, h => by
    unfold Link.writLoop at h
    split at h
    · cases h
      exact hl
    · cases h
  | a :: as, l, l', hl, h => by
    unfold Link.writLoop at h
    split at h
    · cases h
      exact hl
    · next first tasks htasks =>
      obtain ⟨pass, hpass, h⟩ := bind_eq_ok.mp h
      have hl1 := hI.writPass hl htasks hpass
      cases pass with
      | done l1 =>
        cases h
        exact hl1
      | next l1 => exact hI.writLoop hl1 h

/-- There is nothing to write. -/
theorem writLoop_empty (as : List WriteAnswer) (hempty : l.conn.writTasks_ = []) :
    l.writLoop cb as = .ok l := by
  cases as with
  | nil =>
    unfold Link.writLoop
    rw [if_pos hempty]
  | cons a as =>
    unfold Link.writLoop
    rw [hempty]

/-- The event goes into its loop as it is, or with the interest off if there is nothing to write. -/
theorem handleWritEvent_cases {as : List WriteAnswer} (h : l.handleWritEvent cb as = .ok l') :
    ((l.conn.destroy_ = true ∨ l.conn.writTasks_ ≠ []) ∧ l.writLoop cb as = .ok l') ∨
    (l.conn.destroy_ = false ∧ l.conn.writTasks_ = [] ∧ ∃ ch, l.conn.chan_ = some ch ∧
      l' = { l with conn := { l.conn with chan_ := some { ch with writable_ := false }.updateChannel } }) := by
  unfold handleWritEvent at h
  dsimp only at h
  split at h
  · next hdestroyed => exact .inl ⟨.inl hdestroyed, h⟩
  · next halive =>
    split at h
    · next hempty =>
      obtain ⟨c, hc, h⟩ := bind_eq_ok.mp h
      obtain ⟨ch, hch, hc⟩ := bind_eq_ok.mp hc
      cases hc
      refine .inr ⟨Bool.eq_false_iff.mpr halive, hempty, ch, Connection.channel_ok.mp hch, ?_⟩
      have hloop : writLoop cb { l with conn := { l.conn with
          chan_ := some { ch with writable_ := false }.updateChannel } } as = _ := writLoop_empty as hempty
      exact (Except.ok.inj (hloop.symm.trans h)).symm
    · next hfull => exact .inl ⟨.inr hfull, h⟩

/-- **What the pieces of a write event keep, the event keeps.** -/
theorem Steady.handleWritEvent (hI : Steady cb I)
    (hidle : ∀ ch, l.conn.chan_ = some ch → l.conn.writTasks_ = [] → I l →
      I { l with conn := { l.conn with chan_ := some { ch with writable_ := false }.updateChannel } })
    (hl : I l) {as : List WriteAnswer} (h : l.handleWritEvent cb as = .ok l') : I l' := by
  rcases handleWritEvent_cases h with ⟨-, h⟩ | ⟨-, hempty, ch, hch, rfl⟩
  · exact hI.writLoop hl h
  · exact hidle ch hch hempty hl

/-- After an error the connection is destroyed. -/
theorem handleErroEvent_destroyed (h : l.handleErroEvent cb = .ok l') : l'.conn.destroy_ = true := by
  unfold handleErroEvent at h
  dsimp only at h
  split at h
  · obtain ⟨l1, -, h⟩ := bind_eq_ok.mp h
    cases h
    exact Connection.destroy_destroyed l1.conn
  · cases h
    exact Connection.destroy_destroyed l.conn

/-- The inner loop goes on behind the first task, or the handler has destroyed the connection. -/
theorem finishBuffer_cases (htasks : l.conn.writTasks_ = first :: tasks)
    (h : l.finishBuffer cb first = .ok pass) :
    (∃ l1, pass = .done l1 ∧ l1.conn.destroy_ = true) ∨
    ∃ l1, pass = .next l1 ∧ (l1.conn.destroy_ = false → ∃ new, l1.conn.writTasks_ = tasks ++ new) := by
  unfold finishBuffer at h
  split at h
  · obtain ⟨c, hc, h⟩ := bind_eq_ok.mp h
    unfold Connection.popFront at hc
    rw [htasks] at hc
    cases hc
    cases h
    exact .inr ⟨_, rfl, fun _ => ⟨[], (List.append_nil _).symm⟩⟩
  · obtain ⟨l1, h1, h⟩ := bind_eq_ok.mp h
    split at h
    · next hdestroyed =>
      cases h
      exact .inl ⟨l1, rfl, hdestroyed⟩
    · next halive =>
      obtain ⟨-, new, hnew⟩ := complete_appends h1 (Bool.eq_false_iff.mpr halive)
      obtain ⟨c, hc, h⟩ := bind_eq_ok.mp h
      unfold Connection.popFront at hc
      rw [hnew, htasks, List.cons_append] at hc
      cases hc
      cases h
      exact .inr ⟨_, rfl, fun _ => ⟨new, rfl⟩⟩

/-! ## The passes of an event -/

/-- The states at the top of the loop, each with the kernel's answer. -/
def passes (cb : Callbacks σ H) (l : Link σ H) : List WriteAnswer → List (Link σ H × WriteAnswer)
  | [] => []
  | a :: as =>
    match l.conn.writTasks_ with
    | [] => []
    | first :: _ =>
      (l, a) ::
        match l.writPass cb first a with
        | .ok (.next l') => passes cb l' as
        | _ => []

variable {a : WriteAnswer} {as : List WriteAnswer} {l0 : Link σ H}

theorem passes_empty (hempty : l.conn.writTasks_ = []) : l.passes cb as = [] := by
  cases as with
  | nil => rfl
  | cons a as =>
    unfold passes
    rw [hempty]

theorem passes_cons (htasks : l.conn.writTasks_ = first :: tasks) :
    l.passes cb (a :: as) = (l, a) ::
      match l.writPass cb first a with
      | .ok (.next l') => passes cb l' as
      | _ => [] := by
  rw [passes, htasks]

theorem passes_next (htasks : l.conn.writTasks_ = first :: tasks)
    (hpass : l.writPass cb first a = .ok (.next l')) :
    l.passes cb (a :: as) = (l, a) :: l'.passes cb as := by
  rw [passes_cons htasks, hpass]

theorem passes_last (htasks : l.conn.writTasks_ = first :: tasks)
    (hpass : ∀ l', l.writPass cb first a ≠ .ok (.next l')) : l.passes cb (a :: as) = [(l, a)] := by
  rw [passes_cons htasks]
  split
  · next l' hnext => exact absurd hnext (hpass l')
  · rfl

/-- The event goes on from each of its passes. -/
theorem writLoop_of_mem : ∀ {as : List WriteAnswer} {l : Link σ H}, (l0, a) ∈ l.passes cb as →
    ∃ first tasks as0, l0.conn.writTasks_ = first :: tasks ∧
      l.writLoop cb as = l0.writLoop cb (a :: as0)
  | [], _, hmem => absurd hmem List.not_mem_nil
  | a' :: as, l, hmem => by
    cases htasks : l.conn.writTasks_ with
    | nil =>
      rw [passes_empty htasks] at hmem
      cases hmem
    | cons first tasks =>
      rw [passes_cons htasks] at hmem
      rcases List.mem_cons.mp hmem with heq | hmem
      · cases heq
        exact ⟨first, tasks, as, htasks, rfl⟩
      · split at hmem
        · next l' hpass =>
          obtain ⟨first', tasks', as0, htasks', hloop⟩ := writLoop_of_mem hmem
          refine ⟨first', tasks', as0, htasks', ?_⟩
          rw [← hloop, writLoop, htasks]
          dsimp only
          rw [hpass, ok_bind]
        · cases hmem

/-- What a pass that goes on keeps holds at the top of every pass. -/
theorem passes_keep {A : Link σ H × WriteAnswer → Prop}
    (hnext : ∀ {l l1 : Link σ H} {first tasks a}, I l → l.conn.writTasks_ = first :: tasks → A (l, a) →
      l.writPass cb first a = .ok (.next l1) → I l1) :
    ∀ {as : List WriteAnswer} {l : Link σ H}, I l → (∀ p ∈ l.passes cb as, A p) →
      (l0, a) ∈ l.passes cb as → I l0
  | [], _, _, _, hmem => absurd hmem List.not_mem_nil
  | a' :: as, l, hl, hall, hmem => by
    cases htasks : l.conn.writTasks_ with
    | nil =>
      rw [passes_empty htasks] at hmem
      cases hmem
    | cons first tasks =>
      rw [passes_cons htasks] at hmem hall
      rcases List.mem_cons.mp hmem with heq | hmem
      · cases heq
        exact hl
      · cases hpass : l.writPass cb first a' with
        | error f =>
          rw [hpass] at hmem
          cases hmem
        | ok pass =>
          rw [hpass] at hmem hall
          cases pass with
          | done l1 => cases hmem
          | next l1 =>
            have hl1 := hnext hl htasks (hall (l, a') List.mem_cons_self) hpass
            exact passes_keep hnext hl1 (fun q hq => hall q (List.mem_cons_of_mem _ hq)) hmem

/-- What the pieces keep holds at the top of every pass. -/
theorem Steady.of_mem (hI : Steady cb I) (hl : I l) (hmem : (l0, a) ∈ l.passes cb as) : I l0 :=
  passes_keep (A := fun _ => True) (fun hl htasks _ hpass => hI.writPass hl htasks hpass) hl
    (fun _ _ => trivial) hmem

/-- What every pass guarantees, the loop guarantees. -/
theorem writLoop_guarantees {A : Link σ H × WriteAnswer → Prop}
    (hpass : ∀ {l : Link σ H} {first tasks a}, I l → l.conn.writTasks_ = first :: tasks → A (l, a) →
      Guarantees (fun pass => I pass.out) (l.writPass cb first a)) :
    ∀ {as : List WriteAnswer} {l : Link σ H}, I l → (∀ p ∈ l.passes cb as, A p) →
      Guarantees I (l.writLoop cb as)
  | [], l, hl, _ => by
    unfold writLoop
    split
    · exact hl
    · rfl
  | a :: as, l, hl, hall => by
    cases htasks : l.conn.writTasks_ with
    | nil =>
      rw [writLoop_empty (a :: as) htasks]
      exact hl
    | cons first tasks =>
      rw [passes_cons htasks] at hall
      have hfirst := hpass hl htasks (hall (l, a) List.mem_cons_self)
      unfold writLoop
      rw [htasks]
      dsimp only
      cases hrun : l.writPass cb first a with
      | error f =>
        rw [hrun] at hfirst
        exact hfirst
      | ok pass =>
        rw [hrun] at hfirst hall
        cases pass with
        | done l1 => exact hfirst
        | next l1 =>
          have hl1 : I l1 := hfirst
          exact writLoop_guarantees hpass hl1 fun q hq => hall q (List.mem_cons_of_mem _ hq)

/-- The loop ends with the pass that says so. -/
theorem writLoop_done (htasks : l.conn.writTasks_ = first :: tasks)
    (hpass : l.writPass cb first a = .ok (.done l1)) : l.writLoop cb (a :: as) = .ok l1 := by
  unfold Link.writLoop
  rw [htasks]
  dsimp only
  rw [hpass, ok_bind]
  rfl

theorem writLoop_error (htasks : l.conn.writTasks_ = first :: tasks) {f : Fault}
    (hpass : l.writPass cb first a = .error f) : l.writLoop cb (a :: as) = .error f := by
  unfold Link.writLoop
  rw [htasks]
  dsimp only
  rw [hpass, error_bind]

theorem handleWritEvent_of_ne (hfull : l.conn.writTasks_ ≠ []) :
    l.handleWritEvent cb as = l.writLoop cb as := by
  unfold Link.handleWritEvent
  dsimp only
  rw [if_neg hfull]
  split <;> rfl

/-- The first task of the queue at a pass. -/
theorem passes_front (hmem : (l0, a) ∈ l.passes cb as) :
    ∃ first tasks, l0.conn.writTasks_ = first :: tasks := by
  obtain ⟨first, tasks, -, htasks, -⟩ := writLoop_of_mem hmem
  exact ⟨first, tasks, htasks⟩

/-- With nothing to write the interest goes off, and the kernel is not called. -/
theorem handleWritEvent_idle (halive : l.conn.destroy_ = false) (hempty : l.conn.writTasks_ = [])
    {ch : Channel} (hch : l.conn.chan_ = some ch) : l.handleWritEvent cb as = .ok { l with
      conn := { l.conn with chan_ := some { ch with writable_ := false }.updateChannel } } := by
  have hwrit : l.conn.enableWrit false
      = .ok { l.conn with chan_ := some { ch with writable_ := false }.updateChannel } := by
    unfold Connection.enableWrit
    rw [Connection.channel_ok.mpr hch]
    rfl
  unfold handleWritEvent
  rw [halive, if_neg Bool.false_ne_true, if_pos hempty, hwrit, ok_bind, pure_eq_ok, ok_bind]
  exact writLoop_empty as hempty

/-- A pass that fails is the last one. -/
theorem writPass_failed (h : l.writPass cb first .failed = .ok pass) : ∃ l1, pass = .done l1 := by
  unfold writPass at h
  split at h
  · obtain ⟨u, -, h⟩ := bind_eq_ok.mp h
    obtain ⟨l1, -, h⟩ := bind_eq_ok.mp h
    cases h
    exact ⟨l1, rfl⟩
  · obtain ⟨iov, -, h⟩ := bind_eq_ok.mp h
    obtain ⟨u, -, h⟩ := bind_eq_ok.mp h
    obtain ⟨u', -, h⟩ := bind_eq_ok.mp h
    obtain ⟨l1, -, h⟩ := bind_eq_ok.mp h
    cases h
    exact ⟨l1, rfl⟩

end Link

end Liby
