import Liby.Infra.Machine
import Liby.Net.WritePath
import Liby.Net.WriteSteps

/-!
# Sends of nothing

A `send` may have no bytes. Where such a task is taken off together with others that have some, its
handler runs and nothing else happens. Where a pass has nothing else to offer, the kernel answers 0,
which `handleWritEvent` takes for an error.
-/

namespace Liby

open Infra Outbox

variable {σ H : Type _} {cb : Callbacks σ H}

/-! ## Calls that may send nothing -/

/--
A call whose task stays in the queue until it is over: a buffer with a block, a range of the file.
An empty `std::string` is not sent, so that no handler may come with it.
-/
def ConnCall.Lasts : ConnCall H → Prop
  | .send _ _ | .sendCString _ _ | .enableRead _ | .destroyLater => True
  | .sendBuffer buf _ => buf.Wf ∧ 0 < buf.capacity_
  | .sendMoved buf _ => buf.Wf ∧ buf.buffer_.isSome
  | .sendString str handler => str = [] → handler = none
  | .sendFile fp off len _ => off + len ≤ fp.length
  | .destroy => False

/-- The user's callbacks make only such calls. -/
structure Callbacks.Lasts (cb : Callbacks σ H) : Prop where
  complete : ∀ w handler, ∀ x ∈ (cb.complete w handler).2, x.Lasts
  onErro : ∀ w, ∀ x ∈ (cb.onErro w).2, x.Lasts

namespace ConnCall

variable {x : ConnCall H}

theorem Lasts.plain (hx : x.Lasts) : x.Plain := by
  cases x with
  | sendBuffer buf handler => exact ⟨hx.2, hx.1.left_le⟩
  | destroy => exact hx
  | _ => trivial

theorem ofBytes_held (base : Bytes) (handler : Option H) :
    (IoTask.ofBuffer (.ofBytes base) handler).Held :=
  .buffer rfl rfl (Buffer.wf_ofBytes base) rfl

theorem Lasts.tasks_held (hx : x.Lasts) : ∀ t ∈ x.tasks, t.Held := by
  cases x with
  | send base handler => exact List.forall_mem_singleton.mpr (ofBytes_held base handler)
  | sendBuffer buf handler =>
    obtain ⟨block, hblock⟩ := hx.1.block_of_pos hx.2
    exact List.forall_mem_singleton.mpr (.buffer rfl rfl hx.1 hblock)
  | sendMoved buf handler =>
    obtain ⟨block, hblock⟩ := Option.isSome_iff_exists.mp hx.2
    exact List.forall_mem_singleton.mpr (.buffer rfl rfl hx.1 hblock)
  | sendCString buf handler => exact List.forall_mem_singleton.mpr (ofBytes_held _ handler)
  | sendString str handler =>
    rw [tasks]
    split
    · exact List.forall_mem_nil _
    · exact List.forall_mem_singleton.mpr (ofBytes_held str handler)
  | sendFile fp off len handler => exact List.forall_mem_singleton.mpr (.file rfl hx)
  | enableRead flag | destroy | destroyLater => exact List.forall_mem_nil _

end ConnCall

namespace Connection

/-- A connection that is not destroyed, with tasks that may have nothing to send. -/
structure Ready (c : Connection H) : Prop where
  alive : c.destroy_ = false
  socket : c.socket_ = true
  chan : ∃ ch, c.chan_ = some ch
  tasks : ∀ t ∈ c.writTasks_, t.Held

theorem ready_accepted : (accepted : Connection H).Ready where
  alive := rfl
  socket := rfl
  chan := ⟨_, rfl⟩
  tasks := nofun

variable {c : Connection H}

theorem Ready.call (h : c.Ready) {x : ConnCall H} (hx : x.Lasts) :
    ∃ c', c.call x = .ok c' ∧ c'.Ready ∧ c'.writTasks_ = c.writTasks_ ++ x.tasks := by
  obtain ⟨ch, hch⟩ := h.chan
  refine ⟨_, call_eq hch hx.plain, ⟨h.alive, h.socket, ⟨_, rfl⟩, fun t ht => ?_⟩, rfl⟩
  rcases List.mem_append.mp ht with ht | ht
  · exact h.tasks t ht
  · exact hx.tasks_held t ht

end Connection

namespace Link

variable {l l' : Link σ H} {a : WriteAnswer} {as : List WriteAnswer} {credit : Bytes}
  {first : IoTask H} {tasks : List (IoTask H)}

theorem calls_ready : ∀ {xs : List (ConnCall H)} {l : Link σ H}, l.conn.Ready → (∀ x ∈ xs, x.Lasts) →
    ∃ l', l.calls xs = .ok l' ∧ l'.conn.Ready ∧
      l'.conn.writTasks_ = l.conn.writTasks_ ++ xs.flatMap ConnCall.tasks ∧
      l'.sent = l.sent ++ (xs.flatMap ConnCall.tasks).map IoTask.message ∧ l'.wire = l.wire ∧
      l'.ran = l.ran
  | [], l, h, _ => ⟨l, rfl, h, by simp, by simp, rfl, rfl⟩
  | x :: xs, l, h, hx => by
    obtain ⟨c, hc, hready, htasks⟩ := h.call (hx x List.mem_cons_self)
    obtain ⟨l', hl', hready', htasks', hsent, hwire, hran⟩ :=
      calls_ready (l := { l with conn := c, sent := l.sent ++ x.messages }) hready
        fun x' hx' => hx x' (List.mem_cons_of_mem x hx')
    refine ⟨l', ?_, hready', ?_, ?_, hwire, hran⟩
    · unfold calls call
      rw [hc]
      exact hl'
    · rw [htasks']
      show c.writTasks_ ++ _ = _
      rw [htasks, List.append_assoc, List.flatMap_cons]
    · rw [hsent]
      show l.sent ++ x.messages ++ _ = _
      rw [List.flatMap_cons, List.map_append, x.tasks_messages, List.append_assoc]

/-! ## What is out and what is left -/

/--
`credit` is accepted by the kernel but not yet taken off the queue. What is on the wire before it and
what the queue holds make up all that was sent, and so do the handlers that have run and those that
wait.
-/
structure Kept (l : Link σ H) (credit : Bytes) : Prop where
  ready : l.conn.Ready
  handlers : l.sent.filterMap Message.tag = l.ran ++ l.conn.writTasks_.filterMap IoTask.handler_
  bytes : ∃ out, l.wire = out ++ credit ∧
    out ++ (l.conn.writTasks_.map IoTask.remaining).flatten = stream l.sent

theorem stream_messages (ts : List (IoTask H)) :
    stream (ts.map IoTask.message) = (ts.map IoTask.remaining).flatten := by
  unfold stream
  rw [List.map_map]
  rfl

theorem tags_messages (ts : List (IoTask H)) :
    (ts.map IoTask.message).filterMap Message.tag = ts.filterMap IoTask.handler_ := by
  rw [List.filterMap_map]
  rfl

/-- New tasks at the end of the queue. -/
theorem Kept.append (h : Kept l credit) {new : List (IoTask H)} (hready : l'.conn.Ready)
    (htasks : l'.conn.writTasks_ = l.conn.writTasks_ ++ new)
    (hsent : l'.sent = l.sent ++ new.map IoTask.message) (hwire : l'.wire = l.wire)
    (hran : l'.ran = l.ran) : Kept l' credit where
  ready := hready
  handlers := by
    rw [hsent, hran, htasks, List.filterMap_append, List.filterMap_append, tags_messages, h.handlers,
      List.append_assoc]
  bytes := by
    obtain ⟨out, hout, hstream⟩ := h.bytes
    refine ⟨out, by rw [hwire, hout], ?_⟩
    rw [hsent, htasks, stream_append, stream_messages, ← hstream, List.map_append, List.flatten_append,
      List.append_assoc]

/-- The first task is over and taken off. -/
theorem pop_kept (hready : l.conn.Ready) (htasks : l.conn.writTasks_ = first :: tasks)
    (hhandlers : l.sent.filterMap Message.tag = l.ran ++ tasks.filterMap IoTask.handler_)
    (hbytes : ∃ out, l.wire = out ++ (first.remaining ++ credit) ∧
      out ++ (l.conn.writTasks_.map IoTask.remaining).flatten = stream l.sent) :
    ∃ c, l.conn.popFront = .ok c ∧ c.writTasks_ = tasks ∧ Kept { l with conn := c } credit := by
  obtain ⟨out, hout, hstream⟩ := hbytes
  refine ⟨{ l.conn with writTasks_ := tasks }, ?_, rfl, ⟨hready.alive, hready.socket, hready.chan, ?_⟩,
    hhandlers, out ++ first.remaining, ?_, ?_⟩
  · unfold Connection.popFront
    rw [htasks]
  · intro t ht
    exact hready.tasks t (by rw [htasks]; exact List.mem_cons_of_mem _ ht)
  · show l.wire = _
    rw [hout, List.append_assoc]
  · show out ++ first.remaining ++ (tasks.map IoTask.remaining).flatten = stream l.sent
    rw [← hstream, htasks, List.map_cons, List.flatten_cons, List.append_assoc]

/-- The handler of the first task has run; new tasks stand at the end. -/
theorem Kept.complete_ok (h : Kept l credit) (hcb : cb.Lasts) (htasks : l.conn.writTasks_ = first :: tasks)
    {handler : H} (hhandler : first.handler_ = some handler) :
    ∃ l' new, l.complete cb handler = .ok l' ∧ l'.conn.Ready ∧
      l'.conn.writTasks_ = first :: (tasks ++ new) ∧
      l'.sent.filterMap Message.tag = l'.ran ++ (tasks ++ new).filterMap IoTask.handler_ ∧
      ∃ out, l'.wire = out ++ credit ∧
        out ++ (l'.conn.writTasks_.map IoTask.remaining).flatten = stream l'.sent := by
  obtain ⟨out, hout, hstream⟩ := h.bytes
  obtain ⟨l', hl', hready, htasks', hsent, hwire, hran⟩ :=
    calls_ready (l := { l with
      world := (cb.complete l.world handler).1, ran := l.ran ++ [handler] }) h.ready
      (hcb.complete l.world handler)
  refine ⟨l', (cb.complete l.world handler).2.flatMap ConnCall.tasks, hl', hready, ?_, ?_, out, ?_, ?_⟩
  · rw [htasks', ← List.cons_append, ← htasks]
  · have hhandlers := h.handlers
    rw [htasks, List.filterMap_cons, hhandler] at hhandlers
    rw [hsent, hran, List.filterMap_append, tags_messages, hhandlers, List.filterMap_append]
    simp
  · rw [hwire, ← hout]
  · rw [hsent, htasks', stream_append, stream_messages, ← hstream, List.map_append, List.flatten_append,
      List.append_assoc]

/-- **A task whose bytes are out, if it had any: its handler runs, once, and it leaves the queue.** -/
theorem Kept.finishBuffer_ok (h : Kept l (first.remaining ++ credit)) (hcb : cb.Lasts)
    (htasks : l.conn.writTasks_ = first :: tasks) :
    ∃ l' new, l.finishBuffer cb first = .ok (.next l') ∧ Kept l' credit ∧
      l'.conn.writTasks_ = tasks ++ new := by
  unfold finishBuffer
  cases hh : first.handler_ with
  | none =>
    have hhandlers := h.handlers
    rw [htasks, List.filterMap_cons, hh] at hhandlers
    obtain ⟨c, hpop, hc, hkept⟩ := pop_kept h.ready htasks hhandlers h.bytes
    refine ⟨_, [], ?_, hkept, by rw [List.append_nil, ← hc]⟩
    dsimp only
    rw [hpop, ok_bind]
    rfl
  | some handler =>
    obtain ⟨l', new, hl', hready, htasks', hhandlers, hbytes⟩ := h.complete_ok hcb htasks hh
    obtain ⟨c, hpop, hc, hkept⟩ := pop_kept hready htasks' hhandlers hbytes
    refine ⟨_, new, ?_, hkept, hc⟩
    dsimp only
    rw [hl', ok_bind, hready.alive, if_neg Bool.false_ne_true, hpop]
    rfl

theorem Kept.finishFile_ok (h : Kept l (first.remaining ++ credit)) (hcb : cb.Lasts)
    (htasks : l.conn.writTasks_ = first :: tasks) :
    ∃ l', l.finishFile cb first = .ok l' ∧ Kept l' credit := by
  unfold finishFile
  cases hh : first.handler_ with
  | none =>
    have hhandlers := h.handlers
    rw [htasks, List.filterMap_cons, hh] at hhandlers
    obtain ⟨c, hpop, -, hkept⟩ := pop_kept h.ready htasks hhandlers h.bytes
    refine ⟨_, ?_, hkept⟩
    dsimp only
    rw [pure_eq_ok, ok_bind, hpop]
    rfl
  | some handler =>
    obtain ⟨l', new, hl', hready, htasks', hhandlers, hbytes⟩ := h.complete_ok hcb htasks hh
    obtain ⟨c, hpop, -, hkept⟩ := pop_kept hready htasks' hhandlers hbytes
    refine ⟨_, ?_, hkept⟩
    dsimp only
    rw [hl', ok_bind, hpop]
    rfl

/-- A part of the first task is out: the task keeps the rest. -/
theorem Kept.shorten {n : Nat} {t : IoTask H} (h : Kept l (first.remaining.take n))
    (htasks : l.conn.writTasks_ = first :: tasks) (ht : t.Held)
    (hrest : t.remaining = first.remaining.drop n) (hhandler : t.handler_ = first.handler_) :
    Kept { l with conn := { l.conn with writTasks_ := t :: tasks } } [] := by
  obtain ⟨out, hout, hstream⟩ := h.bytes
  have hhandlers := h.handlers
  rw [htasks, List.filterMap_cons, ← hhandler, ← List.filterMap_cons] at hhandlers
  refine ⟨⟨h.ready.alive, h.ready.socket, h.ready.chan, ?_⟩, hhandlers, out ++ first.remaining.take n,
    by rw [List.append_nil]; exact hout, ?_⟩
  · intro t' ht'
    rcases List.mem_cons.mp ht' with rfl | ht'
    · exact ht
    · exact h.ready.tasks t' (by rw [htasks]; exact List.mem_cons_of_mem _ ht')
  · show out ++ first.remaining.take n ++ ((t :: tasks).map IoTask.remaining).flatten = stream l.sent
    rw [← hstream, htasks, List.map_cons, List.map_cons, List.flatten_cons, List.flatten_cons, hrest,
      List.append_assoc, ← List.append_assoc (first.remaining.take n), List.take_append_drop]

/-- More bytes are accepted by the kernel. -/
theorem Kept.accept (h : Kept l []) (credit : Bytes) : Kept { l with wire := l.wire ++ credit } credit where
  ready := h.ready
  handlers := h.handlers
  bytes := by
    obtain ⟨out, hout, hstream⟩ := h.bytes
    rw [List.append_nil] at hout
    exact ⟨out, by rw [hout], hstream⟩

/-- Tasks without bytes are taken off with those before them. -/
theorem credited_kept (hcb : cb.Lasts) : Credited cb (Kept (σ := σ) (H := H)) where
  socket := fun h => h.ready.socket
  held := fun h => h.ready.tasks
  accept := fun h => h.accept
  finishBuffer := fun h => h.finishBuffer_ok hcb
  finishFile := fun h => h.finishFile_ok hcb
  shorten := fun h _ => h.shorten

/-! ## The passes of an event -/

theorem Kept.writPass_ok (h : Kept l []) (hcb : cb.Lasts) (htasks : l.conn.writTasks_ = first :: tasks)
    (ha : a.Sound) : Guarantees (fun pass => Kept pass.out []) (l.writPass cb first a) :=
  (credited_kept hcb).writPass_ok h htasks ha

/-- After an error the connection is destroyed, and the callbacks do not fault. -/
theorem Kept.handleErroEvent_ok (h : Kept l []) (hcb : cb.Lasts) :
    ∃ l', l.handleErroEvent cb = .ok l' ∧ l'.conn.destroy_ = true := by
  unfold handleErroEvent
  dsimp only
  split
  · obtain ⟨l', hl', -⟩ := calls_ready (l := { l with world := (cb.onErro l.world).1 }) h.ready
      (hcb.onErro l.world)
    exact ⟨_, by rw [hl', ok_bind]; rfl, Connection.destroy_destroyed l'.conn⟩
  · exact ⟨_, rfl, Connection.destroy_destroyed l.conn⟩

/-- **A pass that offers nothing tears the connection down.** -/
theorem Kept.starved (h : Kept l []) (hcb : cb.Lasts) (htasks : l.conn.writTasks_ = first :: tasks)
    (hshort : l.conn.leading.length ≤ IOV_MAX) :
    ∃ l1, l.writPass cb first (.accepted 0) = .ok (.done l1) ∧ l1.conn.destroy_ = true := by
  obtain ⟨l1, hl1, hdestroyed⟩ := h.handleErroEvent_ok hcb
  refine ⟨l1, ?_, hdestroyed⟩
  unfold writPass
  rcases h.ready.tasks first (by rw [htasks]; exact List.mem_cons_self) with
    @⟨fp, hfp, hle⟩ | @⟨buffer, block, hnone, -, -, -⟩
  · have hkernel : 0 ≤ first.len_ ∧ first.offset_ + 0 ≤ fp.length ∧ 0 < 2 ^ 31 :=
      ⟨Nat.zero_le _, by omega, by decide⟩
    rw [hfp]
    dsimp only
    unfold filePass
    rw [guardOr_pos h.ready.socket, ok_bind]
    dsimp only
    rw [guardOr_pos hkernel, ok_bind, if_pos rfl, hl1]
    rfl
  · obtain ⟨n, hn, hgather, -, hne⟩ := gather_front h.ready.tasks htasks hnone
    have hentries : ((l.conn.writTasks_.take n).map IoTask.remaining).length ≤ IOV_MAX := by
      rw [gather_length hgather]
      exact hshort
    rw [hnone]
    dsimp only
    unfold bufferPass
    rw [hgather, ok_bind, guardOr_pos hne, ok_bind, guardOr_pos h.ready.socket, ok_bind]
    dsimp only
    rw [guardOr_pos ⟨Nat.zero_le _, hentries, by decide⟩, ok_bind, if_pos rfl, hl1]
    rfl

/-! ## Every run -/

/-- The kernel takes nothing of nothing, and is otherwise without errors. -/
def TakesNothing (p : Link σ H × WriteAnswer) : Prop :=
  if p.1.conn.offered = 0 then p.2 = .accepted 0 ∧ p.1.conn.leading.length ≤ IOV_MAX else p.2.Sound

/-- Calls whose tasks last, and write events with such answers. -/
def Served (cb : Callbacks σ H) (l : Link σ H) : Event H → Prop
  | .call x => x.Lasts
  | .writ as => ∀ p ∈ l.passes cb as, TakesNothing p

/-- Every pass of the event offers something. -/
def Fed (cb : Callbacks σ H) (l : Link σ H) : Event H → Prop
  | .call _ => True
  | .writ as => ∀ p ∈ l.passes cb as, p.1.conn.offered ≠ 0

/--
The connection is not destroyed; what is on the wire and what the queue holds make up what was sent;
the handlers that have run, once each and in order, and those that wait are those of what was sent.
-/
structure Unharmed (l : Link σ H) : Prop where
  alive : l.conn.destroy_ = false
  bytes : l.wire ++ (l.conn.writTasks_.map IoTask.remaining).flatten = stream l.sent
  handlers : l.sent.filterMap Message.tag = l.ran ++ l.conn.writTasks_.filterMap IoTask.handler_

theorem Kept.unharmed (h : Kept l []) : l.Unharmed where
  alive := h.ready.alive
  bytes := by
    obtain ⟨out, hout, hstream⟩ := h.bytes
    rw [List.append_nil] at hout
    rw [hout, hstream]
  handlers := h.handlers

/-- At the top of every pass the stream is kept. -/
theorem Kept.of_mem (h : Kept l []) (hcb : cb.Lasts) (hall : ∀ p ∈ l.passes cb as, TakesNothing p)
    {l0 : Link σ H} (hmem : (l0, a) ∈ l.passes cb as) : Kept l0 [] := by
  refine passes_keep (I := fun l => Kept l []) (A := TakesNothing) ?_ h hall hmem
  intro l l1 first tasks a h htasks hanswer hpass
  unfold TakesNothing at hanswer
  split at hanswer
  · -- nothing was offered: this pass was the last one
    obtain ⟨rfl, hshort⟩ : a = .accepted 0 ∧ l.conn.leading.length ≤ IOV_MAX := hanswer
    obtain ⟨l2, hdone, -⟩ := h.starved hcb htasks hshort
    rw [hdone] at hpass
    cases hpass
  · exact (h.writPass_ok hcb htasks hanswer).of_ok hpass

theorem Kept.idle_ok (h : Kept l []) (hempty : l.conn.writTasks_ = []) :
    Guarantees (fun l => Kept l []) (l.handleWritEvent cb as) := by
  obtain ⟨ch, hch⟩ := h.ready.chan
  rw [handleWritEvent_idle h.ready.alive hempty hch]
  exact ⟨⟨h.ready.alive, h.ready.socket, ⟨_, rfl⟩, h.ready.tasks⟩, h.handlers, h.bytes⟩

/-- An event whose passes all offer something keeps the stream. -/
theorem Kept.step_ok (h : Kept l []) (hcb : cb.Lasts) {e : Event H} (he : Served cb l e)
    (hfed : Fed cb l e) : Guarantees (fun l => Kept l []) (l.step cb e) := by
  cases e with
  | call x =>
    obtain ⟨c, hc, hready, htasks⟩ := h.ready.call he
    show Guarantees _ (l.call x)
    unfold call
    rw [hc]
    exact h.append hready htasks (by rw [x.tasks_messages]) rfl rfl
  | writ as =>
    show Guarantees _ (l.handleWritEvent cb as)
    by_cases hempty : l.conn.writTasks_ = []
    · exact h.idle_ok hempty
    · rw [handleWritEvent_of_ne hempty]
      refine writLoop_guarantees (A := fun p => p.2.Sound)
        (fun h htasks ha => h.writPass_ok hcb htasks ha) h fun p hp => ?_
      have hanswer := he p hp
      unfold TakesNothing at hanswer
      rwa [if_neg (hfed p hp)] at hanswer

/-- An event with a pass that offers nothing destroys the connection. -/
theorem Kept.step_starved (h : Kept l []) (hcb : cb.Lasts) {e : Event H} (he : Served cb l e)
    (hfed : ¬Fed cb l e) : ∃ t, l.step cb e = .ok t ∧ ¬t.Unharmed := by
  cases e with
  | call x => exact absurd trivial hfed
  | writ as =>
    obtain ⟨⟨l0, a⟩, hp, hnothing⟩ : ∃ p ∈ l.passes cb as, p.1.conn.offered = 0 := by
      by_contra hall
      exact hfed fun p hp hzero => hall ⟨p, hp, hzero⟩
    have hanswer := he (l0, a) hp
    unfold TakesNothing at hanswer
    rw [if_pos hnothing] at hanswer
    obtain ⟨rfl, hshort⟩ : a = .accepted 0 ∧ l0.conn.leading.length ≤ IOV_MAX := hanswer
    obtain ⟨first, tasks, as0, htasks, hloop⟩ := writLoop_of_mem hp
    obtain ⟨l1, hpass, hdestroyed⟩ := (h.of_mem hcb he hp).starved hcb htasks hshort
    have hfull : l.conn.writTasks_ ≠ [] := by
      intro hempty
      rw [passes_empty hempty] at hp
      cases hp
    refine ⟨l1, ?_, fun hunharmed => ?_⟩
    · show l.handleWritEvent cb as = _
      rw [handleWritEvent_of_ne hfull, hloop, writLoop_done htasks hpass]
    · rw [hunharmed.alive] at hdestroyed
      cases hdestroyed

/--
**Empty sends are harmless, exactly if no pass has nothing but them to offer.** In every run in which
the kernel takes nothing of nothing and makes no errors, nobody destroys the connection and no
handler comes with an empty `std::string`, no step faults, the connection is never destroyed, the
bytes of the tasks that have some come out in order and every handler runs once and in order, if and
only if every pass of every write event offers a byte at least.
-/
theorem empty_sends_iff (hcb : cb.Lasts) (conn : Connection H) (world : σ) (hready : conn.Ready)
    (hempty : conn.writTasks_ = []) (es : List (Event H))
    (hserved : Along (step cb) (Served cb) (start conn world) es) :
    Along (step cb) (Fed cb) (start conn world) es ↔
      (∀ f, run (step cb) (start conn world) es = .error f → f = .environment) ∧
      ∀ es' t, es' <+: es → run (step cb) (start conn world) es' = .ok t → t.Unharmed := by
  have hstart : Kept (start conn world) [] := by
    refine ⟨hready, ?_, [], rfl, ?_⟩
    · show [] = [] ++ conn.writTasks_.filterMap IoTask.handler_
      rw [hempty]
      rfl
    · show [] ++ (conn.writTasks_.map IoTask.remaining).flatten = []
      rw [hempty]
      rfl
  exact along_iff_guarantees (I := fun l => Kept l []) (fun _ h => h.unharmed)
    (fun _ _ h hs hf => h.step_ok hcb hs hf) (fun _ _ h hs hf => h.step_starved hcb hs hf) es hstart hserved

/-- A user with numbered handlers that do nothing. -/
def numbered : Callbacks Unit Nat where
  complete := fun w _ => (w, [])
  onErro := fun w => (w, [])

/-- An empty send in front of another one. -/
theorem empty_sends_iff_front :
    let es : List (Event Nat) :=
      [.call (.send [] (some 0)), .call (.send [7] (some 1)), .writ [.accepted 1]]
    Along (step numbered) (Fed numbered) (start .accepted ()) es ↔
      (∀ f, run (step numbered) (start .accepted ()) es = .error f → f = .environment) ∧
      ∀ es' t, es' <+: es → run (step numbered) (start .accepted ()) es' = .ok t → t.Unharmed := by
  intro es
  have hcb : numbered.Lasts := ⟨fun _ _ _ hx => (by cases hx), fun _ _ hx => (by cases hx)⟩
  refine empty_sends_iff hcb .accepted () Connection.ready_accepted rfl es
    ⟨trivial, fun l1 h1 => ⟨trivial, fun l2 h2 => ⟨?_, fun _ _ => trivial⟩⟩⟩
  cases h1
  cases h2
  intro p hp
  rw [passes_cons rfl] at hp
  rcases List.mem_cons.mp hp with rfl | hp
  · unfold TakesNothing
    rw [if_neg (by decide)]
    exact Nat.one_pos
  · cases hp

/--
An empty C string and an empty file destroy the connection, the handler of an empty `std::string` is
lost, and an empty buffer without a block faults.
-/
theorem empty_sends_harm :
    (∃ l, run (step numbered) (start .accepted ())
        [.call (.sendCString [] (some 0)), .writ [.accepted 0]] = .ok l ∧
      l.conn.destroy_ = true ∧ l.ran = []) ∧
    (∃ l, run (step numbered) (start .accepted ())
        [.call (.sendFile [] 0 0 (some 0)), .writ [.accepted 0]] = .ok l ∧
      l.conn.destroy_ = true ∧ l.ran = []) ∧
    (∃ l, run (step numbered) (start .accepted ()) [.call (.sendString [] (some 0)), .writ []] = .ok l ∧
      l.conn.writTasks_ = [] ∧ l.ran = []) ∧
    run (step numbered) (start .accepted ()) [.call (.sendMoved .init none), .writ [.accepted 0]]
      = .error .assertFailed :=
  ⟨⟨_, rfl, rfl, rfl⟩, ⟨_, rfl, rfl, rfl⟩, ⟨_, rfl, rfl, rfl⟩, rfl⟩

end Link

end Liby
