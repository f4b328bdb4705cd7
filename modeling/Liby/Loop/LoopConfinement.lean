import Liby.Loop.EventLoopGroup
import Mathlib.Data.List.Nodup

/-!
# Loop confinement

A connection belongs to the loop that `robinLoop` gives for its socket. Its channel and its acceptor
callback are there; but its timers are in the loop of the thread that made the connection, which is
that of the server.
-/

namespace Liby

open Infra

/-- The call of a timer. -/
def GroupCall.isTimer (call : GroupCall) : Bool :=
  match call.callback with
  | .timer _ => true
  | _ => false

namespace GroupWorld

/-- The loop that a connection belongs to. -/
def assigned (w : GroupWorld) (c : Nat) : Option Nat :=
  w.conns[c]?.map fun conn => w.group.robinLoop conn.fd

/-- The handlers in the event queue of a loop. -/
def handlersAt (w : GroupWorld) (i : Nat) : List GroupHandler :=
  (w.loopAt i).equeue_.eventHandlers_.queue_

/--
**Loop confinement**: what a loop has of a connection, and what it has run for one, is of a
connection that belongs to it.
-/
structure Confined (w : GroupWorld) : Prop where
  handlers : ∀ i c, .accepted c ∈ w.handlersAt i → w.assigned c = some i
  channels : ∀ i, ∀ c ∈ (w.loopAt i).channels, w.assigned c = some i
  timers : ∀ i, ∀ timer ∈ (w.loopAt i).tqueue_, w.assigned timer.owner = some i
  calls : ∀ call ∈ w.calls, w.assigned call.conn = some call.loop

/-- The connections that have a timer in the loop of the server, or had one that ran. -/
def timed (w : GroupWorld) : List Nat :=
  (w.loopAt serverLoop).tqueue_.map ConnTimer.owner ++ (w.calls.filter GroupCall.isTimer).map GroupCall.conn

/-- The acceptor callback of a connection has run. -/
def KnownAt (w : GroupWorld) (c : Nat) : Prop := ∃ conn, w.conns[c]? = some conn ∧ conn.known = true

/-- What holds in any case: only timers may be in the wrong loop, and that is the loop of the server. -/
structure Placed (w : GroupWorld) : Prop where
  length : w.group.ploops_.length = w.group.n_ + 1
  conns : ∀ (c : Nat) (conn : GroupConn), w.conns[c]? = some conn → conn.poller_ = w.group.robinLoop conn.fd ∧
    conn.timerLoop_ = serverLoop ∧ (conn.known = false → conn.chan_ = true)
  handlers : ∀ i c, .accepted c ∈ w.handlersAt i →
    ∃ conn, w.conns[c]? = some conn ∧ w.group.robinLoop conn.fd = i ∧ conn.known = false
  once : ∀ i, (w.handlersAt i).Nodup
  channels : ∀ i, ∀ c ∈ (w.loopAt i).channels, w.assigned c = some i ∧ w.KnownAt c
  timers : ∀ i, ∀ timer ∈ (w.loopAt i).tqueue_, i = serverLoop ∧ (w.assigned timer.owner).isSome
  calls : ∀ call ∈ w.calls, if call.isTimer then call.loop = serverLoop
    else w.assigned call.conn = some call.loop

variable {w w' : GroupWorld}

theorem Placed.confined_iff (h : Placed w) :
    Confined w ↔ ∀ c ∈ w.timed, w.assigned c = some serverLoop := by
  unfold timed
  constructor
  · intro hconf c hc
    rcases List.mem_append.mp hc with hc | hc
    · obtain ⟨timer, htimer, rfl⟩ := List.mem_map.mp hc
      exact hconf.timers serverLoop timer htimer
    · obtain ⟨call, hcall, rfl⟩ := List.mem_map.mp hc
      obtain ⟨hcall, htimer⟩ := List.mem_filter.mp hcall
      have hloop := h.calls call hcall
      rw [if_pos htimer] at hloop
      rw [← hloop]
      exact hconf.calls call hcall
  · intro htimed
    refine ⟨fun i c hc => ?_, fun i c hc => (h.channels i c hc).1, fun i timer htimer => ?_,
      fun call hcall => ?_⟩
    · obtain ⟨conn, hconn, hloop, -⟩ := h.handlers i c hc
      unfold assigned
      rw [hconn, Option.map_some, hloop]
    · obtain ⟨hi, -⟩ := h.timers i timer htimer
      subst hi
      exact htimed _ (List.mem_append_left _ (List.mem_map_of_mem htimer))
    · have hloop := h.calls call hcall
      by_cases htimer : call.isTimer = true
      · rw [if_pos htimer] at hloop
        rw [hloop]
        exact htimed _ (List.mem_append_right _
          (List.mem_map_of_mem (List.mem_filter.mpr ⟨hcall, htimer⟩)))
      · rw [if_neg htimer] at hloop
        exact hloop

/-! ## Changes -/

theorem loopAt_onLoop (w : GroupWorld) {i : Nat} (hi : i < w.group.ploops_.length)
    (f : EventLoop → EventLoop) (j : Nat) :
    (w.onLoop i f).loopAt j = if i = j then f (w.loopAt i) else w.loopAt j := by
  unfold loopAt onLoop
  dsimp only
  rw [List.getD_eq_getElem?_getD, List.getD_eq_getElem?_getD]
  split
  · next hij =>
    subst hij
    rw [List.getElem?_modify_eq, List.getElem?_eq_getElem hi]
    rfl
  · next hij =>
    rw [List.getElem?_modify_ne _ _ hij, List.getD_eq_getElem?_getD]

theorem tqueue_onLoop (w : GroupWorld) {i : Nat} (hi : i < w.group.ploops_.length)
    (f : EventLoop → EventLoop) (hf : ∀ loop, (f loop).tqueue_ = loop.tqueue_) (j : Nat) :
    ((w.onLoop i f).loopAt j).tqueue_ = (w.loopAt j).tqueue_ := by
  rw [loopAt_onLoop w hi]
  split
  · next hij =>
    subst hij
    exact hf _
  · rfl

/-- Something changes in a loop that leaves each of its parts in order. -/
theorem Placed.onLoop_ok (h : Placed w) {i : Nat} (hi : i < w.group.ploops_.length)
    {f : EventLoop → EventLoop}
    (hhandlers : ∀ c, .accepted c ∈ (f (w.loopAt i)).equeue_.eventHandlers_.queue_ →
      ∃ conn, w.conns[c]? = some conn ∧ w.group.robinLoop conn.fd = i ∧ conn.known = false)
    (honce : (f (w.loopAt i)).equeue_.eventHandlers_.queue_.Nodup)
    (hchannels : ∀ c ∈ (f (w.loopAt i)).channels, w.assigned c = some i ∧ w.KnownAt c)
    (htimers : ∀ timer ∈ (f (w.loopAt i)).tqueue_,
      i = serverLoop ∧ (w.assigned timer.owner).isSome) : Placed (w.onLoop i f) where
  length := by
    show (w.group.ploops_.modify i f).length = _
    rw [List.length_modify]
    exact h.length
  conns := h.conns
  handlers := by
    intro j c hc
    unfold handlersAt at hc
    rw [loopAt_onLoop w hi] at hc
    split at hc
    · next hij =>
      subst hij
      exact hhandlers c hc
    · exact h.handlers j c hc
  once := by
    intro j
    unfold handlersAt
    rw [loopAt_onLoop w hi]
    split
    · exact honce
    · exact h.once j
  channels := by
    intro j c hc
    rw [loopAt_onLoop w hi] at hc
    split at hc
    · next hij =>
      subst hij
      exact hchannels c hc
    · exact h.channels j c hc
  timers := by
    intro j timer htimer
    rw [loopAt_onLoop w hi] at htimer
    split at htimer
    · next hij =>
      subst hij
      exact htimers timer htimer
    · exact h.timers j timer htimer
  calls := h.calls

/-- A connection stays what it is for the loops. -/
structure Tame (f : GroupConn → GroupConn) : Prop where
  fd : ∀ conn, (f conn).fd = conn.fd
  poller : ∀ conn, (f conn).poller_ = conn.poller_
  timerLoop : ∀ conn, (f conn).timerLoop_ = conn.timerLoop_
  known : ∀ conn, conn.known = true → (f conn).known = true

theorem tame_init : Tame GroupConn.init := ⟨fun _ => rfl, fun _ => rfl, fun _ => rfl, fun _ _ => rfl⟩

theorem tame_hold (id : Nat) : Tame fun conn => conn.hold id :=
  ⟨fun _ => rfl, fun _ => rfl, fun _ => rfl, fun _ h => h⟩

theorem tame_cancelTimer (id : Nat) : Tame fun conn => conn.cancelTimer id :=
  ⟨fun _ => rfl, fun _ => rfl, fun _ => rfl, fun _ h => h⟩

theorem tame_reset : Tame GroupConn.reset := ⟨fun _ => rfl, fun _ => rfl, fun _ => rfl, fun _ h => h⟩

theorem assigned_onConn (w : GroupWorld) (c : Nat) {f : GroupConn → GroupConn} (hf : Tame f) (c' : Nat) : (w.onConn c f).assigned c' = w.assigned c' := by
  unfold assigned onConn
  dsimp only
  by_cases hc : c = c'
  · subst hc
    rw [List.getElem?_modify_eq]
    cases w.conns[c]? with
    | none => rfl
    | some conn =>
      show some (w.group.robinLoop (f conn).fd) = _
      rw [hf.fd]
      rfl
  · rw [List.getElem?_modify_ne _ _ hc]

theorem KnownAt.onConn (c : Nat) {f : GroupConn → GroupConn} (hf : Tame f) {c' : Nat}
    (h : w.KnownAt c') : (w.onConn c f).KnownAt c' := by
  obtain ⟨conn, hconn, hc'⟩ := h
  unfold KnownAt GroupWorld.onConn
  dsimp only
  by_cases hc : c = c'
  · subst hc
    refine ⟨f conn, ?_, hf.known conn hc'⟩
    rw [List.getElem?_modify_eq, hconn]
    rfl
  · exact ⟨conn, by rw [List.getElem?_modify_ne _ _ hc, hconn], hc'⟩

/-- Something changes in a connection that leaves it in order. -/
theorem Placed.onConn_ok (h : Placed w) {c : Nat} {conn : GroupConn} (hconn : w.conns[c]? = some conn)
    {f : GroupConn → GroupConn} (hf : Tame f)
    (hchan : (f conn).known = false → (f conn).chan_ = true)
    (hfresh : (f conn).known = conn.known ∨ ∀ i, .accepted c ∉ w.handlersAt i) :
    Placed (w.onConn c f) where
  length := h.length
  conns := by
    intro c' conn' hconn'
    have hconn' : (w.conns.modify c f)[c']? = some conn' := hconn'
    by_cases hc : c = c'
    · subst hc
      rw [List.getElem?_modify_eq, hconn] at hconn'
      have heq : f conn = conn' := Option.some.inj hconn'
      obtain ⟨hp, ht, -⟩ := h.conns c conn hconn
      subst heq
      rw [hf.fd, hf.poller, hf.timerLoop]
      exact ⟨hp, ht, hchan⟩
    · rw [List.getElem?_modify_ne _ _ hc] at hconn'
      exact h.conns c' conn' hconn'
  handlers := by
    intro i c' hc'
    obtain ⟨conn', hconn', hloop, hunknown⟩ := h.handlers i c' hc'
    by_cases hc : c = c'
    · subst hc
      rw [hconn] at hconn'
      cases hconn'
      refine ⟨f conn, ?_, ?_, ?_⟩
      · show (w.conns.modify c f)[c]? = _
        rw [List.getElem?_modify_eq, hconn]
        rfl
      · rw [hf.fd]
        exact hloop
      · rcases hfresh with hsame | hnone
        · rw [hsame]
          exact hunknown
        · exact absurd hc' (hnone i)
    · refine ⟨conn', ?_, hloop, hunknown⟩
      show (w.conns.modify c f)[c']? = _
      rw [List.getElem?_modify_ne _ _ hc, hconn']
  once := h.once
  channels := by
    intro i c' hc'
    rw [assigned_onConn w c hf]
    exact ⟨(h.channels i c' hc').1, (h.channels i c' hc').2.onConn c hf⟩
  timers := by
    intro i timer htimer
    rw [assigned_onConn w c hf]
    exact h.timers i timer htimer
  calls := by
    intro call hcall
    rw [assigned_onConn w c hf]
    exact h.calls call hcall

/-! ## What callbacks do -/

/-- What callbacks have done: no connection has moved, and timers were registered for `owners`. -/
structure Grown (w : GroupWorld) (owners : List Nat) (w' : GroupWorld) : Prop where
  placed : Placed w'
  assigned : ∀ c, w'.assigned c = w.assigned c
  known : ∀ c, w.KnownAt c → w'.KnownAt c
  timed : ∀ c, c ∈ w'.timed ↔ c ∈ w.timed ∨ c ∈ owners

/-- No timer was registered. -/
theorem Grown.of_timed (h : Placed w') (hassigned : ∀ c, w'.assigned c = w.assigned c)
    (hknown : ∀ c, w.KnownAt c → w'.KnownAt c) (htimed : w'.timed = w.timed) : Grown w [] w' where
  placed := h
  assigned := hassigned
  known := hknown
  timed := fun c => by rw [htimed, or_iff_left List.not_mem_nil]

theorem Grown.refl (h : Placed w) : Grown w [] w := .of_timed h (fun _ => rfl) (fun _ => id) rfl

theorem Grown.trans {w'' : GroupWorld} {owners owners' : List Nat} (h : Grown w owners w')
    (h' : Grown w' owners' w'') : Grown w (owners ++ owners') w'' where
  placed := h'.placed
  assigned := fun c => (h'.assigned c).trans (h.assigned c)
  known := fun c hc => h'.known c (h.known c hc)
  timed := fun c => by rw [h'.timed, h.timed, List.mem_append, or_assoc]

/-- What leaves the timers of the loop of the server and the calls as they are. -/
theorem timed_eq (htimers : (w'.loopAt serverLoop).tqueue_ = (w.loopAt serverLoop).tqueue_)
    (hcalls : w'.calls = w.calls) : w'.timed = w.timed := by
  unfold timed
  rw [htimers, hcalls]

theorem Placed.serverLoop_lt (h : Placed w) : serverLoop < w.group.ploops_.length := by
  rw [h.length]
  exact Nat.succ_pos _

theorem Placed.robinLoop_lt (h : Placed w) (fd : Nat) :
    w.group.robinLoop fd < w.group.ploops_.length := by
  rw [h.length]
  exact Nat.mod_lt fd (Nat.succ_pos _)

theorem Placed.runTimer_ok (h : Placed w) {c : Nat} {conn : GroupConn}
    (hconn : w.conns[c]? = some conn) (hknown : conn.known = true) (every : Bool) :
    Grown w [c] (w.runTimer c conn every) := by
  obtain ⟨-, htimer, -⟩ := h.conns c conn hconn
  have hassigned : w.assigned c = some (w.group.robinLoop conn.fd) := by
    unfold GroupWorld.assigned
    rw [hconn]
    rfl
  have h1 : Placed { w with timerIds_ := w.timerIds_ + 1 } :=
    ⟨h.length, h.conns, h.handlers, h.once, h.channels, h.timers, h.calls⟩
  unfold runTimer
  dsimp only
  rw [htimer]
  have h2 : Placed (onLoop { w with timerIds_ := w.timerIds_ + 1 } serverLoop fun loop =>
      loop.insert { id := w.timerIds_, owner := c, every := every }) := by
    refine h1.onLoop_ok h.serverLoop_lt (h.handlers serverLoop) (h.once serverLoop)
      (h.channels serverLoop) fun timer hmem => ⟨rfl, ?_⟩
    rcases List.mem_append.mp hmem with hmem | hmem
    · exact (h.timers serverLoop timer hmem).2
    · rw [List.mem_singleton.mp hmem]
      exact (congrArg Option.isSome hassigned).trans rfl
  have htame := tame_hold w.timerIds_
  refine ⟨?_, fun c' => ?_, fun c' hc' => ?_, fun c' => ?_⟩
  · refine h2.onConn_ok hconn htame (fun hunknown => ?_) (.inl rfl)
    exact absurd (hknown.symm.trans hunknown) Bool.noConfusion
  · rw [assigned_onConn _ c htame]
    rfl
  · exact KnownAt.onConn c htame hc'
  · have hqueue : ((onLoop { w with timerIds_ := w.timerIds_ + 1 } serverLoop fun loop =>
        loop.insert { id := w.timerIds_, owner := c, every := every }).loopAt serverLoop).tqueue_ =
        (w.loopAt serverLoop).tqueue_ ++ [{ id := w.timerIds_, owner := c, every := every }] := by
      rw [loopAt_onLoop _ h1.serverLoop_lt, if_pos rfl]
      rfl
    show c' ∈ List.map _ ((onLoop { w with timerIds_ := w.timerIds_ + 1 } serverLoop fun loop =>
      loop.insert { id := w.timerIds_, owner := c, every := every }).loopAt serverLoop).tqueue_ ++ _ ↔ _
    rw [hqueue]
    unfold timed
    simp only [List.map_append, List.map_cons, List.map_nil, List.mem_append, List.mem_singleton]
    exact or_right_comm

theorem Placed.destroy_ok (h : Placed w) {c : Nat} {conn : GroupConn}
    (hconn : w.conns[c]? = some conn) (hknown : conn.known = true) :
    Grown w [] (w.destroy c conn) := by
  obtain ⟨hpoller, -, -⟩ := h.conns c conn hconn
  unfold destroy
  split
  · exact Grown.refl h
  · have h1 : Placed (w.onConn c GroupConn.reset) := by
      refine h.onConn_ok hconn tame_reset (fun hunknown => ?_) (.inl rfl)
      exact absurd (hknown.symm.trans hunknown) Bool.noConfusion
    have hlt : w.group.robinLoop conn.fd < w.group.ploops_.length := h.robinLoop_lt conn.fd
    rw [hpoller]
    refine .of_timed ?_ (assigned_onConn w c tame_reset) (fun _ hc' => hc'.onConn c tame_reset) ?_
    · exact h1.onLoop_ok hlt (h1.handlers _) (h1.once _)
        (fun c' hc' => h1.channels _ c' (List.mem_of_mem_filter hc')) (h1.timers _)
    · exact timed_eq (tqueue_onLoop (w.onConn c GroupConn.reset) hlt
        (fun loop => loop.removeChannel c) (fun _ => rfl) serverLoop) rfl

theorem Placed.runOp_ok (h : Placed w) (op : ConnOp) :
    Guarantees (Grown w op.registered) (w.runOp op) := by
  unfold runOp
  split
  · rfl
  · next conn hconn =>
    refine Guarantees.guard fun hknown => ?_
    cases op with
    | runTimer c every => exact h.runTimer_ok hconn hknown every
    | cancelTimer c id =>
      have htame := tame_cancelTimer id
      refine .of_timed ?_ (assigned_onConn w c htame) (fun _ hc' => hc'.onConn c htame) rfl
      refine h.onConn_ok hconn htame (fun hunknown => ?_) (.inl rfl)
      exact absurd (hknown.symm.trans hunknown) Bool.noConfusion
    | destroy c => exact h.destroy_ok hconn hknown

/-- **What callbacks do leaves every connection where it is, and registers timers.** -/
theorem Placed.runOps_ok : ∀ (ops : List ConnOp) {w : GroupWorld}, Placed w →
    Guarantees (Grown w (ops.flatMap ConnOp.registered)) (w.runOps ops)
  | [], _, h => Grown.refl h
  | op :: ops, w, h => by
    rw [runOps, List.flatMap_cons]
    refine (h.runOp_ok op).bind fun w1 h1 => ?_
    exact (Placed.runOps_ok ops h1.placed).imp_ok fun w' _ h' => h1.trans h'

/-! ## Events -/

/--
An event keeps what holds in any case, moves no connection, and has the timers that it registers, besides
those that were there.
-/
structure Stepped (w : GroupWorld) (owners : List Nat) (w' : GroupWorld) : Prop where
  placed : Placed w'
  assigned : ∀ c i, w.assigned c = some i → w'.assigned c = some i
  back : ∀ c ∈ owners, w'.assigned c = some serverLoop → w.assigned c = some serverLoop
  timed : ∀ c ∈ w'.timed, c ∈ w.timed ∨ c ∈ owners
  registered : ∀ c ∈ owners, c ∈ w'.timed

/-- Something before the callbacks, which registers no timer. -/
theorem Grown.stepped {w₀ : GroupWorld} {owners : List Nat} (h : Grown w₀ owners w')
    (hassigned : ∀ c, w₀.assigned c = w.assigned c) (htimed : ∀ c ∈ w₀.timed, c ∈ w.timed) :
    Stepped w owners w' where
  placed := h.placed
  assigned := fun c i hc => by rw [h.assigned, hassigned, hc]
  back := fun c _ hc => by rw [← hassigned, ← h.assigned, hc]
  timed := fun c hc => ((h.timed c).mp hc).imp_left (htimed c)
  registered := fun c hc => (h.timed c).mpr (.inr hc)

/-- **An event leaves every callback on its loop exactly if the timers it registers are at home.** -/
theorem Stepped.confined_iff {owners : List Nat} (h : Placed w) (hconf : Confined w)
    (hstep : Stepped w owners w') : Confined w' ↔ ∀ c ∈ owners, w.assigned c = some serverLoop := by
  rw [hstep.placed.confined_iff]
  constructor
  · exact fun hall c hc => hstep.back c hc (hall c (hstep.registered c hc))
  · intro hall c hc
    rcases hstep.timed c hc with hc | hc
    · exact hstep.assigned c _ (h.confined_iff.mp hconf c hc)
    · exact hstep.assigned c _ (hall c hc)

/-- A callback that is not a timer's runs on the loop of its connection. -/
theorem Placed.call_ok (h : Placed w) {loop c : Nat} {callback : ConnCallback}
    (hloop : if (GroupCall.mk loop c callback).isTimer then loop = serverLoop
      else w.assigned c = some loop) : Placed (w.call loop c callback) := by
  refine ⟨h.length, h.conns, h.handlers, h.once, h.channels, h.timers, fun call hcall => ?_⟩
  rcases List.mem_append.mp hcall with hcall | hcall
  · exact h.calls call hcall
  · rw [List.mem_singleton.mp hcall]
    exact hloop

/-- A connection that is made changes none of those before it. -/
theorem assigned_append {new : GroupConn} {c i : Nat} (h : w.assigned c = some i) :
    ({ w with conns := w.conns ++ [new] } : GroupWorld).assigned c = some i := by
  unfold assigned at h ⊢
  obtain ⟨conn, hconn, hloop⟩ := Option.map_eq_some_iff.mp h
  dsimp only
  rw [List.getElem?_append_left (List.getElem?_eq_some_iff.mp hconn).1, hconn]
  exact congrArg some hloop

theorem Placed.append_ok (h : Placed w) (fd : Nat) :
    Placed { w with conns := w.conns ++ [GroupConn.new serverLoop (w.group.robinLoop fd) fd] } := by
  have hold : ∀ {c : Nat} {conn : GroupConn}, w.conns[c]? = some conn →
      (w.conns ++ [GroupConn.new serverLoop (w.group.robinLoop fd) fd])[c]? = some conn := by
    intro c conn hconn
    rw [List.getElem?_append_left (List.getElem?_eq_some_iff.mp hconn).1, hconn]
  refine ⟨h.length, fun c conn hconn => ?_, fun i c hc => ?_, h.once, fun i c hc => ?_,
    fun i timer htimer => ?_, fun call hcall => ?_⟩
  · rcases Nat.lt_or_ge c w.conns.length with hlt | hge
    · dsimp only at hconn
      rw [List.getElem?_append_left hlt] at hconn
      exact h.conns c conn hconn
    · dsimp only at hconn
      rw [List.getElem?_append_right hge] at hconn
      rw [List.mem_singleton.mp (List.mem_of_getElem? hconn)]
      exact ⟨rfl, rfl, fun _ => rfl⟩
  · obtain ⟨conn, hconn, hrest⟩ := h.handlers i c hc
    exact ⟨conn, hold hconn, hrest⟩
  · obtain ⟨hassigned, conn, hconn, hknown⟩ := h.channels i c hc
    exact ⟨assigned_append hassigned, conn, hold hconn, hknown⟩
  · obtain ⟨hi, hsome⟩ := h.timers i timer htimer
    obtain ⟨j, hj⟩ := Option.isSome_iff_exists.mp hsome
    exact ⟨hi, by rw [assigned_append hj]; rfl⟩
  · have hloop := h.calls call hcall
    split
    · next htimer =>
      rw [if_pos htimer] at hloop
      exact hloop
    · next hother =>
      rw [if_neg hother] at hloop
      exact assigned_append hloop

@[simp] theorem queue_wakeup {H : Type} (q : EventQueue H) :
    q.wakeup.eventHandlers_ = q.eventHandlers_ := by
  unfold EventQueue.wakeup
  split <;> rfl

/-- The handler of a new connection goes to the loop that the connection belongs to. -/
theorem Placed.acceptSocket_ok (h : Placed w) (fd : Nat) :
    Stepped w [] (w.acceptSocket serverLoop fd) := by
  have h1 := h.append_ok fd
  have hlt : w.group.robinLoop fd < w.group.ploops_.length := h.robinLoop_lt fd
  have hlast : (w.conns ++ [GroupConn.new serverLoop (w.group.robinLoop fd) fd])[w.conns.length]? =
      some (GroupConn.new serverLoop (w.group.robinLoop fd) fd) := List.getElem?_concat_length
  have hqueue : ∀ loop : EventLoop,
      (loop.runEventHandler (.accepted w.conns.length)).equeue_.eventHandlers_.queue_ =
        loop.equeue_.eventHandlers_.queue_ ++ [.accepted w.conns.length] := by
    intro loop
    unfold EventLoop.runEventHandler
    dsimp only
    rw [queue_wakeup]
    rfl
  have htqueue : ((w.acceptSocket serverLoop fd).loopAt serverLoop).tqueue_ =
      (w.loopAt serverLoop).tqueue_ :=
    tqueue_onLoop { w with conns := _ } hlt (fun loop => loop.runEventHandler (.accepted _))
      (fun _ => rfl) serverLoop
  have hplaced : Placed (w.acceptSocket serverLoop fd) := by
    refine h1.onLoop_ok hlt (fun c hc => ?_) ?_ (h1.channels _) (h1.timers _)
    · rw [hqueue] at hc
      rcases List.mem_append.mp hc with hc | hc
      · exact h1.handlers _ c hc
      · cases List.mem_singleton.mp hc
        exact ⟨_, hlast, rfl, rfl⟩
    · rw [hqueue]
      refine List.nodup_append.mpr ⟨h1.once _, List.nodup_singleton _, ?_⟩
      rintro a ha b hb rfl
      rw [List.mem_singleton.mp hb] at ha
      -- the handlers that were there are of connections that were there
      obtain ⟨conn, hconn, -⟩ := h.handlers _ _ ha
      exact absurd (List.getElem?_eq_some_iff.mp hconn).1 (lt_irrefl _)
  refine ⟨hplaced, fun c i hc => assigned_append hc, fun c hc => absurd hc List.not_mem_nil,
    fun c hc => .inl ?_, fun c hc => absurd hc List.not_mem_nil⟩
  rw [timed_eq htqueue rfl] at hc
  exact hc

theorem Placed.handleAcceptEvent_ok : ∀ (fds : List Nat) {w : GroupWorld}, Placed w →
    Stepped w [] (w.handleAcceptEvent serverLoop fds)
  | [], w, h => (Grown.refl h).stepped (fun _ => rfl) fun _ hc => hc
  | fd :: fds, w, h => by
    have h1 := h.acceptSocket_ok fd
    have h' := Placed.handleAcceptEvent_ok fds h1.placed
    refine ⟨h'.placed, fun c i hc => h'.assigned c i (h1.assigned c i hc),
      fun c hc => absurd hc List.not_mem_nil, fun c hc => ?_, fun c hc => absurd hc List.not_mem_nil⟩
    rcases h'.timed c hc with hc | hc
    · exact h1.timed c hc
    · exact absurd hc List.not_mem_nil

theorem timed_call {loop c : Nat} {callback : ConnCallback}
    (h : (GroupCall.mk loop c callback).isTimer = false) : (w.call loop c callback).timed = w.timed := by
  unfold timed call
  dsimp only
  rw [List.filter_append, List.filter_cons_of_neg (by rw [h]; exact Bool.false_ne_true), List.filter_nil,
    List.append_nil]
  rfl

/-- **A new connection is registered, and its acceptor callback runs, on the loop it belongs to.** -/
theorem Placed.runAccepted_ok (h : Placed w) {loop c : Nat} {conn : GroupConn}
    (hconn : w.conns[c]? = some conn) (hloop : w.group.robinLoop conn.fd = loop)
    (hunknown : conn.known = false) (hnone : ∀ i, .accepted c ∉ w.handlersAt i) (ops : List ConnOp) :
    Guarantees (Stepped w (ops.flatMap ConnOp.registered)) (w.runAccepted loop c ops) := by
  obtain ⟨hpoller, -, hchan⟩ := h.conns c conn hconn
  have h1 : Placed (w.onConn c GroupConn.init) :=
    h.onConn_ok hconn tame_init (fun hfalse => nomatch hfalse) (.inr hnone)
  have hlt : loop < w.group.ploops_.length := hloop ▸ h.robinLoop_lt conn.fd
  have hassigned : w.assigned c = some loop := by
    unfold GroupWorld.assigned
    rw [hconn, Option.map_some, hloop]
  have hassigned1 : (w.onConn c GroupConn.init).assigned c = some loop := by
    rw [assigned_onConn w c tame_init, hassigned]
  have hknown1 : (w.onConn c GroupConn.init).KnownAt c := by
    refine ⟨conn.init, ?_, rfl⟩
    show (w.conns.modify c _)[c]? = _
    rw [List.getElem?_modify_eq, hconn]
    rfl
  have h2 : Placed ((w.onConn c GroupConn.init).onLoop loop fun loop => loop.addChannel c) := by
    refine h1.onLoop_ok hlt (h1.handlers loop) (h1.once loop) (fun c' hc' => ?_) (h1.timers loop)
    rcases List.mem_append.mp hc' with hc' | hc'
    · exact h1.channels loop c' hc'
    · rw [List.mem_singleton.mp hc']
      exact ⟨hassigned1, hknown1⟩
  have htimed2 : ((w.onConn c GroupConn.init).onLoop loop fun loop => loop.addChannel c).timed =
      w.timed :=
    timed_eq (tqueue_onLoop (w.onConn c GroupConn.init) hlt (fun loop => loop.addChannel c)
      (fun _ => rfl) serverLoop) rfl
  unfold runAccepted connAt
  rw [readAt_eq_ok.mpr hconn, ok_bind, guardOr_pos (hchan hunknown), ok_bind, hpoller, hloop]
  dsimp only
  split
  · have h3 := @Placed.call_ok _ h2 loop c .accept hassigned1
    refine (h3.runOps_ok ops).imp_ok fun w' _ h' => ?_
    refine h'.stepped (fun c' => assigned_onConn w c tame_init c') fun c' hc' => ?_
    rw [timed_call rfl, htimed2] at hc'
    exact hc'
  · refine Guarantees.guard fun hnil => ?_
    subst hnil
    refine (Grown.refl h2).stepped (fun c' => assigned_onConn w c tame_init c') fun c' hc' => ?_
    rw [htimed2] at hc'
    exact hc'

theorem assigned_iff {c i : Nat} : w.assigned c = some i ↔
    ∃ conn, w.conns[c]? = some conn ∧ w.group.robinLoop conn.fd = i := Option.map_eq_some_iff

theorem lt_of_handler {i : Nat} {handler : GroupHandler} (h : handler ∈ w.handlersAt i) :
    i < w.group.ploops_.length := by
  by_contra hge
  unfold handlersAt loopAt at h
  rw [List.getD_eq_getElem?_getD, List.getElem?_eq_none (Nat.le_of_not_lt hge)] at h
  exact absurd h List.not_mem_nil

/-- The event queue of a loop runs its first handler. -/
theorem Placed.handler_ok (h : Placed w) (loop : Nat) (ops : List ConnOp) :
    Guarantees (Stepped w (GroupEvent.handler loop ops).registered) (w.step (.handler loop ops)) := by
  rw [step]
  cases hqueue : (w.loopAt loop).equeue_.eventHandlers_.queue_ with
  | nil =>
    unfold BlockingQueue.popFront
    rw [hqueue]
    rfl
  | cons handler handlers =>
    unfold BlockingQueue.popFront
    rw [hqueue]
    obtain ⟨c⟩ := handler
    dsimp only
    have hmem : .accepted c ∈ w.handlersAt loop := by
      unfold handlersAt
      rw [hqueue]
      exact List.mem_cons_self
    have honce := h.once loop
    unfold handlersAt at honce
    rw [hqueue] at honce
    have hlt := lt_of_handler hmem
    obtain ⟨conn, hconn, hloop, hunknown⟩ := h.handlers loop c hmem
    have h1 : Placed (w.onLoop loop fun loop => { loop with
        equeue_ := { loop.equeue_ with eventHandlers_ := { queue_ := handlers } } }) := by
      refine h.onLoop_ok hlt (fun c' hc' => ?_) honce.of_cons (h.channels loop) (h.timers loop)
      refine h.handlers loop c' ?_
      unfold handlersAt
      rw [hqueue]
      exact List.mem_cons_of_mem _ hc'
    have hnone : ∀ i, .accepted c ∉ (w.onLoop loop fun loop => { loop with
        equeue_ := { loop.equeue_ with eventHandlers_ := { queue_ := handlers } } }).handlersAt i := by
      intro i hi
      unfold handlersAt at hi
      rw [loopAt_onLoop w hlt] at hi
      split at hi
      · exact (List.nodup_cons.mp honce).1 hi
      · next hne =>
        obtain ⟨conn', hconn', hloop', -⟩ := h.handlers i c hi
        rw [hconn] at hconn'
        cases hconn'
        exact hne (hloop.symm.trans hloop')
    have hrun := h1.runAccepted_ok hconn hloop hunknown hnone ops
    refine hrun.imp_ok fun w' _ h' => ⟨h'.placed, h'.assigned, h'.back, fun c' hc' => ?_, h'.registered⟩
    rcases h'.timed c' hc' with hc' | hc'
    · rw [timed_eq (tqueue_onLoop w hlt (fun loop => { loop with
        equeue_ := { loop.equeue_ with eventHandlers_ := { queue_ := handlers } } }) (fun _ => rfl)
        serverLoop) rfl] at hc'
      exact .inl hc'
    · exact .inr hc'

/-- The poller of a loop reports an event. -/
theorem Placed.channel_ok (h : Placed w) (loop c : Nat) (callback : ConnCallback) (ops : List ConnOp) :
    Guarantees (Stepped w (GroupEvent.channel loop c callback ops).registered)
      (w.step (.channel loop c callback ops)) := by
  rw [step]
  refine Guarantees.guard fun hguard => ?_
  obtain ⟨hmem, hcallback⟩ := hguard
  obtain ⟨hassigned, hknown⟩ := h.channels loop c hmem
  have hother : (GroupCall.mk loop c callback).isTimer = false := by
    simp only [List.mem_cons, List.not_mem_nil, or_false] at hcallback
    rcases hcallback with rfl | rfl | rfl <;> rfl
  have h1 : Placed (w.call loop c callback) := h.call_ok (by rw [hother]; exact hassigned)
  unfold handleEvent
  refine (h1.runOps_ok ops).bind fun w1 hw1 => ?_
  have hstepped : Stepped w (GroupEvent.channel loop c callback ops).registered w1 := by
    refine hw1.stepped (fun _ => rfl) fun c' hc' => ?_
    rw [timed_call hother] at hc'
    exact hc'
  split
  · -- the server destroys a connection that has an error
    obtain ⟨conn, hconn, hconnKnown⟩ := hw1.known c hknown
    unfold connAt
    rw [readAt_eq_ok.mpr hconn, ok_bind]
    have hdestroy := hw1.trans (hw1.placed.destroy_ok hconn hconnKnown)
    rw [List.append_nil] at hdestroy
    refine hdestroy.stepped (fun _ => rfl) fun c' hc' => ?_
    rw [timed_call hother] at hc'
    exact hc'
  · exact hstepped

/-- A timer is taken from the queue before its handler is called. -/
theorem Placed.takeTimer (h : Placed w) (timer : ConnTimer) :
    Placed (w.onLoop serverLoop fun loop => { loop with tqueue_ := loop.tqueue_.erase timer }) :=
  h.onLoop_ok h.serverLoop_lt (h.handlers _) (h.once _) (h.channels _) fun t ht =>
    h.timers serverLoop t (List.mem_of_mem_erase ht)

theorem Placed.tqueue_takeTimer (h : Placed w) {timer : ConnTimer} :
    ((w.onLoop serverLoop fun loop =>
      { loop with tqueue_ := loop.tqueue_.erase timer }).loopAt serverLoop).tqueue_ =
      (w.loopAt serverLoop).tqueue_.erase timer := by
  rw [loopAt_onLoop w h.serverLoop_lt, if_pos rfl]

/-- The queue has the timer that it came to again if it is a periodic one. -/
theorem Placed.requeue (h : Placed w) {timer : ConnTimer} (hmem : timer ∈ (w.loopAt serverLoop).tqueue_) :
    ∃ w2 : GroupWorld,
      (if timer.every = true then
        (w.onLoop serverLoop fun loop => { loop with tqueue_ := loop.tqueue_.erase timer }).onLoop
          serverLoop fun loop => loop.insert timer
      else w.onLoop serverLoop fun loop => { loop with tqueue_ := loop.tqueue_.erase timer }) = w2 ∧
      Placed w2 ∧ (∀ c, w2.assigned c = w.assigned c) ∧
      (∀ t ∈ (w2.loopAt serverLoop).tqueue_, t ∈ (w.loopAt serverLoop).tqueue_) ∧
      w2.calls = w.calls := by
  have h1 := h.takeTimer timer
  refine ⟨_, rfl, ?_⟩
  split
  · have htqueue : ∀ t ∈ (w.loopAt serverLoop).tqueue_.erase timer ++ [timer],
        t ∈ (w.loopAt serverLoop).tqueue_ := by
      intro t ht
      rcases List.mem_append.mp ht with ht | ht
      · exact List.mem_of_mem_erase ht
      · rw [List.mem_singleton.mp ht]
        exact hmem
    refine ⟨?_, fun _ => rfl, ?_, rfl⟩
    · refine h1.onLoop_ok h1.serverLoop_lt (h1.handlers _) (h1.once _) (h1.channels _) fun t ht => ?_
      unfold EventLoop.insert at ht
      dsimp only at ht
      rw [h.tqueue_takeTimer] at ht
      exact h.timers serverLoop t (htqueue t ht)
    · intro t ht
      rw [loopAt_onLoop _ h1.serverLoop_lt, if_pos rfl] at ht
      unfold EventLoop.insert at ht
      dsimp only at ht
      rw [h.tqueue_takeTimer] at ht
      exact htqueue t ht
  · refine ⟨h1, fun _ => rfl, fun t ht => ?_, rfl⟩
    rw [h.tqueue_takeTimer] at ht
    exact List.mem_of_mem_erase ht

/-- The timer queue of a loop comes to a timer. -/
theorem Placed.timeout_ok (h : Placed w) (loop : Nat) (timer : ConnTimer) (ops : List ConnOp) :
    Guarantees (Stepped w (GroupEvent.timeout loop timer ops).registered)
      (w.step (.timeout loop timer ops)) := by
  rw [step]
  refine Guarantees.guard fun hmem => ?_
  obtain ⟨rfl, hsome⟩ := h.timers loop timer hmem
  obtain ⟨i, hassigned⟩ := Option.isSome_iff_exists.mp hsome
  obtain ⟨conn, hconn, -⟩ := assigned_iff.mp hassigned
  have hqueued : ∀ {t : ConnTimer}, t ∈ (w.loopAt serverLoop).tqueue_ → t.owner ∈ w.timed := fun ht =>
    List.mem_append_left _ (List.mem_map_of_mem ht)
  have hcalled : ∀ {c : Nat}, c ∈ (w.calls.filter GroupCall.isTimer).map GroupCall.conn → c ∈ w.timed :=
    fun hc => List.mem_append_right _ hc
  unfold handleTimeout connAt
  rw [readAt_eq_ok.mpr hconn, ok_bind]
  dsimp only
  split
  · -- the queue has the timer again if it is a periodic one
    obtain ⟨w2, hw2, h2, hassigned2, hqueue2, hcalls2⟩ := h.requeue hmem
    rw [hw2]
    have h3 : Placed (w2.call serverLoop timer.owner (.timer timer.id)) := h2.call_ok rfl
    refine (h3.runOps_ok ops).imp_ok fun w' _ h' => h'.stepped hassigned2 fun c hc => ?_
    have hc : c ∈ (w2.loopAt serverLoop).tqueue_.map ConnTimer.owner ++
        ((w2.calls ++ [GroupCall.mk serverLoop timer.owner (.timer timer.id)]).filter
          GroupCall.isTimer).map GroupCall.conn := hc
    rw [hcalls2, List.filter_append, List.map_append] at hc
    rcases List.mem_append.mp hc with hc | hc
    · obtain ⟨t, ht, rfl⟩ := List.mem_map.mp hc
      exact hqueued (hqueue2 t ht)
    · rcases List.mem_append.mp hc with hc | hc
      · exact hcalled hc
      · rw [List.mem_singleton.mp hc]
        exact hqueued hmem
  · -- the holder was dropped, and no handler is called
    refine Guarantees.guard fun hnil => ?_
    subst hnil
    refine (Grown.refl (h.takeTimer timer)).stepped (fun _ => rfl) fun c hc => ?_
    unfold timed at hc
    rw [h.tqueue_takeTimer] at hc
    rcases List.mem_append.mp hc with hc | hc
    · obtain ⟨t, ht, rfl⟩ := List.mem_map.mp hc
      exact hqueued (List.mem_of_mem_erase ht)
    · exact hcalled hc

/-! ## Runs -/

/-- **What an event does to the places of connections and timers.** -/
theorem Placed.step_ok (h : Placed w) (e : GroupEvent) :
    Guarantees (Stepped w e.registered) (w.step e) := by
  cases e with
  | accept fds => exact h.handleAcceptEvent_ok fds
  | handler loop ops => exact h.handler_ok loop ops
  | channel loop c callback ops => exact h.channel_ok loop c callback ops
  | timeout loop timer ops => exact h.timeout_ok loop timer ops

theorem loopAt_started (n : Nat) (acceptorCallback_ : Bool) (i : Nat) :
    (started n acceptorCallback_).loopAt i = EventLoop.new := by
  unfold loopAt
  rw [List.getD_eq_getElem?_getD]
  show ((List.replicate (n + 1) EventLoop.new)[i]?).getD EventLoop.new = _
  rw [List.getElem?_replicate]
  split <;> rfl

theorem placed_started (n : Nat) (acceptorCallback_ : Bool) : Placed (started n acceptorCallback_) where
  length := List.length_replicate
  conns := nofun
  handlers := fun i c hc => by
    unfold handlersAt at hc
    rw [loopAt_started] at hc
    exact absurd hc List.not_mem_nil
  once := fun i => by
    unfold handlersAt
    rw [loopAt_started]
    exact List.nodup_nil
  channels := fun i c hc => by
    rw [loopAt_started] at hc
    exact absurd hc List.not_mem_nil
  timers := fun i timer htimer => by
    rw [loopAt_started] at htimer
    exact absurd htimer List.not_mem_nil
  calls := fun _ hcall => absurd hcall List.not_mem_nil

theorem confined_started (n : Nat) (acceptorCallback_ : Bool) :
    Confined (started n acceptorCallback_) := by
  rw [(placed_started n acceptorCallback_).confined_iff]
  intro c hc
  unfold timed at hc
  rw [loopAt_started] at hc
  exact absurd hc List.not_mem_nil

/-- The timers that the event registers are of connections that belong to the loop of the server. -/
def TimersAtHome (w : GroupWorld) (e : GroupEvent) : Prop :=
  ∀ c ∈ e.registered, w.assigned c = some serverLoop

/--
**Loop confinement.** In every run of a group with any number of worker loops, all callbacks of all
connections run on the loops that the connections belong to, exactly if timers are registered only
through connections that belong to the loop of the server.
-/
theorem loops_confined_iff (n : Nat) (acceptorCallback_ : Bool) (es : List GroupEvent) :
    Guarantees (fun _ => (∀ es' t, es' <+: es → run step (started n acceptorCallback_) es' = .ok t →
        Confined t) ↔ Along step TimersAtHome (started n acceptorCallback_) es)
      (run step (started n acceptorCallback_) es) := by
  have hstart := placed_started n acceptorCallback_
  refine (run_guarantees (C := fun _ => True) (I := Placed)
    (fun w e h _ => (h.step_ok e).imp_ok fun _ _ h' => h'.placed) hstart fun _ _ => trivial).imp_ok
    fun w hrun _ => ?_
  refine (along_iff_invariant_of (B := Placed) (fun w e w' h hstep => ?_)
    (fun w e w' h hconf hstep => ?_) hstart (confined_started n acceptorCallback_) hrun).symm
  · exact ((h.step_ok e).of_ok hstep).placed
  · exact ((h.step_ok e).of_ok hstep).confined_iff h hconf

/--
A timer of a connection that belongs to the worker loop 1 is in the timer queue of loop 0, and its
handler runs there.
-/
theorem timer_elsewhere : ∃ w,
    run step (started 1 true) [.accept [7], .handler 1 [.runTimer 0 false],
      .timeout 0 { id := 1, owner := 0, every := false } []] = .ok w ∧
      w.calls = [⟨1, 0, .accept⟩, ⟨0, 0, .timer 1⟩] ∧ w.assigned 0 = some 1 ∧ ¬Confined w := by
  have hsees : (run step (started 1 true) [.accept [7], .handler 1 [.runTimer 0 false],
      .timeout 0 { id := 1, owner := 0, every := false } []]).toOption.map
        (fun w => (w.calls, w.assigned 0)) =
      some ([⟨1, 0, .accept⟩, ⟨0, 0, .timer 1⟩], some 1) := by
    decide +kernel
  obtain ⟨w, hrun, heq⟩ := ok_of_toOption_map hsees
  obtain ⟨hcalls, hassigned⟩ := Prod.mk.inj heq
  refine ⟨w, hrun, hcalls, hassigned, fun hconf => ?_⟩
  have hcall := hconf.calls ⟨0, 0, .timer 1⟩ (by rw [hcalls]; simp)
  rw [hassigned] at hcall
  cases hcall

end GroupWorld

end Liby
