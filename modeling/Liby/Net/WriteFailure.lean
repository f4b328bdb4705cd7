import Liby.Net.WritePath
import Liby.Net.WriteSteps

/-!
# The write path on a socket that fails

`writev` and `sendfile` may answer anything: an error, or 0, destroys the connection after its error
callback. What the kernel has accepted by then is the start of what was sent, and the handlers that have run
are those of the payloads that it accepted as a whole.
-/

namespace Liby

open Infra Outbox

variable {σ H : Type _} {cb : Callbacks σ H} {l l' : Link σ H}

/-- Calls of an error callback: some send, and after them it may destroy the connection. -/
def ConnCall.EndsOpen (xs : List (ConnCall H)) : Prop :=
  ∃ ys zs, xs = ys ++ zs ∧ (∀ y ∈ ys, y.Sends) ∧ ∀ z ∈ zs, z = .destroy

/-- How often some calls put off `destroy`. -/
def ConnCall.totalTicks (xs : List (ConnCall H)) : Nat := (xs.map ConnCall.ticks).sum

/--
What the user's state is after an error: `K`, if it was `J` before. `called` tells whether there is an
error callback.
-/
def Callbacks.Fails (cb : Callbacks σ H) (called : Bool) (J K : History σ H) : Prop :=
  ∀ w sent ran ticks, J w sent ran ticks →
    if called then
      ConnCall.EndsOpen (cb.onErro w).2 ∧
      K (cb.onErro w).1 (sent ++ (cb.onErro w).2.flatMap ConnCall.messages) ran
        (ticks + ConnCall.totalTicks (cb.onErro w).2)
    else K w sent ran ticks

namespace Connection

/-- The error callback is there, or is not, as long as the connection is not destroyed. -/
def Announces (c : Connection H) (called : Bool) : Prop :=
  c.destroy_ = false → c.erroEventCallback_ = called

variable {c : Connection H} {called : Bool}

theorem Announces.destroy (h : c.Announces called) : c.destroy.Announces called := by
  unfold Connection.destroy
  split
  · exact h
  · exact nofun

theorem Announces.call (h : c.Announces called) {c' : Connection H} {x : ConnCall H}
    (hc : c.call x = .ok c') : c'.Announces called := by
  rcases call_cases hc with ⟨ch, t, -, -, rfl⟩ | ⟨-, ⟨ch, flag, -, rfl⟩ | rfl | rfl | rfl⟩
  · exact h
  · exact h
  · exact h
  · exact h.destroy
  · exact h

theorem destroy_of_alive (h : c.destroy_ = false) : c.destroy = { c with
    destroy_ := true, chan_ := none, socket_ := false, writTasks_ := []
    erroEventCallback_ := false, readEventCallback_ := false, self_ := false } := by
  unfold destroy
  rw [if_neg (by rw [h]; exact Bool.false_ne_true)]

theorem destroy_destroy (c : Connection H) : c.destroy.destroy = c.destroy := by
  rw [destroy, if_pos (destroy_destroyed c)]

end Connection

namespace Link

variable {J K : History σ H} {called : Bool} {first : IoTask H} {tasks : List (IoTask H)}

theorem steady_announces (called : Bool) : Steady cb fun l => l.conn.Announces called :=
  steady_of_conn (P := fun c => c.Announces called) (fun _ h hc => h.call hc) (fun h => h.destroy)
    (fun h _ => h) fun h _ _ => h

theorem announces_calls {xs : List (ConnCall H)} {l l' : Link σ H} (h : l.conn.Announces called)
    (hl : l.calls xs = .ok l') : l'.conn.Announces called := by
  refine calls_keep (I := fun l => l.conn.Announces called) (fun _ hl1 hcall => ?_) h hl
  obtain ⟨c, hc, hcall⟩ := bind_eq_ok.mp hcall
  cases hcall
  exact hl1.call hc

/-- Calls one after the other, in two parts. -/
theorem calls_split : ∀ (ys zs : List (ConnCall H)) (l : Link σ H),
    l.calls (ys ++ zs) = (l.calls ys >>= fun l' => l'.calls zs)
  | [], _, _ => rfl
  | y :: ys, zs, l => by
    rw [List.cons_append, calls, calls]
    cases l.call y with
    | error f => rfl
    | ok l' => exact calls_split ys zs l'

/-- Calls of `destroy` on a connection that is destroyed in any case. -/
theorem calls_destroy : ∀ {zs : List (ConnCall H)} {l : Link σ H}, (∀ z ∈ zs, z = .destroy) →
    ∃ l', l.calls zs = .ok l' ∧ l'.conn.destroy = l.conn.destroy ∧ l'.sent = l.sent ∧
      l'.wire = l.wire ∧ l'.ran = l.ran ∧ l'.world = l.world
  | [], l, _ => ⟨l, rfl, rfl, rfl, rfl, rfl, rfl⟩
  | z :: zs, l, hz => by
    rw [hz z List.mem_cons_self]
    obtain ⟨l', hl', hconn, hsent, hrest⟩ := calls_destroy (l := { l with
      conn := l.conn.destroy, sent := l.sent ++ [] }) fun z' hz' => hz z' (List.mem_cons_of_mem z hz')
    refine ⟨l', hl', ?_, ?_, hrest⟩
    · rw [hconn, Connection.destroy_destroy]
    · rw [hsent]
      exact List.append_nil _

/-- A connection that is destroyed, with the start of what was sent on the wire. -/
structure Broken (K : History σ H) (l : Link σ H) : Prop where
  destroyed : l.conn.destroy_ = true
  chan : l.conn.chan_ = none
  empty : l.conn.writTasks_ = []
  user : K l.world l.sent l.ran l.conn.nextTicks
  wire : l.wire <+: stream l.sent
  ran : l.ran = (completed l.wire.length l.sent).filterMap Message.tag

/-- The connection goes on, or has failed. -/
def Survives (called : Bool) (J K : History σ H) (l : Link σ H) : Prop :=
  (Delivered J l ∧ l.conn.Announces called) ∨ Broken K l

/-- What was sent before the connection goes stays as it is. -/
theorem Delivered.destroyed (h : Delivered J l) (hK : K l.world l.sent l.ran l.conn.nextTicks) :
    Broken K { l with conn := l.conn.destroy } := by
  obtain ⟨done, hflow⟩ := id h
  obtain ⟨hstream, hran, -⟩ := h.result
  rw [Connection.destroy_of_alive hflow.isOpen.alive]
  exact ⟨rfl, rfl, rfl, hK, ⟨_, hstream⟩, hran⟩

/-- Calls that send, from a callback. -/
theorem Delivered.calls_delivered (h : Delivered J l) {ys : List (ConnCall H)} (hys : ∀ y ∈ ys, y.Sends)
    (w : σ) {L : History σ H}
    (hL : L w (l.sent ++ ys.flatMap ConnCall.messages) l.ran (l.conn.nextTicks + ConnCall.totalTicks ys)) :
    ∃ l', ({ l with world := w } : Link σ H).calls ys = .ok l' ∧ Delivered L l' ∧ l'.world = w ∧
      l'.sent = l.sent ++ ys.flatMap ConnCall.messages ∧ l'.ran = l.ran ∧
      l'.conn.nextTicks = l.conn.nextTicks + ConnCall.totalTicks ys := by
  obtain ⟨done, hopen, -, hran, wire, hwire, hcut⟩ := h
  obtain ⟨l', hl', hopen', htasks, hsent, hwire', hran', hworld, hticks⟩ :=
    calls_ok (l := { l with world := w }) hopen hys
  refine ⟨l', hl', ⟨done, hopen', ?_, hran'.trans hran, wire, hwire'.trans hwire, ?_⟩, hworld, hsent,
    hran', hticks⟩
  · rw [hworld, hsent, hran', hticks]
    exact hL
  · rw [hsent, htasks, List.map_append, ← ConnCall.flatMap_tasks]
    refine hcut.push fun m hm => ?_
    obtain ⟨t, ht, rfl⟩ := List.mem_map.mp hm
    exact (hopen'.tasks t (by rw [htasks]; exact List.mem_append_right _ ht)).remaining_ne

theorem flatMap_destroy {zs : List (ConnCall H)} (h : ∀ z ∈ zs, z = .destroy) :
    zs.flatMap ConnCall.messages = [] ∧ ConnCall.totalTicks zs = 0 := by
  constructor
  · refine List.flatMap_eq_nil_iff.mpr fun z hz => ?_
    rw [h z hz]
    rfl
  · refine List.sum_eq_zero_iff_forall_eq_nat.mpr fun n hn => ?_
    obtain ⟨z, hz, rfl⟩ := List.mem_map.mp hn
    rw [h z hz]
    rfl

/-- **After an error the connection is destroyed, with the start of what was sent on the wire.** -/
theorem Delivered.handleErroEvent_ok (h : Delivered J l) (hcalled : l.conn.Announces called)
    (hcb : cb.Fails called J K) : ∃ l', l.handleErroEvent cb = .ok l' ∧ Broken K l' := by
  obtain ⟨done, hflow⟩ := id h
  have hfails := hcb l.world l.sent l.ran l.conn.nextTicks hflow.user
  have hcallback := hcalled hflow.isOpen.alive
  unfold handleErroEvent
  dsimp only
  rw [hcallback]
  cases called with
  | false =>
    rw [if_neg Bool.false_ne_true, pure_eq_ok, ok_bind]
    exact ⟨_, rfl, h.destroyed hfails⟩
  | true =>
    obtain ⟨⟨ys, zs, hxs, hys, hzs⟩, hK⟩ := hfails
    obtain ⟨hnone, hticks⟩ := flatMap_destroy hzs
    rw [hxs, List.flatMap_append, hnone, List.append_nil] at hK
    have htotal : ConnCall.totalTicks (ys ++ zs) = ConnCall.totalTicks ys := by
      unfold ConnCall.totalTicks at hticks ⊢
      rw [List.map_append, List.sum_append, hticks, Nat.add_zero]
    rw [htotal] at hK
    obtain ⟨l1, hl1, hd1, hworld1, hsent1, hran1, hticks1⟩ := h.calls_delivered hys _ hK
    obtain ⟨l2, hl2, hconn2, hsent2, hwire2, hran2, hworld2⟩ := calls_destroy (l := l1) hzs
    have hcalls : ({ l with world := (cb.onErro l.world).1 } : Link σ H).calls (ys ++ zs) = .ok l2 := by
      rw [calls_split, hl1, ok_bind, hl2]
    rw [if_pos rfl, hxs, hcalls, ok_bind]
    refine ⟨_, rfl, ?_⟩
    have hbroken := hd1.destroyed (K := K) (by rw [hworld1, hsent1, hran1, hticks1]; exact hK)
    rw [hconn2, hsent2, hwire2, hran2, hworld2]
    exact hbroken


/-- An answer that is an error ends the event with the connection destroyed. -/
theorem Delivered.writPass_broken (h : Delivered J l) (hcalled : l.conn.Announces called)
    (hfails : cb.Fails called J K) (htasks : l.conn.writTasks_ = first :: tasks) {a : WriteAnswer}
    (ha : ¬a.Sound) :
    Guarantees (fun pass => ∃ l', pass = .done l' ∧ Broken K l') (l.writPass cb first a) := by
  obtain ⟨done, hflow⟩ := id h
  obtain ⟨l', hl', hbroken⟩ := h.handleErroEvent_ok hcalled hfails
  have hend : Guarantees (fun pass => ∃ l', pass = .done l' ∧ Broken K l') (do
      let l ← l.handleErroEvent cb
      return (.done l : Pass (Link σ H) (Link σ H))) := by
    rw [hl', ok_bind]
    exact ⟨l', rfl, hbroken⟩
  unfold writPass
  cases hfp : first.fp_ with
  | some fp =>
    dsimp only
    unfold filePass
    rw [guardOr_pos hflow.isOpen.socket, ok_bind]
    cases a with
    | again => exact absurd trivial ha
    | failed => exact hend
    | accepted ret =>
      have hzero : ret = 0 := Nat.eq_zero_of_not_pos ha
      refine Guarantees.guard fun _ => ?_
      rw [if_pos hzero]
      exact hend
  | none =>
    have hheld : ∀ t ∈ l.conn.writTasks_, t.Held := fun t ht => (hflow.isOpen.tasks t ht).held
    obtain ⟨n, -, hgather, -, hne⟩ := gather_front hheld htasks hfp
    dsimp only
    unfold bufferPass
    rw [hgather, ok_bind, guardOr_pos hne, ok_bind, guardOr_pos hflow.isOpen.socket, ok_bind]
    cases a with
    | again => exact absurd trivial ha
    | failed => exact hend
    | accepted ret =>
      have hzero : ret = 0 := Nat.eq_zero_of_not_pos ha
      refine Guarantees.guard fun _ => ?_
      rw [if_pos hzero]
      exact hend

/-- There is nothing left to write on a connection that has failed. -/
theorem Broken.handleWritEvent_eq (h : Broken K l) (as : List WriteAnswer) :
    l.handleWritEvent cb as = .ok l := by
  unfold handleWritEvent
  dsimp only
  rw [if_pos h.destroyed, pure_eq_ok, ok_bind]
  exact writLoop_empty as h.empty

/-- **Whatever the kernel answers, a pass keeps the stream or ends the connection.** -/
theorem Survives.writPass_ok (h : Survives called J K l) (hcb : cb.Keeps J)
    (hfails : cb.Fails called J K) (htasks : l.conn.writTasks_ = first :: tasks) (a : WriteAnswer) :
    Guarantees (fun pass => Survives called J K pass.out) (l.writPass cb first a) := by
  rcases h with ⟨hdelivered, hcalled⟩ | hbroken
  · by_cases ha : a.Sound
    · refine (hdelivered.writPass_ok hcb htasks ha).imp_ok fun pass hpass hout => .inl ⟨hout, ?_⟩
      exact (steady_announces called).writPass hcalled htasks hpass
    · refine (hdelivered.writPass_broken hcalled hfails htasks ha).imp_ok fun pass _ hout => ?_
      obtain ⟨l', rfl, hbroken⟩ := hout
      exact .inr hbroken
  · rw [hbroken.empty] at htasks
    cases htasks

theorem Survives.handleWritEvent_ok (h : Survives called J K l) (hcb : cb.Keeps J)
    (hfails : cb.Fails called J K) (as : List WriteAnswer) :
    Guarantees (Survives called J K) (l.handleWritEvent cb as) := by
  rcases h with ⟨hdelivered, hcalled⟩ | hbroken
  · by_cases hempty : l.conn.writTasks_ = []
    · -- the interest goes off, and the kernel is not called
      have hidle : Guarantees (Delivered J) (l.handleWritEvent cb []) :=
        hdelivered.handleWritEvent_ok hcb nofun
      obtain ⟨done, hflow⟩ := hdelivered
      obtain ⟨ch, hch, -⟩ := hflow.isOpen.interest
      rw [handleWritEvent_idle hflow.isOpen.alive hempty hch] at hidle ⊢
      exact .inl ⟨hidle, hcalled⟩
    · rw [handleWritEvent_of_ne hempty]
      exact writLoop_guarantees (A := fun _ => True)
        (fun hl htasks _ => hl.writPass_ok hcb hfails htasks _) (.inl ⟨hdelivered, hcalled⟩)
        fun _ _ => trivial
  · rw [hbroken.handleWritEvent_eq]
    exact .inr hbroken

/-! ## Runs -/

/-- A call that sends, on a connection that is not destroyed, or a write event with any answers. -/
def Uses (l : Link σ H) : Event H → Prop
  | .call x => l.conn.destroy_ = false ∧ x.Sends
  | .writ _ => True

/-- After an error there is nothing that the user's state has to satisfy. -/
theorem fails_of_endsOpen (h : ∀ w, ConnCall.EndsOpen (cb.onErro w).2) (called : Bool) :
    cb.Fails called (fun _ _ _ _ => True) fun _ _ _ _ => True := by
  intro w _ _ _ _
  cases called with
  | false => exact trivial
  | true => exact ⟨h w, trivial⟩

theorem Survives.step_ok (h : Survives called (fun _ _ _ _ => True) (fun _ _ _ _ => True) l)
    (hcb : cb.HandlersSend) (hends : ∀ w, ConnCall.EndsOpen (cb.onErro w).2) {e : Event H}
    (he : Uses l e) :
    Guarantees (Survives called (fun _ _ _ _ => True) fun _ _ _ _ => True) (l.step cb e) := by
  cases e with
  | writ as => exact h.handleWritEvent_ok hcb.keeps (fails_of_endsOpen hends called) as
  | call x =>
    obtain ⟨halive, hx⟩ := he
    rcases h with ⟨hdelivered, hcalled⟩ | hbroken
    · obtain ⟨l', hl', hdelivered', -⟩ :=
        hdelivered.call_ok hx (K := fun _ _ _ _ => True) trivial
      show Guarantees _ (l.call x)
      rw [hl']
      obtain ⟨c, hc, h⟩ := bind_eq_ok.mp hl'
      cases h
      exact .inl ⟨hdelivered', hcalled.call hc⟩
    · rw [hbroken.destroyed] at halive
      cases halive

/-- What is on the wire, the handlers, and what is left. -/
theorem Survives.result (h : Survives called J K l) :
    l.wire <+: stream l.sent ∧ l.ran = (completed l.wire.length l.sent).filterMap Message.tag ∧
    (l.conn.destroy_ = false →
      l.wire ++ (l.conn.writTasks_.map IoTask.remaining).flatten = stream l.sent) := by
  rcases h with ⟨hdelivered, -⟩ | hbroken
  · obtain ⟨hstream, hran, -⟩ := hdelivered.result
    exact ⟨⟨_, hstream⟩, hran, fun _ => hstream⟩
  · refine ⟨hbroken.wire, hbroken.ran, fun halive => ?_⟩
    rw [hbroken.destroyed] at halive
    cases halive

/-- The connection goes on or has failed, after any calls and write events. -/
theorem run_survives (hcb : cb.HandlersSend) (hends : ∀ w, ConnCall.EndsOpen (cb.onErro w).2)
    {conn : Connection H} (world : σ) (hopen : conn.Open) (hempty : conn.writTasks_ = [])
    {es : List (Event H)} (hes : Along (step cb) Uses (start conn world) es) :
    Guarantees (Survives conn.erroEventCallback_ (fun _ _ _ _ => True) fun _ _ _ _ => True)
      (run (step cb) (start conn world) es) := by
  have hstart : Delivered (fun _ _ _ _ => True) (start conn world) := by
    refine ⟨[], hopen, trivial, rfl, [], rfl, ?_⟩
    show Cut [] [] [] (conn.writTasks_.map IoTask.message)
    rw [hempty]
    exact cut_nil
  exact run_guarantees_along (fun _ _ h he => h.step_ok hcb hends he) (.inl ⟨hstart, fun _ => rfl⟩) hes

/--
**Whatever the kernel answers, the wire has the start of what was sent.** In every run of calls that send
something, made while the connection is not destroyed, and of write events with any answers, errors and 0
among them, the bytes that the kernel has accepted are the start of the payloads in the order of the calls,
and the handlers that have run are those of the payloads that were accepted as a whole, once each and in
order. While the connection is not destroyed, the rest is in `writTasks_`. No step of such a run faults.
-/
theorem write_path_survives (hcb : cb.HandlersSend) (hends : ∀ w, ConnCall.EndsOpen (cb.onErro w).2)
    (conn : Connection H) (world : σ) (hopen : conn.Open) (hempty : conn.writTasks_ = [])
    (es : List (Event H)) (hes : Along (step cb) Uses (start conn world) es) :
    (∀ l, run (step cb) (start conn world) es = .ok l →
      l.wire <+: stream l.sent ∧ l.ran = (completed l.wire.length l.sent).filterMap Message.tag ∧
      (l.conn.destroy_ = false →
        l.wire ++ (l.conn.writTasks_.map IoTask.remaining).flatten = stream l.sent)) ∧
    ∀ f, run (step cb) (start conn world) es = .error f → f = .environment := by
  have hrun := run_survives hcb hends world hopen hempty hes
  constructor
  · intro l hl
    rw [hl] at hrun
    exact hrun.result
  · intro f hf
    rw [hf] at hrun
    exact hrun

/-- A user whose error callback sends a byte and destroys the connection. -/
def sendsLast : Callbacks Unit Bool where
  complete := fun w _ => (w, [])
  onErro := fun w => (w, [.send (str "x") (some false), .destroy])

theorem write_path_survives_error :
    let es : List (Event Bool) :=
      [.call (.sendString (str "ab") (some true)), .call (.send (str "cd") (some false)),
        .writ [.accepted 3], .writ [.failed], .writ [.accepted 1]]
    ∃ l, run (step sendsLast) (start .accepted ()) es = .ok l ∧
      (l.wire = str "abc" ∧ l.ran = [true] ∧ l.sent.length = 3) ∧
      l.wire <+: stream l.sent ∧ l.ran = (completed l.wire.length l.sent).filterMap Message.tag := by
  intro es
  have hends : ∀ w, ConnCall.EndsOpen (sendsLast.onErro w).2 := by
    refine fun _ => ⟨[.send (str "x") (some false)], [.destroy], rfl, ?_, ?_⟩
    · exact List.forall_mem_singleton.mpr (show str "x" ≠ [] by decide)
    · exact List.forall_mem_singleton.mpr rfl
  have hes : Along (step sendsLast) Uses (start .accepted ()) es := by
    refine ⟨⟨rfl, show str "ab" ≠ [] by decide⟩, fun l hl => ?_⟩
    cases hl
    refine ⟨⟨rfl, show str "cd" ≠ [] by decide⟩, fun _ _ => ?_⟩
    exact ⟨trivial, fun _ _ => ⟨trivial, fun _ _ => ⟨trivial, fun _ _ => trivial⟩⟩⟩
  have hsends : sendsLast.HandlersSend := fun _ _ _ hx => absurd hx List.not_mem_nil
  have hresult := write_path_survives hsends hends .accepted () Connection.open_accepted rfl es hes
  have hrun : (run (step sendsLast) (start .accepted ()) es).map
      (fun l => (l.wire, l.ran, l.sent.length)) = .ok (str "abc", [true], 3) := by decide +kernel
  cases hl : run (step sendsLast) (start .accepted ()) es with
  | error f => rw [hl] at hrun; cases hrun
  | ok l =>
    rw [hl] at hrun
    obtain ⟨hwire, hran, -⟩ := hresult.1 l hl
    have hrun := Except.ok.inj hrun
    simp only [Prod.mk.injEq] at hrun
    exact ⟨l, rfl, hrun, hwire, hran⟩

end Link

end Liby
