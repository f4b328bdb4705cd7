import Liby.Net.HandlerDestroys
import Liby.Net.WriteFailure

/-!
# Handlers that close the connection

A server that is done with a client gives its last `send` a handler that calls `destroy`. Such a handler
runs when the kernel has accepted the message as a whole, so that the connection is not destroyed before
all that was sent up to there is out. What the same `writev` took of later messages is out too; their
handlers do not run.
-/

namespace Liby

open Infra Outbox

variable {σ H : Type _} {cb : Callbacks σ H}

/-- Is the call `destroy`? -/
def ConnCall.destroys : ConnCall H → Bool
  | .destroy => true
  | _ => false

/-- Completion handlers that send, and may destroy the connection after that. -/
def Callbacks.HandlersEnd (cb : Callbacks σ H) : Prop :=
  ∀ w handler, ConnCall.EndsOpen (cb.complete w handler).2

/-- The same handlers without their calls of `destroy`. -/
def Callbacks.stays (cb : Callbacks σ H) : Callbacks σ H where
  complete := fun w handler => ((cb.complete w handler).1,
    (cb.complete w handler).2.filter fun x => !x.destroys)
  onErro := cb.onErro

namespace ConnCall

theorem Sends.not_destroys {x : ConnCall H} (hx : x.Sends) : x.destroys = false := by
  cases x with
  | destroy => exact absurd hx id
  | _ => rfl

/-- Without `destroy` the calls that send are left. -/
theorem EndsOpen.split {xs : List (ConnCall H)} (h : EndsOpen xs) :
    ∃ zs, xs = (xs.filter fun x => !x.destroys) ++ zs ∧
      (∀ y ∈ xs.filter fun x => !x.destroys, y.Sends) ∧ ∀ z ∈ zs, z = .destroy := by
  obtain ⟨ys, zs, rfl, hys, hzs⟩ := h
  have hfilter : ((ys ++ zs).filter fun x => !x.destroys) = ys := by
    rw [List.filter_append, List.filter_eq_self.mpr fun y hy => by rw [(hys y hy).not_destroys]; rfl,
      List.filter_eq_nil_iff.mpr fun z hz => by rw [hzs z hz]; exact Bool.false_ne_true, List.append_nil]
  rw [hfilter]
  exact ⟨zs, rfl, hys, hzs⟩

end ConnCall

theorem Callbacks.HandlersEnd.stays_send (h : cb.HandlersEnd) : cb.stays.HandlersSend := by
  intro w handler
  obtain ⟨-, -, hsends, -⟩ := (h w handler).split
  exact hsends

namespace Link

variable {l l1 : Link σ H} {J K : History σ H} {called : Bool} {credit : Bytes}
  {done : List (Message UInt8 (Option H))} {first : IoTask H} {tasks : List (IoTask H)} {a : WriteAnswer}

/-- One call of `destroy` or more of them do the same. -/
theorem calls_destroy_eq : ∀ {zs : List (ConnCall H)} (l : Link σ H), zs ≠ [] → (∀ z ∈ zs, z = .destroy) →
    l.calls zs = .ok { l with conn := l.conn.destroy }
  | [], _, hne, _ => absurd rfl hne
  | z :: zs, l, _, hz => by
    have hcall : l.call z = .ok { l with conn := l.conn.destroy } := by
      rw [hz z List.mem_cons_self]
      show Except.ok { l with conn := l.conn.destroy, sent := l.sent ++ [] } = _
      rw [List.append_nil]
    unfold calls
    rw [hcall, ok_bind]
    cases zs with
    | nil => rfl
    | cons z' zs =>
      rw [calls_destroy_eq _ (List.cons_ne_nil z' zs) fun y hy => hz y (List.mem_cons_of_mem z hy)]
      dsimp only
      rw [Connection.destroy_destroy]

/-- **A handler leaves what it leaves without its calls of `destroy`, or that destroyed.** -/
theorem complete_ends {handler : H} (hends : cb.HandlersEnd) (h : l.complete cb.stays handler = .ok l1) :
    l.complete cb handler = .ok l1 ∨
      l.complete cb handler = .ok { l1 with conn := l1.conn.destroy } := by
  obtain ⟨zs, hxs, -, hzs⟩ := (hends l.world handler).split
  have hcalls : ({ l with
      world := (cb.complete l.world handler).1, ran := l.ran ++ [handler] } : Link σ H).calls
      ((cb.complete l.world handler).2.filter fun x => !x.destroys) = .ok l1 := h
  unfold complete
  dsimp only
  rw [hxs, calls_split, hcalls, ok_bind]
  cases zs with
  | nil => exact .inl rfl
  | cons z zs => exact .inr (calls_destroy_eq l1 (List.cons_ne_nil z zs) hzs)

/-- `J` gives `K` once a handler has run. -/
def Seals (J K : History σ H) : Prop :=
  ∀ w sent ran ticks, J w sent ran ticks → ran ≠ [] → K w sent ran ticks

/-- A connection that is destroyed, with all that was sent up to the last handler that has run on the wire. -/
structure Closed (K : History σ H) (l : Link σ H) : Prop where
  destroyed : l.conn.destroy_ = true
  chan : l.conn.chan_ = none
  empty : l.conn.writTasks_ = []
  user : K l.world l.sent l.ran l.conn.nextTicks
  wire : l.wire <+: stream l.sent
  through : ∃ done, done <+: l.sent ∧ l.ran = done.filterMap Message.tag ∧ stream done <+: l.wire

theorem Broken.closed (h : Broken K l) : Closed K l where
  destroyed := h.destroyed
  chan := h.chan
  empty := h.empty
  user := h.user
  wire := h.wire
  through := ⟨_, completed_start _ _, h.ran, stream_completed h.wire⟩

/-- **A task whose bytes are out: it leaves the queue, or its handler closes the connection.** -/
theorem Flow.finishBuffer_ends (h : Flow J l done (first.remaining ++ credit)) (hends : cb.HandlersEnd)
    (hcb : cb.stays.Keeps J) (hseals : Seals J K) (htasks : l.conn.writTasks_ = first :: tasks)
    (hcredit : credit <+: stream (tasks.map IoTask.message)) :
    (∃ l' done' new, l.finishBuffer cb first = .ok (.next l') ∧ Flow J l' done' credit ∧
      l'.conn.writTasks_ = tasks ++ new) ∨
    ∃ l', l.finishBuffer cb first = .ok (.done l') ∧ Closed K l' := by
  obtain ⟨l', done', new, hfinish, hflow, htasks'⟩ := h.finishBuffer_ok hcb htasks
  cases hh : first.handler_ with
  | none =>
    refine .inl ⟨l', done', new, ?_, hflow, htasks'⟩
    unfold finishBuffer at hfinish ⊢
    rw [hh] at hfinish ⊢
    exact hfinish
  | some handler =>
    obtain ⟨l1, new1, hl1, hopen, htasks1, huser, hran, wire, hwire, hcut⟩ := h.complete_ok hcb htasks hh
    rcases complete_ends hends hl1 with hsame | hclose
    · refine .inl ⟨l', done', new, ?_, hflow, htasks'⟩
      unfold finishBuffer at hfinish ⊢
      rw [hh] at hfinish ⊢
      dsimp only at hfinish ⊢
      rw [hsame]
      rwa [hl1] at hfinish
    · refine .inr ⟨{ l1 with conn := l1.conn.destroy }, ?_, ?_⟩
      · unfold finishBuffer
        rw [hh]
        dsimp only
        rw [hclose, ok_bind, if_pos (Connection.destroy_destroyed _)]
        rfl
      · rw [htasks1, List.map_cons] at hcut
        obtain ⟨out, hpop⟩ := hcut.pop
        obtain ⟨hdone, hstream⟩ := hpop.done_out
        obtain ⟨rest, hrest⟩ := hcredit
        have htotal := hpop.stream_eq
        have hwire1 : l1.wire = wire ++ first.remaining ++ credit := by
          rw [hwire, List.append_assoc]
        rw [Connection.destroy_of_alive hopen.alive]
        refine ⟨rfl, rfl, rfl, hseals _ _ _ _ huser (by rw [hran]; simp), ?_, _, hdone, ?_, ?_⟩
        · show l1.wire <+: stream l1.sent
          rw [hwire1, ← htotal, List.map_append, stream_append, ← hrest]
          refine ⟨rest ++ stream (new1.map IoTask.message), ?_⟩
          simp only [List.append_assoc]
          rfl
        · show l1.ran = _
          rw [hran, List.filterMap_append]
          simp [IoTask.message, hh]
        · show _ <+: l1.wire
          rw [hwire1]
          exact hstream.trans (List.prefix_append _ _)

/-- The accepted bytes are taken off the buffers, or a handler closes the connection. -/
theorem Flow.drain_ends (hends : cb.HandlersEnd) (hcb : cb.stays.Keeps J) (hseals : Seals J K) :
    ∀ {l : Link σ H} {done : List (Message UInt8 (Option H))} (n ret : Nat),
    Flow J l done ((((l.conn.writTasks_.take n).map IoTask.remaining).flatten).take ret) →
    n ≤ l.conn.writTasks_.length → (∀ t ∈ l.conn.writTasks_.take n, t.fp_ = none) →
    ret ≤ (((l.conn.writTasks_.take n).map IoTask.remaining).flatten).length →
    ∃ pass, drain cb n ret l = .ok pass ∧
      (Delivered J pass.out ∨ ∃ l', pass = .done l' ∧ Closed K l')
  | l, done, _, 0, h, _, _, _ => by
    refine ⟨.next l, by unfold drain; rfl, .inl ⟨done, ?_⟩⟩
    rwa [List.take_zero] at h
  | _, _, 0, ret + 1, _, _, _, hret => by simp at hret
  | l, done, n + 1, ret + 1, h, hn, hfp, hret => by
    cases htasks : l.conn.writTasks_ with
    | nil => rw [htasks] at hn; cases hn
    | cons first tasks =>
      have hok := h.isOpen.tasks first (by rw [htasks]; exact List.mem_cons_self)
      rw [htasks] at hn hfp hret h
      rw [List.take_succ_cons, List.map_cons, List.flatten_cons] at hret h
      rw [List.length_append] at hret
      have hnone : first.fp_ = none := hfp first (by simp)
      rcases hok with ⟨hsome, -⟩ | ⟨-, hb, hwf, hne⟩
      · rw [hnone] at hsome
        cases hsome
      · have hrem := IoTask.remaining_buffer hnone hb
        unfold drain
        rw [htasks]
        dsimp only
        rw [hb]
        dsimp only
        rw [hwf.size_eq, ok_bind, ← hrem]
        split
        · next hle =>
          rw [List.take_append, List.take_of_length_le hle] at h
          have hcredit : (((tasks.take n).map IoTask.remaining).flatten).take
              (ret + 1 - first.remaining.length) <+: stream (tasks.map IoTask.message) := by
            refine (List.take_prefix _ _).trans ⟨((tasks.drop n).map IoTask.remaining).flatten, ?_⟩
            rw [← List.flatten_append, ← List.map_append, List.take_append_drop]
            unfold stream
            rw [List.map_map]
            rfl
          rcases h.finishBuffer_ends hends hcb hseals htasks hcredit with
            ⟨l', done', new, hfinish, hflow, htasks'⟩ | ⟨l', hfinish, hclosed⟩
          · -- a handler may have put tasks in, behind those the call was made for
            have htake : l'.conn.writTasks_.take n = tasks.take n := by
              rw [htasks', List.take_append_of_le_length (Nat.le_of_succ_le_succ hn)]
            rw [← htake] at hflow
            obtain ⟨pass, hpass, hout⟩ := hflow.drain_ends hends hcb hseals n (ret + 1 - first.remaining.length)
              (by rw [htasks', List.length_append]; simp only [List.length_cons] at hn; omega)
              (fun t ht => hfp t (by
                rw [htake] at ht
                rw [List.take_succ_cons]
                exact List.mem_cons_of_mem _ ht))
              (by rw [htake]; omega)
            exact ⟨pass, by rw [hfinish, ok_bind]; exact hpass, hout⟩
          · exact ⟨.done l', by rw [hfinish, ok_bind]; rfl, .inr ⟨l', rfl, hclosed⟩⟩
        · next hlt =>
          rw [List.take_append_of_le_length (by omega)] at h
          obtain ⟨rest, hrest, hwf', hcontents, -⟩ := hwf.retrieve_ok (ret + 1)
          refine ⟨_, by rw [hrest]; rfl, .inl ⟨done, ?_⟩⟩
          have hleft : rest.contents ≠ [] := by
            rw [hcontents, ← hrem]
            exact List.ne_nil_of_length_pos (by rw [List.length_drop]; omega)
          refine h.shorten (by omega) htasks (.buffer hnone rfl hwf' hleft) ?_ rfl
          rw [IoTask.remaining_buffer (t := { first with buffer_ := some rest }) hnone rfl, hcontents, hrem]

theorem Delivered.bufferPass_ends (h : Delivered J l) (hends : cb.HandlersEnd) (hcb : cb.stays.Keeps J)
    (hseals : Seals J K) (htasks : l.conn.writTasks_ = first :: tasks) (hnone : first.fp_ = none) (ha : a.Sound) :
    Guarantees (fun pass => Delivered J pass.out ∨ ∃ l', pass = .done l' ∧ Closed K l')
      (l.bufferPass cb a) := by
  obtain ⟨done, hflow⟩ := id h
  obtain ⟨n, hn, hgather, hfp, hne⟩ :=
    gather_front (fun t ht => (hflow.isOpen.tasks t ht).held) htasks hnone
  unfold bufferPass
  rw [hgather, ok_bind, guardOr_pos hne, ok_bind, guardOr_pos hflow.isOpen.socket, ok_bind]
  cases a with
  | again => exact .inl h
  | failed => exact absurd ha id
  | accepted ret =>
    refine Guarantees.guard fun ⟨hle, _, _⟩ => ?_
    rw [if_neg (Nat.pos_iff_ne_zero.mp ha), List.length_map, List.length_take, min_eq_left hn]
    have haccept := hflow.accept ((((l.conn.writTasks_.take n).map IoTask.remaining).flatten).take ret)
    obtain ⟨pass, hpass, hout⟩ := Flow.drain_ends hends hcb hseals n ret haccept hn hfp hle
    rw [hpass]
    exact hout

/-- No handler of a file destroys the connection in the pass. -/
def FileStays (cb : Callbacks σ H) (p : Link σ H × WriteAnswer) : Prop :=
  ∀ l1, FileReturns cb p.1 p.2 l1 → l1.conn.destroy_ = false

/-- With a handler that does not destroy, a pass for a file is the same without `destroy`. -/
theorem Delivered.filePass_stays (h : Delivered J l) (hends : cb.HandlersEnd) (hcb : cb.stays.Keeps J)
    (htasks : l.conn.writTasks_ = first :: tasks) {fp : Bytes} (hfp : first.fp_ = some fp)
    (hstays : FileStays cb (l, a)) : l.filePass cb first fp a = l.filePass cb.stays first fp a := by
  obtain ⟨done, hflow⟩ := h
  have hok := hflow.isOpen.tasks first (by rw [htasks]; exact List.mem_cons_self)
  rcases hok with ⟨hsome, hpos, hrange⟩ | ⟨hnone, -⟩
  · rw [hfp] at hsome
    cases hsome
    unfold filePass
    rw [guardOr_pos hflow.isOpen.socket, ok_bind, ok_bind]
    cases a with
    | again => rfl
    | failed => rfl
    | accepted ret =>
      dsimp only
      by_cases hguard : ret ≤ first.len_ ∧ first.offset_ + ret ≤ fp.length ∧ ret < 2 ^ 31
      · rw [guardOr_pos hguard, ok_bind, ok_bind]
        split
        · rfl
        · next hne =>
          split
          · next heq =>
            subst heq
            refine congrArg (· >>= _) ?_
            unfold finishFile
            cases hh : first.handler_ with
            | none => rfl
            | some handler =>
              have hrem := IoTask.remaining_file hfp
              have haccept : Flow J { l with wire := l.wire ++ first.remaining } done
                  (first.remaining ++ []) := by
                rw [List.append_nil]
                exact hflow.accept _
              obtain ⟨l1, -, hl1, -⟩ := haccept.complete_ok hcb htasks hh
              rw [hrem] at hl1
              dsimp only
              rcases complete_ends hends hl1 with hsame | hclose
              · rw [hsame, hl1]
              · -- the handler would destroy the connection
                have hdestroyed := hstays _ ⟨htasks, hfp, hflow.isOpen.socket, rfl, hpos.ne', hguard.2, hh,
                  hclose⟩
                rw [Connection.destroy_destroyed] at hdestroyed
                cases hdestroyed
          · rfl
      · rw [guardOr_neg hguard]
        rfl
  · rw [hfp] at hnone
    cases hnone

/-- The connection goes on, or is destroyed: by an error, or by a handler. -/
def Ends (called : Bool) (J K : History σ H) (l : Link σ H) : Prop :=
  (Delivered J l ∧ l.conn.Announces called) ∨ Closed K l

/-- **Whatever the kernel answers, a pass keeps the stream or ends the connection.** -/
theorem Ends.writPass_ok (h : Ends called J K l) (hends : cb.HandlersEnd) (hcb : cb.stays.Keeps J)
    (hseals : Seals J K) (hfails : cb.Fails called J K) (htasks : l.conn.writTasks_ = first :: tasks)
    (hstays : FileStays cb (l, a)) :
    Guarantees (fun pass => Ends called J K pass.out) (l.writPass cb first a) := by
  rcases h with ⟨hdelivered, hcalled⟩ | hclosed
  · by_cases ha : a.Sound
    · have hpass : Guarantees (fun pass => Delivered J pass.out ∨ ∃ l', pass = .done l' ∧ Closed K l')
          (l.writPass cb first a) := by
        unfold writPass
        cases hfp : first.fp_ with
        | none => exact hdelivered.bufferPass_ends hends hcb hseals htasks hfp ha
        | some fp =>
          dsimp only
          rw [hdelivered.filePass_stays hends hcb htasks hfp hstays]
          have hstay := hdelivered.writPass_ok hcb htasks ha
          unfold writPass at hstay
          rw [hfp] at hstay
          exact hstay.imp_ok fun _ _ hout => .inl hout
      refine hpass.imp_ok fun pass hrun hout => ?_
      rcases hout with hout | ⟨l', rfl, hclosed⟩
      · exact .inl ⟨hout, (steady_announces called).writPass hcalled htasks hrun⟩
      · exact .inr hclosed
    · refine (hdelivered.writPass_broken hcalled hfails htasks ha).imp_ok fun pass _ hout => ?_
      obtain ⟨l', rfl, hbroken⟩ := hout
      exact .inr hbroken.closed
  · rw [hclosed.empty] at htasks
    cases htasks

/-- There is nothing left to write on a connection that is closed. -/
theorem Closed.handleWritEvent_eq (h : Closed K l) (as : List WriteAnswer) :
    l.handleWritEvent cb as = .ok l := by
  unfold handleWritEvent
  dsimp only
  rw [if_pos h.destroyed, pure_eq_ok, ok_bind]
  exact writLoop_empty as h.empty

theorem Ends.handleWritEvent_ok (h : Ends called J K l) (hends : cb.HandlersEnd) (hcb : cb.stays.Keeps J)
    (hseals : Seals J K) (hfails : cb.Fails called J K) {as : List WriteAnswer}
    (hstays : ∀ p ∈ l.passes cb as, FileStays cb p) :
    Guarantees (Ends called J K) (l.handleWritEvent cb as) := by
  rcases h with ⟨hdelivered, hcalled⟩ | hclosed
  · by_cases hempty : l.conn.writTasks_ = []
    · -- the interest goes off, and the kernel is not called
      have hidle : Guarantees (Delivered J) (l.handleWritEvent cb.stays []) :=
        hdelivered.handleWritEvent_ok hcb nofun
      obtain ⟨done, hflow⟩ := hdelivered
      obtain ⟨ch, hch, -⟩ := hflow.isOpen.interest
      rw [handleWritEvent_idle hflow.isOpen.alive hempty hch] at hidle ⊢
      exact .inl ⟨hidle, hcalled⟩
    · rw [handleWritEvent_of_ne hempty]
      exact writLoop_guarantees (fun hl htasks hp => hl.writPass_ok hends hcb hseals hfails htasks hp)
        (.inl ⟨hdelivered, hcalled⟩) hstays
  · rw [hclosed.handleWritEvent_eq]
    exact .inr hclosed

end Link

/-! ## Connections that send no files -/

/-- Is the call `sendFile`? -/
def ConnCall.sendsFile : ConnCall H → Bool
  | .sendFile _ _ _ _ => true
  | _ => false

/-- Callbacks that send no files. -/
structure Callbacks.NoFiles (cb : Callbacks σ H) : Prop where
  complete : ∀ w handler, ∀ x ∈ (cb.complete w handler).2, x.sendsFile = false
  onErro : ∀ w, ∀ x ∈ (cb.onErro w).2, x.sendsFile = false

namespace Connection

/-- There is no file in the queue. -/
def NoFiles (c : Connection H) : Prop := ∀ t ∈ c.writTasks_, t.fp_ = none

variable {c c' : Connection H}

theorem NoFiles.emplace (h : c.NoFiles) {t : IoTask H} (ht : t.fp_ = none) (hc : c.emplace t = .ok c') :
    c'.NoFiles := by
  obtain ⟨ch, -, rfl⟩ := emplace_eq_ok hc
  intro t' ht'
  rcases List.mem_append.mp ht' with ht' | ht'
  · exact h t' ht'
  · rw [List.mem_singleton.mp ht']
    exact ht

theorem NoFiles.destroy (h : c.NoFiles) : c.destroy.NoFiles := by
  unfold Connection.destroy
  split
  · exact h
  · exact nofun

theorem NoFiles.call (h : c.NoFiles) {x : ConnCall H} (hx : x.sendsFile = false) (hc : c.call x = .ok c') :
    c'.NoFiles := by
  cases x with
  | send base handler => exact h.emplace rfl hc
  | sendBuffer buf handler =>
    obtain ⟨⟨c1, rest⟩, hsent, hc⟩ := bind_eq_ok.mp hc
    obtain ⟨u, -, hsent⟩ := bind_eq_ok.mp hsent
    obtain ⟨c2, hc2, hsent⟩ := bind_eq_ok.mp hsent
    cases hsent
    cases hc
    exact h.emplace rfl hc2
  | sendMoved buf handler => exact h.emplace rfl hc
  | sendCString buf handler => exact h.emplace rfl hc
  | sendString text handler =>
    have hc : c.sendString text handler = .ok c' := hc
    unfold sendString at hc
    split at hc
    · cases hc
      exact h
    · exact h.emplace rfl hc
  | sendFile fp off len handler => cases hx
  | enableRead flag =>
    obtain ⟨ch, -, hc⟩ := bind_eq_ok.mp hc
    cases hc
    exact h
  | destroy =>
    cases hc
    exact h.destroy
  | destroyLater =>
    cases hc
    exact h

theorem NoFiles.popFront (h : c.NoFiles) (hc : c.popFront = .ok c') : c'.NoFiles := by
  unfold Connection.popFront at hc
  split at hc
  · cases hc
  · next first tasks htasks =>
    cases hc
    exact fun t ht => h t (by rw [htasks]; exact List.mem_cons_of_mem first ht)

end Connection

namespace Link

variable {l l' : Link σ H} {first : IoTask H} {tasks : List (IoTask H)} {a : WriteAnswer}
  {as : List WriteAnswer} {pass : Pass (Link σ H) (Link σ H)}

theorem noFiles_calls {xs : List (ConnCall H)} (h : l.conn.NoFiles) (hxs : ∀ x ∈ xs, x.sendsFile = false)
    (hl : l.calls xs = .ok l') : l'.conn.NoFiles := by
  refine calls_keep (I := fun l => l.conn.NoFiles) (fun hx hl1 hcall => ?_) h hl
  obtain ⟨c, hc, hcall⟩ := bind_eq_ok.mp hcall
  cases hcall
  exact hl1.call (hxs _ hx) hc

theorem noFiles_handleErroEvent (hcb : cb.NoFiles) (h : l.conn.NoFiles)
    (hl : l.handleErroEvent cb = .ok l') : l'.conn.NoFiles := by
  unfold handleErroEvent at hl
  dsimp only at hl
  split at hl
  · obtain ⟨l1, hl1, hl⟩ := bind_eq_ok.mp hl
    cases hl
    exact (noFiles_calls (l := { l with world := (cb.onErro l.world).1 }) h (hcb.onErro l.world) hl1).destroy
  · cases hl
    exact h.destroy

theorem noFiles_finishBuffer (hcb : cb.NoFiles) (h : l.conn.NoFiles)
    (hpass : l.finishBuffer cb first = .ok pass) : pass.out.conn.NoFiles := by
  unfold finishBuffer at hpass
  split at hpass
  · obtain ⟨c, hc, hpass⟩ := bind_eq_ok.mp hpass
    cases hpass
    exact h.popFront hc
  · next handler hhandler =>
    obtain ⟨l1, hl1, hpass⟩ := bind_eq_ok.mp hpass
    have h1 : l1.conn.NoFiles := noFiles_calls (l := { l with
      world := (cb.complete l.world handler).1, ran := l.ran ++ [handler] }) h (hcb.complete l.world handler) hl1
    split at hpass
    · cases hpass
      exact h1
    · obtain ⟨c, hc, hpass⟩ := bind_eq_ok.mp hpass
      cases hpass
      exact h1.popFront hc

theorem noFiles_drain (hcb : cb.NoFiles) : ∀ {n ret : Nat} {l : Link σ H}
    {pass : Pass (Link σ H) (Link σ H)}, l.conn.NoFiles → drain cb n ret l = .ok pass →
      pass.out.conn.NoFiles
  | _, 0, l, _, h, hpass => by
    unfold drain at hpass
    cases hpass
    exact h
  | 0, ret + 1, _, _, _, hpass => by
    unfold drain at hpass
    cases hpass
  | n + 1, ret + 1, l, pass, h, hpass => by
    unfold drain at hpass
    split at hpass
    · cases hpass
    · next first tasks htasks =>
      split at hpass
      · cases hpass
      · obtain ⟨size, -, hpass⟩ := bind_eq_ok.mp hpass
        split at hpass
        · obtain ⟨pass1, hpass1, hpass⟩ := bind_eq_ok.mp hpass
          have h1 := noFiles_finishBuffer hcb h hpass1
          cases pass1 with
          | done l1 =>
            cases hpass
            exact h1
          | next l1 => exact noFiles_drain hcb h1 hpass
        · obtain ⟨rest, -, hpass⟩ := bind_eq_ok.mp hpass
          cases hpass
          intro t ht
          rcases List.mem_cons.mp ht with rfl | ht
          · exact h first (by rw [htasks]; exact List.mem_cons_self)
          · exact h t (by rw [htasks]; exact List.mem_cons_of_mem first ht)

theorem noFiles_writPass (hcb : cb.NoFiles) (h : l.conn.NoFiles) (htasks : l.conn.writTasks_ = first :: tasks)
    (hpass : l.writPass cb first a = .ok pass) : pass.out.conn.NoFiles := by
  unfold writPass at hpass
  rw [h first (by rw [htasks]; exact List.mem_cons_self)] at hpass
  rcases bufferPass_cases hpass with ⟨-, rfl⟩ | ⟨l1, hl1, rfl⟩ | ⟨iov, ret, -, -, hdrain⟩
  · exact h
  · exact noFiles_handleErroEvent hcb h hl1
  · refine noFiles_drain hcb ?_ hdrain
    exact h

/-- **Where there are no files, no handler of a file destroys the connection.** -/
theorem fileStays_of_noFiles (hcb : cb.NoFiles) (h : l.conn.NoFiles) :
    ∀ p ∈ l.passes cb as, FileStays cb p := by
  intro p hp l1 hfile
  have hnone : p.1.conn.NoFiles := passes_keep (I := fun l => l.conn.NoFiles) (A := fun _ => True)
    (fun hl htasks _ hpass => noFiles_writPass hcb hl htasks hpass) h (fun _ _ => trivial) hp
  obtain ⟨queue, file, -⟩ := hfile
  rw [hnone _ (by rw [queue]; exact List.mem_cons_self)] at file
  cases file

theorem noFiles_writLoop (hcb : cb.NoFiles) : ∀ {as : List WriteAnswer} {l l' : Link σ H},
    l.conn.NoFiles → l.writLoop cb as = .ok l' → l'.conn.NoFiles
  | [], l, l', h, hl => by
    unfold writLoop at hl
    split at hl
    · cases hl
      exact h
    · cases hl
  | a :: as, l, l', h, hl => by
    unfold writLoop at hl
    split at hl
    · cases hl
      exact h
    · next first tasks htasks =>
      obtain ⟨pass, hpass, hl⟩ := bind_eq_ok.mp hl
      have h1 := noFiles_writPass hcb h htasks hpass
      cases pass with
      | done l1 =>
        cases hl
        exact h1
      | next l1 => exact noFiles_writLoop hcb h1 hl

/-- No file comes into the queue in an event. -/
theorem noFiles_handleWritEvent (hcb : cb.NoFiles) (h : l.conn.NoFiles)
    (hl : l.handleWritEvent cb as = .ok l') : l'.conn.NoFiles := by
  rcases handleWritEvent_cases hl with ⟨-, hl⟩ | ⟨-, -, ch, -, rfl⟩
  · exact noFiles_writLoop hcb h hl
  · exact h

end Link

namespace Link

variable {l : Link σ H} {J K : History σ H} {called : Bool}

/-! ## Runs -/

/--
A call that sends, on a connection that is not destroyed, or a write event with any answers in which no
handler of a file destroys the connection.
-/
def EndsWith (cb : Callbacks σ H) (l : Link σ H) : Event H → Prop
  | .call x => l.conn.destroy_ = false ∧ x.Sends
  | .writ as => ∀ p ∈ l.passes cb as, FileStays cb p

theorem Ends.step_ok (h : Ends called (fun _ _ _ _ => True) (fun _ _ _ _ => True) l) (hends : cb.HandlersEnd)
    (herro : ∀ w, ConnCall.EndsOpen (cb.onErro w).2) {e : Event H} (he : EndsWith cb l e) :
    Guarantees (Ends called (fun _ _ _ _ => True) fun _ _ _ _ => True) (l.step cb e) := by
  cases e with
  | writ as =>
    exact h.handleWritEvent_ok hends hends.stays_send.keeps (fun _ _ _ _ h _ => h) (fails_of_endsOpen herro called) he
  | call x =>
    obtain ⟨halive, hx⟩ := he
    rcases h with ⟨hdelivered, hcalled⟩ | hclosed
    · obtain ⟨l', hl', hdelivered', -⟩ :=
        hdelivered.call_ok hx (K := fun _ _ _ _ => True) trivial
      show Guarantees _ (l.call x)
      rw [hl']
      obtain ⟨c, hc, h⟩ := bind_eq_ok.mp hl'
      cases h
      exact .inl ⟨hdelivered', hcalled.call hc⟩
    · rw [hclosed.destroyed] at halive
      cases halive

/-- What is on the wire, the handlers, and what is left. -/
theorem Ends.result (h : Ends called J K l) :
    l.wire <+: stream l.sent ∧
    (∃ done, done <+: l.sent ∧ l.ran = done.filterMap Message.tag ∧ stream done <+: l.wire) ∧
    (l.conn.destroy_ = false →
      l.wire ++ (l.conn.writTasks_.map IoTask.remaining).flatten = stream l.sent ∧
      l.ran = (completed l.wire.length l.sent).filterMap Message.tag) := by
  rcases h with ⟨hdelivered, -⟩ | hclosed
  · obtain ⟨hstream, hran, -⟩ := hdelivered.result
    have hwire : l.wire <+: stream l.sent := ⟨_, hstream⟩
    exact ⟨hwire, ⟨_, completed_start _ _, hran, stream_completed hwire⟩, fun _ => ⟨hstream, hran⟩⟩
  · refine ⟨hclosed.wire, hclosed.through, fun halive => ?_⟩
    rw [hclosed.destroyed] at halive
    cases halive

/--
**A handler that destroys the connection loses nothing that was sent before it.** The completion handlers
send, and may destroy the connection after that; those of a file do not destroy it. Then in every run of
calls that send something, made while the connection is not destroyed, and of write events with any
answers, what the kernel has accepted is the start of the payloads in the order of the calls, and has all
payloads up to that of the last handler that has run. While the connection is not destroyed, the rest is in
`writTasks_`, and the handlers that have run are those of the payloads that were accepted as a whole. No
step of such a run faults.
-/
theorem closes_after_sent (hends : cb.HandlersEnd) (herro : ∀ w, ConnCall.EndsOpen (cb.onErro w).2)
    (conn : Connection H) (world : σ) (hopen : conn.Open) (hempty : conn.writTasks_ = [])
    (es : List (Event H)) (hes : Along (step cb) (EndsWith cb) (start conn world) es) :
    (∀ l, run (step cb) (start conn world) es = .ok l →
      l.wire <+: stream l.sent ∧
      (∃ done, done <+: l.sent ∧ l.ran = done.filterMap Message.tag ∧ stream done <+: l.wire) ∧
      (l.conn.destroy_ = false →
        l.wire ++ (l.conn.writTasks_.map IoTask.remaining).flatten = stream l.sent ∧
        l.ran = (completed l.wire.length l.sent).filterMap Message.tag)) ∧
    ∀ f, run (step cb) (start conn world) es = .error f → f = .environment := by
  have hstart : Delivered (fun _ _ _ _ => True) (start conn world) := by
    refine ⟨[], hopen, trivial, rfl, [], rfl, ?_⟩
    show Cut [] [] [] (conn.writTasks_.map IoTask.message)
    rw [hempty]
    exact cut_nil
  have hfirst : Ends conn.erroEventCallback_ (fun _ _ _ _ => True) (fun _ _ _ _ => True)
      (start conn world) := .inl ⟨hstart, fun _ => rfl⟩
  have hrun := run_guarantees_along (fun _ _ h he => h.step_ok hends herro he) hfirst hes
  constructor
  · intro l hl
    rw [hl] at hrun
    exact hrun.result
  · intro f hf
    rw [hf] at hrun
    exact hrun

/-- A user whose handler `true` sends a byte and destroys the connection. -/
def closes : Callbacks Unit Bool where
  complete := fun w handler => (w, if handler then [.send (str "z") none, .destroy] else [])
  onErro := fun w => (w, [])

theorem closes_after_sent_more :
    let es : List (Event Bool) :=
      [.call (.sendFile (str "file") 0 2 (some false)), .call (.sendString (str "ab") (some true)),
        .call (.send (str "cd") (some false)), .writ [.accepted 2, .accepted 3], .writ [.accepted 1]]
    ∃ l, run (step closes) (start .accepted ()) es = .ok l ∧
      (l.wire = str "fiabc" ∧ l.ran = [false, true] ∧ l.conn.destroy_ = true) ∧
      ∃ done, done <+: l.sent ∧ l.ran = done.filterMap Message.tag ∧ stream done <+: l.wire := by
  intro es
  have hends : closes.HandlersEnd := by
    intro w handler
    cases handler with
    | false => exact ⟨[], [], rfl, nofun, nofun⟩
    | true =>
      refine ⟨[.send (str "z") none], [.destroy], rfl, ?_, ?_⟩
      · exact List.forall_mem_singleton.mpr (show str "z" ≠ [] by decide)
      · exact List.forall_mem_singleton.mpr rfl
  have hes : Along (step closes) (EndsWith closes) (start .accepted ()) es := by
    refine ⟨⟨rfl, by decide, by decide⟩, fun l hl => ?_⟩
    cases hl
    refine ⟨⟨rfl, show str "ab" ≠ [] by decide⟩, fun l hl => ?_⟩
    cases hl
    refine ⟨⟨rfl, show str "cd" ≠ [] by decide⟩, fun l3 hl3 => ⟨fun p hp l1 hfile => ?_, fun l4 hl4 => ?_⟩⟩
    · -- the handler of the file is `false`
      have hfront : (run (step closes) (start .accepted ()) (es.take 3)).map (fun l =>
          decide (∀ p ∈ l.passes closes [.accepted 2, .accepted 3], p.1.conn.destroy_ = false ∧
            ∀ t ∈ p.1.conn.writTasks_.head?, t.fp_.isSome = true → t.handler_ ≠ some true)) = .ok true := by
        decide +kernel
      have hrun : run (step closes) (start .accepted ()) (es.take 3) = .ok l3 := by
        cases hl3
        rfl
      rw [hrun] at hfront
      obtain ⟨halive, hhandler⟩ := of_decide_eq_true (Except.ok.inj hfront) p hp
      obtain ⟨queue, file, -, -, -, -, handler_, hrun⟩ := hfile
      rename_i handler
      cases handler with
      | true => exact absurd handler_ (hhandler _ (by rw [queue]; rfl) (by rw [file]; rfl))
      | false =>
        cases hrun
        exact halive
    · have hempty : (run (step closes) (start .accepted ()) (es.take 4)).map (fun l =>
          l.conn.writTasks_) = .ok [] := by decide +kernel
      have hrun : run (step closes) (start .accepted ()) (es.take 4) = .ok l4 := by
        cases hl3
        cases hl4
        rfl
      rw [hrun] at hempty
      refine ⟨?_, fun _ _ => trivial⟩
      show ∀ p ∈ l4.passes closes _, _
      rw [passes_empty (Except.ok.inj hempty)]
      exact fun p hp => absurd hp List.not_mem_nil
  have hresult := closes_after_sent hends (fun _ => ⟨[], [], rfl, nofun, nofun⟩) .accepted ()
    Connection.open_accepted rfl es hes
  have hrun : (run (step closes) (start .accepted ()) es).map
      (fun l => (l.wire, l.ran, l.conn.destroy_)) = .ok (str "fiabc", [false, true], true) := by
    decide +kernel
  cases hl : run (step closes) (start .accepted ()) es with
  | error f => rw [hl] at hrun; cases hrun
  | ok l =>
    rw [hl] at hrun
    obtain ⟨-, hthrough, -⟩ := hresult.1 l hl
    have hrun := Except.ok.inj hrun
    simp only [Prod.mk.injEq] at hrun
    exact ⟨l, rfl, hrun, hthrough⟩

end Link

end Liby
