import Liby.Net.UdpCallbacks

/-!
# The owners of UDP connections

A task has a plain pointer to the `peer_` of its connection, and does not own it. While the connection
is there the datagram goes to the peer on which `send` was called.
-/

namespace Liby

open Infra

variable {H : Type}

/-- The buffer of a call of `send`. -/
theorem UdpSend.Wf.buf_wf {x : UdpSend H} (hx : x.Wf) {buf : Buffer} (h : x.buf = .ok buf) : buf.Wf := by
  cases x with
  | base bytes handler | cString bytes handler | string bytes handler =>
    cases h
    exact Buffer.wf_ofBytes _
  | buffer b handler =>
    obtain ⟨_, _, h⟩ := bind_eq_ok.mp h
    cases h
    exact hx
  | moved b handler =>
    cases h
    exact hx

namespace UdpRun

/-- What every step keeps about the connections and the buffers. -/
structure Sound (s : UdpRun H) : Prop where
  there : ∀ p, s.Owned p → p < s.world.uconns.length
  keys : s.world.socket.conns_.keys.Nodup
  readBufs : ∀ (p : Nat) (o : UdpObject), s.world.uconns[p]? = some o → o.uconn.readBuf_.Wf
  tasks : ∀ task ∈ s.world.socket.writTasks_, task.buffer_.Wf

/-- A connection is in memory exactly while it has an owner. -/
def Settled (s : UdpRun H) : Prop :=
  ∀ (p : Nat) (o : UdpObject), s.world.uconns[p]? = some o → o.freed = !decide (s.Owned p)

variable {w w' : UdpWorld H} {s t : UdpRun H} {e : UdpStep H} {p : Nat} {poller_ : Chooser}

/-! ## The owners after a step -/

theorem settle_owned (s : UdpRun H) (p : Nat) : s.settle.Owned p ↔ s.Owned p := Iff.rfl

theorem settled_settle (s : UdpRun H) : Settled s.settle := by
  intro p o ho
  have ho : (s.world.uconns.mapIdx _)[p]? = some o := ho
  rw [List.getElem?_mapIdx, Option.map_eq_some_iff] at ho
  obtain ⟨o₀, -, rfl⟩ := ho
  exact congrArg not (decide_eq_decide.mpr (settle_owned s p).symm)

/-- An owned connection may be touched. -/
theorem Settled.access (h : Settled s) (hs : Sound s) (hp : s.Owned p) :
    ∃ o, s.world.access p = .ok o ∧ s.world.uconns[p]? = some o := by
  have ho := List.getElem?_eq_getElem (hs.there p hp)
  refine ⟨_, UdpWorld.access_eq_ok.mpr ⟨ho, ?_⟩, ho⟩
  rw [h p _ ho, decide_eq_true hp]
  rfl

theorem owned_iff : s.Owned p ↔
    p ∈ s.world.socket.conns_.map Prod.snd ∨ p ∈ s.kept ∨ s.point.holds = some p := Iff.rfl

/-- The owners are the same where the three places that have some are. -/
theorem Owned.congr (hp : s.Owned p) (hconns : t.world.socket.conns_ = s.world.socket.conns_)
    (hkept : t.kept = s.kept) (hholds : t.point.holds = s.point.holds) : t.Owned p := by
  rw [owned_iff, hconns, hkept, hholds]
  exact hp

theorem whileTasks_holds (s : UdpRun H) : s.whileTasks.point.holds = none := by
  unfold whileTasks
  dsimp only
  split <;> rfl

/-- The world without the entry of a peer. -/
def erased (w : UdpWorld H) (ep : Endpoint) : UdpWorld H :=
  { w with socket := { w.socket with conns_ := w.socket.conns_.erase Endpoint.lt ep } }

theorem frame_free (w : UdpWorld H) (p : Nat) : Frame w (w.free p) := by
  refine ⟨rfl, rfl, rfl, rfl, rfl, rfl, rfl, List.length_modify .., fun q o' ho' => ?_⟩
  have ho' : (w.uconns.modify p _)[q]? = some o' := ho'
  rw [List.getElem?_modify, Option.map_eq_map, Option.map_eq_some_iff] at ho'
  obtain ⟨o, ho, rfl⟩ := ho'
  refine ⟨o, ho, ?_, ?_⟩ <;> split
  exacts [rfl, rfl, id, id]

/-- `destroyConn` takes the entry away, if there is one. -/
theorem frame_destroyConn (w : UdpWorld H) (ep : Endpoint) : Frame (erased w ep) (w.destroyConn none ep) := by
  unfold UdpWorld.destroyConn
  split
  · next hnone =>
    unfold erased
    rw [KeyMap.erase_of_find_none hnone]
    exact .refl w
  · next q hq =>
    dsimp only
    rw [if_neg nofun]
    exact frame_free _ q

/-- An entry that is left by `erase`, and one that is not. -/
theorem mem_erase_conns {conns : KeyMap Endpoint Nat} {ep : Endpoint} :
    p ∈ (conns.erase Endpoint.lt ep).map Prod.snd ↔ ∃ ep', (ep', p) ∈ conns ∧ ep' ≠ ep := by
  unfold KeyMap.erase
  simp only [List.mem_map, List.mem_filter, Prod.exists, exists_eq_right, Bool.not_eq_true',
    ← Bool.not_eq_true, separates_endpoint _ _]

/-- With one entry for a key, `erase` takes the value that `find` gives, and no other. -/
theorem erase_conns_of_ne {conns : KeyMap Endpoint Nat} {ep : Endpoint} {q : Nat} (hkeys : conns.keys.Nodup)
    (hfind : conns.find Endpoint.lt ep = some q) (hp : p ∈ conns.map Prod.snd) (hne : p ≠ q) :
    p ∈ (conns.erase Endpoint.lt ep).map Prod.snd := by
  obtain ⟨⟨ep', p'⟩, hmem, rfl⟩ := List.mem_map.mp hp
  refine mem_erase_conns.mpr ⟨ep', hmem, ?_⟩
  rintro rfl
  have hq := KeyMap.mem_of_find separates_endpoint hfind
  exact hne (congrArg Prod.snd (List.inj_on_of_nodup_map hkeys hmem hq rfl))

theorem send_ok {o : UdpObject} {task : UdpTask H} (h : w.send o task = .ok w') :
    Frame { w with
      socket := { w.socket with writTasks_ := w.socket.writTasks_ ++ [task] }
      queued := w.queued ++ [{ dest := o.uconn.peer_, payload := task.buffer_.contents,
                               handler := task.handler_ }] } w' :=
  .enableWrit h

/-- The entries with that of a new connection. -/
theorem mem_makeConn {ep : Endpoint} (hnew : w.socket.conns_.find Endpoint.lt ep = none)
    (hworld : Frame (w.makeConn ep) w') : p ∈ w'.socket.conns_.map Prod.snd ↔
      p ∈ w.socket.conns_.map Prod.snd ∨ p = w.uconns.length := by
  have hconns : (w.makeConn ep).socket.conns_ = w.socket.conns_ ++ [(ep, w.uconns.length)] :=
    KeyMap.insert_new hnew
  rw [hworld.conns, hconns, List.map_append, List.mem_append, List.map_singleton, List.mem_singleton]

/-- Only a new connection gets its first owner: the memory of one that was freed stays free. -/
theorem Moves.owned_of (h : Moves s e t) (hp : t.Owned p) :
    s.Owned p ∨ (p = s.world.uconns.length ∧ t.world.uconns.length = s.world.uconns.length + 1) := by
  have hlength : ∀ {ep : Endpoint}, Frame (s.world.makeConn ep) t.world →
      t.world.uconns.length = s.world.uconns.length + 1 := fun hworld => by
    rw [hworld.length]
    exact List.length_append
  cases h with
  | frame _ hworld hkept hholds =>
    exact .inl (hp.congr hworld.conns.symm hkept.symm hholds.symm)
  | send _ _ _ hsent => exact .inl (hp.congr (send_ok hsent).conns.symm rfl rfl)
  | destroyConn =>
    left
    rcases owned_iff.mp hp with hconns | hrest
    · rw [(frame_destroyConn _ _).conns] at hconns
      obtain ⟨ep, hmem, -⟩ := mem_erase_conns.mp hconns
      exact .inl (List.mem_map_of_mem hmem)
    · exact .inr hrest
  | keep howned =>
    rcases owned_iff.mp hp with hconns | hkept | hholds
    · exact .inl (.inl hconns)
    · rcases List.mem_cons.mp hkept with rfl | hkept
      · exact .inl howned
      · exact .inl (.inr (.inl hkept))
    · exact .inl (.inr (.inr hholds))
  | drop =>
    rcases owned_iff.mp hp with hconns | hkept | hholds
    · exact .inl (.inl hconns)
    · exact .inl (.inr (.inl (List.mem_of_mem_erase hkept)))
    · exact .inl (.inr (.inr hholds))
  | connect hnew hworld hkept _ hpoint =>
    rcases owned_iff.mp hp with hconns | hp | hholds
    · rcases (mem_makeConn hnew hworld).mp hconns with hconns | rfl
      · exact .inl (.inl hconns)
      · exact .inr ⟨rfl, hlength hworld⟩
    · rcases hkept p hp with rfl | hp
      · exact .inr ⟨rfl, hlength hworld⟩
      · exact .inl (.inr (.inl hp))
    · rw [hpoint] at hholds
      exact .inl (.inr (.inr hholds))
  | destroy _ hlive hworld hkept hholds =>
    rcases owned_iff.mp hp with hconns | hp | hp
    · rw [hworld] at hconns
      cases hconns
    · exact .inl (.inr (.inl (hkept ▸ hp)))
    · exact .inl (.inr (.inr (hholds ▸ hp)))
  | accept hpoint hnew hworld hkept hholds =>
    rcases owned_iff.mp hp with hconns | hp | hp
    · rcases (mem_makeConn hnew hworld).mp hconns with hconns | rfl
      · exact .inl (.inl hconns)
      · exact .inr ⟨rfl, hlength hworld⟩
    · exact .inl (.inr (.inl (hkept ▸ hp)))
    · exact .inr ⟨hholds p hp, hlength hworld⟩
  | release _ _ hworld hkept hpoint =>
    rcases owned_iff.mp hp with hconns | hp | hp
    · exact .inl (.inl (hworld.conns ▸ hconns))
    · exact .inl (.inr (.inl (hkept ▸ hp)))
    · rw [hpoint] at hp
      cases hp
  | complete hpoint => exact .inl (hp.congr rfl rfl (by rw [hpoint]; rfl))
  | handOver hpoint | pop hpoint =>
    refine .inl (hp.congr rfl rfl ?_)
    rw [hpoint, whileTasks_holds]
    rfl

/-! ## The connections after a step -/

/-- The objects of `w'` are those of `w` and new ones. -/
structure Extends (w w' : UdpWorld H) : Prop where
  length : w.uconns.length ≤ w'.uconns.length
  objects : ∀ (p : Nat) (o' : UdpObject), w'.uconns[p]? = some o' →
    (∃ o, w.uconns[p]? = some o ∧ SamePeer o o') ∨ (w.uconns.length ≤ p ∧ o'.uconn.readBuf_.Wf)

theorem Frame.extends (h : Frame w w') : Extends w w' :=
  ⟨h.length.ge, fun p o' ho' => .inl (h.objects p o' ho')⟩

theorem Extends.of_uconns (h : w'.uconns = w.uconns) : Extends w w' :=
  ⟨(congrArg List.length h).ge, fun _ o' ho' => .inl ⟨o', h ▸ ho', .refl o'⟩⟩

theorem Extends.frame {w'' : UdpWorld H} (h : Extends w w') (h' : Frame w' w'') : Extends w w'' where
  length := h'.length ▸ h.length
  objects p o'' ho'' := by
    obtain ⟨o', ho', hsame'⟩ := h'.objects p o'' ho''
    rcases h.objects p o' ho' with ⟨o, ho, hsame⟩ | ⟨hp, hwf⟩
    · exact .inl ⟨o, ho, hsame.trans hsame'⟩
    · exact .inr ⟨hp, hsame'.wf hwf⟩

/-- An object that was there is there. -/
theorem Extends.object (h : Extends w w') {o : UdpObject} (ho : w.uconns[p]? = some o) :
    ∃ o', w'.uconns[p]? = some o' ∧ SamePeer o o' := by
  have hp := (List.getElem?_eq_some_iff.mp ho).1
  have hp' := hp.trans_le h.length
  rcases h.objects p _ (List.getElem?_eq_getElem hp') with ⟨o₀, ho₀, hsame⟩ | ⟨hle, -⟩
  · cases ho.symm.trans ho₀
    exact ⟨_, List.getElem?_eq_getElem hp', hsame⟩
  · exact absurd hle hp.not_ge

theorem extends_makeConn (w : UdpWorld H) (ep : Endpoint) : Extends w (w.makeConn ep) := by
  refine ⟨?_, fun p o' ho' => ?_⟩
  · show w.uconns.length ≤ (w.uconns ++ [_]).length
    rw [List.length_append]
    exact Nat.le_add_right _ _
  · have ho' : (w.uconns ++ [_])[p]? = some o' := ho'
    by_cases hp : p < w.uconns.length
    · rw [List.getElem?_append_left hp] at ho'
      exact .inl ⟨o', ho', .refl o'⟩
    · rw [List.getElem?_append_right (not_lt.mp hp)] at ho'
      refine .inr ⟨not_lt.mp hp, ?_⟩
      obtain rfl := List.mem_singleton.mp (List.mem_of_getElem? ho')
      exact Buffer.wf_ofLength 1024

theorem extends_destroyed (w : UdpWorld H) : Extends w w.destroyed := by
  refine ⟨(List.length_map _).ge, fun p o' ho' => ?_⟩
  have ho' : (w.uconns.map _)[p]? = some o' := ho'
  rw [List.getElem?_map, Option.map_eq_some_iff] at ho'
  obtain ⟨o, ho, rfl⟩ := ho'
  exact .inl ⟨o, ho, rfl, id⟩

theorem extends_destroyConn (w : UdpWorld H) (ep : Endpoint) : Extends w (w.destroyConn none ep) := by
  have herased : Extends w (erased w ep) := .of_uconns rfl
  exact herased.frame (frame_destroyConn w ep)

theorem Moves.extends (h : Moves s e t) : Extends s.world t.world := by
  cases h with
  | frame _ hworld | release _ _ hworld => exact hworld.extends
  | send _ _ _ hsent =>
    have hafter := (send_ok hsent).extends
    exact ⟨hafter.length, hafter.objects⟩
  | destroyConn => exact extends_destroyConn _ _
  | keep | drop | complete | handOver | pop => exact .of_uconns rfl
  | connect _ hworld | accept _ _ hworld => exact (extends_makeConn _ _).frame hworld
  | destroy _ _ hworld =>
    rw [hworld]
    exact extends_destroyed _

/-- The tasks after a step: those that were there, the first one changed, and one more. -/
theorem Moves.tasks_wf (h : Moves s e t) (hs : ∀ task ∈ s.world.socket.writTasks_, task.buffer_.Wf) :
    ∀ task ∈ t.world.socket.writTasks_, task.buffer_.Wf := by
  cases h with
  | frame _ hworld | release _ _ hworld =>
    rw [hworld.tasks]
    exact hs
  | @send _ x wf _ buf _ _ _ hbuf hsent =>
    rw [(send_ok hsent).tasks]
    intro task htask
    rcases List.mem_append.mp htask with htask | htask
    · exact hs task htask
    · rw [List.mem_singleton.mp htask]
      exact wf.buf_wf hbuf
  | destroyConn =>
    dsimp only
    rw [(frame_destroyConn _ _).tasks]
    exact hs
  | keep | drop => exact hs
  | connect _ hworld | accept _ _ hworld =>
    rw [hworld.tasks]
    exact hs
  | destroy _ hlive hworld =>
    rw [hworld]
    exact nofun
  | complete _ hqueue _ _ hwf =>
    intro task htask
    rcases List.mem_cons.mp htask with rfl | htask
    · exact hwf
    · exact hs task (by rw [hqueue]; exact List.mem_cons_of_mem _ htask)
  | handOver _ hqueue | pop _ hqueue =>
    exact fun task htask => hs task (by rw [hqueue]; exact List.mem_cons_of_mem _ htask)

theorem Moves.keys (h : Moves s e t) (hs : s.world.socket.conns_.keys.Nodup) :
    t.world.socket.conns_.keys.Nodup := by
  cases h with
  | frame _ hworld | release _ _ hworld =>
    rw [hworld.conns]
    exact hs
  | send _ _ _ hsent =>
    rw [(send_ok hsent).conns]
    exact hs
  | destroyConn =>
    dsimp only
    rw [(frame_destroyConn _ _).conns]
    exact KeyMap.nodup_erase hs _
  | keep | drop | complete | handOver | pop => exact hs
  | connect _ hworld | accept _ _ hworld =>
    rw [hworld.conns]
    exact KeyMap.nodup_insert separates_endpoint hs
  | destroy _ hlive hworld =>
    rw [hworld]
    exact List.nodup_nil

theorem Sound.moves (hs : Sound s) (h : Moves s e t) : Sound t where
  there p hp := by
    rcases h.owned_of hp with hp | ⟨rfl, hlength⟩
    · exact (hs.there p hp).trans_le h.extends.length
    · omega
  keys := h.keys hs.keys
  readBufs p o' ho' := by
    rcases h.extends.objects p o' ho' with ⟨o, ho, hsame⟩ | ⟨-, hwf⟩
    · exact hsame.wf (hs.readBufs p o ho)
    · exact hwf
  tasks := h.tasks_wf hs.tasks

/-- The marks of `settle` change nothing of that. -/
theorem Sound.settle (hs : Sound s) : Sound s.settle where
  there p hp := (hs.there p hp).trans_eq (Frame.settle s).length.symm
  keys := hs.keys
  readBufs p o' ho' := by
    obtain ⟨o, ho, hsame⟩ := (Frame.settle s).objects p o' ho'
    exact hsame.wf (hs.readBufs p o ho)
  tasks := hs.tasks

/-- A step is a move, and what follows from it. -/
theorem step_cases (hs : Sound s) (h : s.step e = .ok t) : ∃ u, Moves s e u ∧ t = u.settle := by
  obtain ⟨u, hu, h⟩ := bind_eq_ok.mp h
  cases h
  exact ⟨u, move_cases hs.tasks hu, rfl⟩

theorem sound_started : Sound (started poller_ : UdpRun H) where
  there _ hp := by
    rcases owned_iff.mp hp with h | h | h <;> cases h
  keys := List.nodup_nil
  readBufs _ _ ho := by cases ho
  tasks := nofun

theorem settled_started : Settled (started poller_ : UdpRun H) := fun _ _ ho => by cases ho

theorem Sound.step (hs : Sound s) (h : s.step e = .ok t) : Sound t ∧ Settled t := by
  obtain ⟨u, hu, rfl⟩ := step_cases hs h
  exact ⟨(hs.moves hu).settle, settled_settle u⟩

/-! ## The end of a callback -/

theorem step_error {f : Fault} (h : s.move e = .error f) : s.step e = .error f := by
  unfold step
  rw [h]
  rfl

theorem step_eq (h : s.move e = .ok t) : s.step e = .ok t.settle := by
  unfold step
  rw [h]
  rfl

theorem move_recvfrom (hpoint : s.point = .recvfrom) (a : UdpReceived) :
    s.move (.recvfrom a) = s.recvfrom a := by
  show guardOr _ _ >>= _ = _
  rw [guardOr_pos hpoint, ok_bind]

/-- The loop of `handleReadEvent` calls `recvfrom` on a socket that is reset, whatever comes. -/
theorem recvfrom_nullDeref (hpoint : s.point = .recvfrom) (hsocket : s.world.socket.socket_ = false)
    (a : UdpReceived) : s.step (.recvfrom a) = .error .nullDeref := by
  refine step_error ?_
  rw [move_recvfrom hpoint]
  unfold recvfrom
  rw [guardOr_neg (by rw [hsocket]; exact Bool.false_ne_true)]
  rfl

/-- A callback of the read path returns, and the next pass begins. -/
theorem step_read {p : Nat} (hpoint : s.point = .readNew p ∨ s.point = .readKnown p) :
    s.step .returned = .ok { s with point := .recvfrom }.settle := by
  refine step_eq ?_
  show s.returned = _
  unfold returned
  rcases hpoint with h | h <;> rw [h]

theorem move_accepting {p : Nat} {payload : Bytes} (hpoint : s.point = .accepting p payload) :
    s.move .returned = s.deliver p payload (.readNew p) := by
  show s.returned = _
  unfold returned
  rw [hpoint]

/-- The accept callback returns: the datagram is appended, and the read callback is next. -/
theorem step_accepting {p : Nat} {payload : Bytes} (hs : Sound s) (hsettled : Settled s)
    (hpoint : s.point = .accepting p payload) :
    (payload = [] ∧ s.step .returned = .error .assertFailed) ∨
      (payload ≠ [] ∧ ∃ t, s.step .returned = .ok t ∧
        t.world.socket.socket_ = s.world.socket.socket_ ∧
        (t.point = .recvfrom ∨ t.point = .readNew p ∧ t.world.calls ≠ s.world.calls)) := by
  have howned : s.Owned p := .inr (.inr (by rw [hpoint]; rfl))
  obtain ⟨o, haccess, ho⟩ := hsettled.access hs howned
  have hmove := move_accepting hpoint
  rcases deliver_cases haccess (hs.readBufs p o ho) payload (.readNew p) with ⟨hnil, herror⟩ |
    ⟨hpayload, t, ht, hsocket, hrest⟩
  · exact .inl ⟨hnil, step_error (hmove.trans herror)⟩
  · exact .inr ⟨hpayload, _, step_eq (hmove.trans ht), hsocket, hrest⟩

/-! ## A socket that was destroyed -/

/-- Nothing is left of a socket that was destroyed. -/
def Gone (socket : UdpSocket H) : Prop :=
  socket.destroy_ = true →
    socket.socket_ = false ∧ socket.chan_.isSome = false ∧ socket.writTasks_ = []

theorem Frame.gone (h : Frame w w') (hw : Gone w.socket) : Gone w'.socket := by
  intro hdestroy
  rw [h.destroy] at hdestroy
  rw [h.socket, h.chan, h.tasks]
  exact hw hdestroy

/-- `enableWrit` needs the channel. -/
theorem send_chan {o : UdpObject} {task : UdpTask H} (h : w.send o task = .ok w') :
    w.socket.chan_.isSome = true := by
  unfold UdpWorld.send UdpWorld.enableWrit at h
  dsimp only at h
  split at h
  · cases h
  · next ch hch =>
    rw [hch]
    rfl

/-- Nothing is sent on a socket that was destroyed. -/
theorem Gone.live_of_send (hs : Gone s.world.socket) {o : UdpObject} {task : UdpTask H}
    (h : s.world.send o task = .ok w') : s.world.socket.destroy_ = false := by
  by_contra hdestroy
  have hchan := (hs (by simpa using hdestroy)).2.1
  rw [send_chan h] at hchan
  cases hchan

theorem Gone.live_of_queue (hs : Gone s.world.socket) {first : UdpTask H} {tasks : List (UdpTask H)}
    (h : s.world.socket.writTasks_ = first :: tasks) : s.world.socket.destroy_ = false := by
  by_contra hdestroy
  have hnil := (hs (by simpa using hdestroy)).2.2
  rw [h] at hnil
  cases hnil

theorem Moves.gone (h : Moves s e t) (hs : Gone s.world.socket) : Gone t.world.socket := by
  cases h with
  | frame _ hworld | release _ _ hworld => exact hworld.gone hs
  | send _ _ _ hsent =>
    have hlive := hs.live_of_send hsent
    exact (send_ok hsent).gone fun hdestroy => absurd (hlive.symm.trans hdestroy) Bool.false_ne_true
  | destroyConn => exact (frame_destroyConn _ _).gone hs
  | keep | drop => exact hs
  | connect _ hworld | accept _ _ hworld => exact hworld.gone hs
  | destroy _ hlive hworld =>
    rw [hworld]
    exact fun _ => ⟨rfl, rfl, rfl⟩
  | complete _ hqueue | handOver _ hqueue | pop _ hqueue =>
    have hlive := hs.live_of_queue hqueue
    exact fun hdestroy => absurd (hlive.symm.trans hdestroy) Bool.false_ne_true

/-- A socket has its channel until it is destroyed. -/
def Connected (socket : UdpSocket H) : Prop := socket.destroy_ = false → socket.chan_.isSome = true

theorem Frame.connected (h : Frame w w') (hw : Connected w.socket) : Connected w'.socket := by
  intro hlive
  rw [h.destroy] at hlive
  rw [h.chan]
  exact hw hlive

theorem Moves.connected (h : Moves s e t) (hs : Connected s.world.socket) : Connected t.world.socket := by
  cases h with
  | frame _ hworld | release _ _ hworld => exact hworld.connected hs
  | send _ _ _ hsent => exact (send_ok hsent).connected hs
  | destroyConn => exact (frame_destroyConn _ _).connected hs
  | keep | drop | complete | handOver | pop => exact hs
  | connect _ hworld | accept _ _ hworld => exact hworld.connected hs
  | destroy _ _ hworld =>
    rw [hworld]
    exact nofun

/-! ## The destinations -/

/-- A task is the datagram `m`, and its `dest_` is the peer of the connection on which it was sent. -/
structure Addressed (uconns : List UdpObject) (task : UdpTask H) (m : UdpMessage H) : Prop where
  dest : ∃ o, uconns[task.dest_]? = some o ∧ o.uconn.peer_ = m.dest
  payload : task.buffer_.contents = m.payload
  handler : task.handler_ = m.handler

/-- The tasks that were not handed over yet. -/
def waiting (s : UdpRun H) : List (UdpTask H) :=
  if s.point = .completing then s.world.socket.writTasks_.tail else s.world.socket.writTasks_

/-- What was handed over is what was given to `send`, in its order, and the rest of it waits. -/
structure Logged (s : UdpRun H) : Prop where
  handed : s.world.handed <+: s.world.queued
  waits : s.world.socket.destroy_ = false → ∃ pending,
    List.Forall₂ (Addressed s.world.uconns) s.waiting pending ∧ s.world.queued = s.world.handed ++ pending
  front : s.world.socket.destroy_ = false → s.point = .completing → s.world.socket.writTasks_ ≠ []

/--
The `dest_` of each task belongs to a connection that is owned, and each datagram goes to the peer on
whose connection `send` was called.
-/
structure Destined (s : UdpRun H) : Prop where
  owned : ∀ task ∈ s.world.socket.writTasks_, s.Owned task.dest_
  log : Logged s

/-- The step does not free a connection that a task in the queue is for. -/
def KeepsDestinations (s : UdpRun H) (e : UdpStep H) : Prop :=
  ∀ task ∈ s.world.socket.writTasks_, s.freedBy e ≠ some task.dest_

instance (s : UdpRun H) (e : UdpStep H) : Decidable (KeepsDestinations s e) :=
  inferInstanceAs (Decidable (∀ task ∈ _, _ ≠ _))

theorem freedBy_destroyConn {q : Nat} {o : UdpObject} (ho : s.world.uconns[q]? = some o) :
    s.freedBy (.act (.destroyConn q)) = (s.world.socket.conns_.find Endpoint.lt o.uconn.peer_).bind
      fun r => if UdpOwns (s.world.socket.conns_.erase Endpoint.lt o.uconn.peer_) s.kept
        s.point.holds r then none else some r := by
  show (s.world.uconns[q]? >>= _) = _
  rw [ho]
  rfl

/-- A step with one owner less takes it from the connection that `freedBy` names. -/
theorem Moves.owned (h : Moves s e t) (hs : Sound s) (hp : s.Owned p) (hfreed : s.freedBy e ≠ some p) :
    t.Owned p ∨ t.world.socket.writTasks_ = [] := by
  cases h with
  | frame _ hworld hkept hholds => exact .inl (hp.congr hworld.conns hkept hholds)
  | send _ _ _ hsent => exact .inl (hp.congr (send_ok hsent).conns rfl rfl)
  | @destroyConn _ o _ ho =>
    left
    show UdpOwns (s.world.destroyConn none o.uconn.peer_).socket.conns_ s.kept s.point.holds p
    rw [(frame_destroyConn _ _).conns]
    rw [freedBy_destroyConn ho] at hfreed
    rcases owned_iff.mp hp with hmem | hrest
    · cases hfind : s.world.socket.conns_.find Endpoint.lt o.uconn.peer_ with
      | none =>
        unfold erased
        rw [KeyMap.erase_of_find_none hfind]
        exact .inl hmem
      | some r =>
        rw [hfind, Option.bind_some] at hfreed
        by_cases hpr : p = r
        · subst hpr
          by_contra hnot
          exact hfreed (if_neg hnot)
        · exact .inl (erase_conns_of_ne hs.keys hfind hmem hpr)
    · exact .inr hrest
  | keep =>
    rcases owned_iff.mp hp with hconns | hkept | hholds
    · exact .inl (.inl hconns)
    · exact .inl (.inr (.inl (List.mem_cons_of_mem _ hkept)))
    · exact .inl (.inr (.inr hholds))
  | @drop q =>
    left
    by_cases hpq : p = q
    · subst hpq
      by_contra hnot
      exact hfreed (if_neg hnot)
    · rcases owned_iff.mp hp with hconns | hkept | hholds
      · exact .inl hconns
      · exact .inr (.inl ((List.mem_erase_of_ne hpq).mpr hkept))
      · exact .inr (.inr hholds)
  | connect hnew hworld _ hkept hpoint =>
    left
    rcases owned_iff.mp hp with hconns | hp | hholds
    · exact .inl ((mem_makeConn hnew hworld).mpr (.inl hconns))
    · exact .inr (.inl (hkept hp))
    · exact .inr (.inr (hpoint ▸ hholds))
  | destroy _ _ hworld =>
    right
    rw [hworld]
    rfl
  | accept hpoint hnew hworld hkept =>
    left
    rcases owned_iff.mp hp with hconns | hp | hholds
    · exact .inl ((mem_makeConn hnew hworld).mpr (.inl hconns))
    · exact .inr (.inl (hkept ▸ hp))
    · rw [hpoint] at hholds
      cases hholds
  | @release q _ hheld hfreedBy hworld hkept hpoint =>
    left
    show UdpOwns t.world.socket.conns_ t.kept t.point.holds p
    rw [hworld.conns, hkept, hpoint]
    by_cases hpq : p = q
    · subst hpq
      by_contra hnot
      exact hfreed (hfreedBy.trans (if_neg hnot))
    · rcases owned_iff.mp hp with hconns | hp | hholds
      · exact .inl hconns
      · exact .inr (.inl hp)
      · exact absurd (Option.some.inj (hholds.symm.trans hheld)) hpq
  | complete hpoint => exact .inl (hp.congr rfl rfl (by rw [hpoint]; rfl))
  | handOver hpoint | pop hpoint =>
    refine .inl (hp.congr rfl rfl ?_)
    rw [hpoint, whileTasks_holds]
    rfl

/-- The connection that a step frees has no owner left, and the queue is as before. -/
theorem Moves.freed (h : Moves s e t) (hfreed : s.freedBy e = some p) :
    ¬t.Owned p ∧ t.world.socket.writTasks_ = s.world.socket.writTasks_ := by
  cases h with
  | frame hnone | destroy hnone => cases hnone.symm.trans hfreed
  | send | keep | connect | accept | complete | handOver => cases hfreed
  | @destroyConn _ o _ ho =>
    rw [freedBy_destroyConn ho] at hfreed
    cases hfind : s.world.socket.conns_.find Endpoint.lt o.uconn.peer_ with
    | none =>
      rw [hfind] at hfreed
      cases hfreed
    | some r =>
      rw [hfind, Option.bind_some] at hfreed
      split at hfreed
      · cases hfreed
      · next hnot =>
        cases hfreed
        refine ⟨?_, (frame_destroyConn _ _).tasks⟩
        show ¬UdpOwns (s.world.destroyConn none o.uconn.peer_).socket.conns_ s.kept s.point.holds _
        rw [(frame_destroyConn _ _).conns]
        exact hnot
  | drop =>
    unfold freedBy at hfreed
    dsimp only at hfreed
    split at hfreed
    · cases hfreed
    · next hnot =>
      cases hfreed
      exact ⟨hnot, rfl⟩
  | release _ hfreedBy hworld hkept hpoint =>
    rw [hfreedBy] at hfreed
    split at hfreed
    · cases hfreed
    · next hnot =>
      cases hfreed
      refine ⟨?_, hworld.tasks⟩
      show ¬UdpOwns t.world.socket.conns_ t.kept t.point.holds _
      rw [hworld.conns, hkept, hpoint]
      exact hnot
  | pop hpoint =>
    unfold freedBy at hfreed
    rw [hpoint] at hfreed
    cases hfreed

/-- A task of the queue was there before, or is for a connection that is owned. -/
theorem Moves.dests (h : Moves s e t) : ∀ task ∈ t.world.socket.writTasks_,
    (∃ task' ∈ s.world.socket.writTasks_, task'.dest_ = task.dest_) ∨ s.Owned task.dest_ := by
  have hsame : ∀ {tasks : List (UdpTask H)}, tasks = s.world.socket.writTasks_ → ∀ task ∈ tasks,
      (∃ task' ∈ s.world.socket.writTasks_, task'.dest_ = task.dest_) ∨ s.Owned task.dest_ :=
    fun heq task htask => .inl ⟨task, heq ▸ htask, rfl⟩
  cases h with
  | frame _ hworld | release _ _ hworld => exact hsame hworld.tasks
  | send howned _ _ hsent =>
    rw [(send_ok hsent).tasks]
    intro task htask
    rcases List.mem_append.mp htask with htask | htask
    · exact hsame rfl task htask
    · rw [List.mem_singleton.mp htask]
      exact .inr howned
  | destroyConn => exact hsame (frame_destroyConn _ _).tasks
  | keep | drop => exact hsame rfl
  | connect _ hworld | accept _ _ hworld => exact hsame hworld.tasks
  | destroy _ hlive hworld =>
    rw [hworld]
    exact nofun
  | @complete first _ _ _ _ _ _ hqueue =>
    intro task htask
    rcases List.mem_cons.mp htask with rfl | htask
    · exact .inl ⟨first, by rw [hqueue]; exact List.mem_cons_self, rfl⟩
    · exact .inl ⟨task, by rw [hqueue]; exact List.mem_cons_of_mem _ htask, rfl⟩
  | handOver _ hqueue | pop _ hqueue =>
    exact fun task htask => .inl ⟨task, by rw [hqueue]; exact List.mem_cons_of_mem _ htask, rfl⟩

/-- **A step keeps the owners of the queue exactly if it frees none of their connections.** -/
theorem Moves.owned_iff_keeps (h : Moves s e t) (hs : Sound s)
    (howned : ∀ task ∈ s.world.socket.writTasks_, s.Owned task.dest_) :
    (∀ task ∈ t.world.socket.writTasks_, t.Owned task.dest_) ↔ KeepsDestinations s e := by
  constructor
  · intro ht task htask hfreed
    obtain ⟨hnot, htasks⟩ := h.freed hfreed
    exact hnot (ht task (by rw [htasks]; exact htask))
  · intro hkeeps task htask
    have hs' : s.Owned task.dest_ := by
      rcases h.dests task htask with ⟨task', htask', hdest⟩ | howned'
      · exact hdest ▸ howned task' htask'
      · exact howned'
    have hfreed : s.freedBy e ≠ some task.dest_ := by
      intro hfreed
      rw [(h.freed hfreed).2] at htask
      exact hkeeps task htask hfreed
    rcases h.owned hs hs' hfreed with ht | hnil
    · exact ht
    · rw [hnil] at htask
      cases htask

/-! ## The log -/

theorem Addressed.extends (h : Extends w w') {task : UdpTask H} {m : UdpMessage H}
    (ha : Addressed w.uconns task m) : Addressed w'.uconns task m where
  dest := by
    obtain ⟨o, ho, hpeer⟩ := ha.dest
    obtain ⟨o', ho', hsame⟩ := h.object ho
    exact ⟨o', ho', hsame.peer.trans hpeer⟩
  payload := ha.payload
  handler := ha.handler

/-- A step that leaves the tasks and the log as they are. -/
theorem Logged.same (hl : Logged s) (hext : Extends s.world t.world)
    (hqueued : t.world.queued = s.world.queued) (hhanded : t.world.handed = s.world.handed)
    (hdestroy : t.world.socket.destroy_ = s.world.socket.destroy_)
    (htasks : t.world.socket.writTasks_ = s.world.socket.writTasks_)
    (hpoint : t.point = .completing ↔ s.point = .completing) : Logged t where
  handed := by
    rw [hqueued, hhanded]
    exact hl.handed
  waits hlive := by
    rw [hdestroy] at hlive
    obtain ⟨pending, hwaiting, hlog⟩ := hl.waits hlive
    refine ⟨pending, ?_, by rw [hqueued, hhanded]; exact hlog⟩
    have hsame : t.waiting = s.waiting := by
      unfold waiting
      rw [htasks]
      exact if_congr hpoint rfl rfl
    rw [hsame]
    exact hwaiting.imp fun _ _ ha => ha.extends hext
  front hlive hcompleting := by
    rw [htasks]
    exact hl.front (hdestroy ▸ hlive) (hpoint.mp hcompleting)

theorem data_contents {b : Buffer} {base : Bytes} (hwf : b.Wf) (h : b.data = .ok base) :
    base = b.contents := by
  cases hb : b.buffer_ with
  | none =>
    unfold Buffer.data at h
    rw [hb, guardOr_neg (by simp)] at h
    cases h
  | some block => exact Except.ok.inj (h.symm.trans (hwf.data_of_block hb))

/-- The datagram at the front is the next one of the log. -/
theorem Logged.next (hl : Logged s) (hg : Gone s.world.socket) (hpoint : s.point = .sendto)
    {first : UdpTask H} {tasks : List (UdpTask H)} {o : UdpObject} {base : Bytes}
    (hqueue : s.world.socket.writTasks_ = first :: tasks) (hwf : first.buffer_.Wf)
    (ho : s.world.uconns[first.dest_]? = some o) (hbase : first.buffer_.data = .ok base) :
    ∃ rest, List.Forall₂ (Addressed s.world.uconns) tasks rest ∧
      s.world.queued = s.world.handed ++ [message first o base] ++ rest := by
  obtain ⟨pending, hwaiting, hlog⟩ := hl.waits (hg.live_of_queue hqueue)
  unfold waiting at hwaiting
  rw [if_neg (by rw [hpoint]; nofun), hqueue] at hwaiting
  obtain ⟨m, rest, hfirst, hrest, rfl⟩ := List.forall₂_cons_left_iff.mp hwaiting
  obtain ⟨o', ho', hpeer⟩ := hfirst.dest
  cases ho.symm.trans ho'
  have hm : message first o base = m := by
    unfold message
    rw [hpeer, data_contents hwf hbase, hfirst.payload, hfirst.handler]
  refine ⟨rest, hrest, ?_⟩
  rw [hlog, hm, List.append_assoc]
  rfl

theorem whileTasks_point (s : UdpRun H) : s.whileTasks.point ≠ .completing := by
  unfold whileTasks
  dsimp only
  split <;> nofun

/-- A new task waits at the end. -/
theorem Logged.send (hl : Logged s) (hg : Gone s.world.socket) {o : UdpObject} {q : Nat} {buf : Buffer}
    {handler_ : Option H} (ho : s.world.uconns[q]? = some o)
    (hsent : s.world.send o { dest_ := q, buffer_ := buf, handler_ := handler_ } = .ok w) :
    Logged { s with world := w } := by
  have hlive := hg.live_of_send hsent
  have hframe := send_ok hsent
  have hext : Extends s.world w := ⟨hframe.extends.length, hframe.extends.objects⟩
  obtain ⟨pending, hwaiting, hlog⟩ := hl.waits hlive
  obtain ⟨m, hqueued, hnew⟩ : ∃ m, w.queued = s.world.queued ++ [m] ∧
      Addressed s.world.uconns { dest_ := q, buffer_ := buf, handler_ := handler_ } m :=
    ⟨_, hframe.queued, ⟨o, ho, rfl⟩, rfl, rfl⟩
  have hafter : ({ s with world := w } : UdpRun H).waiting =
      s.waiting ++ [{ dest_ := q, buffer_ := buf, handler_ := handler_ }] := by
    unfold waiting
    dsimp only
    rw [hframe.tasks]
    split
    · next hcompleting => exact List.tail_append_of_ne_nil (hl.front hlive hcompleting)
    · rfl
  refine ⟨?_, fun _ => ⟨pending ++ [m], ?_, ?_⟩, fun _ hcompleting => ?_⟩
  · show w.handed <+: w.queued
    rw [hframe.handed, hqueued]
    exact hl.handed.trans (List.prefix_append _ _)
  · rw [hafter]
    exact List.rel_append (hwaiting.imp fun _ _ ha => ha.extends hext) (.cons (hnew.extends hext) .nil)
  · show w.queued = w.handed ++ _
    rw [hframe.handed, hqueued, ← List.append_assoc, ← hlog]
  · show w.socket.writTasks_ ≠ []
    rw [hframe.tasks]
    exact List.append_ne_nil_of_right_ne_nil _ (List.cons_ne_nil _ _)

theorem Logged.moves (hl : Logged s) (hs : Sound s) (hg : Gone s.world.socket) (h : Moves s e t) :
    Logged t := by
  have hext := h.extends
  cases h with
  | frame _ hworld _ _ hpoint =>
    exact hl.same hext hworld.queued hworld.handed hworld.destroy hworld.tasks hpoint
  | send _ ho _ hsent => exact hl.send hg ho hsent
  | @destroyConn _ o =>
    have hframe := frame_destroyConn s.world o.uconn.peer_
    exact hl.same hext hframe.queued hframe.handed hframe.destroy hframe.tasks Iff.rfl
  | keep | drop => exact ⟨hl.handed, hl.waits, hl.front⟩
  | connect _ hworld _ _ hpoint =>
    exact hl.same hext hworld.queued hworld.handed hworld.destroy hworld.tasks (by rw [hpoint])
  | destroy _ hlive hworld =>
    rw [hworld] at hext
    refine ⟨?_, fun hlive' => ?_, fun hlive' => ?_⟩
    · rw [hworld]
      exact hl.handed
    all_goals
      rw [hworld] at hlive'
      cases hlive'
  | accept hpoint _ hworld _ _ hcompleting =>
    exact hl.same hext hworld.queued hworld.handed hworld.destroy hworld.tasks
      ⟨fun h => absurd h hcompleting, fun h => (by rw [hpoint] at h; cases h)⟩
  | release hheld _ hworld _ hpoint =>
    refine hl.same hext hworld.queued hworld.handed hworld.destroy hworld.tasks ⟨fun h => ?_, fun h => ?_⟩
    · rw [hpoint] at h
      cases h
    · rw [h] at hheld
      cases hheld
  | complete hpoint hqueue ho hbase =>
    have hwf := hs.tasks _ (by rw [hqueue]; exact List.mem_cons_self)
    obtain ⟨rest, hrest, hlog⟩ := hl.next hg hpoint hqueue hwf ho hbase
    exact ⟨⟨rest, hlog.symm⟩, fun _ => ⟨rest, hrest, hlog⟩, fun _ _ => List.cons_ne_nil _ _⟩
  | handOver hpoint hqueue ho hbase =>
    have hwf := hs.tasks _ (by rw [hqueue]; exact List.mem_cons_self)
    obtain ⟨rest, hrest, hlog⟩ := hl.next hg hpoint hqueue hwf ho hbase
    refine ⟨⟨rest, hlog.symm⟩, fun _ => ⟨rest, ?_, hlog⟩, fun _ h => absurd h (whileTasks_point _)⟩
    unfold waiting
    rw [if_neg (whileTasks_point _)]
    exact hrest
  | pop hpoint hqueue =>
    obtain ⟨pending, hwaiting, hlog⟩ := hl.waits (hg.live_of_queue hqueue)
    refine ⟨hl.handed, fun _ => ⟨pending, ?_, hlog⟩, fun _ h => absurd h (whileTasks_point _)⟩
    unfold waiting at hwaiting ⊢
    rw [if_pos hpoint, hqueue] at hwaiting
    rw [if_neg (whileTasks_point _)]
    exact hwaiting

/-! ## Runs -/

theorem Logged.settle (hl : Logged s) : Logged s.settle :=
  hl.same (Frame.settle s).extends rfl rfl rfl rfl Iff.rfl

theorem logged_started : Logged (started poller_ : UdpRun H) where
  handed := List.prefix_rfl
  waits _ := ⟨[], .nil, rfl⟩
  front _ h := by cases h

/-- What every step keeps. -/
structure Kept (s : UdpRun H) : Prop where
  sound : Sound s
  gone : Gone s.world.socket
  connected : Connected s.world.socket
  log : Logged s

theorem kept_started : Kept (started poller_ : UdpRun H) :=
  ⟨sound_started, nofun, fun _ => rfl, logged_started⟩

theorem Kept.step (hs : Kept s) (h : s.step e = .ok t) : Kept t := by
  obtain ⟨u, hu, rfl⟩ := step_cases hs.sound h
  exact ⟨(hs.sound.moves hu).settle, hu.gone hs.gone, hu.connected hs.connected,
    (hs.log.moves hs.sound hs.gone hu).settle⟩

theorem destined_started : Destined (started poller_ : UdpRun H) := ⟨nofun, logged_started⟩

/-- Nothing is sent through a pointer to a connection that is gone. -/
theorem Destined.access (h : Destined s) (hs : Kept s) (hsettled : Settled s) {task : UdpTask H}
    (htask : task ∈ s.world.socket.writTasks_) : ∃ o, s.world.access task.dest_ = .ok o :=
  (hsettled.access hs.sound (h.owned task htask)).imp fun _ ho => ho.1

/--
**The tasks of the queue are for connections that are owned exactly if no connection is freed while a
task for it is in the queue.**
-/
theorem destinations_iff {es : List (UdpStep H)} {s' : UdpRun H}
    (h : run step (started poller_) es = .ok s') :
    Along step KeepsDestinations (started poller_) es ↔
      ∀ es' t, es' <+: es → run step (started poller_) es' = .ok t → Destined t := by
  refine along_iff_invariant_of (B := Kept) (fun s e t hs ht => hs.step ht) ?_ kept_started
    destined_started h
  intro s e t hs hd ht
  obtain ⟨u, hu, rfl⟩ := step_cases hs.sound ht
  rw [← hu.owned_iff_keeps hs.sound hd.owned]
  exact ⟨fun hdestined => hdestined.owned, fun howned => ⟨howned, (hs.step ht).log⟩⟩

/-- A connection is made, and a datagram is sent on it. -/
def connectAndSend : List (UdpStep Unit) :=
  [.act (.connect { port_ := 80, addr_ := 1 }), .act (.send 0 (.string [7] none) trivial), .act (.drop 0)]

/-- The datagram goes out before the connection is destroyed. -/
def sendAndDestroy : List (UdpStep Unit) :=
  connectAndSend ++ [.writEvent, .sendto .sent, .act (.destroyConn 0)]

theorem destinations_sent : (∃ s', run step (started .epoll) sendAndDestroy = .ok s') ∧
    ∀ es' t, es' <+: sendAndDestroy → run step (started .epoll) es' = .ok t → Destined t := by
  have hrun : (run step (started .epoll) sendAndDestroy).toOption.map (fun _ => ()) = some () := by
    decide +kernel
  obtain ⟨t, ht, -⟩ := ok_of_toOption_map hrun
  exact ⟨⟨t, ht⟩, (destinations_iff ht).mp (by decide +kernel)⟩

/-- The connection is destroyed first: its datagram is sent through a pointer to freed memory. -/
theorem destination_dangles : ∃ t, run step (started .epoll) (connectAndSend ++ [.act (.destroyConn 0)]) = .ok t ∧
    ¬Destined t ∧ run step t [.writEvent, .sendto .sent] = .error .outOfBounds := by
  have hrun : (run step (started .epoll) (connectAndSend ++ [.act (.destroyConn 0)])).toOption.map (fun t =>
      (t.world.socket.writTasks_.any fun task => !decide (t.Owned task.dest_),
        run step t [.writEvent, .sendto .sent])) = some (true, .error .outOfBounds) := by
    decide +kernel
  obtain ⟨t, ht, hseen⟩ := ok_of_toOption_map hrun
  obtain ⟨hany, hfault⟩ := Prod.mk.inj hseen
  refine ⟨t, ht, fun hd => ?_, hfault⟩
  obtain ⟨task, htask, hnot⟩ := List.any_eq_true.mp hany
  rw [decide_eq_true (hd.owned task htask)] at hnot
  cases hnot

end UdpRun

end Liby
