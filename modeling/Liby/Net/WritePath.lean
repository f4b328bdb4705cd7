import Liby.Infra.Machine
import Liby.Net.Connection

/-!
# The write path keeps the stream

A connection that is open sends what it was given: what the kernel has accepted is the start of
all payloads in the order of the calls, what `writTasks_` holds is the rest, and the handlers that
have run are those of the payloads that are out as a whole.
-/

namespace Liby

open Infra Outbox

variable {σ H : Type _} {cb : Callbacks σ H} {l l' : Link σ H}

/-! ## Tasks -/

namespace IoTask

/-- The bytes that a task has still to send. -/
def remaining (t : IoTask H) : Bytes :=
  match t.fp_ with
  | some fp => (fp.drop t.offset_).take t.len_
  | none =>
    match t.buffer_ with
    | some buffer => buffer.contents
    | none => []

/-- A task as a message. -/
def message (t : IoTask H) : Message UInt8 (Option H) :=
  { payload := t.remaining, tag := t.handler_ }

/-- A task with something to send: a part that the file has, or a buffer that is not empty. -/
inductive Ok (t : IoTask H) : Prop where
  | file {fp : Bytes} : t.fp_ = some fp → 0 < t.len_ → t.offset_ + t.len_ ≤ fp.length → Ok t
  | buffer {buffer : Buffer} : t.fp_ = none → t.buffer_ = some buffer → buffer.Wf →
      buffer.contents ≠ [] → Ok t

/-- A task that may have nothing to send: a part that the file has, or a buffer with a block. -/
inductive Held (t : IoTask H) : Prop where
  | file {fp : Bytes} : t.fp_ = some fp → t.offset_ + t.len_ ≤ fp.length → Held t
  | buffer {buffer : Buffer} {block : Bytes} : t.fp_ = none → t.buffer_ = some buffer → buffer.Wf →
      buffer.buffer_ = some block → Held t

variable {t : IoTask H}

theorem Ok.held (h : t.Ok) : t.Held := by
  rcases h with ⟨hfp, -, hle⟩ | ⟨hfp, hb, hwf, hne⟩
  · exact .file hfp hle
  · obtain ⟨block, hblock⟩ := Buffer.block_of_ne hne
    exact .buffer hfp hb hwf hblock

theorem remaining_file {fp : Bytes} (h : t.fp_ = some fp) :
    t.remaining = (fp.drop t.offset_).take t.len_ := by
  unfold remaining
  rw [h]

theorem remaining_buffer {buffer : Buffer} (h : t.fp_ = none) (hb : t.buffer_ = some buffer) :
    t.remaining = buffer.contents := by
  unfold remaining
  rw [h, hb]

theorem length_remaining_file {fp : Bytes} (h : t.fp_ = some fp)
    (hle : t.offset_ + t.len_ ≤ fp.length) : t.remaining.length = t.len_ := by
  rw [remaining_file h, List.length_take, List.length_drop]
  omega

theorem Ok.remaining_ne (h : t.Ok) : t.remaining ≠ [] := by
  rcases h with ⟨hfp, hpos, hle⟩ | ⟨hfp, hb, -, hne⟩
  · intro hnil
    have hlen := length_remaining_file hfp hle
    rw [hnil, List.length_nil] at hlen
    omega
  · rwa [remaining_buffer hfp hb]

/-- What is held is something to send if bytes are left of it. -/
theorem Held.ok (h : t.Held) (hne : t.remaining ≠ []) : t.Ok := by
  rcases h with ⟨hfp, hle⟩ | ⟨hfp, hb, hwf, -⟩
  · refine .file hfp (Nat.pos_of_ne_zero fun hzero => hne ?_) hle
    rw [remaining_file hfp, hzero, List.take_zero]
  · rw [remaining_buffer hfp hb] at hne
    exact .buffer hfp hb hwf hne

end IoTask

/-- A call that sends something, or that leaves the queue and the connection alone. -/
def ConnCall.Sends : ConnCall H → Prop
  | .send base _ => base ≠ []
  | .sendBuffer buf _ | .sendMoved buf _ => buf.Wf ∧ buf.contents ≠ []
  | .sendCString buf _ => buf.takeWhile (· ≠ 0) ≠ []
  | .sendString str _ => str ≠ []
  | .sendFile fp off len _ => 0 < len ∧ off + len ≤ fp.length
  | .enableRead _ | .destroyLater => True
  | .destroy => False

/-- How often a call puts off `destroy`. -/
def ConnCall.ticks : ConnCall H → Nat
  | .destroyLater => 1
  | _ => 0

/-- What a call puts in the queue. -/
def ConnCall.tasks : ConnCall H → List (IoTask H)
  | .send base handler => [.ofBuffer (.ofBytes base) handler]
  | .sendBuffer buf handler | .sendMoved buf handler => [.ofBuffer buf handler]
  | .sendCString buf handler => [.ofBuffer (.ofBytes (buf.takeWhile (· ≠ 0))) handler]
  | .sendString str handler => if str = [] then [] else [.ofBuffer (.ofBytes str) handler]
  | .sendFile fp off len handler => [.ofFile fp off len handler]
  | .enableRead _ | .destroy | .destroyLater => []

/-- What a call does to the channel. -/
def ConnCall.interest (ch : Channel) : ConnCall H → Channel
  | .sendString str _ => if str = [] then ch else { ch with writable_ := true }.updateChannel
  | .enableRead flag => { ch with readable_ := flag }.updateChannel
  | .destroy | .destroyLater => ch
  | _ => { ch with writable_ := true }.updateChannel

/-- A call that passes its `assert` and does not destroy the connection. -/
def ConnCall.Plain : ConnCall H → Prop
  | .sendBuffer buf _ => 0 < buf.capacity_ ∧ buf.leftIndex_ ≤ buf.rightIndex_
  | .destroy => False
  | _ => True

namespace ConnCall

theorem message_ofBytes (base : Bytes) (handler : Option H) :
    (IoTask.ofBuffer (.ofBytes base) handler).message = { payload := base, tag := handler } := by
  unfold IoTask.message
  rw [IoTask.remaining_buffer rfl rfl, Buffer.contents_ofBytes]
  rfl

/-- What is put in the queue is what is sent. -/
theorem tasks_messages (x : ConnCall H) : x.tasks.map IoTask.message = x.messages := by
  cases x with
  | send base handler => simp [tasks, messages, message_ofBytes]
  | sendCString buf handler => simp [tasks, messages, message_ofBytes]
  | sendString str handler =>
    rw [tasks, messages]
    split
    · rfl
    · simp [message_ofBytes]
  | sendBuffer buf handler | sendMoved buf handler | sendFile fp off len handler => rfl
  | enableRead flag | destroy | destroyLater => rfl

theorem flatMap_tasks (xs : List (ConnCall H)) :
    (xs.flatMap tasks).map IoTask.message = xs.flatMap messages := by
  rw [List.map_flatMap]
  exact congrArg (fun f => xs.flatMap f) (funext tasks_messages)

/-- What is put in the queue turns the write interest on. -/
theorem interest_on (x : ConnCall H) {ch : Channel}
    (hch : x.tasks = [] → ch.writable_ = true ∧ ch.polledOut = true) :
    (x.interest ch).writable_ = true ∧ (x.interest ch).polledOut = true := by
  cases x with
  | sendString str handler =>
    rw [interest]
    split
    · next hnil => exact hch (if_pos hnil)
    · exact ⟨rfl, rfl⟩
  | enableRead flag => exact ⟨(hch rfl).1, (hch rfl).1⟩
  | destroy | destroyLater => exact hch rfl
  | send base handler | sendBuffer buf handler | sendMoved buf handler | sendCString buf handler
  | sendFile fp off len handler => exact ⟨rfl, rfl⟩

theorem Sends.plain {x : ConnCall H} (hx : x.Sends) : x.Plain := by
  cases x with
  | sendBuffer buf handler =>
    obtain ⟨hwf, hne⟩ := hx
    have hlen := hwf.length_contents
    have hright := hwf.right_le
    have hpos := List.length_pos_iff.mpr hne
    exact ⟨by omega, hwf.left_le⟩
  | destroy => exact hx
  | _ => trivial

theorem ofBytes_ok {base : Bytes} (hne : base ≠ []) (handler : Option H) :
    (IoTask.ofBuffer (.ofBytes base) handler).Ok :=
  .buffer rfl rfl (Buffer.wf_ofBytes base) (by rwa [Buffer.contents_ofBytes])

theorem Sends.tasks_ok {x : ConnCall H} (hx : x.Sends) : ∀ t ∈ x.tasks, t.Ok := by
  cases x with
  | send base handler => exact List.forall_mem_singleton.mpr (ofBytes_ok hx handler)
  | sendBuffer buf handler | sendMoved buf handler =>
    exact List.forall_mem_singleton.mpr (.buffer rfl rfl hx.1 hx.2)
  | sendCString buf handler => exact List.forall_mem_singleton.mpr (ofBytes_ok hx handler)
  | sendString str handler =>
    have hne : str ≠ [] := hx
    rw [tasks, if_neg hne]
    exact List.forall_mem_singleton.mpr (ofBytes_ok hx handler)
  | sendFile fp off len handler => exact List.forall_mem_singleton.mpr (.file rfl hx.1 hx.2)
  | enableRead flag | destroy | destroyLater => exact nofun

end ConnCall

/-! ## Calls on an open connection -/

namespace Connection

/-- The write interest is on, in the channel and in the poller, while there is something to send. -/
def Interested (c : Connection H) : Prop :=
  ∃ ch, c.chan_ = some ch ∧ (c.writTasks_ ≠ [] → ch.writable_ = true ∧ ch.polledOut = true)

/-- A connection that is not destroyed, with tasks that have something to send. -/
structure Open (c : Connection H) : Prop where
  alive : c.destroy_ = false
  socket : c.socket_ = true
  interest : c.Interested
  tasks : ∀ t ∈ c.writTasks_, t.Ok

theorem open_accepted : (accepted : Connection H).Open where
  alive := rfl
  socket := rfl
  interest := ⟨_, rfl, fun h => absurd rfl h⟩
  tasks := fun _ ht => by cases ht

variable {c : Connection H}

theorem emplace_eq {ch : Channel} (hch : c.chan_ = some ch) (t : IoTask H) :
    c.emplace t = .ok { c with
      writTasks_ := c.writTasks_ ++ [t], chan_ := some { ch with writable_ := true }.updateChannel } := by
  unfold emplace enableWrit channel
  rw [hch]
  rfl

/-- **A call puts what it sends at the end of the queue.** -/
theorem call_eq {ch : Channel} (hch : c.chan_ = some ch) {x : ConnCall H} (hx : x.Plain) :
    c.call x = .ok { c with
      writTasks_ := c.writTasks_ ++ x.tasks
      chan_ := some (x.interest ch)
      nextTicks := c.nextTicks + x.ticks } := by
  cases x with
  | send base handler => exact emplace_eq hch _
  | sendBuffer buf handler =>
    have hassert : 0 < buf.capacity_ ∧ buf.leftIndex_ ≤ buf.rightIndex_ := hx
    show (sendBuffer c buf handler >>= fun r => _) = _
    unfold sendBuffer
    rw [guardOr_pos hassert, ok_bind, emplace_eq hch]
    rfl
  | sendMoved buf handler => exact emplace_eq hch _
  | sendCString buf handler => exact emplace_eq hch _
  | sendString str handler =>
    show sendString c str handler = _
    rw [sendString, ConnCall.interest, ConnCall.tasks]
    split
    · rw [List.append_nil, ← hch]
      rfl
    · exact emplace_eq hch _
  | sendFile fp off len handler => exact emplace_eq hch _
  | enableRead flag =>
    show enableRead c flag = _
    unfold enableRead channel
    rw [hch, ok_bind]
    dsimp only [ConnCall.tasks]
    rw [List.append_nil]
    rfl
  | destroyLater =>
    show Except.ok (destroyLater c) = _
    dsimp only [ConnCall.tasks, ConnCall.interest]
    rw [List.append_nil, ← hch]
    rfl
  | destroy => exact absurd hx id

/-- A call that sends leaves the connection open. -/
theorem Open.call (h : Open c) {x : ConnCall H} (hx : x.Sends) :
    ∃ c', c.call x = .ok c' ∧ Open c' ∧ c'.writTasks_ = c.writTasks_ ++ x.tasks ∧
      c'.nextTicks = c.nextTicks + x.ticks := by
  obtain ⟨ch, hch, hon⟩ := h.interest
  refine ⟨_, call_eq hch hx.plain, ⟨h.alive, h.socket, ⟨_, rfl, fun hfull => ?_⟩, ?_⟩, rfl, rfl⟩
  · exact x.interest_on fun hnone => by
      rw [hnone, List.append_nil] at hfull
      exact hon hfull
  · intro t ht
    rcases List.mem_append.mp ht with ht | ht
    · exact h.tasks t ht
    · exact hx.tasks_ok t ht

end Connection

/-- An answer that is no error: the kernel accepts at least one byte, or none at present. -/
def WriteAnswer.Sound : WriteAnswer → Prop
  | .again => True
  | .accepted n => 0 < n
  | .failed => False

/-- Completion handlers that send, and do not destroy the connection. -/
def Callbacks.HandlersSend (cb : Callbacks σ H) : Prop :=
  ∀ w handler, ∀ x ∈ (cb.complete w handler).2, x.Sends

/--
A property of the user's state, of what was sent, of the handlers that have run, and of how often
`destroy` is put off.
-/
abbrev History (σ H : Type _) := σ → List (Message UInt8 (Option H)) → List H → Nat → Prop

/-- Handlers that send and keep `J`. The handler that runs is the next one of what was sent. -/
def Callbacks.Keeps (cb : Callbacks σ H) (J : History σ H) : Prop :=
  ∀ w sent ran ticks handler, J w sent ran ticks → ran ++ [handler] <+: sent.filterMap Message.tag →
    (∀ x ∈ (cb.complete w handler).2, x.Sends) ∧
    J (cb.complete w handler).1 (sent ++ (cb.complete w handler).2.flatMap ConnCall.messages)
      (ran ++ [handler]) (ticks + ((cb.complete w handler).2.map ConnCall.ticks).sum)

theorem Callbacks.HandlersSend.keeps (hcb : cb.HandlersSend) : cb.Keeps fun _ _ _ _ => True :=
  fun w _ _ _ handler _ _ => ⟨hcb w handler, trivial⟩

namespace Link

/-- **Calls of a handler leave what was there before them.** -/
theorem calls_ok : ∀ {xs : List (ConnCall H)} {l : Link σ H}, l.conn.Open → (∀ x ∈ xs, x.Sends) →
    ∃ l', l.calls xs = .ok l' ∧ l'.conn.Open ∧
      l'.conn.writTasks_ = l.conn.writTasks_ ++ xs.flatMap ConnCall.tasks ∧
      l'.sent = l.sent ++ xs.flatMap ConnCall.messages ∧ l'.wire = l.wire ∧ l'.ran = l.ran ∧
      l'.world = l.world ∧ l'.conn.nextTicks = l.conn.nextTicks + (xs.map ConnCall.ticks).sum
  | [], l, h, _ => ⟨l, rfl, h, by simp, by simp, rfl, rfl, rfl, rfl⟩
  | x :: xs, l, h, hx => by
    obtain ⟨c, hc, hopen, htasks, hticks⟩ := h.call (hx x List.mem_cons_self)
    obtain ⟨l', hl', hopen', htasks', hsent, hwire, hran, hworld, hticks'⟩ :=
      calls_ok (l := { l with conn := c, sent := l.sent ++ x.messages }) hopen
        fun x' hx' => hx x' (List.mem_cons_of_mem x hx')
    refine ⟨l', ?_, hopen', ?_, ?_, hwire, hran, hworld, ?_⟩
    · unfold calls call
      rw [hc]
      exact hl'
    · rw [htasks']
      show c.writTasks_ ++ _ = _
      rw [htasks, List.flatMap_cons, List.append_assoc]
    · rw [hsent]
      show l.sent ++ x.messages ++ _ = _
      rw [List.flatMap_cons, List.append_assoc]
    · rw [hticks']
      show c.nextTicks + _ = _
      rw [hticks, List.map_cons, List.sum_cons, Nat.add_assoc]

/-! ## Bytes that are accepted -/

variable {I : Link σ H → Bytes → Prop} {credit : Bytes} {first : IoTask H} {tasks : List (IoTask H)}

/--
A write event keeps `I`, where `credit` is accepted by the kernel but not yet taken off the queue: a
task whose bytes are all out leaves it, and one of which a part is out keeps the rest.
-/
structure Credited (cb : Callbacks σ H) (I : Link σ H → Bytes → Prop) : Prop where
  socket : ∀ {l : Link σ H} {credit : Bytes}, I l credit → l.conn.socket_ = true
  held : ∀ {l : Link σ H} {credit : Bytes}, I l credit → ∀ t ∈ l.conn.writTasks_, t.Held
  accept : ∀ {l : Link σ H}, I l [] → ∀ credit, I { l with wire := l.wire ++ credit } credit
  finishBuffer : ∀ {l : Link σ H} {credit : Bytes} {first : IoTask H} {tasks : List (IoTask H)},
    I l (first.remaining ++ credit) → l.conn.writTasks_ = first :: tasks →
    ∃ l' new, l.finishBuffer cb first = .ok (.next l') ∧ I l' credit ∧
      l'.conn.writTasks_ = tasks ++ new
  finishFile : ∀ {l : Link σ H} {credit : Bytes} {first : IoTask H} {tasks : List (IoTask H)},
    I l (first.remaining ++ credit) → l.conn.writTasks_ = first :: tasks →
    ∃ l', l.finishFile cb first = .ok l' ∧ I l' credit
  shorten : ∀ {l : Link σ H} {n : Nat} {first t : IoTask H} {tasks : List (IoTask H)},
    I l (first.remaining.take n) → n < first.remaining.length → l.conn.writTasks_ = first :: tasks →
    t.Held → t.remaining = first.remaining.drop n → t.handler_ = first.handler_ →
    I { l with conn := { l.conn with writTasks_ := t :: tasks } } []

/-- The entries for `writev` are the buffers at the front of the queue. -/
theorem gather_ok : ∀ {tasks : List (IoTask H)}, (∀ t ∈ tasks, t.Held) →
    ∃ n, n ≤ tasks.length ∧ gather tasks = .ok ((tasks.take n).map IoTask.remaining) ∧
      (∀ t ∈ tasks.take n, t.fp_ = none) ∧ (∀ t ∈ tasks.head?, t.fp_ = none → 0 < n)
  | [], _ => ⟨0, le_rfl, rfl, fun _ ht => (by cases ht), fun _ ht => (by cases ht)⟩
  | x :: tasks, h => by
    rcases h x List.mem_cons_self with ⟨hsome, -⟩ | ⟨hnone, hb, hwf, hblock⟩
    · refine ⟨0, Nat.zero_le _, ?_, fun _ ht => (by cases ht), ?_⟩
      · unfold gather
        rw [hsome]
        rfl
      · intro t ht hnone
        cases ht
        rw [hsome] at hnone
        cases hnone
    · obtain ⟨n, hn, hgather, hfp, -⟩ := gather_ok fun t ht => h t (List.mem_cons_of_mem x ht)
      refine ⟨n + 1, Nat.succ_le_succ hn, ?_, ?_, fun _ _ _ => Nat.succ_pos n⟩
      · unfold gather
        rw [hnone, hb]
        dsimp only
        rw [hwf.data_of_block hblock, ok_bind, hgather, ok_bind, List.take_succ_cons, List.map_cons,
          IoTask.remaining_buffer hnone hb]
        rfl
      · intro t ht
        rw [List.take_succ_cons] at ht
        rcases List.mem_cons.mp ht with rfl | ht
        · exact hnone
        · exact hfp t ht

/-- There are entries if the first task has a buffer. -/
theorem gather_front (h : ∀ t ∈ l.conn.writTasks_, t.Held) (htasks : l.conn.writTasks_ = first :: tasks)
    (hnone : first.fp_ = none) : ∃ n, n ≤ l.conn.writTasks_.length ∧
      gather l.conn.writTasks_ = .ok ((l.conn.writTasks_.take n).map IoTask.remaining) ∧
      (∀ t ∈ l.conn.writTasks_.take n, t.fp_ = none) ∧
      (l.conn.writTasks_.take n).map IoTask.remaining ≠ [] := by
  obtain ⟨n, hn, hgather, hfp, hpos⟩ := gather_ok h
  refine ⟨n, hn, hgather, hfp, ?_⟩
  have hpos := hpos first (by simp [htasks]) hnone
  exact List.ne_nil_of_length_pos (by rw [List.length_map, List.length_take]; omega)

/--
**The accepted bytes are taken off the buffers that were gathered.** They do not reach beyond
those, so that what a handler adds at the end is not touched.
-/
theorem Credited.drain_ok (hI : Credited cb I) : ∀ {l : Link σ H} (n ret : Nat),
    I l ((((l.conn.writTasks_.take n).map IoTask.remaining).flatten).take ret) →
    n ≤ l.conn.writTasks_.length → (∀ t ∈ l.conn.writTasks_.take n, t.fp_ = none) →
    ret ≤ (((l.conn.writTasks_.take n).map IoTask.remaining).flatten).length →
    ∃ pass, drain cb n ret l = .ok pass ∧ I pass.out []
  | l, _, 0, h, _, _, _ => by
    refine ⟨.next l, by unfold drain; rfl, ?_⟩
    rwa [List.take_zero] at h
  | _, 0, ret + 1, _, _, _, hret => by simp at hret
  | l, n + 1, ret + 1, h, hn, hfp, hret => by
    cases htasks : l.conn.writTasks_ with
    | nil => rw [htasks] at hn; cases hn
    | cons first tasks =>
      have hheld := hI.held h first (by rw [htasks]; exact List.mem_cons_self)
      rw [htasks] at hn hfp hret h
      rw [List.take_succ_cons, List.map_cons, List.flatten_cons] at hret h
      have hnone : first.fp_ = none := hfp first (by simp)
      rcases hheld with ⟨hsome, -⟩ | @⟨buffer, block, -, hb, hwf, hblock⟩
      · rw [hnone] at hsome
        cases hsome
      · have hrem : first.remaining = buffer.contents := IoTask.remaining_buffer hnone hb
        unfold drain
        rw [htasks]
        dsimp only
        rw [hb]
        dsimp only
        rw [hwf.size_eq, ok_bind, ← hrem]
        split
        · next hle =>
          rw [List.take_append, List.take_of_length_le hle] at h
          obtain ⟨l', new, hfinish, hkept, htasks'⟩ := hI.finishBuffer h htasks
          -- a handler may have put tasks in, behind those the call was made for
          have htake : l'.conn.writTasks_.take n = tasks.take n := by
            rw [htasks', List.take_append_of_le_length (Nat.le_of_succ_le_succ hn)]
          rw [List.length_append] at hret
          rw [← htake] at hkept
          obtain ⟨pass, hpass, hout⟩ := hI.drain_ok n (ret + 1 - first.remaining.length) hkept
            (by rw [htasks', List.length_append]; simp only [List.length_cons] at hn; omega)
            (fun t ht => hfp t (by
              rw [htake] at ht
              rw [List.take_succ_cons]
              exact List.mem_cons_of_mem _ ht))
            (by rw [htake]; omega)
          exact ⟨pass, by rw [hfinish, ok_bind]; exact hpass, hout⟩
        · next hlt =>
          rw [List.take_append_of_le_length (by omega)] at h
          obtain ⟨rest, hrest, hwf', hcontents, -⟩ := hwf.retrieve_ok (ret + 1)
          refine ⟨_, by rw [hrest]; rfl, ?_⟩
          have hkeep : rest.buffer_ = some block := (Buffer.retrieve_buffer hrest).trans hblock
          refine hI.shorten h (by omega) htasks (.buffer hnone rfl hwf' hkeep) ?_ rfl
          rw [IoTask.remaining_buffer (t := { first with buffer_ := some rest }) hnone rfl, hcontents, hrem]

theorem Credited.bufferPass_ok (hI : Credited cb I) (h : I l [])
    (htasks : l.conn.writTasks_ = first :: tasks) (hnone : first.fp_ = none) {a : WriteAnswer}
    (ha : a.Sound) : Guarantees (fun pass => I pass.out []) (l.bufferPass cb a) := by
  obtain ⟨n, hn, hgather, hfp, hne⟩ := gather_front (hI.held h) htasks hnone
  unfold bufferPass
  rw [hgather, ok_bind, guardOr_pos hne, ok_bind, guardOr_pos (hI.socket h), ok_bind]
  cases a with
  | again => exact h
  | failed => exact absurd ha id
  | accepted ret =>
    have hret : ret ≠ 0 := Nat.pos_iff_ne_zero.mp ha
    refine Guarantees.guard fun ⟨hle, _, _⟩ => ?_
    rw [if_neg hret, List.length_map, List.length_take, min_eq_left hn]
    have haccept := hI.accept h
      ((((l.conn.writTasks_.take n).map IoTask.remaining).flatten).take ret)
    obtain ⟨pass, hpass, hout⟩ := hI.drain_ok n ret haccept hn hfp hle
    rw [hpass]
    exact hout

theorem Credited.filePass_ok (hI : Credited cb I) (h : I l [])
    (htasks : l.conn.writTasks_ = first :: tasks) {fp : Bytes} (hfp : first.fp_ = some fp)
    {a : WriteAnswer} (ha : a.Sound) :
    Guarantees (fun pass => I pass.out []) (l.filePass cb first fp a) := by
  have hrange : first.offset_ + first.len_ ≤ fp.length := by
    rcases hI.held h first (by rw [htasks]; exact List.mem_cons_self) with ⟨hsome, hle⟩ | ⟨hnone, -⟩
    · rw [hfp] at hsome
      cases hsome
      exact hle
    · rw [hfp] at hnone
      cases hnone
  unfold filePass
  rw [guardOr_pos (hI.socket h), ok_bind]
  cases a with
  | again => exact h
  | failed => exact absurd ha id
  | accepted ret =>
    have hret : ret ≠ 0 := Nat.pos_iff_ne_zero.mp ha
    refine Guarantees.guard fun ⟨hle, _, _⟩ => ?_
    have hrem := IoTask.remaining_file hfp
    have hlen := IoTask.length_remaining_file hfp hrange
    -- the kernel reads no further than the task goes
    have htake : (fp.drop first.offset_).take ret = first.remaining.take ret := by
      rw [hrem, List.take_take, min_eq_left hle]
    rw [if_neg hret, htake]
    split
    · next heq =>
      rw [heq, ← hlen, List.take_length]
      have haccept : I { l with wire := l.wire ++ first.remaining } (first.remaining ++ []) := by
        rw [List.append_nil]
        exact hI.accept h _
      obtain ⟨l', hl', hkept⟩ := hI.finishFile haccept htasks
      dsimp only
      rw [hl']
      exact hkept
    · next hne =>
      have hlt : ret < first.len_ := lt_of_le_of_ne hle hne
      have hheld : (IoTask.Held { first with
          len_ := first.len_ - ret, offset_ := first.offset_ + ret } : Prop) :=
        .file hfp (by dsimp only; omega)
      have hkept := hI.shorten (hI.accept h (first.remaining.take ret)) (by omega) htasks hheld (by
        rw [IoTask.remaining_file (t := { first with
          len_ := first.len_ - ret, offset_ := first.offset_ + ret }) hfp, hrem, List.drop_take,
          List.drop_drop]) rfl
      show I _ []
      rw [htasks]
      exact hkept

/-- A pass that the kernel answers without an error. -/
theorem Credited.writPass_ok (hI : Credited cb I) (h : I l [])
    (htasks : l.conn.writTasks_ = first :: tasks) {a : WriteAnswer} (ha : a.Sound) :
    Guarantees (fun pass => I pass.out []) (l.writPass cb first a) := by
  unfold writPass
  cases hfp : first.fp_ with
  | some fp => exact hI.filePass_ok h htasks hfp ha
  | none => exact hI.bufferPass_ok h htasks hfp ha

/-! ## What is out and what is left -/

variable {J : History σ H}

/--
The connection with `done` out as a whole, and `credit` accepted by the kernel but not yet taken
off the queue. `J` is what the handlers keep.
-/
structure Flow (J : History σ H) (l : Link σ H) (done : List (Message UInt8 (Option H)))
    (credit : Bytes) : Prop where
  isOpen : l.conn.Open
  user : J l.world l.sent l.ran l.conn.nextTicks
  ran : l.ran = done.filterMap Message.tag
  cut : ∃ wire, l.wire = wire ++ credit ∧
    Cut l.sent wire done (l.conn.writTasks_.map IoTask.message)

/-- Nothing is lost, doubled or out of order. -/
def Delivered (J : History σ H) (l : Link σ H) : Prop :=
  ∃ done, Flow J l done []

variable {done : List (Message UInt8 (Option H))}

/-- The handler of the first task has run; new tasks stand at the end. -/
theorem Flow.complete_ok (h : Flow J l done credit) (hcb : cb.Keeps J)
    (htasks : l.conn.writTasks_ = first :: tasks) {handler : H}
    (hhandler : first.handler_ = some handler) :
    ∃ l' new, l.complete cb handler = .ok l' ∧ l'.conn.Open ∧
      l'.conn.writTasks_ = first :: (tasks ++ new) ∧
      J l'.world l'.sent l'.ran l'.conn.nextTicks ∧
      l'.ran = done.filterMap Message.tag ++ [handler] ∧
      ∃ wire, l'.wire = wire ++ credit ∧
        Cut l'.sent wire done (l'.conn.writTasks_.map IoTask.message) := by
  obtain ⟨wire, hw, hcut⟩ := h.cut
  have hnext : l.ran ++ [handler] <+: l.sent.filterMap Message.tag := by
    rw [hcut.tags_eq, h.ran, htasks, List.map_cons]
    refine List.prefix_append_right_inj _ |>.mpr ?_
    simp [IoTask.message, hhandler]
  obtain ⟨hsends, huser⟩ := hcb l.world l.sent l.ran l.conn.nextTicks handler h.user hnext
  obtain ⟨l', hl', hopen, htasks', hsent, hwire, hran, hworld, hticks⟩ :=
    calls_ok (l := { l with
      world := (cb.complete l.world handler).1, ran := l.ran ++ [handler] }) h.isOpen hsends
  refine ⟨l', (cb.complete l.world handler).2.flatMap ConnCall.tasks, hl', hopen, ?_, ?_, ?_, wire,
    ?_, ?_⟩
  · rw [htasks']
    show l.conn.writTasks_ ++ _ = _
    rw [htasks, List.cons_append]
  · rw [hsent, hran, hworld, hticks]
    exact huser
  · rw [hran]
    show l.ran ++ [handler] = _
    rw [h.ran]
  · rw [hwire]
    exact hw
  · rw [hsent, htasks', List.map_append, ← ConnCall.flatMap_tasks]
    refine hcut.push fun m hm => ?_
    obtain ⟨t, ht, rfl⟩ := List.mem_map.mp hm
    exact (hopen.tasks t (by rw [htasks']; exact List.mem_append_right _ ht)).remaining_ne

/-- The first task is over and taken off. -/
theorem pop_flow (hopen : l.conn.Open) (huser : J l.world l.sent l.ran l.conn.nextTicks)
    (htasks : l.conn.writTasks_ = first :: tasks)
    (hran : l.ran = done.filterMap Message.tag ++ first.handler_.toList)
    (hcut : ∃ wire, l.wire = wire ++ (first.remaining ++ credit) ∧
      Cut l.sent wire done (l.conn.writTasks_.map IoTask.message)) :
    ∃ c done', l.conn.popFront = .ok c ∧ c.writTasks_ = tasks ∧
      Flow J { l with conn := c } done' credit := by
  obtain ⟨wire, hwire, hcut⟩ := hcut
  rw [htasks, List.map_cons] at hcut
  obtain ⟨out, hpop⟩ := hcut.pop
  obtain ⟨ch, hch, hon⟩ := hopen.interest
  refine ⟨{ l.conn with writTasks_ := tasks }, _, ?_, rfl,
    ⟨?_, huser, ?_, wire ++ first.remaining, ?_, hpop⟩⟩
  · unfold Connection.popFront
    rw [htasks]
  · refine ⟨hopen.alive, hopen.socket, ⟨ch, hch, fun _ => hon (by simp [htasks])⟩, ?_⟩
    intro t ht
    exact hopen.tasks t (by rw [htasks]; exact List.mem_cons_of_mem _ ht)
  · show l.ran = _
    rw [hran, List.filterMap_append]
    cases hh : first.handler_ <;> simp [IoTask.message, hh]
  · show l.wire = _
    rw [hwire, List.append_assoc]

/-- **A task whose bytes are out: its handler runs, once, and it leaves the queue.** -/
theorem Flow.finishBuffer_ok (h : Flow J l done (first.remaining ++ credit)) (hcb : cb.Keeps J)
    (htasks : l.conn.writTasks_ = first :: tasks) :
    ∃ l' done' new, l.finishBuffer cb first = .ok (.next l') ∧ Flow J l' done' credit ∧
      l'.conn.writTasks_ = tasks ++ new := by
  unfold finishBuffer
  cases hh : first.handler_ with
  | none =>
    obtain ⟨c, done', hpop, hc, hflow⟩ := pop_flow h.isOpen h.user htasks (by simp [hh, h.ran]) h.cut
    refine ⟨_, done', [], ?_, hflow, by rw [List.append_nil, ← hc]⟩
    dsimp only
    rw [hpop, ok_bind]
    rfl
  | some handler =>
    obtain ⟨l', new, hl', hopen, htasks', huser, hran, hcut⟩ := h.complete_ok hcb htasks hh
    obtain ⟨c, done', hpop, hc, hflow⟩ := pop_flow hopen huser htasks' (by simp [hh, hran]) hcut
    refine ⟨_, done', new, ?_, hflow, hc⟩
    dsimp only
    rw [hl', ok_bind, hopen.alive, if_neg Bool.false_ne_true, hpop]
    rfl

theorem Flow.finishFile_ok (h : Flow J l done (first.remaining ++ credit)) (hcb : cb.Keeps J)
    (htasks : l.conn.writTasks_ = first :: tasks) :
    ∃ l' done', l.finishFile cb first = .ok l' ∧ Flow J l' done' credit := by
  unfold finishFile
  cases hh : first.handler_ with
  | none =>
    obtain ⟨c, done', hpop, -, hflow⟩ := pop_flow h.isOpen h.user htasks (by simp [hh, h.ran]) h.cut
    refine ⟨_, done', ?_, hflow⟩
    dsimp only
    rw [pure_eq_ok, ok_bind, hpop]
    rfl
  | some handler =>
    obtain ⟨l', new, hl', hopen, htasks', huser, hran, hcut⟩ := h.complete_ok hcb htasks hh
    obtain ⟨c, done', hpop, -, hflow⟩ := pop_flow hopen huser htasks' (by simp [hh, hran]) hcut
    refine ⟨_, done', ?_, hflow⟩
    dsimp only
    rw [hl', ok_bind, hpop]
    rfl

/-- A part of the first task is out: the task keeps the rest. -/
theorem Flow.shorten {n : Nat} {t : IoTask H} (h : Flow J l done (first.remaining.take n))
    (hn : n < first.remaining.length) (htasks : l.conn.writTasks_ = first :: tasks) (ht : t.Ok)
    (hrest : t.remaining = first.remaining.drop n) (hhandler : t.handler_ = first.handler_) :
    Flow J { l with conn := { l.conn with writTasks_ := t :: tasks } } done [] := by
  obtain ⟨wire, hwire, hcut⟩ := h.cut
  obtain ⟨ch, hch, hon⟩ := h.isOpen.interest
  rw [htasks, List.map_cons] at hcut
  refine ⟨⟨h.isOpen.alive, h.isOpen.socket, ⟨ch, hch, fun _ => hon (by simp [htasks])⟩, ?_⟩, h.user, h.ran,
    wire ++ first.remaining.take n, by rw [List.append_nil]; exact hwire, ?_⟩
  · intro t' ht'
    rcases List.mem_cons.mp ht' with rfl | ht'
    · exact ht
    · exact h.isOpen.tasks t' (by rw [htasks]; exact List.mem_cons_of_mem _ ht')
  · have htake := hcut.take hn
    have hmessage : t.message = { first.message with payload := first.remaining.drop n } := by
      unfold IoTask.message
      rw [hrest, hhandler]
    show Cut l.sent _ done (t.message :: tasks.map IoTask.message)
    rw [hmessage]
    exact htake

/-! ## handleWritEvent -/

/-- More bytes are accepted by the kernel. -/
theorem Flow.accept (h : Flow J l done []) (credit : Bytes) :
    Flow J { l with wire := l.wire ++ credit } done credit where
  isOpen := h.isOpen
  user := h.user
  ran := h.ran
  cut := by
    obtain ⟨wire, hwire, hcut⟩ := h.cut
    rw [List.append_nil] at hwire
    exact ⟨wire, by rw [hwire], hcut⟩

/-- What the handlers keep and what was sent, where bytes are accepted but not yet taken off. -/
theorem credited_flow (hcb : cb.Keeps J) : Credited cb fun l credit => ∃ done, Flow J l done credit where
  socket := fun ⟨_, h⟩ => h.isOpen.socket
  held := fun ⟨_, h⟩ t ht => (h.isOpen.tasks t ht).held
  accept := fun ⟨done, h⟩ credit => ⟨done, h.accept credit⟩
  finishBuffer := fun ⟨_, h⟩ htasks => by
    obtain ⟨l', done', new, hfinish, hflow, htasks'⟩ := h.finishBuffer_ok hcb htasks
    exact ⟨l', new, hfinish, ⟨done', hflow⟩, htasks'⟩
  finishFile := fun ⟨_, h⟩ htasks => by
    obtain ⟨l', done', hfinish, hflow⟩ := h.finishFile_ok hcb htasks
    exact ⟨l', hfinish, done', hflow⟩
  shorten := fun ⟨done, h⟩ hn htasks ht hrest hhandler => by
    refine ⟨done, h.shorten hn htasks (ht.ok ?_) hrest hhandler⟩
    -- some of the task is left
    rw [hrest]
    exact List.ne_nil_of_length_pos (by rw [List.length_drop]; omega)

/-- A pass that the kernel answers without an error keeps the stream. -/
theorem Delivered.writPass_ok (h : Delivered J l) (hcb : cb.Keeps J)
    (htasks : l.conn.writTasks_ = first :: tasks) {a : WriteAnswer} (ha : a.Sound) :
    Guarantees (fun pass => Delivered J pass.out) (l.writPass cb first a) :=
  (credited_flow hcb).writPass_ok h htasks ha

/-- **The loop of `handleWritEvent` keeps the stream.** -/
theorem Delivered.writLoop_ok : ∀ {as : List WriteAnswer} {l : Link σ H},
    Delivered J l → cb.Keeps J → (∀ a ∈ as, a.Sound) → Guarantees (Delivered J) (l.writLoop cb as)
  | [], l, h, _, _ => by
    unfold writLoop
    split
    · exact h
    · rfl
  | a :: as, l, h, hcb, ha => by
    unfold writLoop
    split
    · exact h
    · next first tasks htasks =>
      refine (h.writPass_ok hcb htasks (ha a List.mem_cons_self)).bind fun pass hdelivered => ?_
      cases pass with
      | done l' => exact hdelivered
      | next l' =>
        have hnext : Delivered J l' := hdelivered
        exact hnext.writLoop_ok hcb fun a' ha' => ha a' (List.mem_cons_of_mem a ha')

theorem Delivered.handleWritEvent_ok (h : Delivered J l) (hcb : cb.Keeps J)
    {as : List WriteAnswer} (ha : ∀ a ∈ as, a.Sound) :
    Guarantees (Delivered J) (l.handleWritEvent cb as) := by
  obtain ⟨done, hflow⟩ := h
  obtain ⟨ch, hch, hon⟩ := hflow.isOpen.interest
  unfold handleWritEvent
  rw [hflow.isOpen.alive, if_neg Bool.false_ne_true]
  split
  · next hempty =>
    have hwrit : l.conn.enableWrit false = .ok
        { l.conn with chan_ := some { ch with writable_ := false }.updateChannel } := by
      unfold Connection.enableWrit Connection.channel
      rw [hch]
      rfl
    rw [hwrit, ok_bind, pure_eq_ok, ok_bind]
    have hconn : ({ l.conn with chan_ := some { ch with writable_ := false }.updateChannel } :
        Connection H).Open :=
      ⟨hflow.isOpen.alive, hflow.isOpen.socket, ⟨_, rfl, fun hne => absurd hempty hne⟩,
        hflow.isOpen.tasks⟩
    have hstart : Delivered J { l with conn := { l.conn with
        chan_ := some { ch with writable_ := false }.updateChannel } } :=
      ⟨done, hconn, hflow.user, hflow.ran, hflow.cut⟩
    exact hstart.writLoop_ok hcb ha
  · exact Delivered.writLoop_ok ⟨done, hflow⟩ hcb ha

/-! ## Runs -/

/-- A call that sends, or a write event without errors. -/
def Event.Sound : Event H → Prop
  | .call x => x.Sends
  | .writ as => ∀ a ∈ as, a.Sound

/-- A call by the user from outside a handler. -/
theorem Delivered.call_ok (h : Delivered J l) {x : ConnCall H} (hx : x.Sends) {K : History σ H}
    (huser : K l.world (l.sent ++ x.messages) l.ran (l.conn.nextTicks + x.ticks)) :
    ∃ l', l.call x = .ok l' ∧ Delivered K l' ∧ l'.sent = l.sent ++ x.messages ∧
      l'.ran = l.ran ∧ l'.conn.nextTicks = l.conn.nextTicks + x.ticks := by
  obtain ⟨done, hflow⟩ := h
  obtain ⟨wire, hwire, hcut⟩ := hflow.cut
  obtain ⟨c, hc, hopen, htasks, hticks⟩ := hflow.isOpen.call hx
  refine ⟨{ l with conn := c, sent := l.sent ++ x.messages }, ?_,
    ⟨done, hopen, ?_, hflow.ran, wire, hwire, ?_⟩, rfl, rfl, hticks⟩
  · unfold call
    rw [hc]
    rfl
  · show K l.world (l.sent ++ x.messages) l.ran c.nextTicks
    rw [hticks]
    exact huser
  · show Cut (l.sent ++ x.messages) wire done (c.writTasks_.map IoTask.message)
    rw [htasks, List.map_append, ← x.tasks_messages]
    refine hcut.push fun m hm => ?_
    obtain ⟨t, ht, rfl⟩ := List.mem_map.mp hm
    exact (hopen.tasks t (by rw [htasks]; exact List.mem_append_right _ ht)).remaining_ne

/-- The user's state and `readBuf_` may change from outside. -/
theorem Delivered.withWorld (h : Delivered J l) {K : History σ H} (w : σ) (readBuf : Buffer)
    (huser : K w l.sent l.ran l.conn.nextTicks) :
    Delivered K { l with world := w, conn := { l.conn with readBuf_ := readBuf } } := by
  obtain ⟨done, hflow⟩ := h
  have hopen := hflow.isOpen
  exact ⟨done, ⟨hopen.alive, hopen.socket, hopen.interest, hopen.tasks⟩, huser, hflow.ran, hflow.cut⟩

theorem Delivered.step_ok (h : Delivered (fun _ _ _ _ => True) l) (hcb : cb.HandlersSend)
    {e : Event H} (he : e.Sound) : Guarantees (Delivered fun _ _ _ _ => True) (l.step cb e) := by
  cases e with
  | writ as => exact h.handleWritEvent_ok hcb.keeps he
  | call x =>
    obtain ⟨l', hl', hdelivered, -⟩ := h.call_ok he (K := fun _ _ _ _ => True) trivial
    show Guarantees _ (l.call x)
    rw [hl']
    exact hdelivered

/-- What is on the wire, what is left, the handlers, and the interest. -/
theorem Delivered.result (h : Delivered J l) :
    l.wire ++ (l.conn.writTasks_.map IoTask.remaining).flatten = stream l.sent ∧
    l.ran = (completed l.wire.length l.sent).filterMap Message.tag ∧ l.conn.Interested := by
  obtain ⟨done, hopen, -, hran, wire, hwire, hcut⟩ := h
  rw [List.append_nil] at hwire
  rw [hwire]
  refine ⟨?_, ?_, hopen.interest⟩
  · have hstream := hcut.stream_eq
    unfold stream at hstream
    rwa [List.map_map] at hstream
  · rw [hcut.completed_eq, hran]

/-- The handlers that have run, and those in the queue, are those of what was sent. -/
theorem Delivered.tags (h : Delivered J l) :
    l.sent.filterMap Message.tag = l.ran ++ l.conn.writTasks_.filterMap IoTask.handler_ := by
  obtain ⟨done, hflow⟩ := h
  obtain ⟨wire, -, hcut⟩ := hflow.cut
  rw [hcut.tags_eq, hflow.ran, List.filterMap_map]
  rfl

/-- Where as many handlers have run as messages were sent, nothing is left. -/
theorem Delivered.drained (h : Delivered J l) (hlen : l.sent.length ≤ l.ran.length) :
    l.conn.writTasks_ = [] := by
  obtain ⟨done, hflow⟩ := h
  obtain ⟨wire, -, hcut⟩ := hflow.cut
  obtain ⟨part, hsent, -⟩ := hcut.split
  have hran : l.ran.length ≤ done.length := by
    rw [hflow.ran]
    exact List.length_filterMap_le _ _
  cases htasks : l.conn.writTasks_ with
  | nil => rfl
  | cons t tasks =>
    rw [htasks, List.map_cons, whole] at hsent
    have hmore := congrArg List.length hsent
    rw [List.length_append, List.length_cons] at hmore
    omega

/--
**The write path loses, doubles and reorders nothing.** In every run of calls that send something
and of write events without errors, the bytes that the kernel has accepted and those that
`writTasks_` still holds are the payloads in the order of the calls; the handlers that have run are
those of the payloads that were accepted as a whole, once each and in order; and the write interest
is on while there is something to write. No step of such a run faults.
-/
theorem write_path_keeps_stream (hcb : cb.HandlersSend) (conn : Connection H) (world : σ)
    (hopen : conn.Open) (hempty : conn.writTasks_ = []) (es : List (Event H))
    (hes : ∀ e ∈ es, e.Sound) :
    (∀ l, run (step cb) (start conn world) es = .ok l →
      l.wire ++ (l.conn.writTasks_.map IoTask.remaining).flatten = stream l.sent ∧
      l.ran = (completed l.wire.length l.sent).filterMap Message.tag ∧ l.conn.Interested) ∧
    ∀ f, run (step cb) (start conn world) es = .error f → f = .environment := by
  have hstart : Delivered (fun _ _ _ _ => True) (start conn world) := by
    refine ⟨[], hopen, trivial, rfl, [], rfl, ?_⟩
    show Cut [] [] [] (conn.writTasks_.map IoTask.message)
    rw [hempty]
    exact cut_nil
  have hrun := run_guarantees (fun _ _ h he => h.step_ok hcb he) hstart hes
  constructor
  · intro l hl
    rw [hl] at hrun
    exact hrun.result
  · intro f hf
    rw [hf] at hrun
    exact hrun

/-- A user whose handler `true` sends one byte of a file more. -/
def sendsMore : Callbacks Unit Bool where
  complete := fun w handler => (w, if handler then [.sendFile (str "file") 2 1 (some false)] else [])
  onErro := fun w => (w, [])

theorem write_path_keeps_stream_more :
    let es : List (Event Bool) :=
      [.call (.sendString (str "ab") (some true)), .call (.send (str "c") none),
        .writ [.accepted 1], .writ [.accepted 2, .again], .writ [.accepted 1]]
    ∃ l, run (step sendsMore) (start .accepted ()) es = .ok l ∧ l.wire = str "abcl" ∧
      l.wire ++ (l.conn.writTasks_.map IoTask.remaining).flatten = stream l.sent ∧
      l.ran = (completed l.wire.length l.sent).filterMap Message.tag ∧ l.conn.Interested := by
  intro es
  have hsends : sendsMore.HandlersSend := by
    intro w handler x hx
    cases handler with
    | false => cases hx
    | true =>
      rw [List.mem_singleton.mp hx]
      exact ⟨by decide, by decide⟩
  have hes : ∀ e ∈ es, e.Sound := by
    intro e he
    simp only [es, List.mem_cons, List.not_mem_nil, or_false] at he
    rcases he with rfl | rfl | rfl | rfl | rfl
    · show str "ab" ≠ []
      decide
    · show str "c" ≠ []
      decide
    all_goals
      intro a ha
      simp only [List.mem_cons, List.not_mem_nil, or_false] at ha
      rcases ha with rfl | rfl <;> simp [WriteAnswer.Sound]
  have hresult := write_path_keeps_stream hsends .accepted () Connection.open_accepted rfl es hes
  have hrun : (run (step sendsMore) (start .accepted ()) es).map (fun l => l.wire)
      = .ok (str "abcl") := by decide +kernel
  cases hl : run (step sendsMore) (start .accepted ()) es with
  | error f => rw [hl] at hrun; cases hrun
  | ok l =>
    rw [hl] at hrun
    exact ⟨l, rfl, Except.ok.inj hrun, hresult.1 l hl⟩

end Link

end Liby
