import Liby.Http.ClientCalls
import Liby.Http.ReplyFaults

/-!
# The life of a client

Neither `handleConnection` nor the handler of `sendRequest` asks whether there is a connection,
`handleReadEvent` does not ask whether a request waits for the reply, and `destroy` leaves the callbacks
where they are. What goes wrong is told apart from what does not by the event and the state before it.
-/

namespace Liby.Http

open Infra

variable {σ H : Type _}

namespace ClientLink

variable {c c' : ClientLink σ H} {i : Nat} {conn : Connection Unit} {handle : ReplyHandle σ H}

/-! ## What should not happen -/

/-- A step that calls a reply handler: what comes of it depends on what handlers do. -/
def CallsHandler (c : ClientLink σ H) (e : ClientEvent H) : Prop :=
  ∃ handle handle' : ReplyHandle σ H, c.step handle e ≠ c.step handle' e

/--
A step that follows no null pointer, takes nothing from an empty list, and calls no reply handler if
`destroy` was called before.
-/
def Safe (handle : ReplyHandle σ H) (c : ClientLink σ H) (e : ClientEvent H) : Prop :=
  Outcome Mild (fun _ => True) (c.step handle e) ∧ (c.destroyed = true → ¬c.CallsHandler e)

/-! ## When it does not happen -/

/-- The parser after the bytes that the loop has before it. -/
def parsed (c : ClientLink σ H) : Option ReplyParser :=
  match c.reading with
  | none => none
  | some i =>
    match c.connections[i]? with
    | none => none
    | some conn =>
      if conn.readBuf_.empty then none
      else
        match c.take i with
        | .error _ => none
        | .ok c => some c.parser_

/-- What was sent first on a connection may be over. -/
def Due (c : ClientLink σ H) (i : Nat) : Prop :=
  c.reading = none ∧ ∃ conn, c.connections[i]? = some conn ∧ conn.destroy_ = false ∧
    conn.writTasks_ ≠ []

/-- A reply that is complete has a request, whose handler is empty if `destroy` was called. -/
def Expects (c : ClientLink σ H) : Prop :=
  ∃ first waiting, c.sendReqeustLists_ = first :: waiting ∧
    (c.destroyed = true → first.handler = none)

/--
The connection attempt does not fail, what was sent is over only while `http_conn_` is set, and a reply
becomes complete only when it is expected.
-/
def Orderly (c : ClientLink σ H) : ClientEvent H → Prop
  | .connectFailed => c.reading ≠ none
  | .completed i => c.Due i → c.httpConn_ ≠ none
  | .pass => ∀ p, c.parsed = some p → p.isGood = true → c.Expects
  | _ => True

/-! ## What holds in any case -/

/-- The connections are in order, `content_` is, and the loop is on a connection that is not destroyed. -/
structure Sound (c : ClientLink σ H) : Prop where
  linked : Linked c
  content : c.parser_.content_.Wf
  inside : ∀ i, c.reading = some i →
    ∃ conn, c.connections[i]? = some conn ∧ conn.destroy_ = false

theorem sound_init (status_ : Int) (world : σ) : Sound (.init status_ world : ClientLink σ H) where
  linked := ⟨fun _ hconn => (by cases hconn), fun _ hi => (by cases hi)⟩
  content := Buffer.wf_init
  inside := fun _ hi => by cases hi

theorem Sound.keeps (h : Sound c) (hlinked : Linked c') (hkeeps : Keeps c c') : Sound c' where
  linked := hlinked
  content := by
    rw [hkeeps.parser]
    exact h.content
  inside := fun i hi => by
    rw [hkeeps.reading] at hi
    obtain ⟨conn, hconn, halive⟩ := h.inside i hi
    obtain ⟨conn', hconn', hsame⟩ := hkeeps.connections.forward hconn
    exact ⟨conn', hconn', hsame.destroy.trans halive⟩

theorem Sound.destroy (h : Sound c) : Sound c.destroy where
  linked := ⟨h.linked.served, fun _ hi => (by cases hi)⟩
  content := h.content
  inside := h.inside

/-- **The calls of a handler return**, whether they are `get` or `destroy`. -/
theorem Sound.calls : ∀ (calls : List (GetCall H)) {c : ClientLink σ H}, Sound c →
    ∃ c', run call c calls = .ok c' ∧ Sound c'
  | [], c, h => ⟨c, rfl, h⟩
  | .get request :: calls, c, h => by
    obtain ⟨c1, hc1, hlinked1, hgrows1, -⟩ := h.linked.get request
    obtain ⟨c', hc', h'⟩ := Sound.calls calls (h.keeps hlinked1 hgrows1.toKeeps)
    refine ⟨c', ?_, h'⟩
    rw [run_cons]
    show (c.get request >>= _) = _
    rw [hc1]
    exact hc'
  | .destroy :: calls, c, h => by
    obtain ⟨c', hc', h'⟩ := Sound.calls calls h.destroy
    exact ⟨c', hc', h'⟩

/-! ## A pass -/

/-- **What a pass takes**, whatever the bytes are. -/
theorem Sound.take (h : Sound c) (hconn : c.connections[i]? = some conn)
    (halive : conn.destroy_ = false) :
    Outcome Mild (fun c' => Sound c' ∧ c'.sendReqeustLists_ = c.sendReqeustLists_) (c.take i) := by
  have hserved := h.linked.served conn (List.mem_of_getElem? hconn) halive
  unfold ClientLink.take
  rw [readAt_eq_ok.mpr hconn, ok_bind]
  refine (range_mild hserved.readBuf).bind fun r _ => ?_
  refine (parse_mild h.content r.1 r.2.1 r.2.2).bind fun f hcontent => ?_
  refine (subInt_mild _ _).bind fun length _ => ?_
  refine (retrieve_mild hserved.readBuf length).bind fun readBuf hreadable => ?_
  have hserved' : Served { conn with readBuf_ := readBuf } :=
    ⟨hserved.chan, hserved.onRead, hserved.onErro, hreadable, hserved.tasks⟩
  refine ⟨⟨h.linked.set hconn (fun _ => hserved') rfl rfl rfl, hcontent, fun j hj => ?_⟩, rfl⟩
  by_cases hij : i = j
  · subst hij
    exact ⟨_, connections_set hconn, halive⟩
  · obtain ⟨x, hx, hxalive⟩ := h.inside j hj
    exact ⟨x, (List.getElem?_set_ne hij).trans hx, hxalive⟩

/-- **A reply for which there is a request.** -/
theorem Sound.reply (h : Sound c) (hne : c.sendReqeustLists_ ≠ []) :
    Outcome Mild Sound (c.reply handle) := by
  obtain ⟨first, waiting, hlist⟩ := List.exists_cons_of_ne_nil hne
  have hcall : Outcome Mild Sound (c.callHandler handle first.handler) := by
    unfold callHandler
    split
    · exact h
    · split
      · exact (by decide : Mild .exception)
      · next response _ =>
        obtain ⟨c', hc', h'⟩ := Sound.calls response.calls
          (c := { c with
            world := response.world
            parser_ := { c.parser_ with content_ := response.content_ } })
          ⟨⟨h.linked.served, h.linked.conn⟩, response.wf, h.inside⟩
        rw [hc']
        exact h'
  unfold ClientLink.reply
  rw [hlist]
  exact hcall.bind fun c' h' =>
    ⟨⟨h'.linked.served, h'.linked.conn⟩, h'.content.clear_ok.1, h'.inside⟩

theorem isError_of_isGood {p : ReplyParser} (h : p.isGood = true) : p.isError = false := by
  unfold ReplyParser.isGood at h
  unfold ReplyParser.isError
  rw [beq_iff_eq.mp h]

/-- **A pass hands over a reply that is complete, or does not look at handlers.** -/
theorem Sound.pass_cases (h : Sound c) :
    (∃ p c1, c.parsed = some p ∧ p.isGood = true ∧ Sound c1 ∧
      c1.sendReqeustLists_ = c.sendReqeustLists_ ∧ ∀ handle, c.pass handle = c1.reply handle) ∨
    (∀ p, c.parsed = some p → p.isGood = false) ∧
      ∃ x, Outcome Mild Sound x ∧ ∀ handle, c.pass handle = x := by
  unfold parsed ClientLink.pass
  cases hi : c.reading with
  | none =>
    exact .inr ⟨fun p hp => (by cases hp), .error .environment, (by decide : Mild .environment),
      fun _ => rfl⟩
  | some i =>
    obtain ⟨conn, hconn, halive⟩ := h.inside i hi
    dsimp only
    rw [hconn, readAt_eq_ok.mpr hconn]
    simp only [ok_bind]
    by_cases hempty : conn.readBuf_.empty = true
    · refine .inr ⟨fun p hp => (by simp [hempty] at hp), .ok { c with reading := none }, ?_,
        fun handle => if_pos hempty⟩
      exact ⟨⟨h.linked.served, h.linked.conn⟩, h.content, fun _ hj => (by cases hj)⟩
    · have htake := h.take hconn halive
      simp only [if_neg hempty]
      revert htake
      cases c.take i with
      | error f => exact fun hf => .inr ⟨fun p hp => (by cases hp), .error f, hf, fun _ => rfl⟩
      | ok c1 =>
        rintro ⟨h1, hlists⟩
        simp only [ok_bind]
        cases hgood : c1.parser_.isGood with
        | true =>
          refine .inl ⟨c1.parser_, c1, rfl, hgood, h1, hlists, fun handle => ?_⟩
          rw [isError_of_isGood hgood]
          rfl
        | false =>
          refine .inr ⟨fun p hp => (by cases hp; exact hgood), ?_⟩
          cases c1.parser_.isError with
          | true =>
            refine ⟨.ok { c1.handleErroEvent with reading := none }, ?_, fun handle => rfl⟩
            exact ⟨⟨h1.linked.served, fun _ hj => (by cases hj)⟩, h1.content, fun _ hj => (by cases hj)⟩
          | false => exact ⟨.ok c1, h1, fun handle => rfl⟩

/-! ## The other events -/

/-- A connection that the poller knows. -/
theorem alive_cases (c : ClientLink σ H) (i : Nat) :
    c.alive i = .error .environment ∨ c.reading = none ∧
      ∃ conn, c.alive i = .ok conn ∧ c.connections[i]? = some conn ∧ conn.destroy_ = false := by
  unfold alive
  split
  · next conn hreading hconn =>
    split
    · exact .inl rfl
    · next halive => exact .inr ⟨hreading, conn, rfl, hconn, by simpa using halive⟩
  · exact .inl rfl

/-- The end of what was sent, with a connection. -/
theorem Sound.completed (h : Sound c) (hsome : c.httpConn_ ≠ none) (i : Nat) :
    Outcome Mild Sound (c.completed i) := by
  have hsome : c.httpConn_.isSome := Option.isSome_iff_ne_none.mpr hsome
  refine Guarantees.outcome ?_ (by decide)
  exact (h.linked.completed hsome i).imp_ok fun c' _ ⟨hlinked, hgrows, _⟩ =>
    h.keeps hlinked hgrows.toKeeps

/-- The end of what was sent, when `http_conn_` is null. -/
theorem Sound.completed_none (h : Sound c) (hnone : c.httpConn_ = none) (i : Nat) :
    (c.Due i ∧ c.completed i = .error .nullDeref) ∨
      (¬c.Due i ∧ c.completed i = .error .environment) := by
  unfold ClientLink.completed
  rcases alive_cases c i with hnot | ⟨hreading, conn, halive, hconn, hdestroy⟩
  · refine .inr ⟨?_, by rw [hnot]; rfl⟩
    rintro ⟨hreading, conn, hconn, hdestroy, -⟩
    unfold alive at hnot
    simp [hreading, hconn, hdestroy] at hnot
  · rw [halive, ok_bind]
    cases htasks : conn.writTasks_ with
    | nil =>
      refine .inr ⟨?_, rfl⟩
      rintro ⟨-, x, hx, -, hne⟩
      cases hconn.symm.trans hx
      exact hne htasks
    | cons task tasks =>
      have hserved := h.linked.served conn (List.mem_of_getElem? hconn) hdestroy
      have hhandler : task.handler_ = some () := hserved.tasks task (by simp [htasks])
      refine .inl ⟨⟨hreading, conn, hconn, hdestroy, by simp [htasks]⟩, ?_⟩
      have hdone : c.sendDone = .error .nullDeref := by
        unfold ClientLink.sendDone through
        rw [hnone]
        rfl
      simp [hhandler, hdone]

/-- Bytes that come. -/
theorem Sound.arrived (h : Sound c) (i : Nat) (bytes : Bytes) :
    Outcome Mild Sound (c.arrived i bytes) := by
  unfold ClientLink.arrived
  rcases alive_cases c i with hnot | ⟨hreading, conn, halive, hconn, hdestroy⟩
  · rw [hnot]
    exact (by decide : Mild .environment)
  · have hserved := h.linked.served conn (List.mem_of_getElem? hconn) hdestroy
    rw [halive, ok_bind]
    refine ((Connection.receive_ok hserved.readBuf bytes).outcome (by decide)).bind ?_
    rintro conn1 ⟨-, buffer, rfl, hreadable, -⟩
    have hserved1 : Served { conn with readBuf_ := buffer } :=
      ⟨hserved.chan, hserved.onRead, hserved.onErro, hreadable, hserved.tasks⟩
    dsimp only
    rw [if_pos hserved.onRead]
    refine ⟨h.linked.set hconn (fun _ => hserved1) rfl rfl rfl, h.content, fun j hj => ?_⟩
    cases hj
    exact ⟨_, connections_set hconn, hdestroy⟩

/-- The end of the stream, or an error. -/
theorem Sound.failed (h : Sound c) (i : Nat) : Outcome Mild Sound (c.failed i) := by
  unfold ClientLink.failed
  rcases alive_cases c i with hnot | ⟨hreading, conn, halive, hconn, hdestroy⟩
  · rw [hnot]
    exact (by decide : Mild .environment)
  · have hserved := h.linked.served conn (List.mem_of_getElem? hconn) hdestroy
    rw [halive, ok_bind]
    dsimp only
    rw [if_pos hserved.onErro]
    have hgone : conn.destroy.destroy_ = true := by
      unfold Connection.destroy
      rw [if_neg (by simp [hdestroy])]
    refine ⟨⟨fun x hx hxalive => ?_, fun j hj => (by cases hj)⟩, h.content, fun j hj => ?_⟩
    · rcases List.mem_or_eq_of_mem_set hx with hx | rfl
      · exact h.linked.served x hx hxalive
      · rw [hgone] at hxalive
        cases hxalive
    · cases hj.symm.trans hreading

/-- `onConnect` with a connection. -/
theorem Sound.connected (h : Sound c) (hidle : c.reading = none) :
    Outcome Mild Sound (c.handleConnection (some fresh)) := by
  obtain ⟨c', hc', hlinked, hgrows, -⟩ := h.linked.handleConnection
  have hjoined : Sound c.joined :=
    ⟨h.linked.joined, h.content, fun i hi => (by cases hi.symm.trans hidle)⟩
  rw [hc']
  exact hjoined.keeps hlinked hgrows.toKeeps

/-! ## One step -/

/-- A reply calls a handler exactly if the request at the front has one. -/
theorem calls_reply_iff {c1 : ClientLink σ H} (hpass : ∀ handle, c.pass handle = c1.reply handle)
    {first : Get H} {waiting : List (Get H)} (hlist : c1.sendReqeustLists_ = first :: waiting) :
    c.CallsHandler .pass ↔ first.handler ≠ none := by
  constructor
  · rintro ⟨handle, handle', hne⟩ hnone
    refine hne ?_
    show c.pass handle = c.pass handle'
    rw [hpass, hpass]
    unfold ClientLink.reply callHandler
    rw [hlist]
    dsimp only
    rw [hnone]
  · intro hsome
    obtain ⟨handler, hhandler⟩ := Option.ne_none_iff_exists'.mp hsome
    -- one that throws, and one that does nothing
    refine ⟨fun _ _ _ => none,
      fun world _ _ => some { world := world, content_ := .init, wf := Buffer.wf_init, calls := [] },
      ?_⟩
    show c.pass _ ≠ c.pass _
    rw [hpass, hpass]
    unfold ClientLink.reply callHandler
    rw [hlist]
    dsimp only
    rw [hhandler]
    exact fun heq => by cases heq

theorem not_calls {e : ClientEvent H}
    (h : ∀ handle handle' : ReplyHandle σ H, c.step handle e = c.step handle' e) :
    ¬c.CallsHandler e := fun ⟨handle, handle', hne⟩ => hne (h handle handle')

/-- **A step that returns keeps the state in order.** -/
theorem Sound.step {e : ClientEvent H} (h : Sound c) (hc' : c.step handle e = .ok c') : Sound c' := by
  cases e with
  | get request =>
    obtain ⟨_, -, hget⟩ := bind_eq_ok.mp hc'
    obtain ⟨c1, hc1, hlinked, hgrows, -⟩ := h.linked.get request
    cases hc1.symm.trans hget
    exact h.keeps hlinked hgrows.toKeeps
  | destroy =>
    obtain ⟨_, -, hdestroy⟩ := bind_eq_ok.mp hc'
    cases hdestroy
    exact h.destroy
  | connected =>
    obtain ⟨_, hidle, hconnected⟩ := bind_eq_ok.mp hc'
    exact (h.connected (guardOr_eq_ok.mp hidle)).of_ok hconnected
  | connectFailed =>
    obtain ⟨_, -, hfailed⟩ := bind_eq_ok.mp hc'
    cases hfailed
  | completed i =>
    by_cases hnone : c.httpConn_ = none
    · rcases h.completed_none hnone i with ⟨-, hfault⟩ | ⟨-, hfault⟩
      · cases hfault.symm.trans hc'
      · cases hfault.symm.trans hc'
    · exact (h.completed hnone i).of_ok hc'
  | arrived i bytes => exact (h.arrived i bytes).of_ok hc'
  | failed i => exact (h.failed i).of_ok hc'
  | pass =>
    rcases h.pass_cases with ⟨p, c1, -, -, h1, hlists, hpass⟩ | ⟨-, x, hx, hpass⟩
    · have hreply : c1.reply handle = .ok c' := (hpass handle).symm.trans hc'
      refine (h1.reply fun hnil => ?_).of_ok hreply
      unfold ClientLink.reply at hreply
      rw [hnil] at hreply
      cases hreply
    · exact hx.of_ok ((hpass handle).symm.trans hc')

/-- **A step is safe exactly if it is orderly.** -/
theorem Sound.safe_iff (h : Sound c) (e : ClientEvent H) : c.Safe handle e ↔ c.Orderly e := by
  cases e with
  | get request =>
    refine iff_of_true ⟨?_, fun _ => not_calls fun _ _ => rfl⟩ trivial
    obtain ⟨c1, hc1, -⟩ := h.linked.get request
    refine Outcome.guard (by decide) fun _ => ?_
    rw [hc1]
    trivial
  | destroy =>
    exact iff_of_true ⟨Outcome.guard (by decide) fun _ => trivial, fun _ => not_calls fun _ _ => rfl⟩
      trivial
  | connected =>
    refine iff_of_true ⟨?_, fun _ => not_calls fun _ _ => rfl⟩ trivial
    exact Outcome.guard (by decide) fun hidle => (h.connected hidle).imp fun _ _ => trivial
  | connectFailed =>
    constructor
    · rintro ⟨hends, -⟩ hidle
      -- the handler of a failed connect uses the pointer that is null then
      have hfault : c.step handle .connectFailed = .error .nullDeref := by
        show (guardOr _ _ >>= _) = _
        rw [guardOr_pos hidle]
        rfl
      rw [hfault] at hends
      exact hends.1 rfl
    · intro hreading
      refine ⟨?_, fun _ => not_calls fun _ _ => rfl⟩
      exact Outcome.guard (by decide) fun hidle => absurd hidle hreading
  | completed i =>
    by_cases hnone : c.httpConn_ = none
    · rcases h.completed_none hnone i with ⟨hdue, hfault⟩ | ⟨hdue, hfault⟩
      · refine iff_of_false (fun hsafe => ?_) fun horderly => horderly hdue hnone
        have hends : Outcome Mild (fun _ => True) (c.completed i) := hsafe.1
        rw [hfault] at hends
        exact hends.1 rfl
      · refine iff_of_true ⟨?_, fun _ => not_calls fun _ _ => rfl⟩ fun hdue' => absurd hdue' hdue
        show Outcome Mild (fun _ => True) (c.completed i)
        rw [hfault]
        exact (by decide : Mild .environment)
    · exact iff_of_true ⟨(h.completed hnone i).imp fun _ _ => trivial,
        fun _ => not_calls fun _ _ => rfl⟩ fun _ => hnone
  | arrived i bytes =>
    exact iff_of_true ⟨(h.arrived i bytes).imp fun _ _ => trivial, fun _ => not_calls fun _ _ => rfl⟩
      trivial
  | failed i =>
    exact iff_of_true ⟨(h.failed i).imp fun _ _ => trivial, fun _ => not_calls fun _ _ => rfl⟩ trivial
  | pass =>
    rcases h.pass_cases with ⟨p, c1, hparsed, hgood, h1, hlists, hpass⟩ | ⟨hbad, x, hx, hpass⟩
    · have horderly : c.Orderly .pass ↔ c.Expects :=
        ⟨fun ho => ho p hparsed hgood, fun he _ _ _ => he⟩
      rw [horderly]
      unfold Expects
      rw [← hlists]
      cases hlist : c1.sendReqeustLists_ with
      | nil =>
        -- a reply that nobody waits for: `front()` of an empty list
        refine iff_of_false (fun hsafe => ?_) fun ⟨first, waiting, hcons, _⟩ => by cases hcons
        have hends : Outcome Mild (fun _ => True) (c.pass handle) := hsafe.1
        rw [hpass] at hends
        unfold ClientLink.reply at hends
        rw [hlist] at hends
        exact hends.2 rfl
      | cons first waiting =>
        have hcalls := calls_reply_iff hpass hlist
        constructor
        · rintro ⟨-, hlate⟩
          refine ⟨first, waiting, rfl, fun hdestroyed => ?_⟩
          by_contra hsome
          exact hlate hdestroyed (hcalls.mpr hsome)
        · rintro ⟨first', waiting', hcons, hlate⟩
          cases hcons
          refine ⟨?_, fun hdestroyed hcall => hcalls.mp hcall (hlate hdestroyed)⟩
          show Outcome Mild (fun _ => True) (c.pass handle)
          rw [hpass]
          exact (h1.reply (by simp [hlist])).imp fun _ _ => trivial
    · -- nothing is parsed, so no handler is called
      refine iff_of_true ⟨?_, fun _ => not_calls fun handle handle' => ?_⟩ fun p hp hgood => ?_
      · show Outcome Mild (fun _ => True) (c.pass handle)
        rw [hpass]
        exact hx.imp fun _ _ => trivial
      · show c.pass handle = c.pass handle'
        rw [hpass, hpass]
      · rw [hbad p hp] at hgood
        cases hgood

/-! ## Every run -/

/-- **The steps of a run are safe exactly if they are orderly**, whatever the order of the events is. -/
theorem run_safe_iff (handle : ReplyHandle σ H) (status_ : Int) (world : σ)
    (es : List (ClientEvent H)) :
    Along (step handle) (Safe handle) (init status_ world) es ↔
      Along (step handle) Orderly (init status_ world) es :=
  along_congr (fun _ _ _ h hc' => Sound.step h hc') (fun _ e h => h.safe_iff e) es
    (sound_init status_ world)

/-- A run of safe steps ends in no null pointer and no empty container. -/
theorem outcome_of_safe : ∀ {es : List (ClientEvent H)} {c : ClientLink σ H},
    Along (step handle) (Safe handle) c es → Outcome Mild (fun _ => True) (run (step handle) c es)
  | [], _, _ => trivial
  | e :: es, c, h => by
    have hends := h.1.1
    have hrest := h.2
    rw [run_cons]
    revert hends hrest
    cases c.step handle e with
    | error f => exact fun hf _ => hf
    | ok c' => exact fun _ hrest => outcome_of_safe (hrest c' rfl)

/-- A handler that does nothing. -/
def idle : ReplyHandle Unit Unit := fun _ _ _ =>
  some { world := (), content_ := .init, wf := Buffer.wf_init, calls := [] }

/-- A reply to something. -/
def notFound : Bytes := str "HTTP/1.1 404 Not Found\r\nContent-Length: 0\r\n\r\n"

/-- A reply that comes after `destroy`. -/
def tooLate : List (ClientEvent Unit) :=
  [.get (getWith [] (some ())), .connected, .destroy, .arrived 0 notFound]

/--
A connection attempt that fails, a completion after `destroy`, a reply that nobody has asked for, and a
reply whose handler runs after `destroy`.
-/
theorem not_safe_runs :
    ¬Along (step idle) (Safe idle) (init 0 ()) [.connectFailed] ∧
    ¬Along (step idle) (Safe idle) (init 0 ())
      [.get (getWith [] (some ())), .connected, .destroy, .completed 0] ∧
    ¬Along (step idle) (Safe idle) (init 0 ()) [.connected, .arrived 0 notFound, .pass] ∧
    ¬Along (step idle) (Safe idle) (init 0 ()) (tooLate ++ [.pass]) := by
  have hfault : ∀ {es : List (ClientEvent Unit)} {f : Fault}, ¬Mild f →
      (run (step idle) (init 0 ()) es).map (fun _ => ()) = .error f →
      ¬Along (step idle) (Safe idle) (init 0 ()) es := by
    intro es f hf hrun hsafe
    have hends := outcome_of_safe hsafe
    revert hends hrun
    cases run (step idle) (init 0 ()) es with
    | error f' =>
      intro hrun hmild
      cases hrun
      exact hf hmild
    | ok c => exact fun hrun => by cases hrun
  refine ⟨hfault (f := .nullDeref) (by decide) (by decide +kernel),
    hfault (f := .nullDeref) (by decide) (by decide +kernel),
    hfault (f := .emptyContainer) (by decide) (by decide +kernel), fun hsafe => ?_⟩
  have hlate : (run (step idle) (init 0 ()) tooLate >>= fun c =>
      (c.step idle .pass).map fun c' => (c.destroyed, c'.destroyed)) = .ok (true, true) := by
    decide +kernel
  have hthrows : (run (step idle) (init 0 ()) tooLate >>= fun c =>
      (c.step (fun _ _ _ => none) .pass).map fun _ => ()) = .error .exception := by
    decide +kernel
  cases hrun : run (step idle) (init 0 ()) tooLate with
  | error f =>
    rw [hrun] at hlate
    cases hlate
  | ok c =>
    rw [hrun, ok_bind] at hlate hthrows
    have hlast := ((along_append hrun).mp hsafe).2.1
    cases hpass : c.step idle .pass with
    | error f =>
      rw [hpass] at hlate
      cases hlate
    | ok c' =>
      rw [hpass] at hlate
      refine hlast.2 (congrArg Prod.fst (Except.ok.inj hlate)) ⟨idle, fun _ _ _ => none, fun heq => ?_⟩
      rw [← heq, hpass] at hthrows
      cases hthrows

end ClientLink

end Liby.Http
