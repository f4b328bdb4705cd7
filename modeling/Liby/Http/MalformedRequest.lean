import Liby.Http.OneResponse
import Liby.Net.ReadPath
import Liby.Net.WriteHandlers

/-!
# Malformed requests

On a parser in an error state `handleReadEvent` leaves the closing of the connection to the
completion handler of an error reply. `Reply::Error` gives an empty string, and `send` does not
queue an empty string, so that this handler never gets into `writTasks_`.
-/

namespace Liby.Http

open Infra

/-- The handler destroys the connection, at once or on the next tick. -/
def HttpHandler.Destroys (context : HttpContext) (handler : HttpHandler) : Prop :=
  .destroy ∈ (httpCallbacks.complete context handler).2 ∨
    .destroyLater ∈ (httpCallbacks.complete context handler).2

namespace HttpLink

/-- The connection is destroyed, or a task in the queue will have it destroyed. -/
def Closes (l : HttpLink) : Prop :=
  l.conn.destroy_ = true ∨
    ∃ t ∈ l.conn.writTasks_, ∃ handler, t.handler_ = some handler ∧ handler.Destroys l.world

/-- The parser is good, with a request after which the connection is not kept. -/
def Last (p : RequestParser) : Prop :=
  p.isGood = true ∧ p.headers_.get (str "Connection") ≠ str "keep-alive"

/-- No error reply is in the queue, and a connection that is not kept stays with its last request. -/
structure Unclosing (l : HttpLink) : Prop where
  tasks : l.conn.Queues (· ≠ .errorSent)
  keepAlive : l.world.keepAlive_ = false → Last l.world.requestParser

theorem unclosing_accepted : Unclosing accepted where
  tasks := by
    intro t ht
    cases ht
  keepAlive := by
    intro h
    cases h

/-- **No task closes the connection while the parser is in an error state.** -/
theorem Unclosing.not_closes {l : HttpLink} (h : Unclosing l) (hopen : l.conn.destroy_ = false)
    (herror : l.world.requestParser.isError = true) : ¬l.Closes := by
  have hkeep : l.world.keepAlive_ = true := by
    cases hk : l.world.keepAlive_ with
    | true => rfl
    | false =>
      have := isError_of_isGood (h.keepAlive hk).1
      rw [herror] at this
      cases this
  rintro (hdestroy | ⟨t, ht, handler, hhandler, hdestroys⟩)
  · rw [hopen] at hdestroy
    cases hdestroy
  · have hne := h.tasks t ht handler hhandler
    cases handler with
    | headSent fp filesize => rcases hdestroys with hd | hd <;> simp [httpCallbacks] at hd
    | fileSent => rcases hdestroys with hd | hd <;> simp [httpCallbacks, hkeep] at hd
    | errorSent => exact hne rfl

/-- The server's handlers queue files, never an error reply. -/
theorem queue_httpCallbacks : httpCallbacks.Queue (· ≠ .errorSent) where
  complete := by
    intro context handler x hx
    cases handler with
    | headSent fp filesize =>
      obtain rfl := List.mem_singleton.mp hx
      intro m hm handler hhandler
      obtain rfl := List.mem_singleton.mp hm
      cases hhandler
      exact fun h => by cases h
    | fileSent =>
      have hx : x ∈ if context.keepAlive_ then [] else [ConnCall.destroyLater] := hx
      split at hx
      · cases hx
      · obtain rfl := List.mem_singleton.mp hx
        intro m hm
        cases hm
    | errorSent =>
      obtain rfl := List.mem_singleton.mp hx
      intro m hm
      cases hm
  onErro := by
    intro context x hx
    obtain rfl := List.mem_singleton.mp hx
    intro m hm
    cases hm

/-! ## A read event -/

variable {root_ : Bytes} {fs : FileSystem} {walk : Walk} {l l' : HttpLink}

/-- A call of `send` leaves the connection as open as it was. -/
theorem sendString_destroy {str : Bytes} {handler : Option HttpHandler}
    (h : l.call (.sendString str handler) = .ok l') : l'.conn.destroy_ = l.conn.destroy_ := by
  obtain ⟨c, hc, h⟩ := bind_eq_ok.mp h
  cases h
  have hc : l.conn.sendString str handler = .ok c := hc
  unfold Connection.sendString at hc
  split at hc
  · cases hc
    rfl
  · obtain ⟨ch, -, hc⟩ := bind_eq_ok.mp hc
    cases hc
    rfl

/-- `send` of the error reply does nothing. -/
theorem call_error (l : HttpLink) :
    l.call (.sendString (Reply.Error 404) (some .errorSent)) = .ok l := by
  show Except.ok { l with sent := l.sent ++ [] } = _
  rw [List.append_nil]

theorem get_touch (headers : Headers) (key : Bytes) : (headers.touch key).get key = headers.get key := by
  unfold Headers.touch
  split
  · rfl
  · next hnone =>
    rw [Option.not_isSome_iff_eq_none] at hnone
    unfold Headers.get
    rw [List.lookup_append, hnone, Option.none_or]
    simp

theorem respond_unclosing (h : Unclosing l) (hgood : l.world.requestParser.isGood = true)
    {pass : Pass HttpLink HttpLink} (hpass : respond root_ fs walk l = .ok pass) :
    Unclosing pass.out ∧ pass.out.conn.destroy_ = l.conn.destroy_ := by
  unfold respond at hpass
  dsimp only at hpass
  split at hpass
  · cases hpass
    exact ⟨h, rfl⟩
  · split at hpass
    · cases hpass
      exact ⟨h, rfl⟩
    · obtain ⟨rep, -, hpass⟩ := bind_eq_ok.mp hpass
      obtain ⟨l1, hcall, hpass⟩ := bind_eq_ok.mp hpass
      have hworld := (Link.still_call hcall).world
      have hdestroy := sendString_destroy hcall
      have htasks : l1.conn.Queues (· ≠ .errorSent) := by
        refine Link.queues_call h.tasks (fun m hm handler hhandler => ?_) hcall
        rw [ConnCall.messages] at hm
        split at hm
        · cases hm
        · obtain rfl := List.mem_singleton.mp hm
          cases hhandler
          exact fun h => by cases h
      split at hpass
      · next hlast =>
        cases hpass
        refine ⟨⟨htasks, fun _ => ⟨hgood, ?_⟩⟩, hdestroy⟩
        show (Headers.touch _ _).get _ ≠ _
        rw [get_touch]
        exact hlast
      · next hkeep =>
        -- a connection that is not kept has come to its last request, and this is not it
        cases hpass
        refine ⟨⟨htasks, fun hclosing => ?_⟩, hdestroy⟩
        have hclosing : l1.world.keepAlive_ = false := hclosing
        rw [hworld] at hclosing
        exact absurd (h.keepAlive hclosing).2 hkeep

theorem pass_unclosing (h : Unclosing l) {pass : Pass HttpLink HttpLink}
    (hpass : handleReadEventPass root_ fs walk l = .ok pass) :
    Unclosing pass.out ∧ pass.out.conn.destroy_ = l.conn.destroy_ := by
  unfold handleReadEventPass at hpass
  split at hpass
  · cases hpass
    exact ⟨h, rfl⟩
  · obtain ⟨d, -, hpass⟩ := bind_eq_ok.mp hpass
    obtain ⟨f, hf, hpass⟩ := bind_eq_ok.mp hpass
    obtain ⟨length, -, hpass⟩ := bind_eq_ok.mp hpass
    obtain ⟨readBuf, -, hpass⟩ := bind_eq_ok.mp hpass
    have hparsed : Unclosing (parsed l f.parser readBuf) := by
      refine ⟨h.tasks, fun hclosing => ?_⟩
      have hlast := h.keepAlive hclosing
      rw [parse_good hlast.1] at hf
      cases hf
      exact hlast
    dsimp only at hpass
    split at hpass
    · rw [call_error, ok_bind] at hpass
      cases hpass
      exact ⟨hparsed, rfl⟩
    · split at hpass
      · next hgood => exact respond_unclosing hparsed hgood hpass
      · cases hpass
        exact ⟨hparsed, rfl⟩

theorem passes_unclosing : ∀ {n : Nat} {l l' : HttpLink}, Unclosing l →
    Loop.passes (handleReadEventPass root_ fs walk) n l = some (.ok l') →
    Unclosing l' ∧ l'.conn.destroy_ = l.conn.destroy_
  | 0, _, _, _, h => by cases h
  | n + 1, l, l', hl, h => by
    rw [Loop.passes] at h
    split at h
    · cases h
    · next r hpass =>
      cases h
      exact pass_unclosing hl hpass
    · next t hpass =>
      have ht := pass_unclosing hl hpass
      have hl' := passes_unclosing (l := t) ht.1 h
      exact ⟨hl'.1, hl'.2.trans ht.2⟩

theorem read_unclosing (hl : Unclosing l) {bytes : Bytes} (h : l.step root_ (.read bytes fs walk) = .ok l') :
    Unclosing l' ∧ l'.conn.destroy_ = false := by
  obtain ⟨hopen, conn, hconn, hcases⟩ := step_read h
  obtain ⟨buffer, rfl⟩ := Connection.receive_frame hconn
  have hl1 : Unclosing { l with conn := { l.conn with readBuf_ := buffer } } := ⟨hl.tasks, hl.keepAlive⟩
  rcases hcases with ⟨-, n, hn⟩ | ⟨-, rfl⟩
  · have hpasses := passes_unclosing hl1 hn
    exact ⟨hpasses.1, hpasses.2.trans hopen⟩
  · exact ⟨hl1, hopen⟩

/-! ## Runs -/

theorem step_unclosing {e : HttpEvent} (hl : Unclosing l) (h : l.step root_ e = .ok l') : Unclosing l' := by
  cases e with
  | read bytes fs walk => exact (read_unclosing hl h).1
  | writ as =>
    obtain ⟨u, -, h⟩ := bind_eq_ok.mp h
    refine ⟨Link.queues_handleWritEvent queue_httpCallbacks hl.tasks h, ?_⟩
    rw [(Link.still_handleWritEvent still_httpCallbacks h).world]
    exact hl.keepAlive
  | tick =>
    obtain ⟨conn, hconn, h⟩ := bind_eq_ok.mp h
    cases h
    refine ⟨?_, hl.keepAlive⟩
    rcases Connection.tick_cases hconn with rfl | rfl
    · exact hl.tasks
    · exact Connection.Queues.destroy (c := { l.conn with nextTicks := 0 }) hl.tasks

/--
**A malformed request never closes its connection**: a read event of a run after which the parser is
in an error state leaves the connection open, and no task in the queue whose handler destroys it.
-/
theorem malformed_not_closes (root_ : Bytes) (es : List HttpEvent) (bytes : Bytes) (fs : FileSystem) :
    Outcome (fun _ => True) (fun l => l.world.requestParser.isError = true → ¬l.Closes)
      (run (step root_) accepted (es ++ [.read bytes fs walk])) := by
  cases hrun : run (step root_) accepted (es ++ [.read bytes fs walk]) with
  | error f => trivial
  | ok l' =>
    rw [run_append] at hrun
    obtain ⟨l, hl, hread⟩ := bind_eq_ok.mp hrun
    obtain ⟨t, ht, hlast⟩ := run_cons_ok hread
    cases hlast
    have hunclosing := run_invariant (fun _ _ _ hi hs => step_unclosing hi hs) unclosing_accepted hl
    obtain ⟨hl', hopen⟩ := read_unclosing hunclosing ht
    exact hl'.not_closes hopen

/-- An unknown method: the error reply is not queued, and what comes next stays in `readBuf_`. -/
theorem malformed_left_open :
    ∃ l, run (step (str "www")) accepted
        [.read (str "BREW /a HTTP/1.1\r\n\r\n") oneFile .listed, .read (str "GET") oneFile .listed] = .ok l ∧
      l.world.requestParser.isError = true ∧ ¬l.Closes ∧ l.conn.writTasks_ = [] ∧
      l.conn.readBuf_.contents = str "BREW /a HTTP/1.1\r\n\r\nGET" := by
  have hend : (run (step (str "www")) accepted
      [.read (str "BREW /a HTTP/1.1\r\n\r\n") oneFile .listed, .read (str "GET") oneFile .listed]).map
        (fun l => (l.world.requestParser.isError, l.conn.destroy_, l.conn.writTasks_,
          l.conn.readBuf_.contents))
      = .ok (true, false, [], str "BREW /a HTTP/1.1\r\n\r\nGET") := by
    decide +kernel
  cases hl : run (step (str "www")) accepted
      [.read (str "BREW /a HTTP/1.1\r\n\r\n") oneFile .listed, .read (str "GET") oneFile .listed] with
  | error f =>
    rw [hl] at hend
    cases hend
  | ok l =>
    rw [hl] at hend
    have hfields := Except.ok.inj hend
    simp only [Prod.mk.injEq] at hfields
    obtain ⟨herror, hdestroy, htasks, hcontents⟩ := hfields
    refine ⟨l, rfl, herror, ?_, htasks, hcontents⟩
    rintro (hd | ⟨t, ht, -⟩)
    · rw [hdestroy] at hd
      cases hd
    · rw [htasks] at ht
      cases ht

end HttpLink

end Liby.Http
