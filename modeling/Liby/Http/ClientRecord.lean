import Liby.Http.ClientCalls

/-!
# What a client has on record

`gets`, `world` and `replied` of a `ClientLink` change in two places only: `get` notes its request,
and a pass that finds a whole reply calls the handler of the first request that waits.
`handlerGets` and `worldAfter` tell from the reply alone what that handler does.
-/

namespace Liby.Http

open Infra

variable {σ H : Type _}

/-- The request of a call of `get`. -/
def GetCall.request? : GetCall H → Option (Get H)
  | .get request => some request
  | .destroy => none

/-- What the handler of a request does with its reply. An empty handler does nothing. -/
def answer (handle : ReplyHandle σ H) (world : σ) (r : Get H × ReplyParser) :
    Option (Response σ H) :=
  r.1.handler.bind fun handler => handle world handler r.2

/-- The world that the handler leaves. -/
def worldAfter (handle : ReplyHandle σ H) (world : σ) (r : Get H × ReplyParser) : σ :=
  match answer handle world r with
  | none => world
  | some response => response.world

/-- The requests that the handler gives to `get`. -/
def handlerGets (handle : ReplyHandle σ H) (world : σ) (r : Get H × ReplyParser) : List (Get H) :=
  match answer handle world r with
  | none => []
  | some response => response.calls.filterMap GetCall.request?

namespace ClientLink

variable {c c' : ClientLink σ H} {handle : ReplyHandle σ H} {i : Nat}

/-- Nothing is put on record but the requests `new`. -/
structure Notes (c c' : ClientLink σ H) (new : List (Get H)) : Prop where
  gets : c'.gets = c.gets ++ new
  world : c'.world = c.world
  replied : c'.replied = c.replied

theorem Notes.refl (c : ClientLink σ H) : Notes c c [] := ⟨(List.append_nil _).symm, rfl, rfl⟩

theorem Notes.trans {c'' : ClientLink σ H} {new new' : List (Get H)} (h : Notes c c' new)
    (h' : Notes c' c'' new') : Notes c c'' (new ++ new') where
  gets := by rw [h'.gets, h.gets, List.append_assoc]
  world := h'.world.trans h.world
  replied := h'.replied.trans h.replied

theorem notes_through {f : Connection Unit → Exec (Connection Unit)} (h : c.through f = .ok c') :
    Notes c c' [] := by
  unfold through at h
  split at h
  · cases h
  · obtain ⟨conn, -, h⟩ := bind_eq_ok.mp h
    obtain ⟨conn', -, h⟩ := bind_eq_ok.mp h
    cases h
    exact ⟨(List.append_nil _).symm, rfl, rfl⟩

theorem notes_sendRequest (h : c.sendRequest = .ok c') : Notes c c' [] := by
  unfold sendRequest at h
  split at h
  · cases h
  · obtain ⟨buffer, -, h⟩ := bind_eq_ok.mp h
    obtain ⟨c1, hc1, h⟩ := bind_eq_ok.mp h
    cases h
    have hnotes := notes_through hc1
    exact ⟨hnotes.gets, hnotes.world, hnotes.replied⟩

theorem notes_get {request : Get H} (h : c.get request = .ok c') : Notes c c' [request] := by
  unfold get at h
  dsimp only at h
  split at h
  · have hnotes := notes_sendRequest h
    exact ⟨hnotes.gets.trans (List.append_nil _), hnotes.world, hnotes.replied⟩
  · cases h
    exact ⟨rfl, rfl, rfl⟩

theorem notes_handleConnection {conn : Option (Connection Unit)}
    (h : c.handleConnection conn = .ok c') : Notes c c' [] := by
  unfold handleConnection at h
  obtain ⟨c1, hc1, h⟩ := bind_eq_ok.mp h
  obtain ⟨c2, hc2, h⟩ := bind_eq_ok.mp h
  have hfirst : Notes c c1 [] := by
    have hnotes := notes_through hc1
    cases conn with
    | none => exact ⟨hnotes.gets, hnotes.world, hnotes.replied⟩
    | some conn => exact ⟨hnotes.gets, hnotes.world, hnotes.replied⟩
  have hboth : Notes c c2 [] := hfirst.trans (notes_through hc2)
  split at h
  · exact hboth.trans (notes_sendRequest h)
  · cases h
    exact hboth

theorem notes_sendDone (h : c.sendDone = .ok c') : Notes c c' [] := by
  unfold sendDone at h
  obtain ⟨c1, hc1, h⟩ := bind_eq_ok.mp h
  split at h
  · cases h
    exact notes_through hc1
  · exact (notes_through hc1).trans (notes_sendRequest h)

theorem notes_completed (h : c.completed i = .ok c') : Notes c c' [] := by
  have hpop : ∀ c1 : ClientLink σ H, Notes c c1 [] →
      (do
        let conn ← readAt c1.connections i
        if conn.destroy_ then return c1
        else do
          let conn ← conn.popFront
          return { c1 with connections := c1.connections.set i conn }) = .ok c' → Notes c c' [] := by
    intro c1 hdone h
    obtain ⟨conn1, -, h⟩ := bind_eq_ok.mp h
    split at h
    · cases h
      exact hdone
    · obtain ⟨conn2, -, h⟩ := bind_eq_ok.mp h
      cases h
      exact ⟨hdone.gets, hdone.world, hdone.replied⟩
  unfold completed at h
  obtain ⟨conn, -, h⟩ := bind_eq_ok.mp h
  split at h
  · cases h
  · next task tasks htasks =>
    dsimp only at h
    split at h
    · exact hpop c (.refl c) h
    · obtain ⟨c1, hc1, h⟩ := bind_eq_ok.mp h
      exact hpop c1 (notes_sendDone hc1) h

theorem notes_arrived {bytes : Bytes} (h : c.arrived i bytes = .ok c') : Notes c c' [] := by
  unfold arrived at h
  obtain ⟨conn, -, h⟩ := bind_eq_ok.mp h
  obtain ⟨conn', -, h⟩ := bind_eq_ok.mp h
  dsimp only at h
  split at h
  · cases h
    exact ⟨(List.append_nil _).symm, rfl, rfl⟩
  · cases h
    exact ⟨(List.append_nil _).symm, rfl, rfl⟩

/-- The calls of a handler put its requests on record, in their order. -/
theorem notes_calls {calls : List (GetCall H)} (h : run call c calls = .ok c') :
    Notes c c' (calls.filterMap GetCall.request?) := by
  induction calls generalizing c with
  | nil =>
    cases h
    exact .refl _
  | cons x calls ih =>
    obtain ⟨c1, hc1, hrest⟩ := run_cons_ok h
    have hnotes := ih hrest
    cases x with
    | get request => exact (notes_get hc1).trans hnotes
    | destroy =>
      cases hc1
      exact ⟨hnotes.gets, hnotes.world, hnotes.replied⟩

/-- The reply `r` is handed to the handler of its request. -/
structure Handed (handle : ReplyHandle σ H) (c c' : ClientLink σ H) (r : Get H × ReplyParser) :
    Prop where
  replied : c'.replied = c.replied ++ [r]
  world : c'.world = worldAfter handle c.world r
  gets : c'.gets = c.gets ++ handlerGets handle c.world r

/-- **A whole reply is handed to the handler of the first request that waits.** -/
theorem handed_reply (h : c.reply handle = .ok c') : ∃ r, Handed handle c c' r := by
  unfold ClientLink.reply at h
  split at h
  · cases h
  · next first waiting hlist =>
    obtain ⟨c1, hc1, h⟩ := bind_eq_ok.mp h
    cases h
    refine ⟨(first, c.parser_), ?_⟩
    unfold callHandler at hc1
    split at hc1
    · next hnone =>
      cases hc1
      have hanswer : answer handle c.world (first, c.parser_) = none := by
        simp [answer, hnone]
      exact ⟨rfl, by simp [worldAfter, hanswer], by simp [handlerGets, hanswer]⟩
    · next handler hhandler =>
      split at hc1
      · cases hc1
      · next response hresponse =>
        have hnotes := notes_calls hc1
        have hanswer : answer handle c.world (first, c.parser_) = some response := by
          simp [answer, hhandler, hresponse]
        refine ⟨congrArg (· ++ [(first, c.parser_)]) hnotes.replied, ?_, ?_⟩
        · simpa [worldAfter, hanswer] using hnotes.world
        · simpa [handlerGets, hanswer] using hnotes.gets

/-- A pass hands over a reply, or leaves the record alone. -/
theorem record_pass (h : c.pass handle = .ok c') : Notes c c' [] ∨ ∃ r, Handed handle c c' r := by
  unfold pass at h
  split at h
  · cases h
  · next i hi =>
    obtain ⟨conn, -, h⟩ := bind_eq_ok.mp h
    split at h
    · cases h
      exact .inl ⟨(List.append_nil _).symm, rfl, rfl⟩
    · obtain ⟨c1, hc1, h⟩ := bind_eq_ok.mp h
      -- what the parser takes changes nothing that is on record
      have htake : Notes c c1 [] := by
        unfold take at hc1
        obtain ⟨conn1, -, hc1⟩ := bind_eq_ok.mp hc1
        obtain ⟨range, -, hc1⟩ := bind_eq_ok.mp hc1
        obtain ⟨f, -, hc1⟩ := bind_eq_ok.mp hc1
        obtain ⟨length, -, hc1⟩ := bind_eq_ok.mp hc1
        obtain ⟨readBuf, -, hc1⟩ := bind_eq_ok.mp hc1
        cases hc1
        exact ⟨(List.append_nil _).symm, rfl, rfl⟩
      split at h
      · cases h
        exact .inl ⟨htake.gets, htake.world, htake.replied⟩
      · split at h
        · obtain ⟨r, hr⟩ := handed_reply h
          refine .inr ⟨r, ?_, ?_, ?_⟩
          · rw [hr.replied, htake.replied]
          · rw [hr.world, htake.world]
          · rw [hr.gets, htake.gets, htake.world, List.append_nil]
        · cases h
          exact .inl htake

end ClientLink

end Liby.Http
