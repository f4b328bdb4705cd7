import Liby.Buffer.StringRoundTrip
import Liby.Net.ReadAll

/-!
# The chat server

`examples/chat.cpp`: every accepted connection goes into the list `conns`, and what is read from one of them
is sent to all the others that are still there. The server runs in one loop.
-/

namespace Liby.Chat

open Infra Outbox Link

/-- The connections in the order in which they were accepted, and the list `conns` of `weak_ptr`s to them. -/
structure Room where
  conns : List Nat
  links : List (Link Unit Empty)
  deriving DecidableEq, Repr

/-- There are no completion handlers, and the error callback of a `TcpServer` destroys the connection. -/
def callbacks : Callbacks Room Empty where
  complete := fun w _ => (w, [])
  onErro := fun w => (w, [.destroy])

/--
The loop over `conns`, for a message from the connection `conn`: what is left of the list, and the
connections. Between two events a connection that is destroyed is gone, and its `weak_ptr` expired.
-/
def forward (conn : Nat) (msg : Bytes) : List Nat → List (Link Unit Empty) →
    Exec (List Nat × List (Link Unit Empty))
  | [], links => .ok ([], links)
  | it :: conns, links =>
    match links[it]? with
    | none => .error .nullDeref
    | some x =>
      if x.conn.destroy_ then forward conn msg conns links
      else if it = conn then do
        let (conns, links) ← forward conn msg conns links
        return (it :: conns, links)
      else do
        let x ← x.call (.sendString msg none)
        let (conns, links) ← forward conn msg conns (links.set it x)
        return (it :: conns, links)

/-- The read callback. -/
def onRead (conn : Nat) (l : Link Room Empty) : Exec (Link Room Empty) := do
  let (msg, readBuf) ← l.conn.readBuf_.retriveveAllAsString
  let (conns, links) ← forward conn msg l.world.conns l.world.links
  return { l with
    conn := { l.conn with readBuf_ := readBuf }
    world := { conns := conns, links := links } }

/-- What happens in the loop of the server. -/
inductive Event where
  | accept
  | read (conn : Nat) (a : ReadAnswer)
  | writ (conn : Nat) (as : List WriteAnswer)
  deriving DecidableEq, Repr

/-- The server, and for each connection what the others have sent since it was accepted. -/
structure State where
  room : Room
  heard : List (List Bytes)
  deriving DecidableEq, Repr

/-- An event of a connection; one that is destroyed is not in the poller. -/
def handle (room : Room) (conn : Nat) (f : Link Room Empty → Exec (Link Room Empty)) : Exec Room :=
  match room.links[conn]? with
  | none => .error .environment
  | some own =>
    if own.conn.destroy_ then .ok room
    else do
      let l ← f (own.within room)
      return { l.world with links := l.world.links.set conn (l.within ()) }

/-- The connections other than `conn` are to get a message. -/
def hear (conn : Nat) (msg : Bytes) (heard : List (List Bytes)) : List (List Bytes) :=
  heard.mapIdx fun it msgs => if it = conn then msgs else msgs ++ [msg]

/-- Whether a connection is there to be read from. -/
def Room.open (room : Room) (conn : Nat) : Bool :=
  room.links[conn]?.any fun own => !own.conn.destroy_

/-- A step of the server. -/
def step (s : State) : Event → Exec State
  | .accept => .ok {
      room := {
        conns := s.room.conns ++ [s.room.links.length]
        links := s.room.links ++ [.start .accepted ()] }
      heard := s.heard ++ [[]] }
  | .read conn a => do
    let room ← handle s.room conn fun l => l.handleReadEvent callbacks (onRead conn) a
    return {
      room := room
      heard := if s.room.open conn && a.bytes ≠ [] then hear conn a.bytes s.heard else s.heard }
  | .writ conn as => do
    let room ← handle s.room conn fun l => l.handleWritEvent callbacks as
    return { s with room := room }

/-- Nobody is there. -/
def start : State where
  room := { conns := [], links := [] }
  heard := []

/-! ## The loop over the connections -/

/-- A message as `send` puts it in the queue. -/
def said (msg : Bytes) : Message UInt8 (Option Empty) := { payload := msg, tag := none }

/-- What the loop does to the connection `it`. -/
inductive Told (conn : Nat) (msg : Bytes) (conns : List Nat) (it : Nat) (own own' : Link Unit Empty) : Prop where
  | told : it ∈ conns → it ≠ conn → own.conn.destroy_ = false → Up own' →
      own'.sent = own.sent ++ [said msg] → Told conn msg conns it own own'
  | same : (it ∈ conns → it = conn ∨ own.conn.destroy_ = true) → own' = own → Told conn msg conns it own own'

variable {conn : Nat} {msg : Bytes} {links : List (Link Unit Empty)} {own : Link Unit Empty}

/-- A message for a connection that is there. -/
theorem send_ok (h : Up own) (hmsg : msg ≠ []) :
    ∃ own', own.call (.sendString msg none) = .ok own' ∧ Up own' ∧ own'.sent = own.sent ++ [said msg] := by
  obtain ⟨own', hown', hdelivered, hsent, -⟩ :=
    h.delivered.call_ok (x := .sendString msg none) hmsg (K := fun _ _ _ _ => True) trivial
  rw [ConnCall.messages, if_neg hmsg] at hsent
  obtain ⟨c, hc, hown⟩ := bind_eq_ok.mp hown'
  cases hown
  exact ⟨_, hown', ⟨hdelivered, h.announces.call hc, h.taken.still (Connection.still_call hc)⟩, hsent⟩

/-- A connection that the loop leaves out at its start. -/
theorem told_cons {it0 it : Nat} {conns : List Nat} {own' : Link Unit Empty}
    (h : Told conn msg conns it own own')
    (hskip : it = it0 → it = conn ∨ own.conn.destroy_ = true) : Told conn msg (it0 :: conns) it own own' := by
  cases h with
  | told hin hne halive hup hsent => exact .told (List.mem_cons_of_mem _ hin) hne halive hup hsent
  | same hwhy hsame =>
    refine .same (fun hin => ?_) hsame
    rcases List.mem_cons.mp hin with rfl | hin
    · exact hskip rfl
    · exact hwhy hin

/--
**The loop sends the message to every connection in the list that is still there**, but for the one it comes
from, and takes only those that are gone out of the list.
-/
theorem forward_ok (hmsg : msg ≠ []) : ∀ {conns : List Nat} {links : List (Link Unit Empty)},
    conns.Nodup → (∀ it ∈ conns, it < links.length) → (∀ own ∈ links, Up own ∨ Down own) →
    ∃ conns' links', forward conn msg conns links = .ok (conns', links') ∧ conns'.Sublist conns ∧
      (∀ it ∈ conns, ∀ own, links[it]? = some own → own.conn.destroy_ = false → it ∈ conns') ∧
      links'.length = links.length ∧
      ∀ it own, links[it]? = some own → ∃ own', links'[it]? = some own' ∧ Told conn msg conns it own own'
  | [], links, _, _, _ =>
    ⟨[], links, rfl, .refl _, nofun, rfl, fun _ own hown => ⟨own, hown, .same nofun rfl⟩⟩
  | it0 :: conns, links, hnodup, hbound, hlinks => by
    obtain ⟨hnot, hnodup⟩ := List.nodup_cons.mp hnodup
    have hlt := hbound it0 List.mem_cons_self
    have hbound' : ∀ it ∈ conns, it < links.length := fun it hit => hbound it (List.mem_cons_of_mem _ hit)
    have hget : links[it0]? = some links[it0] := List.getElem?_eq_getElem hlt
    unfold forward
    rw [hget]
    dsimp only
    split
    · next hdestroyed =>
      obtain ⟨conns', links', hok, hsub, hkept, hlength, htold⟩ := forward_ok hmsg hnodup hbound' hlinks
      refine ⟨conns', links', hok, hsub.cons _, fun it hit own hown halive => ?_, hlength,
        fun it own hown => ?_⟩
      · rcases List.mem_cons.mp hit with rfl | hit
        · rw [hget] at hown
          cases hown
          rw [hdestroyed] at halive
          cases halive
        · exact hkept it hit own hown halive
      · obtain ⟨own', hown', h⟩ := htold it own hown
        refine ⟨own', hown', told_cons h ?_⟩
        intro heq
        subst heq
        rw [hget] at hown
        cases hown
        exact .inr hdestroyed
    · next halive0 =>
      have halive0 := Bool.eq_false_iff.mpr halive0
      split
      · next hself =>
        obtain ⟨conns', links', hok, hsub, hkept, hlength, htold⟩ := forward_ok hmsg hnodup hbound' hlinks
        refine ⟨it0 :: conns', links', by rw [hok]; rfl, hsub.cons_cons _, fun it hit own hown halive => ?_,
          hlength, fun it own hown => ?_⟩
        · rcases List.mem_cons.mp hit with rfl | hit
          · exact List.mem_cons_self
          · exact List.mem_cons_of_mem _ (hkept it hit own hown halive)
        · obtain ⟨own', hown', h⟩ := htold it own hown
          exact ⟨own', hown', told_cons h fun heq => .inl (heq.trans hself)⟩
      · next hother =>
        obtain hup | hdown := hlinks links[it0] (List.getElem_mem hlt)
        · obtain ⟨x, hx, hupx, hsent⟩ := send_ok hup hmsg
          have hlinks' : ∀ own ∈ links.set it0 x, Up own ∨ Down own := fun own hown =>
            (List.mem_or_eq_of_mem_set hown).elim (hlinks own) fun heq => .inl (heq ▸ hupx)
          obtain ⟨conns', links', hok, hsub, hkept, hlength, htold⟩ :=
            forward_ok hmsg hnodup
              (fun it hit => by rw [List.length_set]; exact hbound' it hit) hlinks'
          rw [hx, ok_bind, hok]
          refine ⟨it0 :: conns', links', rfl, hsub.cons_cons _, fun it hit own hown halive => ?_,
            by rw [hlength, List.length_set], fun it own hown => ?_⟩
          · rcases List.mem_cons.mp hit with rfl | hit
            · exact List.mem_cons_self
            · have hne : it0 ≠ it := fun heq => hnot (heq ▸ hit)
              exact List.mem_cons_of_mem _
                (hkept it hit own (by rw [List.getElem?_set_ne hne]; exact hown) halive)
          · by_cases heq : it = it0
            · subst heq
              obtain ⟨own', hown', h⟩ := htold it x (List.getElem?_set_self hlt)
              refine ⟨own', hown', ?_⟩
              rw [hget] at hown
              cases hown
              cases h with
              | told hin => exact absurd hin hnot
              | same _ hsame =>
                rw [hsame]
                exact .told List.mem_cons_self hother halive0 hupx hsent
            · obtain ⟨own', hown', h⟩ := htold it own (by
                rw [List.getElem?_set_ne fun h => heq h.symm]
                exact hown)
              exact ⟨own', hown', told_cons h fun h => absurd h heq⟩
        · rw [hdown.destroyed] at halive0
          cases halive0

/-! ## The invariant -/

/-- A connection that was sent what it is to hear; one that is destroyed was sent the start of it. -/
inductive Hears (msgs : List Bytes) (own : Link Unit Empty) : Prop where
  | up : Up own → own.sent = msgs.map said → Hears msgs own
  | down : Down own → own.sent <+: msgs.map said → Hears msgs own

/-- The server between two events. -/
structure Chats (s : State) : Prop where
  length : s.heard.length = s.room.links.length
  nodup : s.room.conns.Nodup
  bound : ∀ it ∈ s.room.conns, it < s.room.links.length
  listed : ∀ it own, s.room.links[it]? = some own → own.conn.destroy_ = false → it ∈ s.room.conns
  hears : ∀ (it : Nat) (own : Link Unit Empty) (msgs : List Bytes), s.room.links[it]? = some own →
    s.heard[it]? = some msgs → Hears msgs own

variable {s : State} {room : Room} {own' : Link Unit Empty} {msgs : List Bytes}

theorem Hears.up_or_down (h : Hears msgs own) : Up own ∨ Down own := by
  cases h with
  | up hup _ => exact .inl hup
  | down hdown _ => exact .inr hdown

theorem Hears.up_of_alive (h : Hears msgs own) (halive : own.conn.destroy_ = false) :
    Up own ∧ own.sent = msgs.map said := by
  cases h with
  | up hup hsent => exact ⟨hup, hsent⟩
  | down hdown _ =>
    rw [hdown.destroyed] at halive
    cases halive

/-- The connection of an event was sent nothing in it. -/
theorem Hears.same (h : Hears msgs own) (halive : own.conn.destroy_ = false) (hother : Up own' ∨ Down own')
    (hsent : own'.sent = own.sent) : Hears msgs own' := by
  obtain ⟨-, hall⟩ := h.up_of_alive halive
  rcases hother with hup | hdown
  · exact .up hup (hsent.trans hall)
  · exact .down hdown ((hsent.trans hall) ▸ List.prefix_rfl)

/-- One more message. -/
theorem Hears.told (h : Hears msgs own) {conns : List Nat} {it : Nat} (htold : Told conn msg conns it own own')
    (hin : own.conn.destroy_ = false → it ∈ conns) :
    Hears (if it = conn then msgs else msgs ++ [msg]) own' := by
  cases htold with
  | told _ hne halive hup hsent =>
    rw [if_neg hne]
    refine .up hup ?_
    rw [hsent, (h.up_of_alive halive).2, List.map_append]
    rfl
  | same hwhy hsame =>
    subst hsame
    split
    · exact h
    · next hne =>
      cases h with
      | up hup _ =>
        have halive := hup.alive
        rcases hwhy (hin halive) with hself | hdestroyed
        · exact absurd hself hne
        · rw [hdestroyed] at halive
          cases halive
      | down hdown hstart =>
        refine .down hdown (hstart.trans ?_)
        rw [List.map_append]
        exact List.prefix_append _ _

theorem Chats.up_or_down (h : Chats s) : ∀ own ∈ s.room.links, Up own ∨ Down own := by
  intro own hown
  obtain ⟨it, hlt, rfl⟩ := List.getElem_of_mem hown
  have hheard : it < s.heard.length := by rw [h.length]; exact hlt
  exact (h.hears it _ _ (List.getElem?_eq_getElem hlt) (List.getElem?_eq_getElem hheard)).up_or_down

/-- A connection that is there hears what the others say. -/
theorem Chats.hears_of_get (h : Chats s) {it : Nat} (hown : s.room.links[it]? = some own) :
    ∃ msgs, s.heard[it]? = some msgs ∧ Hears msgs own := by
  obtain ⟨hlt, -⟩ := List.getElem?_eq_some_iff.mp hown
  have hheard : it < s.heard.length := by rw [h.length]; exact hlt
  exact ⟨_, List.getElem?_eq_getElem hheard, h.hears it _ _ hown (List.getElem?_eq_getElem hheard)⟩

/-- An event in which the connection was sent nothing. -/
theorem Chats.set (h : Chats s) (hown : s.room.links[conn]? = some own) (halive : own.conn.destroy_ = false)
    (hother : Up own' ∨ Down own') (hsent : own'.sent = own.sent) :
    Chats { s with room := { s.room with links := s.room.links.set conn own' } } where
  length := by
    show s.heard.length = (s.room.links.set conn own').length
    rw [List.length_set]
    exact h.length
  nodup := h.nodup
  bound := fun it hit => by
    show it < (s.room.links.set conn own').length
    rw [List.length_set]
    exact h.bound it hit
  listed := fun it x hx hup => by
    by_cases heq : conn = it
    · subst heq
      exact h.listed conn own hown halive
    · exact h.listed it x (by rwa [List.getElem?_set_ne heq] at hx) hup
  hears := fun it x msgs hx hmsgs => by
    by_cases heq : conn = it
    · subst heq
      rw [List.getElem?_set_self (List.getElem?_eq_some_iff.mp hown).1] at hx
      cases hx
      exact (h.hears conn own msgs hown hmsgs).same halive hother hsent
    · exact h.hears it x msgs (by rwa [List.getElem?_set_ne heq] at hx) hmsgs

theorem length_hear (conn : Nat) (msg : Bytes) (heard : List (List Bytes)) :
    (hear conn msg heard).length = heard.length := List.length_mapIdx

theorem getElem?_hear (conn : Nat) (msg : Bytes) (heard : List (List Bytes)) (it : Nat) :
    (hear conn msg heard)[it]? = heard[it]?.map fun msgs => if it = conn then msgs else msgs ++ [msg] :=
  List.getElem?_mapIdx

/-- **What the loop over the connections leaves**: all the others have heard the message. -/
theorem Chats.forward_ok (h : Chats s) (conn : Nat) (hmsg : msg ≠ []) :
    ∃ conns links, forward conn msg s.room.conns s.room.links = .ok (conns, links) ∧
      Chats { room := { conns := conns, links := links }, heard := hear conn msg s.heard } ∧
      links[conn]? = s.room.links[conn]? := by
  obtain ⟨conns, links, hok, hsub, hkept, hlength, htold⟩ :=
    @Chat.forward_ok conn msg hmsg _ _ h.nodup h.bound h.up_or_down
  -- what stands in the new list stood in the old one
  have hback : ∀ {it : Nat} {own' : Link Unit Empty}, links[it]? = some own' →
      ∃ own, s.room.links[it]? = some own ∧ Told conn msg s.room.conns it own own' := by
    intro it own' hown'
    obtain ⟨hlt, -⟩ := List.getElem?_eq_some_iff.mp hown'
    have hget := List.getElem?_eq_getElem (hlength ▸ hlt)
    obtain ⟨own'', hown'', h'⟩ := htold it _ hget
    rw [hown'] at hown''
    cases hown''
    exact ⟨_, hget, h'⟩
  refine ⟨conns, links, hok, ⟨?_, hsub.nodup h.nodup, fun it hit => ?_, ?_, ?_⟩, ?_⟩
  · show (hear conn msg s.heard).length = links.length
    rw [length_hear, hlength]
    exact h.length
  · show it < links.length
    rw [hlength]
    exact h.bound it (hsub.subset hit)
  · intro it own' hown' halive
    obtain ⟨own, hown, h'⟩ := hback hown'
    have hwas : own.conn.destroy_ = false := by
      cases h' with
      | told _ _ hwas _ _ => exact hwas
      | same _ hsame =>
        subst hsame
        exact halive
    exact hkept it (h.listed it own hown hwas) own hown hwas
  · intro it own' msgs hown' hmsgs
    obtain ⟨own, hown, h'⟩ := hback hown'
    obtain ⟨was, hwas, hhears⟩ := h.hears_of_get hown
    have hmsgs : (hear conn msg s.heard)[it]? = some msgs := hmsgs
    rw [getElem?_hear, hwas] at hmsgs
    cases hmsgs
    exact hhears.told h' fun halive => h.listed it own hown halive
  · cases hconn : s.room.links[conn]? with
    | none =>
      rw [List.getElem?_eq_none_iff] at hconn ⊢
      rw [hlength]
      exact hconn
    | some own =>
      obtain ⟨own', hown', h'⟩ := htold conn own hconn
      cases h' with
      | told _ hne _ _ _ => exact absurd rfl hne
      | same _ hsame => rw [hown', hsame]

/-! ## Events -/

/-- The server is as it was, and nothing was sent to the connection of the event. -/
def Rests (room : Room) (own : Link Unit Empty) : History Room Empty := fun w sent _ _ =>
  w = room ∧ sent = own.sent

theorem keeps_rests : callbacks.Keeps (Rests room own) := fun _ _ _ _ handler => nomatch handler

theorem fails_rests : callbacks.Fails true (Rests room own) (Rests room own) := by
  rintro w sent ran ticks ⟨rfl, rfl⟩
  exact ⟨⟨[], [.destroy], rfl, nofun, fun z hz => List.mem_singleton.mp hz⟩, rfl, List.append_nil _⟩

/-- An event that leaves the others alone. -/
theorem survives_rests {l : Link Room Empty}
    (h : Link.Survives true (Rests room own) (Rests room own) l) (htaken : l.conn.Taken) :
    l.world = room ∧ (Up (l.within ()) ∨ Down (l.within ())) ∧ l.sent = own.sent := by
  obtain ⟨hdelivered, hcalled⟩ | hbroken := h
  · obtain ⟨done, hflow⟩ := id hdelivered
    exact ⟨hflow.user.1, .inl (hdelivered.up hcalled htaken), hflow.user.2⟩
  · exact ⟨hbroken.user.1, .inr hbroken.down, hbroken.user.2⟩

/-- An event of a connection that is there. -/
theorem handle_ok {P : Room → Prop} {f : Link Room Empty → Exec (Link Room Empty)} (h : Chats s)
    (hgone : s.room.open conn = false → P s.room)
    (hf : ∀ own, s.room.links[conn]? = some own → own.conn.destroy_ = false → s.room.open conn = true →
      Up own → Guarantees (fun l => P { l.world with links := l.world.links.set conn (l.within ()) })
        (f (own.within s.room))) :
    Guarantees P (handle s.room conn f) := by
  unfold handle
  cases hown : s.room.links[conn]? with
  | none => rfl
  | some own =>
    dsimp only
    cases hdestroyed : own.conn.destroy_ with
    | true =>
      rw [if_pos rfl]
      refine hgone ?_
      unfold Room.open
      rw [hown, Option.any_some, hdestroyed, Bool.not_true]
    | false =>
      rw [if_neg Bool.false_ne_true]
      obtain ⟨msgs, -, hhears⟩ := h.hears_of_get hown
      have hopen : s.room.open conn = true := by
        unfold Room.open
        rw [hown, Option.any_some, hdestroyed, Bool.not_false]
      exact (hf own hown hdestroyed hopen (hhears.up_of_alive hdestroyed).1).bind fun l hl => hl

theorem Chats.writ_ok (h : Chats s) (conn : Nat) (as : List WriteAnswer) :
    Guarantees (fun room => Chats { s with room := room })
      (handle s.room conn fun l => l.handleWritEvent callbacks as) := by
  refine handle_ok h (fun _ => h) fun own hown halive _ hup => ?_
  have hsurvives : Link.Survives true (Rests s.room own) (Rests s.room own) (own.within s.room) :=
    .inl ⟨hup.within ⟨rfl, rfl⟩, hup.announces⟩
  refine (hsurvives.handleWritEvent_ok keeps_rests fails_rests as).imp_ok fun l hl hout => ?_
  obtain ⟨hworld, hother, hsent⟩ :=
    survives_rests hout (hup.taken.still (Link.stillBy_handleWritEvent hl).conn)
  rw [hworld]
  exact h.set hown halive hother hsent

/-- What was read is taken as a whole. -/
theorem retriveveAllAsString_ok {b : Buffer} (h : b.Usable) (hne : b.contents ≠ []) :
    ∃ b', b.retriveveAllAsString = .ok (b.contents, b') ∧ b'.Usable ∧ b'.contents = [] := by
  obtain ⟨b', hok, hwf, hnil⟩ := h.readable.wf.retriveveAllAsString_ok hne
  have hsize : b.retriveveAllAsString = b.retriveveAsString b.contents.length := by
    unfold Buffer.retriveveAllAsString
    rw [h.readable.wf.size_eq, ok_bind]
  obtain ⟨b'', hok', husable, -⟩ := h.retriveveAsString_ok hne b.contents.length
  have hall := hok
  rw [hsize, hok', Except.ok.injEq, Prod.mk.injEq] at hok
  rw [hok.2] at husable
  exact ⟨b', hall, husable, hnil⟩

/-- The callback tells all the others. -/
theorem Chats.onRead_ok (h : Chats s) (hown : s.room.links[conn]? = some own)
    (halive : own.conn.destroy_ = false) (hup : Up own) {buffer : Buffer} (husable : buffer.Usable)
    (hne : buffer.contents ≠ []) :
    ∃ l, onRead conn { own.within s.room with conn := { own.conn with readBuf_ := buffer } } = .ok l ∧
      Chats {
        room := { l.world with links := l.world.links.set conn (l.within ()) }
        heard := hear conn buffer.contents s.heard } := by
  obtain ⟨readBuf, hread, husable', hnil⟩ := retriveveAllAsString_ok husable hne
  obtain ⟨conns, links, hforward, hchats, hsame⟩ := h.forward_ok conn hne
  refine ⟨_, by unfold onRead; rw [hread, ok_bind]; dsimp only [within]; rw [hforward]; rfl, ?_⟩
  have hkept : Delivered (fun _ _ _ _ => True)
      { own with world := (), conn := { own.conn with readBuf_ := readBuf } } :=
    hup.delivered.withWorld (K := fun _ _ _ _ => True) () readBuf trivial
  exact hchats.set (hsame.trans hown) halive
    (.inl ⟨hkept, hup.announces, husable', hnil, hup.taken.reads⟩) rfl

theorem Chats.read_ok (h : Chats s) (conn : Nat) (a : ReadAnswer) :
    Guarantees (fun room => Chats {
        room := room
        heard := if s.room.open conn && a.bytes ≠ [] then hear conn a.bytes s.heard else s.heard })
      (handle s.room conn fun l => l.handleReadEvent callbacks (onRead conn) a) := by
  refine handle_ok h (fun hgone => ?_) fun own hown halive hopen hup => ?_
  · rw [hgone, Bool.false_and, if_neg Bool.false_ne_true]
    exact h
  · rw [hopen, Bool.true_and]
    have hdelivered : Link.Delivered (Rests s.room own) (own.within s.room) := hup.within ⟨rfl, rfl⟩
    obtain ⟨done, hflow⟩ := id hdelivered
    refine Link.handleReadEvent_ok (l := own.within s.room) hup.taken halive hflow.isOpen.socket
      (fun hnone => ?_) (fun hnone => ?_) fun buffer husable hcontents hne => ?_
    · rw [if_neg (by simp [hnone])]
      exact h.set hown halive (.inl (hdelivered.up hup.announces hup.taken)) rfl
    · obtain ⟨l, hl, hbroken⟩ := hdelivered.handleErroEvent_ok hup.announces fails_rests
      obtain ⟨hworld, hother, hsent⟩ :=
        survives_rests (.inr hbroken) (hup.taken.still (Link.still_handleErroEvent hl).conn)
      rw [hl, if_neg (by simp [hnone])]
      show Chats _
      rw [hworld]
      exact h.set hown halive hother hsent
    · rw [if_pos (by simp [hne]), ← hcontents]
      obtain ⟨l, hl, hchats⟩ := h.onRead_ok hown halive hup husable (by rw [hcontents]; exact hne)
      show Guarantees _ (onRead conn { own.within s.room with conn := { own.conn with readBuf_ := buffer } })
      rw [hl]
      exact hchats

/-- A connection that was just accepted is at the end of the list, and has heard nothing. -/
theorem Chats.accept (h : Chats s) : Chats {
    room := {
      conns := s.room.conns ++ [s.room.links.length]
      links := s.room.links ++ [.start .accepted ()] }
    heard := s.heard ++ [[]] } where
  length := by
    show (s.heard ++ [[]]).length = (s.room.links ++ [_]).length
    rw [List.length_append, List.length_append, h.length]
    rfl
  nodup := by
    refine List.nodup_append.mpr ⟨h.nodup, List.nodup_cons.mpr ⟨List.not_mem_nil, List.nodup_nil⟩, fun it hit it' hit' => ?_⟩
    rw [List.mem_singleton.mp hit']
    exact (h.bound it hit).ne
  bound := fun it hit => by
    show it < (s.room.links ++ [_]).length
    rw [List.length_append, List.length_singleton]
    rcases List.mem_append.mp hit with hit | hit
    · exact Nat.lt_succ_of_lt (h.bound it hit)
    · rw [List.mem_singleton.mp hit]
      exact Nat.lt_succ_self _
  listed := fun it own hown halive => by
    rcases Nat.lt_or_ge it s.room.links.length with hlt | hge
    · rw [List.getElem?_append_left hlt] at hown
      exact List.mem_append_left _ (h.listed it own hown halive)
    · obtain ⟨hlt, -⟩ := List.getElem?_eq_some_iff.mp hown
      rw [List.length_append, List.length_singleton] at hlt
      exact List.mem_append_right _ (List.mem_singleton.mpr (by omega))
  hears := fun it own msgs hown hmsgs => by
    rcases Nat.lt_or_ge it s.room.links.length with hlt | hge
    · rw [List.getElem?_append_left hlt] at hown
      rw [List.getElem?_append_left (by rw [h.length]; exact hlt)] at hmsgs
      exact h.hears it own msgs hown hmsgs
    · obtain ⟨hlt, -⟩ := List.getElem?_eq_some_iff.mp hown
      rw [List.length_append, List.length_singleton] at hlt
      have hit : it = s.room.links.length := by omega
      subst hit
      rw [List.getElem?_append_right le_rfl, Nat.sub_self, List.getElem?_cons_zero] at hown
      rw [List.getElem?_append_right h.length.le, h.length, Nat.sub_self, List.getElem?_cons_zero] at hmsgs
      cases hown
      cases hmsgs
      exact .up (up_start Connection.open_accepted rfl Connection.taken_accepted fun _ => rfl) rfl

theorem Chats.step_ok (h : Chats s) (e : Event) : Guarantees Chats (step s e) := by
  cases e with
  | accept => exact h.accept
  | read conn a => exact (h.read_ok conn a).bind fun _ hroom => hroom
  | writ conn as => exact (h.writ_ok conn as).bind fun _ hroom => hroom

theorem chats_start : Chats start where
  length := rfl
  nodup := List.nodup_nil
  bound := nofun
  listed := fun _ _ hown => by cases hown
  hears := fun _ _ _ hown => by cases hown

theorem stream_said (msgs : List Bytes) : stream (msgs.map said) = msgs.flatten := by
  unfold stream
  rw [List.map_map]
  exact congrArg List.flatten (List.map_id msgs)

/--
**Everybody gets what the others say, in order and once.** After any events, the bytes that went out to a
connection are the start of what was read from the others since it was accepted; while it is not destroyed
the rest waits in its `writTasks_`, and it is in `conns`. No connection is in that list twice, and nothing
faults.
-/
theorem chat_broadcasts (es : List Event) : Guarantees
    (fun s => s.room.conns.Nodup ∧ ∀ (it : Nat) (own : Link Unit Empty) (msgs : List Bytes),
      s.room.links[it]? = some own → s.heard[it]? = some msgs →
      own.wire <+: msgs.flatten ∧ (own.conn.destroy_ = false → it ∈ s.room.conns ∧
        own.wire ++ (own.conn.writTasks_.map IoTask.remaining).flatten = msgs.flatten))
    (run step start es) := by
  have hrun : Guarantees Chats (run step start es) :=
    run_guarantees (C := fun _ => True) (fun _ e h _ => h.step_ok e) chats_start fun _ _ => trivial
  refine hrun.imp_ok fun s _ h => ⟨h.nodup, fun it own msgs hown hmsgs => ?_⟩
  have hhears := h.hears it own msgs hown hmsgs
  obtain ⟨hwire, hrest⟩ := out_of_up_or_down hhears.up_or_down
  constructor
  · cases hhears with
    | up _ hsent =>
      rwa [hsent, stream_said] at hwire
    | down _ hsent =>
      obtain ⟨more, hmore⟩ := hsent
      rw [← stream_said, ← hmore, stream_append]
      exact hwire.trans (List.prefix_append _ _)
  · intro halive
    refine ⟨h.listed it own hown halive, ?_⟩
    rw [hrest halive, (hhears.up_of_alive halive).2, stream_said]

example : (run step start [.accept, .accept, .read 0 (.received [1]), .accept, .read 1 (.received [2, 3]),
      .read 0 .closed, .read 2 (.received [4]), .writ 1 [.accepted 2]]).map (fun s =>
        (s.heard, s.room.conns, s.room.links.map fun l => (l.wire, l.sent.length)))
    = .ok ([[[2, 3], [4]], [[1], [4]], [[2, 3]]], [1, 2], [([], 1), ([1, 4], 2), ([], 1)]) := by decide +kernel

end Liby.Chat
