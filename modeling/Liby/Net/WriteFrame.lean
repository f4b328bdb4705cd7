import Liby.Net.WriteSteps

/-!
# What the write path leaves alone

Calls, handlers and write events do not touch `readBuf_`, and take the read callback away only by
destroying the connection; the user's state changes only by what the handlers do to it.
-/

namespace Liby

open Infra

variable {σ H : Type _} {cb : Callbacks σ H}

/-- Handlers that do not change the user's state. -/
structure Callbacks.Still (cb : Callbacks σ H) : Prop where
  complete : ∀ w handler, (cb.complete w handler).1 = w
  onErro : ∀ w, (cb.onErro w).1 = w

namespace Connection

/-- A connection that is not destroyed has its read callback. -/
def Reads (c : Connection H) : Prop := c.destroy_ = false → c.readEventCallback_ = true

/-- A connection that is destroyed has no channel. -/
def Unlisted (c : Connection H) : Prop := c.destroy_ = true → c.chan_ = none

/-- The same read buffer, a read callback if there was one, and no channel if destroyed. -/
structure Still (c c' : Connection H) : Prop where
  readBuf : c'.readBuf_ = c.readBuf_
  reads : c.Reads → c'.Reads
  unlisted : c.Unlisted → c'.Unlisted

theorem Still.refl (c : Connection H) : Still c c := ⟨rfl, id, id⟩

theorem Still.trans {c c' c'' : Connection H} (h : Still c c') (h' : Still c' c'') : Still c c'' :=
  ⟨h'.readBuf.trans h.readBuf, h'.reads ∘ h.reads, h'.unlisted ∘ h.unlisted⟩

/-- A change of the channel, which must be there. -/
theorem still_channel {c c' : Connection H} {ch : Channel} (hch : c.chan_ = some ch)
    (hbuf : c'.readBuf_ = c.readBuf_) (hread : c'.readEventCallback_ = c.readEventCallback_)
    (hdestroy : c'.destroy_ = c.destroy_) : Still c c' := by
  refine ⟨hbuf, ?_, fun hunlisted hdestroyed => ?_⟩
  · unfold Reads
    rw [hread, hdestroy]
    exact id
  · have hnone := hunlisted (by rw [← hdestroy]; exact hdestroyed)
    rw [hch] at hnone
    cases hnone

theorem still_destroy (c : Connection H) : Still c c.destroy := by
  unfold destroy
  split
  · exact .refl c
  · exact ⟨rfl, fun _ h => (by cases h), fun _ _ => rfl⟩

theorem still_call {c c' : Connection H} {x : ConnCall H} (h : c.call x = .ok c') :
    Still c c' := by
  rcases call_cases h with ⟨ch, t, hch, -, rfl⟩ | ⟨-, ⟨ch, flag, hch, rfl⟩ | rfl | rfl | rfl⟩
  · exact still_channel hch rfl rfl rfl
  · exact still_channel hch rfl rfl rfl
  · exact .refl _
  · exact still_destroy _
  · exact ⟨rfl, id, id⟩

theorem still_popFront {c c' : Connection H} (h : c.popFront = .ok c') : Still c c' := by
  unfold popFront at h
  split at h
  · cases h
  · cases h
    exact ⟨rfl, id, id⟩

theorem reads_accepted : (accepted : Connection H).Reads := fun _ => rfl

theorem unlisted_accepted : (accepted : Connection H).Unlisted := fun h => by cases h

end Connection

namespace Link

/-- The same user's state, and a connection that reads as before. -/
structure Still (l l' : Link σ H) : Prop where
  world : l'.world = l.world
  conn : l.conn.Still l'.conn

theorem Still.refl (l : Link σ H) : Still l l := ⟨rfl, .refl _⟩

theorem Still.trans {l l' l'' : Link σ H} (h : Still l l') (h' : Still l' l'') : Still l l'' :=
  ⟨h'.world.trans h.world, h.conn.trans h'.conn⟩

/-- The same, where the user's state changes only by what the handlers do to it. -/
structure StillBy (cb : Callbacks σ H) (l l' : Link σ H) : Prop where
  world : cb.Still → l'.world = l.world
  conn : l.conn.Still l'.conn

theorem Still.by {l l' : Link σ H} (h : Still l l') (cb : Callbacks σ H) : StillBy cb l l' :=
  ⟨fun _ => h.world, h.conn⟩

theorem StillBy.refl (l : Link σ H) : StillBy cb l l := (Still.refl l).by cb

theorem StillBy.trans {l l' l'' : Link σ H} (h : StillBy cb l l') (h' : StillBy cb l' l'') :
    StillBy cb l l'' :=
  ⟨fun hcb => (h'.world hcb).trans (h.world hcb), h.conn.trans h'.conn⟩

theorem still_call {l l' : Link σ H} {x : ConnCall H} (h : l.call x = .ok l') : Still l l' := by
  obtain ⟨c, hc, h⟩ := bind_eq_ok.mp h
  cases h
  exact ⟨rfl, Connection.still_call hc⟩

theorem still_calls {xs : List (ConnCall H)} {l l' : Link σ H} (h : l.calls xs = .ok l') :
    Still l l' :=
  calls_keep (I := Still l) (fun _ hl1 h1 => hl1.trans (still_call h1)) (.refl l) h

theorem still_complete {l l' : Link σ H} {handler : H}
    (h : l.complete cb handler = .ok l') : StillBy cb l l' := by
  have hcalls := still_calls h
  exact ⟨fun hcb => hcalls.world.trans (hcb.complete _ _), hcalls.conn⟩

theorem still_handleErroEvent {l l' : Link σ H}
    (h : l.handleErroEvent cb = .ok l') : StillBy cb l l' := by
  have hdestroy : ∀ l1 : Link σ H, StillBy cb l1 { l1 with conn := l1.conn.destroy } :=
    fun l1 => ⟨fun _ => rfl, Connection.still_destroy _⟩
  unfold handleErroEvent at h
  dsimp only at h
  split at h
  · obtain ⟨l1, h1, h⟩ := bind_eq_ok.mp h
    cases h
    have hcalls := still_calls h1
    have hstill : StillBy cb l l1 :=
      ⟨fun hcb => hcalls.world.trans (hcb.onErro _), hcalls.conn⟩
    exact hstill.trans (hdestroy l1)
  · cases h
    exact hdestroy l

theorem steady_stillBy (l0 : Link σ H) : Steady cb (StillBy cb l0) where
  complete := fun hl h => hl.trans (still_complete h)
  handleErroEvent := fun hl h => hl.trans (still_handleErroEvent h)
  popFront := fun hl hc => hl.trans ⟨fun _ => rfl, Connection.still_popFront hc⟩
  shorten := fun hl _ _ => hl.trans ⟨fun _ => rfl, rfl, id, id⟩
  accept := fun hl => hl.trans ⟨fun _ => rfl, .refl _⟩

/-- **A write event leaves the reading alone.** -/
theorem stillBy_handleWritEvent {as : List WriteAnswer} {l l' : Link σ H}
    (h : l.handleWritEvent cb as = .ok l') : StillBy cb l l' := by
  refine (steady_stillBy l).handleWritEvent (fun ch hch _ hl => ?_) (.refl l) h
  exact hl.trans ⟨fun _ => rfl, Connection.still_channel hch rfl rfl rfl⟩

/-- It leaves the user's state alone too, if the handlers do. -/
theorem still_handleWritEvent (hcb : cb.Still) {as : List WriteAnswer} {l l' : Link σ H}
    (h : l.handleWritEvent cb as = .ok l') : Still l l' :=
  ⟨(stillBy_handleWritEvent h).world hcb, (stillBy_handleWritEvent h).conn⟩

end Link

end Liby
