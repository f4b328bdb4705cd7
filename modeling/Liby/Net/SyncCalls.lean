import Liby.Net.WriteFailure

/-!
# Synchronous sends

`Connection::sync_send` writes to the socket itself, past `writTasks_`: it waits for the kernel, and stops at
an error. What waits in `writTasks_` is overtaken.
-/

namespace Liby

open Infra Outbox

variable {σ H : Type} {cb : Callbacks σ H} {l : Link σ H}

/-- The loop of `sync_send`, with the answers of `write`: what was written, and what is left. -/
def syncLoop (buffer : Buffer) : List WriteAnswer → Exec (Bytes × Buffer)
  | [] => if buffer.empty then .ok ([], buffer) else .error .environment
  | a :: as =>
    if buffer.empty then .ok ([], buffer)
    else do
      let base ← buffer.data
      match a with
      | .accepted n => do
        guardOr .environment (0 < n ∧ n ≤ base.length)
        let buffer ← buffer.retrieve n
        let (written, buffer) ← syncLoop buffer as
        return (base.take n ++ written, buffer)
      | .again | .failed => return ([], buffer)

/-- `sync_send`, with the record: what it has written is what was sent. -/
def Link.syncSend (l : Link σ H) (buffer : Buffer) (as : List WriteAnswer) : Exec (Link σ H × Buffer) := do
  guardOr .nullDeref l.conn.socket_
  let (written, buffer) ← syncLoop buffer as
  return ({ l with
    wire := l.wire ++ written
    sent := l.sent ++ [{ payload := written, tag := none }] }, buffer)

/--
**`sync_send` writes the start of its buffer and leaves the rest.** It leaves something only behind an
answer that is no success.
-/
theorem syncLoop_ok : ∀ (as : List WriteAnswer) {buffer : Buffer}, buffer.Wf →
    Guarantees (fun x => x.2.Wf ∧ x.1 ++ x.2.contents = buffer.contents ∧
      (x.2.contents = [] ∨ .again ∈ as ∨ .failed ∈ as)) (syncLoop buffer as)
  | [], buffer, hwf => by
    unfold syncLoop
    split
    · next hempty => exact ⟨hwf, List.nil_append _, .inl (hwf.empty_iff.mp hempty)⟩
    · rfl
  | a :: as, buffer, hwf => by
    unfold syncLoop
    split
    · next hempty => exact ⟨hwf, List.nil_append _, .inl (hwf.empty_iff.mp hempty)⟩
    · next hfull =>
      have hne : buffer.contents ≠ [] := fun hnil => hfull (hwf.empty_iff.mpr hnil)
      rw [hwf.data_eq hne, ok_bind]
      cases a with
      | again => exact ⟨hwf, List.nil_append _, .inr (.inl List.mem_cons_self)⟩
      | failed => exact ⟨hwf, List.nil_append _, .inr (.inr List.mem_cons_self)⟩
      | accepted n =>
        refine Guarantees.guard fun _ => ?_
        obtain ⟨rest, hrest, hwf', hcontents, -⟩ := hwf.retrieve_ok n
        rw [hrest, ok_bind]
        refine (syncLoop_ok as hwf').bind fun ⟨written, left⟩ ⟨hleft, hbytes, hor⟩ => ⟨hleft, ?_, ?_⟩
        · rw [List.append_assoc, hbytes, hcontents, List.take_append_drop]
        · exact hor.imp_right fun hmem => hmem.imp (List.mem_cons_of_mem _) (List.mem_cons_of_mem _)

/-- A byte that is not the first of some others. -/
theorem exists_not_first {rest : Bytes} (h : rest ≠ []) : ∃ c : UInt8, ¬[c] <+: rest := by
  obtain ⟨d, ds, rfl⟩ := List.exists_cons_of_ne_nil h
  by_cases hd : d = 0
  · refine ⟨1, fun hstart => ?_⟩
    have hone : (1 : UInt8) = d := (List.cons_prefix_cons.mp hstart).1
    rw [hd] at hone
    cases hone
  · exact ⟨0, fun hstart => hd (List.cons_prefix_cons.mp hstart).1.symm⟩

/-- A buffer of one byte that the kernel takes. -/
theorem syncLoop_byte (c : UInt8) :
    ∃ left, syncLoop (.ofBytes [c]) [.accepted 1] = .ok ([c], left) := ⟨_, rfl⟩

namespace Link

/-- What is on the wire, and what waits, of an open connection. -/
theorem syncSend_wire (hstream : l.wire ++ (l.conn.writTasks_.map IoTask.remaining).flatten = stream l.sent)
    {buffer : Buffer} {as : List WriteAnswer} {x : Link σ H × Buffer} (hx : l.syncSend buffer as = .ok x) :
    ∃ written, syncLoop buffer as = .ok (written, x.2) ∧ x.1.wire = l.wire ++ written ∧
      stream x.1.sent = l.wire ++ (l.conn.writTasks_.map IoTask.remaining).flatten ++ written := by
  obtain ⟨-, -, hx⟩ := bind_eq_ok.mp hx
  obtain ⟨⟨written, left⟩, hloop, hx⟩ := bind_eq_ok.mp hx
  cases hx
  refine ⟨written, hloop, rfl, ?_⟩
  show stream (l.sent ++ [{ payload := written, tag := none }]) = _
  rw [stream_append, ← hstream]
  simp

/--
**`sync_send` loses nothing, and keeps the order exactly if nothing waits.** In a state that calls and write events
have led to and in which the connection is not destroyed: what `sync_send` puts on the wire and what it
leaves is what it was given, and it leaves nothing unless the kernel refuses. Whatever it is given and
whatever the kernel answers, the wire has the start of what was sent, in the order of the calls, if and
only if `writTasks_` holds no bytes.
-/
theorem syncSend_in_order_iff (hcb : cb.HandlersSend) (hends : ∀ w, ConnCall.EndsOpen (cb.onErro w).2)
    {conn : Connection H} {world : σ} (hopen : conn.Open) (hempty : conn.writTasks_ = [])
    {es : List (Event H)} (hes : Along (step cb) Uses (start conn world) es)
    (hrun : run (step cb) (start conn world) es = .ok l) (halive : l.conn.destroy_ = false) :
    (∀ buffer as, buffer.Wf → Guarantees (fun x => ∃ written, x.1.wire = l.wire ++ written ∧
        written ++ x.2.contents = buffer.contents ∧
        (x.2.contents = [] ∨ .again ∈ as ∨ .failed ∈ as)) (l.syncSend buffer as)) ∧
      ((∀ buffer as x, buffer.Wf → l.syncSend buffer as = .ok x → x.1.wire <+: stream x.1.sent) ↔
        (l.conn.writTasks_.map IoTask.remaining).flatten = []) := by
  have hsurvives := (run_survives hcb hends world hopen hempty hes).of_ok hrun
  have hstream := hsurvives.result.2.2 halive
  have hsocket : l.conn.socket_ = true := by
    rcases hsurvives with ⟨⟨done, hflow⟩, -⟩ | hbroken
    · exact hflow.isOpen.socket
    · rw [hbroken.destroyed] at halive
      cases halive
  refine ⟨fun buffer as hwf => ?_, ?_, ?_⟩
  · unfold syncSend
    rw [guardOr_pos hsocket, ok_bind]
    exact (syncLoop_ok as hwf).bind fun ⟨written, left⟩ ⟨_, hbytes, hor⟩ => ⟨written, rfl, hbytes, hor⟩
  · intro hall
    by_contra hne
    -- a byte that is sent past those that wait, and is not the first of them
    obtain ⟨c, hc⟩ := exists_not_first hne
    obtain ⟨left, hloop⟩ := syncLoop_byte c
    have hsync : ∃ x, l.syncSend (.ofBytes [c]) [.accepted 1] = .ok x := by
      unfold syncSend
      rw [guardOr_pos hsocket, ok_bind, hloop]
      exact ⟨_, rfl⟩
    obtain ⟨x, hx⟩ := hsync
    have hstart := hall _ _ x (Buffer.wf_ofBytes [c]) hx
    obtain ⟨written, hwritten, hwire, hsent⟩ := syncSend_wire hstream hx
    rw [hloop] at hwritten
    cases hwritten
    rw [hwire, hsent, List.append_assoc, List.prefix_append_right_inj] at hstart
    exact hc (List.prefix_of_prefix_length_le hstart (List.prefix_append _ _)
      (List.length_pos_iff.mpr hne))
  · intro hnone buffer as x _ hx
    obtain ⟨written, -, hwire, hsent⟩ := syncSend_wire hstream hx
    have hall : x.1.wire = stream x.1.sent := by rw [hwire, hsent, hnone, List.append_nil]
    exact hall ▸ List.prefix_rfl

/-- A byte that is sent past two that wait. -/
theorem syncSend_overtakes :
    ∃ l, run (step sendsLast) (start .accepted ()) [.call (.sendString (str "ab") none)] = .ok l ∧
      ¬∀ buffer as x, buffer.Wf → l.syncSend buffer as = .ok x → x.1.wire <+: stream x.1.sent := by
  have hends : ∀ w, ConnCall.EndsOpen (sendsLast.onErro w).2 := by
    refine fun _ => ⟨[.send (str "x") (some false)], [.destroy], rfl, ?_, ?_⟩
    · exact List.forall_mem_singleton.mpr (show str "x" ≠ [] by decide)
    · exact List.forall_mem_singleton.mpr rfl
  have hes : Along (step sendsLast) Uses (start .accepted ()) [.call (.sendString (str "ab") none)] :=
    ⟨⟨rfl, show str "ab" ≠ [] by decide⟩, fun _ _ => trivial⟩
  have hsends : sendsLast.HandlersSend := fun _ _ _ hx => absurd hx List.not_mem_nil
  refine ⟨_, rfl, fun hall => ?_⟩
  have hnone := (syncSend_in_order_iff hsends hends Connection.open_accepted rfl hes rfl rfl).2.mp hall
  exact absurd hnone (by decide)

end Link

end Liby
