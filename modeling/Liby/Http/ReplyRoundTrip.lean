import Liby.Http.HttpClient
import Liby.Infra.Loop
import Liby.Http.ReplyText

/-!
# Replies read back

What `Reply::toString` writes, `ReplyParser` reads back: a reply first, and then any number of them
in the read buffer of a client that has sent as many requests.
-/

namespace Liby.Http

open Infra ReplyParsing
open Reply (headerLines)

/-! ## Header lines -/

/-- The lines of plain headers as the parser sees them. -/
theorem exists_texts : ∀ {headers : Headers}, (∀ header ∈ headers, PlainHeader header) →
    ∃ texts : List HeaderText, headerLines headers = lines texts ∧
      texts.map (fun h => (headerKey h.name, headerValue h.value)) = headers ∧
      ∀ h ∈ texts, h.Filled
  | [], _ => ⟨[], rfl, rfl, by simp⟩
  | header :: headers, h => by
    have hheader := h header List.mem_cons_self
    obtain ⟨texts, hlines, hmap, hfilled⟩ :=
      exists_texts fun header' hmem => h header' (List.mem_cons_of_mem header hmem)
    refine ⟨hheader.text :: texts, ?_, ?_, ?_⟩
    · rw [headerLines_cons, hheader.line_text, lines_cons, hlines]
    · rw [List.map_cons, hmap, hheader.headerKey_text, hheader.headerValue_text]
    · exact List.forall_mem_cons.mpr ⟨hheader.filled_text, hfilled⟩

/-- Entries under names that are new and different are put in one after the other. -/
theorem foldl_set_new : ∀ (entries before : Headers), ((before ++ entries).map Prod.fst).Nodup →
    entries.foldl (fun headers header => headers.set header.1 header.2) before = before ++ entries
  | [], before, _ => (List.append_nil before).symm
  | entry :: entries, before, h => by
    obtain ⟨hnew, hrest⟩ := nodup_step h
    rw [List.foldl_cons, Headers.set_new hnew, foldl_set_new entries _ hrest]
    simp

/-- A plain map with one more plain entry, or another value for one. -/
theorem Headers.Plain.set {headers : Headers} (h : headers.Plain) {key value : Bytes}
    (hentry : PlainHeader (key, value)) : (headers.set key value).Plain where
  names := by
    unfold Headers.set
    rw [List.map_append, List.map_singleton, List.nodup_append]
    refine ⟨h.names.sublist (List.filter_sublist.map _), by simp, ?_⟩
    intro name hname last hlast heq
    obtain ⟨header, hheader, rfl⟩ := List.mem_map.mp hname
    have hne := (List.mem_filter.mp hheader).2
    rw [List.mem_singleton.mp hlast] at heq
    exact absurd heq (by simpa using hne)
  entries := by
    intro header hheader
    unfold Headers.set at hheader
    rcases List.mem_append.mp hheader with hmem | hmem
    · exact h.entries header (List.mem_filter.mp hmem).1
    · rw [List.mem_singleton.mp hmem]
      exact hentry

/-- A plain map in another order. -/
theorem Headers.Plain.of_perm {headers headers' : Headers} (h : headers.Plain)
    (hperm : headers'.Perm headers) : headers'.Plain where
  names := (hperm.map Prod.fst).nodup_iff.mpr h.names
  entries := fun header hheader => h.entries header (hperm.mem_iff.mp hheader)

namespace Reply

/-! ## One reply -/

/-- The headers that are sent, in any order. -/
def sentHeaders (r : Reply) : Headers :=
  r.headers_.set (str "Content-Length") (stdToString r.content_.contents.length)

/-- `HTTP/1.1`, the number and the words of the status. -/
def statusLine (r : Reply) : Bytes :=
  str "HTTP/1.1 " ++ (statusNumber r.status_).getD [] ++ str " " ++
    (statusString r.status_).getD [] ++ str "\r\n"

/-- What `toString` gives. -/
def text (walk : Walk) (r : Reply) : Bytes :=
  r.statusLine ++ headerLines (walk.order r.sentHeaders) ++ str "\r\n" ++ r.content_.contents

/-- A reply with a known status, a content, and headers that are plain text. -/
structure Printable (r : Reply) : Prop where
  status : (statusNumber r.status_).isSome
  wf : r.content_.Wf
  content : r.content_.contents ≠ []
  headers : r.headers_.Plain

variable {r : Reply} {walk : Walk}

theorem Printable.toString_eq (h : r.Printable) : r.toString walk = .ok (r.text walk) := by
  have hfull : r.content_.empty = false := by
    rw [← Bool.not_eq_true, h.wf.empty_iff]
    exact h.content
  unfold toString
  dsimp only
  rw [if_neg (by simp [hfull]), h.wf.data_eq h.content]
  rfl

theorem plain_length (n : Nat) : PlainHeader (str "Content-Length", stdToString n) := by
  have hdigits := isdigit_stdToString n
  have hline : 10 ∉ stdToString n ∧ 13 ∉ stdToString n :=
    ⟨fun hc => absurd (hdigits 10 hc) (by decide), fun hc => absurd (hdigits 13 hc) (by decide)⟩
  exact ⟨contentLength_ne, contentLength_token, stdToString_ne n, hline,
    fun c hc => isspace_of_isdigit (hdigits c (List.mem_of_head? hc))⟩

theorem Printable.walked_plain (h : r.Printable) (walk : Walk) : (walk.order r.sentHeaders).Plain :=
  (h.headers.set (plain_length _)).of_perm (walk.perm _)

/-- The words of a status are on one line. -/
theorem reason_line (status : Int) : 10 ∉ (statusString status).getD [] := by
  cases h : statusString status with
  | none => simp
  | some reason =>
    unfold statusString at h
    exact lookup_all (P := fun entry => 10 ∉ entry.2) (by decide) h

/-- A name among the headers as they are sent, with its value. -/
theorem mem_sentHeaders {value : Bytes} (h : (str "Content-Length", value) ∈ r.sentHeaders) :
    value = stdToString r.content_.contents.length := by
  unfold sentHeaders Headers.set at h
  rcases List.mem_append.mp h with hmem | hmem
  · exact absurd (List.mem_filter.mp hmem).2 (by simp)
  · exact (Prod.mk.inj (List.mem_singleton.mp hmem)).2

/-- **What `toString` gives is a well-formed reply.** -/
theorem Printable.exists_replyText (h : r.Printable) (walk : Walk) :
    ∃ t : ReplyText, t.bytes = r.text walk ∧ t.Filled ∧ t.status = r.status_ ∧
      t.headers_ = walk.order r.sentHeaders ∧ t.body = r.content_.contents := by
  obtain ⟨number, hnumber⟩ := Option.isSome_iff_exists.mp h.status
  obtain ⟨texts, hlines, hmap, hfilled⟩ := exists_texts (h.walked_plain walk).entries
  have hwalked : ∀ {header}, header ∈ walk.order r.sentHeaders ↔ header ∈ r.sentHeaders :=
    (walk.perm _).mem_iff
  refine ⟨{
    status := r.status_
    number := number
    reason := (statusString r.status_).getD []
    headers := texts
    body := r.content_.contents
    status_known := hnumber
    reason_line := reason_line r.status_
    length_header := ?_
    length_value := ?_ }, ?_, hfilled, rfl, ?_, rfl⟩
  · have hmem : (str "Content-Length", stdToString r.content_.contents.length) ∈ r.sentHeaders := by
      simp [sentHeaders, Headers.set]
    rw [← hwalked, ← hmap] at hmem
    obtain ⟨text, htext, heq⟩ := List.mem_map.mp hmem
    refine ⟨text, htext, ?_⟩
    rw [← text.headerKey_name]
    exact (Prod.mk.inj heq).1
  · intro text htext hname
    have hmem : (headerKey text.name, headerValue text.value) ∈ r.sentHeaders := by
      rw [← hwalked, ← hmap]
      exact List.mem_map_of_mem htext
    rw [text.headerKey_name, hname] at hmem
    refine ⟨text.value.takeWhile Cursor.isspace, stdToString r.content_.contents.length, [], ?_,
      fun c hc => List.mem_takeWhile_imp hc, stdToString_ne _, isdigit_stdToString _, by simp,
      digitsValue_stdToString _⟩
    rw [List.append_nil, ← mem_sentHeaders hmem]
    exact List.takeWhile_append_dropWhile.symm
  · have hstart : str "HTTP/1.1 " = str "HTTP/1.1" ++ [32] := by decide
    have hblank : str " " = [32] := by decide
    have hend : str "\r\n" = [13, 10] := by decide
    unfold text statusLine ReplyText.bytes ReplyText.afterVersion ReplyText.ending
    rw [hlines, hnumber, hstart, hblank, hend]
    simp
  · show addHeaders [] texts = walk.order r.sentHeaders
    have hset := foldl_set_new (walk.order r.sentHeaders) [] (h.walked_plain walk).names
    rw [← hmap, List.foldl_map, hmap] at hset
    exact hset

end Reply

/-! ## Replies one after the other -/

/-- What a reply tells: the status, the headers and the content. -/
def ReplyParser.told (p : ReplyParser) : Int × Headers × Bytes :=
  (p.status_, p.headers_, p.content_.contents)

/--
A reply that the parser takes as a whole, whatever comes after it. `bytes_`, which counts its bytes,
is an `int`.
-/
structure WholeReply where
  bytes : Bytes
  told : Int × Headers × Bytes
  nonempty : bytes ≠ []
  small : bytes.length < 2 ^ 31
  whole : ∀ {p : ReplyParser} {d before rest after : Bytes} {first last : Nat}, Cleared p →
    InBlock d first last before (bytes ++ rest) after →
    ∃ g, p.parse d first last = .ok g ∧ g.parser.progress_ = .Good ∧
      g.parser.bytes_ = bytes.length ∧ g.parser.content_.Wf ∧ g.parser.told = told

/-- **A well-formed reply is taken as a whole.** -/
def ReplyText.toWhole (t : ReplyText) (hfilled : t.Filled) (hlen : t.bytes.length < 2 ^ 31) :
    WholeReply where
  bytes := t.bytes
  told := (t.status, t.headers_, t.body)
  nonempty := by simp [ReplyText.bytes]
  small := hlen
  whole := fun hp h => by
    obtain ⟨g, hg, hwhole⟩ := parse_complete hp h hfilled hlen
    refine ⟨g, hg, hwhole.progress, hwhole.bytes, hwhole.wf, ?_⟩
    unfold ReplyParser.told
    rw [hwhole.status, hwhole.headers, hwhole.content]

/-- **What a pass does with a buffer that starts with a whole reply.** -/
theorem WholeReply.read (r : WholeReply) {p : ReplyParser} {b : Buffer} {rest : Bytes}
    (hparser : Cleared p) (hwf : b.Wf) (hcontents : b.contents = r.bytes ++ rest) :
    ∃ (block : Bytes) (left right : Nat) (g : ReplyParsing) (b' : Buffer),
      b.empty = false ∧ b.range = .ok (block, left, right) ∧ p.parse block left right = .ok g ∧
      subInt g.parser.bytes_ p.bytes_ = .ok (r.bytes.length : Int) ∧
      b.retrieve r.bytes.length = .ok b' ∧ b'.Wf ∧ b'.contents = rest ∧
      g.parser.isGood = true ∧ g.parser.isError = false ∧ g.parser.content_.Wf ∧
      g.parser.told = r.told := by
  have hne : b.contents ≠ [] := by
    rw [hcontents]
    exact List.append_ne_nil_of_left_ne_nil r.nonempty rest
  have hfull : b.empty = false := by
    rw [← Bool.not_eq_true, hwf.empty_iff]
    exact hne
  obtain ⟨block, hrange, hlt, hright, hwindow⟩ := hwf.range_eq hne
  have hblock := InBlock.of_window (le_of_lt hlt) hright
  rw [hwindow, hcontents] at hblock
  obtain ⟨g, hg, hprogress, hbytes, hcontent, htold⟩ := r.whole hparser hblock
  obtain ⟨b', hretrieve, hwf', hrest, -⟩ := hwf.retrieve_ok r.bytes.length
  have hsmall := r.small
  have hcount : subInt g.parser.bytes_ p.bytes_ = .ok (r.bytes.length : Int) := by
    have hzero : p.bytes_ = 0 := hparser.bytes
    have hdiff : g.parser.bytes_ - p.bytes_ = r.bytes.length := by
      rw [hbytes, hzero, Int.sub_zero]
    rw [subInt_ok (by omega) (by omega), hdiff]
  refine ⟨block, _, _, g, b', hfull, hrange, hg, hcount, hretrieve, hwf',
    by rw [hrest, hcontents, List.drop_left], ?_, ?_, hcontent, htold⟩
  · unfold ReplyParser.isGood
    rw [hprogress]
    rfl
  · unfold ReplyParser.isError
    rw [hprogress]

/--
What a reply should tell when it has arrived: the status, the content, and the headers with the
`Content-Length`, in whatever order they were written.
-/
structure Reply.Tells (r : Reply) (told : Int × Headers × Bytes) : Prop where
  status : told.1 = r.status_
  headers : told.2.1.Perm r.sentHeaders
  content : told.2.2 = r.content_.contents

/-- What `toString` gives is taken as a whole. -/
theorem Reply.Printable.exists_whole {r : Reply} {walk : Walk} (h : r.Printable)
    (hlen : (r.text walk).length < 2 ^ 31) : ∃ w : WholeReply, w.bytes = r.text walk ∧ r.Tells w.told := by
  obtain ⟨t, htext, hfilled, hstatus, hheaders, hbody⟩ := h.exists_replyText walk
  refine ⟨t.toWhole hfilled (by rw [htext]; exact hlen), htext, hstatus, ?_, hbody⟩
  show t.headers_.Perm r.sentHeaders
  rw [hheaders]
  exact walk.perm _

namespace ReadingClient

/-- A handler that records the replies it is given. -/
def record : Handle (List ReplyParser) Unit := fun world _ p =>
  .ok { world := world ++ [p], content_ := p.content_, calls := [] }

variable {s : ReadingClient (List ReplyParser) Unit}

/-- A pass over a buffer that starts with a reply. -/
theorem pass_reply {r : Reply} {walk : Walk} (hr : r.Printable) {rest : Bytes} {later : List (Option Unit)}
    (hparser : Cleared s.client.parser_) (hsent : s.client.sendReqeustLists_ = some () :: later)
    (hwf : s.readBuf.Wf) (hcontents : s.readBuf.contents = r.text walk ++ rest)
    (hlen : (r.text walk).length < 2 ^ 31) :
    ∃ s' told, r.Tells told ∧ handleReadEventPass record s = .ok (.next s') ∧ Cleared s'.client.parser_ ∧
      s'.client.sendReqeustLists_ = later ∧ s'.readBuf.Wf ∧ s'.readBuf.contents = rest ∧
      s'.world.map ReplyParser.told = s.world.map ReplyParser.told ++ [told] := by
  obtain ⟨w, hbytes, hw⟩ := hr.exists_whole hlen
  rw [← hbytes] at hcontents
  obtain ⟨block, left, right, g, readBuf, hfull, hrange, hg, hcount, hretrieve, hwf', hrest, hgood,
    herror, hcontent, htold⟩ := w.read hparser hwf hcontents
  have hreply : reply record { s.client with parser_ := g.parser } s.world = .ok
      ({ s.client with parser_ := g.parser.clear, sendReqeustLists_ := later },
        s.world ++ [g.parser]) := by
    unfold reply
    dsimp only
    rw [hsent]
    rfl
  refine ⟨{
    client := { s.client with parser_ := g.parser.clear, sendReqeustLists_ := later }
    readBuf := readBuf
    world := s.world ++ [g.parser] }, w.told, hw, ?_, cleared_clear hcontent, rfl, hwf', hrest, ?_⟩
  · unfold handleReadEventPass
    rw [if_neg (by simp [hfull]), hrange, ok_bind]
    dsimp only
    rw [hg, ok_bind, hcount, ok_bind, hretrieve, ok_bind, herror, hgood]
    rw [if_neg Bool.false_ne_true, if_pos rfl, hreply]
    rfl
  · rw [List.map_append, List.map_singleton, htold]

/-- The loop over the texts of replies, each with the order in which its map is walked. -/
theorem passes_replies : ∀ (replies : List (Reply × Walk)), (∀ r ∈ replies, r.1.Printable) →
    ∀ {s : ReadingClient (List ReplyParser) Unit} {later : List (Option Unit)},
    Cleared s.client.parser_ →
    s.client.sendReqeustLists_ = replies.map (fun _ => some ()) ++ later → s.readBuf.Wf →
    s.readBuf.contents = (replies.map fun r => r.1.text r.2).flatten → s.readBuf.contents.length < 2 ^ 31 →
    ∃ s' told, Loop.passes (handleReadEventPass record) (replies.length + 1) s = some (.ok s') ∧
      s'.world.map ReplyParser.told = s.world.map ReplyParser.told ++ told ∧
      List.Forall₂ (fun r t => r.1.Tells t) replies told ∧
      s'.readBuf.empty = true ∧ Cleared s'.client.parser_ ∧ s'.client.sendReqeustLists_ = later
  | [], _, s, later, hparser, hsent, hwf, hcontents, _ => by
    have hempty : s.readBuf.empty = true := hwf.empty_iff.mpr hcontents
    refine ⟨s, [], ?_, (List.append_nil _).symm, .nil, hempty, hparser, hsent⟩
    rw [Loop.passes, handleReadEventPass, if_pos hempty]
  | r :: replies, h, s, later, hparser, hsent, hwf, hcontents, hlen => by
    rw [List.map_cons, List.flatten_cons] at hcontents
    have hsplit := congrArg List.length hcontents
    rw [List.length_append] at hsplit
    obtain ⟨s1, told1, htells, hpass, hparser1, hsent1, hwf1, hrest, hworld1⟩ :=
      pass_reply (h r List.mem_cons_self) hparser hsent hwf hcontents (by omega)
    obtain ⟨s', told, hs', hworld, hall, hempty, hparser', hsent'⟩ := passes_replies replies
      (fun r' hr' => h r' (List.mem_cons_of_mem r hr')) hparser1 hsent1 hwf1 hrest
      (by rw [hrest]; omega)
    refine ⟨s', told1 :: told, ?_, by rw [hworld, hworld1]; simp, .cons htells hall, hempty, hparser', hsent'⟩
    rw [List.length_cons, Loop.passes, hpass]
    exact hs'

theorem mapM_toString : ∀ {replies : List (Reply × Walk)}, (∀ r ∈ replies, r.1.Printable) →
    replies.mapM (fun r => r.1.toString r.2) = .ok (replies.map fun r => r.1.text r.2)
  | [], _ => rfl
  | r :: replies, h => by
    rw [List.mapM_cons, (h r List.mem_cons_self).toString_eq, ok_bind,
      mapM_toString fun r' hr' => h r' (List.mem_cons_of_mem r hr')]
    rfl

/--
**Replies that were written one after the other are handed over in order**, whatever order their maps
are walked in: a client that has a cleared parser and a request for each hands over the same statuses
and contents, and the same headers with the `Content-Length`. The buffer is empty then, and the parser
cleared.
-/
theorem replies_round_trip {replies : List (Reply × Walk)} (h : ∀ r ∈ replies, r.1.Printable) :
    ∃ texts, replies.mapM (fun r => r.1.toString r.2) = .ok texts ∧
      ∀ (s : ReadingClient (List ReplyParser) Unit) (later : List (Option Unit)),
        Cleared s.client.parser_ →
        s.client.sendReqeustLists_ = replies.map (fun _ => some ()) ++ later →
        s.readBuf.Wf → s.readBuf.contents = texts.flatten → texts.flatten.length < 2 ^ 31 →
        s.world = [] →
        ∃ s', Loop.passes (handleReadEventPass record) (replies.length + 1) s = some (.ok s') ∧
          List.Forall₂ (fun r t => r.1.Tells t) replies (s'.world.map ReplyParser.told) ∧
          s'.readBuf.empty = true ∧ Cleared s'.client.parser_ ∧
          s'.client.sendReqeustLists_ = later := by
  refine ⟨_, mapM_toString h, fun s later hparser hsent hwf hcontents hlen hworld => ?_⟩
  obtain ⟨s', told, hs', htold, hall, hempty, hparser', hsent'⟩ :=
    passes_replies replies h hparser hsent hwf hcontents (by rw [hcontents]; exact hlen)
  refine ⟨s', hs', ?_, hempty, hparser', hsent'⟩
  rw [htold, hworld]
  exact hall

/-- A page whose text looks like a header, and an error with a length that is overwritten. -/
def twoReplies : List (Reply × Walk) :=
  [({ status_ := 200, content_ := Buffer.ofBytes (str "a: b\r\n\r\n"),
      headers_ := [(str "Content-Type", str "text/plain")] }, .listed),
   ({ status_ := 404, content_ := Buffer.ofBytes (str "x"),
      headers_ := [(str "Content-Length", str "7"), (str "Server", str "liby")] }, .backwards)]

theorem replies_round_trip_two :
    ∃ s', Loop.passes (handleReadEventPass record) 3 {
        client := {
          parser_ := .init 0, requestLists_ := [], sendReqeustLists_ := [some (), some ()]
          httpClient_ := true, httpConn_ := true }
        readBuf := Buffer.ofBytes (str "HTTP/1.1 200 Ok\r\nContent-Type: text/plain\r\nContent-Length: 8\r\n\r\na: b\r\n\r\nHTTP/1.1 404 Not Found\r\nContent-Length: 1\r\nServer: liby\r\n\r\nx")
        world := [] } = some (.ok s') ∧
      List.Forall₂ (fun r t => r.1.Tells t) twoReplies (s'.world.map ReplyParser.told) ∧
      s'.readBuf.empty = true ∧ Cleared s'.client.parser_ ∧ s'.client.sendReqeustLists_ = [] := by
  have hplain : ∀ r ∈ twoReplies, r.1.Printable := by
    intro r hr
    have hheaders : ∀ {headers : Headers}, (headers.map Prod.fst).Nodup →
        (∀ header ∈ headers, PlainHeader header) → Headers.Plain headers := fun h h' => ⟨h, h'⟩
    rcases List.mem_cons.mp hr with rfl | hr
    · refine ⟨by decide, Buffer.wf_ofBytes _, by decide, hheaders (by decide) ?_⟩
      refine List.forall_mem_singleton.mpr ?_
      exact ⟨by decide, by decide +kernel, by decide, by decide, by decide +kernel⟩
    · rw [List.mem_singleton.mp hr]
      refine ⟨by decide, Buffer.wf_ofBytes _, by decide, hheaders (by decide +kernel) ?_⟩
      refine List.forall_mem_cons.mpr ⟨?_, List.forall_mem_singleton.mpr ?_⟩
      · exact ⟨by decide, by decide +kernel, by decide, by decide, by decide +kernel⟩
      · exact ⟨by decide, by decide +kernel, by decide, by decide, by decide +kernel⟩
  obtain ⟨texts, htexts, hloop⟩ := replies_round_trip hplain
  have htexts' := (mapM_toString hplain).symm.trans htexts
  cases htexts'
  exact hloop _ [] (cleared_init 0) rfl (Buffer.wf_ofBytes _) (by decide +kernel) (by decide +kernel)
    rfl

end ReadingClient

end Liby.Http
