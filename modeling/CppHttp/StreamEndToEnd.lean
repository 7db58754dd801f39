/-
A streaming response from the server's producer to the client's consumer.

`StreamWriter` is the sending half: a producer, a channel, and the loop of
`response::async_write` (`server/response.hpp`). `ReadChunked` and `ChunkedSse` are the two
receiving halves: Beast's parser, the callbacks of `client/response.hpp`, a channel, and a
consumer. Between them are the bytes behind the header, which the network cuts as it likes
and behind which the next response may follow (`Arrives`).

Each half can lose chunks without an error: the writer leaves its loop at a closed channel
that is not drained, and a callback drops what a full channel refuses. `delivered_of_reads`
says that nothing else is lost, and that neither loss can make up for the other: the
consumer's channel gets what the producer's channel took if and only if no test of the writer
found the channel closed with a chunk in it, and no callback found its channel full. It holds
of every reader that makes one message of each chunk (`Reads`). Both readers of the client
are such readers, `read_chunked_sse` for events that are sent with a blank line behind them.
-/
import CppHttp.ChunkGrammar
import CppHttp.ChunkedService
import CppHttp.Fragmentation
import CppHttp.SseRoundTrip

set_option autoImplicit false

namespace CppHttp.StreamEndToEnd

open CppHttp.BodyFraming CppHttp.Channel CppHttp.ChunkGrammar CppHttp.ChunkReader
  CppHttp.ChunkedService CppHttp.ChunkedSse CppHttp.Fragmentation CppHttp.Message
  CppHttp.ReadChunked CppHttp.Runs CppHttp.SseLines CppHttp.SseParse CppHttp.SseRoundTrip
  CppHttp.StdString
open CppHttp.StreamWriter (stream write_outcome written chunk_bodies payload payload_eq
  payload_eq_nil_iff body_of body_of_eq_intended drained_iff inv_of_run inv_start writer_pc
  chunk_bodies_append Drained)

/-! ## The wire -/

/-- The client's parser finds these chunks in front of `rest`. How the network cuts their
bodies is open: only extensions and bodies are looked at. -/
def Arrives (wire : std_string) (chunks : List wire_chunk) (rest : std_string) : Prop :=
  read_chunks wire.length wire = some (chunks.map content, rest)

/-- What the recipient of a written chunk can see of it. -/
def on_wire (b : chunk_body) : std_string × std_string := (b.extensions, b.buffer)

section Wire

variable {cap : ℕ} {acts : List StreamWriter.action} {s : stream}

/-- At the writer's end the accepted chunks are the written ones and those left behind. -/
theorem chunk_bodies_accepted (hrun : run StreamWriter.step (.start cap) acts = some s)
    (hdone : s.pc = .done) :
    chunk_bodies s.accepted = written s.writes ++ chunk_bodies s.rx.buffer := by
  have hchunks := (inv_of_run (inv_start cap) hrun).2.chunks
  rw [hdone] at hchunks
  simpa [writer_pc.in_hand, chunk_bodies] using hchunks

/-- The bytes behind the header of a response that was written to its end. -/
theorem body_of_done (hrun : run StreamWriter.step (.start cap) acts = some s)
    (hdone : s.pc = .done) (hwrites : ∀ w ∈ s.writes, w.2 = .written) :
    body_of s.writes
      = ((written s.writes).map on_wire).flatMap (fun c => chunk c.1 c.2)
        ++ BodyFraming.last_chunk := by
  have hwire := (inv_of_run (inv_start cap) hrun).2.wire
  rw [hdone] at hwire
  rw [body_of_eq_intended hwrites, hwire, List.flatMap_map]
  rfl

/-- The client finds exactly the chunks that were written, and what follows them. -/
theorem arrives_iff (hrun : run StreamWriter.step (.start cap) acts = some s)
    (hdone : s.pc = .done) (hwrites : ∀ w ∈ s.writes, w.2 = .written)
    (hext : ∀ c ∈ s.accepted, Framable c) (chunks : List wire_chunk) (rest : std_string) :
    Arrives (body_of s.writes ++ rest) chunks rest
      ↔ chunks.map content = (written s.writes).map on_wire := by
  have hpairs : ∀ c ∈ (written s.writes).map on_wire, IsExtension c.1 ∧ c.2 ≠ [] := by
    intro c hc
    obtain ⟨b, hb, rfl⟩ := List.mem_map.mp hc
    apply mem_chunk_bodies hext
    rw [chunk_bodies_accepted hrun hdone]
    exact List.mem_append_left _ hb
  unfold Arrives
  rw [body_of_done hrun hdone hwrites, read_written_chunks hpairs, Option.some.injEq,
    Prod.mk.injEq]
  constructor
  · rintro ⟨h, -⟩
    exact h.symm
  · intro h
    exact ⟨h.symm, rfl⟩

end Wire

/-! ## A reader that makes one message of each chunk -/

section Delivery

variable {L M : Type*}

/-- Read without loss the chunks give one message each, and that many messages are offered
to the channel in every run, with or without loss. -/
structure Reads (cr : chunk_reader L M) (acc : L) (messages : List M)
    (chunks : List wire_chunk) : Prop where
  lossless : lossless cr acc (callbacks_of chunks) = messages
  offered : ∀ cap acts r, run (step cr) (.start acc cap (callbacks_of chunks)) acts = some r →
    r.todo = [] → r.offered.length = messages.length

variable {cr : chunk_reader L M} {acc : L} {cap cap' : ℕ} {acts : List StreamWriter.action}
  {acts' : List action} {s : stream} {chunks : List wire_chunk} {r : reader L M}

/-- **End to end**: for every way the writer, its producer, the client's parser and its
consumer take turns, the messages in the client's channel are those of the chunks that the
server's channel took if and only if neither side loses one. -/
theorem delivered_of_reads (msg : chunk_body → M)
    (hrun : run StreamWriter.step (.start cap) acts = some s) (hdone : s.pc = .done)
    (hreads : Reads cr acc ((written s.writes).map msg) chunks)
    (hclient : run (step cr) (.start acc cap' (callbacks_of chunks)) acts' = some r)
    (htodo : r.todo = []) :
    r.puts = (chunk_bodies s.accepted).map msg
      ↔ StepsMeet StreamWriter.step Drained (.start cap) acts
        ∧ StepsMeet (step cr) (Room cr) (.start acc cap' (callbacks_of chunks)) acts' := by
  have hoffered := hreads.offered _ _ _ hclient htodo
  rw [List.length_map] at hoffered
  rw [chunk_bodies_accepted hrun hdone, List.map_append, ← drained_iff hrun hdone]
  have hpayload : payload s.rx.buffer = [] ↔ chunk_bodies s.rx.buffer = [] := by
    rw [payload_eq_nil_iff]
    simp [chunk_bodies, List.filter_eq_nil_iff]
  rw [hpayload]
  constructor
  · intro h
    -- the channel never holds more messages than chunks were written
    have hsub : r.puts.Sublist r.offered := puts_sublist_offered (List.Sublist.refl _) hclient
    have hlen := congrArg List.length h
    rw [List.length_append, List.length_map, List.length_map] at hlen
    have hle := hsub.length_le
    refine ⟨List.eq_nil_of_length_eq_zero (by omega), ?_⟩
    rw [← puts_eq_offered_iff hclient]
    exact hsub.eq_of_length (by omega)
  · -- with room for all of them the puts are the lossless reading
    rintro ⟨hbuffer, hroom⟩
    have hputs := puts_of_room hroom hclient
    rw [htodo, ChunkReader.lossless, List.append_nil] at hputs
    rw [hputs, hbuffer, List.map_nil, List.append_nil]
    exact hreads.lossless

end Delivery

/-! ## Chunks, with `read_chunked_encoding` -/

/-- The message the client makes of a chunk that the server has sent: without an extension
it comes with an empty one. -/
def received (c : http_chunk) : http_chunk :=
  { c with extensions := some (c.extensions.getD []) }

/-- The message of a chunk as it was written. -/
def message_on_wire (b : chunk_body) : http_chunk :=
  { chunked_body := b.buffer, extensions := some b.extensions }

theorem received_eq (c : http_chunk) : message_on_wire c.to_chunk_body = received c := by
  obtain ⟨body, ext⟩ := c
  cases ext with
  | none => rfl
  | some ext => rfl

theorem map_received (chunks : List http_chunk) :
    (chunk_bodies chunks).map message_on_wire
      = (chunks.filter http_chunk.valid).map received := by
  rw [chunk_bodies, List.map_map]
  apply List.map_congr_left
  intro c _
  exact received_eq c

/-- `read_chunked_encoding` makes one message of each chunk. -/
theorem reads_chunks {chunks : List wire_chunk} {bodies : List chunk_body}
    (h : chunks.map content = bodies.map on_wire) :
    Reads read_chunked_encoding {} (bodies.map message_on_wire) chunks := by
  -- without loss every chunk is a message, with the extensions and the body it came with
  have hlossless : lossless read_chunked_encoding {} (callbacks_of chunks)
      = bodies.map message_on_wire := by
    have hchunks := congrArg
      (List.map fun p : std_string × std_string =>
        ({ chunked_body := p.2, extensions := some p.1 } : http_chunk)) h
    rw [List.map_map, List.map_map] at hchunks
    rw [lossless_eq {} rfl]
    exact hchunks
  refine ⟨hlossless, ?_⟩
  intro cap acts r hrun htodo
  have hlength := offered_length hrun
  rw [htodo, List.countP_nil, Nat.add_zero, ← lossless_length {}, hlossless] at hlength
  exact hlength

/-- **Chunks end to end.** The extension texts of the chunks are chunk extensions. For every
run of the server's side that has written the response to its end, all writes with success,
whatever follows on the connection and however the network cuts it, and for every run of the
client's side to the end of the response: the client's channel has got the non-empty chunks
that the server's channel took, in order, each once and as it was but for an absent extension,
which comes as an empty one (`received`), if and only if no `is_open()` test that found the
server's channel closed found a chunk in it, and no chunk ended while the client's channel was
full. -/
theorem chunks_delivered_iff {cap cap' : ℕ} {acts : List StreamWriter.action}
    {acts' : List action} {s : stream} {chunks : List wire_chunk} {rest : std_string}
    {r : reader http_chunk http_chunk}
    (hrun : run StreamWriter.step (.start cap) acts = some s) (hdone : s.pc = .done)
    (hwrites : ∀ w ∈ s.writes, w.2 = .written) (hext : ∀ c ∈ s.accepted, Framable c)
    (hwire : Arrives (body_of s.writes ++ rest) chunks rest)
    (hclient : run (step read_chunked_encoding) (.start {} cap' (callbacks_of chunks)) acts'
      = some r) (htodo : r.todo = []) :
    r.puts = (s.accepted.filter http_chunk.valid).map received
      ↔ StepsMeet StreamWriter.step Drained (.start cap) acts
        ∧ StepsMeet (step read_chunked_encoding) (Room read_chunked_encoding)
            (.start {} cap' (callbacks_of chunks)) acts' := by
  have hchunks := (arrives_iff hrun hdone hwrites hext chunks rest).mp hwire
  rw [← map_received]
  exact delivered_of_reads message_on_wire hrun hdone (reads_chunks hchunks) hclient htodo

/-- One chunk, sent by a producer that closes when the writer has it. -/
def one_chunk_sent (c : http_chunk) : List StreamWriter.action :=
  [.writer .written, .writer .written, .writer .written, .send c, .close, .writer .written,
    .writer .written, .writer .written]

/-- A chunk without an extension, which arrives in two pieces, with room for it. -/
theorem chunks_delivered_iff_one_chunk :
    ∃ (s : stream) (r : reader http_chunk http_chunk),
      run StreamWriter.step (.start 10) (one_chunk_sent { chunked_body := "ab".toList }) = some s
      ∧ run (step read_chunked_encoding)
        (.start {} 1 (callbacks_of [⟨[], [['a'], ['b']], by decide, by decide⟩]))
        [.parser, .parser, .parser] = some r
      ∧ (r.puts = (s.accepted.filter http_chunk.valid).map received
        ↔ StepsMeet StreamWriter.step Drained (.start 10)
            (one_chunk_sent { chunked_body := "ab".toList })
          ∧ StepsMeet (step read_chunked_encoding) (Room read_chunked_encoding)
            (.start {} 1 (callbacks_of [⟨[], [['a'], ['b']], by decide, by decide⟩]))
            [.parser, .parser, .parser]) := by
  have hserver : (run StreamWriter.step (.start 10)
      (one_chunk_sent { chunked_body := "ab".toList })).map
      (fun s => (decide (s.pc = .done), s.writes.all fun w => w.2 = .written, s.accepted,
        body_of s.writes))
        = some (true, true, [{ chunked_body := "ab".toList }],
          "2\r\nab\r\n0\r\n\r\n".toList) := by
    decide +kernel
  obtain ⟨s, hrun, hs⟩ := Option.map_eq_some_iff.mp hserver
  simp only [Prod.mk.injEq, decide_eq_true_eq] at hs
  obtain ⟨hdone, hwrites, haccepted, hbody⟩ := hs
  have hclient : ((run (step read_chunked_encoding)
      (.start {} 1 (callbacks_of [⟨[], [['a'], ['b']], by decide, by decide⟩]))
      [.parser, .parser, .parser]).map fun r => decide (r.todo = [])) = some true := by
    decide +kernel
  obtain ⟨r, hread, hr⟩ := Option.map_eq_some_iff.mp hclient
  have hext : ∀ c ∈ s.accepted, Framable c := by
    rw [haccepted]
    intro c hc
    rw [List.mem_singleton.mp hc]
    exact .inl rfl
  have hwire : Arrives (body_of s.writes ++ "HTTP/1.1".toList)
      [⟨[], [['a'], ['b']], by decide, by decide⟩] "HTTP/1.1".toList := by
    unfold Arrives
    rw [hbody]
    decide +kernel
  exact ⟨s, r, hrun, hread, chunks_delivered_iff hrun hdone (by simpa using hwrites) hext hwire
    hread (of_decide_eq_true hr)⟩

/-! ## Events, with `read_chunked_sse` -/

/-- The chunk of an event, with the blank line behind the event that `to_http_chunk` does
not write. -/
def blank_ended (e : server_sent_event) : http_chunk :=
  { e.to_http_chunk with chunked_body := e.to_http_chunk.chunked_body ++ ['\n'] }

/-- The event of a chunk as it was written. -/
def event_on_wire (b : chunk_body) : server_sent_event := (parse_sse_block b.buffer).getD {}

theorem encoded_terminated (e : server_sent_event) :
    Terminated e.to_http_chunk.chunked_body :=
  (((field_line_terminated _ _).append (field_line_terminated _ _)).append
    (field_line_terminated _ _)).append (field_line_terminated _ _)

/-- A single-line event is what its encoding means. -/
theorem meaning_encoded {e : server_sent_event} (h : e.SingleLine) :
    meaning e.to_http_chunk.chunked_body = e := by
  obtain ⟨hevent, hid, hdata⟩ := h
  rw [block_meaning, contribution_of_single_line .event hevent,
    contribution_of_single_line .id hid, contribution_of_single_line .data hdata]
  obtain ⟨event, id, data, retry⟩ := e
  cases data with
  | none => simp [overlay, text_field.put, Option.merge]
  | some v => simp [overlay, text_field.put, Option.merge]

/-- The blank line ends the block and adds nothing to it. -/
theorem parse_blank_ended {e : server_sent_event} (hvalid : e.valid = true)
    (h : e.SingleLine) : parse_sse_block (blank_ended e).chunked_body = some e := by
  have hmeaning : meaning (blank_ended e).chunked_body = e := by
    have hblank : meaning ['\n'] = {} := rfl
    rw [blank_ended, meaning_append (encoded_terminated e), hblank, overlay_default,
      meaning_encoded h]
  rw [parse_sse_block_described]
  change (if (meaning (blank_ended e).chunked_body).valid then
    some (meaning (blank_ended e).chunked_body) else none) = some e
  rw [hmeaning, if_pos hvalid]

theorem blank_ended_suffix {e : server_sent_event} (hvalid : e.valid = true)
    (h : e.SingleLine) : blank_line <:+ (blank_ended e).chunked_body := by
  rcases encoded_terminated e with hnil | ⟨t, ht⟩
  · -- an empty encoding would mean nothing
    have hmeaning := meaning_encoded h
    rw [hnil] at hmeaning
    rw [← hmeaning] at hvalid
    cases hvalid
  · refine ⟨t, ?_⟩
    rw [blank_ended, ht, List.append_assoc]
    rfl

/-- The bodies are those of single-line events, each with a blank line behind it. -/
def BlankEnded (bodies : List chunk_body) : Prop :=
  ∀ b ∈ bodies, ∃ e : server_sent_event, e.valid = true ∧ e.SingleLine
    ∧ b.buffer = (blank_ended e).chunked_body

/-- `read_chunked_sse` makes one event of each of them. -/
theorem deliver_blank_ended {bodies : List chunk_body} (h : BlankEnded bodies) :
    deliver [] (bodies.map chunk_body.buffer) = bodies.map event_on_wire := by
  induction bodies with
  | nil => rfl
  | cons b bodies ih =>
      obtain ⟨⟨e, hvalid, hsingle, hb⟩, htail⟩ := List.forall_mem_cons.mp h
      have hparse := parse_blank_ended hvalid hsingle
      have hsuffix := blank_ended_suffix hvalid hsingle
      rw [← hb] at hparse hsuffix
      rw [List.map_cons, @deliver_of_flushable [] _ _ hsuffix hparse, ih htail, List.map_cons,
        event_on_wire, hparse, Option.getD_some]

theorem reads_events {chunks : List wire_chunk} {bodies : List chunk_body}
    (h : chunks.map content = bodies.map on_wire) (hblank : BlankEnded bodies) :
    Reads read_chunked_sse [] (bodies.map event_on_wire) chunks := by
  -- this reader looks at the bodies only
  have hbodies : chunks.map wire_chunk.body = bodies.map chunk_body.buffer := by
    have hsnd := congrArg (List.map Prod.snd) h
    rw [List.map_map, List.map_map] at hsnd
    exact hsnd
  have hlossless : lossless read_chunked_sse [] (callbacks_of chunks)
      = bodies.map event_on_wire := by
    rw [lossless_eq_deliver, hbodies, deliver_blank_ended hblank]
  refine ⟨hlossless, ?_⟩
  intro cap acts r hrun htodo
  have hoffered := offered_of_on_sent_id (fun _ => rfl) hrun
  rw [htodo, lossless, List.append_nil] at hoffered
  rw [hoffered]
  exact congrArg List.length hlossless

/-- **Events end to end.** For events without line breaks, each sent as one chunk with a
blank line behind it, and for every run of the two sides to the end of the response, in which
all writes succeed: the client's channel has got the events that the server's channel took, in
order, each once and unchanged, if and only if neither side loses a chunk. -/
theorem events_delivered_iff {cap cap' : ℕ} {acts : List StreamWriter.action}
    {acts' : List action} {s : stream} {chunks : List wire_chunk} {rest : std_string}
    {r : reader std_string server_sent_event} {events : List server_sent_event}
    (hevents : ∀ e ∈ events, e.valid = true ∧ e.SingleLine)
    (hrun : run StreamWriter.step (.start cap) acts = some s) (hdone : s.pc = .done)
    (hwrites : ∀ w ∈ s.writes, w.2 = .written) (haccepted : s.accepted = events.map blank_ended)
    (hwire : Arrives (body_of s.writes ++ rest) chunks rest)
    (hclient : run (step read_chunked_sse) (.start [] cap' (callbacks_of chunks)) acts'
      = some r) (htodo : r.todo = []) :
    r.puts = events
      ↔ StepsMeet StreamWriter.step Drained (.start cap) acts
        ∧ StepsMeet (step read_chunked_sse) (Room read_chunked_sse)
            (.start [] cap' (callbacks_of chunks)) acts' := by
  have hext : ∀ c ∈ s.accepted, Framable c := by
    rw [haccepted]
    intro c hc
    obtain ⟨e, -, rfl⟩ := List.mem_map.mp hc
    exact .inl rfl
  -- every chunk is valid, so the chunks to be written are the events' chunks
  have hbodies : chunk_bodies s.accepted
      = events.map fun e => (blank_ended e).to_chunk_body := by
    have hvalid : s.accepted.filter http_chunk.valid = s.accepted := by
      rw [List.filter_eq_self, haccepted]
      intro c hc
      obtain ⟨e, -, rfl⟩ := List.mem_map.mp hc
      simp [http_chunk.valid, blank_ended]
    rw [chunk_bodies, hvalid, haccepted, List.map_map]
    rfl
  have hblank : BlankEnded (chunk_bodies s.accepted) := by
    rw [hbodies]
    intro b hb
    obtain ⟨e, he, rfl⟩ := List.mem_map.mp hb
    exact ⟨e, (hevents e he).1, (hevents e he).2, rfl⟩
  have hmessages : (chunk_bodies s.accepted).map event_on_wire = events := by
    rw [hbodies, List.map_map]
    conv_rhs => rw [← List.map_id events]
    apply List.map_congr_left
    intro e he
    have hparse := parse_blank_ended (hevents e he).1 (hevents e he).2
    change (parse_sse_block (blank_ended e).chunked_body).getD {} = e
    rw [hparse, Option.getD_some]
  have hchunks := (arrives_iff hrun hdone hwrites hext chunks rest).mp hwire
  -- the written chunks are some of those that were accepted
  have hwritten : BlankEnded (written s.writes) := by
    intro b hb
    apply hblank
    rw [chunk_bodies_accepted hrun hdone]
    exact List.mem_append_left _ hb
  have hdelivered := delivered_of_reads event_on_wire hrun hdone
    (reads_events hchunks hwritten) hclient htodo
  rwa [hmessages] at hdelivered

/-- One event. -/
theorem events_delivered_iff_one_event :
    ∃ (s : stream) (r : reader std_string server_sent_event),
      run StreamWriter.step (.start 10)
        (one_chunk_sent (blank_ended { data := some "x".toList })) = some s
      ∧ run (step read_chunked_sse) (.start [] 1 (callbacks_of
          [⟨[], ["data: x".toList, "\n\n".toList], by decide, by decide⟩]))
        [.parser, .parser, .parser] = some r
      ∧ (r.puts = [{ data := some "x".toList }]
        ↔ StepsMeet StreamWriter.step Drained (.start 10)
            (one_chunk_sent (blank_ended { data := some "x".toList }))
          ∧ StepsMeet (step read_chunked_sse) (Room read_chunked_sse)
            (.start [] 1 (callbacks_of
              [⟨[], ["data: x".toList, "\n\n".toList], by decide, by decide⟩]))
            [.parser, .parser, .parser]) := by
  have hserver : (run StreamWriter.step (.start 10)
      (one_chunk_sent (blank_ended { data := some "x".toList }))).map
      (fun s => (decide (s.pc = .done), s.writes.all fun w => w.2 = .written, s.accepted,
        body_of s.writes))
        = some (true, true, [blank_ended { data := some "x".toList }],
          "9\r\ndata: x\n\n\r\n0\r\n\r\n".toList) := by
    decide +kernel
  obtain ⟨s, hrun, hs⟩ := Option.map_eq_some_iff.mp hserver
  simp only [Prod.mk.injEq, decide_eq_true_eq] at hs
  obtain ⟨hdone, hwrites, haccepted, hbody⟩ := hs
  have hclient : ((run (step read_chunked_sse) (.start [] 1 (callbacks_of
      [⟨[], ["data: x".toList, "\n\n".toList], by decide, by decide⟩]))
      [.parser, .parser, .parser]).map fun r => decide (r.todo = [])) = some true := by
    decide +kernel
  obtain ⟨r, hread, hr⟩ := Option.map_eq_some_iff.mp hclient
  have hwire : Arrives (body_of s.writes ++ [])
      [⟨[], ["data: x".toList, "\n\n".toList], by decide, by decide⟩] [] := by
    unfold Arrives
    rw [hbody]
    decide +kernel
  have hmap : s.accepted
      = [({ data := some "x".toList } : server_sent_event)].map blank_ended := haccepted
  exact ⟨s, r, hrun, hread, events_delivered_iff (by decide) hrun hdone (by simpa using hwrites)
    hmap hwire hread (of_decide_eq_true hr)⟩

end CppHttp.StreamEndToEnd
