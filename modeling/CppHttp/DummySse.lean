/-
`dummy_sse_service` of `server/service.hpp`: a service that sends an event every 50 ms.

Its handler spawns a coroutine, `event_loop`, which sends numbered events into the
response's channel while the channel is open, and whose completion handler closes the
channel. The other party is the writer of `response::async_write`. `dummy` has the two of
them and the channel, and a schedule interleaves their statements.

Nobody else closes the channel, and the loop ends only at a closed one. So the loop, the
channel and the writer keep each other going, also when every write fails because the client
is gone (`never_ends`). In between nothing is lost: the events are numbered without a gap,
and the writer is behind by what the channel holds and the event in its hand
(`written_events`).

The events are written without the blank line that ends one, so `read_chunked_sse` never
hands one out (`no_event_delivered`).
-/
import CppHttp.StreamEndToEnd

set_option autoImplicit false

namespace CppHttp.DummySse

open CppHttp.Channel CppHttp.ChunkReader CppHttp.ChunkedService CppHttp.ChunkedSse
  CppHttp.Errors CppHttp.Fragmentation CppHttp.Message CppHttp.Request CppHttp.Runs
  CppHttp.Server CppHttp.ServerResponse CppHttp.SseParse CppHttp.StdString
  CppHttp.StreamEndToEnd
open CppHttp.StreamWriter (stream write_outcome written chunk_bodies writer_pc
  chunk_bodies_append Framed step_spec inv_start)

/-! ## The service -/

/-- The event with this number. `retry` is never set. -/
def numbered (id : UInt64) : server_sent_event :=
  { event := some "message".toList
    id := some (to_string id)
    data := some "This is a server-sent event message.".toList }

/-- Where `event_loop` is. -/
inductive loop_pc
  /-- `while (tx->is_open())` -/
  | test
  /-- `tx->async_send({}, std::move(sse).to_http_chunk(), yield)` -/
  | send (sse : server_sent_event)
  /-- `timer.async_wait(yield)` -/
  | timer
  /-- behind the loop: the completion handler of the coroutine -/
  | handler
  | finished
  deriving DecidableEq, Repr

/-- `event_loop`, and the response it sends to. -/
structure dummy where
  pc : loop_pc
  id : UInt64
  tx : stream

/-- The coroutine is spawned before the response is written. -/
def dummy.start (cap : ℕ) : dummy := { pc := .test, id := 0, tx := .start cap }

/-- `tx->cancel()`: a writer that waits is resumed with an error and a default chunk. -/
def cancel (s : stream) : stream :=
  if s.pc = .waiting then
    { s with
      pc := .received {}
      rx := { s.rx with receivers := 0, waiting_empty := fun h => absurd h (Nat.lt_irrefl 0) }
      ec := some (.other 0 2) }
  else s

/-- The next statement of `event_loop` and of its completion handler. A send into a full
channel has not returned yet; one that finds the channel closed throws. -/
def event_loop (s : dummy) : Option dummy :=
  match s.pc with
  | .test =>
      if s.tx.rx.is_open then some { s with pc := .send (numbered s.id), id := s.id + 1 }
      else some { s with pc := .handler }
  | .send sse =>
      (StreamWriter.step s.tx (.send sse.to_http_chunk)).map fun tx =>
        { s with pc := if s.tx.rx.is_open then .timer else .handler, tx := tx }
  | .timer => some { s with pc := .test }
  | .handler => some { s with pc := .finished, tx := (cancel s.tx).close }
  | .finished => none

/-- Who moves: the event loop, or the writer with the outcome of its write. -/
inductive party
  | event_loop
  | writer (outcome : write_outcome)
  deriving DecidableEq, Repr

def step (s : dummy) : party → Option dummy
  | .event_loop => event_loop s
  | .writer outcome => (s.tx.advance outcome).map fun tx => { s with tx := tx }

/-- `dummy_sse_service::handle_sse_request`: the header. The channel is left to the
coroutine. -/
def dummy_sse_service (L : libraries) (ω : Type) : sse_service ω where
  handle_sse_request := fun req _ ec _ =>
    (.returned (.ok (empty
      ((((({} : response_builder).status 200).version req.inner.version).keep_alive
        L.connection true)))), ec)

/-! ## What every step keeps -/

/-- The event with the number `n`, counted in 64 bits. -/
def nth_event (n : ℕ) : server_sent_event := numbered (UInt64.ofNat n)

/-- The loop has built its next event. -/
def loop_pc.building : loop_pc → ℕ
  | .send _ => 1
  | _ => 0

/-- The loop is not over, and the event it has built is the next one. -/
def loop_pc.Building (n : ℕ) : loop_pc → Prop
  | .send sse => sse = nth_event n
  | .handler => False
  | .finished => False
  | _ => True

/-- The channel has taken the events in order and is open, and the loop goes on. -/
structure Inv (s : dummy) : Prop where
  stream : StreamWriter.Inv s.tx ∧ Framed s.tx
  is_open : s.tx.rx.is_open = true
  sent : ∃ n, s.tx.accepted = (List.range n).map (fun k => (nth_event k).to_http_chunk)
    ∧ s.id = UInt64.ofNat (n + s.pc.building) ∧ s.pc.Building n

theorem inv_start_dummy (cap : ℕ) : Inv (.start cap) where
  stream := inv_start cap
  is_open := rfl
  sent := ⟨0, rfl, rfl, trivial⟩

/-- The two operations leave the capacity alone. -/
theorem put_cap {ch ch' : BoundedChannel http_chunk} {c : http_chunk} {r : put_result}
    (h : ch.put c = (r, ch')) : ch'.cap = ch.cap := by
  unfold BoundedChannel.put at h
  split at h
  · exact (Prod.mk.inj h).2 ▸ rfl
  · split at h
    · exact (Prod.mk.inj h).2 ▸ rfl
    · exact (Prod.mk.inj h).2 ▸ rfl

theorem take_cap {ch ch' : BoundedChannel http_chunk} {r : take_result http_chunk}
    (h : ch.take = (r, ch')) : ch'.cap = ch.cap ∧ ch'.is_open = ch.is_open := by
  unfold BoundedChannel.take at h
  split at h
  · exact (Prod.mk.inj h).2 ▸ ⟨rfl, rfl⟩
  · split at h
    · exact (Prod.mk.inj h).2 ▸ ⟨rfl, rfl⟩
    · exact (Prod.mk.inj h).2 ▸ ⟨rfl, rfl⟩

/-- A chunk that is sent with room is accepted, and the channel stays open. -/
theorem offer_of_room {s : stream} (hroom : s.rx.HasRoom) (chunk : http_chunk) :
    (s.offer chunk).accepted = s.accepted ++ [chunk]
      ∧ (s.offer chunk).rx.is_open = true ∧ (s.offer chunk).rx.cap = s.rx.cap := by
  cases hput : s.rx.put chunk with
  | mk r rx =>
    have hcap := put_cap hput
    unfold stream.offer
    rw [hput]
    rcases BoundedChannel.put_cases hput with
      ⟨rfl, -, -, -, -, -, -, hopen⟩ | ⟨rfl, -, -, -, -, -, hopen⟩ | ⟨rfl, hno, -⟩
    · exact ⟨rfl, hopen, hcap⟩
    · exact ⟨rfl, hopen, hcap⟩
    · exact absurd hroom hno

/-- A statement of the writer leaves the open flag and the accepted chunks alone. -/
theorem advance_keeps {s t : stream} {outcome : write_outcome}
    (h : s.advance outcome = some t) :
    t.rx.is_open = s.rx.is_open ∧ t.accepted = s.accepted ∧ t.rx.cap = s.rx.cap := by
  unfold stream.advance at h
  split at h
  · obtain rfl := Option.some.inj h
    exact ⟨rfl, rfl, rfl⟩
  · obtain rfl := Option.some.inj h
    exact ⟨rfl, rfl, rfl⟩
  · split at h
    · next htake =>
        obtain rfl := Option.some.inj h
        exact ⟨(take_cap htake).2, rfl, (take_cap htake).1⟩
    · next htake =>
        obtain rfl := Option.some.inj h
        exact ⟨(take_cap htake).2, rfl, (take_cap htake).1⟩
    · next htake =>
        obtain rfl := Option.some.inj h
        exact ⟨(take_cap htake).2, rfl, (take_cap htake).1⟩
  · split at h
    · obtain rfl := Option.some.inj h
      exact ⟨rfl, rfl, rfl⟩
    · obtain rfl := Option.some.inj h
      exact ⟨rfl, rfl, rfl⟩
  · obtain rfl := Option.some.inj h
    exact ⟨rfl, rfl, rfl⟩
  · cases h
  · cases h

/-- What a step of the event loop can be while the channel is open and the loop goes on. -/
theorem event_loop_cases {s t : dummy} (hopen : s.tx.rx.is_open = true) {n : ℕ}
    (hbuilding : s.pc.Building n) (h : event_loop s = some t) :
    (s.pc = .test ∧ t = { s with pc := .send (numbered s.id), id := s.id + 1 })
      ∨ (s.pc = .send (nth_event n) ∧ s.tx.rx.HasRoom
        ∧ t = { s with pc := .timer, tx := s.tx.offer (nth_event n).to_http_chunk })
      ∨ (s.pc = .timer ∧ t = { s with pc := .test }) := by
  unfold event_loop at h
  cases hpc : s.pc with
  | test =>
      rw [hpc] at h
      simp only [hopen, if_true] at h
      exact .inl ⟨rfl, (Option.some.inj h).symm⟩
  | send sse =>
      rw [hpc] at h hbuilding
      obtain rfl : sse = nth_event n := hbuilding
      simp only [hopen, StreamWriter.step, true_and, if_true] at h
      by_cases hroom : s.tx.rx.HasRoom
      · simp only [hroom, not_true, if_false] at h
        exact .inr (.inl ⟨rfl, hroom, (Option.some.inj h).symm⟩)
      · -- without room the send has not returned
        simp only [hroom, not_false_eq_true, if_true] at h
        cases h
  | timer =>
      rw [hpc] at h
      exact .inr (.inr ⟨rfl, (Option.some.inj h).symm⟩)
  | handler =>
      rw [hpc] at hbuilding
      exact hbuilding.elim
  | finished =>
      rw [hpc] at hbuilding
      exact hbuilding.elim

/-- The next number. -/
theorem ofNat_succ (n : ℕ) : UInt64.ofNat n + 1 = UInt64.ofNat (n + 1) := by
  rw [UInt64.ofNat_add]
  rfl

theorem inv_step {s t : dummy} {a : party} (h : Inv s) (hst : step s a = some t) :
    Inv t ∧ t.tx.rx.cap = s.tx.rx.cap := by
  obtain ⟨hstream, hopen, n, haccepted, hid, hbuilding⟩ := h
  cases a with
  | writer outcome =>
      obtain ⟨tx, htx, rfl⟩ := Option.map_eq_some_iff.mp hst
      have hinv := (@step_spec _ _ (.writer outcome) hstream htx).1
      obtain ⟨ho, ha, hc⟩ := advance_keeps htx
      exact ⟨⟨hinv, ho.trans hopen, n, ha.trans haccepted, hid, hbuilding⟩, hc⟩
  | event_loop =>
      rcases event_loop_cases hopen hbuilding hst with
        ⟨hpc, rfl⟩ | ⟨hpc, hroom, rfl⟩ | ⟨hpc, rfl⟩
      · -- the event that is built has the number of events sent
        rw [hpc] at hid
        have hnth : numbered s.id = nth_event n := by
          rw [hid]
          rfl
        refine ⟨⟨hstream, hopen, n, haccepted, ?_, hnth⟩, rfl⟩
        rw [hid]
        exact ofNat_succ n
      · -- the send is what takes the built event's number into the count
        rw [hpc] at hid
        have hsend : StreamWriter.step s.tx (.send (nth_event n).to_http_chunk)
            = some (s.tx.offer (nth_event n).to_http_chunk) := by
          simp [StreamWriter.step, hroom]
        have hinv := (step_spec hstream hsend).1
        obtain ⟨ha, ho, hc⟩ := offer_of_room hroom (nth_event n).to_http_chunk
        refine ⟨⟨hinv, ho, n + 1, ?_, hid, trivial⟩, hc⟩
        rw [ha, haccepted, List.range_succ, List.map_append]
        rfl
      · rw [hpc] at hid
        exact ⟨⟨hstream, hopen, n, haccepted, hid, trivial⟩, rfl⟩

theorem inv_of_run {cap : ℕ} {acts : List party} {s : dummy}
    (hrun : run step (.start cap) acts = some s) : Inv s ∧ s.tx.rx.cap = cap := by
  have h : ∀ (s : dummy) a t, Inv s ∧ s.tx.rx.cap = cap → step s a = some t →
      Inv t ∧ t.tx.rx.cap = cap := by
    rintro s a t ⟨hs, hcap⟩ hst
    obtain ⟨ht, hsame⟩ := inv_step hs hst
    exact ⟨ht, hsame.trans hcap⟩
  exact run_invariant h ⟨inv_start_dummy cap, rfl⟩ hrun

/-! ## It never ends -/

/-- The writer has a statement to execute unless it waits or is at its end. -/
theorem advance_isSome (s : stream) (outcome : write_outcome) (hwaits : s.pc ≠ .waiting)
    (hdone : s.pc ≠ .done) : (s.advance outcome).isSome = true := by
  unfold stream.advance
  cases hpc : s.pc with
  | header => rfl
  | test => rfl
  | receive =>
      cases htake : s.rx.take with
      | mk r rx => cases r <;> rfl
  | waiting => exact absurd hpc hwaits
  | received chunk =>
      by_cases hvalid : chunk.valid = true
      · simp [hvalid]
      · simp [hvalid]
  | last => rfl
  | done => exact absurd hpc hdone

theorem writer_in_loop {s : dummy} (h : Inv s) : s.tx.pc.left_loop = false := by
  by_contra hleft
  have hclosed := h.stream.1.closed (by simpa using hleft)
  rw [h.is_open] at hclosed
  cases hclosed

/-- **The service never ends.** In every run of the event loop and the writer, whatever the
outcomes of the writes are, the channel is open, the event loop is not over and the writer
has not left its loop; and one of them can take a step. -/
theorem never_ends {cap : ℕ} {acts : List party} {s : dummy}
    (hrun : run step (.start cap) acts = some s) :
    s.tx.rx.is_open = true ∧ s.pc ≠ .finished ∧ s.tx.pc.left_loop = false
      ∧ ∃ a t, step s a = some t := by
  have h := (inv_of_run hrun).1
  have hloop := writer_in_loop h
  obtain ⟨n, -, -, hbuilding⟩ := h.sent
  refine ⟨h.is_open, ?_, hloop, ?_⟩
  · intro hpc
    rw [hpc] at hbuilding
    exact hbuilding
  · by_cases hwaits : s.tx.pc = .waiting
    · -- a waiting writer has an empty channel, so the event loop is not held up
      have hreceivers : 0 < s.tx.rx.receivers := by
        rw [h.stream.1.waits, if_pos hwaits]
        exact Nat.one_pos
      have hroom : s.tx.rx.HasRoom := ⟨h.is_open, .inl hreceivers⟩
      refine ⟨.event_loop, ?_⟩
      simp only [step, event_loop]
      cases hpc : s.pc with
      | test => exact ⟨_, if_pos h.is_open⟩
      | send sse => simp [StreamWriter.step, hroom]
      | timer => exact ⟨_, rfl⟩
      | handler =>
          rw [hpc] at hbuilding
          exact hbuilding.elim
      | finished =>
          rw [hpc] at hbuilding
          exact hbuilding.elim
    · -- any other writer has a statement to execute, whatever its write comes to
      have hdone : s.tx.pc ≠ .done := by
        intro hdone
        rw [hdone] at hloop
        cases hloop
      obtain ⟨tx, htx⟩ := Option.isSome_iff_exists.mp (advance_isSome s.tx .written hwaits hdone)
      exact ⟨.writer .written, { s with tx := tx }, by simp [step, htx]⟩

/-- A run in which the first write fails: the client is gone before the header. -/
theorem never_ends_client_gone :
    ∃ s, run step (.start 10) [.writer (.failed .eof 0), .event_loop, .event_loop,
        .writer .written, .writer .written, .writer (.failed .eof 0)] = some s
      ∧ s.tx.rx.is_open = true ∧ s.pc ≠ .finished ∧ s.tx.pc.left_loop = false
      ∧ ∃ a t, step s a = some t := by
  obtain ⟨s, hs⟩ := Option.isSome_iff_exists.mp (show (run step (.start 10)
    [.writer (.failed .eof 0), .event_loop, .event_loop, .writer .written, .writer .written,
      .writer (.failed .eof 0)]).isSome from by decide +kernel)
  exact ⟨s, hs, never_ends hs⟩

/-! ## What it writes -/

/-- The chunk of the event with this number. -/
def nth_chunk (n : ℕ) : http_chunk := (nth_event n).to_http_chunk

theorem nth_chunk_valid (n : ℕ) : (nth_chunk n).valid = true := by
  simp [nth_chunk, nth_event, numbered, http_chunk.valid, server_sent_event.to_http_chunk,
    field_line]

theorem chunk_bodies_nth (n : ℕ) :
    chunk_bodies ((List.range n).map nth_chunk)
      = (List.range n).map fun k => (nth_chunk k).to_chunk_body := by
  have hvalid : ((List.range n).map nth_chunk).filter http_chunk.valid
      = (List.range n).map nth_chunk := by
    rw [List.filter_eq_self]
    intro c hc
    obtain ⟨k, -, rfl⟩ := List.mem_map.mp hc
    exact nth_chunk_valid k
  rw [chunk_bodies, hvalid, List.map_map]
  rfl

theorem chunk_bodies_length_le (chunks : List http_chunk) :
    (chunk_bodies chunks).length ≤ chunks.length := by
  rw [chunk_bodies, List.length_map]
  exact List.length_filter_le _ _

/-- **What the service writes.** In every run the channel has taken the events with the
numbers below some `n`, and the writes were given the first `m` of them, one chunk each; `m`
is behind `n` by no more than what the channel holds and one event. -/
theorem written_events {cap : ℕ} {acts : List party} {s : dummy}
    (hrun : run step (.start cap) acts = some s) :
    ∃ n m, s.tx.accepted = (List.range n).map nth_chunk
      ∧ written s.tx.writes = (List.range m).map (fun k => (nth_chunk k).to_chunk_body)
      ∧ m ≤ n ∧ n ≤ m + cap + 1 := by
  obtain ⟨⟨hstream, -, n, haccepted, -⟩, hcap⟩ := inv_of_run hrun
  have haccepted' : s.tx.accepted = (List.range n).map nth_chunk := haccepted
  have hchunks := hstream.2.chunks
  rw [haccepted', chunk_bodies_nth, List.append_assoc] at hchunks
  have hlen := congrArg List.length hchunks
  rw [List.length_map, List.length_range, List.length_append, List.length_append] at hlen
  -- what is accepted and not written is in the writer's hand or in the channel
  have hhand : (chunk_bodies s.tx.pc.in_hand).length ≤ 1 := by
    refine Nat.le_trans (chunk_bodies_length_le _) ?_
    cases s.tx.pc <;> simp [writer_pc.in_hand]
  have hbuffer := Nat.le_trans (chunk_bodies_length_le s.tx.rx.buffer) s.tx.rx.buffer_le
  refine ⟨n, (written s.tx.writes).length, haccepted', ?_, by omega, by omega⟩
  -- the written chunks are the first of the accepted ones
  have htake := congrArg (List.take (written s.tx.writes).length) hchunks
  rw [List.take_left, ← List.map_take, List.take_range, Nat.min_eq_left (by omega)] at htake
  exact htake.symm

/-- One event, which the writer has in hand while the next one is built. -/
theorem written_events_one_sent :
    ∃ s, run step (.start 10) [.event_loop, .writer .written, .event_loop, .writer .written,
        .writer .written, .event_loop, .event_loop] = some s
      ∧ ∃ n m, s.tx.accepted = (List.range n).map nth_chunk
        ∧ written s.tx.writes = (List.range m).map (fun k => (nth_chunk k).to_chunk_body)
        ∧ m ≤ n ∧ n ≤ m + 10 + 1 := by
  obtain ⟨s, hs⟩ := Option.isSome_iff_exists.mp (show (run step (.start 10) [.event_loop,
    .writer .written, .event_loop, .writer .written, .writer .written, .event_loop,
    .event_loop]).isSome from by decide +kernel)
  exact ⟨s, hs, written_events hs⟩

/-! ## What the client makes of it -/

theorem nth_event_single_line (n : ℕ) : (nth_event n).SingleLine := by
  have hid : ∀ c ∈ to_string (UInt64.ofNat n), c ≠ '\n' ∧ c ≠ '\r' := by
    intro c hc
    have hdigit := Nat.isDigit_of_mem_toDigits (b := 10) (by decide) (by decide) hc
    constructor
    · rintro rfl
      simp [Char.isDigit] at hdigit
    · rintro rfl
      simp [Char.isDigit] at hdigit
  refine ⟨?_, ?_, ?_⟩
  · intro v hv
    obtain rfl := Option.some.inj hv
    decide
  · intro v hv
    obtain rfl := Option.some.inj hv
    exact ⟨fun h => (hid _ h).1 rfl, fun h => (hid _ h).2 rfl⟩
  · intro v hv
    obtain rfl := Option.some.inj hv
    decide

/-- **No event is delivered.** Whatever the service has written in a run, however much of it
has arrived, cut into whatever pieces, and whatever the client's consumer does:
`read_chunked_sse` offers nothing to its channel. -/
theorem no_event_delivered {cap cap' : ℕ} {acts : List party} {s : dummy}
    {acts' : List action} {chunks : List wire_chunk} {r : reader std_string server_sent_event}
    (hrun : run step (.start cap) acts = some s)
    (harrived : chunks.map content <+: (written s.tx.writes).map on_wire)
    (hclient : run (ChunkReader.step read_chunked_sse) (.start [] cap' (callbacks_of chunks)) acts'
      = some r) :
    r.offered = [] ∧ r.puts = [] := by
  obtain ⟨n, m, -, hwritten, -⟩ := written_events hrun
  -- a line break that no other follows ends each body, so there is no blank line to find
  have hone : ∀ c ∈ chunks.map wire_chunk.body, OneTerminator c := by
    intro c hc
    obtain ⟨w, hw, rfl⟩ := List.mem_map.mp hc
    have hmem := harrived.subset (List.mem_map_of_mem hw)
    rw [hwritten, List.map_map] at hmem
    obtain ⟨k, -, hk⟩ := List.mem_map.mp hmem
    have hbody : w.body = (nth_event k).to_http_chunk.chunked_body :=
      (congrArg Prod.snd hk).symm
    rw [hbody]
    exact to_http_chunk_no_blank rfl (nth_event_single_line k)
  have hoffered := offered_of_on_sent_id (fun _ => rfl) hclient
  rw [reader.start, List.nil_append, lossless_eq_deliver, deliver_of_oneTerminator hone,
    List.append_eq_nil_iff] at hoffered
  have hsub : r.puts.Sublist r.offered := puts_sublist_offered (List.Sublist.refl _) hclient
  refine ⟨hoffered.1, ?_⟩
  rw [hoffered.1] at hsub
  exact List.sublist_nil.mp hsub

/-- The first event, which has arrived as a whole. -/
def first_event : wire_chunk :=
  .whole [] (nth_chunk 0).chunked_body (by decide +kernel)

theorem no_event_delivered_first_event :
    ∃ (s : dummy) (r : reader std_string server_sent_event),
      run step (.start 10) [.event_loop, .writer .written, .event_loop, .writer .written,
        .writer .written, .writer .written] = some s
      ∧ [first_event].map content <+: (written s.tx.writes).map on_wire
      ∧ run (ChunkReader.step read_chunked_sse) (.start [] 10 (callbacks_of [first_event]))
        [.parser, .parser] = some r
      ∧ r.offered = [] ∧ r.puts = [] := by
  have hserver : (run step (.start 10) [.event_loop, .writer .written, .event_loop,
      .writer .written, .writer .written, .writer .written]).map
        (fun s => (written s.tx.writes).map on_wire) = some ([first_event].map content) := by
    decide +kernel
  obtain ⟨s, hrun, hwritten⟩ := Option.map_eq_some_iff.mp hserver
  obtain ⟨r, hr⟩ := Option.isSome_iff_exists.mp (show (run (ChunkReader.step read_chunked_sse)
    (.start [] 10 (callbacks_of [first_event])) [.parser, .parser]).isSome from by decide +kernel)
  have harrived : [first_event].map content <+: (written s.tx.writes).map on_wire := by
    rw [hwritten]
  exact ⟨s, r, hrun, harrived, hr, no_event_delivered hrun harrived hr⟩

/-! ## The response it belongs to -/

/-- The response of the service is a stream over a channel for ten chunks, and its header
says that chunks follow. -/
theorem dummy_response {T : transfer_library} (hT : T.Documented) (L : libraries) {ω : Type}
    (req : request) (ec : error_code) (world : ω) :
    ∃ sent, (streaming_service.sse (dummy_sse_service L ω)).handle_request T req ec world
        = (.returned (.ok (.streaming sent (.make http_chunk 10))), ec)
      ∧ T.framing sent = .chunked := by
  refine ⟨_, rfl, ?_⟩
  rw [finish_header_framing hT, mark_event_stream_result]
  exact .inl rfl

end CppHttp.DummySse
