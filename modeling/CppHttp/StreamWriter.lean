/-
The streaming branch of `response::async_write` (`server/response.hpp`), together
with the producer that sends chunks into the response's channel and closes it.

The writer is a coroutine: it writes the header, then loops `while (rx_->is_open())`
receiving a chunk and writing it if it is not empty, and writes the last-chunk behind
the loop. The producer sends (`async_send` waits for room, `try_send` gives up) and
closes. `writer_pc` names the statements of the writer, and a schedule interleaves
the two parties statement by statement, so every order of sends, of `close()` and of
the writer's steps is one of the lists of actions below. The outcome of each write comes
with the action that performs it.

The loop asks whether the channel is open, not whether it still holds anything, and a
closed channel hands out what it holds. `body_iff_drained` says what comes of it: when
no write fails, the body on the wire is that of the accepted chunks followed by one
last-chunk exactly if the loop never left chunks behind, that is, if every `is_open()`
test that found the channel closed found it drained as well. Nothing else goes wrong:
no chunk is duplicated, overtaken, or written twice (`conserves`), and a
writer whose channel is closed always gets to the end (`finishes`).
-/
import CppHttp.Channel
import CppHttp.Errors
import CppHttp.Message
import CppHttp.Runs

set_option autoImplicit false

namespace CppHttp.StreamWriter

open CppHttp.Channel CppHttp.Errors CppHttp.Message CppHttp.Runs CppHttp.StdString

/-! ## The two parties -/

/-- The statement the writer is about to execute, or is suspended in. -/
inductive writer_pc
  /-- `async_write_header(stream, serializer, yield)` -/
  | header
  /-- `while (response.rx_->is_open())` -/
  | test
  /-- `chunk = response.rx_->async_receive(yield)` -/
  | receive
  /-- suspended in `async_receive` -/
  | waiting
  /-- `async_receive` has returned this chunk -/
  | received (chunk : http_chunk)
  /-- `async_write(stream, make_chunk_last(), yield)` -/
  | last
  /-- behind the last statement -/
  | done
  deriving DecidableEq, Repr

/-- What one of the writes puts on the wire. -/
inductive wire_item
  | header
  | chunk (body : chunk_body)
  | last
  deriving DecidableEq, Repr

/-- The bytes of an item behind the header. -/
def wire_item.body : wire_item → std_string
  | .header => []
  | .chunk body => body.encode
  | .last => chunk_last

/-- How a write ends: all bytes are written, or an error after some of them. -/
inductive write_outcome
  | written
  | failed (e : error) (sent : ℕ)
  deriving DecidableEq, Repr

/-- The error code the write leaves. -/
def write_outcome.ec : write_outcome → error_code
  | .written => none
  | .failed e _ => some e

/-- The writer and the channel. `writes` records every write with its outcome,
`accepted` every chunk the channel took. -/
structure stream where
  pc : writer_pc
  rx : BoundedChannel http_chunk
  ec : error_code
  writes : List (wire_item × write_outcome)
  accepted : List http_chunk

/-- A response with a fresh channel, before the writer runs. -/
def stream.start (cap : ℕ) : stream :=
  { pc := .header, rx := BoundedChannel.make http_chunk cap, ec := none, writes := []
    accepted := [] }

/-- Who moves. -/
inductive action
  /-- the producer's `async_send` -/
  | send (chunk : http_chunk)
  /-- the producer's `try_send` -/
  | try_send (chunk : http_chunk)
  /-- the producer's `close()` -/
  | close
  /-- the writer, with the outcome of the write it may perform -/
  | writer (outcome : write_outcome)
  deriving DecidableEq, Repr

/-- The channel is offered a chunk. A writer that waits is resumed with it. -/
def stream.offer (s : stream) (chunk : http_chunk) : stream :=
  match s.rx.put chunk with
  | (.handed, rx) =>
      { s with
        pc := .received chunk, rx := rx, ec := none, accepted := s.accepted ++ [chunk] }
  | (.buffered, rx) => { s with rx := rx, accepted := s.accepted ++ [chunk] }
  | (.refused, rx) => { s with rx := rx }

/-- `close()`. A writer that waits is resumed with an error and a default chunk. -/
def stream.close (s : stream) : stream :=
  if s.pc = .waiting then
    { s with pc := .received {}, rx := s.rx.close, ec := some .channel_closed }
  else { s with rx := s.rx.close }

/-- The writer's next statement; none while it is suspended and at its end. -/
def stream.advance (s : stream) (outcome : write_outcome) : Option stream :=
  match s.pc with
  | .header =>
      some { s with
        pc := .test, ec := outcome.ec, writes := s.writes ++ [(.header, outcome)] }
  | .test => some { s with pc := if s.rx.is_open then .receive else .last }
  | .receive =>
      match s.rx.take with
      | (.got chunk, rx) => some { s with pc := .received chunk, rx := rx, ec := none }
      | (.waits, rx) => some { s with pc := .waiting, rx := rx }
      | (.closed, rx) =>
          some { s with pc := .received {}, rx := rx, ec := some .channel_closed }
  | .received chunk =>
      if chunk.valid then
        some { s with
          pc := .test, ec := outcome.ec
          writes := s.writes ++ [(.chunk chunk.to_chunk_body, outcome)] }
      else some { s with pc := .test }
  | .last =>
      some { s with
        pc := .done, ec := outcome.ec, writes := s.writes ++ [(.last, outcome)] }
  | .waiting => none
  | .done => none

/-- One step of either party. `async_send` into an open channel without room has not
returned yet, so it takes no step there. -/
def step (s : stream) : action → Option stream
  | .send chunk =>
      if s.rx.is_open = true ∧ ¬ s.rx.HasRoom then none else some (s.offer chunk)
  | .try_send chunk => some (s.offer chunk)
  | .close => some s.close
  | .writer outcome => s.advance outcome

/-! ## What is on the wire and what is on its way -/

/-- The bytes the writes have put on the wire behind the header. -/
def body_of (writes : List (wire_item × write_outcome)) : std_string :=
  writes.flatMap fun w =>
    match w.2 with
    | .written => w.1.body
    | .failed _ sent => w.1.body.take sent

/-- The bytes the writes were to put there. -/
def intended (writes : List (wire_item × write_outcome)) : std_string :=
  writes.flatMap fun w => w.1.body

/-- The wire form of the non-empty chunks of a list. -/
def payload (chunks : List http_chunk) : std_string :=
  (chunks.filter http_chunk.valid).flatMap fun c => c.to_chunk_body.encode

/-- The chunk the writer has received and not dealt with. -/
def writer_pc.in_hand : writer_pc → List http_chunk
  | .received chunk => [chunk]
  | _ => []

/-- The last-chunk, once it is written. -/
def writer_pc.trailer : writer_pc → std_string
  | .done => chunk_last
  | _ => []

/-- The writer has left the loop. -/
def writer_pc.left_loop : writer_pc → Bool
  | .last => true
  | .done => true
  | _ => false

@[simp] theorem payload_nil : payload [] = [] := rfl

theorem payload_eq_nil_iff (chunks : List http_chunk) :
    payload chunks = [] ↔ ∀ c ∈ chunks, c.valid = false := by
  unfold payload
  rw [List.flatMap_eq_nil_iff]
  constructor
  · intro h c hc
    by_contra hv
    have hmem : c ∈ chunks.filter http_chunk.valid :=
      List.mem_filter.mpr ⟨hc, by simpa using hv⟩
    exact chunk_body.encode_ne_nil _ (h c hmem)
  · intro h c hc
    obtain ⟨hmem, hv⟩ := List.mem_filter.mp hc
    rw [h c hmem] at hv
    cases hv

@[simp] theorem intended_append (a b : List (wire_item × write_outcome)) :
    intended (a ++ b) = intended a ++ intended b := by
  simp [intended]

@[simp] theorem intended_singleton (item : wire_item) (outcome : write_outcome) :
    intended [(item, outcome)] = item.body := by
  simp [intended]

/-- Where no write fails, the bytes on the wire are the intended ones. -/
theorem body_of_eq_intended {writes : List (wire_item × write_outcome)}
    (h : ∀ w ∈ writes, w.2 = .written) : body_of writes = intended writes := by
  unfold body_of intended
  rw [List.flatMap_def, List.flatMap_def]
  congr 1
  apply List.map_congr_left
  intro w hw
  rw [h w hw]

/-! ## The chunks on the wire -/

/-- The chunks given to a write. -/
def written (writes : List (wire_item × write_outcome)) : List chunk_body :=
  writes.filterMap fun w =>
    match w.1 with
    | .chunk body => some body
    | _ => none

/-- The non-empty chunks of a list, as they are given to a write. -/
def chunk_bodies (chunks : List http_chunk) : List chunk_body :=
  (chunks.filter http_chunk.valid).map http_chunk.to_chunk_body

@[simp] theorem chunk_bodies_append (a b : List http_chunk) :
    chunk_bodies (a ++ b) = chunk_bodies a ++ chunk_bodies b := by
  simp [chunk_bodies]

theorem chunk_bodies_singleton (c : http_chunk) :
    chunk_bodies [c] = if c.valid then [c.to_chunk_body] else [] := by
  unfold chunk_bodies
  by_cases hc : c.valid = true
  · simp [hc]
  · simp [hc]

/-- What the writes were to put on the wire are whole chunks and, at the writer's end,
the last-chunk; and the accepted chunks are the written ones, the one in the writer's
hand, and the buffered ones. -/
structure Framed (s : stream) : Prop where
  wire : intended s.writes = (written s.writes).flatMap chunk_body.encode ++ s.pc.trailer
  chunks : chunk_bodies s.accepted
    = written s.writes ++ chunk_bodies s.pc.in_hand ++ chunk_bodies s.rx.buffer

/-- The bodies of the chunks are those of the non-empty ones. -/
theorem flatMap_chunk_bodies (chunks : List http_chunk) :
    (chunk_bodies chunks).flatMap chunk_body.buffer = chunks.flatMap http_chunk.chunked_body := by
  induction chunks with
  | nil => rfl
  | cons c chunks ih =>
      have hbuffer : c.to_chunk_body.buffer = c.chunked_body := by
        unfold http_chunk.to_chunk_body
        split
        · rfl
        · rfl
      rw [← List.singleton_append, chunk_bodies_append, List.flatMap_append, ih,
        chunk_bodies_singleton, List.singleton_append, List.flatMap_cons]
      by_cases hc : c.valid = true
      · rw [if_pos hc, List.flatMap_singleton, hbuffer]
      · -- a chunk that is not valid has an empty body
        have hempty : c.chunked_body = [] := by simpa [http_chunk.valid] using hc
        rw [if_neg hc, hempty, List.flatMap_nil]

theorem framed_start (cap : ℕ) : Framed (.start cap) := ⟨rfl, rfl⟩

/-- An offered chunk goes behind all others. -/
theorem framed_offer {s : stream} (hwaits : s.rx.receivers = if s.pc = .waiting then 1 else 0)
    (h : Framed s) (chunk : http_chunk) : Framed (s.offer chunk) := by
  cases hput : s.rx.put chunk with
  | mk r rx =>
    unfold stream.offer
    rw [hput]
    rcases BoundedChannel.put_cases hput with
      ⟨rfl, -, hpos, hbuf, hbuf', -⟩ | ⟨rfl, -, -, hbuf, -⟩ | ⟨rfl, -, rfl⟩
    · -- handed over: the writer was suspended, so its hand was empty
      have hpc : s.pc = .waiting := by
        by_contra hpc
        rw [hwaits, if_neg hpc] at hpos
        omega
      have hwire := h.wire
      have hchunks := h.chunks
      rw [hpc] at hwire hchunks
      refine ⟨hwire, ?_⟩
      rw [chunk_bodies_append, hchunks, hbuf, hbuf']
      simp [writer_pc.in_hand, chunk_bodies]
    · refine ⟨h.wire, ?_⟩
      rw [chunk_bodies_append, h.chunks, hbuf, chunk_bodies_append, List.append_assoc]
    · exact h

/-- Closing moves nothing: the default chunk it may leave in the writer's hand is empty. -/
theorem framed_close {s : stream} (h : Framed s) : Framed s.close := by
  unfold stream.close
  by_cases hpc : s.pc = .waiting
  · have hwire := h.wire
    have hchunks := h.chunks
    rw [hpc] at hwire hchunks
    rw [if_pos hpc]
    exact ⟨hwire, hchunks⟩
  · rw [if_neg hpc]
    exact ⟨h.wire, h.chunks⟩

/-- A statement of the writer moves the first buffered chunk into its hand, or the chunk
in its hand onto the wire. -/
theorem framed_advance {s t : stream} {outcome : write_outcome} (h : Framed s)
    (hst : s.advance outcome = some t) : Framed t := by
  have hwire := h.wire
  have hchunks := h.chunks
  unfold stream.advance at hst
  cases hpc : s.pc with
  | header =>
      rw [hpc] at hst hwire hchunks
      obtain rfl := Option.some.inj hst
      refine ⟨?_, ?_⟩
      · simpa [written, wire_item.body, writer_pc.trailer] using hwire
      · simpa [written, writer_pc.in_hand] using hchunks
  | test =>
      rw [hpc] at hst hwire hchunks
      obtain rfl := Option.some.inj hst
      by_cases hopen : s.rx.is_open = true
      · rw [if_pos hopen]
        exact ⟨hwire, hchunks⟩
      · rw [if_neg hopen]
        exact ⟨hwire, hchunks⟩
  | receive =>
      rw [hpc] at hst hwire hchunks
      cases htake : s.rx.take with
      | mk r rx =>
        rw [htake] at hst
        rcases BoundedChannel.take_cases htake with
          ⟨c, rfl, hbuf, -⟩ | ⟨rfl, hbuf, hbuf', -⟩ | ⟨rfl, -, -, rfl⟩
        · obtain rfl := Option.some.inj hst
          refine ⟨hwire, ?_⟩
          have hcons : chunk_bodies s.rx.buffer = chunk_bodies [c] ++ chunk_bodies rx.buffer := by
            rw [hbuf, ← chunk_bodies_append]
            rfl
          rw [hcons] at hchunks
          simpa [writer_pc.in_hand, chunk_bodies] using hchunks
        · obtain rfl := Option.some.inj hst
          refine ⟨hwire, ?_⟩
          rw [hbuf] at hchunks
          rw [hbuf']
          exact hchunks
        · obtain rfl := Option.some.inj hst
          exact ⟨hwire, hchunks⟩
  | received chunk =>
      rw [hpc] at hst hwire hchunks
      rw [show writer_pc.in_hand (.received chunk) = [chunk] from rfl,
        chunk_bodies_singleton] at hchunks
      by_cases hv : chunk.valid = true
      · simp only [hv, if_true] at hst hchunks
        obtain rfl := Option.some.inj hst
        refine ⟨?_, ?_⟩
        · simpa [written, wire_item.body, writer_pc.trailer] using hwire
        · simpa [written, writer_pc.in_hand, chunk_bodies] using hchunks
      · simp only [hv] at hst hchunks
        obtain rfl := Option.some.inj hst
        exact ⟨hwire, hchunks⟩
  | last =>
      rw [hpc] at hst hwire hchunks
      obtain rfl := Option.some.inj hst
      refine ⟨?_, ?_⟩
      · simpa [written, wire_item.body, writer_pc.trailer] using hwire
      · simpa [written, writer_pc.in_hand] using hchunks
  | waiting =>
      rw [hpc] at hst
      cases hst
  | done =>
      rw [hpc] at hst
      cases hst

/-- The wire form of the chunks of a list is that of their bodies. -/
theorem payload_eq (chunks : List http_chunk) :
    payload chunks = (chunk_bodies chunks).flatMap chunk_body.encode := by
  unfold payload chunk_bodies
  rw [List.flatMap_map]

/-! ## What every step keeps -/

/-- What holds in every state. The channel has a waiting receive exactly while the
writer is suspended in one; the loop is left only when the channel is closed; and the
accepted chunks are those given to a write, then the one in the writer's hand, then those
in the buffer. -/
structure Inv (s : stream) : Prop where
  waits : s.rx.receivers = if s.pc = .waiting then 1 else 0
  closed : s.pc.left_loop = true → s.rx.is_open = false
  conserves : ∃ body, intended s.writes = body ++ s.pc.trailer
    ∧ payload s.accepted = body ++ payload s.pc.in_hand ++ payload s.rx.buffer

/-- The bytes are those of the chunks. -/
theorem Framed.conserves {s : stream} (h : Framed s) :
    ∃ body, intended s.writes = body ++ s.pc.trailer
      ∧ payload s.accepted = body ++ payload s.pc.in_hand ++ payload s.rx.buffer := by
  refine ⟨(written s.writes).flatMap chunk_body.encode, h.wire, ?_⟩
  rw [payload_eq, payload_eq, payload_eq, h.chunks, List.flatMap_append, List.flatMap_append]

theorem inv_start (cap : ℕ) : Inv (.start cap) ∧ Framed (.start cap) :=
  ⟨⟨rfl, (by intro h; cases h), (framed_start cap).conserves⟩, framed_start cap⟩

/-- The bytes the writer has left behind in the channel: none before it leaves the
loop. -/
def stream.left_behind (s : stream) : ℕ :=
  if s.pc.left_loop then (payload s.rx.buffer).length else 0

/-- An offer does not disturb the invariant, and a writer that has left the loop
leaves no more behind than before. -/
theorem offer_spec {s : stream} (h : Inv s) (hf : Framed s) (chunk : http_chunk) :
    Inv (s.offer chunk) ∧ (s.offer chunk).left_behind = s.left_behind := by
  have hconserves := (framed_offer h.waits hf chunk).conserves
  cases hput : s.rx.put chunk with
  | mk r rx =>
    unfold stream.offer at hconserves ⊢
    rw [hput] at hconserves ⊢
    rcases BoundedChannel.put_cases hput with
      ⟨rfl, -, hpos, -, -, hrecv, -⟩ | ⟨rfl, -, hrecv, -, hrecv', hopen, -⟩ | ⟨rfl, -, rfl⟩
    · -- handed over: the writer was suspended
      have hpc : s.pc = .waiting := by
        by_contra hpc
        rw [h.waits, if_neg hpc] at hpos
        omega
      refine ⟨⟨?_, ?_, hconserves⟩, ?_⟩
      · simp only [hrecv, h.waits, hpc]
        rfl
      · intro hleft
        cases hleft
      · simp [stream.left_behind, hpc, writer_pc.left_loop]
    · -- buffered: the channel is open, so the writer is still in its loop
      have hleft : s.pc.left_loop = false := by
        by_contra hl
        have := h.closed (by simpa using hl)
        rw [hopen] at this
        cases this
      refine ⟨⟨?_, ?_, hconserves⟩, ?_⟩
      · exact (hrecv'.trans hrecv.symm).trans h.waits
      · intro hl
        rw [hleft] at hl
        cases hl
      · simp [stream.left_behind, hleft]
    · exact ⟨⟨h.waits, h.closed, hconserves⟩, rfl⟩

theorem close_spec {s : stream} (hf : Framed s) :
    Inv s.close ∧ s.close.left_behind = s.left_behind := by
  have hconserves := (framed_close hf).conserves
  unfold stream.close at hconserves ⊢
  by_cases hpc : s.pc = .waiting
  · rw [if_pos hpc] at hconserves ⊢
    refine ⟨⟨rfl, fun _ => rfl, hconserves⟩, ?_⟩
    simp [stream.left_behind, hpc, writer_pc.left_loop]
  · rw [if_neg hpc] at hconserves ⊢
    refine ⟨⟨?_, fun _ => rfl, hconserves⟩, rfl⟩
    show 0 = _
    rw [if_neg hpc]

/-- The statement that can go wrong, and when it does not: the loop's test finds the
channel closed only when nothing but empty chunks is left in it. -/
def Drained (s : stream) : action → Prop
  | .writer _ =>
      s.pc = .test → s.rx.is_open = false → ∀ c ∈ s.rx.buffer, c.valid = false
  | _ => True

/-- A statement inside the loop, the test apart, leaves nothing behind. -/
theorem left_behind_of_in_loop {s t : stream} {outcome : write_outcome}
    (hs : s.pc.left_loop = false) (ht : t.pc.left_loop = false) (hpc : s.pc ≠ .test) :
    s.left_behind ≤ t.left_behind
      ∧ (t.left_behind = s.left_behind ↔ Drained s (.writer outcome)) := by
  simp [stream.left_behind, Drained, hs, ht, hpc]

/-- `async_receive` leaves the writer in its loop, with a chunk or suspended. -/
theorem receive_spec {s t : stream} {outcome : write_outcome} (h : Inv s) (hf : Framed s)
    (hpc : s.pc = .receive) (hst : s.advance outcome = some t) :
    Inv t ∧ t.pc.left_loop = false := by
  have hconserves := (framed_advance hf hst).conserves
  have hwaits := h.waits
  rw [hpc] at hwaits
  unfold stream.advance at hst
  rw [hpc] at hst
  cases htake : s.rx.take with
  | mk r rx =>
    rw [htake] at hst
    rcases BoundedChannel.take_cases htake with
      ⟨c, rfl, -, hrecv, -⟩ | ⟨rfl, -, -, hrecv, -, -⟩ | ⟨rfl, -, -, rfl⟩
    · obtain rfl := Option.some.inj hst
      exact ⟨⟨hrecv.trans hwaits, (fun hl => by cases hl), hconserves⟩, rfl⟩
    · obtain rfl := Option.some.inj hst
      refine ⟨⟨?_, (fun hl => by cases hl), hconserves⟩, rfl⟩
      show rx.receivers = _
      rw [hrecv, hwaits]
      rfl
    · obtain rfl := Option.some.inj hst
      exact ⟨⟨hwaits, (fun hl => by cases hl), hconserves⟩, rfl⟩

/-- Behind `async_receive` the writer goes back to the test, with or without a write. -/
theorem received_spec {s t : stream} {chunk : http_chunk} {outcome : write_outcome} (h : Inv s)
    (hf : Framed s) (hpc : s.pc = .received chunk) (hst : s.advance outcome = some t) :
    Inv t ∧ t.pc.left_loop = false := by
  have hconserves := (framed_advance hf hst).conserves
  have hwaits := h.waits
  rw [hpc] at hwaits
  unfold stream.advance at hst
  rw [hpc] at hst
  by_cases hv : chunk.valid = true
  · simp only [hv, if_true] at hst
    obtain rfl := Option.some.inj hst
    exact ⟨⟨hwaits, (fun hl => by cases hl), hconserves⟩, rfl⟩
  · simp only [hv] at hst
    obtain rfl := Option.some.inj hst
    exact ⟨⟨hwaits, (fun hl => by cases hl), hconserves⟩, rfl⟩

/-- A statement of the writer keeps the invariant and leaves nothing behind, except
the test that ends the loop, which leaves what is in the buffer. -/
theorem advance_spec {s t : stream} {outcome : write_outcome} (h : Inv s) (hf : Framed s)
    (hst : s.advance outcome = some t) :
    Inv t ∧ s.left_behind ≤ t.left_behind
      ∧ (t.left_behind = s.left_behind ↔ Drained s (.writer outcome)) := by
  have hconserves := (framed_advance hf hst).conserves
  have hwaits := h.waits
  have hcases := hst
  unfold stream.advance at hcases
  cases hpc : s.pc with
  | header =>
      rw [hpc] at hcases hwaits
      obtain rfl := Option.some.inj hcases
      refine ⟨⟨hwaits, (fun hl => by cases hl), hconserves⟩, ?_⟩
      exact left_behind_of_in_loop (by rw [hpc]; rfl) rfl (by rw [hpc]; simp)
  | test =>
      rw [hpc] at hcases hwaits
      obtain rfl := Option.some.inj hcases
      by_cases hopen : s.rx.is_open = true
      · rw [if_pos hopen] at hconserves ⊢
        refine ⟨⟨hwaits, (fun hl => by cases hl), hconserves⟩, ?_⟩
        simp [stream.left_behind, Drained, hpc, hopen, writer_pc.left_loop]
      · -- the loop ends here; what is still buffered stays behind
        have hclosed : s.rx.is_open = false := by simpa using hopen
        rw [if_neg hopen] at hconserves ⊢
        refine ⟨⟨hwaits, fun _ => hclosed, hconserves⟩, ?_⟩
        simp only [stream.left_behind, Drained, hpc, hclosed, writer_pc.left_loop]
        rw [← payload_eq_nil_iff]
        simp
  | receive =>
      obtain ⟨hinv, hleft⟩ := receive_spec h hf hpc hst
      exact ⟨hinv, left_behind_of_in_loop (by rw [hpc]; rfl) hleft (by rw [hpc]; simp)⟩
  | received chunk =>
      obtain ⟨hinv, hleft⟩ := received_spec h hf hpc hst
      exact ⟨hinv, left_behind_of_in_loop (by rw [hpc]; rfl) hleft (by rw [hpc]; simp)⟩
  | last =>
      have hclosed := h.closed (by rw [hpc]; rfl)
      rw [hpc] at hcases hwaits
      obtain rfl := Option.some.inj hcases
      refine ⟨⟨hwaits, fun _ => hclosed, hconserves⟩, ?_⟩
      simp [stream.left_behind, Drained, hpc, writer_pc.left_loop]
  | waiting =>
      rw [hpc] at hcases
      cases hcases
  | done =>
      rw [hpc] at hcases
      cases hcases

theorem step_spec {s t : stream} {a : action} (h : Inv s ∧ Framed s) (hst : step s a = some t) :
    (Inv t ∧ Framed t) ∧ s.left_behind ≤ t.left_behind
      ∧ (t.left_behind = s.left_behind ↔ Drained s a) := by
  obtain ⟨hinv, hf⟩ := h
  have hoffer : ∀ chunk, t = s.offer chunk → (Inv t ∧ Framed t)
      ∧ s.left_behind ≤ t.left_behind ∧ (t.left_behind = s.left_behind ↔ True) := by
    rintro chunk rfl
    obtain ⟨hinv', heq⟩ := offer_spec hinv hf chunk
    exact ⟨⟨hinv', framed_offer hinv.waits hf chunk⟩, heq.ge, by simp [heq]⟩
  cases a with
  | send chunk =>
      simp only [step] at hst
      split at hst
      · cases hst
      · exact hoffer chunk (Option.some.inj hst).symm
  | try_send chunk => exact hoffer chunk (Option.some.inj hst).symm
  | close =>
      obtain rfl := Option.some.inj hst
      obtain ⟨hinv', heq⟩ := close_spec hf
      exact ⟨⟨hinv', framed_close hf⟩, heq.ge, by simp [heq, Drained]⟩
  | writer outcome =>
      obtain ⟨hinv', hleft⟩ := advance_spec hinv hf hst
      exact ⟨⟨hinv', framed_advance hf hst⟩, hleft⟩

/-- The invariant holds in every state of every run: the wire holds whole chunks, and none
is lost between the producer and the writer. -/
theorem inv_of_run {s t : stream} {acts : List action} (h : Inv s ∧ Framed s)
    (hrun : run step s acts = some t) : Inv t ∧ Framed t :=
  run_invariant (fun _ _ _ hs hst => (step_spec hs hst).1) h hrun

theorem body_ne_nil {cap : ℕ} {acts : List action} {s : stream}
    (hrun : run step (.start cap) acts = some s) (hdone : s.pc = .done)
    (hwrites : ∀ w ∈ s.writes, w.2 = .written) : body_of s.writes ≠ [] := by
  have hwire := (inv_of_run (inv_start cap) hrun).2.wire
  rw [body_of_eq_intended hwrites, hwire, hdone]
  simp [writer_pc.trailer, chunk_last]

/-! ## The writer gets to the end -/

/-- How many statements a writer with a closed channel has in front of it. -/
def writer_pc.remaining : writer_pc → ℕ
  | .receive => 4
  | .header => 3
  | .received _ => 3
  | .test => 2
  | .last => 1
  | .waiting => 0
  | .done => 0

/-- On a closed channel the writer is never suspended, and each of its statements
brings it nearer to its end. -/
theorem advance_of_closed (s : stream) (outcome : write_outcome) (h : Inv s)
    (hclosed : s.rx.is_open = false) (hpc : s.pc ≠ .done) :
    ∃ t, s.advance outcome = some t ∧ t.rx.is_open = false
      ∧ t.pc.remaining < s.pc.remaining := by
  have hnowait : s.pc ≠ .waiting := by
    intro hw
    have hpos : 0 < s.rx.receivers := by
      rw [h.waits, if_pos hw]
      exact Nat.one_pos
    have := (s.rx.waiting_empty hpos).2
    rw [hclosed] at this
    cases this
  obtain ⟨pc, rx, ec, writes, accepted⟩ := s
  dsimp only at hclosed hpc hnowait ⊢
  cases pc with
  | header => exact ⟨_, rfl, hclosed, by simp [writer_pc.remaining]⟩
  | test =>
      -- the test fails, and the loop is over
      refine ⟨_, rfl, hclosed, ?_⟩
      simp [hclosed, writer_pc.remaining]
  | receive =>
      cases htake : rx.take with
      | mk r rx' =>
        simp only [stream.advance, htake]
        rcases BoundedChannel.take_cases htake with
          ⟨c, rfl, -, -, ho⟩ | ⟨rfl, -, -, -, ho, -⟩ | ⟨rfl, -, -, rfl⟩
        · exact ⟨_, rfl, ho.trans hclosed, by simp [writer_pc.remaining]⟩
        · rw [hclosed] at ho
          cases ho
        · exact ⟨_, rfl, hclosed, by simp [writer_pc.remaining]⟩
  | waiting => exact absurd rfl hnowait
  | received chunk =>
      by_cases hv : chunk.valid = true
      · refine ⟨_, if_pos hv, hclosed, ?_⟩
        simp [writer_pc.remaining]
      · refine ⟨_, if_neg hv, hclosed, ?_⟩
        simp [writer_pc.remaining]
  | last => exact ⟨_, rfl, hclosed, by simp [writer_pc.remaining]⟩
  | done => exact absurd rfl hpc

/-- A writer whose channel is closed gets to its end, with or without write errors. -/
theorem finishes (s : stream) (outcome : write_outcome) (h : Inv s ∧ Framed s)
    (hclosed : s.rx.is_open = false) :
    ∃ n t, run step s (List.replicate n (.writer outcome)) = some t ∧ t.pc = .done := by
  have hprogress : ∀ r : stream, (Inv r ∧ Framed r) ∧ r.rx.is_open = false → ¬ r.pc = .done →
      ∃ t, step r (.writer outcome) = some t ∧ ((Inv t ∧ Framed t) ∧ t.rx.is_open = false)
        ∧ t.pc.remaining < r.pc.remaining := by
    rintro r ⟨hr, hro⟩ hpc
    obtain ⟨t, hst, hto, hlt⟩ := advance_of_closed r outcome hr.1 hro hpc
    exact ⟨t, hst, ⟨(@step_spec _ _ (.writer outcome) hr hst).1, hto⟩, hlt⟩
  obtain ⟨n, t, hrun, -, hdone⟩ := exists_run_of_measure _ _ hprogress ⟨h, hclosed⟩
  exact ⟨n, t, hrun, hdone⟩

/-! ## Exactly when the body is the chunks that were accepted -/

/-- At the writer's end the channel holds nothing to encode exactly if every test that
found it closed found it drained. -/
theorem drained_iff {cap : ℕ} {acts : List action} {s : stream}
    (hrun : run step (.start cap) acts = some s) (hdone : s.pc = .done) :
    payload s.rx.buffer = [] ↔ StepsMeet step Drained (.start cap) acts := by
  have hdefect := (defect_eq_iff stream.left_behind
    (fun _ _ _ hs hst => step_spec hs hst) (inv_start cap) hrun).2
  have hstart : (stream.start cap).left_behind = 0 := rfl
  rw [← hdefect, hstart, stream.left_behind, hdone]
  simp [writer_pc.left_loop]

/-- In every run of the producer and the writer, over a channel of any capacity, that
has brought the writer to its end without a failing write: the bytes behind the header
are the encodings of the accepted non-empty chunks, in order, each once, and one
last-chunk, if and only if each `is_open()` test that found the channel closed found no
non-empty chunk left in it. -/
theorem body_iff_drained (cap : ℕ) (acts : List action) (s : stream)
    (hrun : run step (.start cap) acts = some s) (hdone : s.pc = .done)
    (hwrites : ∀ w ∈ s.writes, w.2 = .written) :
    body_of s.writes = payload s.accepted ++ chunk_last
      ↔ StepsMeet step Drained (.start cap) acts := by
  obtain ⟨body, hbody, hpay⟩ := (inv_of_run (inv_start cap) hrun).1.conserves
  -- both sides say that the buffer holds nothing to encode at the end
  rw [← drained_iff hrun hdone, body_of_eq_intended hwrites, hbody, hpay, hdone]
  simp only [writer_pc.trailer, writer_pc.in_hand, payload_nil, List.append_nil]
  rw [List.append_cancel_right_eq]
  exact List.self_eq_append_right

/-- The chunk `a` and an empty one, sent while the writer keeps up: nothing is left in
the channel when it is closed. -/
def kept_up : List action :=
  [.writer .written, .send { chunked_body := ['a'] }, .writer .written, .writer .written,
    .writer .written, .writer .written, .writer .written, .send {}, .writer .written,
    .writer .written, .writer .written, .close, .writer .written, .writer .written,
    .writer .written]

/-- A run that meets the condition. -/
theorem body_iff_drained_kept_up :
    ∃ s, run step (.start 10) kept_up = some s ∧ s.pc = .done
      ∧ (∀ w ∈ s.writes, w.2 = .written)
      ∧ (body_of s.writes = payload s.accepted ++ chunk_last
          ↔ StepsMeet step Drained (.start 10) kept_up) := by
  have hend : (run step (.start 10) kept_up).map
      (fun s => (decide (s.pc = .done), s.writes.all fun w => w.2 = .written))
        = some (true, true) := by
    decide +kernel
  obtain ⟨s, hrun, hs⟩ := Option.map_eq_some_iff.mp hend
  rw [Prod.mk.injEq, decide_eq_true_iff] at hs
  have hwrites : ∀ w ∈ s.writes, w.2 = .written := by simpa using hs.2
  exact ⟨s, hrun, hs.1, hwrites, body_iff_drained 10 kept_up s hrun hs.1 hwrites⟩

/-- A producer that sends one chunk and closes before the writer has tested the channel:
the chunk is accepted, no write fails, and the body is the last-chunk alone. -/
theorem accepted_chunk_dropped :
    (run step (.start 10)
        [.send { chunked_body := ['a'] }, .close, .writer .written, .writer .written,
          .writer .written]).map
        (fun s => (s.pc, s.writes.map Prod.snd, body_of s.writes,
          payload s.accepted ++ chunk_last))
      = some (.done, [.written, .written], "0\r\n\r\n".toList,
          "1\r\na\r\n0\r\n\r\n".toList)
    ∧ "0\r\n\r\n".toList ≠ "1\r\na\r\n0\r\n\r\n".toList := by
  decide +kernel

end CppHttp.StreamWriter
