/-
`response::read_chunked_encoding(tx, yield)`: the chunks of a response, put into the
caller's channel one `http_chunk` each.

The callbacks share one `http_chunk message`. A chunk header overwrites its
extensions, a piece is appended to its body, and at the end of the chunk
`tx.try_send(ec, std::move(message))` is expected to empty it again. It does so only
when the channel takes the message: a refused message stays in the variable, its
chunk is lost and its bytes are glued in front of the next chunk's.

`chunks_iff_room` says exactly when that does not happen: in every state of every
run, the messages in the channel are those of the chunks completed so far if and
only if no chunk of the run ended while the channel was full.
-/
import CppHttp.ChunkReader
import CppHttp.Message

set_option autoImplicit false

namespace CppHttp.ReadChunked

open CppHttp.Channel CppHttp.ChunkReader CppHttp.Message CppHttp.Runs CppHttp.StdString

/-! ## The callbacks -/

/-- What moving out of an `http_chunk` leaves behind: each string empty, and an
engaged `optional` still engaged. -/
def moved_from (message : http_chunk) : http_chunk :=
  { chunked_body := (std_move message.chunked_body).2
    extensions := message.extensions.map fun ext => (std_move ext).2 }

/-- The two lambdas of `read_chunked_encoding`, over the captured `message`.
`message.chunked_body.reserve(size)` changes the capacity only. -/
def read_chunked_encoding : chunk_reader http_chunk http_chunk where
  on_chunk_header _ ext message := { message with extensions := some ext }
  append message body := { message with chunked_body := message.chunked_body ++ body }
  on_chunk_end message := (message, some message)
  on_sent := moved_from
  append_append _ _ _ := by simp only [List.append_assoc]

@[simp] theorem on_chunk_end_eq (message : http_chunk) :
    read_chunked_encoding.on_chunk_end message = (message, some message) := rfl

/-- The message of a chunk: its own body and its own extension text. -/
def message_of (c : wire_chunk) : http_chunk :=
  { chunked_body := c.body, extensions := some c.extensions }

/-- The call ends a chunk. -/
def ends_chunk : callback → Bool
  | .header _ _ => false
  | .body remain piece => remain = piece.length

/-- The chunks of the response whose last callback has been made. -/
def completed (chunks : List wire_chunk) (s : reader http_chunk http_chunk) :
    List wire_chunk :=
  chunks.take (chunks.length - s.todo.countP ends_chunk)

/-! ## One message per chunk -/

/-- Read without loss, the callbacks of the chunks give the chunks' messages: the
move empties the body, and the header replaces the extensions. -/
theorem lossless_eq (message : http_chunk) (h : message.chunked_body = [])
    (chunks : List wire_chunk) :
    lossless read_chunked_encoding message (callbacks_of chunks)
      = chunks.map message_of := by
  induction chunks generalizing message with
  | nil => rfl
  | cons c cs ih =>
      rw [callbacks_of, List.flatMap_cons, lossless_chunk]
      simp only [read_chunked_encoding, h, List.nil_append, List.map_cons, List.cons.injEq]
      exact ⟨rfl, ih _ rfl⟩

/-- Every end of a chunk offers one message, whatever is in the variable. -/
theorem lossless_length (message : http_chunk) (todo : List callback) :
    (lossless read_chunked_encoding message todo).length = todo.countP ends_chunk := by
  induction todo generalizing message with
  | nil => rfl
  | cons c cs ih =>
      cases c with
      | header size ext =>
          rw [lossless, ih]
          simp [ends_chunk]
      | body remain piece =>
          rw [lossless, chunk_reader.on_chunk_body]
          by_cases hlast : remain = piece.length
          · simp [hlast, ends_chunk, ih]
          · simp [hlast, ends_chunk, ih]

/-- The parser's next call offers a message exactly if it ends a chunk. -/
theorem offer_isSome_iff {r : reader http_chunk http_chunk} {c : callback}
    {cs : List callback} (h : r.todo = c :: cs) :
    (r.offer read_chunked_encoding).isSome = ends_chunk c := by
  cases c with
  | header size ext => simp [reader.offer, h, ends_chunk]
  | body remain piece =>
      by_cases hlast : remain = piece.length <;>
        simp [reader.offer, h, ends_chunk, chunk_reader.on_chunk_body, hlast]

/-- The messages offered so far are as many as the chunks completed so far. -/
theorem offered_length {message : http_chunk} {cap : ℕ} {todo : List callback}
    {s : reader http_chunk http_chunk} {acts : List action}
    (hrun : run (step read_chunked_encoding) (.start message cap todo) acts = some s) :
    s.offered.length + s.todo.countP ends_chunk = todo.countP ends_chunk := by
  refine run_invariant
    (I := fun s => s.offered.length + s.todo.countP ends_chunk = todo.countP ends_chunk)
    ?_ (by simp [reader.start]) hrun
  intro r a t hr hst
  rcases step_cases hst with ⟨-, tx, rfl⟩ | ⟨-, hno, ⟨c, hc⟩, ho, -⟩ | ⟨-, m, hm, ⟨c, hc⟩, ho, -⟩
  · exact hr
  · have hend := offer_isSome_iff hc
    rw [hno, Option.isSome_none] at hend
    rw [ho, ← hr, hc, List.countP_cons, ← hend]
    simp
  · have hend := offer_isSome_iff hc
    rw [hm, Option.isSome_some] at hend
    rw [ho, ← hr, hc, List.countP_cons, ← hend]
    simp only [List.length_append, List.length_singleton, if_true]
    omega

/-! ## Exactly when no chunk is lost -/

/-- In every state of every run of `read_chunked_encoding`, whatever the capacity of
the channel and however the consumer's receives fall between the callbacks, the
messages put into the channel are those of the completed chunks, in order, each once
and with its own body and extensions, if and only if no chunk of the run ended while
the channel was full. -/
theorem chunks_iff_room (cap : ℕ) (chunks : List wire_chunk) (acts : List action)
    (s : reader http_chunk http_chunk)
    (hrun : run (step read_chunked_encoding) (.start {} cap (callbacks_of chunks)) acts
      = some s) :
    s.puts = (completed chunks s).map message_of
      ↔ StepsMeet (step read_chunked_encoding) (Room read_chunked_encoding)
          (.start {} cap (callbacks_of chunks)) acts := by
  have hlossless : lossless read_chunked_encoding {} (callbacks_of chunks)
      = chunks.map message_of := lossless_eq {} rfl chunks
  have hends : (callbacks_of chunks).countP ends_chunk = chunks.length := by
    rw [← lossless_length {} (callbacks_of chunks), hlossless, List.length_map]
  have hoffered := offered_length hrun
  rw [hends] at hoffered
  constructor
  · intro h
    -- as many messages were offered as chunks completed: none of them is missing
    rw [← puts_eq_offered_iff hrun]
    have hsub : s.puts.Sublist s.offered := puts_sublist_offered (List.Sublist.refl _) hrun
    refine hsub.eq_of_length ?_
    rw [h, List.length_map, completed, List.length_take]
    omega
  · intro hroom
    have hputs := puts_of_room hroom hrun
    simp only [reader.start, List.nil_append, hlossless] at hputs
    have hlen : s.puts.length = chunks.length - s.todo.countP ends_chunk := by
      have := congrArg List.length hputs
      rw [List.length_append, lossless_length, List.length_map] at this
      omega
    rw [completed, ← hlen, List.map_take, ← hputs, List.take_left]

/-- A run without loss: one chunk in two pieces, and room for it. -/
theorem chunks_iff_room_two_pieces :
    ∃ s, run (step read_chunked_encoding)
        (.start {} 1 (callbacks_of [⟨[], ["he".toList, "llo".toList], by decide, by decide⟩]))
        [.parser, .parser, .parser] = some s
      ∧ (s.puts = (completed [⟨[], ["he".toList, "llo".toList], by decide, by decide⟩] s).map
            message_of
          ↔ StepsMeet (step read_chunked_encoding) (Room read_chunked_encoding)
            (.start {} 1
              (callbacks_of [⟨[], ["he".toList, "llo".toList], by decide, by decide⟩]))
            [.parser, .parser, .parser]) := by
  obtain ⟨s, hs⟩ := Option.isSome_iff_exists.mp (show (run (step read_chunked_encoding)
    (.start {} 1 (callbacks_of [⟨[], ["he".toList, "llo".toList], by decide, by decide⟩]))
    [.parser, .parser, .parser]).isSome from by decide +kernel)
  exact ⟨s, hs, chunks_iff_room 1 _ _ s hs⟩

/-- Three chunks for a response: `a`, `b` with an extension, `c` with another. -/
def three_chunks : List wire_chunk :=
  [.whole [] ['a'] (by decide), .whole ";x=1".toList ['b'] (by decide),
    .whole ";x=2".toList ['c'] (by decide)]

/-- The three chunks into a channel of capacity one, the first receive after the
second chunk: the second chunk is lost, and its body comes out in front of the third
one's, under the third one's extension text. -/
theorem chunk_lost_and_glued :
    (run (step read_chunked_encoding) (.start {} 1 (callbacks_of three_chunks))
        [.parser, .parser, .parser, .parser, .receive, .parser, .parser]).map
        (fun s => (s.todo, s.puts))
      = some ([], [{ chunked_body := ['a'], extensions := some [] },
          { chunked_body := ['b', 'c'], extensions := some ";x=2".toList }])
    ∧ three_chunks.map message_of
      ≠ [{ chunked_body := ['a'], extensions := some [] },
          { chunked_body := ['b', 'c'], extensions := some ";x=2".toList }] := by
  decide +kernel

end CppHttp.ReadChunked
