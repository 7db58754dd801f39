/-
`response::read_chunked_sse`: server-sent events out of a chunked response.

The callbacks share one `std::string block`. A piece is appended to it, and when a
chunk ends with the block ending in `"\n\n"` the *whole* block is parsed as one event;
if it has a field the block is cleared and the event given to `tx.try_send`. So the
code looks for the end of an event at the end of a chunk only, and there only at the
last two characters.

Four results about it.

  * `events_iff_separated`. The events that come out are the events of the stream
    (`decode`) exactly if the chunk boundaries separate them: between any two
    consecutive field-carrying blocks, and behind the last one, some chunk ends right
    behind a blank line. Otherwise events are merged into one, or never come out.
  * `encoded_events_iff_nil`. The bodies that `to_http_chunk` writes hold no blank
    line, so of a stream of encoded events none ever comes out.
  * `sent_iff_room`. The block is cleared before the outcome of `try_send` is known:
    the events that get into the channel are those decoded exactly if none was decoded
    while the channel was full.
  * `retained_iff`. A block that ends with a blank line and has no field is neither
    handed out nor cleared: behind the chunks of a run the block is one that still waits
    for its terminator exactly if no chunk of the run ends such a block.
-/
import CppHttp.ChunkReader
import CppHttp.SseParse

set_option autoImplicit false

namespace CppHttp.ChunkedSse

open CppHttp.ChunkReader CppHttp.Message CppHttp.Runs CppHttp.SseParse CppHttp.StdString

/-! ## The callbacks -/

/-- The two lambdas of `read_chunked_sse`, over the captured `block`.
`block.reserve(size)` changes the capacity only. -/
def read_chunked_sse : chunk_reader std_string server_sent_event where
  on_chunk_header _ _ block := block
  append block body := block ++ body
  on_chunk_end block :=
    if ¬ blank_line.isSuffixOf block then (block, none)
    else
      match parse_sse_block block with
      | none => (block, none)
      | some message => ([], some message)
  on_sent block := block
  append_append _ _ _ := List.append_assoc _ _ _

/-- The block is ready to be handed out: it ends with a blank line, and has a
field. -/
def Flushable (block : std_string) : Prop :=
  blank_line <:+ block ∧ parse_sse_block block ≠ none

theorem flushable_iff {block : std_string} :
    Flushable block ↔ blank_line <:+ block ∧ decode block ≠ [] := by
  unfold Flushable
  constructor
  · rintro ⟨h, hp⟩
    exact ⟨h, fun hd => hp ((decode_eq_nil_iff h).mp hd)⟩
  · rintro ⟨h, hd⟩
    exact ⟨h, fun hp => hd ((decode_eq_nil_iff h).mpr hp)⟩

/-- At the end of a chunk the block stays as it is, unless it is ready. -/
theorem on_chunk_end_of_not_flushable {block : std_string} (h : ¬ Flushable block) :
    read_chunked_sse.on_chunk_end block = (block, none) := by
  simp only [read_chunked_sse]
  by_cases hs : blank_line <:+ block
  · have hp : parse_sse_block block = none := by
      by_contra hp
      exact h ⟨hs, hp⟩
    rw [if_neg (by simpa using hs), hp]
  · rw [if_pos (by simpa using hs)]

theorem on_chunk_end_of_flushable {block : std_string} {message : server_sent_event}
    (hs : blank_line <:+ block) (hp : parse_sse_block block = some message) :
    read_chunked_sse.on_chunk_end block = ([], some message) := by
  simp only [read_chunked_sse]
  rw [if_neg (by simpa using hs), hp]

/-! ## Chunk by chunk -/

/-- The events sent without loss, chunk body by chunk body. -/
def deliver (block : std_string) : List std_string → List server_sent_event
  | [] => []
  | c :: cs =>
      match read_chunked_sse.on_chunk_end (block ++ c) with
      | (block, none) => deliver block cs
      | (block, some message) => message :: deliver block cs

/-- How the bodies are cut into pieces does not matter. -/
theorem lossless_eq_deliver (block : std_string) (chunks : List wire_chunk) :
    lossless read_chunked_sse block (callbacks_of chunks)
      = deliver block (chunks.map wire_chunk.body) := by
  induction chunks generalizing block with
  | nil => rfl
  | cons c cs ih =>
      rw [callbacks_of, List.flatMap_cons, lossless_chunk, List.map_cons, deliver]
      simp only [read_chunked_sse] at ih ⊢
      split <;> simp_all [callbacks_of]

theorem deliver_of_not_flushable {block c : std_string} (h : ¬ Flushable (block ++ c))
    (cs : List std_string) : deliver block (c :: cs) = deliver (block ++ c) cs := by
  rw [deliver, on_chunk_end_of_not_flushable h]

theorem deliver_of_flushable {block c : std_string} {message : server_sent_event}
    (hs : blank_line <:+ block ++ c) (hp : parse_sse_block (block ++ c) = some message)
    (cs : List std_string) : deliver block (c :: cs) = message :: deliver [] cs := by
  rw [deliver, on_chunk_end_of_flushable hs hp]

theorem not_flushable_nil : ¬ Flushable [] := by
  rintro ⟨h, -⟩
  exact absurd h (by decide)

/-- There are never more events handed out than the stream has. -/
theorem deliver_length_le (cs : List std_string) (block : std_string) :
    (deliver block cs).length ≤ (decode (block ++ cs.flatten)).length := by
  induction cs generalizing block with
  | nil => exact Nat.zero_le _
  | cons c cs ih =>
      rw [List.flatten_cons, ← List.append_assoc]
      by_cases h : Flushable (block ++ c)
      · obtain ⟨hs, hp⟩ := h
        obtain ⟨message, hm⟩ := Option.ne_none_iff_exists'.mp hp
        have hpos : 0 < (decode (block ++ c)).length :=
          List.length_pos_iff.mpr (flushable_iff.mp ⟨hs, hp⟩).2
        have ih' := ih []
        rw [List.nil_append] at ih'
        rw [deliver_of_flushable hs hm, decode_append hs, List.length_append,
          List.length_cons]
        omega
      · rw [deliver_of_not_flushable h]
        exact ih _

/-! ## When the chunk boundaries separate the events -/

/-- The chunks, behind the text already in the block, separate the stream's events:
for each event some chunk ends right behind a blank line when that event and those
before it are complete, and the next one is not. -/
def Separated (block : std_string) (cs : List std_string) : Prop :=
  ∀ i, 1 ≤ i → i ≤ (decode (block ++ cs.flatten)).length →
    ∃ k, (decode (block ++ (cs.take k).flatten)).length = i
      ∧ blank_line <:+ block ++ (cs.take k).flatten

/-- A text with an event is at least as long as a terminator. -/
theorem two_le_of_decode {text : std_string} (h : decode text ≠ []) : 2 ≤ text.length := by
  by_contra hlt
  apply h
  cases hf : find blank_line text with
  | none => rw [decode, sse_blocks_of_none hf]; rfl
  | some i =>
      have := find_add_le hf
      simp only [blank_line, String.reduceToList, List.length_cons, List.length_nil] at this
      omega

/-- A blank line at the end of a long enough suffix is one of the suffix. -/
theorem blank_suffix_append {pre text : std_string} (h : 2 ≤ text.length) :
    blank_line <:+ pre ++ text ↔ blank_line <:+ text := by
  constructor
  · intro hs
    exact List.suffix_of_suffix_length_le hs (List.suffix_append pre text) h
  · intro hs
    exact hs.trans (List.suffix_append pre text)

theorem separated_cons {block c : std_string} {cs : List std_string} (h : ¬ Flushable block) :
    Separated block (c :: cs) ↔ Separated (block ++ c) cs := by
  unfold Separated
  rw [List.flatten_cons, ← List.append_assoc]
  constructor
  · intro hsep i hi hle
    obtain ⟨k, hk, hs⟩ := hsep i hi hle
    cases k with
    | zero =>
        -- nothing of the stream read yet: the block itself would be ready
        exfalso
        simp only [List.take_zero, List.flatten_nil, List.append_nil] at hk hs
        refine h (flushable_iff.mpr ⟨hs, ?_⟩)
        intro hd
        rw [hd] at hk
        simp at hk
        omega
    | succ k =>
        refine ⟨k, ?_, ?_⟩
        · simpa using hk
        · simpa using hs
  · intro hsep i hi hle
    obtain ⟨k, hk, hs⟩ := hsep i hi hle
    refine ⟨k + 1, ?_, ?_⟩
    · simpa using hk
    · simpa using hs

/-- Behind a block with one event, which ends with a blank line, the rest of the
stream has to be separated by itself. -/
theorem separated_of_one {block : std_string} {cs : List std_string}
    (hs : blank_line <:+ block) (hone : (decode block).length = 1) :
    Separated block cs ↔ Separated [] cs := by
  unfold Separated
  simp only [decode_append hs, List.length_append, hone, List.nil_append]
  constructor
  · intro hsep i hi hle
    obtain ⟨k, hk, hb⟩ := hsep (i + 1) (by omega) (by omega)
    have hki : (decode (cs.take k).flatten).length = i := by omega
    refine ⟨k, hki, ?_⟩
    have hne : decode (cs.take k).flatten ≠ [] := by
      intro hd
      rw [hd] at hki
      simp at hki
      omega
    exact (blank_suffix_append (two_le_of_decode hne)).mp hb
  · intro hsep i hi hle
    rcases Nat.eq_or_lt_of_le hi with rfl | hlt
    · exact ⟨0, by simp [decode, sse_blocks_of_none (show find blank_line [] = none from rfl)],
        by simpa using hs⟩
    · obtain ⟨k, hk, hb⟩ := hsep (i - 1) (by omega) (by omega)
      exact ⟨k, by omega, hb.trans (List.suffix_append _ _)⟩

/-- The events handed out are those of the stream exactly if the chunks separate
them. The induction is on the chunks, and its invariant is that the block is not
ready: a ready block is handed out at once. -/
theorem deliver_eq_decode_iff (cs : List std_string) {block : std_string}
    (h : ¬ Flushable block) :
    deliver block cs = decode (block ++ cs.flatten) ↔ Separated block cs := by
  induction cs generalizing block with
  | nil =>
      -- no chunk is left to flush the block: it must not hold an event
      simp only [deliver, List.flatten_nil, List.append_nil, Separated, List.take_nil]
      constructor
      · intro hd i hi hle
        rw [← hd] at hle
        simp at hle
        omega
      · intro hsep
        by_contra hd
        have hpos := List.length_pos_iff.mpr (Ne.symm hd)
        obtain ⟨k, -, hs⟩ := hsep 1 (Nat.le_refl _) hpos
        exact h (flushable_iff.mpr ⟨hs, Ne.symm hd⟩)
  | cons c cs ih =>
      rw [separated_cons h, List.flatten_cons, ← List.append_assoc]
      by_cases hf : Flushable (block ++ c)
      · obtain ⟨hs, hp⟩ := hf
        obtain ⟨message, hm⟩ := Option.ne_none_iff_exists'.mp hp
        have hne := (flushable_iff.mp ⟨hs, hp⟩).2
        rw [deliver_of_flushable hs hm]
        by_cases hone : (decode (block ++ c)).length = 1
        · -- the block holds one event: it is the one handed out
          rw [separated_of_one hs hone, ← ih not_flushable_nil, List.nil_append]
          obtain ⟨e, he⟩ := List.length_eq_one_iff.mp hone
          have := parse_of_decode_singleton hs he
          rw [hm, Option.some.injEq] at this
          subst this
          rw [decode_append hs, he, List.singleton_append, List.cons.injEq]
          exact and_iff_right rfl
        · -- it holds more than one: they are merged, and no boundary separates them
          have htwo : 2 ≤ (decode (block ++ c)).length := by
            have := List.length_pos_iff.mpr hne
            omega
          -- the rest delivers at most its own events, so the missing ones stay missing
          have hle := deliver_length_le cs []
          rw [List.nil_append] at hle
          rw [decode_append hs]
          constructor
          · intro heq
            have := congrArg List.length heq
            rw [List.length_cons, List.length_append] at this
            omega
          · intro hsep
            exfalso
            rw [Separated, decode_append hs, List.length_append] at hsep
            obtain ⟨k, hk, -⟩ := hsep 1 (Nat.le_refl _) (by omega)
            rw [decode_append hs, List.length_append] at hk
            omega
      · rw [deliver_of_not_flushable hf]
        exact ih hf

/-! ## The events of a stream -/

/-- Read with room for every event, `read_chunked_sse` delivers the events of the
stream, for whatever text and whatever pieces its chunks arrive in, exactly if the
chunks separate the events. -/
theorem events_iff_separated (cap : ℕ) (chunks : List wire_chunk) :
    (∀ acts s, run (step read_chunked_sse) (.start [] cap (callbacks_of chunks)) acts = some s →
        StepsMeet (step read_chunked_sse) (Room read_chunked_sse)
          (.start [] cap (callbacks_of chunks)) acts →
        s.todo = [] → s.puts = decode (chunks.map wire_chunk.body).flatten)
      ↔ Separated [] (chunks.map wire_chunk.body) := by
  rw [← deliver_eq_decode_iff _ not_flushable_nil, List.nil_append]
  -- all runs with room deliver the same events
  have hputs : ∀ acts s,
      run (step read_chunked_sse) (.start [] cap (callbacks_of chunks)) acts = some s →
      StepsMeet (step read_chunked_sse) (Room read_chunked_sse)
        (.start [] cap (callbacks_of chunks)) acts →
      s.todo = [] → s.puts = deliver [] (chunks.map wire_chunk.body) := by
    intro acts s hrun hroom hdone
    have h := puts_of_room hroom hrun
    rw [hdone, lossless, List.append_nil] at h
    rw [h, reader.start, List.nil_append]
    exact lossless_eq_deliver [] chunks
  constructor
  · intro h
    -- and there is a run with room to look at, so the left side is not vacuous
    obtain ⟨acts, s, hrun, hroom, hdone⟩ :=
      @exists_run_with_room _ _ read_chunked_sse [] cap (callbacks_of chunks)
    rw [← hputs acts s hrun hroom hdone]
    exact h acts s hrun hroom hdone
  · intro h acts s hrun hroom hdone
    rw [hputs acts s hrun hroom hdone]
    exact h

/-- Two events in one chunk. -/
def two_events : wire_chunk := .whole [] "data: a\n\ndata: b\n\n".toList (by decide)

/-- Two events that arrive in one chunk come out as one, with both values in it. -/
theorem two_events_merged :
    (run (step read_chunked_sse) (.start [] 2 (callbacks_of [two_events]))
        [.parser, .parser]).map (fun s => (s.todo, s.puts))
      = some ([], [{ data := some "a\nb".toList }])
    ∧ StepsMeet (step read_chunked_sse) (Room read_chunked_sse)
        (.start [] 2 (callbacks_of [two_events])) [.parser, .parser]
    ∧ decode two_events.body = [{ data := some "a".toList }, { data := some "b".toList }] := by
  rw [decode_eq_dispatch]
  decide +kernel

/-! ## Encoded events -/

/-- Bodies that end with one terminator and no blank line never make the block
ready. -/
theorem deliver_of_oneTerminator {cs : List std_string} (h : ∀ c ∈ cs, OneTerminator c)
    (block : std_string) : deliver block cs = [] := by
  induction cs generalizing block with
  | nil => rfl
  | cons c cs ih =>
      have hc : OneTerminator (block ++ c) := (h c (by simp)).append_left block
      rw [deliver_of_not_flushable (fun hf => hc.not_blank hf.1)]
      exact ih (fun c' hc' => h c' (by simp [hc'])) _

/-- The events are put into the channel one by one, each as soon as its chunk is
complete: in every run with room, when `k` chunks have been read, the channel has
taken the first `k` events. -/
def DeliversEach (cap : ℕ) (es : List server_sent_event) (chunks : List wire_chunk) : Prop :=
  ∀ acts s k, run (step read_chunked_sse) (.start [] cap (callbacks_of chunks)) acts = some s →
    StepsMeet (step read_chunked_sse) (Room read_chunked_sse)
      (.start [] cap (callbacks_of chunks)) acts →
    k ≤ chunks.length → s.todo = callbacks_of (chunks.drop k) → s.puts = es.take k

/-- Events without line breaks, each encoded by `to_http_chunk` and sent as one chunk,
come out one by one exactly if there are none: the encoder writes no blank line, so
the reader never sees the end of an event. -/
theorem encoded_events_iff_nil (cap : ℕ) (es : List server_sent_event)
    (chunks : List wire_chunk) (hes : ∀ e ∈ es, e.valid = true ∧ e.SingleLine)
    (hchunks : chunks.map wire_chunk.body = es.map fun e => e.to_http_chunk.chunked_body) :
    DeliversEach cap es chunks ↔ es = [] := by
  have hone : ∀ c ∈ chunks.map wire_chunk.body, OneTerminator c := by
    rw [hchunks]
    intro c hc
    obtain ⟨e, he, rfl⟩ := List.mem_map.mp hc
    exact to_http_chunk_no_blank (hes e he).1 (hes e he).2
  have hnone : lossless read_chunked_sse [] (callbacks_of chunks) = [] := by
    rw [lossless_eq_deliver]
    exact deliver_of_oneTerminator hone []
  have hputs : ∀ acts s,
      run (step read_chunked_sse) (.start [] cap (callbacks_of chunks)) acts = some s →
      StepsMeet (step read_chunked_sse) (Room read_chunked_sse)
        (.start [] cap (callbacks_of chunks)) acts → s.puts = [] := by
    intro acts s hrun hroom
    have h := puts_of_room hroom hrun
    rw [reader.start, hnone] at h
    exact (List.append_eq_nil_iff.mp h).1
  constructor
  · intro h
    obtain ⟨acts, s, hrun, hroom, hdone⟩ :=
      @exists_run_with_room _ _ read_chunked_sse [] cap (callbacks_of chunks)
    have hk := h acts s chunks.length hrun hroom (Nat.le_refl _)
      (by rw [hdone, List.drop_length]; rfl)
    have hlen : chunks.length = es.length := by
      simpa using congrArg List.length hchunks
    rw [hputs acts s hrun hroom, hlen, List.take_length] at hk
    exact hk.symm
  · intro h acts s k hrun hroom _ _
    rw [hputs acts s hrun hroom, h, List.take_nil]

/-- The hypotheses hold of one event sent as one chunk, in two pieces. -/
theorem encoded_events_iff_nil_one_event :
    DeliversEach 10 [{ data := some "hi".toList }]
        [⟨[], ["data: ".toList, "hi\n".toList], by decide, by decide⟩]
      ↔ [({ data := some "hi".toList } : server_sent_event)] = [] :=
  encoded_events_iff_nil 10 _ _ (by decide) (by decide)

/-- One event, encoded and sent as one chunk: when the chunk is complete the channel
is still empty. -/
theorem encoded_event_not_delivered :
    (run (step read_chunked_sse)
        (.start [] 10 (callbacks_of [.whole []
          ({ data := some "hi".toList } : server_sent_event).to_http_chunk.chunked_body
          (by decide)]))
        [.parser, .parser]).map (fun s => (s.todo, s.puts)) = some ([], [])
    ∧ ({ data := some "hi".toList } : server_sent_event).valid = true
    ∧ ({ data := some "hi".toList } : server_sent_event).SingleLine
    ∧ StepsMeet (step read_chunked_sse) (Room read_chunked_sse)
        (.start [] 10 (callbacks_of [.whole []
          ({ data := some "hi".toList } : server_sent_event).to_http_chunk.chunked_body
          (by decide)]))
        [.parser, .parser] := by
  decide +kernel

/-! ## Slow consumers -/

/-- In every state of every run of `read_chunked_sse`, whatever the capacity of the
channel and however the consumer's receives fall between the callbacks, the events
put into the channel and those still to be decoded are together all the events the
reader decodes, in order and each once, if and only if no event of the run was
decoded while the channel was full. -/
theorem sent_iff_room (cap : ℕ) (chunks : List wire_chunk) (acts : List action)
    (s : reader std_string server_sent_event)
    (hrun : run (step read_chunked_sse) (.start [] cap (callbacks_of chunks)) acts = some s) :
    s.puts ++ lossless read_chunked_sse s.acc s.todo
        = deliver [] (chunks.map wire_chunk.body)
      ↔ StepsMeet (step read_chunked_sse) (Room read_chunked_sse)
          (.start [] cap (callbacks_of chunks)) acts := by
  rw [← puts_eq_offered_iff hrun, ← lossless_eq_deliver]
  have hoff := offered_of_on_sent_id (fun _ => rfl) hrun
  rw [reader.start, List.nil_append] at hoff
  rw [← hoff]
  exact List.append_left_inj _

/-- Two chunks with an event each. -/
def two_event_chunks : List wire_chunk :=
  [.whole [] "data: a\n\n".toList (by decide), .whole [] "data: b\n\n".toList (by decide)]

/-- With room for both there is a run that delivers both. -/
theorem sent_iff_room_two_events :
    ∃ s, run (step read_chunked_sse) (.start [] 2 (callbacks_of two_event_chunks))
        [.parser, .parser, .parser, .parser] = some s
      ∧ (s.puts ++ lossless read_chunked_sse s.acc s.todo
          = deliver [] (two_event_chunks.map wire_chunk.body)
        ↔ StepsMeet (step read_chunked_sse) (Room read_chunked_sse)
          (.start [] 2 (callbacks_of two_event_chunks))
          [.parser, .parser, .parser, .parser]) := by
  obtain ⟨s, hs⟩ := Option.isSome_iff_exists.mp (show (run (step read_chunked_sse)
    (.start [] 2 (callbacks_of two_event_chunks))
    [.parser, .parser, .parser, .parser]).isSome from by decide +kernel)
  exact ⟨s, hs, sent_iff_room 2 _ _ s hs⟩

/-- With room for one and a consumer that has not asked yet, the second event is
decoded and lost. -/
theorem second_event_lost :
    (run (step read_chunked_sse) (.start [] 1 (callbacks_of two_event_chunks))
        [.parser, .parser, .parser, .parser]).map (fun s => (s.todo, s.offered, s.puts))
      = some ([], [{ data := some "a".toList }, { data := some "b".toList }],
          [{ data := some "a".toList }])
    ∧ deliver [] (two_event_chunks.map wire_chunk.body)
      = [{ data := some "a".toList }, { data := some "b".toList }] := by
  decide +kernel

/-! ## What is retained -/

/-- Between two chunks: no chunk has been begun that is not complete. -/
def BetweenChunks (chunks : List wire_chunk) (s : reader std_string server_sent_event) :
    Prop :=
  ∃ k, s.todo = callbacks_of (chunks.drop k)

/-- Between two chunks the block does not end with a blank line: it is one that still
waits for its terminator. -/
def AwaitsTerminator (chunks : List wire_chunk)
    (s : reader std_string server_sent_event) : Prop :=
  BetweenChunks chunks s → ¬ blank_line <:+ s.acc

/-- The step does not end a chunk at a blank line with no field in the block. -/
def NoSilentBlock (s : reader std_string server_sent_event) (a : action) : Prop :=
  a = .parser → ∀ remain piece cs, s.todo = .body remain piece :: cs →
    remain = piece.length → blank_line <:+ s.acc ++ piece →
      parse_sse_block (s.acc ++ piece) ≠ none

/-- The calls still to be made are the rest of a chunk's body and the chunks behind
it. -/
def Within (chunks : List wire_chunk) (s : reader std_string server_sent_event) : Prop :=
  ∃ pieces k, (∀ p ∈ pieces, p ≠ [])
    ∧ s.todo = body_calls pieces ++ callbacks_of (chunks.drop k)

/-- A body call is never the first of a chunk. -/
theorem callbacks_ne_body (chunks : List wire_chunk) (remain : ℕ) (piece : std_string)
    (cs : List callback) : callbacks_of chunks ≠ .body remain piece :: cs := by
  cases chunks with
  | nil => simp [callbacks_of]
  | cons c chunks => simp [callbacks_of, wire_chunk.callbacks]

theorem betweenChunks_iff {chunks : List wire_chunk} {s : reader std_string server_sent_event}
    {pieces : List std_string} {k : ℕ}
    (h : s.todo = body_calls pieces ++ callbacks_of (chunks.drop k)) :
    BetweenChunks chunks s ↔ pieces = [] := by
  constructor
  · rintro ⟨j, hj⟩
    cases pieces with
    | nil => rfl
    | cons p ps =>
        rw [h] at hj
        exact absurd hj.symm (callbacks_ne_body _ _ _ _)
  · rintro rfl
    exact ⟨k, h⟩

/-- What a step of the parser must not do, where the next call is that of a piece. -/
theorem noSilentBlock_iff {s : reader std_string server_sent_event} {remain : ℕ}
    {piece : std_string} {cs : List callback} (h : s.todo = .body remain piece :: cs) :
    NoSilentBlock s .parser ↔ (remain = piece.length → blank_line <:+ s.acc ++ piece →
      parse_sse_block (s.acc ++ piece) ≠ none) := by
  constructor
  · intro hno
    exact hno rfl remain piece cs h
  · intro hno _ remain' piece' cs' hbody
    rw [h] at hbody
    obtain ⟨hhead, -⟩ := List.cons.inj hbody
    cases hhead
    exact hno

/-- The block behind the end of a chunk ends with a blank line exactly if nothing was
handed out of a block that ended with one. -/
theorem retained_ends_blank_iff (block : std_string) :
    blank_line <:+ (read_chunked_sse.on_chunk_end block).1
      ↔ blank_line <:+ block ∧ parse_sse_block block = none := by
  by_cases h : Flushable block
  · obtain ⟨message, hm⟩ := Option.ne_none_iff_exists'.mp h.2
    rw [on_chunk_end_of_flushable h.1 hm, hm]
    simp [blank_line]
  · rw [on_chunk_end_of_not_flushable h]
    refine ⟨fun hs => ⟨hs, ?_⟩, fun hs => hs.1⟩
    by_contra hp
    exact h ⟨hs, hp⟩

/-- What one step does to the block. A receive leaves it alone, a header and a piece that
is not the last of its chunk lead to states inside a chunk, and the last piece ends the
chunk. -/
theorem retained_step {chunks : List wire_chunk} {s t : reader std_string server_sent_event}
    {a : action} (hs : Within chunks s) (hst : step read_chunked_sse s a = some t) :
    Within chunks t
      ∧ (AwaitsTerminator chunks s → (AwaitsTerminator chunks t ↔ NoSilentBlock s a)) := by
  obtain ⟨pieces, k, hp, htodo⟩ := hs
  cases a with
  | receive =>
      obtain rfl := Option.some.inj hst
      exact ⟨⟨pieces, k, hp, htodo⟩, fun hq => iff_of_true hq (fun ha => by cases ha)⟩
  | parser =>
      cases pieces with
      | nil =>
          -- between two chunks: the next call is a header
          cases hdrop : chunks.drop k with
          | nil =>
              rw [hdrop] at htodo
              simp [step, htodo, body_calls, callbacks_of] at hst
          | cons c cs =>
              have hcs : cs = chunks.drop (k + 1) := by
                rw [← List.drop_drop, hdrop]
                rfl
              have hcall : s.todo = .header c.body.length c.extensions
                  :: (body_calls c.pieces ++ callbacks_of (chunks.drop (k + 1))) := by
                rw [htodo, hdrop, ← hcs]
                rfl
              simp only [step, hcall, Option.some.injEq] at hst
              subst hst
              refine ⟨⟨c.pieces, k + 1, c.piece_ne, rfl⟩, fun _ => iff_of_true ?_ ?_⟩
              · intro hbetween
                exact absurd ((betweenChunks_iff rfl).mp hbetween) c.pieces_ne
              · intro _ remain piece cs' hbody
                rw [hcall] at hbody
                cases hbody
      | cons p ps =>
          have hps : ∀ q ∈ ps, q ≠ [] := fun q hq => hp q (List.mem_cons_of_mem p hq)
          have hlast := last_piece_iff (p := p) hps
          have hcall : s.todo = .body (p :: ps).flatten.length p
              :: (body_calls ps ++ callbacks_of (chunks.drop k)) := htodo
          -- the call changes the block as the end of the chunk does, or appends to it
          obtain ⟨hnext, hacc⟩ : t.todo = body_calls ps ++ callbacks_of (chunks.drop k)
              ∧ (ps = [] → t.acc = (read_chunked_sse.on_chunk_end (s.acc ++ p)).1) := by
            obtain ⟨hnext, hacc⟩ := step_body hcall hst
            refine ⟨hnext, fun hend => ?_⟩
            rw [chunk_reader.on_chunk_body, if_pos (hlast.mpr hend)] at hacc
            exact hacc.elim id id
          refine ⟨⟨ps, k, hps, hnext⟩, fun _ => ?_⟩
          rw [noSilentBlock_iff hcall, hlast, AwaitsTerminator, betweenChunks_iff hnext]
          refine forall_congr' fun hend => ?_
          rw [hacc hend, retained_ends_blank_iff, not_and]

/-- In every run of `read_chunked_sse`, on every stream and however its chunks arrive,
the block behind a complete chunk never ends with a blank line, in any state the run goes
through, if and only if no chunk of the run ends the block with a blank line while the
block has no field. -/
theorem retained_iff (cap : ℕ) (chunks : List wire_chunk) (acts : List action)
    (s : reader std_string server_sent_event)
    (hrun : run (step read_chunked_sse) (.start [] cap (callbacks_of chunks)) acts = some s) :
    Throughout (step read_chunked_sse) (AwaitsTerminator chunks)
        (.start [] cap (callbacks_of chunks)) acts
      ↔ StepsMeet (step read_chunked_sse) NoSilentBlock
          (.start [] cap (callbacks_of chunks)) acts := by
  refine throughout_iff (I := Within chunks) (fun _ _ _ hs hst => retained_step hs hst)
    ⟨[], 0, by simp, rfl⟩ ?_ hrun
  intro _ hblank
  have hlen : 2 ≤ 0 := hblank.length_le
  omega

/-- An event in one chunk: the run exists, and its block is empty behind the chunk. -/
theorem retained_iff_one_event :
    ∃ s, run (step read_chunked_sse) (.start [] 1 (callbacks_of (two_event_chunks.take 1)))
        [.parser, .parser] = some s
      ∧ (Throughout (step read_chunked_sse) (AwaitsTerminator (two_event_chunks.take 1))
          (.start [] 1 (callbacks_of (two_event_chunks.take 1))) [.parser, .parser]
        ↔ StepsMeet (step read_chunked_sse) NoSilentBlock
          (.start [] 1 (callbacks_of (two_event_chunks.take 1))) [.parser, .parser]) := by
  obtain ⟨s, hs⟩ := Option.isSome_iff_exists.mp (show (run (step read_chunked_sse)
    (.start [] 1 (callbacks_of (two_event_chunks.take 1))) [.parser, .parser]).isSome
      from by decide +kernel)
  exact ⟨s, hs, retained_iff 1 _ _ s hs⟩

/-- Two comment blocks, a chunk each. -/
def heartbeat_chunks : List wire_chunk :=
  [.whole [] ": ping\n\n".toList (by decide), .whole [] ": ping\n\n".toList (by decide)]

/-- Both are still in the block when their chunks are complete. -/
theorem heartbeats_accumulate :
    ¬ Throughout (step read_chunked_sse) (AwaitsTerminator heartbeat_chunks)
        (.start [] 1 (callbacks_of heartbeat_chunks)) [.parser, .parser, .parser, .parser]
      ∧ (run (step read_chunked_sse) (.start [] 1 (callbacks_of heartbeat_chunks))
          [.parser, .parser, .parser, .parser]).map (fun s => (s.todo, s.acc))
        = some ([], ": ping\n\n: ping\n\n".toList) := by
  have hend : (run (step read_chunked_sse) (.start [] 1 (callbacks_of heartbeat_chunks))
      [.parser, .parser, .parser, .parser]).map (fun s => (s.todo, s.acc))
        = some ([], ": ping\n\n: ping\n\n".toList) := by
    decide +kernel
  refine ⟨fun h => ?_, hend⟩
  obtain ⟨s, hrun, hs⟩ := Option.map_eq_some_iff.mp hend
  obtain ⟨htodo, hacc⟩ := Prod.mk.inj hs
  have hwaits := h _ (List.prefix_refl _) s hrun
  refine hwaits ⟨2, htodo⟩ ?_
  rw [hacc]
  decide

end CppHttp.ChunkedSse
