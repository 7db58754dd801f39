/-
Event streams whose lines end in `"\r\n"` instead of `"\n"`.

The end of a line is recognised in three places of `include/client/response.hpp`: by the
delimiter of `read_sse`, by the test `ends_with("\n\n")` of `read_chunked_sse`, and by
the line splitter of `parse_sse_block`. The splitter takes both endings: it strips a
`'\r'`, and a block means the same with either (`parse_sse_block_crlf`). The other two
look for two line feeds in a row, and with a `'\r'` in front of every line feed there
are none (`crlf_no_blank`). So no event of such a stream is ever delivered, and
`same_events_iff` says that the ending makes no difference exactly to the streams of
which nothing is delivered anyway.
-/
import CppHttp.ChunkedSse
import CppHttp.ReadSse
import CppHttp.SseLines

set_option autoImplicit false

namespace CppHttp.LineEndings

open CppHttp.ChunkReader CppHttp.ChunkedSse CppHttp.Message CppHttp.ReadSse CppHttp.Runs
  CppHttp.SseLines CppHttp.SseParse CppHttp.StdString

/-! ## Replacing the terminators -/

/-- The text with `"\r\n"` in place of every `"\n"`. -/
def crlf : std_string → std_string
  | [] => []
  | c :: s => if c = '\n' then '\r' :: '\n' :: crlf s else c :: crlf s

/-- No line feed is the first character, and none follows another one. -/
theorem crlf_no_blank (text : std_string) :
    (∀ rest, crlf text ≠ '\n' :: rest) ∧ ¬ blank_line <:+: crlf text := by
  induction text with
  | nil => exact ⟨by simp [crlf], by decide⟩
  | cons c s ih =>
      obtain ⟨hfirst, hblank⟩ := ih
      by_cases hc : c = '\n'
      · rw [crlf, if_pos hc]
        refine ⟨by simp, ?_⟩
        rintro ⟨pre, rest, heq⟩
        -- the occurrence starts at the '\r', at the line feed behind it, or later
        cases pre with
        | nil => simp [blank_line] at heq
        | cons d pre =>
            cases pre with
            | nil =>
                simp only [blank_line, String.reduceToList, List.cons_append, List.nil_append,
                  List.cons.injEq, true_and] at heq
                exact hfirst rest heq.2.symm
            | cons d' pre =>
                simp only [List.cons_append, List.cons.injEq] at heq
                exact hblank ⟨pre, rest, heq.2.2⟩
      · rw [crlf, if_neg hc]
        refine ⟨by simp [hc], ?_⟩
        rintro ⟨pre, rest, heq⟩
        cases pre with
        | nil =>
            simp only [blank_line, String.reduceToList, List.cons_append, List.nil_append,
              List.cons.injEq] at heq
            exact hc heq.1.symm
        | cons d pre =>
            simp only [List.cons_append, List.cons.injEq] at heq
            exact hblank ⟨pre, rest, heq.2⟩

/-- So the delimiter of `read_sse` is not found. -/
theorem sse_blocks_crlf (text : std_string) : sse_blocks (crlf text) = [] := by
  cases hf : find blank_line (crlf text) with
  | none => exact sse_blocks_of_none hf
  | some i =>
      obtain ⟨pre, rest, hsplit, -⟩ := find_split hf
      exact absurd ⟨pre, rest, by rw [hsplit, List.append_assoc]⟩ (crlf_no_blank text).2

/-- And nothing is handed out of chunks, wherever they are cut. -/
theorem deliver_of_no_blank (cs : List std_string) (block : std_string)
    (h : ¬ blank_line <:+: block ++ cs.flatten) : deliver block cs = [] := by
  induction cs generalizing block with
  | nil => rfl
  | cons c cs ih =>
      rw [List.flatten_cons, ← List.append_assoc] at h
      have hno : ¬ Flushable (block ++ c) := by
        rintro ⟨⟨pre, heq⟩, -⟩
        exact h ⟨pre, cs.flatten, by rw [heq]⟩
      rw [deliver_of_not_flushable hno]
      exact ih _ h

/-! ## The line splitter -/

theorem crlf_append (s t : std_string) : crlf (s ++ t) = crlf s ++ crlf t := by
  induction s with
  | nil => rfl
  | cons c s ih =>
      rw [List.cons_append, crlf, crlf, ih]
      by_cases hc : c = '\n'
      · rw [if_pos hc, if_pos hc]
        rfl
      · rw [if_neg hc, if_neg hc]
        rfl

theorem crlf_of_notMem {s : std_string} (h : '\n' ∉ s) : crlf s = s := by
  induction s with
  | nil => rfl
  | cons c s ih =>
      rw [List.mem_cons, not_or] at h
      rw [crlf, if_neg (Ne.symm h.1), ih h.2]

/-- The same lines, with the other terminator. -/
theorem crlf_block_of (lines : List text_line) (last : Option text_line) :
    crlf (block_of (lines.map fun l => (l, .lf)) last)
      = block_of (lines.map fun l => (l, .crlf)) last := by
  unfold block_of
  rw [crlf_append]
  congr 1
  · induction lines with
    | nil => rfl
    | cons l lines ih =>
        rw [List.map_cons, List.flatMap_cons, crlf_append, ih, crlf_append,
          crlf_of_notMem l.no_newline]
        rfl
  · cases last with
    | none => rfl
    | some l => exact crlf_of_notMem l.no_newline

/-- The splitter takes both endings: a block parses to the same message with either. -/
theorem parse_sse_block_crlf (lines : List text_line) (last : Option text_line) :
    parse_sse_block (crlf (block_of (lines.map fun l => (l, .lf)) last))
      = parse_sse_block (block_of (lines.map fun l => (l, .lf)) last) := by
  have htexts : texts (lines.map fun l => (l, terminator.crlf)) last
      = texts (lines.map fun l => (l, terminator.lf)) last := by
    simp [texts]
  rw [crlf_block_of, parse_sse_block_described, parse_sse_block_described, described_block_of,
    described_block_of, htexts]

/-! ## A response that carries a stream -/

/-- How the stream comes to `read_sse`: in reads up to the end of the connection, or in
chunks and into a channel of some capacity. -/
inductive framing
  | eof_delimited (reads : List std_string)
  | chunked (cap : ℕ) (chunks : List wire_chunk)

/-- The response carries the text, and each of its chunks ends at the end of an event,
that is, behind two terminators. -/
def framing.Carries (eol text : std_string) : framing → Prop
  | .eof_delimited reads => reads.flatten = text
  | .chunked _ chunks =>
      (chunks.map wire_chunk.body).flatten = text ∧ ∀ c ∈ chunks, eol ++ eol <:+ c.body

/-- The events that `read_sse` delivers to a receiver that always has room. -/
def framing.Delivers : framing → List server_sent_event → Prop
  | .eof_delimited reads, es =>
      Settles (iteration fun _ => none) (fun s => s.sent) (.start reads .eof) es
  | .chunked cap chunks, es =>
      ∀ acts s, run (step read_chunked_sse) (.start [] cap (callbacks_of chunks)) acts = some s →
        StepsMeet (step read_chunked_sse) (Room read_chunked_sse)
          (.start [] cap (callbacks_of chunks)) acts →
        s.todo = [] → s.puts = es

/-- Nothing is delivered: a stream up to the end of the connection has no block or one
without a field in front, and a chunked one has only such blocks. -/
def framing.Silent (text : std_string) : framing → Prop
  | .eof_delimited _ => ∀ b ∈ (sse_blocks text).head?, parse_sse_block b = none
  | .chunked _ _ => ∀ b ∈ sse_blocks text, parse_sse_block b = none

/-- The delivered events as a function of the response. -/
def framing.delivered : framing → List server_sent_event
  | .eof_delimited reads => leading_events (sse_blocks reads.flatten)
  | .chunked _ chunks => deliver [] (chunks.map wire_chunk.body)

theorem framing.delivers_iff (f : framing) (es : List server_sent_event) :
    f.Delivers es ↔ es = f.delivered := by
  cases f with
  | eof_delimited reads =>
      have hsettles := settles (running_start reads)
      rw [unread_start, sse_loop.start, List.nil_append] at hsettles
      constructor
      · intro h
        exact settles_unique h hsettles
      · rintro rfl
        exact hsettles
  | chunked cap chunks =>
      have hputs : ∀ acts s,
          run (step read_chunked_sse) (.start [] cap (callbacks_of chunks)) acts = some s →
          StepsMeet (step read_chunked_sse) (Room read_chunked_sse)
            (.start [] cap (callbacks_of chunks)) acts →
          s.todo = [] → s.puts = deliver [] (chunks.map wire_chunk.body) := by
        intro acts s hrun hroom hdone
        have h := puts_of_room hroom hrun
        rw [hdone, lossless, List.append_nil, reader.start, List.nil_append,
          lossless_eq_deliver] at h
        exact h
      constructor
      · intro h
        -- there is a run with room, and it delivers what all of them do
        obtain ⟨acts, s, hrun, hroom, hdone⟩ :=
          @exists_run_with_room _ _ read_chunked_sse [] cap (callbacks_of chunks)
        rw [← h acts s hrun hroom hdone]
        exact hputs acts s hrun hroom hdone
      · rintro rfl acts s hrun hroom hdone
        exact hputs acts s hrun hroom hdone

/-! ## What is delivered -/

theorem leading_events_eq_nil_iff (blocks : List std_string) :
    leading_events blocks = [] ↔ ∀ b ∈ blocks.head?, parse_sse_block b = none := by
  cases blocks with
  | nil => simp [leading_events]
  | cons b bs => cases hp : parse_sse_block b <;> simp [leading_events, hp]

theorem decode_eq_nil_iff_blocks (text : std_string) :
    decode text = [] ↔ ∀ b ∈ sse_blocks text, parse_sse_block b = none := by
  rw [decode, List.filterMap_eq_nil_iff]

/-- Chunks that end with a blank line: nothing is handed out exactly if there is no event
in them. The block is one of which nothing was handed out. -/
theorem deliver_eq_nil_iff (cs : List std_string) (h : ∀ c ∈ cs, blank_line <:+ c)
    (block : std_string) (hblock : decode block = []) :
    deliver block cs = [] ↔ decode (block ++ cs.flatten) = [] := by
  induction cs generalizing block with
  | nil => simp [deliver, hblock]
  | cons c cs ih =>
      have hs : blank_line <:+ block ++ c :=
        (h c List.mem_cons_self).trans (List.suffix_append block c)
      rw [List.flatten_cons, ← List.append_assoc]
      by_cases hd : decode (block ++ c) = []
      · have hno : ¬ Flushable (block ++ c) := fun hf => (flushable_iff.mp hf).2 hd
        rw [deliver_of_not_flushable hno]
        exact ih (fun c' hc' => h c' (List.mem_cons_of_mem c hc')) _ hd
      · obtain ⟨-, hp⟩ := flushable_iff.mpr ⟨hs, hd⟩
        obtain ⟨message, hm⟩ := Option.ne_none_iff_exists'.mp hp
        rw [deliver_of_flushable hs hm, decode_append hs]
        simp [hd]

/-- With `"\n"`, nothing is delivered of the silent streams and no others. -/
theorem framing.delivered_lf {text : std_string} {f : framing}
    (h : f.Carries "\n".toList text) : f.delivered = [] ↔ f.Silent text := by
  cases f with
  | eof_delimited reads =>
      obtain rfl : reads.flatten = text := h
      exact leading_events_eq_nil_iff _
  | chunked cap chunks =>
      obtain ⟨rfl, hends⟩ := h
      have hall : ∀ c ∈ chunks.map wire_chunk.body, blank_line <:+ c := by
        intro c hc
        obtain ⟨w, hw, rfl⟩ := List.mem_map.mp hc
        exact hends w hw
      have hnil : decode [] = [] := by rw [decode, sse_blocks_of_none rfl]; rfl
      exact (deliver_eq_nil_iff _ hall [] hnil).trans (decode_eq_nil_iff_blocks _)

/-- With `"\r\n"`, nothing is delivered. -/
theorem framing.delivered_crlf {text : std_string} {f : framing}
    (h : f.Carries "\r\n".toList (crlf text)) : f.delivered = [] := by
  cases f with
  | eof_delimited reads =>
      have hreads : reads.flatten = crlf text := h
      rw [framing.delivered, hreads, sse_blocks_crlf]
      rfl
  | chunked cap chunks =>
      refine deliver_of_no_blank _ [] ?_
      rw [List.nil_append, h.1]
      exact (crlf_no_blank text).2

/-- **The ending of the lines.** For every text and any two responses that carry it, the
one with `"\n"` and the other with `"\r\n"` behind every line, chunked or not and however
they are cut into reads, chunks and pieces: `read_sse` delivers the same events of both if
and only if it delivers none of the first. -/
theorem same_events_iff (text : std_string) (lf cr : framing)
    (hlf : lf.Carries "\n".toList text) (hcr : cr.Carries "\r\n".toList (crlf text)) :
    (∀ es, lf.Delivers es ↔ cr.Delivers es) ↔ lf.Silent text := by
  rw [← framing.delivered_lf hlf]
  simp only [framing.delivers_iff, framing.delivered_crlf hcr]
  constructor
  · intro h
    exact (h lf.delivered).mp rfl
  · intro h es
    rw [h]

/-- One event. -/
def one_event : std_string := "data: x\n\n".toList

/-- The event as one chunk, with either ending. -/
def one_chunk : wire_chunk := .whole [] one_event (by decide)

def one_chunk_crlf : wire_chunk := .whole [] (crlf one_event) (by decide)

theorem one_chunk_carries : (framing.chunked 1 [one_chunk]).Carries "\n".toList one_event :=
  ⟨by decide, by decide⟩

theorem one_chunk_crlf_carries :
    (framing.chunked 1 [one_chunk_crlf]).Carries "\r\n".toList (crlf one_event) :=
  ⟨by decide, by decide⟩

/-- The two responses, chunked. -/
theorem same_events_iff_one_chunk :
    (∀ es, (framing.chunked 1 [one_chunk]).Delivers es
        ↔ (framing.chunked 1 [one_chunk_crlf]).Delivers es)
      ↔ (framing.chunked 1 [one_chunk]).Silent one_event :=
  same_events_iff one_event _ _ one_chunk_carries one_chunk_crlf_carries

/-- Chunked or not, the event is delivered of the first response and not of the
second. -/
theorem crlf_event_not_delivered :
    ((framing.eof_delimited [one_event]).Delivers [{ data := some ['x'] }]
        ∧ (framing.eof_delimited [crlf one_event]).Delivers []
        ∧ ¬ ∀ es, (framing.eof_delimited [one_event]).Delivers es
          ↔ (framing.eof_delimited [crlf one_event]).Delivers es)
      ∧ ((framing.chunked 1 [one_chunk]).Delivers [{ data := some ['x'] }]
        ∧ (framing.chunked 1 [one_chunk_crlf]).Delivers []
        ∧ ¬ ∀ es, (framing.chunked 1 [one_chunk]).Delivers es
          ↔ (framing.chunked 1 [one_chunk_crlf]).Delivers es) := by
  have hblocks : sse_blocks one_event = [one_event] := by
    rw [sse_blocks_of_some (show find blank_line one_event = some 7 from by decide),
      sse_blocks_of_none (show find blank_line (one_event.drop 9) = none from by decide)]
    rfl
  -- what is delivered of the four responses
  have hlf : (framing.eof_delimited [one_event]).delivered = [{ data := some ['x'] }] := by
    rw [framing.delivered, List.flatten_singleton, hblocks]
    decide
  have hcr : (framing.eof_delimited [crlf one_event]).delivered = [] := by
    rw [framing.delivered, List.flatten_singleton, sse_blocks_crlf]
    rfl
  have hlf' : (framing.chunked 1 [one_chunk]).delivered = [{ data := some ['x'] }] := by
    decide
  have hcr' : (framing.chunked 1 [one_chunk_crlf]).delivered = [] := by
    decide
  simp only [framing.delivers_iff, hlf, hcr, hlf', hcr', true_and]
  refine ⟨fun h => ?_, fun h => ?_⟩
  · exact absurd ((h [{ data := some ['x'] }]).mp rfl) (by simp)
  · exact absurd ((h [{ data := some ['x'] }]).mp rfl) (by simp)

end CppHttp.LineEndings
