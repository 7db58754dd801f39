/-
The event-stream parser of `include/client/response.hpp` (`parse_sse_line`,
`parse_sse_block`), and what an event stream means.

Three readings of a stream are related here.

  * The *code's* reading of one block: `parse_sse_block` runs `parse_sse_line` over
    the block's lines and returns the message if any field was set.
  * The *stream's* meaning: cut the text after each leftmost `"\n\n"`, parse each
    piece, drop the pieces that set no field (`sse_blocks`, `decode`). These are
    the blocks `read_sse` takes out of its buffer one after the other.
  * The *line by line* meaning: update a message on every line, and on a blank line
    hand it out if it has a field, and start afresh (`dispatch`).

`decode_eq_dispatch` says the last two agree. The third has no cutting position in
it, only the message, which is why every statement about chunk boundaries and read
boundaries is proved through it: behind a blank line a stream starts afresh
(`decode_append`), whether or not the cut of the second reading falls there.
-/
import CppHttp.Message

set_option autoImplicit false

namespace CppHttp.SseParse

open CppHttp.StdString CppHttp.Message

/-! ## The parser -/

/-- The field name and the value of a line: what is left and right of the first
colon, less one blank behind it; a line without a colon is a name alone. -/
def split_field (line : std_string) : std_string × std_string :=
  match find ":".toList line with
  | none => (line, [])
  | some colon =>
      let value := line.drop (colon + 1)
      (line.take colon, if " ".toList.isPrefixOf value then value.drop 1 else value)

/-- The field's effect on the message. A `data` value is appended behind a `'\n'`
to the data already there; an unreadable `retry` and an unknown field do nothing. -/
def apply_field (field value : std_string) (event : server_sent_event) : server_sent_event :=
  if field = "data".toList then
    match event.data with
    | none => { event with data := some value }
    | some data => { event with data := some (data ++ ['\n'] ++ value) }
  else if field = "event".toList then { event with event := some value }
  else if field = "id".toList then { event with id := some value }
  else if field = "retry".toList then
    match from_chars value with
    | some v => { event with retry := some v }
    | none => event
  else event

def parse_sse_line (line : std_string) (event : server_sent_event) : server_sent_event :=
  apply_field (split_field line).1 (split_field line).2 event

/-- One trailing `c` removed, as `if (!line.empty() && line.back() == c)
line.pop_back()` does. -/
def pop_back_if (c : Char) (line : std_string) : std_string :=
  if line.getLast? = some c then line.dropLast else line

/-- The body of the `getline` loop: strip the terminator, then parse the line. -/
def parse_raw_line (event : server_sent_event) (line : std_string) : server_sent_event :=
  parse_sse_line (pop_back_if '\r' (pop_back_if '\n' line)) event

def parse_sse_block (block : std_string) : Option server_sent_event :=
  if block.isEmpty then none
  else
    let message := (getlines block).foldl parse_raw_line {}
    if message.valid then some message else none

/-! ## What one line does

A line either sets a field, and then the message is valid afterwards, or it is the
identity on every message. Which of the two does not depend on the message. -/

/-- The line sets a field of the message. -/
def sets_field (line : std_string) : Bool := (parse_raw_line {} line).valid

private theorem apply_field_cases (field value : std_string) :
    (∀ e, apply_field field value e = e) ∨ (∀ e, (apply_field field value e).valid = true) := by
  by_cases h1 : field = "data".toList
  · refine Or.inr (fun e => ?_)
    rw [apply_field, if_pos h1]
    cases e.data <;> simp [server_sent_event.valid]
  by_cases h2 : field = "event".toList
  · refine Or.inr (fun e => ?_)
    rw [apply_field, if_neg h1, if_pos h2]
    simp [server_sent_event.valid]
  by_cases h3 : field = "id".toList
  · refine Or.inr (fun e => ?_)
    rw [apply_field, if_neg h1, if_neg h2, if_pos h3]
    simp [server_sent_event.valid]
  by_cases h4 : field = "retry".toList
  · cases hv : from_chars value with
    | none =>
        refine Or.inl (fun e => ?_)
        rw [apply_field, if_neg h1, if_neg h2, if_neg h3, if_pos h4, hv]
    | some v =>
        refine Or.inr (fun e => ?_)
        rw [apply_field, if_neg h1, if_neg h2, if_neg h3, if_pos h4, hv]
        simp [server_sent_event.valid]
  · refine Or.inl (fun e => ?_)
    rw [apply_field, if_neg h1, if_neg h2, if_neg h3, if_neg h4]

/-- A line that sets no field leaves every message alone. -/
theorem parse_raw_line_of_not_sets {line : std_string} (h : sets_field line = false)
    (e : server_sent_event) : parse_raw_line e line = e := by
  rcases apply_field_cases (split_field (pop_back_if '\r' (pop_back_if '\n' line))).1
    (split_field (pop_back_if '\r' (pop_back_if '\n' line))).2 with hid | hval
  · exact hid e
  · rw [sets_field, parse_raw_line, parse_sse_line, hval {}] at h
    cases h

/-- A line that sets a field leaves every message valid. -/
theorem parse_raw_line_of_sets {line : std_string} (h : sets_field line = true)
    (e : server_sent_event) : (parse_raw_line e line).valid = true := by
  rcases apply_field_cases (split_field (pop_back_if '\r' (pop_back_if '\n' line))).1
    (split_field (pop_back_if '\r' (pop_back_if '\n' line))).2 with hid | hval
  · rw [sets_field, parse_raw_line, parse_sse_line, hid {}] at h
    cases h
  · exact hval e

@[simp] theorem sets_field_nil : sets_field [] = false := by decide

@[simp] theorem parse_raw_line_nil (e : server_sent_event) : parse_raw_line e [] = e :=
  parse_raw_line_of_not_sets sets_field_nil e

theorem foldl_of_not_sets {ls : List std_string} (h : ∀ l ∈ ls, sets_field l = false)
    (e : server_sent_event) : ls.foldl parse_raw_line e = e := by
  induction ls generalizing e with
  | nil => rfl
  | cons l ls ih =>
      rw [List.foldl_cons, parse_raw_line_of_not_sets (h l (by simp))]
      exact ih (fun l' hl' => h l' (by simp [hl'])) e

/-- A list of lines leaves a valid message exactly if the message was valid or one
of the lines sets a field. -/
theorem foldl_valid_iff (ls : List std_string) (e : server_sent_event) :
    (ls.foldl parse_raw_line e).valid = true
      ↔ e.valid = true ∨ ∃ l ∈ ls, sets_field l = true := by
  induction ls generalizing e with
  | nil => simp
  | cons l ls ih =>
      rw [List.foldl_cons, ih]
      cases hs : sets_field l with
      | true => simp [parse_raw_line_of_sets hs e, hs]
      | false => simp [parse_raw_line_of_not_sets hs, hs]

/-! ## The meaning of a stream -/

/-- The terminator of an event. -/
def blank_line : std_string := "\n\n".toList

/-- The text cut after each leftmost `"\n\n"`. A rest that holds none is no block. -/
def sse_blocks (text : std_string) : List std_string :=
  match h : find blank_line text with
  | none => []
  | some i => text.take (i + 2) :: sse_blocks (text.drop (i + 2))
termination_by text.length
decreasing_by
  have := find_add_le h
  simp only [blank_line, String.reduceToList, List.length_cons, List.length_nil] at this
  simp only [List.length_drop]
  omega

/-- The events of a stream: each block parsed, the blocks that set no field
dropped. -/
def decode (text : std_string) : List server_sent_event :=
  (sse_blocks text).filterMap parse_sse_block

theorem sse_blocks_of_none {text : std_string} (h : find blank_line text = none) :
    sse_blocks text = [] := by
  rw [sse_blocks]
  split
  · rfl
  · next h' => rw [h] at h'; cases h'

theorem sse_blocks_of_some {text : std_string} {i : ℕ} (h : find blank_line text = some i) :
    sse_blocks text = text.take (i + 2) :: sse_blocks (text.drop (i + 2)) := by
  rw [sse_blocks]
  split
  · next h' => rw [h] at h'; cases h'
  · next j h' =>
      rw [h, Option.some.injEq] at h'
      subst h'
      rfl

/-- The message as a list: handed out if it has a field. -/
def emit (e : server_sent_event) : List server_sent_event := if e.valid then [e] else []

/-- The events of a list of lines, line by line: a blank line hands the message out
and starts afresh. -/
def dispatch (e : server_sent_event) : List std_string → List server_sent_event
  | [] => []
  | l :: ls => if l = [] then emit e ++ dispatch {} ls else dispatch (parse_raw_line e l) ls

@[simp] theorem emit_default : emit {} = [] := rfl

theorem emit_of_not_valid {e : server_sent_event} (h : e.valid = false) : emit e = [] := by
  simp [emit, h]

/-- Behind a blank line the events are those of the rest, read afresh. -/
theorem dispatch_append (e : server_sent_event) (ls rest : List std_string) :
    dispatch e (ls ++ [] :: rest) = dispatch e (ls ++ [[]]) ++ dispatch {} rest := by
  induction ls generalizing e with
  | nil => simp [dispatch]
  | cons l ls ih =>
      simp only [List.cons_append, dispatch]
      split
      · rw [ih, List.append_assoc]
      · exact ih _

/-- Lines none of which is blank only build up the message; the blank line behind
them hands it out. -/
theorem dispatch_of_nonblank {ls : List std_string} (h : ∀ l ∈ ls, l ≠ [])
    (e : server_sent_event) :
    dispatch e ls = [] ∧ dispatch e (ls ++ [[]]) = emit (ls.foldl parse_raw_line e) := by
  induction ls generalizing e with
  | nil => simp [dispatch]
  | cons l ls ih =>
      have hl : l ≠ [] := h l (by simp)
      simp only [List.cons_append, dispatch, if_neg hl, List.foldl_cons]
      exact ih (fun l' hl' => h l' (by simp [hl'])) _

/-- The same with one more blank line in front, which has nothing to hand out. -/
theorem dispatch_of_tail_nonblank {ls : List std_string} (h : ∀ l ∈ ls.tail, l ≠ []) :
    dispatch {} ls = []
      ∧ dispatch {} (ls ++ [[]]) = emit (ls.foldl parse_raw_line {}) := by
  cases ls with
  | nil => simp [dispatch]
  | cons l ls =>
      by_cases hl : l = []
      · subst hl
        simpa [dispatch] using dispatch_of_nonblank h {}
      · refine dispatch_of_nonblank (fun l' hl' => ?_) {}
        rcases List.mem_cons.mp hl' with rfl | hmem
        · exact hl
        · exact h l' hmem

/-! ## Blocks and lines -/

/-- In a text without a blank line only the first line can be empty. -/
theorem tail_nonblank_of_find {text : std_string} (h : find blank_line text = none) :
    ∀ l ∈ (complete_lines text).tail, l ≠ [] := by
  have hfind : ∀ s : std_string, find blank_line ('\n' :: s) = none →
      ∀ s', s ≠ '\n' :: s' := by
    rintro s hs s' rfl
    simp [find, blank_line] at hs
  induction text with
  | nil => simp [complete_lines]
  | cons c s ih =>
      have hs : find blank_line s = none := by
        rw [find] at h
        split at h
        · cases h
        · simpa using h
      rw [complete_lines]
      by_cases hc : c = '\n'
      · subst hc
        rw [if_pos rfl, List.tail_cons]
        intro l hl
        -- the rest does not begin with a terminator, so its first line is not empty
        cases s with
        | nil => simp [complete_lines] at hl
        | cons d s =>
            have hd : d ≠ '\n' := fun hd => hfind (d :: s) h s (by rw [hd])
            have ih' := ih hs
            rw [complete_lines, if_neg hd] at hl ih'
            cases hcl : complete_lines s with
            | nil => rw [hcl] at hl; cases hl
            | cons l' ls' =>
                rw [hcl] at hl ih'
                rcases List.mem_cons.mp hl with rfl | hmem
                · simp
                · exact ih' l hmem
      · rw [if_neg hc]
        have ih' := ih hs
        cases hcl : complete_lines s with
        | nil => simp
        | cons l' ls' =>
            rw [hcl] at ih'
            exact ih'

/-- A block of a non-empty text parses to the message of its lines, if it sets a
field. -/
theorem parse_sse_block_eq (block : std_string) :
    (parse_sse_block block).toList = emit ((getlines block).foldl parse_raw_line {}) := by
  rw [parse_sse_block, emit]
  cases block with
  | nil => rfl
  | cons c s =>
      simp only [List.isEmpty_cons, Bool.false_eq_true, if_false]
      split <;> rfl

/-- The lines of a text that ends with a blank line: those in front of it, and the
empty one. -/
theorem lines_of_blank (pre : std_string) :
    getlines (pre ++ ['\n', '\n']) = complete_lines (pre ++ ['\n', '\n'])
      ∧ complete_lines (pre ++ ['\n', '\n']) = complete_lines (pre ++ ['\n']) ++ [[]] := by
  constructor
  · have := getlines_eq_complete_lines (pre ++ ['\n'])
    simpa using this
  · exact complete_lines_append pre ['\n']

/-- The first block of a stream and the stream behind it. -/
theorem dispatch_block {text : std_string} {i : ℕ} (h : find blank_line text = some i) :
    dispatch {} (complete_lines text)
      = (parse_sse_block (text.take (i + 2))).toList
        ++ dispatch {} (complete_lines (text.drop (i + 2))) := by
  obtain ⟨pre, rest, htext, hlen⟩ := find_split h
  have hb : blank_line = ['\n', '\n'] := rfl
  have htake : text.take (i + 2) = pre ++ ['\n', '\n'] := by
    rw [htext, hb, ← List.append_assoc, ← hlen]
    exact List.take_left' (by simp)
  have hdrop : text.drop (i + 2) = rest := by
    rw [htext, hb, ← List.append_assoc, ← hlen]
    exact List.drop_left' (by simp)
  -- up to the first of the two terminators there is no blank line
  have hnone : find blank_line (pre ++ ['\n']) = none := by
    have h1 := find_take_eq_none h (n := i + 1) (by simp [hb])
    have h2 : text.take (i + 1) = pre ++ ['\n'] := by
      rw [htext, hb, ← hlen]
      simp [List.take_append]
    rwa [h2] at h1
  have hlines : complete_lines text
      = complete_lines (pre ++ ['\n']) ++ [] :: complete_lines rest := by
    have h1 := complete_lines_append (pre ++ ['\n']) rest
    have h2 := (lines_of_blank pre).2
    rw [htext, hb]
    simp only [List.append_assoc, List.cons_append, List.nil_append] at h1 h2 ⊢
    rw [h1, h2]
    simp
  rw [htake, hdrop, parse_sse_block_eq, (lines_of_blank pre).1, (lines_of_blank pre).2,
    List.foldl_append, List.foldl_cons, List.foldl_nil, parse_raw_line_nil, hlines,
    dispatch_append, (dispatch_of_tail_nonblank (tail_nonblank_of_find hnone)).2]

/-- Cutting at blank lines and reading line by line give the same events. -/
theorem decode_eq_dispatch (text : std_string) :
    decode text = dispatch {} (complete_lines text) := by
  induction hn : text.length using Nat.strongRecOn generalizing text with
  | _ n ih =>
      cases hf : find blank_line text with
      | none =>
          rw [decode, sse_blocks_of_none hf,
            (dispatch_of_tail_nonblank (tail_nonblank_of_find hf)).1]
          rfl
      | some i =>
          have hle := find_add_le hf
          have hb : blank_line.length = 2 := rfl
          have hlt : (text.drop (i + 2)).length < n := by
            rw [List.length_drop]
            omega
          have ih' := ih _ hlt (text.drop (i + 2)) rfl
          rw [decode] at ih' ⊢
          rw [sse_blocks_of_some hf, dispatch_block hf, ← ih', List.filterMap_cons]
          cases parse_sse_block (text.take (i + 2)) <;> rfl

/-! ## A stream behind a blank line -/

theorem decode_append {pre rest : std_string} (h : blank_line <:+ pre) :
    decode (pre ++ rest) = decode pre ++ decode rest := by
  obtain ⟨t, rfl⟩ := h
  have h1 : complete_lines (t ++ blank_line ++ rest)
      = complete_lines (t ++ ['\n']) ++ [] :: complete_lines rest := by
    have ha := complete_lines_append (t ++ ['\n']) rest
    have hb := (lines_of_blank t).2
    simp only [List.append_assoc, List.cons_append, List.nil_append] at ha hb
    simp only [blank_line, String.reduceToList, List.append_assoc, List.cons_append,
      List.nil_append]
    rw [ha, hb]
    simp
  rw [decode_eq_dispatch, h1, dispatch_append, decode_eq_dispatch (t ++ blank_line),
    decode_eq_dispatch rest]
  congr 2
  exact (lines_of_blank t).2.symm

/-- Nothing is handed out up to a blank line exactly if there is nothing to hand
out: no field in the message, and no line that sets one. -/
theorem dispatch_eq_nil_iff (ls : List std_string) (e : server_sent_event) :
    dispatch e (ls ++ [[]]) = [] ↔ e.valid = false ∧ ∀ l ∈ ls, sets_field l = false := by
  induction ls generalizing e with
  | nil => cases he : e.valid <;> simp [dispatch, emit, he]
  | cons l ls ih =>
      rw [List.cons_append, dispatch]
      by_cases hl : l = []
      · subst hl
        rw [if_pos rfl, List.append_eq_nil_iff, ih]
        cases he : e.valid <;> simp [emit, he]
      · rw [if_neg hl, ih]
        cases hs : sets_field l with
        | true => simp [parse_raw_line_of_sets hs, hs]
        | false => simp [parse_raw_line_of_not_sets hs, hs]

/-- A single event handed out up to a blank line is the message of all the lines:
those behind the blank line that hands it out set nothing. -/
theorem dispatch_eq_singleton {ls : List std_string} {e out : server_sent_event}
    (h : dispatch e (ls ++ [[]]) = [out]) : out = ls.foldl parse_raw_line e := by
  induction ls generalizing e with
  | nil =>
      cases he : e.valid with
      | true => simpa [dispatch, emit, he, eq_comm] using h
      | false => simp [dispatch, emit, he] at h
  | cons l ls ih =>
      rw [List.cons_append, dispatch] at h
      rw [List.foldl_cons]
      by_cases hl : l = []
      · subst hl
        rw [if_pos rfl] at h
        rw [parse_raw_line_nil]
        cases he : e.valid with
        | true =>
            rw [emit, he, if_pos rfl, List.singleton_append, List.cons.injEq,
              dispatch_eq_nil_iff] at h
            rw [foldl_of_not_sets h.2.2, h.1]
        | false =>
            rw [emit_of_not_valid he, List.nil_append] at h
            rw [server_sent_event.eq_default he]
            exact ih h
      · rw [if_neg hl] at h
        exact ih h

/-- A text that ends with a blank line, in lines: its events, and what it parses to
when it is taken as one block. -/
theorem blank_text (t : std_string) :
    decode (t ++ blank_line) = dispatch {} (complete_lines (t ++ ['\n']) ++ [[]])
      ∧ (parse_sse_block (t ++ blank_line)).toList
        = emit ((complete_lines (t ++ ['\n'])).foldl parse_raw_line {}) := by
  have hb : t ++ blank_line = t ++ ['\n', '\n'] := rfl
  rw [decode_eq_dispatch, parse_sse_block_eq, hb, (lines_of_blank t).1, (lines_of_blank t).2,
    List.foldl_append, List.foldl_cons, List.foldl_nil, parse_raw_line_nil]
  exact ⟨rfl, rfl⟩

/-- A text that ends with a blank line has no event exactly if it parses to none
when it is taken as one block. -/
theorem decode_eq_nil_iff {text : std_string} (h : blank_line <:+ text) :
    decode text = [] ↔ parse_sse_block text = none := by
  obtain ⟨t, rfl⟩ := h
  obtain ⟨hdec, hparse⟩ := blank_text t
  have hnone : parse_sse_block (t ++ blank_line) = none
      ↔ ((complete_lines (t ++ ['\n'])).foldl parse_raw_line {}).valid = false := by
    rw [← Option.toList_eq_nil_iff, hparse]
    cases hv : ((complete_lines (t ++ ['\n'])).foldl parse_raw_line {}).valid <;>
      simp [emit, hv]
  rw [hdec, dispatch_eq_nil_iff, hnone, ← Bool.not_eq_true, ← Bool.not_eq_true,
    foldl_valid_iff]
  simp

/-- A text that ends with a blank line and has a single event parses to that event
when it is taken as one block. -/
theorem parse_of_decode_singleton {text : std_string} {e : server_sent_event}
    (h : blank_line <:+ text) (hd : decode text = [e]) : parse_sse_block text = some e := by
  obtain ⟨t, rfl⟩ := h
  obtain ⟨hdec, hparse⟩ := blank_text t
  rw [hdec] at hd
  have he := dispatch_eq_singleton hd
  have hne : parse_sse_block (t ++ blank_line) ≠ none := by
    rw [Ne, ← decode_eq_nil_iff ⟨t, rfl⟩, hdec, hd]
    simp
  obtain ⟨e', he'⟩ := Option.ne_none_iff_exists'.mp hne
  rw [he', Option.toList_some, ← he, emit] at hparse
  split at hparse
  · rw [he', (List.cons.inj hparse).1]
  · cases hparse

end CppHttp.SseParse
