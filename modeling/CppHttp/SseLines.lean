/-
What a block of an event stream says, read off its lines.

`parse_sse_block` keeps a message and updates it line by line. Here the same block is
read as a whole: a line has a name and a value (`field_name`, `field_value`), and the
message of a list of lines holds the last value of every single-valued field and all
the `data` values in order, joined with `'\n'` (`described`).

The two agree on every block, whatever is in it (`parse_sse_block_described`). The
reason is that messages compose: what lines set behind a message is laid over it
(`overlay`), one lines' message over another is the message of both lists
(`described_append`), and one turn of the parser's loop lays the message of its one
line over what it has (`parse_sse_line_eq`).

`parse_sse_block_of_lines` is the case of lines with known terminators, which may be
mixed and of which the last may be missing.
-/
import CppHttp.SseParse

set_option autoImplicit false

namespace CppHttp.SseLines

open CppHttp.StdString CppHttp.Message CppHttp.SseParse

/-! ## A line -/

/-- The text in front of the first colon; all of a line without one. -/
def field_name (line : std_string) : std_string := line.takeWhile (· ≠ ':')

/-- A text less one blank in front. -/
def strip_blank : std_string → std_string
  | ' ' :: s => s
  | s => s

/-- `strip_blank` in the parser's words: a text that starts with a blank less its first byte. -/
theorem strip_blank_eq (s : std_string) :
    strip_blank s = if " ".toList.isPrefixOf s then s.drop 1 else s := by
  unfold strip_blank
  split
  · rfl
  · next hne =>
      rw [if_neg]
      intro hpre
      obtain ⟨t, rfl⟩ := List.isPrefixOf_iff_prefix.mp hpre
      exact hne t rfl

/-- The text behind the first colon, less one blank; empty in a line without one. -/
def field_value (line : std_string) : std_string :=
  strip_blank ((line.dropWhile (· ≠ ':')).drop 1)

/-- `find` of a colon is the length of the text in front of it. -/
theorem find_colon (line : std_string) :
    find ":".toList line = if ':' ∈ line then some (field_name line).length else none :=
  find_char ':' line

/-- A line is its name, and what the name stops at. -/
theorem field_name_append (line : std_string) :
    field_name line ++ line.dropWhile (· ≠ ':') = line := List.takeWhile_append_dropWhile

/-- The parser splits a line at its first colon, or takes all of it as a name. -/
theorem split_field_eq (line : std_string) :
    split_field line = (field_name line, field_value line) := by
  have hline := field_name_append line
  unfold split_field
  rw [find_colon]
  by_cases hc : ':' ∈ line
  · rw [if_pos hc]
    have htake : line.take (field_name line).length = field_name line := by
      have h : (field_name line ++ line.dropWhile (· ≠ ':')).take (field_name line).length
          = field_name line := List.take_left' rfl
      rwa [hline] at h
    have hdrop : line.drop ((field_name line).length + 1)
        = (line.dropWhile (· ≠ ':')).drop 1 := by
      have h : (field_name line ++ line.dropWhile (· ≠ ':')).drop (field_name line).length
          = line.dropWhile (· ≠ ':') := List.drop_left' rfl
      rw [hline] at h
      rw [← List.drop_drop, h]
    simp only [htake, hdrop, field_value, strip_blank_eq]
  · rw [if_neg hc]
    have hname : field_name line = line := takeWhile_ne_eq_self hc
    have hrest : line.dropWhile (· ≠ ':') = [] := dropWhile_ne_eq_nil hc
    simp only [field_value, hname, hrest, List.drop_nil]
    rfl

/-- Name and value are no longer than their line. -/
theorem field_value_length_le (line : std_string) :
    (field_name line).length + (field_value line).length ≤ line.length := by
  have hlen : (field_name line).length + (line.dropWhile (· ≠ ':')).length = line.length := by
    rw [← List.length_append, field_name_append]
  have hstrip : ∀ s : std_string, (strip_blank s).length ≤ s.length := by
    intro s
    unfold strip_blank
    split
    · rw [List.length_cons]
      omega
    · omega
  have hvalue : (field_value line).length ≤ (line.dropWhile (· ≠ ':')).length := by
    apply Nat.le_trans (hstrip _)
    rw [List.length_drop]
    omega
  omega

/-! ## The message of a list of lines -/

/-- The name of the field whose values are joined. -/
def data_field : std_string := "data".toList

/-- The name of the field for the type of the event. -/
def event_field : std_string := "event".toList

/-- The name of the field for the identifier. -/
def id_field : std_string := "id".toList

/-- The name of the field for the time until a reconnection, a number. -/
def retry_field : std_string := "retry".toList

/-- The values of the lines of one name, in order. -/
def values (name : std_string) (lines : List std_string) : List std_string :=
  lines.filterMap fun line => if field_name line = name then some (field_value line) else none

/-- Texts joined with `'\n'`; no text is no value. -/
def joined : List std_string → Option std_string
  | [] => none
  | v :: vs => some (List.intercalate ['\n'] (v :: vs))

/-- The message of the lines: the last value of each field, all those of `data`. -/
def described (lines : List std_string) : server_sent_event where
  event := (values event_field lines).getLast?
  id := (values id_field lines).getLast?
  data := joined (values data_field lines)
  retry := ((values retry_field lines).filterMap from_chars).getLast?

@[simp] theorem described_nil : described [] = {} := rfl

/-- The values of two lists of lines, one behind the other. -/
theorem values_append (name : std_string) (as bs : List std_string) :
    values name (as ++ bs) = values name as ++ values name bs := List.filterMap_append

theorem values_singleton (name line : std_string) :
    values name [line] = if field_name line = name then [field_value line] else [] := by
  unfold values
  by_cases h : field_name line = name
  · simp [h]
  · simp [h]

/-- Every further text comes behind a `'\n'`. -/
theorem joined_cons (v : std_string) (vs : List std_string) :
    joined (v :: vs) = some (v ++ vs.flatMap fun w => '\n' :: w) := by
  have hinter : ∀ (v : std_string) (vs : List std_string),
      List.intercalate ['\n'] (v :: vs) = v ++ vs.flatMap fun w => '\n' :: w := by
    intro v vs
    induction vs generalizing v with
    | nil => simp [List.intercalate]
    | cons w ws ih =>
        have hstep : List.intercalate ['\n'] (v :: w :: ws)
            = v ++ ('\n' :: List.intercalate ['\n'] (w :: ws)) := by
          simp [List.intercalate, List.intersperse]
        rw [hstep, ih, List.flatMap_cons, List.cons_append]
  rw [joined, hinter]

/-- What the parser does to data that are there already. -/
theorem joined_append (as bs : List std_string) :
    joined (as ++ bs) = Option.merge (fun x y => x ++ '\n' :: y) (joined as) (joined bs) := by
  cases as with
  | nil =>
      rw [List.nil_append, show joined [] = none from rfl]
      cases joined bs with
      | none => rfl
      | some y => rfl
  | cons a as =>
      cases bs with
      | nil => simp [joined, Option.merge]
      | cons b bs =>
          rw [List.cons_append, joined_cons, joined_cons, joined_cons]
          simp [Option.merge]

/-! ## Laying one message over another -/

/-- The message `e` after the lines of `later` have been read as well. -/
def overlay (e later : server_sent_event) : server_sent_event where
  event := later.event.or e.event
  id := later.id.or e.id
  data := Option.merge (fun x y => x ++ '\n' :: y) e.data later.data
  retry := later.retry.or e.retry

@[simp] theorem overlay_default (e : server_sent_event) : overlay e {} = e := by
  obtain ⟨event, id, data, retry⟩ := e
  cases data <;> simp [overlay, Option.merge]

@[simp] theorem default_overlay (e : server_sent_event) : overlay {} e = e := by
  obtain ⟨event, id, data, retry⟩ := e
  cases data <;> simp [overlay, Option.merge]

/-- It does not matter which of three messages are laid over each other first. -/
theorem overlay_assoc (a b c : server_sent_event) :
    overlay (overlay a b) c = overlay a (overlay b c) := by
  unfold overlay
  rw [server_sent_event.mk.injEq]
  refine ⟨(Option.or_assoc ..).symm, (Option.or_assoc ..).symm, ?_, (Option.or_assoc ..).symm⟩
  cases a.data <;> cases b.data <;> cases c.data <;> simp [Option.merge]

/-- Laying messages over each other loses no field. -/
theorem overlay_valid (a b : server_sent_event) :
    (overlay a b).valid = (a.valid || b.valid) := by
  unfold server_sent_event.valid overlay
  simp only [Option.isSome_or, Option.isSome_merge]
  grind

/-- The message of two lists of lines is that of the second laid over that of the
first. -/
theorem described_append (as bs : List std_string) :
    described (as ++ bs) = overlay (described as) (described bs) := by
  unfold described overlay
  rw [server_sent_event.mk.injEq]
  refine ⟨?_, ?_, ?_, ?_⟩
  · rw [values_append, List.getLast?_append]
  · rw [values_append, List.getLast?_append]
  · rw [values_append, joined_append]
  · rw [values_append, List.filterMap_append, List.getLast?_append]

/-! ## The parser -/

/-- A field is applied by laying what it makes of nothing over the message at hand. -/
theorem apply_field_eq (field value : std_string) (e : server_sent_event) :
    apply_field field value e = overlay e (apply_field field value {}) := by
  unfold apply_field
  by_cases hdata : field = "data".toList
  · rw [if_pos hdata, if_pos hdata]
    cases hd : e.data with
    | none => simp [overlay, hd, Option.merge]
    | some data => simp [overlay, hd, Option.merge]
  rw [if_neg hdata, if_neg hdata]
  by_cases hevent : field = "event".toList
  · rw [if_pos hevent, if_pos hevent]
    simp [overlay]
  rw [if_neg hevent, if_neg hevent]
  by_cases hid : field = "id".toList
  · rw [if_pos hid, if_pos hid]
    simp [overlay]
  rw [if_neg hid, if_neg hid]
  by_cases hretry : field = "retry".toList
  · rw [if_pos hretry, if_pos hretry]
    cases from_chars value with
    | none => simp
    | some v => simp [overlay]
  · rw [if_neg hretry, if_neg hretry, overlay_default]

/-- A `retry` field takes effect if its value is a number, and on `retry` alone. -/
theorem apply_field_retry (value : std_string) (e : server_sent_event) :
    apply_field retry_field value e = { e with retry := (from_chars value).or e.retry } := by
  rw [apply_field, if_neg (show ¬ retry_field = "data".toList by decide),
    if_neg (show ¬ retry_field = "event".toList by decide),
    if_neg (show ¬ retry_field = "id".toList by decide),
    if_pos (show retry_field = "retry".toList from rfl)]
  cases from_chars value with
  | none => rfl
  | some v => rfl

/-- A field of another name is dropped. -/
theorem apply_field_of_ne {field : std_string} (hdata : field ≠ data_field)
    (hevent : field ≠ event_field) (hid : field ≠ id_field) (hretry : field ≠ retry_field)
    (value : std_string) (e : server_sent_event) : apply_field field value e = e :=
  (if_neg hdata).trans ((if_neg hevent).trans ((if_neg hid).trans (if_neg hretry)))

/-- The message of one line is what its field makes of nothing. -/
theorem described_singleton (line : std_string) :
    described [line] = apply_field (field_name line) (field_value line) {} := by
  unfold described
  simp only [values_singleton]
  by_cases hdata : field_name line = data_field
  · rw [hdata]
    exact congrArg (fun v => ({ data := some v } : server_sent_event)) (List.append_nil _)
  by_cases hevent : field_name line = event_field
  · rw [hevent]
    rfl
  by_cases hid : field_name line = id_field
  · rw [hid]
    rfl
  by_cases hretry : field_name line = retry_field
  · rw [hretry, apply_field_retry]
    have hlast : ([field_value line].filterMap from_chars).getLast?
        = (from_chars (field_value line)).or none := by
      cases hv : from_chars (field_value line) with
      | none => simp [hv]
      | some v => simp [hv]
    rw [← hlast]
    rfl
  · rw [apply_field_of_ne hdata hevent hid hretry]
    simp only [if_neg hdata, if_neg hevent, if_neg hid, if_neg hretry]
    rfl

/-- A line is parsed by laying its message over the one at hand. -/
theorem parse_sse_line_eq (line : std_string) (e : server_sent_event) :
    parse_sse_line line e = overlay e (described [line]) := by
  rw [parse_sse_line, split_field_eq, apply_field_eq, described_singleton]

/-- The loop lays the message of its lines over the one it starts with. -/
theorem foldl_parse_sse_line (lines : List std_string) (e : server_sent_event) :
    lines.foldl (fun e line => parse_sse_line line e) e = overlay e (described lines) := by
  induction lines generalizing e with
  | nil => exact (overlay_default e).symm
  | cons line lines ih =>
      rw [List.foldl_cons, ih, parse_sse_line_eq, overlay_assoc, ← described_append]
      rfl

/-- A line as `getline` hands it out, less its terminator. -/
def strip_line (line : std_string) : std_string := pop_back_if '\r' (pop_back_if '\n' line)

/-- The stripped lines of a block. -/
def block_lines (block : std_string) : List std_string := (getlines block).map strip_line

/-- A block parses to the message of its lines, if one of them sets a field. -/
theorem parse_sse_block_described (block : std_string) :
    parse_sse_block block
      = if (described (block_lines block)).valid then some (described (block_lines block))
        else none := by
  have hfold : (getlines block).foldl parse_raw_line {} = described (block_lines block) := by
    have h := foldl_parse_sse_line (block_lines block) {}
    rwa [default_overlay, block_lines, List.foldl_map] at h
  unfold parse_sse_block
  rw [hfold]
  cases block with
  | nil => rfl
  | cons c s => rfl

/-! ## Which lines count -/

/-- The line sets a field: it has the name of a text field, or is a `retry` line with a
number. -/
def SetsField (line : std_string) : Prop :=
  field_name line = data_field ∨ field_name line = event_field ∨ field_name line = id_field
    ∨ (field_name line = retry_field ∧ (from_chars (field_value line)).isSome = true)

/-- The line has a name that means nothing. -/
def Unknown (line : std_string) : Prop :=
  field_name line ≠ data_field ∧ field_name line ≠ event_field ∧ field_name line ≠ id_field
    ∧ field_name line ≠ retry_field

/-- Comments and blank lines have the empty name. -/
theorem unknown_of_comment {line : std_string} (h : line = [] ∨ line.head? = some ':') :
    Unknown line := by
  have hname : field_name line = [] := by
    rcases h with rfl | h
    · rfl
    · obtain ⟨s, rfl⟩ := List.head?_eq_some_iff.mp h
      rfl
  unfold Unknown
  rw [hname]
  decide

/-- There is no value of a name exactly if no line has the name. -/
theorem values_eq_nil_iff (name : std_string) (lines : List std_string) :
    values name lines = [] ↔ ∀ line ∈ lines, field_name line ≠ name := by
  unfold values
  rw [List.filterMap_eq_nil_iff]
  simp

/-- The message of the lines is valid exactly if one of them sets a field. -/
theorem described_valid_iff (lines : List std_string) :
    (described lines).valid = true ↔ ∃ line ∈ lines, SetsField line := by
  have hnil : ∀ name, (values name lines).getLast?.isSome = true
      ↔ ∃ line ∈ lines, field_name line = name := by
    intro name
    rw [List.getLast?_isSome, ne_eq, values_eq_nil_iff]
    simp
  have hdata : (joined (values data_field lines)).isSome = true
      ↔ ∃ line ∈ lines, field_name line = data_field := by
    rw [← hnil]
    cases values data_field lines <;> simp [joined]
  have hretry : ((values retry_field lines).filterMap from_chars).getLast?.isSome = true
      ↔ ∃ line ∈ lines, field_name line = retry_field
          ∧ (from_chars (field_value line)).isSome = true := by
    rw [List.getLast?_isSome, ne_eq, List.filterMap_eq_nil_iff]
    simp [values, Option.isSome_iff_ne_none]
  unfold server_sent_event.valid SetsField
  simp only [Bool.or_eq_true, described, hnil, hdata, hretry, and_or_left, exists_or]
  constructor
  · rintro (((h | h) | h) | h)
    · exact .inr (.inl h)
    · exact .inr (.inr (.inl h))
    · exact .inl h
    · exact .inr (.inr (.inr h))
  · rintro (h | h | h | h)
    · exact .inl (.inr h)
    · exact .inl (.inl (.inl h))
    · exact .inl (.inl (.inr h))
    · exact .inr h

/-- A line with an unknown name changes nothing. -/
theorem parse_sse_line_of_unknown {line : std_string} (h : Unknown line)
    (e : server_sent_event) : parse_sse_line line e = e := by
  obtain ⟨hdata, hevent, hid, hretry⟩ := h
  rw [parse_sse_line, split_field_eq]
  exact apply_field_of_ne hdata hevent hid hretry _ e

/-- A `retry` line changes at most `retry`. -/
theorem parse_sse_line_of_retry {line : std_string} (h : field_name line = retry_field)
    (e : server_sent_event) :
    parse_sse_line line e
      = { e with retry := (from_chars (field_value line)).or e.retry } := by
  rw [parse_sse_line, split_field_eq, h]
  exact apply_field_retry _ e

/-! ## Blocks written line by line -/

/-- A line without a terminator in it, and not ending in half of one. -/
structure text_line where
  text : std_string
  no_newline : '\n' ∉ text
  no_return : text.getLast? ≠ some '\r'

/-- The two line terminators. -/
inductive terminator
  | lf
  | crlf
  deriving DecidableEq, Repr

/-- The bytes of a terminator. -/
def terminator.chars : terminator → std_string
  | .lf => ['\n']
  | .crlf => ['\r', '\n']

/-- Terminated lines, and a last one that is not. -/
def block_of (lines : List (text_line × terminator)) (last : Option text_line) : std_string :=
  (lines.flatMap fun l => l.1.text ++ l.2.chars) ++ (last.map text_line.text).getD []

/-- All of these lines. -/
def texts (lines : List (text_line × terminator)) (last : Option text_line) :
    List std_string :=
  lines.map (fun l => l.1.text) ++ (last.map text_line.text).toList

/-- A text without `'\n'` is one line, or none if it is empty. -/
theorem getlines_of_notMem {line : std_string} (h : '\n' ∉ line) :
    getlines line = if line = [] then [] else [line] := by
  induction line with
  | nil => rfl
  | cons c s ih =>
      rw [List.mem_cons, not_or] at h
      rw [getlines, if_neg (Ne.symm h.1), ih h.2]
      cases s with
      | nil => rfl
      | cons d t => rfl

/-- `getline` reads up to the first `'\n'`. -/
theorem getlines_append_newline {line : std_string} (h : '\n' ∉ line) (s : std_string) :
    getlines (line ++ '\n' :: s) = line :: getlines s := by
  induction line with
  | nil => simp [getlines]
  | cons c t ih =>
      rw [List.mem_cons, not_or] at h
      rw [List.cons_append, getlines, if_neg (Ne.symm h.1), ih h.2]

theorem pop_back_if_concat (c : Char) (s : std_string) : pop_back_if c (s ++ [c]) = s := by
  unfold pop_back_if
  rw [List.getLast?_concat, if_pos rfl, List.dropLast_concat]

/-- On a line as `getline` hands it out only the `'\r'` is left to take off. -/
theorem strip_line_of_notMem {line : std_string} (h : '\n' ∉ line) :
    strip_line line = pop_back_if '\r' line := by
  unfold strip_line
  congr 1
  unfold pop_back_if
  rw [if_neg]
  intro hlast
  exact h (List.mem_of_getLast? hlast)

/-- From a line without a terminator nothing is taken off. -/
theorem strip_line_text (l : text_line) : strip_line l.text = l.text := by
  rw [strip_line_of_notMem l.no_newline, pop_back_if, if_neg l.no_return]

/-- Either terminator is taken off by `getline` and the stripping behind it. -/
theorem block_lines_append (l : text_line) (t : terminator) (s : std_string) :
    block_lines (l.text ++ t.chars ++ s) = l.text :: block_lines s := by
  unfold block_lines
  cases t with
  | lf =>
      rw [terminator.chars, List.append_assoc, List.singleton_append,
        getlines_append_newline l.no_newline, List.map_cons, strip_line_text]
  | crlf =>
      have hmem : '\n' ∉ l.text ++ ['\r'] := by
        intro h
        rcases List.mem_append.mp h with h | h
        · exact l.no_newline h
        · exact absurd h (by decide)
      have heq : l.text ++ ['\r', '\n'] ++ s = (l.text ++ ['\r']) ++ '\n' :: s := by simp
      rw [terminator.chars, heq, getlines_append_newline hmem, List.map_cons,
        strip_line_of_notMem hmem, pop_back_if_concat]

/-- A blank line says nothing. -/
theorem described_blank : described [[]] = {} := rfl

/-- The lines of a block say what was written into it, except that an empty text behind
the last terminator is no line, which makes no difference. -/
theorem described_block_of (lines : List (text_line × terminator)) (last : Option text_line) :
    described (block_lines (block_of lines last)) = described (texts lines last) := by
  unfold block_of texts
  induction lines with
  | nil =>
      cases last with
      | none => rfl
      | some l =>
          simp only [List.flatMap_nil, List.nil_append, Option.map_some, Option.getD_some,
            List.map_nil, Option.toList_some]
          rw [block_lines, getlines_of_notMem l.no_newline]
          by_cases hl : l.text = []
          · rw [if_pos hl, hl, described_blank]
            rfl
          · rw [if_neg hl, List.map_singleton, strip_line_text]
  | cons l lines ih =>
      rw [List.flatMap_cons, List.append_assoc, block_lines_append, List.map_cons,
        List.cons_append]
      have hcons : ∀ ls : List std_string,
          described (l.1.text :: ls) = overlay (described [l.1.text]) (described ls) := by
        intro ls
        exact described_append [l.1.text] ls
      rw [hcons, ih]
      exact (hcons _).symm

/-- **What a block says.** It parses to nothing exactly if none of its lines sets a
field; else to the message its lines describe. A comment, a blank line and a line with an
unknown name change no message, and a `retry` line changes at most `retry`. -/
theorem parse_sse_block_of_lines (lines : List (text_line × terminator))
    (last : Option text_line) :
    (parse_sse_block (block_of lines last) = none
        ↔ ∀ line ∈ texts lines last, ¬ SetsField line)
      ∧ (∀ e, parse_sse_block (block_of lines last) = some e
          → e.data = joined (values data_field (texts lines last))
            ∧ e.event = (values event_field (texts lines last)).getLast?
            ∧ e.id = (values id_field (texts lines last)).getLast?
            ∧ e.retry = ((values retry_field (texts lines last)).filterMap from_chars).getLast?)
      ∧ (∀ line ∈ texts lines last, line = [] ∨ line.head? = some ':' ∨ Unknown line →
          ∀ e, parse_sse_line line e = e)
      ∧ (∀ line ∈ texts lines last, field_name line = retry_field →
          ∀ e, ∃ r, parse_sse_line line e = { e with retry := r }) := by
  have hparse := parse_sse_block_described (block_of lines last)
  rw [described_block_of] at hparse
  refine ⟨?_, ?_, ?_, fun line _ h e => ⟨_, parse_sse_line_of_retry h e⟩⟩
  · rw [hparse]
    have hiff := described_valid_iff (texts lines last)
    by_cases hv : (described (texts lines last)).valid = true
    · rw [if_pos hv]
      obtain ⟨line, hline, hsets⟩ := hiff.mp hv
      constructor
      · intro h
        cases h
      · intro h
        exact absurd hsets (h line hline)
    · rw [if_neg hv]
      constructor
      · intro _ line hline hsets
        exact hv (hiff.mpr ⟨line, hline, hsets⟩)
      · intro _
        rfl
  · intro e he
    rw [hparse] at he
    split at he
    · obtain rfl := Option.some.inj he
      exact ⟨rfl, rfl, rfl, rfl⟩
    · cases he
  · intro line _ h e
    apply parse_sse_line_of_unknown
    rcases h with h | h | h
    · exact unknown_of_comment (.inl h)
    · exact unknown_of_comment (.inr h)
    · exact h

/-- Mixed terminators, the last one missing. -/
example : parse_sse_block "data: a\r\n: ping\ndata:b\r\nevent: x\nid".toList
    = some { event := some "x".toList, id := some [], data := some "a\nb".toList } := by
  decide

end CppHttp.SseLines
