/-
Encoding an event and decoding it again.

`to_http_chunk` writes one `name: value` line for each field that is set and copies the
value as it is; `parse_sse_block` reads lines. So a value is read back up to its first
`'\n'`, and what stands behind that is read as lines of its own (`injected`). Everything
here follows from one equation, `block_meaning`: the decoded message is the messages of
the four fields laid over each other, and each text field contributes its own line and
what it injects.

Two things are settled. An event with single-line names and without `'\r'` survives if
and only if its data is a single line (`decode_encode_iff`): the decoder joins successive
`data` lines with `'\n'`, and the encoder never writes a second one, so a text with a
`'\n'` in it comes back shorter. And two events that differ in one text decode to the
same other fields if and only if what the two texts inject agrees, as far as it is not
overwritten by what stands behind it (`others_agree_iff`); texts without `'\n'` inject
nothing (`injected_of_notMem`).
-/
import CppHttp.SseLines

set_option autoImplicit false

namespace CppHttp.SseRoundTrip

open CppHttp.StdString CppHttp.Message CppHttp.SseParse CppHttp.SseLines

/-! ## Numbers -/

/-- A number survives `std::to_string` and `std::from_chars`. -/
theorem from_chars_to_string (v : UInt64) : from_chars (to_string v) = some v := by
  have hdigits : (to_string v).takeWhile Char.isDigit = to_string v := by
    apply List.takeWhile_eq_self_iff.mpr
    intro c hc
    exact Nat.isDigit_of_mem_toDigits (by decide) (by decide) hc
  have hne : (to_string v).isEmpty = false := by
    simp [to_string]
  have hvalue : digits_value (to_string v) = v.toNat := by
    rw [digits_value, ← Nat.ofDigitChars_eq_foldl]
    exact Nat.ofDigitChars_ten_toDigits
  unfold from_chars
  simp only [hdigits, hne, hvalue, Bool.false_eq_true, if_false]
  rw [if_pos v.toNat_lt_size, UInt64.ofNat_toNat]

/-! ## Texts that end with their terminator -/

/-- The message of a text read as a block. -/
def meaning (text : std_string) : server_sent_event := described (block_lines text)

theorem getlines_append (s t : std_string) :
    getlines (s ++ '\n' :: t) = getlines (s ++ ['\n']) ++ getlines t := by
  induction s with
  | nil => simp [getlines]
  | cons c s ih =>
      have hne : getlines (s ++ ['\n']) ≠ [] := by
        rw [getlines_eq_complete_lines]
        exact complete_lines_ne_nil s
      rw [List.cons_append, List.cons_append, getlines, getlines, ih]
      cases hl : getlines (s ++ ['\n']) with
      | nil => exact absurd hl hne
      | cons l ls => split <;> rfl

/-- The text is empty or ends with its terminator. -/
def Terminated (s : std_string) : Prop := s = [] ∨ ∃ t, s = t ++ ['\n']

theorem Terminated.append {s t : std_string} (hs : Terminated s) (ht : Terminated t) :
    Terminated (s ++ t) := by
  rcases ht with rfl | ⟨u, rfl⟩
  · rw [List.append_nil]
    exact hs
  · exact .inr ⟨s ++ u, by simp⟩

theorem field_line_terminated (name : std_string) (v : Option std_string) :
    Terminated (field_line name v) := by
  cases v with
  | none => exact .inl rfl
  | some v => exact .inr ⟨name ++ v, by simp [field_line]⟩

/-- What stands behind a terminated text is laid over it. -/
theorem meaning_append {s : std_string} (hs : Terminated s) (t : std_string) :
    meaning (s ++ t) = overlay (meaning s) (meaning t) := by
  rcases hs with rfl | ⟨u, rfl⟩
  · exact (default_overlay _).symm
  · unfold meaning block_lines
    rw [List.append_assoc, List.singleton_append, getlines_append, List.map_append,
      described_append]

/-! ## One field of the encoding -/

/-- The text in front of the first `'\n'`. -/
def first_line (v : std_string) : std_string := v.takeWhile (· ≠ '\n')

/-- What a value says behind its first `'\n'`, where it is read as lines. -/
def injected (v : std_string) : server_sent_event :=
  match v.dropWhile (· ≠ '\n') with
  | [] => {}
  | _ :: s => meaning (s ++ ['\n'])

/-- A value without `'\n'` is its first line and injects nothing; another one goes on
behind its first line with what it injects. -/
theorem value_cases (v : std_string) :
    ('\n' ∉ v ∧ first_line v = v ∧ injected v = {})
      ∨ ∃ s, v = first_line v ++ '\n' :: s ∧ injected v = meaning (s ++ ['\n']) := by
  by_cases h : '\n' ∈ v
  · right
    induction v with
    | nil => cases h
    | cons c v ih =>
        by_cases hc : c = '\n'
        · subst hc
          exact ⟨v, by simp [first_line], by simp [injected]⟩
        · have hv : '\n' ∈ v := (List.mem_cons.mp h).resolve_left (Ne.symm hc)
          obtain ⟨s, hs, hinj⟩ := ih hv
          refine ⟨s, ?_, ?_⟩
          · rw [show first_line (c :: v) = c :: first_line v by simp [first_line, hc],
              List.cons_append, ← hs]
          · rw [← hinj]
            simp [injected, hc]
  · refine .inl ⟨h, takeWhile_ne_eq_self h, ?_⟩
    unfold injected
    rw [dropWhile_ne_eq_nil h]

theorem injected_of_notMem {v : std_string} (h : '\n' ∉ v) : injected v = {} := by
  rcases value_cases v with ⟨-, -, hinj⟩ | ⟨s, hs, -⟩
  · exact hinj
  · rw [hs] at h
    exact absurd (by simp) h

theorem newline_notMem_first_line (v : std_string) : '\n' ∉ first_line v :=
  notMem_takeWhile_ne '\n' v

/-- The line `name: value`, as it is written and as the parser sees it. -/
def named_line (name value : std_string) : std_string := name ++ (':' :: ' ' :: value)

theorem field_name_named_line {name : std_string} (h : ':' ∉ name) (value : std_string) :
    field_name (named_line name value) = name := by
  unfold field_name named_line
  rw [takeWhile_ne_append h]
  simp

theorem field_value_named_line {name : std_string} (h : ':' ∉ name) (value : std_string) :
    field_value (named_line name value) = value := by
  unfold field_value named_line
  rw [dropWhile_ne_append h]
  simp [strip_blank]

/-- The blank behind the colon keeps the name out of reach of the stripping. -/
theorem strip_named_line {name value : std_string} (hname : '\n' ∉ name)
    (hvalue : '\n' ∉ value) :
    strip_line (named_line name value) = named_line name (pop_back_if '\r' value) := by
  have hmem : '\n' ∉ named_line name value := by
    simp [named_line, hname, hvalue]
  rw [strip_line_of_notMem hmem]
  unfold named_line pop_back_if
  rcases List.eq_nil_or_concat value with rfl | ⟨u, c, rfl⟩
  · simp
  · have hlast : (name ++ ':' :: ' ' :: (u ++ [c])).getLast? = some c := by
      rw [show name ++ ':' :: ' ' :: (u ++ [c]) = (name ++ ':' :: ' ' :: u) ++ [c] by simp,
        List.getLast?_concat]
    rw [List.concat_eq_append, hlast, List.getLast?_concat]
    by_cases hc : c = '\r'
    · subst hc
      rw [if_pos rfl, if_pos rfl, List.dropLast_concat,
        show name ++ ':' :: ' ' :: (u ++ ['\r']) = (name ++ ':' :: ' ' :: u) ++ ['\r'] by simp,
        List.dropLast_concat]
    · have hne : some c ≠ some '\r' := fun heq => hc (Option.some.inj heq)
      rw [if_neg hne, if_neg hne]

/-- A written field is read as its first line, and as what it injects. -/
theorem meaning_field_line {name : std_string} (hname : '\n' ∉ name) (v : std_string) :
    meaning (field_line (name ++ ": ".toList) (some v))
      = overlay (described [named_line name (pop_back_if '\r' (first_line v))])
          (injected v) := by
  have hfirst := newline_notMem_first_line v
  have hmem : '\n' ∉ named_line name (first_line v) := by
    simp [named_line, hname, hfirst]
  have hline : meaning (named_line name (first_line v) ++ ['\n'])
      = described [named_line name (pop_back_if '\r' (first_line v))] := by
    unfold meaning block_lines
    rw [getlines_append_newline hmem, getlines, List.map_singleton,
      strip_named_line hname hfirst]
  have hterm : Terminated (named_line name (first_line v) ++ ['\n']) := .inr ⟨_, rfl⟩
  rcases value_cases v with ⟨-, hv, hinj⟩ | ⟨s, hv, hinj⟩
  · have htext : field_line (name ++ ": ".toList) (some v)
        = named_line name (first_line v) ++ ['\n'] := by
      rw [hv]
      simp [field_line, named_line]
    rw [htext, hline, hinj, overlay_default]
  · have htext : field_line (name ++ ": ".toList) (some v)
        = (named_line name (first_line v) ++ ['\n']) ++ (s ++ ['\n']) := by
      conv_lhs => rw [hv]
      simp [field_line, named_line]
    rw [htext, meaning_append hterm, hline, hinj]

/-! ## The encoding of an event -/

/-- The text fields of an event. -/
inductive text_field
  | event
  | id
  | data
  deriving DecidableEq, Repr

def text_field.name : text_field → std_string
  | .event => event_field
  | .id => id_field
  | .data => data_field

/-- The event with this field set or removed. -/
def text_field.put (f : text_field) (e : server_sent_event) (v : Option std_string) :
    server_sent_event :=
  match f with
  | .event => { e with event := v }
  | .id => { e with id := v }
  | .data => { e with data := v }

/-- What a text field contributes to the decoded message: its first line, less a `'\r'` at
the end, and what it injects. -/
def contribution (f : text_field) : Option std_string → server_sent_event
  | none => {}
  | some v => overlay (f.put {} (some (pop_back_if '\r' (first_line v)))) (injected v)

theorem described_named_line (f : text_field) (value : std_string) :
    described [named_line f.name value] = f.put {} (some value) := by
  have hcolon : ':' ∉ f.name := by cases f <;> decide
  rw [described_singleton, field_name_named_line hcolon, field_value_named_line hcolon]
  cases f with
  | event => rfl
  | id => rfl
  | data => rfl

theorem meaning_text_field (f : text_field) (v : Option std_string) :
    meaning (field_line (f.name ++ ": ".toList) v) = contribution f v := by
  cases v with
  | none => rfl
  | some v =>
      have hname : '\n' ∉ f.name := by cases f <;> decide
      rw [meaning_field_line hname, described_named_line]
      rfl

/-- The `retry` line is read as the number it was written from. -/
theorem meaning_retry (v : Option UInt64) :
    meaning (field_line (retry_field ++ ": ".toList) (v.map to_string)) = { retry := v } := by
  cases v with
  | none => rfl
  | some v =>
      have hmem := newline_notMem_to_string v
      have hfirst : first_line (to_string v) = to_string v := by
        rcases value_cases (to_string v) with ⟨-, h, -⟩ | ⟨s, h, -⟩
        · exact h
        · rw [h] at hmem
          exact absurd (by simp) hmem
      have hpop : pop_back_if '\r' (to_string v) = to_string v := by
        unfold pop_back_if
        rw [if_neg]
        intro hlast
        have hd := Nat.isDigit_of_mem_toDigits (by decide) (by decide)
          (List.mem_of_getLast? hlast)
        exact absurd hd (by decide)
      have hcolon : ':' ∉ retry_field := by decide
      rw [Option.map_some, meaning_field_line (by decide), injected_of_notMem hmem,
        overlay_default, hfirst, hpop]
      rw [described_singleton, field_name_named_line hcolon, field_value_named_line hcolon,
        apply_field_retry, from_chars_to_string]
      rfl

/-- **The decoded message of an encoded event** is what its fields contribute, in the order
they are written. -/
theorem block_meaning (e : server_sent_event) :
    meaning e.to_http_chunk.chunked_body
      = overlay (overlay (overlay (contribution .event e.event) (contribution .id e.id))
          (contribution .data e.data)) { retry := e.retry } := by
  have hevent := field_line_terminated (text_field.event.name ++ ": ".toList) e.event
  have hid := field_line_terminated (text_field.id.name ++ ": ".toList) e.id
  have hdata := field_line_terminated (text_field.data.name ++ ": ".toList) e.data
  rw [← meaning_text_field, ← meaning_text_field, ← meaning_text_field, ← meaning_retry,
    ← meaning_append hevent, ← meaning_append (hevent.append hid),
    ← meaning_append ((hevent.append hid).append hdata)]
  rfl

theorem parse_encoded (e : server_sent_event) :
    parse_sse_block e.to_http_chunk.chunked_body
      = if (meaning e.to_http_chunk.chunked_body).valid
        then some (meaning e.to_http_chunk.chunked_body) else none :=
  parse_sse_block_described _

/-! ## Which events survive -/

/-- A value without terminators is read back. -/
theorem contribution_of_single_line (f : text_field) {v : Option std_string}
    (h : ∀ w ∈ v, '\n' ∉ w ∧ '\r' ∉ w) : contribution f v = f.put {} v := by
  cases v with
  | none => cases f <;> rfl
  | some w =>
      obtain ⟨hn, hr⟩ := h w rfl
      have hpop : pop_back_if '\r' w = w := by
        unfold pop_back_if
        rw [if_neg]
        intro hlast
        exact hr (List.mem_of_getLast? hlast)
      have hfirst : first_line w = w := by
        rcases value_cases w with ⟨-, h, -⟩ | ⟨s, h, -⟩
        · exact h
        · rw [h] at hn
          exact absurd (by simp) hn
      rw [contribution, injected_of_notMem hn, overlay_default, hfirst, hpop]

/-- The characters of the lines, each with a terminator. -/
def size : List std_string → ℕ
  | [] => 0
  | l :: ls => l.length + 1 + size ls

theorem size_getlines_le (s : std_string) : size (getlines s) ≤ s.length + 1 := by
  induction s with
  | nil => exact Nat.zero_le _
  | cons c s ih =>
      rw [getlines]
      by_cases hc : c = '\n'
      · rw [if_pos hc]
        simp only [size, List.length_nil, List.length_cons] at ih ⊢
        omega
      · rw [if_neg hc]
        cases hl : getlines s with
        | nil => simp [size]
        | cons l ls =>
            rw [hl] at ih
            simp only [size, List.length_cons] at ih ⊢
            omega

theorem strip_line_length_le (l : std_string) : (strip_line l).length ≤ l.length := by
  have hpop : ∀ c (s : std_string), (pop_back_if c s).length ≤ s.length := by
    intro c s
    unfold pop_back_if
    split
    · rw [List.length_dropLast]
      omega
    · exact Nat.le_refl _
  exact Nat.le_trans (hpop _ _) (hpop _ _)

theorem size_map_strip_le (ls : List std_string) : size (ls.map strip_line) ≤ size ls := by
  induction ls with
  | nil => exact Nat.le_refl _
  | cons l ls ih =>
      have := strip_line_length_le l
      simp only [size, List.map_cons] at ih ⊢
      omega

/-- The `data` values of some lines are shorter than the lines: each loses its name. -/
theorem size_values_data (ls : List std_string) :
    size (values data_field ls) + 4 * (values data_field ls).length ≤ size ls := by
  induction ls with
  | nil => exact Nat.le_refl _
  | cons l ls ih =>
      rw [show values data_field (l :: ls)
        = values data_field [l] ++ values data_field ls from values_append _ [l] ls]
      rw [values_singleton]
      have hlen := field_value_length_le l
      by_cases h : field_name l = data_field
      · have hname : (field_name l).length = 4 := by rw [h]; rfl
        rw [if_pos h]
        simp only [size, List.singleton_append, List.length_cons] at ih ⊢
        omega
      · rw [if_neg h, List.nil_append]
        simp only [size] at ih ⊢
        omega

/-- Joining keeps the size, less one terminator. -/
theorem joined_length {vs : List std_string} {w : std_string} (h : joined vs = some w) :
    w.length + 1 = size vs ∧ vs ≠ [] := by
  cases vs with
  | nil => cases h
  | cons v vs =>
      have hflat : ∀ us : List std_string, (us.flatMap fun u => '\n' :: u).length = size us := by
        intro us
        induction us with
        | nil => rfl
        | cons u us ih =>
            simp only [size, List.flatMap_cons, List.length_append, List.length_cons] at ih ⊢
            omega
      rw [joined_cons] at h
      obtain rfl := Option.some.inj h
      refine ⟨?_, by simp⟩
      rw [List.length_append, hflat]
      simp only [size]
      omega

/-- The data a text says are shorter than the text. -/
theorem meaning_data_length {text w : std_string} (h : (meaning text).data = some w) :
    w.length + 4 ≤ text.length := by
  obtain ⟨hw, hne⟩ := joined_length h
  have hvalues := size_values_data (block_lines text)
  have hstrip := size_map_strip_le (getlines text)
  have hlines := size_getlines_le text
  have hpos := List.length_pos_iff.mpr hne
  unfold block_lines at *
  omega

/-- Data with a `'\n'` in it come back shorter: what stands behind the `'\n'` is not a
`data` line that says itself. -/
theorem contribution_data_shorter {v : std_string} (h : '\n' ∈ v) :
    ∃ w, (contribution .data (some v)).data = some w ∧ w.length < v.length := by
  rcases value_cases v with ⟨hn, -, -⟩ | ⟨s, hv, hinj⟩
  · exact absurd h hn
  · have hlen : v.length = (first_line v).length + (s.length + 1) := by
      conv_lhs => rw [hv]
      rw [List.length_append, List.length_cons]
    have hpop : (pop_back_if '\r' (first_line v)).length ≤ (first_line v).length := by
      unfold pop_back_if
      split
      · rw [List.length_dropLast]
        omega
      · exact Nat.le_refl _
    cases hd : (injected v).data with
    | none =>
        refine ⟨pop_back_if '\r' (first_line v), ?_, by omega⟩
        simp [contribution, overlay, text_field.put, hd, Option.merge]
    | some w =>
        have hw : w.length + 4 ≤ (s ++ ['\n']).length := by
          rw [hinj] at hd
          exact meaning_data_length hd
        rw [List.length_append, List.length_singleton] at hw
        refine ⟨pop_back_if '\r' (first_line v) ++ '\n' :: w, ?_, ?_⟩
        · simp [contribution, overlay, text_field.put, hd, Option.merge]
        · rw [List.length_append, List.length_cons]
          omega

/-- **Which events survive.** With single-line names and no `'\r'` an event is decoded
from its encoding if and only if its data is a single line. -/
theorem decode_encode_iff (e : server_sent_event) (hvalid : e.valid = true)
    (hevent : ∀ v ∈ e.event, '\n' ∉ v ∧ '\r' ∉ v) (hid : ∀ v ∈ e.id, '\n' ∉ v ∧ '\r' ∉ v)
    (hdata : ∀ v ∈ e.data, '\r' ∉ v) :
    parse_sse_block e.to_http_chunk.chunked_body = some e ↔ ∀ v ∈ e.data, '\n' ∉ v := by
  have hbody := block_meaning e
  rw [contribution_of_single_line .event hevent, contribution_of_single_line .id hid] at hbody
  rw [parse_encoded]
  constructor
  · intro h v hv hn
    -- the data of the decoded event are shorter
    obtain ⟨w, hw, hlt⟩ := contribution_data_shorter hn
    have hmem : e.data = some v := hv
    rw [hmem] at hbody
    have hdec : (meaning e.to_http_chunk.chunked_body).data = some w := by
      rw [hbody]
      simp [overlay, text_field.put, hw, Option.merge]
    split at h
    · rw [Option.some.inj h, hmem] at hdec
      obtain rfl := Option.some.inj hdec
      exact absurd hlt (Nat.lt_irrefl _)
    · cases h
  · intro h
    have heq : meaning e.to_http_chunk.chunked_body = e := by
      rw [hbody, contribution_of_single_line .data fun v hv => ⟨h v hv, hdata v hv⟩]
      obtain ⟨event, id, data, retry⟩ := e
      cases data <;> simp [overlay, text_field.put, Option.merge]
    rw [heq, if_pos hvalid]

/-- All four fields, with blanks, colons and the largest number. -/
theorem decode_encode_iff_all_fields :
    ({ event := some " a:b".toList, id := some [], data := some "data: x".toList,
       retry := some 18446744073709551615 } : server_sent_event).valid = true
      ∧ (parse_sse_block
            ({ event := some " a:b".toList, id := some [], data := some "data: x".toList,
               retry := some 18446744073709551615 } : server_sent_event).to_http_chunk.chunked_body
          = some
            { event := some " a:b".toList, id := some [], data := some "data: x".toList,
              retry := some 18446744073709551615 }
          ↔ ∀ v ∈ some "data: x".toList, '\n' ∉ v) :=
  ⟨by decide, decode_encode_iff _ (by decide) (by decide) (by decide) (by decide)⟩

/-- Two lines of data come back as the first. -/
theorem two_lines_of_data_lost :
    ¬ ∀ e : server_sent_event, e.valid = true →
        (∀ v ∈ e.event, '\n' ∉ v ∧ '\r' ∉ v) → (∀ v ∈ e.id, '\n' ∉ v ∧ '\r' ∉ v) →
        (∀ v ∈ e.data, '\r' ∉ v) → parse_sse_block e.to_http_chunk.chunked_body = some e := by
  intro h
  have := h { data := some "a\nb".toList } (by decide) (by decide) (by decide) (by decide)
  exact absurd this (by decide)

/-! ## What a text does to the other fields -/

/-- What is written in front of a text field. -/
def in_front (f : text_field) (e : server_sent_event) : server_sent_event :=
  match f with
  | .event => {}
  | .id => contribution .event e.event
  | .data => overlay (contribution .event e.event) (contribution .id e.id)

/-- What is written behind it. -/
def behind (f : text_field) (e : server_sent_event) : server_sent_event :=
  match f with
  | .event =>
      overlay (overlay (contribution .id e.id) (contribution .data e.data)) { retry := e.retry }
  | .id => overlay (contribution .data e.data) { retry := e.retry }
  | .data => { retry := e.retry }

theorem block_meaning_put (f : text_field) (e : server_sent_event) (v : std_string) :
    meaning (f.put e (some v)).to_http_chunk.chunked_body
      = overlay (in_front f e) (overlay (contribution f (some v)) (behind f e)) := by
  rw [block_meaning]
  cases f with
  | event => simp only [text_field.put, in_front, behind, default_overlay, overlay_assoc]
  | id => simp only [text_field.put, in_front, behind, overlay_assoc]
  | data => simp only [text_field.put, in_front, behind, overlay_assoc]

/-- The two texts inject the same into the other fields, as far as it can be seen: a
field that is set again behind them hides what they inject, and where one of them injects
nothing the value in front of them shows. -/
def InjectSame (f : text_field) (e : server_sent_event) (v w : std_string) : Prop :=
  (f ≠ .event → (behind f e).event = none →
      (injected v).event.or (in_front f e).event = (injected w).event.or (in_front f e).event)
    ∧ (f ≠ .id → (behind f e).id = none →
      (injected v).id.or (in_front f e).id = (injected w).id.or (in_front f e).id)
    ∧ (f ≠ .data → (injected v).data = (injected w).data)
    ∧ ((behind f e).retry = none →
      (injected v).retry.or (in_front f e).retry = (injected w).retry.or (in_front f e).retry)

/-- The decoded event without one field. -/
def others (f : text_field) (v : std_string) (e : server_sent_event) :
    Option server_sent_event :=
  (parse_sse_block (f.put e (some v)).to_http_chunk.chunked_body).map fun d => f.put d none

/-- What comes last wins, so a difference shows only where nothing comes behind it. -/
theorem or_or_eq_iff {α : Type} (b x y a : Option α) :
    b.or (x.or a) = b.or (y.or a) ↔ (b = none → x.or a = y.or a) := by
  cases b with
  | none => simp
  | some b => simp

/-- Data are joined, so nothing in front of them hides a difference, -/
theorem merge_left_cancel {a x y : Option std_string}
    (h : Option.merge (fun s t => s ++ '\n' :: t) a x
      = Option.merge (fun s t => s ++ '\n' :: t) a y) : x = y := by
  cases a with
  | none => simpa using h
  | some s =>
      have hlen : ∀ t : std_string, s ≠ s ++ '\n' :: t := by
        intro t heq
        simpa using congrArg List.length heq
      cases x with
      | none =>
          cases y with
          | none => rfl
          | some t => exact absurd (Option.some.inj h) (hlen t)
      | some u =>
          cases y with
          | none => exact absurd (Option.some.inj h).symm (hlen u)
          | some t => simpa [Option.merge] using h

/-- and nothing behind them does. -/
theorem merge_right_cancel {b x y : Option std_string}
    (h : Option.merge (fun s t => s ++ '\n' :: t) x b
      = Option.merge (fun s t => s ++ '\n' :: t) y b) : x = y := by
  cases b with
  | none => simpa using h
  | some s =>
      have hlen : ∀ t : std_string, s ≠ t ++ '\n' :: s := by
        intro t heq
        have := congrArg List.length heq
        rw [List.length_append, List.length_cons] at this
        omega
      cases x with
      | none =>
          cases y with
          | none => rfl
          | some t => exact absurd (Option.some.inj h) (hlen t)
      | some u =>
          cases y with
          | none => exact absurd (Option.some.inj h).symm (hlen u)
          | some t => simpa [Option.merge] using h

/-- The varied field is set, so the encoding decodes to something. -/
theorem others_eq (f : text_field) (e : server_sent_event) (v : std_string) :
    others f v e
      = some (f.put (overlay (in_front f e) (overlay (injected v) (behind f e))) none) := by
  have hm := block_meaning_put f e v
  have hvalid : (meaning (f.put e (some v)).to_http_chunk.chunked_body).valid = true := by
    have hput : (f.put {} (some (pop_back_if '\r' (first_line v)))).valid = true := by
      cases f <;> rfl
    rw [hm, contribution, overlay_valid, overlay_valid, overlay_valid, hput]
    simp
  unfold others
  rw [parse_encoded, if_pos hvalid, Option.map_some, hm]
  -- the value's own line sets the field that is left out
  cases f with
  | event => simp [contribution, overlay, text_field.put]
  | id => simp [contribution, overlay, text_field.put]
  | data => simp [contribution, overlay, text_field.put]

/-- **Two events that differ in one text** decode to the same other fields if and only if
the two texts inject the same into them. -/
theorem others_agree_iff (f : text_field) (e : server_sent_event) (v w : std_string) :
    others f v e = others f w e ↔ InjectSame f e v w := by
  rw [others_eq, others_eq, Option.some.injEq]
  unfold InjectSame
  have hdata : Option.merge (fun s t => s ++ '\n' :: t) (in_front f e).data
        (Option.merge (fun s t => s ++ '\n' :: t) (injected v).data (behind f e).data)
      = Option.merge (fun s t => s ++ '\n' :: t) (in_front f e).data
        (Option.merge (fun s t => s ++ '\n' :: t) (injected w).data (behind f e).data)
      ↔ (injected v).data = (injected w).data := by
    constructor
    · intro h
      exact merge_right_cancel (merge_left_cancel h)
    · intro h
      rw [h]
  cases f with
  | event => simp [text_field.put, overlay, hdata, or_or_eq_iff, Option.or_assoc]
  | id => simp [text_field.put, overlay, hdata, or_or_eq_iff, Option.or_assoc]
  | data => simp [text_field.put, overlay, or_or_eq_iff, Option.or_assoc]

/-- An `id` is injected through the data. -/
theorem id_injected_through_data :
    others .data "x\nid: 7".toList {} ≠ others .data "x".toList {} := by
  decide

end CppHttp.SseRoundTrip
