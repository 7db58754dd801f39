/-
Which values of a `retry` line `response::parse_sse_line` (`client/response.hpp`) accepts.

The value of the field is a number: digits, and nothing else (`Number`). The parser hands
the text to `std::from_chars`, which reads the digits in front and says where it stopped;
the parser looks at the error code and not at the place. So a text that goes on behind a
number is taken for this number (`NumberAndMore`), and that is the only thing that goes
wrong: `reads_numbers_iff`.
-/
import CppHttp.SseLines

set_option autoImplicit false

namespace CppHttp.RetryValue

open CppHttp.StdString CppHttp.Message CppHttp.SseParse CppHttp.SseLines

/-! ## Numbers -/

/-- The text is digits, and they have this value. -/
structure Number (t : std_string) (v : UInt64) : Prop where
  nonempty : t ≠ []
  digits : ∀ c ∈ t, c.isDigit = true
  value : digits_value t = v.toNat

/-- The number that a text is. -/
def number (t : std_string) : Option UInt64 :=
  if t ≠ [] ∧ t.all Char.isDigit ∧ digits_value t < UInt64.size then
    some (UInt64.ofNat (digits_value t))
  else none

theorem number_eq_some_iff (t : std_string) (v : UInt64) : number t = some v ↔ Number t v := by
  unfold number
  constructor
  · intro h
    by_cases hnum : t ≠ [] ∧ t.all Char.isDigit ∧ digits_value t < UInt64.size
    · rw [if_pos hnum, Option.some.injEq] at h
      obtain ⟨hne, hdigits, hlt⟩ := hnum
      refine ⟨hne, List.all_eq_true.mp hdigits, ?_⟩
      rw [← h, UInt64.toNat_ofNat_of_lt' hlt]
    · rw [if_neg hnum] at h
      cases h
  · intro h
    have hlt : digits_value t < UInt64.size := by
      rw [h.value]
      exact v.toNat_lt_size
    rw [if_pos ⟨h.nonempty, List.all_eq_true.mpr h.digits, hlt⟩, h.value, UInt64.ofNat_toNat]

theorem number_eq_none_iff (t : std_string) : number t = none ↔ ∀ v, ¬ Number t v := by
  rw [Option.eq_none_iff_forall_ne_some]
  simp only [ne_eq, number_eq_some_iff]

/-- What `from_chars` reads is the number in front of the first other character. -/
theorem from_chars_eq (t : std_string) : from_chars t = number (t.takeWhile Char.isDigit) := by
  unfold from_chars number
  have hall : (t.takeWhile Char.isDigit).all Char.isDigit = true := List.all_takeWhile
  by_cases hnil : t.takeWhile Char.isDigit = []
  · simp [hnil]
  · simp only [hall, List.isEmpty_iff, hnil, ne_eq, not_false_iff, true_and, if_false]

/-- A number with something else behind it. -/
def NumberAndMore (t : std_string) : Prop :=
  (number (t.takeWhile Char.isDigit)).isSome ∧ t.dropWhile Char.isDigit ≠ []

/-- Text behind the digits in front: the text is no number. -/
theorem not_number_of_rest {t : std_string} (h : t.dropWhile Char.isDigit ≠ []) (v : UInt64) :
    ¬ Number t v := by
  intro hnum
  exact h (List.dropWhile_eq_nil_iff.mpr hnum.digits)

/-- Only there `from_chars` sees a number where none is. -/
theorem from_chars_of_not_more {t : std_string} (h : ¬ NumberAndMore t) :
    from_chars t = number t := by
  rw [from_chars_eq]
  by_cases hrest : t.dropWhile Char.isDigit = []
  · rw [List.takeWhile_eq_self_iff.mpr (List.dropWhile_eq_nil_iff.mp hrest)]
  · have hfront : number (t.takeWhile Char.isDigit) = none := by
      rw [← Option.not_isSome_iff_eq_none]
      exact fun hsome => h ⟨hsome, hrest⟩
    rw [hfront, (number_eq_none_iff t).mpr (not_number_of_rest hrest)]

/-! ## A line -/

/-- The line sets `retry` to the value, whatever the message is. -/
def Sets (line : std_string) (v : UInt64) : Prop :=
  ∀ e, parse_sse_line line e = { e with retry := some v }

/-- The line sets `retry` if and only if its text is a number, and then to this number;
with any other text it leaves the message as it is. -/
structure ReadsNumber (line : std_string) : Prop where
  sets : ∀ v, Sets line v ↔ Number (field_value line) v
  leaves : (∀ v, ¬ Number (field_value line) v) → ∀ e, parse_sse_line line e = e

theorem sets_iff {line : std_string} (h : field_name line = retry_field) (v : UInt64) :
    Sets line v ↔ from_chars (field_value line) = some v := by
  unfold Sets
  simp only [parse_sse_line_of_retry h]
  constructor
  · intro hsets
    have hretry := congrArg server_sent_event.retry (hsets {})
    rwa [Option.or_none] at hretry
  · intro hv e
    rw [hv, Option.some_or]

/-- A `retry` line is read as it should be, unless it goes on behind a number. -/
theorem reads_number_iff {line : std_string} (h : field_name line = retry_field) :
    ReadsNumber line ↔ ¬ NumberAndMore (field_value line) := by
  constructor
  · rintro hreads ⟨hfront, hrest⟩
    obtain ⟨v, hv⟩ := Option.isSome_iff_exists.mp hfront
    rw [← from_chars_eq] at hv
    exact not_number_of_rest hrest v ((hreads.sets v).mp ((sets_iff h v).mpr hv))
  · intro hmore
    have hchars := from_chars_of_not_more hmore
    refine ⟨?_, ?_⟩
    · intro v
      rw [sets_iff h, hchars, number_eq_some_iff]
    · intro hnone e
      rw [parse_sse_line_of_retry h, hchars, (number_eq_none_iff _).mpr hnone, Option.none_or]

/-! ## A block -/

/-- Every `retry` line of the block is read as it should be, and the last number among
their texts is the `retry` of the message. -/
structure ReadsNumbers (block : std_string) : Prop where
  lines : ∀ line ∈ block_lines block, field_name line = retry_field → ReadsNumber line
  last : (parse_sse_block block).bind server_sent_event.retry
    = ((values retry_field (block_lines block)).filterMap number).getLast?

/-- The `retry` of a block is that of its lines: without a message there is none. -/
theorem parse_sse_block_retry (block : std_string) :
    (parse_sse_block block).bind server_sent_event.retry
      = ((values retry_field (block_lines block)).filterMap from_chars).getLast? := by
  rw [parse_sse_block_described]
  by_cases hvalid : (described (block_lines block)).valid = true
  · rw [if_pos hvalid]
    rfl
  · rw [if_neg hvalid]
    have hnone : (described (block_lines block)).retry = none := by
      unfold server_sent_event.valid at hvalid
      simp only [Bool.or_eq_true, not_or, Option.not_isSome_iff_eq_none] at hvalid
      exact hvalid.2
    exact hnone.symm

theorem mem_values {name t : std_string} {lines : List std_string} :
    t ∈ values name lines
      ↔ ∃ line ∈ lines, field_name line = name ∧ field_value line = t := by
  simp [values, List.mem_filterMap]

/-- **A block's `retry` lines are read as numbers** exactly if none of their texts goes on
behind a number. -/
theorem reads_numbers_iff (block : std_string) :
    ReadsNumbers block
      ↔ ∀ t ∈ values retry_field (block_lines block), ¬ NumberAndMore t := by
  constructor
  · intro h t ht
    obtain ⟨line, hline, hname, rfl⟩ := mem_values.mp ht
    exact (reads_number_iff hname).mp (h.lines line hline hname)
  · intro h
    refine ⟨?_, ?_⟩
    · intro line hline hname
      exact (reads_number_iff hname).mpr (h _ (mem_values.mpr ⟨line, hline, hname, rfl⟩))
    · rw [parse_sse_block_retry,
        List.filterMap_congr fun t ht => from_chars_of_not_more (h t ht)]

/-- The block `retry: 12x`. -/
theorem garbage_behind_number : ¬ ReadsNumbers "retry: 12x\n".toList := by
  intro h
  exact absurd h.last (by decide)

end CppHttp.RetryValue
