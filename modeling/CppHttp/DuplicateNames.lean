/-
Whether `path_params_matcher::path_params_matcher` (`server/matcher.hpp`) reports a capture
name that a route pattern uses twice.

The constructor has a set for the names it has seen, looks every name up in it, and has a
message for a name that it finds there. What it does not do is insert a name. So it finds
none, whatever text its loop runs on (`extract_names`); and it runs on the empty one
(`Matcher.make_spec`).

What it should report is said without the loop. `capture_names` reads the names off the
markers of the pattern, `extract_names` shows that these are the ones the loop cuts out, and
`repeats` lists the occurrences that a set filled on the way would have met before.
-/
import CppHttp.Extraction

set_option autoImplicit false

namespace CppHttp.DuplicateNames

open CppHttp.StdString CppHttp.Matcher CppHttp.Extraction

/-! ## The names of a pattern -/

/-- The names of the captures: behind every `"/:"` the text up to the next `/`. -/
def capture_names : std_string → List std_string
  | [] => []
  | c :: s =>
      if marker.isPrefixOf (c :: s) then segment (s.drop 1) :: capture_names s
      else capture_names s

theorem capture_names_skip {c : Char} {s : std_string}
    (h : ¬ marker <+: c :: s) : capture_names (c :: s) = capture_names s := by
  rw [capture_names, if_neg]
  rwa [List.isPrefixOf_iff_prefix]

/-- A text without `/` has no marker, and none begins in it. -/
theorem capture_names_slash_free {w : std_string} (hw : '/' ∉ w) (rest : std_string) :
    capture_names (w ++ rest) = capture_names rest := by
  induction w with
  | nil => rfl
  | cons c w ih =>
      rw [List.mem_cons, not_or] at hw
      rw [List.cons_append, capture_names_skip, ih hw.2]
      intro h
      exact hw.1 (List.cons_prefix_cons.mp h).1

theorem capture_names_of_not_infix {s : std_string} (h : ¬ marker <:+: s) :
    capture_names s = [] := by
  induction s with
  | nil => rfl
  | cons c s ih =>
      rw [List.infix_cons_iff, not_or] at h
      rw [capture_names_skip h.1, ih h.2]

/-- In front of the first marker there is no name. -/
theorem capture_names_before {pre : std_string} (h : ¬ marker <:+: pre ++ ['/'])
    (tail : std_string) :
    capture_names (pre ++ (marker ++ tail)) = capture_names (marker ++ tail) := by
  induction pre with
  | nil => rfl
  | cons c pre ih =>
      rw [List.cons_append, List.infix_cons_iff, not_or] at h
      rw [List.cons_append, capture_names_skip, ih h.2]
      intro hprefix
      -- a marker at this place would end in front of the one behind `pre`
      have hwhole : c :: (pre ++ (marker ++ tail)) = c :: (pre ++ ['/']) ++ (':' :: tail) := by
        simp [marker]
      rw [hwhole] at hprefix
      exact h.1 (List.prefix_of_prefix_length_le hprefix (List.prefix_append _ _)
        (by simp [marker]))

theorem capture_names_marker (tail : std_string) :
    capture_names (marker ++ tail)
      = segment tail :: capture_names (tail.dropWhile (· ≠ '/')) := by
  have hseg : '/' ∉ ':' :: segment tail := by
    rw [List.mem_cons, not_or]
    exact ⟨by decide, slash_not_mem_segment tail⟩
  have hrest : capture_names (':' :: tail) = capture_names (tail.dropWhile (· ≠ '/')) := by
    conv_lhs => rw [← List.takeWhile_append_dropWhile (p := (· ≠ '/')) (l := tail)]
    exact capture_names_slash_free hseg _
  rw [← hrest]
  rfl

/-! ## What the loop finds and prints -/

/-- The invariant: the names so far and those of the text that is left are the names of
the pattern; no name has been put into the set, and nothing has been printed. -/
structure NamesRead (s : std_string) (st : extraction) : Prop where
  names : st.param_names_ ++ capture_names (unread s st) = capture_names s
  unseen : st.param_name_set = []
  silent : st.cerr = []

theorem namesRead_advance {s : std_string} (st : extraction) (pre tail : std_string)
    (h : NamesRead s st) (hsplit : unread s st = pre ++ (marker ++ tail))
    (hfirst : ¬ marker <:+: pre ++ ['/']) : NamesRead s (advance s st pre tail) where
  names := by
    have hnames := h.names
    rw [hsplit, capture_names_before hfirst, capture_names_marker] at hnames
    rw [unread_advance hsplit, ← hnames]
    exact List.append_assoc _ _ _
  unseen := h.unseen
  silent := by
    have hnew : ¬ st.param_name_set.contains (segment tail) = true := by
      rw [h.unseen, List.contains_nil]
      exact Bool.false_ne_true
    exact (if_neg hnew).trans h.silent

/-- The loop finds the names of its text, and prints nothing. -/
theorem extract_names (s : std_string) :
    ∃ st, extract s = .ok st ∧ st.param_names_ = capture_names s ∧ st.cerr = [] := by
  obtain ⟨st, hread, hnone, hrun⟩ :=
    extract_rule (I := NamesRead s) ⟨rfl, rfl, rfl⟩ namesRead_advance
  have hnames : st.param_names_ = capture_names s := by
    rw [← hread.names, capture_names_of_not_infix hnone, List.append_nil]
  refine ⟨with_rest s st, hrun _ substr_or_throw_right, ?_, ?_⟩
  · unfold with_rest
    by_cases hend : st.last_param_end < s.length
    · rwa [if_pos hend]
    · rwa [if_neg hend]
  · unfold with_rest
    by_cases hend : st.last_param_end < s.length
    · rw [if_pos hend]
      exact hread.silent
    · rw [if_neg hend]
      exact hread.silent

/-! ## When that is right -/

/-- The occurrences of a name behind its first, with the names that have been seen. -/
def repeats (seen : List std_string) : List std_string → List std_string
  | [] => []
  | name :: names =>
      if seen.contains name then name :: repeats seen names else repeats (name :: seen) names

theorem repeats_of_nodup {names : List std_string} (h : names.Nodup) (seen : List std_string)
    (hnew : ∀ name ∈ names, name ∉ seen) : repeats seen names = [] := by
  induction names generalizing seen with
  | nil => rfl
  | cons name names ih =>
      rw [List.nodup_cons] at h
      have hunseen : ¬ seen.contains name = true := by
        rw [List.contains_iff_mem]
        exact hnew name List.mem_cons_self
      rw [repeats, if_neg hunseen]
      apply ih h.2
      intro other hother
      rw [List.mem_cons, not_or]
      refine ⟨?_, hnew other (List.mem_cons_of_mem _ hother)⟩
      rintro rfl
      exact h.1 hother

/-- What should be printed for a pattern: something exactly if some name occurs at least
twice, and one message for every occurrence behind the first. -/
structure Reports (pattern : std_string) (cerr : List std_string) : Prop where
  reported : cerr ≠ [] ↔ ∃ name, 2 ≤ (capture_names pattern).count name
  messages : cerr = (repeats [] (capture_names pattern)).map (duplicate_message · pattern)

theorem reports_nil_iff (pattern : std_string) :
    Reports pattern [] ↔ (capture_names pattern).Nodup := by
  constructor
  · intro h
    rw [List.nodup_iff_count_le_one]
    intro name
    by_contra htwice
    exact h.reported.mpr ⟨name, by omega⟩ rfl
  · intro h
    refine ⟨?_, ?_⟩
    · constructor
      · intro hne
        exact absurd rfl hne
      · rintro ⟨name, htwice⟩
        have := List.nodup_iff_count_le_one.mp h name
        omega
    · rw [repeats_of_nodup h [] (by simp)]
      rfl

/-- **A repeated name is never reported**: the constructor prints what it should for the
patterns that repeat none, and for no other; and so does its loop on the pattern itself. -/
theorem constructor_reports_iff (pattern : std_string) :
    ((∃ m cerr, path_params_matcher.make pattern = .ok (m, cerr) ∧ Reports pattern cerr)
        ↔ (capture_names pattern).Nodup)
      ∧ ((∃ st, extract pattern = .ok st ∧ Reports pattern st.cerr)
        ↔ (capture_names pattern).Nodup) := by
  constructor
  · rw [← reports_nil_iff, make_spec]
    constructor
    · rintro ⟨m, cerr, hmake, h⟩
      cases hmake
      exact h
    · intro h
      exact ⟨_, _, rfl, h⟩
  · obtain ⟨st, hrun, -, hcerr⟩ := extract_names pattern
    rw [← reports_nil_iff]
    constructor
    · rintro ⟨st', hrun', h⟩
      rw [hrun, Except.ok.injEq] at hrun'
      rwa [← hrun', hcerr] at h
    · intro h
      exact ⟨st, hrun, by rwa [hcerr]⟩

/-- The pattern `/:a/:a`. -/
theorem repeated_name_unreported :
    ¬ ∃ m cerr, path_params_matcher.make "/:a/:a".toList = .ok (m, cerr)
        ∧ Reports "/:a/:a".toList cerr := by
  rintro ⟨m, cerr, hmake, h⟩
  cases hmake
  exact h.reported.mpr ⟨"a".toList, by decide⟩ rfl

end CppHttp.DuplicateNames
