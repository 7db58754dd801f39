/-
What the loop of `path_params_matcher::path_params_matcher` (`server/matcher.hpp`) does to a
text.

The loop looks for the next `"/:"` from one character in front of where it stands, because
the `/` behind a capture may start the next one. So a fragment is copied from behind that
`/`, and its length is a difference of two positions that may be one apart in either
direction. The invariant that keeps all of this in order is `Woven`: what has been read is
the fragments and names so far, written out with their separators, and what is left is over
or goes on with a `/`. `extract_rule` is the rule for such invariants: what an iteration
(`advance`) preserves holds where the loop ends.

Whether a `substr` is in range is asked of the calls themselves. `extract_with` takes the
function it calls as an argument, and all that is known of this function is what it does
in range (`RightInRange`). So the result says that no call is out of range,
whatever would happen there; `strict_substr` throws.

`extract_spec` has both: the loop ends without an exception, and what it leaves is the text
cut at its captures (`Decomposes`).
-/
import CppHttp.Matcher

set_option autoImplicit false

namespace CppHttp.Extraction

open CppHttp.StdString CppHttp.Matcher

/-! ## `substr` in range -/

/-- The function is `substr` where the start and the length are in range. -/
def RightInRange (sub : std_string → ℕ → ℤ → Except fault std_string) : Prop :=
  ∀ s pos len, 0 ≤ len → pos + len.toNat ≤ s.length →
    sub s pos len = .ok ((s.drop pos).take len.toNat)

/-- A `substr` that throws for a start behind the end, for a negative length, and for a
length that reaches behind the end. -/
def strict_substr (s : std_string) (pos : ℕ) (len : ℤ) : Except fault std_string :=
  if 0 ≤ len ∧ pos + len.toNat ≤ s.length then .ok ((s.drop pos).take len.toNat)
  else .error .out_of_range

theorem strict_substr_right : RightInRange strict_substr := by
  intro s pos len hlen hend
  exact if_pos ⟨hlen, hend⟩

theorem substr_or_throw_right : RightInRange substr_or_throw := by
  intro s pos len hlen hend
  unfold substr_or_throw substr
  rw [if_pos (by omega), if_pos hlen]

/-- In range between two positions. -/
theorem RightInRange.between {sub : std_string → ℕ → ℤ → Except fault std_string}
    (hsub : RightInRange sub) {s : std_string} {pos n : ℕ} (h : pos + n ≤ s.length) {len : ℤ}
    (hlen : len = n) : sub s pos len = .ok ((s.drop pos).take n) := by
  subst hlen
  have hn : ((n : ℤ)).toNat = n := by omega
  rw [hsub s pos n (by omega) (by omega), hn]

/-- The text up to the next `/`. -/
def segment (s : std_string) : std_string := s.takeWhile (· ≠ '/')

theorem segment_length_le (s : std_string) : (segment s).length ≤ s.length :=
  (List.takeWhile_prefix _).length_le

theorem next_separator_eq {s : std_string} {pos : ℕ} (h : pos ≤ s.length) :
    next_separator s pos = pos + (segment (s.drop pos)).length := by
  unfold next_separator find_from separator segment
  rw [if_pos h, find_char]
  by_cases hmem : '/' ∈ s.drop pos
  · rw [if_pos hmem, Option.map_some, Option.getD_some, Nat.add_comm]
  · rw [if_neg hmem, takeWhile_ne_eq_self hmem, List.length_drop]
    change s.length = _
    omega

/-! ## One capture -/

/-- The text that is searched. -/
def unread (s : std_string) (st : extraction) : std_string := s.drop (search_start st)

theorem search_start_cases (st : extraction) :
    st.last_param_end = 0 ∧ search_start st = 0
      ∨ st.last_param_end = search_start st + 1 := by
  unfold search_start
  by_cases h : st.last_param_end = 0
  · exact .inl ⟨h, by rw [if_pos h, h]⟩
  · rw [if_neg h]
    omega

theorem drop_param_end (s : std_string) (st : extraction) :
    s.drop st.last_param_end = (unread s st).drop (st.last_param_end - search_start st) := by
  have hcases := search_start_cases st
  rw [unread, List.drop_drop]
  congr 1
  omega

/-- The variables behind an iteration that finds `pre` in front of the marker and `tail`
behind it. The fragment leaves out the `/` that it shares with the last capture. -/
def advance (s : std_string) (st : extraction) (pre tail : std_string) : extraction where
  static_fragments_ := st.static_fragments_
    ++ [(pre ++ ['/']).drop (st.last_param_end - search_start st)]
  param_names_ := st.param_names_ ++ [segment tail]
  last_param_end := pre.length + search_start st + marker.length + (segment tail).length + 1
  param_name_set := st.param_name_set
  cerr := if st.param_name_set.contains (segment tail) then
    st.cerr ++ [duplicate_message (segment tail) s] else st.cerr

/-! The lemmas of this part are about an iteration that finds `pre` in front of a marker and
`tail` behind it. -/

section Iteration

variable {sub : std_string → ℕ → ℤ → Except fault std_string} {s : std_string}
  {st : extraction} {pre tail : std_string}

theorem length_eq (hstart : search_start st ≤ s.length)
    (hsplit : unread s st = pre ++ (marker ++ tail)) :
    s.length = search_start st + (pre.length + (marker.length + tail.length)) := by
  have hlen := congrArg List.length hsplit
  rw [unread, List.length_drop, List.length_append, List.length_append] at hlen
  have hmarker : marker.length = 2 := rfl
  omega

/-- Behind the marker the text goes on with `tail`. -/
theorem drop_marker (hsplit : unread s st = pre ++ (marker ++ tail)) :
    s.drop (pre.length + search_start st + marker.length) = tail := by
  have h : (unread s st).drop (pre.length + marker.length) = tail := by
    rw [hsplit, ← List.append_assoc, List.drop_left' (List.length_append)]
  rw [unread, List.drop_drop] at h
  rw [← h]
  congr 1
  omega

/-- The fragment begins where the search started or one character behind it, and ends with
the `/` of the marker. -/
theorem substr_fragment (hsub : RightInRange sub) (hstart : search_start st ≤ s.length)
    (hsplit : unread s st = pre ++ (marker ++ tail)) :
    sub s st.last_param_end
        (((pre.length + search_start st : ℕ) : ℤ) - st.last_param_end + 1)
      = .ok ((pre ++ ['/']).drop (st.last_param_end - search_start st)) := by
  have hmarker : marker.length = 2 := rfl
  have hlen := length_eq hstart hsplit
  have hcases := search_start_cases st
  have hcount : (pre ++ ['/']).length - (st.last_param_end - search_start st)
      = pre.length + search_start st + 1 - st.last_param_end := by
    rw [List.length_append, List.length_singleton]
    omega
  have hslash : unread s st = (pre ++ ['/']) ++ (':' :: tail) := by
    rw [hsplit, List.append_assoc]
    rfl
  have hcopy : (s.drop st.last_param_end).take
        (pre.length + search_start st + 1 - st.last_param_end)
      = (pre ++ ['/']).drop (st.last_param_end - search_start st) := by
    rw [drop_param_end, hslash, List.drop_append_of_le_length (by
      rw [List.length_append, List.length_singleton]
      omega), ← hcount, ← List.length_drop, List.take_left]
  rw [← hcopy]
  exact hsub.between (by omega) (by omega)

/-- The name ends in front of the next `/`. -/
theorem next_separator_marker (hstart : search_start st ≤ s.length)
    (hsplit : unread s st = pre ++ (marker ++ tail)) :
    next_separator s (pre.length + search_start st + marker.length)
      = pre.length + search_start st + marker.length + (segment tail).length := by
  have hlen := length_eq hstart hsplit
  rw [next_separator_eq (by omega), drop_marker hsplit]

theorem substr_name (hsub : RightInRange sub) (hstart : search_start st ≤ s.length)
    (hsplit : unread s st = pre ++ (marker ++ tail)) {len : ℤ}
    (h : len = (segment tail).length) :
    sub s (pre.length + search_start st + marker.length) len = .ok (segment tail) := by
  have hlen := length_eq hstart hsplit
  have hseg := segment_length_le tail
  rw [hsub.between (n := (segment tail).length) (by omega) h, drop_marker hsplit]
  congr 1
  exact (List.prefix_iff_eq_take.mp (List.takeWhile_prefix _)).symm

end Iteration

/-- **One iteration**: it breaks where no marker is left, or it cuts off one fragment and
one name. -/
theorem extract_param_cases (s : std_string) (st : extraction)
    (h : st.last_param_end ≤ s.length + 1) :
    (¬ marker <:+: unread s st ∧ ∀ sub, extract_param_with sub s st = .ok none)
      ∨ ∃ pre tail, unread s st = pre ++ (marker ++ tail) ∧ ¬ marker <:+: pre ++ ['/']
        ∧ ∀ sub, RightInRange sub →
          extract_param_with sub s st = .ok (some (advance s st pre tail)) := by
  have hcases := search_start_cases st
  have hstart : search_start st ≤ s.length := by omega
  have hfrom : find_from marker s (search_start st)
      = (find marker (unread s st)).map (· + search_start st) := if_pos hstart
  unfold extract_param_with
  rw [hfrom]
  cases hf : find marker (unread s st) with
  | none => exact .inl ⟨(find_eq_none_iff _ _).mp hf, fun _ => rfl⟩
  | some i =>
      obtain ⟨pre, tail, hsplit, rfl⟩ := find_split hf
      refine .inr ⟨pre, tail, hsplit, ?_, ?_⟩
      · -- the marker found is the first one
        have htake : pre ++ ['/'] = (unread s st).take (pre.length + 1) := by
          rw [hsplit, List.take_append]
          simp [marker]
        rw [← find_eq_none_iff, htake]
        exact find_take_eq_none hf (Nat.lt_succ_self _)
      · intro sub hsub
        dsimp only [Option.map_some]
        rw [substr_fragment hsub hstart hsplit, next_separator_marker hstart hsplit,
          substr_name hsub hstart hsplit (by omega)]
        rfl

/-! ## The whole loop -/

/-- What is left behind a capture: the text from its `/` on. -/
theorem unread_advance {s : std_string} {st : extraction} {pre tail : std_string}
    (hsplit : unread s st = pre ++ (marker ++ tail)) :
    unread s (advance s st pre tail) = tail.dropWhile (· ≠ '/') := by
  have hstart : search_start (advance s st pre tail)
      = search_start st + (pre ++ marker ++ segment tail).length := by
    have hend : (advance s st pre tail).last_param_end
        = pre.length + search_start st + marker.length + (segment tail).length + 1 := rfl
    rw [List.length_append, List.length_append]
    rcases search_start_cases (advance s st pre tail) with ⟨h, -⟩ | h
    · omega
    · omega
  have hread : unread s st
      = pre ++ marker ++ segment tail ++ tail.dropWhile (· ≠ '/') := by
    rw [hsplit, segment, List.append_assoc, List.append_assoc, List.takeWhile_append_dropWhile]
  rw [unread, hstart, ← List.drop_drop, ← unread, hread, List.drop_left]

theorem advance_le {s : std_string} {st : extraction} {pre tail : std_string}
    (hstart : search_start st ≤ s.length) (hsplit : unread s st = pre ++ (marker ++ tail)) :
    st.last_param_end < s.length
      ∧ st.last_param_end < (advance s st pre tail).last_param_end
      ∧ (advance s st pre tail).last_param_end ≤ s.length + 1 := by
  have hend : (advance s st pre tail).last_param_end
      = pre.length + search_start st + marker.length + (segment tail).length + 1 := rfl
  have hmarker : marker.length = 2 := rfl
  have hlen := length_eq hstart hsplit
  have hseg := segment_length_le tail
  have hcases := search_start_cases st
  omega

/-- **The loop's rule**: it ends, whatever stands for `substr`, with no marker left to read;
and what every iteration preserves holds where it ends. -/
theorem extract_params_rule {s : std_string} {I : extraction → Prop}
    (hstep : ∀ st pre tail, I st → unread s st = pre ++ (marker ++ tail) →
      ¬ marker <:+: pre ++ ['/'] → I (advance s st pre tail))
    (fuel : ℕ) (st : extraction) (hI : I st) (hbound : st.last_param_end ≤ s.length + 1)
    (hfuel : s.length - st.last_param_end < fuel) :
    ∃ st', I st' ∧ st'.last_param_end ≤ s.length + 1 ∧ ¬ marker <:+: unread s st'
      ∧ ∀ sub, RightInRange sub → extract_params_with sub s fuel st = .ok st' := by
  induction fuel generalizing st with
  | zero => omega
  | succ fuel ih =>
      rcases extract_param_cases s st hbound with ⟨hnone, hrun⟩ | ⟨pre, tail, hsplit, hfirst, hrun⟩
      · refine ⟨st, hI, hbound, hnone, ?_⟩
        intro sub _
        rw [extract_params_with, hrun]
        rfl
      · have hstart : search_start st ≤ s.length := by
          have := search_start_cases st
          omega
        obtain ⟨hlt, hmore, hbound'⟩ := advance_le hstart hsplit
        obtain ⟨st', hI', hend, hnone, hrest⟩ :=
          ih (advance s st pre tail) (hstep st pre tail hI hsplit hfirst) hbound' (by omega)
        refine ⟨st', hI', hend, hnone, ?_⟩
        intro sub hsub
        rw [extract_params_with, hrun sub hsub]
        exact hrest sub hsub

/-- The last fragment, where the loop ends inside the text. -/
def with_rest (s : std_string) (st : extraction) : extraction :=
  if st.last_param_end < s.length then
    { st with static_fragments_ := st.static_fragments_ ++ [s.drop st.last_param_end] }
  else st

/-- The rule for the loop with the last fragment behind it. -/
theorem extract_rule {s : std_string} {I : extraction → Prop} (hstart : I {})
    (hstep : ∀ st pre tail, I st → unread s st = pre ++ (marker ++ tail) →
      ¬ marker <:+: pre ++ ['/'] → I (advance s st pre tail)) :
    ∃ st, I st ∧ ¬ marker <:+: unread s st
      ∧ ∀ sub, RightInRange sub → extract_with sub s = .ok (with_rest s st) := by
  obtain ⟨st, hI, -, hnone, hrun⟩ :=
    extract_params_rule hstep (s.length + 1) {} hstart (Nat.zero_le _) (Nat.lt_succ_self _)
  refine ⟨st, hI, hnone, ?_⟩
  intro sub hsub
  rw [extract_with, hrun sub hsub, with_rest]
  change (if st.last_param_end < s.length then _ else _) = _
  by_cases hend : st.last_param_end < s.length
  · rw [if_pos hend, if_pos hend, substr_or_throw_rest (Nat.le_of_lt hend)]
    rfl
  · rw [if_neg hend, if_neg hend]
    rfl

/-! ## The text written out again -/

/-- A fragment with the name of the capture behind it. -/
def capture_text (fragment name : std_string) : std_string := fragment ++ ':' :: name

/-- The fragments and names with their separators: `f₀ : n₀ / f₁ : n₁ / …`, and behind the
last name the fragments that are left. -/
def weave (fragments names : List std_string) : std_string :=
  separator.intercalate
    (List.zipWith capture_text fragments names ++ fragments.drop names.length)

theorem intercalate_concat (sep last : std_string) {parts : List std_string}
    (h : parts ≠ []) :
    sep.intercalate (parts ++ [last]) = sep.intercalate parts ++ (sep ++ last) := by
  induction parts with
  | nil => exact absurd rfl h
  | cons part parts ih =>
      cases parts with
      | nil => simp [List.intercalate_cons_cons, List.intercalate_singleton]
      | cons part' parts =>
          have hne : part' :: parts ≠ [] := List.cons_ne_nil _ _
          rw [List.cons_append, List.cons_append, List.intercalate_cons_cons,
            ← List.cons_append, ih hne, List.intercalate_cons_cons]
          simp only [List.append_assoc]

theorem weave_of_count {fragments names : List std_string}
    (hcount : fragments.length = names.length) :
    weave fragments names = separator.intercalate (List.zipWith capture_text fragments names) := by
  rw [weave, List.drop_of_length_le (Nat.le_of_eq hcount), List.append_nil]

theorem capture_texts_ne_nil {fragments names : List std_string}
    (hcount : fragments.length = names.length) (hne : names ≠ []) :
    List.zipWith capture_text fragments names ≠ [] := by
  rw [← List.length_pos_iff] at hne ⊢
  rw [List.length_zipWith]
  omega

/-- One capture more, behind others. -/
theorem weave_capture {fragments names : List std_string} (f n : std_string)
    (hcount : fragments.length = names.length) (hne : names ≠ []) :
    weave (fragments ++ [f]) (names ++ [n])
      = weave fragments names ++ '/' :: capture_text f n := by
  rw [weave_of_count (by simp [hcount]), weave_of_count hcount, List.zipWith_append hcount,
    List.zipWith_cons_cons, List.zipWith_nil_left,
    intercalate_concat _ _ (capture_texts_ne_nil hcount hne)]
  rfl

/-- A last fragment behind the captures. -/
theorem weave_fragment {fragments names : List std_string} (f : std_string)
    (hcount : fragments.length = names.length) (hne : names ≠ []) :
    weave (fragments ++ [f]) names = weave fragments names ++ '/' :: f := by
  have hzip : List.zipWith capture_text (fragments ++ [f]) names
      = List.zipWith capture_text fragments names := by
    conv_lhs => rw [← List.append_nil names]
    rw [List.zipWith_append hcount, List.zipWith_nil_right, List.append_nil]
  rw [weave, hzip, List.drop_append_of_le_length (Nat.le_of_eq hcount.symm),
    List.drop_of_length_le (Nat.le_of_eq hcount), List.nil_append,
    intercalate_concat _ _ (capture_texts_ne_nil hcount hne), weave_of_count hcount]
  rfl

/-- **The loop's invariant**: what has been read is woven from the fragments and names so
far, and what is left goes on with the `/` that ended the last capture. -/
structure Woven (s : std_string) (st : extraction) : Prop where
  count : st.static_fragments_.length = st.param_names_.length
  text : weave st.static_fragments_ st.param_names_ ++ unread s st = s
  start : st.param_names_ = [] ∧ st.last_param_end = 0
    ∨ st.param_names_ ≠ [] ∧ st.last_param_end = search_start st + 1 ∧ AtSlash (unread s st)
  names_free : ∀ n ∈ st.param_names_, '/' ∉ n
  fragments_free : ∀ f ∈ st.static_fragments_, ¬ marker <:+: f

theorem Woven.fragments_eq_nil {s : std_string} {st : extraction} (h : Woven s st)
    (hnames : st.param_names_ = []) : st.static_fragments_ = [] := by
  rw [← List.length_eq_zero_iff, h.count, hnames, List.length_nil]

theorem Woven.eq_weave {s : std_string} {st : extraction} (h : Woven s st)
    (hnil : unread s st = []) : s = weave st.static_fragments_ st.param_names_ := by
  have htext := h.text
  rw [hnil, List.append_nil] at htext
  exact htext.symm

theorem woven_start (s : std_string) : Woven s {} where
  count := rfl
  text := rfl
  start := .inl ⟨rfl, rfl⟩
  names_free := by simp
  fragments_free := by simp

/-- The text up to the next `/` has none, and what is left behind it is over or goes on
with one. -/
theorem slash_not_mem_segment (s : std_string) : '/' ∉ segment s := notMem_takeWhile_ne '/' s

theorem atSlash_dropWhile (s : std_string) : AtSlash (s.dropWhile (· ≠ '/')) := by
  induction s with
  | nil => exact .inl rfl
  | cons c s ih =>
      by_cases hc : c = '/'
      · subst hc
        exact .inr ⟨s, rfl⟩
      · rw [List.dropWhile_cons_of_pos (by simpa using hc)]
        exact ih

/-- In front of a marker that is looked for from a `/` there is that `/`. -/
theorem slash_in_front {pre tail : std_string} (h : AtSlash (pre ++ (marker ++ tail))) :
    ∃ f, pre ++ ['/'] = '/' :: f := by
  rcases h with hnil | ⟨r, hr⟩
  · rw [List.append_eq_nil_iff] at hnil
    cases hnil.2
  · cases pre with
    | nil => exact ⟨[], rfl⟩
    | cons c pre =>
        rw [List.cons_append, List.cons.injEq] at hr
        exact ⟨pre ++ ['/'], by rw [hr.1]; rfl⟩

/-- The new fragment and name, woven in, take what was read off the text. -/
theorem weave_advance {s : std_string} {st : extraction} {pre tail : std_string}
    (h : Woven s st) (hsplit : unread s st = pre ++ (marker ++ tail)) :
    weave (advance s st pre tail).static_fragments_ (advance s st pre tail).param_names_
      = weave st.static_fragments_ st.param_names_ ++ pre ++ marker ++ segment tail := by
  dsimp only [advance]
  rcases h.start with ⟨hnames, hend⟩ | ⟨hne, hend, hslash⟩
  · have hfragments := h.fragments_eq_nil hnames
    have hstart : search_start st = 0 := by
      have := search_start_cases st
      omega
    rw [hnames, hfragments, hend, hstart]
    simp [weave, capture_text, marker, List.intercalate_singleton]
  · -- the fragment starts behind the `/` that the search started at
    rw [hsplit] at hslash
    obtain ⟨f, hf⟩ := slash_in_front hslash
    have hone : st.last_param_end - search_start st = 1 := by omega
    have hpre : pre ++ marker = '/' :: (f ++ [':']) := by
      rw [show marker = ['/'] ++ [':'] from rfl, ← List.append_assoc, hf]
      rfl
    rw [hone, hf, List.drop_one, List.tail_cons, weave_capture _ _ h.count hne,
      List.append_assoc _ pre, hpre]
    simp [capture_text]

theorem woven_advance {s : std_string} (st : extraction) (pre tail : std_string)
    (h : Woven s st) (hsplit : unread s st = pre ++ (marker ++ tail))
    (hfirst : ¬ marker <:+: pre ++ ['/']) : Woven s (advance s st pre tail) where
  count := by
    simp [advance, h.count]
  text := by
    rw [weave_advance h hsplit, unread_advance hsplit, List.append_assoc _ (segment tail),
      segment, List.takeWhile_append_dropWhile, List.append_assoc, List.append_assoc, ← hsplit]
    exact h.text
  start := by
    refine .inr ⟨by simp [advance], ?_, ?_⟩
    · rcases search_start_cases (advance s st pre tail) with ⟨hzero, -⟩ | hend
      · cases hzero
      · exact hend
    · rw [unread_advance hsplit]
      exact atSlash_dropWhile tail
  names_free := by
    intro n hn
    rcases List.mem_append.mp hn with hn | hn
    · exact h.names_free n hn
    · rw [List.mem_singleton.mp hn]
      exact slash_not_mem_segment tail
  fragments_free := by
    intro f hf
    rcases List.mem_append.mp hf with hf | hf
    · exact h.fragments_free f hf
    · rw [List.mem_singleton.mp hf]
      exact fun hin => hfirst (hin.trans (List.drop_suffix _ _).isInfix)

/-! ## Where the loop ends -/

/-- The text cut at its captures: one fragment in front of each, perhaps one behind the
last; what they weave is the text, but for a `/` behind a last capture. -/
structure Decomposes (s : std_string) (fragments names : List std_string) : Prop where
  count : fragments.length = names.length ∨ fragments.length = names.length + 1
  text : s = weave fragments names
    ∨ names ≠ [] ∧ fragments.length = names.length ∧ s = weave fragments names ++ ['/']
  names_free : ∀ n ∈ names, '/' ∉ n
  fragments_free : ∀ f ∈ fragments, ¬ marker <:+: f

/-- Where the loop ends behind the text or on its last character, nothing is left but
perhaps a `/`. -/
theorem decomposes_of_woven {s : std_string} {st : extraction} (h : Woven s st)
    (hend : s.length ≤ st.last_param_end) :
    Decomposes s st.static_fragments_ st.param_names_ where
  count := .inl h.count
  text := by
    rcases h.start with ⟨-, hzero⟩ | ⟨hne, hstart, hslash⟩
    · have hnil : unread s st = [] := by
        rw [unread, List.drop_eq_nil_iff]
        omega
      exact .inl (h.eq_weave hnil)
    · have hlen : (unread s st).length ≤ 1 := by
        rw [unread, List.length_drop]
        omega
      rcases hslash with hnil | ⟨r, hr⟩
      · exact .inl (h.eq_weave hnil)
      · right
        rw [hr, List.length_cons] at hlen
        have hnil : r = [] := List.eq_nil_of_length_eq_zero (by omega)
        refine ⟨hne, h.count, ?_⟩
        conv_lhs => rw [← h.text, hr, hnil]
  names_free := h.names_free
  fragments_free := h.fragments_free

/-- Where it ends inside the text, the rest is the last fragment. -/
theorem decomposes_of_woven_last {s : std_string} {st : extraction} (h : Woven s st)
    (hnone : ¬ marker <:+: unread s st) (hend : st.last_param_end < s.length) :
    Decomposes s (st.static_fragments_ ++ [s.drop st.last_param_end]) st.param_names_ where
  count := .inr (by simp [h.count])
  text := by
    left
    rcases h.start with ⟨hnames, hzero⟩ | ⟨hne, hstart, hslash⟩
    · have hfragments := h.fragments_eq_nil hnames
      rw [hnames, hfragments, hzero]
      simp [weave, List.intercalate_singleton]
    · have hone : st.last_param_end - search_start st = 1 := by omega
      have hlen : (unread s st).length = s.length - search_start st := List.length_drop
      rw [weave_fragment _ h.count hne, drop_param_end, hone]
      rcases hslash with hnil | ⟨r, hr⟩
      · rw [hnil, List.length_nil] at hlen
        omega
      · conv_lhs => rw [← h.text, hr]
        rw [hr, List.drop_one, List.tail_cons]
  names_free := h.names_free
  fragments_free := by
    intro f hf
    rcases List.mem_append.mp hf with hf | hf
    · exact h.fragments_free f hf
    · rw [List.mem_singleton.mp hf, drop_param_end]
      exact fun hin => hnone (hin.trans (List.drop_suffix _ _).isInfix)

/-- **What the loop leaves**, with every `substr` in range: it ends without an exception,
with a `substr` that throws as well, and has cut the text at its captures. -/
theorem extract_spec (s : std_string) :
    ∃ st, extract s = .ok st ∧ extract_with strict_substr s = .ok st
      ∧ Decomposes s st.static_fragments_ st.param_names_ := by
  obtain ⟨st, hwoven, hnone, hrun⟩ := extract_rule (woven_start s) woven_advance
  refine ⟨with_rest s st, hrun _ substr_or_throw_right, hrun _ strict_substr_right, ?_⟩
  · unfold with_rest
    by_cases hend : st.last_param_end < s.length
    · rw [if_pos hend]
      exact decomposes_of_woven_last hwoven hnone hend
    · rw [if_neg hend]
      exact decomposes_of_woven hwoven (Nat.le_of_not_lt hend)

/-- Two captures behind each other share their `/`, and a name may be empty. -/
example :
    (extract "/u/:a/:/x".toList).map (fun st => (st.static_fragments_, st.param_names_))
      = .ok (["/u/".toList, [], "x".toList], ["a".toList, []]) := by
  decide

end CppHttp.Extraction
