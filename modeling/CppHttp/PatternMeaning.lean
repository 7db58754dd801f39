/-
The loop of `path_params_matcher::path_params_matcher` (`server/matcher.hpp`) as a compiler.

Its source is a route pattern, which says by itself which paths it stands for and what they
capture (`Fills`). Its target is a list of fragments and a list of names, which say so as
well (`Covers`). `extract_preserves` says that the two agree for every pattern, on every
path: compiling neither loses nor adds a path, and every name gets the text it stands for.

The two sides are brought to one shape: what is in front of the first capture, the text
that is captured, and the rest, which is over or goes on with a `/`. `FillsRest` and
`CoversRest` are the rests of the two sides, and `Compiles` says that they agree. One
iteration of the loop keeps it (`compiles_capture`), so the loop does (`extract_rule`).
-/
import CppHttp.CompiledMatch

set_option autoImplicit false

namespace CppHttp.PatternMeaning

open CppHttp.StdString CppHttp.Matcher CppHttp.Extraction CppHttp.CompiledMatch

/-! ## The source: reading a pattern up to its first capture -/

/-- The pattern `p` and the path `s` behind a capture: both are over but for a `/`, or both
go on with one. -/
def FillsRest (p s : std_string) (captures : List (std_string × std_string)) : Prop :=
  (OptionalSlash p ∧ OptionalSlash s ∧ captures = [])
    ∨ ∃ p' s', p = '/' :: p' ∧ s = '/' :: s' ∧ Fills ('/' :: p') ('/' :: s') captures

/-- The text up to the next `/` is determined by what is behind it. -/
theorem segment_append {v t : std_string} (hv : '/' ∉ v) (ht : AtSlash t) :
    segment (v ++ t) = v ∧ (v ++ t).dropWhile (· ≠ '/') = t := by
  unfold Extraction.segment
  rw [takeWhile_ne_append hv, dropWhile_ne_append hv]
  rcases ht with rfl | ⟨r, rfl⟩
  · simp
  · simp

theorem FillsRest.atSlash {p s : std_string} {captures : List (std_string × std_string)}
    (h : FillsRest p s captures) : AtSlash p := by
  rcases h with ⟨hp, -, -⟩ | ⟨p', s', rfl, -, -⟩
  · exact hp.atSlash
  · exact .inr ⟨p', rfl⟩

/-- A pattern that starts with a capture. -/
theorem fills_marker_iff (q s : std_string) (captures : List (std_string × std_string)) :
    Fills (marker ++ q) s captures
      ↔ ∃ value tail rest, s = '/' :: (value ++ tail) ∧ '/' ∉ value
        ∧ captures = (segment q, value) :: rest
        ∧ FillsRest (q.dropWhile (· ≠ '/')) tail rest := by
  constructor
  · intro h
    obtain ⟨name, value, tail_p, tail_s, rest, rfl, rfl, rfl, hname, hvalue, hrest⟩ :=
      fills_marker h
    have hfills : FillsRest tail_p tail_s rest := hrest
    obtain ⟨hseg, hdrop⟩ := segment_append hname hfills.atSlash
    refine ⟨value, tail_s, rest, rfl, hvalue, by rw [hseg], ?_⟩
    rwa [hdrop]
  · rintro ⟨value, tail, rest, rfl, hvalue, rfl, hrest⟩
    have hq : q = segment q ++ q.dropWhile (· ≠ '/') := List.takeWhile_append_dropWhile.symm
    have hname := slash_not_mem_segment q
    generalize segment q = name at hq hname
    rcases hrest with ⟨hp, hs, rfl⟩ | ⟨p', s', hp, rfl, hfills⟩
    · rw [hq]
      exact .last hname hvalue hp hs
    · rw [hq, hp]
      exact .capture hname hvalue hfills

/-- What is in front of the first marker stands for itself. -/
theorem fills_before_iff {pre : std_string} (h : ¬ marker <:+: pre ++ ['/']) (q s : std_string)
    (captures : List (std_string × std_string)) :
    Fills (pre ++ (marker ++ q)) s captures
      ↔ ∃ s', s = pre ++ s' ∧ Fills (marker ++ q) s' captures := by
  induction pre generalizing s with
  | nil => simp
  | cons c pre ih =>
      rw [List.cons_append, List.infix_cons_iff, not_or] at h
      have hliteral : ¬ marker <+: c :: (pre ++ (marker ++ q)) := by
        intro hprefix
        -- a marker at this place would end in front of the one behind `pre`
        have hwhole : c :: (pre ++ (marker ++ q)) = c :: (pre ++ ['/']) ++ (':' :: q) := by
          simp [marker]
        rw [hwhole] at hprefix
        exact h.1 (List.prefix_of_prefix_length_le hprefix (List.prefix_append _ _)
          (by simp [marker]))
      rw [List.cons_append, fills_literal_iff hliteral]
      constructor
      · rintro ⟨s₁, rfl, hfills⟩
        obtain ⟨s', rfl, hs'⟩ := (ih h.2 s₁).mp hfills
        exact ⟨s', rfl, hs'⟩
      · rintro ⟨s', rfl, hs'⟩
        exact ⟨pre ++ s', rfl, (ih h.2 _).mpr ⟨s', rfl, hs'⟩⟩

/-- A pattern without a marker stands for itself. -/
theorem fills_of_no_marker_iff {p : std_string} (h : ¬ marker <:+: p) (s : std_string)
    (captures : List (std_string × std_string)) : Fills p s captures ↔ s = p ∧ captures = [] := by
  induction p generalizing s with
  | nil =>
      constructor
      · intro hfills
        cases hfills
        exact ⟨rfl, rfl⟩
      · rintro ⟨rfl, rfl⟩
        exact .done
  | cons c p ih =>
      rw [List.infix_cons_iff, not_or] at h
      rw [fills_literal_iff h.1]
      constructor
      · rintro ⟨s', rfl, hfills⟩
        obtain ⟨rfl, rfl⟩ := (ih h.2 s').mp hfills
        exact ⟨rfl, rfl⟩
      · rintro ⟨rfl, rfl⟩
        exact ⟨p, rfl, (ih h.2 p).mpr ⟨rfl, rfl⟩⟩

/-! ## The target: a fragment and what it captures -/

/-- The fragments and values behind a capture. -/
def CoversRest (fs vs : List std_string) (s : std_string) : Prop :=
  (fs = [] ∧ vs = [] ∧ OptionalSlash s) ∨ ∃ s', s = '/' :: s' ∧ Covers fs vs s'

theorem covers_cons_iff (f v : std_string) (fs vs : List std_string) (s : std_string) :
    Covers (f :: fs) (v :: vs) s
      ↔ '/' ∉ v ∧ ∃ tail, s = f ++ (v ++ tail) ∧ CoversRest fs vs tail := by
  constructor
  · intro h
    cases h with
    | last hv htail => exact ⟨hv, _, rfl, .inl ⟨rfl, rfl, htail⟩⟩
    | capture hv h => exact ⟨hv, _, rfl, .inr ⟨_, rfl, h⟩⟩
  · rintro ⟨hv, tail, rfl, ⟨rfl, rfl, htail⟩ | ⟨s', rfl, h⟩⟩
    · exact .last hv htail
    · exact .capture hv h

/-- Only a fragment without a value behind it is the whole of a path. -/
theorem covers_nil_iff (fs : List std_string) (s : std_string) :
    Covers fs [] s ↔ (fs = [] ∧ s = []) ∨ fs = [s] := by
  constructor
  · intro h
    cases h with
    | done => exact .inl ⟨rfl, rfl⟩
    | fragment f => exact .inr rfl
  · rintro (⟨rfl, rfl⟩ | rfl)
    · exact .done
    · exact .fragment s

/-! ## The two agree -/

/-- The fragments and names stand for the same paths as the pattern, with the same
captures. -/
def Compiles (p : std_string) (fs names : List std_string) : Prop :=
  ∀ s captures, Fills p s captures
    ↔ ∃ values, values.length = names.length ∧ captures = names.zip values ∧ Covers fs values s

/-- The same behind a capture. -/
def CompilesRest (p : std_string) (fs names : List std_string) : Prop :=
  ∀ s captures, FillsRest p s captures
    ↔ ∃ values, values.length = names.length ∧ captures = names.zip values
      ∧ CoversRest fs values s

/-- **One capture**: the fragment in front of it, and its name. -/
theorem compiles_capture {pre q : std_string} {fs names : List std_string}
    (hfirst : ¬ marker <:+: pre ++ ['/'])
    (h : CompilesRest (q.dropWhile (· ≠ '/')) fs names) :
    Compiles (pre ++ (marker ++ q)) ((pre ++ ['/']) :: fs) (segment q :: names) := by
  intro s captures
  rw [fills_before_iff hfirst]
  simp only [fills_marker_iff, h _ _]
  constructor
  · -- the `/` of the marker goes to the end of the fragment
    rintro ⟨s', rfl, value, tail, rest, rfl, hvalue, rfl, values, hlen, rfl, hcovers⟩
    refine ⟨value :: values, by simp [hlen], rfl, ?_⟩
    exact (covers_cons_iff _ _ _ _ _).mpr ⟨hvalue, tail, by simp, hcovers⟩
  · rintro ⟨values, hlen, rfl, hcovers⟩
    cases values with
    | nil => cases hlen
    | cons value values =>
        obtain ⟨hvalue, tail, rfl, hrest⟩ := (covers_cons_iff _ _ _ _ _).mp hcovers
        refine ⟨'/' :: (value ++ tail), by simp, value, tail, _, rfl, hvalue, rfl, values, ?_,
          rfl, hrest⟩
        simpa using hlen

/-- A capture behind another: the `/` between them belongs to the fragment in the pattern,
and to the separators in the compiled form. -/
theorem compilesRest_capture {pre q f : std_string} {fs names : List std_string}
    (hfirst : ¬ marker <:+: pre ++ ['/']) (hslash : pre ++ ['/'] = '/' :: f)
    (h : CompilesRest (q.dropWhile (· ≠ '/')) fs names) :
    CompilesRest (pre ++ (marker ++ q)) (f :: fs) (segment q :: names) := by
  have hp : pre ++ (marker ++ q) = '/' :: (f ++ ':' :: q) := by
    rw [← List.cons_append, ← hslash]
    simp [marker]
  have hcompiles := compiles_capture hfirst h
  intro s captures
  have hfills : FillsRest (pre ++ (marker ++ q)) s captures
      ↔ ∃ s', s = '/' :: s' ∧ Fills (pre ++ (marker ++ q)) s captures := by
    constructor
    · rintro (⟨hend, -, -⟩ | ⟨p', s', hp', rfl, hfills⟩)
      · -- with a marker in it the pattern is not over
        rw [hp] at hend
        rcases hend with hnil | hone
        · cases hnil
        · simp [separator] at hone
      · exact ⟨s', rfl, hp' ▸ hfills⟩
    · rintro ⟨s', rfl, hfills⟩
      exact .inr ⟨_, s', hp, rfl, hp ▸ hfills⟩
  rw [hfills]
  constructor
  · rintro ⟨s', rfl, hs⟩
    obtain ⟨values, hlen, rfl, hcovers⟩ := (hcompiles _ _).mp hs
    refine ⟨values, hlen, rfl, .inr ⟨s', rfl, ?_⟩⟩
    cases values with
    | nil => cases hlen
    | cons value values =>
        obtain ⟨hvalue, tail, heq, hrest⟩ := (covers_cons_iff _ _ _ _ _).mp hcovers
        rw [hslash, List.cons_append, List.cons.injEq] at heq
        exact (covers_cons_iff _ _ _ _ _).mpr ⟨hvalue, tail, heq.2, hrest⟩
  · rintro ⟨values, hlen, rfl, hcovers⟩
    cases values with
    | nil => cases hlen
    | cons value values =>
        rcases hcovers with ⟨hnil, -, -⟩ | ⟨s', rfl, hcovers⟩
        · cases hnil
        · obtain ⟨hvalue, tail, rfl, hrest⟩ := (covers_cons_iff _ _ _ _ _).mp hcovers
          refine ⟨_, rfl, (hcompiles _ _).mpr ⟨value :: values, hlen, rfl, ?_⟩⟩
          exact (covers_cons_iff _ _ _ _ _).mpr ⟨hvalue, tail, by rw [hslash]; rfl, hrest⟩

/-! ## Where the loop ends -/

/-- A pattern without a capture is its own fragment; the empty one has none. -/
theorem compiles_of_no_marker {p : std_string} (h : ¬ marker <:+: p) {fs : List std_string}
    (hfs : p = [] ∧ fs = [] ∨ fs = [p]) : Compiles p fs [] := by
  intro s captures
  rw [fills_of_no_marker_iff h]
  constructor
  · rintro ⟨rfl, rfl⟩
    refine ⟨[], rfl, rfl, (covers_nil_iff _ _).mpr ?_⟩
    rcases hfs with ⟨rfl, rfl⟩ | rfl
    · exact .inl ⟨rfl, rfl⟩
    · exact .inr rfl
  · rintro ⟨values, hlen, rfl, hcovers⟩
    have hnil : values = [] := List.eq_nil_of_length_eq_zero hlen
    subst hnil
    refine ⟨?_, rfl⟩
    rcases (covers_nil_iff _ _).mp hcovers with ⟨hf, rfl⟩ | hf
    · rcases hfs with ⟨rfl, -⟩ | hp
      · rfl
      · rw [hf] at hp
        cases hp
    · rcases hfs with ⟨-, hp⟩ | hp
      · rw [hf] at hp
        cases hp
      · rw [hf] at hp
        exact (List.cons.inj hp).1

theorem no_marker_in_separator : ¬ marker <:+: ['/'] := by
  intro h
  have hlen := h.length_le
  exact absurd hlen (by decide)

/-- Behind the last capture the pattern may have a `/`, and so may the path. -/
theorem compilesRest_end {p : std_string} (h : OptionalSlash p) : CompilesRest p [] [] := by
  intro s captures
  constructor
  · rintro (⟨-, hs, rfl⟩ | ⟨p', s', rfl, rfl, hfills⟩)
    · exact ⟨[], rfl, rfl, .inl ⟨rfl, rfl, hs⟩⟩
    · -- the only `/` that the pattern can go on with is its last character
      have hp' : p' = [] := by
        rcases h with hnil | hone
        · cases hnil
        · exact (List.cons.inj hone).2
      subst hp'
      obtain ⟨hs, rfl⟩ := (fills_of_no_marker_iff no_marker_in_separator _ _).mp hfills
      exact ⟨[], rfl, rfl, .inl ⟨rfl, rfl, .inr hs⟩⟩
  · rintro ⟨values, hlen, rfl, hcovers⟩
    refine .inl ⟨h, ?_, rfl⟩
    have hnil : values = [] := List.eq_nil_of_length_eq_zero hlen
    subst hnil
    rcases hcovers with ⟨-, -, hs⟩ | ⟨s', rfl, hs'⟩
    · exact hs
    · cases hs'
      exact .inr rfl

/-- Or it goes on with a fragment that is the end of the path. -/
theorem compilesRest_fragment {r : std_string} (hr : r ≠ []) (h : ¬ marker <:+: '/' :: r) :
    CompilesRest ('/' :: r) [r] [] := by
  intro s captures
  constructor
  · rintro (⟨hend, -, -⟩ | ⟨p', s', hp', rfl, hfills⟩)
    · rcases hend with hnil | hone
      · cases hnil
      · exact absurd (List.cons.inj hone).2 hr
    · rw [← hp'] at hfills
      obtain ⟨hs, rfl⟩ := (fills_of_no_marker_iff h _ _).mp hfills
      refine ⟨[], rfl, rfl, .inr ⟨s', rfl, (covers_nil_iff _ _).mpr (.inr ?_)⟩⟩
      rw [(List.cons.inj hs).2]
  · rintro ⟨values, hlen, rfl, hcovers⟩
    have hnil : values = [] := List.eq_nil_of_length_eq_zero hlen
    subst hnil
    rcases hcovers with ⟨hf, -, -⟩ | ⟨s', rfl, hs'⟩
    · cases hf
    · refine .inr ⟨r, s', rfl, rfl, (fills_of_no_marker_iff h _ _).mpr ⟨?_, rfl⟩⟩
      rcases (covers_nil_iff _ _).mp hs' with ⟨hf, -⟩ | hf
      · cases hf
      · rw [(List.cons.inj hf).1]

/-! ## The whole loop -/

/-- **The loop's invariant**: whatever the text that is left compiles to, put behind the
fragments and names so far it is what the whole pattern compiles to. In front of the first
capture nothing has been read. -/
structure Compiling (s : std_string) (st : extraction) : Prop where
  woven : Woven s st
  rest : st.param_names_ ≠ [] → ∀ fs names, CompilesRest (unread s st) fs names →
    Compiles s (st.static_fragments_ ++ fs) (st.param_names_ ++ names)

theorem Compiling.start {s : std_string} {st : extraction} (h : Compiling s st)
    (hnames : st.param_names_ = []) : st.static_fragments_ = [] ∧ st.last_param_end = 0
      ∧ search_start st = 0 ∧ unread s st = s := by
  rcases h.woven.start with ⟨-, hend⟩ | ⟨hne, -, -⟩
  · have hstart : search_start st = 0 := by
      have := search_start_cases st
      omega
    refine ⟨h.woven.fragments_eq_nil hnames, hend, hstart, ?_⟩
    rw [unread, hstart, List.drop_zero]
  · exact absurd hnames hne

theorem compiling_advance {s : std_string} (st : extraction) (pre tail : std_string)
    (h : Compiling s st) (hsplit : unread s st = pre ++ (marker ++ tail))
    (hfirst : ¬ marker <:+: pre ++ ['/']) : Compiling s (advance s st pre tail) where
  woven := woven_advance st pre tail h.woven hsplit hfirst
  rest := by
    intro _ fs names hrest
    rw [unread_advance hsplit] at hrest
    dsimp only [advance]
    by_cases hnames : st.param_names_ = []
    · -- the first capture: its fragment is all that is in front of it
      obtain ⟨hfragments, hend, hstart, hunread⟩ := h.start hnames
      rw [hfragments, hnames, hend, hstart, Nat.sub_self, List.drop_zero]
      have hs : s = pre ++ (marker ++ tail) := hunread.symm.trans hsplit
      conv => arg 1; rw [hs]
      exact compiles_capture hfirst hrest
    · -- a later one: its fragment leaves out the `/` of the capture before
      have hstart := h.woven.start
      simp only [hnames, false_and, ne_eq, not_false_eq_true, true_and, false_or] at hstart
      obtain ⟨hend, hslash⟩ := hstart
      have hpre := hslash
      rw [hsplit] at hpre
      obtain ⟨f, hf⟩ := slash_in_front hpre
      have hone : st.last_param_end - search_start st = 1 := by omega
      rw [hone, hf, List.drop_one, List.tail_cons, List.append_assoc, List.append_assoc]
      apply h.rest hnames
      rw [hsplit]
      exact compilesRest_capture hfirst hf hrest

/-- What the loop leaves, with the last fragment behind it. -/
theorem compiles_with_rest {s : std_string} {st : extraction} (h : Compiling s st)
    (hnone : ¬ marker <:+: unread s st) :
    Compiles s (with_rest s st).static_fragments_ (with_rest s st).param_names_ := by
  unfold with_rest
  by_cases hnames : st.param_names_ = []
  · -- no capture: the pattern is its own fragment, unless it is empty
    obtain ⟨hfragments, hend, -, hunread⟩ := h.start hnames
    rw [hunread] at hnone
    rw [hend]
    by_cases hlong : 0 < s.length
    · rw [if_pos hlong]
      dsimp only
      rw [hfragments, hnames]
      exact compiles_of_no_marker hnone (.inr rfl)
    · rw [if_neg hlong, hfragments, hnames]
      have hnil : s = [] := List.eq_nil_of_length_eq_zero (by omega)
      exact compiles_of_no_marker hnone (.inl ⟨hnil, rfl⟩)
  · have hstart := h.woven.start
    simp only [hnames, false_and, ne_eq, not_false_eq_true, true_and, false_or] at hstart
    obtain ⟨hend, hslash⟩ := hstart
    have hlen : (unread s st).length = s.length - search_start st := List.length_drop
    have hrest := h.rest hnames
    -- `last_param_end` stands behind a `/`, or behind the end of the pattern
    rcases hslash with hnil | ⟨r, hr⟩
    · rw [hnil, List.length_nil] at hlen
      have hcompiles := hrest [] [] (hnil ▸ compilesRest_end (.inl rfl))
      rw [List.append_nil, List.append_nil] at hcompiles
      rwa [if_neg (by omega)]
    · rw [hr, List.length_cons] at hlen
      by_cases hempty : r = []
      · -- a `/` alone makes no fragment
        subst hempty
        rw [List.length_nil] at hlen
        have hcompiles := hrest [] [] (hr ▸ compilesRest_end (.inr rfl))
        rw [List.append_nil, List.append_nil] at hcompiles
        rwa [if_neg (by omega)]
      · have hpos := List.length_pos_iff.mpr hempty
        have hdrop : s.drop st.last_param_end = r := by
          have hone : st.last_param_end - search_start st = 1 := by omega
          rw [drop_param_end, hone, hr, List.drop_one, List.tail_cons]
        rw [hr] at hnone
        have hcompiles := hrest [r] [] (hr ▸ compilesRest_fragment hempty hnone)
        rw [List.append_nil] at hcompiles
        rw [if_pos (by omega)]
        dsimp only
        rwa [hdrop]

/-- **The loop preserves the meaning of what it runs on**: it returns for every pattern, and
what it leaves covers the paths that the pattern stands for, with the same captures. The
constructor runs it on what `std::move` has left of its argument. -/
theorem extract_preserves (s : std_string) :
    ∃ st, extract s = .ok st ∧ Compiles s st.static_fragments_ st.param_names_ := by
  have hinit : Compiling s {} := ⟨woven_start s, fun h => absurd rfl h⟩
  obtain ⟨st, hcompiling, hnone, hrun⟩ := extract_rule hinit compiling_advance
  exact ⟨with_rest s st, hrun _ substr_or_throw_right, compiles_with_rest hcompiling hnone⟩

end CppHttp.PatternMeaning
