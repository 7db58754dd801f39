/-
`path_params_matcher::match` on a matcher that has been compiled.

`Matcher` shows that the constructor leaves every matcher without fragments and names.
This file asks what `match` would do with the ones it was meant to leave: any fragments
and names, as many of one as of the other, or one more fragment behind the last name.

What such a matcher says is the relation `Covers`: the fragments with a slash-free text
behind each of them but perhaps the last, the texts and fragments separated by `/`.

What `match` does is not that. Before it steps over a fragment it compares the fragment
with *all* of the rest of the path, not with as much of it as the fragment is long
(`match_loop_cons`). So a fragment is only accepted where the path ends with it, every
capture is empty, and a second fragment lies behind the end of the path
(`match_loop_from_start`). `compiled_conforms_iff` says on which paths this is the right
answer.

Right or not, the answer comes without an exception, for any fragments and names
(`match_in_range`). A capture that runs to the end of the path leaves the position one
behind it, but the length check comes first in the next turn.
-/
import CppHttp.Extraction

set_option autoImplicit false

namespace CppHttp.CompiledMatch

open CppHttp.StdString CppHttp.UnorderedMap CppHttp.Request CppHttp.Matcher
  CppHttp.Extraction

/-! ## What a compiled matcher means -/

/-- `Covers fragments values s`: the path `s` is the fragments with the values behind
them. -/
inductive Covers : List std_string → List std_string → std_string → Prop
  /-- No fragment covers the empty path. -/
  | done : Covers [] [] []
  /-- A last fragment without a capture. -/
  | fragment (f : std_string) : Covers [f] [] f
  /-- A last capture, and the `/` that may stand behind it. -/
  | last {f v tail : std_string} (hv : '/' ∉ v) (htail : OptionalSlash tail) :
      Covers [f] [v] (f ++ (v ++ tail))
  /-- A capture with further fragments behind it. -/
  | capture {f v s : std_string} {fs vs : List std_string} (hv : '/' ∉ v)
      (h : Covers fs vs s) : Covers (f :: fs) (v :: vs) (f ++ (v ++ '/' :: s))

theorem covers_length_le {fs vs : List std_string} {s : std_string} (h : Covers fs vs s) :
    fs.flatten.length ≤ s.length := by
  induction h with
  | done => exact Nat.le_refl _
  | fragment f => simp
  | last _ _ => simp
  | capture _ _ ih =>
      simp only [List.flatten_cons, List.length_append, List.length_cons]
      omega

/-- Behind the first of several fragments there is a `/` as well. -/
theorem covers_length_lt {f g : std_string} {fs vs : List std_string} {s : std_string}
    (h : Covers (f :: g :: fs) vs s) : (f :: g :: fs).flatten.length < s.length := by
  cases h with
  | capture _ h =>
      have := covers_length_le h
      rw [List.flatten_cons, List.length_append, List.length_append, List.length_append,
        List.length_cons]
      omega

/-- A path that is no longer than its fragments has no captured text. -/
theorem covers_flatten {fs vs : List std_string} {s : std_string} (h : Covers fs vs s)
    (hs : s = fs.flatten) : vs = [] ∨ vs = [[]] := by
  cases h with
  | done => exact .inl rfl
  | fragment f => exact .inl rfl
  | @last f v tail _ _ =>
      rw [List.flatten_cons, List.flatten_nil, List.append_cancel_left_eq,
        List.append_eq_nil_iff] at hs
      exact .inr (by rw [hs.1])
  | @capture f v s fs vs _ h =>
      have hle := covers_length_le h
      have hlen := congrArg List.length hs
      simp only [List.flatten_cons, List.length_append, List.length_cons] at hlen
      omega

/-- At most one fragment, with nothing captured behind it, covers itself. -/
theorem covers_self {fs : List std_string} {k : ℕ} (hone : fs.length ≤ 1)
    (hk : fs.length = k ∨ fs.length = k + 1) :
    ∃ values, values.length = k ∧ Covers fs values fs.flatten := by
  match fs, hone with
  | [], _ =>
      refine ⟨[], ?_, .done⟩
      rw [List.length_nil] at hk ⊢
      omega
  | [f], _ =>
      rw [List.flatten_cons, List.flatten_nil, List.append_nil]
      rcases hk with hk | hk
      · refine ⟨[[]], hk, ?_⟩
        have h : Covers [f] [[]] (f ++ ([] ++ [])) := .last (by simp) (.inl rfl)
        rwa [List.append_nil, List.append_nil] at h
      · refine ⟨[], ?_, .fragment f⟩
        simp only [List.length_cons, List.length_nil] at hk ⊢
        omega

/-! ## In range -/

/-- What a capture takes is in range wherever the capture starts inside the path. -/
theorem capture_in_range {sub : std_string → ℕ → ℤ → Except fault std_string}
    (hsub : RightInRange sub) {path : std_string} {pos : ℕ} (h : pos ≤ path.length) :
    sub path pos ((next_separator path pos : ℤ) - pos) = .ok (captured path pos) := by
  have hend : next_separator path pos ≤ path.length := by
    have hseg := segment_length_le (path.drop pos)
    rw [List.length_drop] at hseg
    rw [next_separator_eq h]
    omega
  have hle := le_next_separator h
  exact hsub.between (by omega) (by omega)

/-- The loop does the same with any `substr` that is right in range, from any position:
the length check stands in front of both calls. -/
theorem match_loop_with_eq {sub : std_string → ℕ → ℤ → Except fault std_string}
    (hsub : RightInRange sub) (path : std_string) (fragments names : List std_string)
    (starting_pos : ℕ) (path_params : params) :
    match_loop_with sub path fragments names starting_pos path_params
      = match_loop path fragments names starting_pos path_params := by
  induction fragments generalizing names starting_pos path_params with
  | nil => rfl
  | cons fragment fragments ih =>
      rw [match_loop, match_loop_with, match_loop_with]
      by_cases hlong : starting_pos + fragment.length > path.length
      · rw [if_pos hlong, if_pos hlong]
      · have hend : starting_pos + fragment.length ≤ path.length := Nat.le_of_not_lt hlong
        rw [if_neg hlong, if_neg hlong, substr_or_throw_rest (by omega)]
        by_cases hne : path.drop starting_pos ≠ fragment
        · change (if path.drop starting_pos ≠ fragment then _ else _)
            = if path.drop starting_pos ≠ fragment then _ else _
          rw [if_pos hne, if_pos hne]
        · change (if path.drop starting_pos ≠ fragment then _ else _)
            = if path.drop starting_pos ≠ fragment then _ else _
          rw [if_neg hne, if_neg hne]
          cases names with
          | nil => exact ih _ _ _
          | cons param_name names =>
              simp only [capture_in_range hsub hend, capture_in_range substr_or_throw_right hend]
              exact ih _ _ _

/-- **`match` stays in range**: whatever the fragments, the names and the path are, it
returns, and it returns the same with a `substr` that throws for a negative length and for
one that reaches behind the end. -/
theorem match_in_range (m : path_params_matcher) (req : request) :
    ∃ matched req', m.match_ req = .ok (matched, req')
      ∧ match_with strict_substr m req = .ok (matched, req') := by
  obtain ⟨matched, path_params, -, hloop, -⟩ :=
    match_loop_spec req.path m.static_fragments_ m.param_names_ 0 {}
  refine ⟨matched, { req with matches_ := [], path_params := path_params }, ?_, ?_⟩
  · exact match_of_loop hloop
  · rw [match_with, match_loop_with_eq strict_substr_right, hloop]
    rfl

/-! ## What `match` does -/

/-- At the end of the path there is nothing to capture. -/
theorem captured_at_end (path : std_string) : captured path path.length = [] := by
  rw [captured, List.drop_length, List.take_nil]

theorem match_loop_behind {path : std_string} {pos : ℕ} (hpos : path.length < pos)
    (f : std_string) (fs names : List std_string) (pp : params) :
    match_loop path (f :: fs) names pos pp = .ok (false, pp) := by
  rw [match_loop_cons, if_pos]
  omega

/-- The names that have a fragment in front of them all stand behind the end of the path:
the loop accepts at most one fragment, and only if it is the whole path. -/
theorem match_loop_from_start (path : std_string) (fs names : List std_string)
    (hlen : fs.length = names.length ∨ fs.length = names.length + 1) :
    ∃ matched pp, match_loop path fs names 0 {} = .ok (matched, pp)
      ∧ (matched = true ↔ fs.length ≤ 1 ∧ path = fs.flatten)
      ∧ (matched = true → ∀ name, pp.find name = (names.map fun n => (n, [])).lookup name) := by
  cases fs with
  | nil =>
      have hnames : names = [] := by
        apply List.eq_nil_of_length_eq_zero
        rw [List.length_nil] at hlen
        omega
      subst hnames
      refine ⟨decide (path.length ≤ 0), {}, rfl, ?_, fun _ _ => rfl⟩
      simp
  | cons f fs =>
      rw [match_loop_cons, List.drop_zero, Nat.zero_add]
      by_cases hpath : path = f
      · subst hpath
        rw [if_neg (Nat.lt_irrefl _), if_neg (not_not_intro rfl)]
        cases names with
        | nil =>
            have hfs : fs = [] := by
              apply List.eq_nil_of_length_eq_zero
              simp only [List.length_cons, List.length_nil] at hlen
              omega
            subst hfs
            refine ⟨_, _, rfl, ?_, fun _ _ => rfl⟩
            simp
        | cons n names =>
            have hsep := le_next_separator (Nat.le_refl path.length)
            cases fs with
            | nil =>
                have hnames : names = [] := by
                  apply List.eq_nil_of_length_eq_zero
                  simp only [List.length_cons, List.length_nil] at hlen
                  omega
                subst hnames
                refine ⟨_, _, rfl, ?_, ?_⟩
                · have hle : path.length ≤ next_separator path path.length + 1 := by omega
                  simp [hle]
                · intro _ name
                  have hempty : unordered_map.find ({} : params) name = none := rfl
                  rw [captured_at_end, find_emplace, hempty, Option.none_or, List.map_singleton,
                    List.lookup_cons, List.lookup_nil]
                  by_cases hname : name = n
                  · rw [if_pos hname, beq_iff_eq.mpr hname]
                  · rw [if_neg hname, beq_eq_false_iff_ne.mpr hname]
            | cons g fs =>
                -- the next fragment is looked for one past the end
                refine ⟨_, _, match_loop_behind (by omega) g fs names _, ?_, ?_⟩
                · simp
                · intro h
                  cases h
      · -- a fragment that is not the whole path is rejected, whatever follows it
        refine ⟨false, {}, ?_, ?_, ?_⟩
        · by_cases hlong : f.length > path.length
          · rw [if_pos hlong]
          · rw [if_neg hlong, if_pos hpath]
        · constructor
          · intro h
            cases h
          · rintro ⟨hone, hflat⟩
            have hfs : fs = [] := by
              apply List.eq_nil_of_length_eq_zero
              rw [List.length_cons] at hone
              omega
            rw [hfs, List.flatten_cons, List.flatten_nil, List.append_nil] at hflat
            exact absurd hflat hpath
        · intro h
          cases h

/-! ## When that is right -/

/-- The matcher accepts the path exactly if its fragments and as many texts as it has names
cover it, and then `path_params` maps each name to its text, the first one of a name that
is repeated. -/
def Conforms (m : path_params_matcher) (req : request) : Prop :=
  ∃ matched req', m.match_ req = .ok (matched, req')
    ∧ (matched = true ↔ ∃ values, values.length = m.param_names_.length
        ∧ Covers m.static_fragments_ values req.path)
    ∧ (matched = true → ∀ values, values.length = m.param_names_.length →
        Covers m.static_fragments_ values req.path →
        ∀ name, req'.path_params.find name = (m.param_names_.zip values).lookup name)

/-- **A compiled matcher does what it says** on the paths that it does not cover, and on
the path that is its fragments and nothing else. -/
theorem compiled_conforms_iff (m : path_params_matcher) (req : request)
    (hm : m.static_fragments_.length = m.param_names_.length
      ∨ m.static_fragments_.length = m.param_names_.length + 1) :
    Conforms m req
      ↔ ∀ values, values.length = m.param_names_.length →
          Covers m.static_fragments_ values req.path →
          req.path = m.static_fragments_.flatten := by
  obtain ⟨matched, pp, hloop, hmatched, hfind⟩ :=
    match_loop_from_start req.path m.static_fragments_ m.param_names_ hm
  have hmatch : m.match_ req
      = .ok (matched, { req with matches_ := [], path_params := pp }) := match_of_loop hloop
  constructor
  · rintro ⟨matched', req', h, hiff, -⟩ values hlen hcovers
    rw [hmatch, Except.ok.injEq, Prod.mk.injEq] at h
    obtain ⟨rfl, -⟩ := h
    exact (hmatched.mp (hiff.mpr ⟨values, hlen, hcovers⟩)).2
  · intro hall
    refine ⟨matched, _, hmatch, ?_, ?_⟩
    · constructor
      · intro h
        obtain ⟨hone, hpath⟩ := hmatched.mp h
        rw [hpath]
        exact covers_self hone hm
      · rintro ⟨values, hlen, hcovers⟩
        have hpath := hall values hlen hcovers
        apply hmatched.mpr
        refine ⟨?_, hpath⟩
        -- behind a second fragment the path would be longer
        rcases hfs : m.static_fragments_ with _ | ⟨f, _ | ⟨g, fs⟩⟩
        · exact Nat.zero_le _
        · exact Nat.le_refl _
        · rw [hfs] at hcovers hpath
          have := covers_length_lt hcovers
          rw [hpath] at this
          exact absurd this (Nat.lt_irrefl _)
    · intro h values hlen hcovers name
      have hpath := (hmatched.mp h).2
      rw [hfind h]
      congr 1
      rcases covers_flatten hcovers hpath with rfl | rfl
      · rw [List.eq_nil_of_length_eq_zero hlen.symm]
        rfl
      · obtain ⟨n, hn⟩ := List.length_eq_one_iff.mp hlen.symm
        rw [hn]
        rfl

/-- The fragment `/u/` with the name `id`, and the path `/x`. -/
theorem compiled_conforms_iff_other_path :
    Conforms { pattern_ := "/u/:id".toList, static_fragments_ := ["/u/".toList],
               param_names_ := ["id".toList] }
      { inner := { method := .get, target := "/x".toList }, path := "/x".toList } := by
  apply (compiled_conforms_iff _ _ (.inl rfl)).mpr
  intro values _ hcovers
  have hlen := covers_length_le hcovers
  exact absurd hlen (by decide)

/-- The fragment `/users/` with the name `id` does not match `/users/7`. -/
theorem capture_never_taken :
    ¬ Conforms { pattern_ := "/users/:id".toList, static_fragments_ := ["/users/".toList],
                 param_names_ := ["id".toList] }
        { inner := { method := .get, target := "/users/7".toList }
          path := "/users/7".toList } := by
  rintro ⟨matched, req', hmatch, hiff, -⟩
  cases hmatch
  have hcovers : Covers ["/users/".toList] ["7".toList] "/users/7".toList :=
    @Covers.last "/users/".toList "7".toList [] (by decide) (.inl rfl)
  exact absurd (hiff.mpr ⟨["7".toList], rfl, hcovers⟩) (by decide)

end CppHttp.CompiledMatch
