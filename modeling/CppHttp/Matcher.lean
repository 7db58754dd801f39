/-
`server/matcher.hpp`: the two matchers of a route, and what a path-parameter
pattern means.

`path_params_matcher` works in two loops. The constructor cuts the pattern into
static fragments and capture names (`extract_params_with`); `match` walks over a path
with these (`match_loop_with`). Both are written with the source's indices. The `substr`
whose length they compute is an argument, and the source's is one that can throw
(`substr_or_throw`).

What a pattern stands for is the relation `Fills`, stated on the texts alone: the
pattern with each capture `:name` replaced by a slash-free text. It reads the
pattern from left to right and determines the captured texts (`fills_unique`).

The two do not meet. The constructor moves its parameter into the base class and
then searches the *parameter*, which a move leaves empty, so the loop finds no
marker and every path-parameter matcher is built without fragments and without
names (`make_spec`). Such a matcher accepts the empty path and nothing else
(`match_of_no_fragments`). `conforms_iff` says on which paths that happens to be
what the pattern asks for: those that are not empty and that the pattern does not
cover.

`std::regex` is not part of the repository; its constructor and `regex_match` are
parameters, and both may throw. So a matcher answers, or it throws; either way it looks
at the path alone, and an answer overwrites both capture fields (`match_eq`).
-/
import CppHttp.Request

set_option autoImplicit false

namespace CppHttp.Matcher

open CppHttp.StdString CppHttp.HttpMessage CppHttp.UnorderedMap CppHttp.Request

/-! ## Compiling a pattern -/

/-- How a loop over a string can end badly: a `substr` throws, a regex throws when it is
compiled or matched, or the fuel given to the model runs out. -/
inductive fault
  | out_of_range
  | regex_error
  | out_of_fuel
  deriving DecidableEq, Repr

def separator : std_string := ['/']

/-- The `marker` of the constructor. -/
def marker : std_string := "/:".toList

/-- `std::string::npos` as a length: all of the rest. -/
def npos : ℤ := -1

/-- A `substr` whose exception ends the function. -/
def substr_or_throw (s : std_string) (pos : ℕ) (len : ℤ) : Except fault std_string :=
  match substr s pos len with
  | some t => .ok t
  | none => .error .out_of_range

/-- `s.find(separator, pos)`, and the end of the string where that is `npos`. -/
def next_separator (s : std_string) (pos : ℕ) : ℕ := (find_from separator s pos).getD s.length

/-- The variables of the constructor's loop, and what it has printed. -/
structure extraction where
  static_fragments_ : List std_string := []
  param_names_ : List std_string := []
  last_param_end : ℕ := 0
  param_name_set : List std_string := []
  cerr : List std_string := []
  deriving DecidableEq, Repr

/-- The message about a capture name that is used again. -/
def duplicate_message (param_name pattern : std_string) : std_string :=
  "Encountered path parameter '".toList ++ param_name
    ++ "' multiple times in route pattern '".toList ++ pattern ++ "'.".toList

/-- Where the search for the next marker starts: at the `/` that ended the last capture,
which may start the next marker. -/
def search_start (st : extraction) : ℕ :=
  if st.last_param_end = 0 then st.last_param_end else st.last_param_end - 1

section Loop

variable (sub : std_string → ℕ → ℤ → Except fault std_string)

/-- One iteration of the constructor's loop; `none` is its `break`. -/
def extract_param_with (pattern : std_string) (st : extraction) :
    Except fault (Option extraction) :=
  match find_from marker pattern (search_start st) with
  | none => .ok none
  | some marker_pos => do
      let fragment ← sub pattern st.last_param_end ((marker_pos : ℤ) - st.last_param_end + 1)
      let param_name_start := marker_pos + marker.length
      let sep_pos := next_separator pattern param_name_start
      let param_name ← sub pattern param_name_start ((sep_pos : ℤ) - param_name_start)
      return some
        { static_fragments_ := st.static_fragments_ ++ [fragment]
          param_names_ := st.param_names_ ++ [param_name]
          last_param_end := sep_pos + 1
          -- the source looks names up in the set and never inserts one
          param_name_set := st.param_name_set
          cerr :=
            if st.param_name_set.contains param_name then
              st.cerr ++ [duplicate_message param_name pattern]
            else st.cerr }

/-- The constructor's `while (true)`. -/
def extract_params_with (pattern : std_string) : ℕ → extraction → Except fault extraction
  | 0, _ => .error .out_of_fuel
  | fuel + 1, st => do
      match ← extract_param_with sub pattern st with
      | none => return st
      | some st' => extract_params_with pattern fuel st'

/-- The loop of the constructor with the last fragment behind it. That one has no computed
length: it is all of the rest. -/
def extract_with (pattern : std_string) : Except fault extraction := do
  let st ← extract_params_with sub pattern (pattern.length + 1) {}
  if st.last_param_end < pattern.length then
    let fragment ← substr_or_throw pattern st.last_param_end npos
    return { st with static_fragments_ := st.static_fragments_ ++ [fragment] }
  else
    return st

end Loop

/-- The constructor's loop over the `substr` of `std::string`. -/
def extract (pattern : std_string) : Except fault extraction :=
  extract_with substr_or_throw pattern

/-- `class path_params_matcher`. -/
structure path_params_matcher where
  pattern_ : std_string
  static_fragments_ : List std_string
  param_names_ : List std_string
  deriving DecidableEq, Repr

/-- `path_params_matcher::path_params_matcher`, with what it prints on `cerr`. -/
def path_params_matcher.make (pattern : std_string) :
    Except fault (path_params_matcher × List std_string) := do
  -- `: matcher(std::move(pattern))` runs first; the body sees what is left of it
  let (pattern_, pattern) := std_move pattern
  let st ← extract pattern
  return ({ pattern_ := pattern_
            static_fragments_ := st.static_fragments_
            param_names_ := st.param_names_ }, st.cerr)

/-! ## Matching a path -/

/-- The map of captures. -/
abbrev params := unordered_map std_string std_string

section Loop

variable (sub : std_string → ℕ → ℤ → Except fault std_string)

/-- The loop of `match` from the fragment at hand on: the fragments and the names
that are left, the position in the path, and the captures made. The fragment is compared
with all of the rest, whose length is not computed. -/
def match_loop_with (path : std_string) :
    List std_string → List std_string → ℕ → params → Except fault (Bool × params)
  | [], _, starting_pos, path_params => .ok (decide (path.length ≤ starting_pos), path_params)
  | fragment :: fragments, names, starting_pos, path_params =>
      if starting_pos + fragment.length > path.length then .ok (false, path_params)
      else do
        let rest ← substr_or_throw path starting_pos npos
        if rest ≠ fragment then return (false, path_params)
        let starting_pos := starting_pos + fragment.length
        match names with
        | [] => match_loop_with path fragments [] starting_pos path_params
        | param_name :: names =>
            let sep_pos := next_separator path starting_pos
            let value ← sub path starting_pos ((sep_pos : ℤ) - starting_pos)
            match_loop_with path fragments names (sep_pos + 1)
              (path_params.emplace param_name value)

/-- The body of `match`: the answer, and the request with its captures. -/
def match_with (m : path_params_matcher) (req : request) : Except fault (Bool × request) := do
  let (matched, path_params) ←
    match_loop_with sub req.path m.static_fragments_ m.param_names_ 0 {}
  return (matched, { req with matches_ := [], path_params := path_params })

end Loop

/-- The loop of `match` over the `substr` of `std::string`. -/
def match_loop (path : std_string) (fragments names : List std_string) (starting_pos : ℕ)
    (path_params : params) : Except fault (Bool × params) :=
  match_loop_with substr_or_throw path fragments names starting_pos path_params

/-- `path_params_matcher::match`. -/
def path_params_matcher.match_ (m : path_params_matcher) (req : request) :
    Except fault (Bool × request) :=
  match_with substr_or_throw m req

/-! ## Both kinds of matcher -/

/-- `std::regex` and `std::regex_match`. -/
structure regex_library where
  /-- A compiled expression. -/
  regex : Type
  /-- The constructor; `none` is `std::regex_error`. -/
  compile : std_string → Option regex
  /-- The answer and the match results; `none` where the call does not return: it throws
  `std::regex_error` when a match gets too complex or there is not enough memory for it. -/
  regex_match : std_string → regex → Option (Bool × smatch)

variable (R : regex_library)

/-- `class matcher` with its two subclasses. -/
inductive matcher
  | path_params (m : path_params_matcher)
  | regex (pattern_ : std_string) (regex_ : R.regex)

variable {R}

def matcher.pattern : matcher R → std_string
  | .path_params m => m.pattern_
  | .regex pattern_ _ => pattern_

/-- `match` of either subclass. -/
def matcher.match_ : matcher R → request → Except fault (Bool × request)
  | .path_params m, req => m.match_ req
  | .regex _ regex_, req =>
      match R.regex_match req.path regex_ with
      | some (matched, smatch) => .ok (matched, { req with path_params := {}, matches_ := smatch })
      | none => .error .regex_error

variable (R) in
def make_matcher (pattern : std_string) : Except fault (matcher R × List std_string) :=
  if (find marker pattern).isSome then do
    let (m, cerr) ← path_params_matcher.make pattern
    return (.path_params m, cerr)
  else
    match R.compile pattern with
    | some regex_ => .ok (.regex pattern regex_, [])
    | none => .error .regex_error

/-! ## What a pattern means -/

/-- The `/` that may stand behind a last capture. -/
def OptionalSlash (t : std_string) : Prop := t = [] ∨ t = separator

/-- `Fills p s captures`: the path `s` is the pattern `p` with its captures replaced
by slash-free texts, and `captures` lists the names with these texts in order. -/
inductive Fills : std_string → std_string → List (std_string × std_string) → Prop
  /-- Nothing is left of either. -/
  | done : Fills [] [] []
  /-- A character outside the captures stands for itself. -/
  | literal {c : Char} {p s : std_string} {captures : List (std_string × std_string)}
      (hc : ¬ marker <+: c :: p) (h : Fills p s captures) : Fills (c :: p) (c :: s) captures
  /-- A capture that ends at a `/`, which may start the next one. -/
  | capture {name value p s : std_string} {captures : List (std_string × std_string)}
      (hname : '/' ∉ name) (hvalue : '/' ∉ value) (h : Fills ('/' :: p) ('/' :: s) captures) :
      Fills (marker ++ (name ++ '/' :: p)) ('/' :: (value ++ '/' :: s))
        ((name, value) :: captures)
  /-- A capture that ends the pattern. -/
  | last {name value tail_p tail_s : std_string} (hname : '/' ∉ name) (hvalue : '/' ∉ value)
      (hp : OptionalSlash tail_p) (hs : OptionalSlash tail_s) :
      Fills (marker ++ (name ++ tail_p)) ('/' :: (value ++ tail_s)) [(name, value)]

theorem fills_nil_right {p : std_string} {captures : List (std_string × std_string)}
    (h : Fills p [] captures) : p = [] := by
  cases h
  rfl

/-- Reading a literal character off both texts. -/
theorem fills_literal_iff {c : Char} {p s : std_string}
    {captures : List (std_string × std_string)} (hc : ¬ marker <+: c :: p) :
    Fills (c :: p) s captures ↔ ∃ s', s = c :: s' ∧ Fills p s' captures := by
  constructor
  · intro h
    generalize hq : c :: p = q at h
    cases h with
    | done => cases hq
    | literal _ h =>
        rw [List.cons.injEq] at hq
        obtain ⟨rfl, rfl⟩ := hq
        exact ⟨_, rfl, h⟩
    | capture _ _ _ => exact absurd (hq ▸ List.prefix_append marker _) hc
    | last _ _ _ _ => exact absurd (hq ▸ List.prefix_append marker _) hc
  · rintro ⟨s', rfl, h⟩
    exact .literal hc h

/-- Reading a capture off both texts: the name is the text up to the next `/` of the
pattern, and the captured text the one up to the next `/` of the path. -/
theorem fills_marker {q s : std_string} {captures : List (std_string × std_string)}
    (h : Fills (marker ++ q) s captures) :
    ∃ name value tail_p tail_s rest,
      q = name ++ tail_p ∧ s = '/' :: (value ++ tail_s) ∧ captures = (name, value) :: rest
        ∧ '/' ∉ name ∧ '/' ∉ value
        ∧ ((OptionalSlash tail_p ∧ OptionalSlash tail_s ∧ rest = [])
          ∨ ∃ p s', tail_p = '/' :: p ∧ tail_s = '/' :: s'
              ∧ Fills ('/' :: p) ('/' :: s') rest) := by
  generalize hq : marker ++ q = p at h
  cases h with
  | done => cases hq
  | literal hc _ => exact absurd (hq ▸ List.prefix_append marker q) hc
  | capture hname hvalue h =>
      rw [List.append_cancel_left_eq] at hq
      exact ⟨_, _, _, _, _, hq, rfl, rfl, hname, hvalue, .inr ⟨_, _, rfl, rfl, h⟩⟩
  | last hname hvalue hp hs =>
      rw [List.append_cancel_left_eq] at hq
      exact ⟨_, _, _, _, _, hq, rfl, rfl, hname, hvalue, .inl ⟨hp, hs, rfl⟩⟩

/-- A text that is over or goes on with a `/`. -/
def AtSlash (t : std_string) : Prop := t = [] ∨ ∃ r, t = '/' :: r

theorem OptionalSlash.atSlash {t : std_string} (h : OptionalSlash t) : AtSlash t := by
  rcases h with rfl | rfl
  · exact .inl rfl
  · exact .inr ⟨[], rfl⟩

/-- The slash-free text in front of a `/` or of the end is determined. -/
theorem slash_free_prefix_unique {v v' t t' : std_string} (hv : '/' ∉ v) (hv' : '/' ∉ v')
    (ht : AtSlash t) (ht' : AtSlash t') (h : v ++ t = v' ++ t') : v = v' ∧ t = t' := by
  -- both are what `takeWhile` finds in front of the first `/`
  have htake : ∀ {w u : std_string}, '/' ∉ w → AtSlash u →
      (w ++ u).takeWhile (· ≠ '/') = w := by
    intro w u hw hu
    rw [takeWhile_ne_append hw]
    rcases hu with rfl | ⟨r, rfl⟩
    · simp
    · simp
  have hvv : v = v' := by rw [← htake hv ht, h, htake hv' ht']
  subst hvv
  exact ⟨rfl, List.append_cancel_left h⟩

/-- A last `/` holds no further capture. -/
theorem captures_eq_nil_of_optionalSlash {p s : std_string}
    {captures : List (std_string × std_string)} (hp : OptionalSlash ('/' :: p))
    (h : Fills ('/' :: p) s captures) : captures = [] := by
  rcases hp with hp | hp
  · cases hp
  · rw [hp] at h
    obtain ⟨s', -, h'⟩ := (fills_literal_iff (by decide)).mp h
    cases h'
    rfl

theorem fills_unique {p s : std_string} {captures captures' : List (std_string × std_string)}
    (h : Fills p s captures) (h' : Fills p s captures') : captures = captures' := by
  induction h generalizing captures' with
  | done =>
      cases h'
      rfl
  | literal hc _ ih =>
      obtain ⟨s', heq, h'⟩ := (fills_literal_iff hc).mp h'
      rw [List.cons.injEq] at heq
      obtain ⟨-, rfl⟩ := heq
      exact ih h'
  | @capture name value p s rest hname hvalue h ih =>
      -- both readings stop the name and the text at the same `/`
      obtain ⟨name', value', tp, ts, rest', hp, hs, rfl, hname', hvalue', htail⟩ :=
        fills_marker h'
      rw [List.cons.injEq] at hs
      rcases htail with ⟨hop, hos, rfl⟩ | ⟨p', s', rfl, rfl, h''⟩
      · obtain ⟨rfl, rfl⟩ := slash_free_prefix_unique hname hname' (.inr ⟨p, rfl⟩)
          hop.atSlash hp
        obtain ⟨rfl, -⟩ := slash_free_prefix_unique hvalue hvalue' (.inr ⟨s, rfl⟩)
          hos.atSlash hs.2
        rw [captures_eq_nil_of_optionalSlash hop h]
      · obtain ⟨rfl, htp⟩ := slash_free_prefix_unique hname hname' (.inr ⟨p, rfl⟩)
          (.inr ⟨p', rfl⟩) hp
        obtain ⟨rfl, hts⟩ := slash_free_prefix_unique hvalue hvalue' (.inr ⟨s, rfl⟩)
          (.inr ⟨s', rfl⟩) hs.2
        rw [← htp, ← hts] at h''
        rw [ih h'']
  | @last name value tp ts hname hvalue hop hos =>
      obtain ⟨name', value', tp', ts', rest', hp, hs, rfl, hname', hvalue', htail⟩ :=
        fills_marker h'
      rw [List.cons.injEq] at hs
      -- the other reading may still see a capture end here, with a lone `/` behind it
      have hats' : AtSlash ts' := by
        rcases htail with ⟨-, h, -⟩ | ⟨-, s', -, h, -⟩
        · exact h.atSlash
        · exact .inr ⟨s', h⟩
      obtain ⟨rfl, -⟩ := slash_free_prefix_unique hvalue hvalue' hos.atSlash hats' hs.2
      rcases htail with ⟨hop', -, rfl⟩ | ⟨p', s', rfl, rfl, h''⟩
      · obtain ⟨rfl, -⟩ := slash_free_prefix_unique hname hname' hop.atSlash hop'.atSlash hp
        rfl
      · obtain ⟨rfl, rfl⟩ := slash_free_prefix_unique hname hname' hop.atSlash
          (.inr ⟨p', rfl⟩) hp
        rw [captures_eq_nil_of_optionalSlash hop h'']

/-! ## What the constructor builds -/

/-- The base class has taken the parameter, so the constructor's loop runs on the
empty text: the matcher has its pattern, and neither fragments nor names. -/
theorem make_spec (pattern : std_string) :
    path_params_matcher.make pattern
      = .ok ({ pattern_ := pattern, static_fragments_ := [], param_names_ := [] }, []) := by
  rfl

/-- A matcher without fragments compares nothing: it accepts the path that is over
before it starts. -/
theorem match_of_no_fragments (pattern : std_string) (names : List std_string)
    (req : request) :
    path_params_matcher.match_
        { pattern_ := pattern, static_fragments_ := [], param_names_ := names } req
      = .ok (req.path.isEmpty, { req with matches_ := [], path_params := {} }) := by
  unfold path_params_matcher.match_ match_with
  rw [match_loop_with]
  have hempty : decide (req.path.length ≤ 0) = req.path.isEmpty := by
    cases req.path with
    | nil => rfl
    | cons c s => rfl
  rw [hempty]
  rfl

/-! ## What the loop of `match` does -/

theorem substr_or_throw_rest {s : std_string} {pos : ℕ} (h : pos ≤ s.length) :
    substr_or_throw s pos npos = .ok (s.drop pos) := by
  unfold substr_or_throw substr
  rw [if_pos h]
  rfl

theorem substr_or_throw_between {s : std_string} {pos stop : ℕ} (h : pos ≤ s.length)
    (hle : pos ≤ stop) :
    substr_or_throw s pos ((stop : ℤ) - pos) = .ok ((s.drop pos).take (stop - pos)) := by
  unfold substr_or_throw substr
  have hlen : ((stop : ℤ) - pos).toNat = stop - pos := by omega
  rw [if_pos h, if_pos (by omega), hlen]

theorem le_next_separator {s : std_string} {pos : ℕ} (h : pos ≤ s.length) :
    pos ≤ next_separator s pos := by
  unfold next_separator find_from
  rw [if_pos h]
  cases find separator (s.drop pos) with
  | none => exact h
  | some i =>
      rw [Option.map_some, Option.getD_some]
      omega

/-- The text a capture takes: up to the next separator. -/
def captured (path : std_string) (pos : ℕ) : std_string :=
  (path.drop pos).take (next_separator path pos - pos)

/-- One turn of the loop, without its exceptions: the length check keeps every `substr`
inside the path, also behind a capture that ran to the end. -/
theorem match_loop_cons (path fragment : std_string) (fragments names : List std_string)
    (starting_pos : ℕ) (path_params : params) :
    match_loop path (fragment :: fragments) names starting_pos path_params
      = if starting_pos + fragment.length > path.length then .ok (false, path_params)
        else if path.drop starting_pos ≠ fragment then .ok (false, path_params)
        else match names with
          | [] => match_loop path fragments [] (starting_pos + fragment.length) path_params
          | param_name :: names =>
              match_loop path fragments names
                (next_separator path (starting_pos + fragment.length) + 1)
                (path_params.emplace param_name
                  (captured path (starting_pos + fragment.length))) := by
  rw [match_loop, match_loop_with]
  by_cases hlen : starting_pos + fragment.length > path.length
  · rw [if_pos hlen, if_pos hlen]
  · have hstart : starting_pos ≤ path.length := by omega
    have hend : starting_pos + fragment.length ≤ path.length := by omega
    rw [if_neg hlen, if_neg hlen, substr_or_throw_rest hstart]
    change (if path.drop starting_pos ≠ fragment then _ else _) = _
    by_cases hne : path.drop starting_pos ≠ fragment
    · rw [if_pos hne, if_pos hne]
      rfl
    · rw [if_neg hne, if_neg hne]
      cases names with
      | nil => rfl
      | cons param_name names =>
          simp only [substr_or_throw_between hend (le_next_separator hend)]
          rfl

/-- The loop returns, and what it has written into `path_params` by then are the texts
captured for the first names, whatever it answers: of a repeated name the first. -/
theorem match_loop_spec (path : std_string) (fragments names : List std_string)
    (starting_pos : ℕ) (path_params : params) :
    ∃ matched path_params', ∃ values : List std_string,
      match_loop path fragments names starting_pos path_params = .ok (matched, path_params')
        ∧ values.length ≤ names.length
        ∧ ∀ key, path_params'.find key
          = (path_params.find key).or ((names.zip values).lookup key) := by
  induction fragments generalizing names starting_pos path_params with
  | nil => exact ⟨_, _, [], rfl, Nat.zero_le _, by simp⟩
  | cons fragment fragments ih =>
      rw [match_loop_cons]
      by_cases hlen : starting_pos + fragment.length > path.length
      · rw [if_pos hlen]
        exact ⟨_, _, [], rfl, Nat.zero_le _, by simp⟩
      · rw [if_neg hlen]
        by_cases hne : path.drop starting_pos ≠ fragment
        · rw [if_pos hne]
          exact ⟨_, _, [], rfl, Nat.zero_le _, by simp⟩
        · rw [if_neg hne]
          cases names with
          | nil => exact ih [] _ path_params
          | cons param_name names =>
              -- the captures of the rest come behind this one, and lose against it
              obtain ⟨matched, path_params', values, hloop, hlen', hfind⟩ := ih names
                (next_separator path (starting_pos + fragment.length) + 1)
                (path_params.emplace param_name (captured path (starting_pos + fragment.length)))
              refine ⟨matched, path_params',
                captured path (starting_pos + fragment.length) :: values, hloop, ?_, ?_⟩
              · simp only [List.length_cons]
                omega
              · intro key
                rw [hfind, find_emplace, Option.or_assoc, List.zip_cons_cons, List.lookup_cons]
                by_cases hkey : key = param_name
                · rw [if_pos hkey, beq_iff_eq.mpr hkey, Option.some_or]
                · rw [if_neg hkey, beq_eq_false_iff_ne.mpr hkey, Option.none_or]

/-- `match` returns what its loop returns. -/
theorem match_of_loop {m : path_params_matcher} {req : request} {matched : Bool}
    {path_params : params}
    (h : match_loop req.path m.static_fragments_ m.param_names_ 0 {} = .ok (matched, path_params)) :
    m.match_ req = .ok (matched, { req with matches_ := [], path_params := path_params }) := by
  rw [path_params_matcher.match_, match_with, ← match_loop, h]
  rfl

/-! ## What a matcher says about a path -/

/-- The answer of a matcher to a path, or the exception. -/
def answer (m : matcher R) (path : std_string) : Except fault Bool :=
  match m with
  | .path_params m => (match_loop path m.static_fragments_ m.param_names_ 0 {}).map Prod.fst
  | .regex _ regex_ => ((R.regex_match path regex_).map Prod.fst).elim (.error .regex_error) .ok

/-- What it leaves in the two capture fields, also if it does not accept. -/
def captures (m : matcher R) (path : std_string) : params × smatch :=
  match m with
  | .path_params m =>
      match match_loop path m.static_fragments_ m.param_names_ 0 {} with
      | .ok (_, path_params) => (path_params, [])
      | .error _ => ({}, [])
  | .regex _ regex_ => ({}, ((R.regex_match path regex_).map Prod.snd).getD [])

/-- A request with these captures. -/
def with_captures (req : request) (c : params × smatch) : request :=
  { req with path_params := c.1, matches_ := c.2 }

/-- Matching looks at the path alone, and an answer sets both capture fields. -/
theorem match_eq (m : matcher R) (req : request) :
    m.match_ req
      = (answer m req.path).map fun matched =>
          (matched, with_captures req (captures m req.path)) := by
  cases m with
  | path_params m =>
      obtain ⟨matched, path_params, -, h, -, -⟩ := match_loop_spec req.path
        m.static_fragments_ m.param_names_ 0 {}
      rw [matcher.match_, match_of_loop h]
      simp only [answer, captures, h]
      rfl
  | regex pattern_ regex_ =>
      rw [matcher.match_]
      cases hr : R.regex_match req.path regex_ with
      | none => simp [answer, hr, Except.map]
      | some p => simp [answer, captures, with_captures, hr, Except.map]

/-- Only a regex can throw, and only because `std::regex_match` does. -/
theorem throws_iff {m : matcher R} {path : std_string} :
    (∃ f, answer m path = .error f)
      ↔ ∃ pattern_ regex_, m = .regex pattern_ regex_ ∧ R.regex_match path regex_ = none := by
  cases m with
  | path_params m =>
      obtain ⟨matched, path_params, -, h, -, -⟩ := match_loop_spec path
        m.static_fragments_ m.param_names_ 0 {}
      simp [answer, h, Except.map]
  | regex pattern_ regex_ =>
      cases hr : R.regex_match path regex_ with
      | none => simp [answer, hr]
      | some p => simp [answer, hr]

/-! ## The contract of `make_matcher` -/

/-- On this pattern and request the matcher answers whether the pattern covers the
path, and a match leaves exactly the captures in `path_params`, the first text of a
repeated name. -/
def Conforms (R : regex_library) (pattern : std_string) (req : request) : Prop :=
  ∃ m cerr matched req',
    make_matcher R pattern = .ok (m, cerr) ∧ m.match_ req = .ok (matched, req')
      ∧ (matched = true ↔ ∃ captures, Fills pattern req.path captures)
      ∧ (matched = true → ∃ captures, Fills pattern req.path captures
          ∧ ∀ name, req'.path_params.find name = captures.lookup name)

/-- **The matcher of a path-parameter route rejects every path but the empty one**,
so it does what its pattern says exactly on the non-empty paths that the pattern
does not cover. -/
theorem conforms_iff (R : regex_library) (pattern : std_string) (req : request)
    (hpattern : (find marker pattern).isSome = true) :
    Conforms R pattern req
      ↔ req.path ≠ [] ∧ ¬ ∃ captures, Fills pattern req.path captures := by
  have hmake : make_matcher R pattern = .ok
      (.path_params { pattern_ := pattern, static_fragments_ := [], param_names_ := [] },
        []) := by
    unfold make_matcher
    rw [if_pos hpattern, make_spec]
    rfl
  have hne : pattern ≠ [] := by
    rintro rfl
    cases hpattern
  unfold Conforms
  constructor
  · rintro ⟨m, cerr, matched, req', hm, hmatch, hiff, -⟩
    rw [hmake, Except.ok.injEq, Prod.mk.injEq] at hm
    obtain ⟨rfl, -⟩ := hm
    rw [matcher.match_, match_of_no_fragments, Except.ok.injEq, Prod.mk.injEq] at hmatch
    obtain ⟨rfl, -⟩ := hmatch
    -- the empty path is accepted, and no pattern with a capture covers it
    have hpath : req.path ≠ [] := by
      intro hpath
      obtain ⟨captures, h⟩ := hiff.mp (by rw [hpath]; rfl)
      rw [hpath] at h
      exact hne (fills_nil_right h)
    refine ⟨hpath, ?_⟩
    intro h
    exact hpath (List.isEmpty_iff.mp (hiff.mpr h))
  · rintro ⟨hpath, hfills⟩
    -- a non-empty path is rejected, and here that is the right answer
    have hfalse : req.path.isEmpty = false := by simpa using hpath
    refine ⟨_, _, false, { req with matches_ := [], path_params := {} }, hmake, ?_, ?_, ?_⟩
    · rw [matcher.match_, match_of_no_fragments, hfalse]
    · simpa using hfills
    · intro h
      cases h

/-- Expressions without special characters: they match their own text. -/
def literal_regex : regex_library where
  regex := std_string
  compile := some
  regex_match path r := some (if path = r then (true, [path]) else (false, []))

/-- The route `/u/:id` and the path `/x`, which it is right to reject. -/
theorem conforms_iff_other_path :
    (find marker "/u/:id".toList).isSome = true
      ∧ Conforms literal_regex "/u/:id".toList
          { inner := { method := .get, target := "/x".toList }, path := "/x".toList } := by
  refine ⟨by decide, (conforms_iff literal_regex _ _ (by decide)).mpr ⟨by decide, ?_⟩⟩
  rintro ⟨captures, h⟩
  have h : Fills ('/' :: 'u' :: "/:id".toList) ['/', 'x'] captures := h
  obtain ⟨s, hs, h⟩ := (fills_literal_iff (by decide)).mp h
  obtain ⟨-, rfl⟩ := List.cons.inj hs
  obtain ⟨s', hs', -⟩ := (fills_literal_iff (by decide)).mp h
  exact absurd (List.cons.inj hs').1 (by decide)

/-- The route `/users/:id` does not match `/users/7`. -/
theorem route_never_matches :
    ¬ Conforms literal_regex "/users/:id".toList
        { inner := { method := .get, target := "/users/7".toList }
          path := "/users/7".toList } := by
  rintro ⟨m, cerr, matched, req', hm, hmatch, hiff, -⟩
  cases hm
  cases hmatch
  -- `"/users"` is literal, and `id` stands for `7`
  have hcapture : Fills "/:id".toList "/7".toList [("id".toList, "7".toList)] :=
    @Fills.last "id".toList "7".toList [] [] (by decide) (by decide) (.inl rfl) (.inl rfl)
  have hfills : Fills "/users/:id".toList "/users/7".toList [("id".toList, "7".toList)] :=
    .literal (by decide) (.literal (by decide) (.literal (by decide) (.literal (by decide)
      (.literal (by decide) (.literal (by decide) hcapture)))))
  exact absurd (hiff.mpr ⟨_, hfills⟩) (by decide)

end CppHttp.Matcher
