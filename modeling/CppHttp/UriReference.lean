/-
URI references and their resolution (RFC 3986, section 5).

A reference is the five components of its text; what a scheme and an authority are is
left open. `resolution` is section 5.2.2, with `merge` (5.2.3) and `remove_dot_segments`
(5.2.4), which works on an input and an output buffer.

`remove_dot_segments_eq_self_iff` says which paths the last of these leaves alone: those
without a segment `.` or `..`. It is proved segment by segment: whether a path is
`DotFree` shows at its first segment and in what is behind it (`dotFree_cons_iff`).
-/
import Mathlib.Data.List.TakeWhile
import Mathlib.Tactic.Common

set_option autoImplicit false

namespace CppHttp.UriReference

/-! ## References -/

/-- The components of a reference, of which only the path is always there. -/
structure reference (S A : Type*) where
  scheme : Option S := none
  authority : Option A := none
  path : List Char := []
  query : Option (List Char) := none
  fragment : Option (List Char) := none
  deriving DecidableEq

/-- The first segment of a non-empty path, with the slash in front of it if there is
one. -/
def first_segment (c : Char) (s : List Char) : List Char := c :: s.takeWhile (· ≠ '/')

/-- The path behind its first segment. -/
def behind (s : List Char) : List Char := s.dropWhile (· ≠ '/')

/-- The path without its last segment and the slash in front of that. -/
def drop_last_segment (path : List Char) : List Char :=
  ((path.reverse.dropWhile (· ≠ '/')).drop 1).reverse

/-- The loop of `remove_dot_segments`, over the output and the input buffer. -/
def remove_dots : ℕ → List Char → List Char → List Char
  | 0, out, _ => out
  | _ + 1, out, [] => out
  | fuel + 1, out, c :: s =>
      -- rules A and D, B, C, and E
      if first_segment c s = ['.'] ∨ first_segment c s = ['.', '.'] then
        remove_dots fuel out ((behind s).drop 1)
      else if first_segment c s = ['/', '.'] then
        remove_dots fuel out ('/' :: (behind s).drop 1)
      else if first_segment c s = ['/', '.', '.'] then
        remove_dots fuel (drop_last_segment out) ('/' :: (behind s).drop 1)
      else remove_dots fuel (out ++ first_segment c s) (behind s)

/-- Section 5.2.4. Each turn of the loop takes something from the input. -/
def remove_dot_segments (path : List Char) : List Char := remove_dots path.length [] path

section Resolution

variable {S A : Type*}

/-- Section 5.2.3: the path in the place of the last segment of the base's path. -/
def merge (base : reference S A) (path : List Char) : List Char :=
  if base.authority.isSome ∧ base.path = [] then '/' :: path
  else (base.path.reverse.dropWhile (· ≠ '/')).reverse ++ path

/-- Section 5.2.2: the reference `r`, found at `base`. -/
def resolution (base r : reference S A) : reference S A :=
  if r.scheme.isSome then { r with path := remove_dot_segments r.path }
  else if r.authority.isSome then
    { r with scheme := base.scheme, path := remove_dot_segments r.path }
  else if r.path = [] then
    { r with
      scheme := base.scheme, authority := base.authority, path := base.path
      query := r.query.or base.query }
  else
    { r with
      scheme := base.scheme, authority := base.authority
      path := remove_dot_segments
        (if r.path.head? = some '/' then r.path else merge base r.path) }

/-- Two of the examples of section 5.4, without scheme and host. -/
example :
    resolution (S := Unit) { authority := some (), path := "/b/c/d;p".toList }
        { path := "../../../g".toList }
      = { authority := some (), path := "/g".toList }
    ∧ resolution (S := Unit) { authority := some (), path := "/b/c/d;p".toList }
        { path := "./g/.".toList, query := some "y".toList }
      = { authority := some (), path := "/b/c/g/".toList, query := some "y".toList } := by
  decide

/-- A chain of references, each found at what the one before it resolves to. -/
def resolution_chain (base : reference S A) (rs : List (reference S A)) : reference S A :=
  rs.foldl resolution base

theorem resolution_chain_succ (base : reference S A) (rs : List (reference S A)) {k : ℕ}
    (hk : k < rs.length) :
    resolution_chain base (rs.take (k + 1))
      = resolution (resolution_chain base (rs.take k)) rs[k] := by
  unfold resolution_chain
  rw [List.take_succ_eq_append_getElem hk, List.foldl_append, List.foldl_cons, List.foldl_nil]

end Resolution

/-! ## Paths without dot segments -/

/-- No segment of the path is `.` or `..`. -/
def DotFree (path : List Char) : Prop :=
  ∀ pre segment post, path = pre ++ (segment ++ post) → (pre = [] ∨ pre.getLast? = some '/') →
    (post = [] ∨ post.head? = some '/') → segment ≠ ['.'] ∧ segment ≠ ['.', '.']

/-- A segment, with the slash in front of it, that is not a dot segment. -/
def Plain (segment : List Char) : Prop :=
  segment ≠ ['.'] ∧ segment ≠ ['.', '.'] ∧ segment ≠ ['/', '.'] ∧ segment ≠ ['/', '.', '.']

theorem dotFree_nil : DotFree [] := by
  intro pre segment post heq _ _
  have hnil : segment = [] := by
    simp only [List.nil_eq, List.append_eq_nil_iff] at heq
    exact heq.2.1
  simp [hnil]

theorem first_segment_append (c : Char) (s : List Char) :
    first_segment c s ++ behind s = c :: s := by
  rw [first_segment, behind, List.cons_append, List.takeWhile_append_dropWhile]

/-- Behind a segment the path is at its end or at a slash. -/
theorem behind_cases (s : List Char) : behind s = [] ∨ (behind s).head? = some '/' := by
  induction s with
  | nil => exact Or.inl rfl
  | cons c s ih =>
      unfold behind at ih ⊢
      by_cases hc : c = '/'
      · exact Or.inr (by simp [hc])
      · simpa [List.dropWhile_cons, hc] using ih

/-- The first segment of a text that starts with a segment. -/
theorem takeWhile_segment {segment post : List Char} (h : '/' ∉ segment)
    (hpost : post = [] ∨ post.head? = some '/') :
    (segment ++ post).takeWhile (· ≠ '/') = segment := by
  rw [List.takeWhile_append_of_pos (fun c hc => by
    rw [decide_eq_true_eq]
    rintro rfl
    exact h hc)]
  cases post with
  | nil => simp
  | cons d post =>
      rcases hpost with hnil | hhead
      · cases hnil
      · simp [Option.some.inj hhead]

/-- A segment at the start of a path, with no slash in front of it, is the first one. -/
theorem first_segment_eq {c : Char} {s segment post : List Char} (hne : segment ≠ [])
    (h : '/' ∉ segment) (hpost : post = [] ∨ post.head? = some '/')
    (heq : c :: s = segment ++ post) : first_segment c s = segment := by
  cases segment with
  | nil => exact absurd rfl hne
  | cons d segment =>
      rw [List.cons_append] at heq
      obtain ⟨rfl, rfl⟩ := List.cons.inj heq
      rw [List.mem_cons, not_or] at h
      rw [first_segment, takeWhile_segment h.2 hpost]

/-- What is behind a slash is behind the first segment. -/
theorem behind_append_slash (s rest : List Char) :
    behind (s ++ '/' :: rest) = behind s ++ '/' :: rest := by
  rw [behind, List.dropWhile_append]
  by_cases hs : (s.dropWhile (· ≠ '/')).isEmpty = true
  · rw [if_pos hs, behind, List.isEmpty_iff.mp hs]
    simp
  · rw [if_neg hs, behind]

/-- No segment is a dot segment if the first one is none and there is none behind it. -/
theorem DotFree.cons {c : Char} {s : List Char} (hplain : Plain (first_segment c s))
    (hrest : DotFree (behind s)) : DotFree (c :: s) := by
  obtain ⟨h1, h2, h3, h4⟩ := hplain
  intro pre segment post heq hpre hpost
  by_contra hdot
  rw [not_and_or, not_not, not_not] at hdot
  have hmem : '/' ∉ segment := by
    rcases hdot with rfl | rfl
    · decide
    · decide
  have hne : segment ≠ [] := by
    rcases hdot with rfl | rfl
    · decide
    · decide
  rcases List.eq_nil_or_concat pre with rfl | ⟨pre', d, rfl⟩
  · -- the dot segment is the first one
    have hfirst := first_segment_eq hne hmem hpost heq
    rw [hfirst] at h1 h2
    exact hdot.elim h1 h2
  · obtain rfl : d = '/' := by
      rcases hpre with hnil | hlast
      · simp at hnil
      · rw [List.concat_eq_append, List.getLast?_concat] at hlast
        exact Option.some.inj hlast
    cases pre' with
    | nil =>
        -- it is the first one, behind a slash
        obtain ⟨rfl, rfl⟩ := List.cons.inj heq
        have hfirst : first_segment '/' (segment ++ post) = '/' :: segment := by
          rw [first_segment, takeWhile_segment hmem hpost]
        rcases hdot with rfl | rfl
        · exact h3 hfirst
        · exact h4 hfirst
    | cons d' q =>
        -- it is in the rest: the slash in front of it is not in the first segment
        have hs : s = q ++ ('/' :: (segment ++ post)) := by
          simpa using (List.cons.inj heq).2
        have hbehind : behind s = (behind q ++ ['/']) ++ (segment ++ post) := by
          rw [hs, behind_append_slash, List.append_assoc]
          rfl
        have := hrest _ segment post hbehind (Or.inr (by simp)) hpost
        exact hdot.elim this.1 this.2

/-- Whether a path has a dot segment shows at its first segment and behind it. -/
theorem dotFree_cons_iff (c : Char) (s : List Char) :
    DotFree (c :: s) ↔ Plain (first_segment c s) ∧ DotFree (behind s) := by
  have hsplit := first_segment_append c s
  have hend := behind_cases s
  constructor
  · intro h
    have hat : ∀ segment, first_segment c s = segment →
        segment ≠ ['.'] ∧ segment ≠ ['.', '.'] := by
      intro segment heq
      exact h [] segment (behind s) (by rw [List.nil_append, ← heq, hsplit]) (Or.inl rfl) hend
    have hslash : ∀ segment, first_segment c s = '/' :: segment →
        segment ≠ ['.'] ∧ segment ≠ ['.', '.'] := by
      intro segment heq
      exact h ['/'] segment (behind s) (by rw [← hsplit, heq]; rfl) (Or.inr rfl) hend
    refine ⟨⟨(hat _ rfl).1, (hat _ rfl).2, fun heq => (hslash _ heq).1 rfl,
      fun heq => (hslash _ heq).2 rfl⟩, ?_⟩
    intro pre segment post heq hpre hpost
    rcases List.eq_nil_or_concat pre with rfl | ⟨pre', d, rfl⟩
    · -- the rest starts with a slash, and no dot segment does
      rw [List.nil_append] at heq
      constructor
      · rintro rfl
        rw [heq] at hend
        simp at hend
      · rintro rfl
        rw [heq] at hend
        simp at hend
    · refine h (first_segment c s ++ pre'.concat d) segment post ?_ ?_ hpost
      · rw [← hsplit, heq, List.append_assoc]
      · rcases hpre with hnil | hlast
        · simp at hnil
        · refine Or.inr ?_
          rw [List.concat_eq_append, ← List.append_assoc, List.getLast?_concat]
          rwa [List.concat_eq_append, List.getLast?_concat] at hlast
  · rintro ⟨hplain, hrest⟩
    exact .cons hplain hrest

/-! ## The paths that `remove_dot_segments` leaves alone -/

theorem drop_last_segment_length_le (path : List Char) :
    (drop_last_segment path).length ≤ path.length := by
  have hle := (List.dropWhile_suffix (l := path.reverse) fun c => decide (c ≠ '/')).length_le
  rw [List.length_reverse] at hle
  rw [drop_last_segment, List.length_reverse, List.length_drop]
  omega

/-- One turn of the loop: a dot segment makes the buffers shorter, any other segment goes
from the one into the other. -/
theorem remove_dots_cons_cases (fuel : ℕ) (out : List Char) (c : Char) (s : List Char) :
    (¬ Plain (first_segment c s)
        ∧ ∃ out' input', remove_dots (fuel + 1) out (c :: s) = remove_dots fuel out' input'
          ∧ out'.length + input'.length < out.length + (c :: s).length)
      ∨ (Plain (first_segment c s)
        ∧ remove_dots (fuel + 1) out (c :: s)
          = remove_dots fuel (out ++ first_segment c s) (behind s)) := by
  have hlen := congrArg List.length (first_segment_append c s)
  have hpos : 0 < (first_segment c s).length := Nat.succ_pos _
  rw [List.length_append] at hlen
  rw [remove_dots]
  by_cases h1 : first_segment c s = ['.'] ∨ first_segment c s = ['.', '.']
  · refine Or.inl ⟨fun h => h1.elim h.1 h.2.1, out, (behind s).drop 1, if_pos h1, ?_⟩
    rw [List.length_drop]
    omega
  · rw [if_neg h1]
    by_cases h2 : first_segment c s = ['/', '.']
    · refine Or.inl ⟨fun h => h.2.2.1 h2, out, '/' :: (behind s).drop 1, if_pos h2, ?_⟩
      have htwo : (first_segment c s).length = 2 := by rw [h2]; rfl
      rw [List.length_cons, List.length_drop]
      omega
    · rw [if_neg h2]
      by_cases h3 : first_segment c s = ['/', '.', '.']
      · refine Or.inl ⟨fun h => h.2.2.2 h3, drop_last_segment out, '/' :: (behind s).drop 1,
          if_pos h3, ?_⟩
        have hthree : (first_segment c s).length = 3 := by rw [h3]; rfl
        have hout := drop_last_segment_length_le out
        rw [List.length_cons, List.length_drop]
        omega
      · rw [if_neg h3]
        rw [not_or] at h1
        exact Or.inr ⟨⟨h1.1, h1.2, h2, h3⟩, rfl⟩

/-- Nothing is added. -/
theorem remove_dots_length_le (fuel : ℕ) (out input : List Char) :
    (remove_dots fuel out input).length ≤ out.length + input.length := by
  induction fuel generalizing out input with
  | zero => exact Nat.le_add_right _ _
  | succ fuel ih =>
      cases input with
      | nil => exact Nat.le_refl _
      | cons c s =>
          rcases remove_dots_cons_cases fuel out c s with ⟨-, out', input', heq, hlt⟩ | ⟨-, heq⟩
          · rw [heq]
            exact (ih out' input').trans hlt.le
          · have hlen := congrArg List.length (first_segment_append c s)
            have hle := ih (out ++ first_segment c s) (behind s)
            rw [List.length_append] at hlen hle
            rw [heq]
            omega

/-- With enough turns the input goes to the output as it is exactly if it has no dot
segment: the first one shortens it for good. -/
theorem remove_dots_eq_iff (fuel : ℕ) (out input : List Char) (hfuel : input.length ≤ fuel) :
    remove_dots fuel out input = out ++ input ↔ DotFree input := by
  induction fuel generalizing out input with
  | zero =>
      obtain rfl := List.length_eq_zero_iff.mp (Nat.le_zero.mp hfuel)
      exact iff_of_true (List.append_nil out).symm dotFree_nil
  | succ fuel ih =>
      cases input with
      | nil =>
          exact iff_of_true (List.append_nil out).symm dotFree_nil
      | cons c s =>
          rw [dotFree_cons_iff]
          rcases remove_dots_cons_cases fuel out c s with
            ⟨hdot, out', input', heq, hlt⟩ | ⟨hno, heq⟩
          · refine iff_of_false (fun h => ?_) (fun h => hdot h.1)
            have hle := remove_dots_length_le fuel out' input'
            rw [← heq, h, List.length_append] at hle
            omega
          · have hlen : (behind s).length ≤ fuel := by
              have := (List.dropWhile_suffix (l := s) fun c => decide (c ≠ '/')).length_le
              rw [List.length_cons] at hfuel
              rw [behind]
              omega
            have hsplit : out ++ first_segment c s ++ behind s = out ++ c :: s := by
              rw [List.append_assoc, first_segment_append]
            rw [heq, ← hsplit, ih _ _ hlen, and_iff_right hno]

/-- `remove_dot_segments` leaves alone exactly the paths without a segment `.` or
`..`. -/
theorem remove_dot_segments_eq_self_iff (path : List Char) :
    remove_dot_segments path = path ↔ DotFree path := by
  have h := remove_dots_eq_iff path.length [] path (Nat.le_refl _)
  rwa [List.nil_append] at h

end CppHttp.UriReference
