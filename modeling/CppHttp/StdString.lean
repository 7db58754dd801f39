/-
The part of `std::string` and of the stream and number utilities of the C++
standard library that the repository's text handling is written with: `find`,
`substr`, `getline`, `to_string`, `from_chars`.

A string is the list of its characters. Nothing the code does with one looks at
anything but equality with fixed ASCII characters and, for `retry`, the value of
a decimal digit, so a C++ `char` is a `Char` here and every byte string is one of
the lists below.

Two things are proved once and used by every parser above this file. `find`
returns the *leftmost* occurrence, and it does not change when text is appended
behind it (`find_append`), which is what lets a reader search a partly filled
buffer. And the lines a string has behind a terminated prefix are the lines of
the prefix followed by the lines of the rest (`complete_lines_append`), which is
what lets a decoder forget the text it has already dispatched.
-/
import Mathlib.Data.List.Basic
import Mathlib.Data.List.Infix
import Mathlib.Data.List.TakeWhile
import Mathlib.Tactic.Common

set_option autoImplicit false

namespace CppHttp.StdString

/-- A C++ `std::string`: the list of its characters. -/
abbrev std_string := List Char

/-! ## Moves

A moved-from `std::string` is empty in libstdc++ and libc++. -/

/-- `std::move` out of a string variable: the value that moves out, and what the
variable holds afterwards. -/
def std_move (s : std_string) : std_string × std_string := (s, [])

/-! ## Searching -/

/-- `s.find(pat)`: the offset of the leftmost occurrence, `none` for `npos`. -/
def find (pat : std_string) : std_string → Option ℕ
  | [] => if pat.isEmpty then some 0 else none
  | c :: s => if pat.isPrefixOf (c :: s) then some 0 else (find pat s).map (· + 1)

/-- `s.find(pat, pos)`: the leftmost occurrence at or after `pos`. A start past
the end of the string finds nothing. -/
def find_from (pat s : std_string) (pos : ℕ) : Option ℕ :=
  if pos ≤ s.length then (find pat (s.drop pos)).map (· + pos) else none

/-- `s.substr(pos, len)`: `none` is the `out_of_range` exception of a start past
the end. A negative `len` is a `size_t` that wrapped around, which the library
clips to the rest of the string. -/
def substr (s : std_string) (pos : ℕ) (len : ℤ) : Option std_string :=
  if pos ≤ s.length then
    some (if 0 ≤ len then (s.drop pos).take len.toNat else s.drop pos)
  else none

/-- An occurrence found is an occurrence: the text before it, the pattern, and
the text behind it. -/
theorem find_split {pat s : std_string} {i : ℕ} (h : find pat s = some i) :
    ∃ pre rest, s = pre ++ (pat ++ rest) ∧ pre.length = i := by
  induction s generalizing i with
  | nil =>
      simp only [find] at h
      split at h
      · next hp =>
          simp only [List.isEmpty_iff] at hp
          simp only [Option.some.injEq] at h
          exact ⟨[], [], by simp [hp], by simp [← h]⟩
      · cases h
  | cons c s ih =>
      simp only [find] at h
      split at h
      · next hp =>
          obtain ⟨rest, hrest⟩ := List.isPrefixOf_iff_prefix.mp hp
          simp only [Option.some.injEq] at h
          exact ⟨[], rest, by simp [hrest], by simp [← h]⟩
      · rw [Option.map_eq_some_iff] at h
        obtain ⟨j, hj, rfl⟩ := h
        obtain ⟨pre, rest, hs, hlen⟩ := ih hj
        exact ⟨c :: pre, rest, by simp [hs], by simp [hlen]⟩

theorem find_add_le {pat s : std_string} {i : ℕ} (h : find pat s = some i) :
    i + pat.length ≤ s.length := by
  obtain ⟨pre, rest, rfl, rfl⟩ := find_split h
  simp only [List.length_append]
  omega

/-- Text appended behind an occurrence does not change which one is leftmost. -/
theorem find_append {pat s : std_string} {i : ℕ} (h : find pat s = some i) (t : std_string) :
    find pat (s ++ t) = some i := by
  induction s generalizing i with
  | nil =>
      simp only [find] at h
      split at h
      · next hp =>
          simp only [List.isEmpty_iff] at hp
          subst hp
          cases t <;> simpa [find] using h
      · cases h
  | cons c s ih =>
      simp only [find] at h
      rw [List.cons_append, find]
      split at h
      · next hp =>
          have hpre : pat <+: c :: (s ++ t) :=
            (List.isPrefixOf_iff_prefix.mp hp).trans ⟨t, rfl⟩
          rw [if_pos (List.isPrefixOf_iff_prefix.mpr hpre)]
          exact h
      · next hp =>
          rw [Option.map_eq_some_iff] at h
          obtain ⟨j, hj, rfl⟩ := h
          -- the occurrence fits into `s`, so a longer string cannot start with
          -- the pattern unless `c :: s` already does
          have hlen : pat.length ≤ (c :: s).length := by
            have := find_add_le hj
            simp only [List.length_cons]
            omega
          have hnp : ¬ pat.isPrefixOf (c :: (s ++ t)) := by
            intro hpre
            have h1 : pat <+: (c :: s) ++ t := List.isPrefixOf_iff_prefix.mp hpre
            have h2 : pat <+: c :: s :=
              List.prefix_of_prefix_length_le h1 (List.prefix_append _ t) hlen
            exact hp (List.isPrefixOf_iff_prefix.mpr h2)
          rw [if_neg hnp, ih hj]
          rfl

/-- No occurrence of the pattern fits before the end of the leftmost one. -/
theorem find_take_eq_none {pat s : std_string} {i n : ℕ} (h : find pat s = some i)
    (hn : n < i + pat.length) : find pat (s.take n) = none := by
  cases hf : find pat (s.take n) with
  | none => rfl
  | some j =>
      have hj : find pat s = some j := by
        rw [← List.take_append_drop n s]
        exact find_append hf _
      have hle := find_add_le hf
      simp only [List.length_take] at hle
      rw [h] at hj
      simp only [Option.some.injEq] at hj
      omega

/-- Nothing is found exactly where the pattern does not occur. -/
theorem find_eq_none_iff (pat s : std_string) : find pat s = none ↔ ¬ pat <:+: s := by
  induction s with
  | nil => simp [find]
  | cons c s ih =>
      rw [find, List.infix_cons_iff, not_or, ← ih, ← List.isPrefixOf_iff_prefix]
      by_cases hp : pat.isPrefixOf (c :: s) = true
      · simp [hp]
      · simp [hp]

/-- A text without the character is all in front of the first one. -/
theorem takeWhile_ne_append {c : Char} {s : std_string} (h : c ∉ s) (t : std_string) :
    (s ++ t).takeWhile (· ≠ c) = s ++ t.takeWhile (· ≠ c) := by
  apply List.takeWhile_append_of_pos
  intro d hd
  rw [decide_eq_true_eq]
  rintro rfl
  exact h hd

theorem dropWhile_ne_append {c : Char} {s : std_string} (h : c ∉ s) (t : std_string) :
    (s ++ t).dropWhile (· ≠ c) = t.dropWhile (· ≠ c) := by
  apply List.dropWhile_append_of_pos
  intro d hd
  rw [decide_eq_true_eq]
  rintro rfl
  exact h hd

theorem takeWhile_ne_eq_self {c : Char} {s : std_string} (h : c ∉ s) :
    s.takeWhile (· ≠ c) = s := by
  have happend := takeWhile_ne_append h []
  rwa [List.append_nil, List.takeWhile_nil, List.append_nil] at happend

theorem dropWhile_ne_eq_nil {c : Char} {s : std_string} (h : c ∉ s) :
    s.dropWhile (· ≠ c) = [] := by
  have happend := dropWhile_ne_append h []
  rwa [List.append_nil, List.dropWhile_nil] at happend

theorem notMem_takeWhile_ne (c : Char) (s : std_string) : c ∉ s.takeWhile (· ≠ c) := by
  intro h
  have := List.mem_takeWhile_imp h
  simp at this

/-- A single character is found behind the text in front of it. -/
theorem find_char (c : Char) (s : std_string) :
    find [c] s = if c ∈ s then some (s.takeWhile (· ≠ c)).length else none := by
  induction s with
  | nil => rfl
  | cons d s ih =>
      rw [find]
      by_cases hd : d = c
      · subst hd
        simp
      · have hpre : [c].isPrefixOf (d :: s) = false := by
          simp [List.isPrefixOf, Ne.symm hd]
        have hmem : c ∈ d :: s ↔ c ∈ s := by simp [Ne.symm hd]
        have htake : (d :: s).takeWhile (· ≠ c) = d :: s.takeWhile (· ≠ c) := by simp [hd]
        rw [hpre, ih, htake]
        by_cases hs : c ∈ s
        · rw [if_pos hs, if_pos (hmem.mpr hs)]
          rfl
        · rw [if_neg hs, if_neg (fun h => hs (hmem.mp h))]
          rfl

/-! ## Lines -/

/-- `std::getline(iss, line)`: the characters up to the next `'\n'`, which is
extracted and dropped, and the text left in the stream; `none` when the stream
has nothing left to extract. -/
def getline : std_string → Option (std_string × std_string)
  | [] => none
  | s => some (s.takeWhile (· ≠ '\n'), (s.dropWhile (· ≠ '\n')).drop 1)

/-- The lines `while (std::getline(iss, line))` goes through. The last one may
lack its terminator. -/
def getlines : std_string → List std_string
  | [] => []
  | c :: s =>
      if c = '\n' then [] :: getlines s
      else match getlines s with
        | [] => [[c]]
        | l :: ls => (c :: l) :: ls

/-- The terminated lines of a text: those of `getlines` without a last line that
still lacks its `'\n'`. -/
def complete_lines : std_string → List std_string
  | [] => []
  | c :: s =>
      if c = '\n' then [] :: complete_lines s
      else match complete_lines s with
        | [] => []
        | l :: ls => (c :: l) :: ls

/-- One call of `getline` takes the first line and leaves the others: the list of
lines is what the loop over `getline` sees. -/
theorem getlines_eq (s : std_string) :
    getlines s = match getline s with
      | none => []
      | some (l, rest) => l :: getlines rest := by
  induction s with
  | nil => rfl
  | cons c s ih =>
      by_cases hc : c = '\n'
      · subst hc
        simp [getlines, getline]
      · rw [getlines, if_neg hc, ih]
        cases s with
        | nil => simp [getline, getlines, hc]
        | cons d s => simp [getline, hc]

theorem complete_lines_ne_nil (s : std_string) : complete_lines (s ++ ['\n']) ≠ [] := by
  induction s with
  | nil => simp [complete_lines]
  | cons c s ih =>
      rw [List.cons_append, complete_lines]
      cases hl : complete_lines (s ++ ['\n']) with
      | nil => exact absurd hl ih
      | cons l ls => split <;> simp

theorem getlines_eq_complete_lines (s : std_string) :
    getlines (s ++ ['\n']) = complete_lines (s ++ ['\n']) := by
  induction s with
  | nil => rfl
  | cons c s ih =>
      rw [List.cons_append, getlines, complete_lines, ih]
      cases hl : complete_lines (s ++ ['\n']) with
      | nil => exact absurd hl (complete_lines_ne_nil s)
      | cons l ls => rfl

/-- Behind a terminated prefix the lines are those of the rest. -/
theorem complete_lines_append (s t : std_string) :
    complete_lines (s ++ '\n' :: t) = complete_lines (s ++ ['\n']) ++ complete_lines t := by
  induction s with
  | nil => simp [complete_lines]
  | cons c s ih =>
      rw [List.cons_append, List.cons_append, complete_lines, complete_lines, ih]
      cases hl : complete_lines (s ++ ['\n']) with
      | nil => exact absurd hl (complete_lines_ne_nil s)
      | cons l ls => split <;> rfl

/-! ## Numbers -/

/-- `std::to_string` of an unsigned number. -/
def to_string (v : UInt64) : std_string := Nat.toDigits 10 v.toNat

/-- The value of a string of decimal digits. -/
def digits_value (ds : std_string) : ℕ :=
  ds.foldl (fun n c => 10 * n + (c.toNat - '0'.toNat)) 0

/-- `std::from_chars` into a `uint64_t` in base 10: it reads the longest prefix of
digits, and fails on an empty one and on overflow. What follows the digits is not
looked at. -/
def from_chars (s : std_string) : Option UInt64 :=
  let digits := s.takeWhile Char.isDigit
  if digits.isEmpty then none
  else if digits_value digits < UInt64.size then some (UInt64.ofNat (digits_value digits))
  else none

end CppHttp.StdString
