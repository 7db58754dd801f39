/-
Where the body of an HTTP/1.1 message ends, as its recipient sees it.

There are four ways: the message has no body whatever follows its header, the body is a
sequence of chunks with a last-chunk, it has a given length, or it goes on until the
connection is closed. `framing.read` reads a body in each of them and gives back what
follows it, and `Delimits` says that some bytes are read as a given body wherever they
stand, so that what is behind them is the start of the next message.

The chunk grammar is the one of HTTP/1.1: a size in hexadecimal, an extension, the data
of that size, each ended by CRLF, and behind the chunk of size zero the trailer section.
`read_chunks` keeps the chunks, each with its extension, and `dechunk` their data only.
`read_chunks_chunks` is the round trip: a sequence of chunks is read as that sequence,
whatever comes behind it.
-/
import Mathlib.Data.List.Basic
import Mathlib.Tactic.Common
import Mathlib.Tactic.IntervalCases

set_option autoImplicit false

namespace CppHttp.BodyFraming

/-! ## Sizes in hexadecimal -/

/-- The value of a hexadecimal digit. -/
def hex_value (c : Char) : Option ℕ :=
  if '0' ≤ c ∧ c ≤ '9' then some (c.toNat - 48)
  else if 'a' ≤ c ∧ c ≤ 'f' then some (c.toNat - 87)
  else if 'A' ≤ c ∧ c ≤ 'F' then some (c.toNat - 55)
  else none

/-- The digits in front, behind the digits of `n`, and what follows them. -/
def read_digits : ℕ → List Char → ℕ × List Char
  | n, [] => (n, [])
  | n, c :: s =>
      match hex_value c with
      | some d => read_digits (16 * n + d) s
      | none => (n, c :: s)

/-- A size: one digit at least. -/
def read_size (s : List Char) : Option (ℕ × List Char) :=
  if ((s.head?).bind hex_value).isSome then some (read_digits 0 s) else none

/-- The digits Lean writes in base 16 are those of HTTP. -/
theorem hex_value_digitChar {d : ℕ} (hd : d < 16) : hex_value d.digitChar = some d := by
  interval_cases d <;> decide

/-- The digits of `n` are read as `n`, whatever follows them. -/
theorem read_digits_toDigits (n : ℕ) (s : List Char) :
    read_digits 0 (Nat.toDigits 16 n ++ s) = read_digits n s := by
  induction n using Nat.strongRecOn generalizing s with
  | ind n ih =>
      by_cases hn : n < 16
      · rw [Nat.toDigits_of_lt_base hn, List.singleton_append, read_digits,
          hex_value_digitChar hn]
        simp
      · -- the last digit is read behind those of `n / 16`
        have hmod : n % 16 < 16 := Nat.mod_lt n (by omega)
        rw [Nat.toDigits_of_base_le (by omega) (by omega), List.append_assoc,
          ih (n / 16) (by omega), List.singleton_append, read_digits, hex_value_digitChar hmod]
        simp only [Nat.div_add_mod]

/-- A size begins with a digit. -/
theorem head_toDigits (n : ℕ) :
    ∃ c t, Nat.toDigits 16 n = c :: t ∧ (hex_value c).isSome = true := by
  induction n using Nat.strongRecOn with
  | ind n ih =>
      by_cases hn : n < 16
      · refine ⟨n.digitChar, [], Nat.toDigits_of_lt_base hn, ?_⟩
        rw [hex_value_digitChar hn]
        rfl
      · obtain ⟨c, t, hdiv, hc⟩ := ih (n / 16) (by omega)
        refine ⟨c, t ++ [(n % 16).digitChar], ?_, hc⟩
        rw [Nat.toDigits_of_base_le (by omega) (by omega), hdiv, List.cons_append]

/-- A size reads back, if no digit follows it. -/
theorem read_size_toDigits (n : ℕ) {c : Char} (hc : hex_value c = none) (s : List Char) :
    read_size (Nat.toDigits 16 n ++ c :: s) = some (n, c :: s) := by
  obtain ⟨d, t, hn, hd⟩ := head_toDigits n
  have hhead : (Nat.toDigits 16 n ++ c :: s).head? = some d := by simp [hn]
  rw [read_size, hhead, Option.bind_some, if_pos hd, read_digits_toDigits, read_digits, hc]

/-! ## Chunks -/

/-- The end of a line. -/
def crlf : List Char := ['\r', '\n']

/-- What is in front of the next CRLF, and what is behind it. -/
def split_line : List Char → Option (List Char × List Char)
  | [] => none
  | '\r' :: '\n' :: rest => some ([], rest)
  | c :: s => (split_line s).map fun r => (c :: r.1, r.2)

/-- The extension of a chunk, from its `;` on, and what is behind its line. -/
def read_extension : List Char → Option (List Char × List Char)
  | '\r' :: '\n' :: rest => some ([], rest)
  | ';' :: s => (split_line s).map fun r => (';' :: r.1, r.2)
  | _ => none

/-- The trailer section: lines up to an empty one. `fresh` says that a line starts here. -/
def skip_trailers : Bool → List Char → Option (List Char)
  | _, [] => none
  | fresh, '\r' :: '\n' :: rest => if fresh then some rest else skip_trailers true rest
  | _, _ :: s => skip_trailers false s

/-- CRLF, and what is behind it. -/
def skip_crlf : List Char → Option (List Char)
  | '\r' :: '\n' :: rest => some rest
  | _ => none

/-- The chunks of a body of fewer than `fuel` chunks, each an extension and its data, and
what is behind the body. -/
def read_chunks : ℕ → List Char → Option (List (List Char × List Char) × List Char)
  | 0, _ => none
  | fuel + 1, s => do
      let (n, s) ← read_size s
      let (ext, s) ← read_extension s
      if n = 0 then
        let rest ← skip_trailers true s
        return ([], rest)
      else
        let rest ← skip_crlf (s.drop n)
        let (chunks, rest) ← read_chunks fuel rest
        return ((ext, s.take n) :: chunks, rest)

/-- The data of these chunks, one behind the other, and what is behind the body. -/
def dechunk (fuel : ℕ) (s : List Char) : Option (List Char × List Char) :=
  (read_chunks fuel s).map fun r => (r.1.flatMap Prod.snd, r.2)

/-- A chunk with data, on the wire. -/
def chunk (ext data : List Char) : List Char :=
  Nat.toDigits 16 data.length ++ ext ++ crlf ++ data ++ crlf

/-- The last-chunk, without trailers. -/
def last_chunk : List Char := '0' :: (crlf ++ crlf)

/-- An extension that does not break out of its line. -/
def IsExtension (ext : List Char) : Prop := ext = [] ∨ ∃ s, ext = ';' :: s ∧ '\r' ∉ s

/-- A line without `'\r'` ends where its CRLF is. -/
theorem split_line_append {s : List Char} (hs : '\r' ∉ s) (rest : List Char) :
    split_line (s ++ (crlf ++ rest)) = some (s, rest) := by
  induction s with
  | nil => rfl
  | cons c s ih =>
      rw [List.mem_cons, not_or] at hs
      rw [List.cons_append, split_line, ih hs.2]
      · rfl
      · -- the other equation would need a `'\r'` in front
        intro rest' hc
        exact absurd hc.symm hs.1

/-- An extension reads back. -/
theorem read_extension_append {ext : List Char} (h : IsExtension ext) (rest : List Char) :
    read_extension (ext ++ (crlf ++ rest)) = some (ext, rest) := by
  rcases h with rfl | ⟨s, rfl, hs⟩
  · rfl
  · rw [List.cons_append, read_extension, split_line_append hs]
    rfl

/-- The size line of a chunk reads as its size, and the extension begins behind it. -/
theorem read_size_chunk (n : ℕ) {ext : List Char} (h : IsExtension ext) (rest : List Char) :
    read_size (Nat.toDigits 16 n ++ (ext ++ (crlf ++ rest))) = some (n, ext ++ (crlf ++ rest)) := by
  obtain rfl | ⟨s, rfl, -⟩ := h
  · exact read_size_toDigits n (by decide) _
  · exact read_size_toDigits n (by decide) _

/-- One chunk in front of others. -/
theorem read_chunks_chunk {ext data : List Char} (hext : IsExtension ext) (hdata : data ≠ [])
    (fuel : ℕ) (rest : List Char) :
    read_chunks (fuel + 1) (chunk ext data ++ rest)
      = (read_chunks fuel rest).map fun r => ((ext, data) :: r.1, r.2) := by
  have hwire : chunk ext data ++ rest
      = Nat.toDigits 16 data.length ++ (ext ++ (crlf ++ (data ++ (crlf ++ rest)))) := by
    simp [chunk]
  have hlength : data.length ≠ 0 := by simpa using hdata
  have hdrop : (data ++ (crlf ++ rest)).drop data.length = crlf ++ rest := List.drop_left
  have htake : (data ++ (crlf ++ rest)).take data.length = data := List.take_left
  rw [hwire, read_chunks, read_size_chunk _ hext]
  simp only [Option.bind_eq_bind, Option.bind_some, read_extension_append hext, if_neg hlength,
    hdrop, htake]
  rw [show skip_crlf (crlf ++ rest) = some rest from rfl, Option.bind_some]
  cases read_chunks fuel rest with
  | none => rfl
  | some r => rfl

/-- **What is written as chunks is read as these chunks**, and the reader stops behind the
last-chunk. -/
theorem read_chunks_chunks {chunks : List (List Char × List Char)}
    (h : ∀ c ∈ chunks, IsExtension c.1 ∧ c.2 ≠ []) {fuel : ℕ} (hfuel : chunks.length < fuel)
    (rest : List Char) :
    read_chunks fuel (chunks.flatMap (fun c => chunk c.1 c.2) ++ last_chunk ++ rest)
      = some (chunks, rest) := by
  induction chunks generalizing fuel with
  | nil =>
      obtain ⟨fuel, rfl⟩ := Nat.exists_eq_add_one.mpr hfuel
      rfl
  | cons c chunks ih =>
      obtain ⟨hc, htail⟩ := List.forall_mem_cons.mp h
      obtain ⟨fuel, rfl⟩ := Nat.exists_eq_add_one.mpr (Nat.zero_lt_of_lt hfuel)
      have hless : chunks.length < fuel := by simpa using hfuel
      rw [List.flatMap_cons, List.append_assoc, List.append_assoc,
        read_chunks_chunk hc.1 hc.2, ← List.append_assoc, ih htail hless]
      rfl

/-- A sequence of chunks is no shorter in bytes than in chunks. -/
theorem length_le_chunks (chunks : List (List Char × List Char)) :
    chunks.length ≤ (chunks.flatMap fun c => chunk c.1 c.2).length := by
  induction chunks with
  | nil => exact Nat.le_refl 0
  | cons c chunks ih =>
      have hc : 1 ≤ (chunk c.1 c.2).length := by
        simp only [chunk, crlf, List.length_append, List.length_cons]
        omega
      rw [List.flatMap_cons, List.length_append, List.length_cons]
      omega

/-- As many characters as the bytes have are fuel enough. -/
theorem read_written_chunks {chunks : List (List Char × List Char)}
    (h : ∀ c ∈ chunks, IsExtension c.1 ∧ c.2 ≠ []) (rest : List Char) :
    let wire := chunks.flatMap (fun c => chunk c.1 c.2) ++ last_chunk ++ rest
    read_chunks wire.length wire = some (chunks, rest) := by
  apply read_chunks_chunks h
  have hlen := length_le_chunks chunks
  simp only [List.length_append, last_chunk, List.length_cons]
  omega

/-- Two chunks, one with an extension, and the start of the next message. -/
example : read_chunks 3 "1;x\r\na\r\n2\r\nbc\r\n0\r\n\r\nHTTP".toList
    = some ([(";x".toList, "a".toList), ([], "bc".toList)], "HTTP".toList) := by
  decide

/-! ## The four framings -/

/-- How the recipient of a message finds the end of its body. -/
inductive framing
  | no_body
  | chunked
  | length (n : ℕ)
  | until_close
  deriving DecidableEq, Repr

/-- The body in front of these bytes, and what is behind it. -/
def framing.read : framing → List Char → Option (List Char × List Char)
  | .no_body, s => some ([], s)
  | .chunked, s => dechunk s.length s
  | .length n, s => if n ≤ s.length then some (s.take n, s.drop n) else none
  | .until_close, s => some (s, [])

/-- The bytes `wire` are read as `body`, and exactly they are. Nothing follows a body
that goes on until the connection is closed. -/
def framing.Delimits (f : framing) (wire body : List Char) : Prop :=
  ∀ rest, (f = .until_close → rest = []) → f.read (wire ++ rest) = some (body, rest)

theorem delimits_no_body_iff (wire body : List Char) :
    framing.no_body.Delimits wire body ↔ wire = [] ∧ body = [] := by
  unfold framing.Delimits framing.read
  constructor
  · intro h
    have := h [] (by simp)
    simp only [List.append_nil, Option.some.injEq, Prod.mk.injEq] at this
    exact ⟨this.2, this.1.symm⟩
  · rintro ⟨rfl, rfl⟩ rest -
    rfl

/-- Chunks and the last-chunk are read as the data of the chunks, and as nothing else. -/
theorem delimits_chunks_iff {chunks : List (List Char × List Char)}
    (h : ∀ c ∈ chunks, IsExtension c.1 ∧ c.2 ≠ []) (body : List Char) :
    framing.chunked.Delimits (chunks.flatMap (fun c => chunk c.1 c.2) ++ last_chunk) body
      ↔ body = chunks.flatMap Prod.snd := by
  have hread : ∀ rest, framing.chunked.read
      (chunks.flatMap (fun c => chunk c.1 c.2) ++ last_chunk ++ rest)
        = some (chunks.flatMap Prod.snd, rest) := by
    intro rest
    rw [framing.read, dechunk, read_written_chunks h]
    rfl
  constructor
  · intro hd
    have := (hread []).symm.trans (hd [] (fun _ => rfl))
    simpa using this.symm
  · rintro rfl rest -
    exact hread rest

end CppHttp.BodyFraming
