/-
What a chunk header may announce to `response::read_chunked_encoding` and
`response::read_chunked_sse` (`client/response.hpp`).

Both take the size out of the header and call `reserve(size)` on the string that the body
is to be appended to. The size is the peer's, any number below 2⁶⁴: the parser's own limit
is raised to the largest number first. `std::string::reserve` throws `length_error` for a
size above `max_size()`, and `bad_alloc` for one that the allocator does not serve, however
little of the chunk has arrived. Neither callback tests the size, catches an exception or
writes the error code it is given.

`Fragmentation` has the callbacks without these exceptions. It is what is left where every
size fits and every allocation is served (`calls_or_raise_of_fits`). `readsSafely_iff`: the
readers keep to results exactly there.
-/
import CppHttp.Fragmentation
import CppHttp.ReadVerdict

set_option autoImplicit false

namespace CppHttp.ChunkHeaders

open CppHttp.ChunkReader CppHttp.ChunkedSse CppHttp.Errors CppHttp.Fragmentation CppHttp.Message
  CppHttp.ReadChunked CppHttp.ReadVerdict CppHttp.StdString

/-! ## Exceptions out of a callback -/

/-- The exceptions of `std::string::reserve`. -/
inductive exception
  | length_error
  | bad_alloc
  deriving DecidableEq, Repr

/-- Whether the allocator serves what the `k`-th call of the parser asks it for: of a header
the announced size and the text of the extensions, of a piece of a body what the strings grow
by and what is made of them. It goes by the number of the call, since it depends on what else
is in memory; more than `max_size()` is never served. -/
abbrev allocator := ℕ → callback → Bool

/-- `s.reserve(n)` where `max_size` is `s.max_size()`. Nothing but the capacity changes. -/
def reserve (max_size : ℕ) (served : Bool) (n : ℕ) : Except exception Unit :=
  if n > max_size then .error .length_error
  else if served then .ok ()
  else .error .bad_alloc

theorem reserve_eq_ok_iff {max_size n : ℕ} {served : Bool} :
    reserve max_size served n = .ok () ↔ n ≤ max_size ∧ served = true := by
  unfold reserve
  by_cases hn : n > max_size
  · rw [if_pos hn]
    simp only [reduceCtorEq, false_iff, not_and]
    intro hle
    omega
  · rw [if_neg hn]
    cases served with
    | true => simp only [if_true, true_iff, and_true]; omega
    | false => simp

section Callbacks

variable {L M : Type} (max_size : ℕ) (alloc : allocator) (cr : chunk_reader L M) (ok : ℕ → Bool)

/-- The `k`-th call of the parser, which may throw. -/
def call_or_raise (k : ℕ) (t : tally L M) (c : callback) : Except exception (tally L M) :=
  match c with
  | .header size ext => do
      let t := call cr ok t (.header size ext)
      reserve max_size (alloc k c) size
      return t
  | .body remain piece =>
      if alloc k c then .ok (call cr ok t (.body remain piece)) else .error .bad_alloc

/-- The calls of the parser from the `k`-th on, up to the end of the message, or up to an
exception. -/
def calls_or_raise : ℕ → tally L M → List callback → Except exception (tally L M)
  | _, t, [] => .ok t
  | k, t, c :: cs => do
      let t ← call_or_raise max_size alloc cr ok k t c
      calls_or_raise (k + 1) t cs

/-- The private `read_chunked_encoding`, behind its tests: the parser makes its calls and
reports `ec`; an exception out of a call leaves the function. The loop goes round once
more at most. -/
def read_message (t : tally L M) (cs : List callback) (ec : error_code) :
    Except exception (tally L M × Option (result Unit)) := do
  let t ← calls_or_raise max_size alloc cr ok 0 t cs
  let loop : read_loop := { calls := 0, ec_ := none, done_ := false, returned := none }
  return (t, ((read_iteration fun _ => ec)^[2] loop).returned)

end Callbacks

/-! ## Which sizes are safe -/

/-- A header does not announce more than a string can hold. -/
def SizeFits (max_size : ℕ) : callback → Prop
  | .header size _ => size ≤ max_size
  | .body _ _ => True

/-- From the `k`-th call on every size fits, and the allocator serves every call. -/
def Fits (max_size : ℕ) (alloc : allocator) : ℕ → List callback → Prop
  | _, [] => True
  | k, c :: cs => SizeFits max_size c ∧ alloc k c = true ∧ Fits max_size alloc (k + 1) cs

theorem fits_iff (max_size : ℕ) (alloc : allocator) (k : ℕ) (cs : List callback) :
    Fits max_size alloc k cs
      ↔ (∀ size ext, callback.header size ext ∈ cs → size ≤ max_size)
        ∧ ∀ i (hi : i < cs.length), alloc (k + i) cs[i] = true := by
  induction cs generalizing k with
  | nil => simp [Fits]
  | cons c cs ih =>
      have hsizes : (∀ size ext, callback.header size ext ∈ c :: cs → size ≤ max_size)
          ↔ SizeFits max_size c
            ∧ ∀ size ext, callback.header size ext ∈ cs → size ≤ max_size := by
        cases c with
        | header size ext =>
            constructor
            · intro h
              exact ⟨h size ext List.mem_cons_self,
                fun size' ext' hmem => h size' ext' (List.mem_cons_of_mem _ hmem)⟩
            · rintro ⟨hsize, h⟩ size' ext' hmem
              rcases List.mem_cons.mp hmem with heq | hmem
              · rw [callback.header.injEq] at heq
                rw [heq.1]
                exact hsize
              · exact h size' ext' hmem
        | body remain piece => simp [SizeFits]
      have hserved : (∀ i (hi : i < (c :: cs).length), alloc (k + i) (c :: cs)[i] = true)
          ↔ alloc k c = true ∧ ∀ i (hi : i < cs.length), alloc (k + 1 + i) cs[i] = true := by
        constructor
        · intro h
          refine ⟨h 0 (Nat.succ_pos _), ?_⟩
          intro i hi
          have hi' := h (i + 1) (Nat.succ_lt_succ hi)
          rwa [show k + (i + 1) = k + 1 + i by omega] at hi'
        · rintro ⟨hfirst, h⟩ i hi
          cases i with
          | zero => exact hfirst
          | succ i =>
              have hi' := h i (Nat.lt_of_succ_lt_succ hi)
              rwa [show k + 1 + i = k + (i + 1) by omega] at hi'
      rw [Fits, ih, hsizes, hserved]
      tauto

variable {L M : Type} {max_size : ℕ} {alloc : allocator} {cr : chunk_reader L M}
  {ok : ℕ → Bool}

/-- A call comes to what it comes to without exceptions where its size fits and the allocator
serves it, and else it throws. -/
theorem call_or_raise_eq_ok_iff {k : ℕ} {t t' : tally L M} {c : callback} :
    call_or_raise max_size alloc cr ok k t c = .ok t'
      ↔ SizeFits max_size c ∧ alloc k c = true ∧ t' = call cr ok t c := by
  cases c with
  | header size ext =>
      rw [SizeFits, ← and_assoc, ← reserve_eq_ok_iff]
      unfold call_or_raise
      cases hr : reserve max_size (alloc k (.header size ext)) size with
      | error e => simp [hr, bind, Except.bind]
      | ok u => simp [hr, bind, Except.bind, pure, Except.pure, eq_comm]
  | body remain piece =>
      unfold call_or_raise
      cases alloc k (.body remain piece) with
      | true => simp [SizeFits, eq_comm]
      | false => simp

/-- Where every size fits and every call is served, the calls come to what they come to
without exceptions. -/
theorem calls_or_raise_of_fits {cs : List callback} {k : ℕ} (h : Fits max_size alloc k cs)
    (t : tally L M) :
    calls_or_raise max_size alloc cr ok k t cs = .ok (calls cr ok t cs) := by
  induction cs generalizing k t with
  | nil => rfl
  | cons c cs ih =>
      obtain ⟨hsize, hserved, htail⟩ := h
      rw [calls_or_raise, call_or_raise_eq_ok_iff.mpr ⟨hsize, hserved, rfl⟩]
      exact ih htail _

/-- Calls that are all made have met no size that does not fit and have all been served. -/
theorem fits_of_calls_or_raise {cs : List callback} {k : ℕ} {t t' : tally L M}
    (h : calls_or_raise max_size alloc cr ok k t cs = .ok t') : Fits max_size alloc k cs := by
  induction cs generalizing k t with
  | nil => trivial
  | cons c cs ih =>
      rw [calls_or_raise] at h
      cases hcall : call_or_raise max_size alloc cr ok k t c with
      | error e =>
          rw [hcall] at h
          cases h
      | ok t₁ =>
          rw [hcall] at h
          obtain ⟨hsize, hserved, -⟩ := call_or_raise_eq_ok_iff.mp hcall
          exact ⟨hsize, hserved, ih h⟩

/-- What the loop makes of an error that is not `eof` is an error. -/
theorem read_message_of_error {cs : List callback} (hfits : Fits max_size alloc 0 cs)
    (t : tally L M) {ec : error_code} (hec : ec ≠ none) (heof : ec ≠ some .eof) :
    ∃ t' e, read_message max_size alloc cr ok t cs ec = .ok (t', some (.error e)) := by
  rw [read_message, calls_or_raise_of_fits hfits]
  rcases ec with _ | _ | _ | _ | _ | _
  · exact absurd rfl hec
  · exact absurd rfl heof
  all_goals exact ⟨_, _, rfl⟩

/-! ## Both readers -/

/-- Whatever becomes of the sends, the reader's callbacks are all made; and a message that
the parser reports an error for, other than the end of the stream, ends in an error
result. -/
structure ReadsSafely (max_size : ℕ) (alloc : allocator) (cr : chunk_reader L M) (acc : L)
    (cs : List callback) : Prop where
  completes : ∀ ok, ∃ t,
    calls_or_raise max_size alloc cr ok 0 { acc := acc, tried := [] } cs = .ok t
  fails : ∀ ok ec, ec ≠ none → ec ≠ some error.eof → ∃ t e,
    read_message max_size alloc cr ok { acc := acc, tried := [] } cs ec
      = .ok (t, some (.error e))

theorem readsSafely_iff (acc : L) (cs : List callback) :
    ReadsSafely max_size alloc cr acc cs ↔ Fits max_size alloc 0 cs := by
  constructor
  · intro h
    obtain ⟨t, ht⟩ := h.completes fun _ => true
    exact fits_of_calls_or_raise ht
  · intro h
    exact ⟨fun ok => ⟨_, calls_or_raise_of_fits h _⟩,
      fun ok ec hec heof => read_message_of_error h _ hec heof⟩

/-- **Both readers end in results**, for any sequence of chunk headers and bodies and any
allocator, exactly if no header announces a size above `max_size()` and the allocator serves
every call of theirs. -/
theorem both_read_safely_iff (max_size : ℕ) (alloc alloc_sse : allocator) (cs : List callback) :
    ReadsSafely max_size alloc read_chunked_encoding {} cs
        ∧ ReadsSafely max_size alloc_sse read_chunked_sse [] cs
      ↔ (∀ size ext, callback.header size ext ∈ cs → size ≤ max_size)
        ∧ ∀ i (hi : i < cs.length), alloc i cs[i] = true ∧ alloc_sse i cs[i] = true := by
  rw [readsSafely_iff, readsSafely_iff, fits_iff, fits_iff]
  simp only [Nat.zero_add]
  constructor
  · rintro ⟨⟨hsizes, hserved⟩, -, hserved_sse⟩
    exact ⟨hsizes, fun i hi => ⟨hserved i hi, hserved_sse i hi⟩⟩
  · rintro ⟨hsizes, hserved⟩
    exact ⟨⟨hsizes, fun i hi => (hserved i hi).1⟩, hsizes, fun i hi => (hserved i hi).2⟩

/-- The largest size that a header can announce, where strings hold half of that, on an
allocator that serves everything. -/
theorem largest_size_raises :
    ¬ ReadsSafely 9223372036854775807 (fun _ _ => true) read_chunked_encoding {}
        [.header 18446744073709551615 []]
      ∧ ¬ ReadsSafely 9223372036854775807 (fun _ _ => true) read_chunked_sse []
          [.header 18446744073709551615 []] := by
  constructor
  · intro h
    obtain ⟨t, ht⟩ := h.completes fun _ => true
    cases ht
  · intro h
    obtain ⟨t, ht⟩ := h.completes fun _ => true
    cases ht

end CppHttp.ChunkHeaders
