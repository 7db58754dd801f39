/-
What a chunked body costs, and what its end depends on.

`BodyFraming` has the chunk grammar and its round trip. Here are two facts about whatever
the grammar accepts. A chunked body is longer than its data (`dechunk_length_lt`), so no text
is the chunked form of itself. And a body that has ended is what it is, whatever else arrives
(`dechunk_more`, `framing_read_more`), so its recipient may read it as soon as it is there.

With these it is settled which framing some bytes are read with: chunks by a recipient that
expects chunks (`read_chunks_iff`), and a text as it stands by one that goes by its length
(`read_exact_iff`).
-/
import CppHttp.BodyFraming

set_option autoImplicit false

namespace CppHttp.ChunkGrammar

open CppHttp.BodyFraming

/-! ## What the framing costs -/

/-- Reading digits takes them off the text. -/
theorem read_digits_length_le (n : ℕ) (s : List Char) :
    (read_digits n s).2.length ≤ s.length := by
  induction s generalizing n with
  | nil => exact Nat.le_refl 0
  | cons c s ih =>
      rw [read_digits]
      cases hex_value c with
      | none => exact Nat.le_refl _
      | some d => exact Nat.le_succ_of_le (ih _)

/-- So does reading a size. -/
theorem read_size_length_le {s rest : List Char} {n : ℕ} (h : read_size s = some (n, rest)) :
    rest.length ≤ s.length := by
  unfold read_size at h
  split at h
  · have hle := read_digits_length_le 0 s
    rw [Option.some.inj h] at hle
    exact hle
  · cases h

/-- A line is shorter than the text it is taken off, by its CRLF. -/
theorem split_line_length_lt {s l rest : List Char} (h : split_line s = some (l, rest)) :
    rest.length < s.length := by
  induction s using split_line.induct generalizing l with
  | case1 => cases h
  | case2 tail =>
      obtain ⟨-, rfl⟩ := Prod.mk.inj (Option.some.inj h)
      simp only [List.length_cons]
      omega
  | case3 c s hline ih =>
      rw [split_line] at h
      · obtain ⟨⟨l', rest'⟩, hsplit, heq⟩ := Option.map_eq_some_iff.mp h
        obtain ⟨-, rfl⟩ := Prod.mk.inj heq
        exact Nat.lt_succ_of_lt (ih hsplit)
      · exact hline

/-- An extension ends behind a CRLF. -/
theorem read_extension_length_lt {s ext rest : List Char}
    (h : read_extension s = some (ext, rest)) : rest.length < s.length := by
  unfold read_extension at h
  split at h
  · obtain ⟨-, rfl⟩ := Prod.mk.inj (Option.some.inj h)
    simp only [List.length_cons]
    omega
  · obtain ⟨⟨l, rest'⟩, hsplit, heq⟩ := Option.map_eq_some_iff.mp h
    obtain ⟨-, rfl⟩ := Prod.mk.inj heq
    exact Nat.lt_succ_of_lt (split_line_length_lt hsplit)
  · cases h

/-- A CRLF is not empty. -/
theorem skip_crlf_length_lt {s rest : List Char} (h : skip_crlf s = some rest) :
    rest.length < s.length := by
  unfold skip_crlf at h
  split at h
  · obtain rfl := Option.some.inj h
    simp only [List.length_cons]
    omega
  · cases h

/-- The trailer section is taken off the text. -/
theorem skip_trailers_length_le {fresh : Bool} {s rest : List Char}
    (h : skip_trailers fresh s = some rest) : rest.length ≤ s.length := by
  induction fresh, s using skip_trailers.induct with
  | case1 => simp [skip_trailers] at h
  | case2 tail =>
      simp [skip_trailers] at h
      subst h
      simp only [List.length_cons]
      omega
  | case3 fresh tail hfresh ih =>
      simp [skip_trailers, hfresh] at h
      have := ih h
      simp only [List.length_cons]
      omega
  | case4 fresh c s hline ih =>
      rw [skip_trailers] at h
      · exact Nat.le_succ_of_le (ih h)
      · exact hline

/-- Chunks are longer than their data: there is a last-chunk at least. -/
theorem read_chunks_length_lt {fuel : ℕ} {s rest : List Char}
    {chunks : List (List Char × List Char)} (h : read_chunks fuel s = some (chunks, rest)) :
    (chunks.flatMap Prod.snd).length + rest.length < s.length := by
  induction fuel generalizing s chunks rest with
  | zero => cases h
  | succ fuel ih =>
      simp only [read_chunks, Option.bind_eq_bind, Option.bind_eq_some_iff] at h
      obtain ⟨⟨n, s1⟩, hsize, ⟨ext, s2⟩, hext, h⟩ := h
      have hle := read_size_length_le hsize
      have hlt := read_extension_length_lt hext
      dsimp only at hlt h
      by_cases hzero : n = 0
      · rw [if_pos hzero] at h
        obtain ⟨tail, htail, heq⟩ := Option.bind_eq_some_iff.mp h
        obtain ⟨rfl, rfl⟩ := Prod.mk.inj (Option.some.inj heq)
        have htrailers := skip_trailers_length_le htail
        rw [List.flatMap_nil, List.length_nil]
        omega
      · rw [if_neg hzero] at h
        obtain ⟨tail, hcrlf, h⟩ := Option.bind_eq_some_iff.mp h
        obtain ⟨⟨more, rest'⟩, hmore, heq⟩ := Option.bind_eq_some_iff.mp h
        obtain ⟨rfl, rfl⟩ := Prod.mk.inj (Option.some.inj heq)
        have hshort := skip_crlf_length_lt hcrlf
        have hrest := ih hmore
        have hsplit : (s2.take n).length + (s2.drop n).length = s2.length := by
          rw [← List.length_append, List.take_append_drop]
        rw [List.flatMap_cons, List.length_append]
        dsimp only at hshort ⊢
        omega

/-- A chunked body is longer than its data. -/
theorem dechunk_length_lt {fuel : ℕ} {s data rest : List Char}
    (h : dechunk fuel s = some (data, rest)) : data.length + rest.length < s.length := by
  obtain ⟨⟨chunks, rest'⟩, hread, heq⟩ := Option.map_eq_some_iff.mp h
  obtain ⟨rfl, rfl⟩ := Prod.mk.inj heq
  exact read_chunks_length_lt hread

/-! ## What is behind a body -/

/-- A size that has ended stays what it is, whatever else arrives. -/
theorem read_digits_more {n : ℕ} {s : List Char} (h : (read_digits n s).2 ≠ [])
    (more : List Char) :
    read_digits n (s ++ more) = ((read_digits n s).1, (read_digits n s).2 ++ more) := by
  induction s generalizing n with
  | nil => exact absurd rfl h
  | cons c s ih =>
      rw [read_digits] at h
      rw [List.cons_append, read_digits, read_digits]
      cases hc : hex_value c with
      | none => rfl
      | some d =>
          rw [hc] at h
          exact ih h

/-- So does a size with something behind it. -/
theorem read_size_more {s rest : List Char} {n : ℕ} (h : read_size s = some (n, rest))
    (hrest : rest ≠ []) (more : List Char) : read_size (s ++ more) = some (n, rest ++ more) := by
  unfold read_size at h ⊢
  split at h
  · next hdigit =>
      have hread := Option.some.inj h
      have hne : (read_digits 0 s).2 ≠ [] := by rwa [hread]
      have hhead : (((s ++ more).head?).bind hex_value).isSome = true := by
        cases s with
        | nil => cases hdigit
        | cons c s => exact hdigit
      rw [if_pos hhead, read_digits_more hne, hread]
  · cases h

/-- A line that has ended. -/
theorem split_line_more {s l rest : List Char} (h : split_line s = some (l, rest))
    (more : List Char) : split_line (s ++ more) = some (l, rest ++ more) := by
  induction s using split_line.induct generalizing l with
  | case1 => cases h
  | case2 tail =>
      obtain ⟨rfl, rfl⟩ := Prod.mk.inj (Option.some.inj h)
      rfl
  | case3 c s hline ih =>
      rw [split_line] at h
      · obtain ⟨⟨l', rest'⟩, hsplit, heq⟩ := Option.map_eq_some_iff.mp h
        obtain ⟨rfl, rfl⟩ := Prod.mk.inj heq
        rw [List.cons_append, split_line, ih hsplit]
        · rfl
        · -- the CRLF would have to be in front already
          intro tail hc htail
          cases s with
          | nil => cases hsplit
          | cons d s =>
              obtain ⟨rfl, -⟩ := List.cons.inj htail
              exact hline s hc rfl
      · exact hline

/-- An extension that has ended. -/
theorem read_extension_more {s ext rest : List Char} (h : read_extension s = some (ext, rest))
    (more : List Char) : read_extension (s ++ more) = some (ext, rest ++ more) := by
  unfold read_extension at h
  split at h
  · obtain ⟨rfl, rfl⟩ := Prod.mk.inj (Option.some.inj h)
    rfl
  · obtain ⟨⟨l, rest'⟩, hsplit, heq⟩ := Option.map_eq_some_iff.mp h
    obtain ⟨rfl, rfl⟩ := Prod.mk.inj heq
    rw [List.cons_append, read_extension, split_line_more hsplit]
    rfl
  · cases h

/-- A CRLF that is there. -/
theorem skip_crlf_more {s rest : List Char} (h : skip_crlf s = some rest) (more : List Char) :
    skip_crlf (s ++ more) = some (rest ++ more) := by
  unfold skip_crlf at h
  split at h
  · obtain rfl := Option.some.inj h
    rfl
  · cases h

/-- A trailer section that has ended. -/
theorem skip_trailers_more {fresh : Bool} {s rest : List Char}
    (h : skip_trailers fresh s = some rest) (more : List Char) :
    skip_trailers fresh (s ++ more) = some (rest ++ more) := by
  induction fresh, s using skip_trailers.induct with
  | case1 => simp [skip_trailers] at h
  | case2 tail =>
      simp only [skip_trailers, if_true, Option.some.injEq] at h
      subst h
      rfl
  | case3 fresh tail hfresh ih =>
      simp only [skip_trailers, hfresh] at h
      simp only [List.cons_append, skip_trailers, hfresh]
      exact ih h
  | case4 fresh c s hline ih =>
      rw [skip_trailers] at h
      · rw [List.cons_append, skip_trailers]
        · exact ih h
        · intro tail hc htail
          cases s with
          | nil => simp [skip_trailers] at h
          | cons d s =>
              obtain ⟨rfl, -⟩ := List.cons.inj htail
              exact hline s hc rfl
      · exact hline

/-- Chunks behind which a last-chunk has come are what they are, whatever else arrives. -/
theorem read_chunks_more {fuel fuel' : ℕ} (hfuel : fuel ≤ fuel') {s rest : List Char}
    {chunks : List (List Char × List Char)} (h : read_chunks fuel s = some (chunks, rest))
    (more : List Char) : read_chunks fuel' (s ++ more) = some (chunks, rest ++ more) := by
  induction fuel generalizing fuel' s chunks rest with
  | zero => cases h
  | succ fuel ih =>
      obtain ⟨fuel', rfl⟩ := Nat.exists_eq_add_one.mpr (Nat.lt_of_lt_of_le (Nat.succ_pos _) hfuel)
      have hless : fuel ≤ fuel' := Nat.le_of_succ_le_succ hfuel
      simp only [read_chunks, Option.bind_eq_bind, Option.bind_eq_some_iff] at h
      obtain ⟨⟨n, s1⟩, hsize, ⟨ext, s2⟩, hext, h⟩ := h
      have hs1 : s1 ≠ [] := by
        rintro rfl
        cases hext
      dsimp only at h
      simp only [read_chunks, Option.bind_eq_bind, read_size_more hsize hs1 more,
        Option.bind_some, read_extension_more hext more]
      by_cases hzero : n = 0
      · rw [if_pos hzero] at h ⊢
        obtain ⟨tail, htail, heq⟩ := Option.bind_eq_some_iff.mp h
        obtain ⟨rfl, rfl⟩ := Prod.mk.inj (Option.some.inj heq)
        rw [skip_trailers_more htail more]
        rfl
      · rw [if_neg hzero] at h ⊢
        obtain ⟨tail, hcrlf, h⟩ := Option.bind_eq_some_iff.mp h
        obtain ⟨⟨others, rest'⟩, hmore, heq⟩ := Option.bind_eq_some_iff.mp h
        obtain ⟨rfl, rfl⟩ := Prod.mk.inj (Option.some.inj heq)
        -- the data are all there, since a CRLF is behind them
        have hle : n ≤ s2.length := by
          by_contra hlong
          rw [List.drop_eq_nil_of_le (by omega)] at hcrlf
          cases hcrlf
        rw [List.drop_append_of_le_length hle, List.take_append_of_le_length hle,
          skip_crlf_more hcrlf more, Option.bind_some, ih hless hmore]
        rfl

/-- A chunked body that has ended is what it is, whatever else arrives. -/
theorem dechunk_more {fuel fuel' : ℕ} (hfuel : fuel ≤ fuel') {s data rest : List Char}
    (h : dechunk fuel s = some (data, rest)) (more : List Char) :
    dechunk fuel' (s ++ more) = some (data, rest ++ more) := by
  obtain ⟨⟨chunks, rest'⟩, hread, heq⟩ := Option.map_eq_some_iff.mp h
  obtain ⟨rfl, rfl⟩ := Prod.mk.inj heq
  rw [dechunk, read_chunks_more hfuel hread more]
  rfl

/-- A body that has ended is what it is, whatever else arrives, unless it goes on until the
connection is closed. -/
theorem framing_read_more {f : framing} (hclose : f ≠ .until_close) {s data rest : List Char}
    (h : f.read s = some (data, rest)) (more : List Char) :
    f.read (s ++ more) = some (data, rest ++ more) := by
  cases f with
  | no_body =>
      obtain ⟨rfl, rfl⟩ := Prod.mk.inj (Option.some.inj h)
      rfl
  | chunked =>
      refine dechunk_more ?_ h more
      rw [List.length_append]
      omega
  | length n =>
      simp only [framing.read] at h ⊢
      split at h
      · next hle =>
          obtain ⟨rfl, rfl⟩ := Prod.mk.inj (Option.some.inj h)
          have hle' : n ≤ (s ++ more).length := by
            rw [List.length_append]
            omega
          rw [if_pos hle', List.take_append_of_le_length hle, List.drop_append_of_le_length hle]
      · cases h
  | until_close => exact absurd rfl hclose

/-! ## Which framing a body is read with -/

/-- Chunks with a last-chunk are read as their data by a recipient that expects chunks, and
by no other. -/
theorem read_chunks_iff (f : framing) {chunks : List (List Char × List Char)}
    (h : ∀ c ∈ chunks, IsExtension c.1 ∧ c.2 ≠ []) (rest : List Char) :
    f.read (chunks.flatMap (fun c => chunk c.1 c.2) ++ last_chunk ++ rest)
      = some (chunks.flatMap Prod.snd, rest) ↔ f = .chunked := by
  have hchunked := (delimits_chunks_iff h _).mpr rfl rest (by simp)
  generalize chunks.flatMap (fun c => chunk c.1 c.2) ++ last_chunk = wire at hchunked ⊢
  have hlonger : (chunks.flatMap Prod.snd).length < wire.length := by
    have hlt := dechunk_length_lt hchunked
    rw [List.length_append] at hlt
    omega
  constructor
  · intro hread
    cases f with
    | chunked => rfl
    | no_body =>
        obtain ⟨-, hrest⟩ := Prod.mk.inj (Option.some.inj hread)
        have hlen := congrArg List.length hrest
        rw [List.length_append] at hlen
        omega
    | length n =>
        -- what is taken from the front would have to be the whole of it
        simp only [framing.read] at hread
        split at hread
        · obtain ⟨htake, hdrop⟩ := Prod.mk.inj (Option.some.inj hread)
          have hlen := congrArg List.length htake
          have hlen' := congrArg List.length hdrop
          rw [List.length_take, List.length_append] at hlen
          rw [List.length_drop, List.length_append] at hlen'
          omega
        · cases hread
    | until_close =>
        obtain ⟨hbody, hrest⟩ := Prod.mk.inj (Option.some.inj hread)
        have hlen := congrArg List.length hbody
        rw [List.length_append] at hlen
        omega
  · rintro rfl
    exact hchunked

/-- A text is read as what it is by a recipient that goes by its length, and by one that
expects no body if there is none. Chunks are never the text they carry. -/
theorem read_exact_iff (f : framing) (hclose : f ≠ .until_close) (text rest : List Char) :
    f.read (text ++ rest) = some (text, rest)
      ↔ f = .length text.length ∨ f = .no_body ∧ text = [] := by
  cases f with
  | no_body => simp [framing.read, eq_comm]
  | chunked =>
      simp only [reduceCtorEq, false_and, or_self, iff_false]
      intro hread
      have hlt := dechunk_length_lt hread
      rw [List.length_append] at hlt
      omega
  | length n =>
      simp only [framing.length.injEq, reduceCtorEq, false_and, or_false]
      constructor
      · intro hread
        simp only [framing.read] at hread
        split at hread
        · have hlen := congrArg (fun r => (r.map fun r => r.1.length).getD 0) hread
          simp only [Option.map_some, Option.getD_some, List.length_take] at hlen
          omega
        · cases hread
      · rintro rfl
        simp [framing.read]
  | until_close => exact absurd rfl hclose

end CppHttp.ChunkGrammar
