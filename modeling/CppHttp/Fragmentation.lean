/-
How the network cuts the chunks of a response into pieces is not seen by either reader
of `include/client/response.hpp`.

`ChunkReader` runs the callbacks against a channel. Here the channel is replaced by the
outcomes of the `try_send` calls, in order (`calls`): the `k`-th call succeeds or not as
the sequence `ok` says. A run against a channel is a run against the outcomes that the
channel happens to give (`run_calls`), so what is proved of all outcome sequences holds
of every channel and every schedule.

A chunk's callbacks come to one operation on the captured variables and on the messages
tried, and the chunk's extensions and body are all this operation depends on
(`calls_chunk`). So two ways to cut the same chunks leave the same variables behind and
make the same `try_send` calls (`fragmentation_irrelevant`), whether these succeed or
not: a refused message and an unfinished event stay in the variables and are carried
into the next chunk in the same way.
-/
import CppHttp.ChunkedSse
import CppHttp.ReadChunked

set_option autoImplicit false

namespace CppHttp.Fragmentation

open CppHttp.Channel CppHttp.ChunkReader CppHttp.ChunkedSse CppHttp.Message CppHttp.ReadChunked
  CppHttp.Runs CppHttp.StdString

section Outcomes

variable {L M : Type*}

/-! ## Reading against a sequence of outcomes -/

/-- What the calls of the parser have come to: the captured variables, and the messages
given to `try_send`. -/
structure tally (L M : Type*) where
  acc : L
  tried : List M

/-- `tx.try_send(ec, std::move(message))`, the `k`-th of which succeeds if `ok k`. -/
def tally.try_send (cr : chunk_reader L M) (ok : ℕ → Bool) (t : tally L M) (m : M) :
    tally L M :=
  { acc := if ok t.tried.length then cr.on_sent t.acc else t.acc
    tried := t.tried ++ [m] }

/-- A message, if there is one, is given to `try_send`. -/
def tally.give (cr : chunk_reader L M) (ok : ℕ → Bool) (tried : List M) (p : L × Option M) :
    tally L M :=
  p.2.elim { acc := p.1, tried := tried } (tally.try_send cr ok { acc := p.1, tried := tried })

/-- One call of the parser. -/
def call (cr : chunk_reader L M) (ok : ℕ → Bool) (t : tally L M) : callback → tally L M
  | .header size ext => { t with acc := cr.on_chunk_header size ext t.acc }
  | .body remain piece => .give cr ok t.tried (cr.on_chunk_body remain piece t.acc)

/-- The calls of the parser, one after the other. -/
def calls (cr : chunk_reader L M) (ok : ℕ → Bool) (t : tally L M) (cs : List callback) :
    tally L M :=
  cs.foldl (call cr ok) t

variable {cr : chunk_reader L M} {ok : ℕ → Bool}

theorem calls_append (t : tally L M) (as bs : List callback) :
    calls cr ok t (as ++ bs) = calls cr ok (calls cr ok t as) bs := List.foldl_append

/-! ## One chunk -/

/-- What a reader can see of a chunk. -/
def content (c : wire_chunk) : std_string × std_string := (c.extensions, c.body)

/-- A whole chunk: its header, its body, its end. -/
def whole_chunk (cr : chunk_reader L M) (ok : ℕ → Bool) (t : tally L M)
    (c : std_string × std_string) : tally L M :=
  .give cr ok t.tried
    (cr.on_chunk_end (cr.append (cr.on_chunk_header c.2.length c.1 t.acc) c.2))

/-- The pieces of a body are appended one by one, and only the last one ends the chunk.
The induction is on the pieces; the variables hold what came before. -/
theorem calls_body_calls (t : tally L M) {pieces : List std_string} (hne : pieces ≠ [])
    (hp : ∀ p ∈ pieces, p ≠ []) :
    calls cr ok t (body_calls pieces)
      = .give cr ok t.tried (cr.on_chunk_end (cr.append t.acc pieces.flatten)) := by
  induction pieces generalizing t with
  | nil => exact absurd rfl hne
  | cons p ps ih =>
      have hps : ∀ q ∈ ps, q ≠ [] := fun q hq => hp q (List.mem_cons_of_mem p hq)
      rw [body_calls, calls, List.foldl_cons, call, chunk_reader.on_chunk_body]
      by_cases hlast : ps = []
      · subst hlast
        rw [if_pos ((last_piece_iff hps).mpr rfl), List.flatten_singleton]
        rfl
      · -- not the last piece: nothing is tried, and the rest is appended behind it
        rw [if_neg (fun h => hlast ((last_piece_iff hps).mp h))]
        have hrest := ih { acc := cr.append t.acc p, tried := t.tried } hlast hps
        rw [cr.append_append] at hrest
        exact hrest

theorem calls_chunk (t : tally L M) (c : wire_chunk) :
    calls cr ok t c.callbacks = whole_chunk cr ok t (content c) := by
  rw [wire_chunk.callbacks, calls, List.foldl_cons]
  exact calls_body_calls _ c.pieces_ne c.piece_ne

/-- The chunks of a response, each as a whole. -/
theorem calls_callbacks_of (t : tally L M) (chunks : List wire_chunk) :
    calls cr ok t (callbacks_of chunks)
      = (chunks.map content).foldl (whole_chunk cr ok) t := by
  induction chunks generalizing t with
  | nil => rfl
  | cons c cs ih =>
      rw [callbacks_of, List.flatMap_cons, calls_append, calls_chunk, List.map_cons,
        List.foldl_cons]
      exact ih _

/-! ## Runs against a channel -/

/-- The outcome of the `try_send` of a step, if the step makes one. -/
def outcome (cr : chunk_reader L M) (r : reader L M) : action → List Bool
  | .receive => []
  | .parser => if (r.offer cr).isSome then [decide r.tx.HasRoom] else []

theorem outcome_length_le (cr : chunk_reader L M) (r : reader L M) (a : action) :
    (outcome cr r a).length ≤ 1 := by
  cases a with
  | receive => exact Nat.zero_le 1
  | parser =>
      by_cases h : (r.offer cr).isSome = true
      · simp [outcome, h]
      · simp [outcome, h]

/-- The outcomes of the `try_send` calls of a run. -/
def outcomes (cr : chunk_reader L M) : reader L M → List action → List Bool
  | _, [] => []
  | r, a :: as => outcome cr r a ++ (step cr r a).elim [] fun t => outcomes cr t as

/-- A step of the parser is one call, with the outcome the channel gives. -/
theorem step_parser_call {r t : reader L M} (hst : step cr r .parser = some t) :
    ∃ c, r.todo = c :: t.todo
      ∧ t.offered.length = r.offered.length + (outcome cr r .parser).length
      ∧ ∀ ok : ℕ → Bool, (∀ b ∈ outcome cr r .parser, ok r.offered.length = b) →
          call cr ok { acc := r.acc, tried := r.offered } c
            = { acc := t.acc, tried := t.offered } := by
  simp only [step] at hst
  split at hst
  · cases hst
  · next size ext cs hcs =>
      obtain rfl := Option.some.inj hst
      exact ⟨_, hcs, by simp [outcome, reader.offer, hcs], fun ok _ => rfl⟩
  · next remain piece cs hcs =>
      split at hst
      · next acc hb =>
          obtain rfl := Option.some.inj hst
          refine ⟨_, hcs, by simp [outcome, reader.offer, hcs, hb], fun ok _ => ?_⟩
          rw [call, hb]
          rfl
      · next acc m hb =>
          -- a message is tried: whether it gets in is whether there is room
          have hoffer : (r.offer cr).isSome = true := by simp [reader.offer, hcs, hb]
          have hout : outcome cr r .parser = [decide r.tx.HasRoom] := by
            rw [outcome, if_pos hoffer]
          obtain rfl := Option.some.inj hst
          rw [hout]
          rcases @try_send_cases _ _ cr { r with acc := acc, todo := cs } m with
            ⟨hr, tx, ht⟩ | ⟨hr, ht⟩
          · rw [ht]
            refine ⟨_, hcs, by simp, fun ok hok => ?_⟩
            have hk : ok r.offered.length = true := by
              rw [hok _ List.mem_cons_self]
              exact decide_eq_true hr
            simp [call, hb, tally.give, tally.try_send, hk]
          · rw [ht]
            refine ⟨_, hcs, by simp, fun ok hok => ?_⟩
            have hk : ok r.offered.length = false := by
              rw [hok _ List.mem_cons_self]
              exact decide_eq_false hr
            simp [call, hb, tally.give, tally.try_send, hk]

/-- **A run against a channel is a run against its outcomes.** The outcomes may follow
those of the messages tried before the run. -/
theorem run_calls {r s : reader L M} {acts : List action}
    (hrun : run (step cr) r acts = some s) (before : List Bool)
    (hbefore : before.length = r.offered.length) :
    ∃ made, r.todo = made ++ s.todo
      ∧ calls cr (fun k => (before ++ outcomes cr r acts).getD k false)
          { acc := r.acc, tried := r.offered } made
        = { acc := s.acc, tried := s.offered } := by
  induction acts generalizing r before with
  | nil =>
      obtain rfl := Option.some.inj hrun
      exact ⟨[], rfl, rfl⟩
  | cons a acts ih =>
      obtain ⟨t, hst, ht⟩ := run_cons.mp hrun
      rw [outcomes, hst, Option.elim_some, ← List.append_assoc]
      cases a with
      | receive =>
          -- a receive changes the channel only
          obtain rfl := Option.some.inj hst
          rw [outcome, List.append_nil]
          exact ih ht before hbefore
      | parser =>
          obtain ⟨c, htodo, hlen, hcall⟩ := step_parser_call hst
          obtain ⟨made, hmade, hcalls⟩ := ih ht (before ++ outcome cr r .parser)
            (by rw [List.length_append, hbefore, hlen])
          refine ⟨c :: made, by rw [htodo, hmade, List.cons_append], ?_⟩
          rw [calls, List.foldl_cons, hcall, ← hcalls, calls]
          intro b hb
          -- the outcome of this step stands at the place of the message it tries
          obtain ⟨i, hi, rfl⟩ := List.getElem_of_mem hb
          have hone := outcome_length_le cr r .parser
          obtain rfl : i = 0 := by omega
          rw [← hbefore, List.getD_eq_getElem?_getD, List.append_assoc,
            List.getElem?_append_right (Nat.le_refl _), Nat.sub_self,
            List.getElem?_append_left hi, List.getElem?_eq_getElem hi, Option.getD_some]

end Outcomes

/-! ## Both readers -/

/-- **Segmentation does not matter.** For the same chunks, cut into pieces in any two
ways, and the same outcomes of the `try_send` calls, `read_chunked_encoding` gives the
same messages to `try_send` and is left with the same `message`, and `read_chunked_sse`
gives it the same events and is left with the same `block`. -/
theorem fragmentation_irrelevant (ok : ℕ → Bool) (cs ds : List wire_chunk)
    (h : cs.map content = ds.map content) :
    calls read_chunked_encoding ok { acc := {}, tried := [] } (callbacks_of cs)
        = calls read_chunked_encoding ok { acc := {}, tried := [] } (callbacks_of ds)
      ∧ calls read_chunked_sse ok { acc := [], tried := [] } (callbacks_of cs)
        = calls read_chunked_sse ok { acc := [], tried := [] } (callbacks_of ds) := by
  -- either side comes to one operation a chunk, on the chunk's content
  constructor
  · rw [calls_callbacks_of, calls_callbacks_of, h]
  · rw [calls_callbacks_of, calls_callbacks_of, h]

/-- An event in one piece. -/
def one_piece : wire_chunk := .whole [] "data: x\n\n".toList (by decide)

/-- The same event in three pieces. -/
def three_pieces : wire_chunk :=
  ⟨[], ["data".toList, ": x\n".toList, "\n".toList], by decide, by decide⟩

/-- The event twice, in one piece and then in three or the other way round, with a first
`try_send` that fails. -/
theorem fragmentation_irrelevant_three_pieces :
    calls read_chunked_encoding (fun k => k != 0) { acc := {}, tried := [] }
        (callbacks_of [one_piece, three_pieces])
      = calls read_chunked_encoding (fun k => k != 0) { acc := {}, tried := [] }
        (callbacks_of [three_pieces, one_piece])
    ∧ calls read_chunked_sse (fun k => k != 0) { acc := [], tried := [] }
        (callbacks_of [one_piece, three_pieces])
      = calls read_chunked_sse (fun k => k != 0) { acc := [], tried := [] }
        (callbacks_of [three_pieces, one_piece]) :=
  fragmentation_irrelevant _ _ _ (by decide)

/-- The same of two runs to the end, against channels of any capacities and with any
schedules, in which the `try_send` calls happen to have the same outcomes. -/
theorem offered_eq_of_outcomes {L M : Type*} {cr : chunk_reader L M} {acc : L} {cap cap' : ℕ}
    {cs ds : List wire_chunk} {acts acts' : List action} {s s' : reader L M}
    (h : cs.map content = ds.map content)
    (hrun : run (step cr) (.start acc cap (callbacks_of cs)) acts = some s)
    (hrun' : run (step cr) (.start acc cap' (callbacks_of ds)) acts' = some s')
    (hdone : s.todo = []) (hdone' : s'.todo = [])
    (hout : outcomes cr (.start acc cap (callbacks_of cs)) acts
      = outcomes cr (.start acc cap' (callbacks_of ds)) acts') :
    s.offered = s'.offered ∧ s.acc = s'.acc := by
  obtain ⟨made, hmade, hcalls⟩ := run_calls hrun [] rfl
  obtain ⟨made', hmade', hcalls'⟩ := run_calls hrun' [] rfl
  rw [hdone, List.append_nil] at hmade
  rw [hdone', List.append_nil] at hmade'
  have hcs : made = callbacks_of cs := hmade.symm
  have hds : made' = callbacks_of ds := hmade'.symm
  -- both come to the calls of the same chunks against the same outcomes
  rw [hcs, calls_callbacks_of] at hcalls
  rw [hds, calls_callbacks_of, ← hout, ← h] at hcalls'
  have heq := hcalls.symm.trans hcalls'
  rw [tally.mk.injEq] at heq
  exact ⟨heq.2, heq.1⟩

end CppHttp.Fragmentation
