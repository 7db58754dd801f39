/-
The chunked side of `include/client/response.hpp`: the private
`read_chunked_encoding(on_chunk_header, on_chunk_body, yield)`, which hands two
callbacks to Beast's parser and reads, together with the channel the callbacks
send into and the consumer that receives from it.

What Beast does with the callbacks is `wire_chunk.callbacks`: `on_chunk_header` once
per chunk with the declared size and the extension text, then `on_chunk_body` for
each piece the chunk's body arrives in, with the number of bytes that were left
before the piece. How a body is cut into pieces is the network's business; a
`wire_chunk` is a chunk together with one such cutting.

Both users of the template have the same shape, `chunk_reader`: append the piece to
a captured variable, and at the end of the chunk look at that variable and possibly
call `try_send`. The result of `try_send` is not looked at. A run (`step`) is any
interleaving of the callbacks with the consumer's receives.

The file's two results hold of both users. `puts_eq_offered_iff`: in a run every
message that was offered got into the channel exactly if every `try_send` of the run
found room. `puts_of_room`: when they all did, what got in is `lossless`, a function
of the callbacks alone, and that function does not see how the bodies were cut
(`lossless_chunk`).
-/
import CppHttp.Channel
import CppHttp.Runs
import CppHttp.StdString

set_option autoImplicit false

namespace CppHttp.ChunkReader

open CppHttp.Channel CppHttp.Runs CppHttp.StdString

/-! ## What the parser calls -/

/-- One call of Beast's parser into the callbacks. -/
inductive callback
  | header (size : ℕ) (extensions : std_string)
  | body (remain : ℕ) (piece : std_string)
  deriving DecidableEq, Repr

/-- A chunk of a response with a non-empty body, and the pieces its body arrives
in. -/
structure wire_chunk where
  extensions : std_string
  pieces : List std_string
  pieces_ne : pieces ≠ []
  piece_ne : ∀ p ∈ pieces, p ≠ []

/-- The chunk's body. -/
def wire_chunk.body (c : wire_chunk) : std_string := c.pieces.flatten

/-- A chunk whose body arrives in one piece. -/
def wire_chunk.whole (extensions body : std_string) (h : body ≠ []) : wire_chunk where
  extensions := extensions
  pieces := [body]
  pieces_ne := by simp
  piece_ne := by simpa using h

/-- The body callbacks: each with the bytes left in the chunk, this piece included. -/
def body_calls : List std_string → List callback
  | [] => []
  | p :: ps => .body (p :: ps).flatten.length p :: body_calls ps

/-- The callbacks of one chunk. -/
def wire_chunk.callbacks (c : wire_chunk) : List callback :=
  .header c.body.length c.extensions :: body_calls c.pieces

/-- The callbacks of a response. -/
def callbacks_of (chunks : List wire_chunk) : List callback :=
  chunks.flatMap wire_chunk.callbacks

/-- A piece is the last of its chunk exactly if it is all that was left. -/
theorem last_piece_iff {p : std_string} {ps : List std_string} (h : ∀ q ∈ ps, q ≠ []) :
    (p :: ps).flatten.length = p.length ↔ ps = [] := by
  cases ps with
  | nil => simp
  | cons q ps =>
      have hq := List.length_pos_iff.mpr (h q (by simp))
      simp only [List.flatten_cons, List.length_append, reduceCtorEq, iff_false]
      omega

/-! ## The callbacks and the channel -/

section Reader

variable {L M : Type*}

/-- A pair of callbacks. `L` is what they capture, `M` the messages they send.
`on_chunk_end` is the branch `remain == body.size()` up to its `try_send`: the
captured variables, and the message that is sent, if one is. `on_sent` is what a
successful `try_send` leaves of the variables it moved the message out of. -/
structure chunk_reader (L M : Type*) where
  on_chunk_header : ℕ → std_string → L → L
  append : L → std_string → L
  on_chunk_end : L → L × Option M
  on_sent : L → L
  append_append : ∀ acc p q, append (append acc p) q = append acc (p ++ q)

/-- `on_chunk_body`, up to its `try_send`. -/
def chunk_reader.on_chunk_body (cr : chunk_reader L M) (remain : ℕ) (piece : std_string)
    (acc : L) : L × Option M :=
  if remain = piece.length then cr.on_chunk_end (cr.append acc piece)
  else (cr.append acc piece, none)

/-- The two parties: the captured variables, the channel, the calls the parser still
has to make. `offered` and `puts` record the messages given to `try_send` and those
of them the channel took. -/
structure reader (L M : Type*) where
  acc : L
  tx : BoundedChannel M
  todo : List callback
  offered : List M
  puts : List M

/-- Before the first callback. -/
def reader.start (acc : L) (cap : ℕ) (todo : List callback) : reader L M :=
  { acc := acc, tx := BoundedChannel.make M cap, todo := todo, offered := [], puts := [] }

/-- Who moves. -/
inductive action
  | parser
  | receive
  deriving DecidableEq, Repr

/-- `tx.try_send(ec, std::move(message))`, with its result dropped. -/
def reader.try_send (cr : chunk_reader L M) (r : reader L M) (m : M) : reader L M :=
  match r.tx.put m with
  | (.refused, tx) => { r with tx := tx, offered := r.offered ++ [m] }
  | (_, tx) => { r with
      acc := cr.on_sent r.acc, tx := tx, offered := r.offered ++ [m], puts := r.puts ++ [m] }

/-- One step: the parser makes its next call, or the consumer asks for a message. -/
def step (cr : chunk_reader L M) (r : reader L M) : action → Option (reader L M)
  | .receive => some { r with tx := r.tx.take.2 }
  | .parser =>
      match r.todo with
      | [] => none
      | .header size ext :: cs =>
          some { r with acc := cr.on_chunk_header size ext r.acc, todo := cs }
      | .body remain piece :: cs =>
          match cr.on_chunk_body remain piece r.acc with
          | (acc, none) => some { r with acc := acc, todo := cs }
          | (acc, some m) => some (reader.try_send cr { r with acc := acc, todo := cs } m)

/-- The message the parser's next call gives to `try_send`. -/
def reader.offer (cr : chunk_reader L M) (r : reader L M) : Option M :=
  match r.todo with
  | .body remain piece :: _ => (cr.on_chunk_body remain piece r.acc).2
  | _ => none

/-- The step does not offer a message to a full channel. -/
def Room (cr : chunk_reader L M) (r : reader L M) (a : action) : Prop :=
  a = .parser → (r.offer cr).isSome → r.tx.HasRoom

instance (cr : chunk_reader L M) (r : reader L M) (a : action) : Decidable (Room cr r a) :=
  inferInstanceAs (Decidable (a = .parser → _ → r.tx.HasRoom))

/-- The messages offered when every `try_send` succeeds. -/
def lossless (cr : chunk_reader L M) : L → List callback → List M
  | _, [] => []
  | acc, .header size ext :: cs => lossless cr (cr.on_chunk_header size ext acc) cs
  | acc, .body remain piece :: cs =>
      match cr.on_chunk_body remain piece acc with
      | (acc, none) => lossless cr acc cs
      | (acc, some m) => m :: lossless cr (cr.on_sent acc) cs

variable {cr : chunk_reader L M}

/-! ## One step -/

/-- What a `try_send` does, with room and without. -/
theorem try_send_cases (r : reader L M) (m : M) :
    (r.tx.HasRoom ∧ ∃ tx, reader.try_send cr r m
        = { r with
            acc := cr.on_sent r.acc, tx := tx, offered := r.offered ++ [m]
            puts := r.puts ++ [m] })
      ∨ (¬ r.tx.HasRoom ∧ reader.try_send cr r m = { r with offered := r.offered ++ [m] }) := by
  rcases h : r.tx.put m with ⟨res, tx⟩
  rcases BoundedChannel.put_cases h with ⟨rfl, hr, -⟩ | ⟨rfl, hr, -⟩ | ⟨rfl, hr, rfl⟩
  · exact Or.inl ⟨hr, tx, by simp only [reader.try_send, h]⟩
  · exact Or.inl ⟨hr, tx, by simp only [reader.try_send, h]⟩
  · exact Or.inr ⟨hr, by simp only [reader.try_send, h]⟩

/-- All a step can do: a receive touches the channel only; a call that sends nothing
leaves both records alone; a call that sends appends to both records with room, and
to the first only without. -/
theorem step_cases {r t : reader L M} {a : action} (h : step cr r a = some t) :
    (a = .receive ∧ ∃ tx, t = { r with tx := tx })
      ∨ (a = .parser ∧ r.offer cr = none ∧ (∃ c, r.todo = c :: t.todo)
          ∧ t.offered = r.offered ∧ t.puts = r.puts
          ∧ lossless cr t.acc t.todo = lossless cr r.acc r.todo)
      ∨ (a = .parser ∧ ∃ m, r.offer cr = some m ∧ (∃ c, r.todo = c :: t.todo)
          ∧ t.offered = r.offered ++ [m]
          ∧ ((r.tx.HasRoom ∧ t.puts = r.puts ++ [m]
                ∧ lossless cr r.acc r.todo = m :: lossless cr t.acc t.todo)
              ∨ (¬ r.tx.HasRoom ∧ t.puts = r.puts
                ∧ lossless cr r.acc r.todo = m :: lossless cr (cr.on_sent t.acc) t.todo))) := by
  cases a with
  | receive =>
      simp only [step, Option.some.injEq] at h
      exact Or.inl ⟨rfl, _, h.symm⟩
  | parser =>
      refine Or.inr ?_
      simp only [step] at h
      split at h
      · cases h
      · next size ext cs hcs =>
          -- a header changes the captured variables only
          simp only [Option.some.injEq] at h
          subst h
          refine Or.inl ⟨rfl, by simp only [reader.offer, hcs], ⟨_, hcs⟩, rfl, rfl, ?_⟩
          rw [hcs, lossless]
      · next remain piece cs hcs =>
          split at h
          · next acc hb =>
              simp only [Option.some.injEq] at h
              subst h
              refine Or.inl ⟨rfl, by simp only [reader.offer, hcs, hb], ⟨_, hcs⟩, rfl, rfl, ?_⟩
              rw [hcs, lossless, hb]
          · next acc m hb =>
              -- the call ends a chunk and offers `m`
              simp only [Option.some.injEq] at h
              subst h
              refine Or.inr ⟨rfl, m, by simp only [reader.offer, hcs, hb], ?_⟩
              rcases @try_send_cases _ _ cr { r with acc := acc, todo := cs } m with
                ⟨hr, tx, ht⟩ | ⟨hr, ht⟩
              · rw [ht]
                exact ⟨⟨_, hcs⟩, rfl, Or.inl ⟨hr, rfl, by rw [hcs, lossless, hb]⟩⟩
              · rw [ht]
                exact ⟨⟨_, hcs⟩, rfl, Or.inr ⟨hr, rfl, by rw [hcs, lossless, hb]⟩⟩

/-- A body call leaves the captured variables as the callback leaves them, or as the
move of its message does. -/
theorem step_body {r t : reader L M} {remain : ℕ} {piece : std_string} {cs : List callback}
    (hcall : r.todo = .body remain piece :: cs) (hst : step cr r .parser = some t) :
    t.todo = cs ∧ (t.acc = (cr.on_chunk_body remain piece r.acc).1
      ∨ t.acc = cr.on_sent (cr.on_chunk_body remain piece r.acc).1) := by
  simp only [step, hcall] at hst
  rcases hb : cr.on_chunk_body remain piece r.acc with ⟨acc, om⟩
  rw [hb] at hst
  cases om with
  | none =>
      obtain rfl := Option.some.inj hst
      exact ⟨rfl, Or.inl rfl⟩
  | some m =>
      have ht : reader.try_send cr { r with acc := acc, todo := cs } m = t := Option.some.inj hst
      rcases @try_send_cases _ _ cr { r with acc := acc, todo := cs } m with
        ⟨-, tx, heq⟩ | ⟨-, heq⟩
      · rw [← ht, heq]
        exact ⟨rfl, Or.inr rfl⟩
      · rw [← ht, heq]
        exact ⟨rfl, Or.inl rfl⟩

/-! ## Runs -/

/-- What got into the channel was offered, in that order. -/
theorem puts_sublist_offered {r s : reader L M} {acts : List action}
    (hr : r.puts.Sublist r.offered) (hrun : run (step cr) r acts = some s) :
    s.puts.Sublist s.offered := by
  refine run_invariant (I := fun s => s.puts.Sublist s.offered) ?_ hr hrun
  intro r a t hr hst
  rcases step_cases hst with ⟨-, tx, rfl⟩ | ⟨-, -, -, ho, hp, -⟩ | ⟨-, m, -, -, ho, h⟩
  · exact hr
  · rw [ho, hp]; exact hr
  · rcases h with ⟨-, hp, -⟩ | ⟨-, hp, -⟩
    · rw [ho, hp]; exact hr.append (List.Sublist.refl _)
    · rw [ho, hp]; exact hr.trans (List.sublist_append_left _ _)

/-- In a run, every message offered got into the channel, in order and once, exactly
if no step of the run offered a message to a full channel. -/
theorem puts_eq_offered_iff {acc : L} {cap : ℕ} {todo : List callback} {s : reader L M}
    {acts : List action} (hrun : run (step cr) (.start acc cap todo) acts = some s) :
    s.puts = s.offered ↔ StepsMeet (step cr) (Room cr) (.start acc cap todo) acts := by
  -- the defect is the number of offered messages that did not get in
  have hd := defect_eq_iff (P := Room cr) (I := fun s : reader L M => s.puts.Sublist s.offered)
    (fun s => s.offered.length - s.puts.length) ?_ (List.Sublist.refl _) hrun
  · have hsub : s.puts.Sublist s.offered := puts_sublist_offered (List.Sublist.refl _) hrun
    rw [← hd.2]
    have hlen := hsub.length_le
    constructor
    · intro h
      simp [h, reader.start]
    · intro h
      simp only [reader.start, List.length_nil, Nat.sub_self] at h
      exact hsub.eq_of_length (by omega)
  · intro r a t hr hst
    have hlen := hr.length_le
    refine ⟨puts_sublist_offered hr (run_cons.mpr ⟨t, hst, run_nil t⟩), ?_⟩
    rcases step_cases hst with ⟨rfl, tx, rfl⟩ | ⟨rfl, hno, -, ho, hp, -⟩ | ⟨rfl, m, hm, -, ho, h⟩
    · exact ⟨Nat.le_refl _, by simp [Room]⟩
    · rw [ho, hp]
      exact ⟨Nat.le_refl _, by simp [Room, hno]⟩
    · rcases h with ⟨hroom, hp, -⟩ | ⟨hroom, hp, -⟩
      · rw [ho, hp]
        simp only [List.length_append, List.length_singleton, Room, hroom, implies_true,
          iff_true]
        omega
      · rw [ho, hp]
        simp only [List.length_append, List.length_singleton, Room, hm, hroom,
          Option.isSome_some, imp_false, not_true, iff_false]
        omega

/-- When every `try_send` of a run finds room, what is in the channel and what is
still to come are together what a lossless reader sends. -/
theorem puts_of_room {r s : reader L M} {acts : List action}
    (hroom : StepsMeet (step cr) (Room cr) r acts) (hrun : run (step cr) r acts = some s) :
    s.puts ++ lossless cr s.acc s.todo = r.puts ++ lossless cr r.acc r.todo := by
  refine run_invariant_of_meets (P := Room cr)
    (I := fun s => s.puts ++ lossless cr s.acc s.todo = r.puts ++ lossless cr r.acc r.todo)
    ?_ rfl hroom hrun
  intro s a t hs hP hst
  rcases step_cases hst with ⟨-, tx, rfl⟩ | ⟨-, -, -, -, hp, hl⟩ | ⟨rfl, m, hm, -, -, h⟩
  · exact hs
  · rw [hp, hl]; exact hs
  · rcases h with ⟨-, hp, hl⟩ | ⟨hno, -⟩
    · rw [hp, ← hs, hl, List.append_assoc, List.singleton_append]
    · exact absurd (hP rfl (by rw [hm]; rfl)) hno

/-- When a successful `try_send` takes nothing out of the captured variables, what is
offered does not depend on the outcomes: what has been offered and what is still to
come are what a lossless reader sends. -/
theorem offered_of_on_sent_id (hid : ∀ acc, cr.on_sent acc = acc) {r s : reader L M}
    {acts : List action} (hrun : run (step cr) r acts = some s) :
    s.offered ++ lossless cr s.acc s.todo = r.offered ++ lossless cr r.acc r.todo := by
  refine run_invariant
    (I := fun s => s.offered ++ lossless cr s.acc s.todo
      = r.offered ++ lossless cr r.acc r.todo) ?_ rfl hrun
  intro s a t hs hst
  rcases step_cases hst with ⟨-, tx, rfl⟩ | ⟨-, -, -, ho, -, hl⟩ | ⟨-, m, -, -, ho, h⟩
  · exact hs
  · rw [ho, hl]; exact hs
  · rcases h with ⟨-, -, hl⟩ | ⟨-, -, hl⟩
    · rw [ho, ← hs, hl, List.append_assoc, List.singleton_append]
    · rw [ho, ← hs, hl, hid, List.append_assoc, List.singleton_append]

/-! ## A run with room

A consumer that asks for enough messages in advance never lets a `try_send` fail, so
the runs the last theorem speaks of exist for every response and every capacity. -/

/-- While as many receives wait as the parser has calls to make, it makes them all,
and each message is handed over. -/
theorem run_of_receivers (r : reader L M) (h : r.todo.length ≤ r.tx.receivers) :
    ∃ s, run (step cr) r (List.replicate r.todo.length .parser) = some s
      ∧ StepsMeet (step cr) (Room cr) r (List.replicate r.todo.length .parser)
      ∧ s.todo = [] := by
  -- one call: it finds room, and uses up at most one of the waiting receives
  have hstep : ∀ (r : reader L M) (c : callback) (cs : List callback), r.todo = c :: cs →
      r.todo.length ≤ r.tx.receivers →
      ∃ t, step cr r .parser = some t ∧ t.todo = cs ∧ cs.length ≤ t.tx.receivers := by
    intro r c cs hcs hle
    rw [hcs, List.length_cons] at hle
    cases c with
    | header size ext =>
        refine ⟨_, by simp only [step, hcs]; rfl, rfl, ?_⟩
        exact Nat.le_of_succ_le hle
    | body remain piece =>
        rcases hb : cr.on_chunk_body remain piece r.acc with ⟨acc, om⟩
        cases om with
        | none =>
            refine ⟨_, by simp only [step, hcs, hb]; rfl, rfl, ?_⟩
            exact Nat.le_of_succ_le hle
        | some m =>
            have hw : 0 < r.tx.receivers := by omega
            refine ⟨_, by simp only [step, hcs, hb]; rfl, ?_⟩
            simp only [reader.try_send, BoundedChannel.put, dif_pos hw]
            exact ⟨trivial, by omega⟩
  induction hn : r.todo.length generalizing r with
  | zero =>
      exact ⟨r, rfl, trivial, List.length_eq_zero_iff.mp hn⟩
  | succ n ih =>
      obtain ⟨c, cs, hcs⟩ := List.exists_cons_of_length_eq_add_one hn
      have hlen : cs.length = n := by rw [hcs] at hn; simpa using hn
      obtain ⟨t, hst, htodo, hle⟩ := hstep r c cs hcs h
      obtain ⟨s, hs, hroom, hdone⟩ := ih t (by rw [htodo]; exact hle) (by rw [htodo, hlen])
      refine ⟨s, run_cons.mpr ⟨t, hst, hs⟩, ⟨?_, ?_⟩, hdone⟩
      · intro _ _
        -- a receive waits, so there is room whatever the capacity
        have hw : 0 < r.tx.receivers := by omega
        exact ⟨(r.tx.waiting_empty hw).2, Or.inl hw⟩
      · intro t' ht'
        rw [hst, Option.mem_some_iff] at ht'
        exact ht' ▸ hroom

/-- Receives on an empty open channel wait. -/
theorem run_receives (r : reader L M) (hb : r.tx.buffer = []) (ho : r.tx.is_open = true)
    (n : ℕ) :
    ∃ t, run (step cr) r (List.replicate n .receive) = some t
      ∧ StepsMeet (step cr) (Room cr) r (List.replicate n .receive)
      ∧ t.todo = r.todo ∧ t.tx.receivers = r.tx.receivers + n := by
  induction n generalizing r with
  | zero => exact ⟨r, rfl, trivial, rfl, rfl⟩
  | succ n ih =>
      rcases ht : r.tx.take with ⟨res, tx⟩
      rcases BoundedChannel.take_cases ht with ⟨a, -, h, -⟩ | ⟨-, -, h, hw, -, ho'⟩ | ⟨-, -, h, -⟩
      · rw [hb] at h
        cases h
      · obtain ⟨t, hrun, hroom, htodo, hrec⟩ := ih { r with tx := tx } h ho'
        refine ⟨t, run_cons.mpr ⟨_, rfl, ?_⟩, ⟨?_, ?_⟩, htodo, ?_⟩
        · rw [ht]
          exact hrun
        · intro h'
          cases h'
        · intro t' ht'
          simp only [step, ht, Option.mem_some_iff] at ht'
          exact ht' ▸ hroom
        · rw [hrec, hw]
          omega
      · rw [ho] at h
        cases h

/-- Every response can be read with room for every message. -/
theorem exists_run_with_room (acc : L) (cap : ℕ) (todo : List callback) :
    ∃ acts s, run (step cr) (.start acc cap todo) acts = some s
      ∧ StepsMeet (step cr) (Room cr) (.start acc cap todo) acts ∧ s.todo = [] := by
  obtain ⟨t, hrun, hroom, htodo, hrec⟩ :=
    @run_receives _ _ cr (.start acc cap todo) rfl rfl todo.length
  have hle : t.todo.length ≤ t.tx.receivers := by
    rw [htodo, hrec]
    exact Nat.le_add_left _ _
  obtain ⟨s, hs, hmeet, hdone⟩ := @run_of_receivers _ _ cr t hle
  exact ⟨_, s, run_append.mpr ⟨t, hrun, hs⟩, stepsMeet_append hrun hroom hmeet, hdone⟩

/-! ## One chunk -/

/-- The calls for one chunk's body append the whole body and end the chunk once,
however the body is cut. -/
theorem lossless_body_calls (acc : L) {pieces : List std_string} (hne : pieces ≠ [])
    (hp : ∀ p ∈ pieces, p ≠ []) (rest : List callback) :
    lossless cr acc (body_calls pieces ++ rest)
      = match cr.on_chunk_end (cr.append acc pieces.flatten) with
        | (acc, none) => lossless cr acc rest
        | (acc, some m) => m :: lossless cr (cr.on_sent acc) rest := by
  induction pieces generalizing acc with
  | nil => exact absurd rfl hne
  | cons p ps ih =>
      have hps : ∀ q ∈ ps, q ≠ [] := fun q hq => hp q (by simp [hq])
      rw [body_calls, List.cons_append, lossless, chunk_reader.on_chunk_body]
      by_cases hlast : ps = []
      · subst hlast
        -- the last piece is the one that is all that was left of the chunk
        rw [if_pos ((last_piece_iff hps).mpr rfl)]
        simp [body_calls]
      · rw [if_neg (fun h => hlast ((last_piece_iff hps).mp h))]
        simp only
        rw [ih (cr.append acc p) hlast hps, cr.append_append, List.flatten_cons]

/-- The calls for one chunk, in one step. -/
theorem lossless_chunk (acc : L) (c : wire_chunk) (rest : List callback) :
    lossless cr acc (c.callbacks ++ rest)
      = match cr.on_chunk_end
            (cr.append (cr.on_chunk_header c.body.length c.extensions acc) c.body) with
        | (acc, none) => lossless cr acc rest
        | (acc, some m) => m :: lossless cr (cr.on_sent acc) rest := by
  rw [wire_chunk.callbacks, List.cons_append, lossless]
  exact lossless_body_calls _ c.pieces_ne c.piece_ne rest

end Reader

end CppHttp.ChunkReader
