/-
`response::init_parser` and the loop of `response::read_sse` for an event stream that
is not chunked.

The transport is the list of the reads it will still deliver and the error it ends
with. Beast's `async_read_header` fills the member `buffer_` until the header is
complete and leaves what came with the last of these reads there; Asio's
`async_read_until` returns at once if the delimiter is already in its buffer and reads
until it is otherwise.

`read_sse` declares a stream buffer of its own. One iteration of its loop
(`iteration`) takes the block up to the first `"\n\n"`, parses it, and on an event
consumes it and waits in `async_send`. A block without a field is skipped by `continue`
*before* it is consumed.

An iteration sees only the text that is still unread, buffered or not
(`unread`, `iteration_cases`), so everything below is by induction on the blocks of
that text:

  * `halts_iff`: the loop ends exactly if it never meets a block without a field.
  * `settles`: the events it delivers are those of the blocks in front of the first
    such block.
  * `body_iff`: `init_parser` and `read_sse` together deliver the events of the body
    exactly if moreover no read carried the end of the header and body bytes.
-/
import CppHttp.Errors
import CppHttp.Runs
import CppHttp.SseParse

set_option autoImplicit false

namespace CppHttp.ReadSse

open CppHttp.Errors CppHttp.Message CppHttp.Runs CppHttp.SseParse CppHttp.StdString

/-! ## Reading -/

/-- `boost::asio::async_read_until`: the length of the text up to the end of the first
delimiter, the buffer, and the reads still to come. No length means that the transport
ended first. -/
def async_read_until (delim buffer : std_string) :
    List std_string → Option ℕ × std_string × List std_string
  | [] => ((find delim buffer).map (· + delim.length), buffer, [])
  | seg :: rest =>
      match find delim buffer with
      | some i => (some (i + delim.length), buffer, seg :: rest)
      | none => async_read_until delim (buffer ++ seg) rest

theorem async_read_until_of_none {delim : std_string} (pending : List std_string)
    (buffer : std_string) (h : find delim (buffer ++ pending.flatten) = none) :
    async_read_until delim buffer pending = (none, buffer ++ pending.flatten, []) := by
  induction pending generalizing buffer with
  | nil =>
      rw [List.flatten_nil, List.append_nil] at h ⊢
      rw [async_read_until, h, Option.map_none]
  | cons seg rest ih =>
      have hb : find delim buffer = none := by
        cases hf : find delim buffer with
        | none => rfl
        | some i => rw [find_append hf] at h; cases h
      rw [List.flatten_cons, ← List.append_assoc] at h ⊢
      rw [async_read_until, hb]
      exact ih _ h

/-- With one it stops at the first one of the whole text, wherever the reads cut it,
and no byte is lost on the way. -/
theorem async_read_until_of_some {delim : std_string} (pending : List std_string)
    (buffer : std_string) {i : ℕ} (h : find delim (buffer ++ pending.flatten) = some i) :
    ∃ buffer' pending', async_read_until delim buffer pending
        = (some (i + delim.length), buffer', pending')
      ∧ buffer' ++ pending'.flatten = buffer ++ pending.flatten
      ∧ i + delim.length ≤ buffer'.length := by
  induction pending generalizing buffer with
  | nil =>
      rw [List.flatten_nil, List.append_nil] at h
      refine ⟨buffer, [], ?_, rfl, find_add_le h⟩
      rw [async_read_until, h, Option.map_some]
  | cons seg rest ih =>
      rw [async_read_until]
      cases hf : find delim buffer with
      | some j =>
          have hj := find_append hf (seg :: rest).flatten
          rw [h, Option.some.injEq] at hj
          subst hj
          exact ⟨buffer, seg :: rest, rfl, rfl, find_add_le hf⟩
      | none =>
          rw [List.flatten_cons, ← List.append_assoc] at h ⊢
          exact ih _ h

/-! ## The loop -/

/-- The variables of `read_sse` and the transport behind them. `fin` is the error the
transport ends with. `sent` records the events that `async_send` took, `returned` what
the function returned. -/
structure sse_loop where
  pending : List std_string
  fin : error
  buffer : std_string
  done_ : Bool
  ec_ : error_code
  sent : List server_sent_event
  returned : Option (result Unit)

/-- One iteration of `while (!done_)`. `send k` is the outcome of the `k`-th
`async_send`. -/
def iteration (send : ℕ → error_code) (s : sse_loop) : sse_loop :=
  if s.returned.isSome then s
  else if s.done_ then { s with returned := some (.error s.ec_) }
  else
    match async_read_until blank_line s.buffer s.pending with
    | (none, buffer, pending) =>
        let s := { s with buffer := buffer, pending := pending, ec_ := some s.fin }
        match s.fin with
        | .need_buffer => s
        | .eof => { s with done_ := true, returned := some (.error s.ec_) }
        | _ => { s with returned := some (.error s.ec_) }
    | (some line_length, buffer, pending) =>
        let s := { s with buffer := buffer, pending := pending, ec_ := none }
        match parse_sse_block (buffer.take line_length) with
        | none => s
        | some message =>
            let s := { s with buffer := buffer.drop line_length, ec_ := send s.sent.length }
            if s.ec_.isSome then { s with returned := some (.error s.ec_) }
            else { s with sent := s.sent ++ [message] }

/-- The text the loop has not consumed: what is in the buffer and what the transport
will still deliver. -/
def sse_loop.unread (s : sse_loop) : std_string := s.buffer ++ s.pending.flatten

/-- `read_sse` has returned. -/
def Returned (s : sse_loop) : Prop := s.returned.isSome = true

/-- The loop is running, on a transport that ends in an orderly way. -/
structure Running (s : sse_loop) : Prop where
  returned : s.returned = none
  done_ : s.done_ = false
  fin : s.fin = .eof

/-- The loop at its first iteration. -/
def sse_loop.start (pending : List std_string) (fin : error) : sse_loop :=
  { pending := pending, fin := fin, buffer := [], done_ := false, ec_ := none, sent := []
    returned := none }

theorem Running.not_returned {s : sse_loop} (hs : Running s) : ¬ Returned s := by
  unfold Returned
  rw [hs.returned]
  simp

theorem running_start (pending : List std_string) : Running (.start pending .eof) :=
  ⟨rfl, rfl, rfl⟩

@[simp] theorem unread_start (pending : List std_string) (fin : error) :
    (sse_loop.start pending fin).unread = pending.flatten := rfl

theorem iteration_of_returned {send : ℕ → error_code} {s : sse_loop}
    (h : Returned s) : iteration send s = s := by
  unfold Returned at h
  rw [iteration, if_pos h]

/-- All an iteration can do, in terms of the blocks of the unread text. Without a block
it returns; a block without a field it leaves where it is; a block with an event it
consumes, and sends the event or returns the error of the send. -/
theorem iteration_cases {s : sse_loop} (hs : Running s) (send : ℕ → error_code) :
    (sse_blocks s.unread = [] ∧ Returned (iteration send s)
        ∧ (iteration send s).sent = s.sent)
      ∨ ∃ b bs, sse_blocks s.unread = b :: bs ∧
        ((parse_sse_block b = none ∧ Running (iteration send s)
            ∧ (iteration send s).unread = s.unread ∧ (iteration send s).sent = s.sent)
          ∨ ∃ message, parse_sse_block b = some message
            ∧ (((send s.sent.length).isSome = true
                ∧ Returned (iteration send s)
                ∧ (iteration send s).sent = s.sent)
              ∨ (send s.sent.length = none ∧ Running (iteration send s)
                ∧ sse_blocks (iteration send s).unread = bs
                ∧ (iteration send s).unread.length < s.unread.length
                ∧ (iteration send s).sent = s.sent ++ [message]))) := by
  have hret : ¬ s.returned.isSome = true := hs.not_returned
  have hdone : ¬ s.done_ = true := by rw [hs.done_]; simp
  unfold sse_loop.unread
  cases hf : find blank_line (s.buffer ++ s.pending.flatten) with
  | none =>
      refine Or.inl ⟨sse_blocks_of_none hf, ?_⟩
      rw [iteration, if_neg hret, if_neg hdone, async_read_until_of_none _ _ hf, hs.fin]
      exact ⟨rfl, rfl⟩
  | some i =>
      -- the delimiter is found by the time its last byte has been read
      obtain ⟨buffer, pending, hread, htext, hle⟩ := async_read_until_of_some _ _ hf
      have hlen : blank_line.length = 2 := rfl
      rw [hlen] at hread hle
      -- the block lies in the buffer, so taking it there takes it out of the text
      have htake : (s.buffer ++ s.pending.flatten).take (i + 2) = buffer.take (i + 2) := by
        rw [← htext, List.take_append_of_le_length hle]
      have hdrop : (s.buffer ++ s.pending.flatten).drop (i + 2)
          = buffer.drop (i + 2) ++ pending.flatten := by
        rw [← htext, List.drop_append_of_le_length hle]
      refine Or.inr ⟨_, _, sse_blocks_of_some hf, ?_⟩
      rw [htake, hdrop, iteration, if_neg hret, if_neg hdone, hread]
      simp only
      cases hp : parse_sse_block (buffer.take (i + 2)) with
      | none =>
          -- the `continue` of the source: nothing is consumed
          exact Or.inl ⟨rfl, ⟨hs.returned, hs.done_, hs.fin⟩, htext, rfl⟩
      | some message =>
          refine Or.inr ⟨message, rfl, ?_⟩
          cases hsend : send s.sent.length with
          | some e => exact Or.inl ⟨rfl, rfl, rfl⟩
          | none =>
              refine Or.inr ⟨rfl, ⟨hs.returned, hs.done_, hs.fin⟩, rfl, ?_, rfl⟩
              have := congrArg List.length htext
              show (buffer.drop (i + 2) ++ pending.flatten).length < _
              simp only [List.length_append, List.length_drop] at this ⊢
              omega

/-! ## Termination -/

/-- A block without a field in front of the unread text stays there for ever. -/
theorem stuck {s : sse_loop} (hs : Running s) {b : std_string} {bs : List std_string}
    (hb : sse_blocks s.unread = b :: bs) (hp : parse_sse_block b = none)
    (send : ℕ → error_code) :
    Running (iteration send s) ∧ (iteration send s).unread = s.unread
      ∧ (iteration send s).sent = s.sent := by
  rcases iteration_cases hs send with ⟨h, -⟩ | ⟨b', bs', h, h'⟩
  · rw [hb] at h
    cases h
  · rw [hb, List.cons.injEq] at h
    obtain ⟨rfl, rfl⟩ := h
    rcases h' with ⟨-, hr, hu, hsent⟩ | ⟨message, hm, -⟩
    · exact ⟨hr, hu, hsent⟩
    · rw [hp] at hm
      cases hm

/-- No block without a field is reached: every such block has a failing send among the
events in front of it. The sends are counted from `k`. -/
def HeartbeatsUnreached (send : ℕ → error_code) (k : ℕ) (blocks : List std_string) : Prop :=
  ∀ i b, blocks[i]? = some b → parse_sse_block b = none → ∃ j < i, (send (k + j)).isSome = true

/-- A block without a field at the front is reached. -/
theorem not_heartbeatsUnreached_of_none {send : ℕ → error_code} {k : ℕ} {b : std_string}
    {bs : List std_string} (hp : parse_sse_block b = none) :
    ¬ HeartbeatsUnreached send k (b :: bs) := by
  intro h
  obtain ⟨j, hj, -⟩ := h 0 b rfl hp
  exact absurd hj (Nat.not_lt_zero j)

/-- Behind an event whose send fails no block is reached. -/
theorem heartbeatsUnreached_of_fail {send : ℕ → error_code} {k : ℕ} {b : std_string}
    {bs : List std_string} (hp : parse_sse_block b ≠ none) (hsend : (send k).isSome = true) :
    HeartbeatsUnreached send k (b :: bs) := by
  intro i b' hi hb'
  cases i with
  | zero =>
      rw [List.getElem?_cons_zero, Option.some.injEq] at hi
      rw [hi] at hp
      exact absurd hb' hp
  | succ i => exact ⟨0, Nat.succ_pos i, hsend⟩

/-- Behind an event that is sent the blocks are reached as they are without it, the sends
counted from one further on. -/
theorem heartbeatsUnreached_of_sent {send : ℕ → error_code} {k : ℕ} {b : std_string}
    {bs : List std_string} (hp : parse_sse_block b ≠ none) (hsend : send k = none) :
    HeartbeatsUnreached send k (b :: bs) ↔ HeartbeatsUnreached send (k + 1) bs := by
  constructor
  · intro hall i b' hi hb'
    obtain ⟨j, hj, hf⟩ := hall (i + 1) b' hi hb'
    cases j with
    | zero =>
        rw [Nat.add_zero, hsend] at hf
        cases hf
    | succ j => exact ⟨j, by omega, by rwa [Nat.add_assoc, Nat.add_comm 1]⟩
  · intro hall i b' hi hb'
    cases i with
    | zero =>
        rw [List.getElem?_cons_zero, Option.some.injEq] at hi
        rw [hi] at hp
        exact absurd hb' hp
    | succ i =>
        obtain ⟨j, hj, hf⟩ := hall i b' hi hb'
        exact ⟨j + 1, by omega, by rwa [Nat.add_assoc, Nat.add_comm 1] at hf⟩

/-- The loop ends exactly if no block without a field is reached. The induction is on
the blocks of the unread text. -/
theorem halts_iff_unreached {send : ℕ → error_code} (blocks : List std_string) {s : sse_loop}
    (hs : Running s) (hblocks : sse_blocks s.unread = blocks) :
    Halts (iteration send) Returned s
      ↔ HeartbeatsUnreached send s.sent.length blocks := by
  induction blocks generalizing s with
  | nil =>
      rw [halts_step_iff hs.not_returned]
      rcases iteration_cases hs send with ⟨-, h, -⟩ | ⟨b, bs, h, -⟩
      · exact iff_of_true ⟨0, h⟩ (fun i b hb => by simp at hb)
      · rw [hblocks] at h
        cases h
  | cons b bs ih =>
      cases hp : parse_sse_block b with
      | none =>
          -- stuck on this block: that it is in front is an invariant of the loop
          refine iff_of_false ?_ (not_heartbeatsUnreached_of_none hp)
          refine not_halts_of_invariant
            (I := fun t => Running t ∧ sse_blocks t.unread = b :: bs) ?_ ?_ ⟨hs, hblocks⟩
          · rintro t ⟨ht, htb⟩
            obtain ⟨hr, hu, -⟩ := stuck ht htb hp send
            exact ⟨hr, by rw [hu, htb]⟩
          · rintro t ⟨ht, -⟩
            exact ht.not_returned
      | some message =>
          have hne : parse_sse_block b ≠ none := by rw [hp]; simp
          rw [halts_step_iff hs.not_returned]
          rcases iteration_cases hs send with ⟨h, -⟩ | ⟨b', bs', h, h'⟩
          · rw [hblocks] at h
            cases h
          · rw [hblocks, List.cons.injEq] at h
            obtain ⟨rfl, rfl⟩ := h
            rcases h' with ⟨hn, -⟩ | ⟨m, -, ⟨hsend, hr, -⟩ | ⟨hsend, hr, hu, -, hsent⟩⟩
            · exact absurd hn hne
            · exact iff_of_true ⟨0, hr⟩ (heartbeatsUnreached_of_fail hne hsend)
            · rw [ih hr hu, hsent, List.length_append, List.length_singleton,
                heartbeatsUnreached_of_sent hne hsend]

/-- What an iteration that stays in the loop leaves unread is less than before, or the
loop never ends. -/
theorem progress_or_stuck {send : ℕ → error_code} {s : sse_loop} (hs : Running s)
    (h : (iteration send s).returned = none) :
    (iteration send s).unread.length < s.unread.length
      ∨ ¬ Halts (iteration send) Returned s := by
  have hno : ¬ Returned (iteration send s) := by
    unfold Returned
    rw [h]
    simp
  rcases iteration_cases hs send with ⟨-, hr, -⟩ | ⟨b, bs, hb, h'⟩
  · exact absurd hr hno
  · rcases h' with ⟨hp, -⟩ | ⟨m, -, ⟨-, hr, -⟩ | ⟨-, -, -, hlt, -⟩⟩
    · refine Or.inr ?_
      rw [halts_iff_unreached _ hs hb]
      exact not_heartbeatsUnreached_of_none hp
    · exact absurd hr hno
    · exact Or.inl hlt

theorem running_iterate {send : ℕ → error_code} {s : sse_loop} (hs : Running s) (n : ℕ)
    (h : ((iteration send)^[n] s).returned = none) : Running ((iteration send)^[n] s) := by
  have key : Running ((iteration send)^[n] s)
      ∨ Returned ((iteration send)^[n] s) := by
    refine iterate_invariant
      (I := fun t => Running t ∨ Returned t) ?_ (Or.inl hs) n
    intro t ht
    rcases ht with ht | ht
    · rcases iteration_cases ht send with ⟨-, hr, -⟩ | ⟨b, bs, -, h'⟩
      · exact Or.inr hr
      · rcases h' with ⟨-, hr, -⟩ | ⟨m, -, ⟨-, hr, -⟩ | ⟨-, hr, -⟩⟩
        · exact Or.inl hr
        · exact Or.inr hr
        · exact Or.inl hr
    · rw [iteration_of_returned ht]
      exact Or.inr ht
  rcases key with hr | hr
  · exact hr
  · unfold Returned at hr
    rw [h] at hr
    cases hr

/-- The loop of `read_sse` on a body that ends with EOF, however the body is split into
reads and however its sends come out: it ends, and every iteration that stays in it
takes at least one byte out of the text, if and only if every block of the body that
sets no field has a failing send in front of it. -/
theorem halts_iff (send : ℕ → error_code) (reads : List std_string) :
    (Halts (iteration send) Returned (.start reads .eof)
        ∧ ∀ n, ((iteration send)^[n + 1] (.start reads .eof)).returned = none →
          ((iteration send)^[n + 1] (.start reads .eof)).unread.length
            < ((iteration send)^[n] (.start reads .eof)).unread.length)
      ↔ HeartbeatsUnreached send 0 (sse_blocks reads.flatten) := by
  have hs := running_start reads
  have hiff := @halts_iff_unreached send (sse_blocks reads.flatten) _ hs rfl
  constructor
  · rintro ⟨h, -⟩
    exact hiff.mp h
  · intro h
    have hhalts := hiff.mpr h
    refine ⟨hhalts, ?_⟩
    intro n hn
    rw [Function.iterate_succ_apply'] at hn ⊢
    -- an iteration out of a state that has returned would not be one of the loop
    have hprev : ((iteration send)^[n] (.start reads .eof)).returned = none := by
      by_contra hne
      have hret : Returned ((iteration send)^[n] (.start reads .eof)) :=
        Option.ne_none_iff_isSome.mp hne
      rw [iteration_of_returned hret] at hn
      exact hne hn
    rcases progress_or_stuck (running_iterate hs n hprev) hn with hlt | hstuck
    · exact hlt
    · have hstay : ∀ t, Returned t → Returned (iteration send t) := by
        intro t ht
        rwa [iteration_of_returned ht]
      exact absurd (halts_iterate hstay hhalts n) hstuck

/-- A comment block in front of an event, in two reads: the loop never ends. -/
theorem heartbeat_never_halts :
    ¬ Halts (iteration fun _ => none) Returned
      (.start [": ping\n\nda".toList, "ta: x\n\n".toList] .eof) := by
  rw [halts_iff_unreached _ (running_start _) rfl, unread_start,
    sse_blocks_of_some (show find blank_line _ = some 6 from by decide +kernel)]
  exact not_heartbeatsUnreached_of_none (by decide +kernel)

/-! ## What is delivered -/

/-- The blocks in front of the first one without a field. -/
def leading_events (blocks : List std_string) : List server_sent_event :=
  (blocks.takeWhile fun b => (parse_sse_block b).isSome).filterMap parse_sse_block

/-- With sends that succeed, the events delivered settle on those of the blocks in
front of the first one without a field, whether the loop ends or not. -/
theorem settles {s : sse_loop} (hs : Running s) :
    Settles (iteration fun _ => none) (fun t => t.sent) s
      (s.sent ++ leading_events (sse_blocks s.unread)) := by
  induction hblocks : sse_blocks s.unread generalizing s with
  | nil =>
      rw [settles_step_iff]
      rcases iteration_cases hs fun _ => none with ⟨-, hret, hsent⟩ | ⟨b, bs, h, -⟩
      · -- the transport has ended and the loop has returned
        refine settles_of_invariant
          (I := fun t => Returned t ∧ t.sent = s.sent) ?_ ?_ ⟨hret, hsent⟩
        · rintro t ⟨ht, htsent⟩
          rw [iteration_of_returned ht]
          exact ⟨ht, htsent⟩
        · rintro t ⟨-, htsent⟩
          simpa [leading_events] using htsent
      · rw [hblocks] at h
        cases h
  | cons b bs ih =>
      cases hp : parse_sse_block b with
      | none =>
          -- stuck: the loop runs on, but what it has sent is final
          refine settles_of_invariant
            (I := fun t => Running t ∧ sse_blocks t.unread = b :: bs ∧ t.sent = s.sent) ?_ ?_
            ⟨hs, hblocks, rfl⟩
          · rintro t ⟨ht, htb, htsent⟩
            obtain ⟨hr, hu, hsent⟩ := stuck ht htb hp fun _ => none
            exact ⟨hr, by rw [hu, htb], hsent.trans htsent⟩
          · rintro t ⟨-, -, htsent⟩
            simpa [leading_events, hp] using htsent
      | some message =>
          rw [settles_step_iff]
          rcases iteration_cases hs fun _ => none with ⟨h, -⟩ | ⟨b', bs', h, h'⟩
          · rw [hblocks] at h
            cases h
          · rw [hblocks, List.cons.injEq] at h
            obtain ⟨rfl, rfl⟩ := h
            rcases h' with ⟨hn, -⟩ | ⟨m, hm, ⟨hsend, -⟩ | ⟨-, hr, hu, -, hsent⟩⟩
            · rw [hp] at hn
              cases hn
            · cases hsend
            · have := ih hr hu
              rw [hsent, List.append_assoc, List.singleton_append] at this
              simpa [leading_events, hm] using this

/-- No block that sets a field comes behind one that sets none. -/
def NoEventAfterHeartbeat (blocks : List std_string) : Prop :=
  blocks.Pairwise fun a b => parse_sse_block a = none → parse_sse_block b = none

/-- The leading events are all events exactly if no event comes behind a block without
a field. -/
theorem leading_events_eq_iff (blocks : List std_string) :
    leading_events blocks = blocks.filterMap parse_sse_block
      ↔ NoEventAfterHeartbeat blocks := by
  unfold NoEventAfterHeartbeat
  induction blocks with
  | nil => exact iff_of_true rfl List.Pairwise.nil
  | cons b bs ih =>
      rw [List.pairwise_cons]
      cases hp : parse_sse_block b with
      | some message =>
          simpa [leading_events, hp] using ih
      | none =>
          -- nothing is delivered any more, so nothing more may be there
          have hall : (∀ a' ∈ bs, parse_sse_block a' = none) →
              bs.Pairwise fun a b => parse_sse_block a = none → parse_sse_block b = none := by
            intro h
            exact List.pairwise_of_forall_mem_list fun _ _ b hb _ => h b hb
          simp only [leading_events, hp, List.takeWhile_cons, Option.isSome_none,
            Bool.false_eq_true, if_false, List.filterMap_nil, List.filterMap_cons, true_implies]
          rw [eq_comm, List.filterMap_eq_nil_iff]
          exact ⟨fun h => ⟨h, hall h⟩, fun h => h.1⟩

/-! ## The header -/

/-- What `init_parser` learns from the header of a response: the bytes it takes up, and
the two properties it looks at. -/
structure response_header where
  wire : std_string
  content_type : std_string
  chunked : Bool

/-- The members of `response`, and its stream. -/
structure response where
  pending : List std_string
  fin : error
  buffer_ : std_string
  ec_ : error_code
  done_ : Bool
  sse_ : Bool
  chunked_ : Bool

/-- A response on a fresh stream. -/
def response.fresh (pending : List std_string) (fin : error) : response :=
  { pending := pending, fin := fin, buffer_ := [], ec_ := none, done_ := false, sse_ := false
    chunked_ := false }

/-- `boost::beast::http::async_read_header`: reads until the buffer holds the header and
consumes the header. What is behind it stays in the buffer. -/
def async_read_header (header_length : ℕ) (buffer : std_string) :
    List std_string → Option (std_string × List std_string)
  | [] => if header_length ≤ buffer.length then some (buffer.drop header_length, []) else none
  | seg :: rest =>
      if header_length ≤ buffer.length then some (buffer.drop header_length, seg :: rest)
      else async_read_header header_length (buffer ++ seg) rest

/-- `init_parser`: a failure is the transport's error before the end of the header. -/
def initParser (h : response_header) (r : response) : result response :=
  match async_read_header h.wire.length r.buffer_ r.pending with
  | none => .error (some r.fin)
  | some (buffer_, pending) =>
      .ok { r with
        buffer_ := buffer_, pending := pending, ec_ := none
        sse_ := (find "text/event-stream".toList h.content_type).isSome
        chunked_ := h.chunked }

/-- What `read_sse` does before its loop. -/
inductive sse_entry
  | returned (res : result Unit)
  | read_chunked_sse
  | loop (s : sse_loop)

/-- `read_sse` up to its loop. The loop's stream buffer is a fresh one. -/
def read_sse (r : response) : sse_entry :=
  if r.done_ then .returned (.error (some .eof))
  else if ¬ r.sse_ then .returned (.error (some .bad_transfer_encoding))
  else if r.chunked_ then .read_chunked_sse
  else .loop (.start r.pending r.fin)

/-- The bytes the header's last read brought along, and the reads behind it, are the
text behind the header. -/
theorem async_read_header_spec (reads : List std_string) (buffer header body : std_string)
    (h : buffer ++ reads.flatten = header ++ body) :
    ∃ rest pending, async_read_header header.length buffer reads = some (rest, pending)
      ∧ rest ++ pending.flatten = body := by
  induction reads generalizing buffer with
  | nil =>
      rw [List.flatten_nil, List.append_nil] at h
      subst h
      refine ⟨body, [], ?_, by simp⟩
      rw [async_read_header, if_pos (by simp), List.drop_left]
  | cons seg reads ih =>
      rw [async_read_header]
      by_cases hle : header.length ≤ buffer.length
      · -- the header is complete without this read
        rw [if_pos hle]
        refine ⟨_, _, rfl, ?_⟩
        have := congrArg (List.drop header.length) h
        rwa [List.drop_append_of_le_length hle, List.drop_left] at this
      · rw [if_neg hle]
        refine ih (buffer ++ seg) ?_
        rw [← h, List.flatten_cons, List.append_assoc]

/-- A buffer that holds the header needs no read. -/
theorem async_read_header_of_le {header_length : ℕ} {buffer : std_string}
    (h : header_length ≤ buffer.length) (reads : List std_string) :
    async_read_header header_length buffer reads = some (buffer.drop header_length, reads) := by
  cases reads with
  | nil => rw [async_read_header, if_pos h]
  | cons seg reads => rw [async_read_header, if_pos h]

/-- Nothing is left in the buffer exactly if some read ended where the header ends. -/
theorem async_read_header_clean_iff (reads : List std_string)
    (buffer header body : std_string) (h : buffer ++ reads.flatten = header ++ body)
    (hb : buffer.length ≤ header.length) {rest : std_string} {pending : List std_string}
    (hread : async_read_header header.length buffer reads = some (rest, pending)) :
    rest = [] ↔ ∃ k, buffer ++ (reads.take k).flatten = header := by
  induction reads generalizing buffer with
  | nil =>
      have hle : header.length ≤ buffer.length := by
        by_contra hle
        rw [async_read_header, if_neg hle] at hread
        cases hread
      have hlen : buffer.length = header.length := by omega
      rw [async_read_header_of_le hle, Option.some.injEq, Prod.mk.injEq] at hread
      refine iff_of_true ?_ ⟨0, ?_⟩
      · rw [← hread.1, ← hlen, List.drop_length]
      · simpa using (List.append_inj h hlen).1
  | cons seg reads ih =>
      by_cases hle : header.length ≤ buffer.length
      · have hlen : buffer.length = header.length := by omega
        rw [async_read_header_of_le hle, Option.some.injEq, Prod.mk.injEq] at hread
        refine iff_of_true ?_ ⟨0, ?_⟩
        · rw [← hread.1, ← hlen, List.drop_length]
        · simpa using (List.append_inj h hlen).1
      · rw [async_read_header, if_neg hle] at hread
        have h' : (buffer ++ seg) ++ reads.flatten = header ++ body := by
          rw [← h, List.flatten_cons, List.append_assoc]
        -- a read that ends the header cannot be one before this one
        have hshift : (∃ k, buffer ++ ((seg :: reads).take k).flatten = header)
            ↔ ∃ k, (buffer ++ seg) ++ (reads.take k).flatten = header := by
          constructor
          · rintro ⟨k, hk⟩
            cases k with
            | zero =>
                rw [List.take_zero, List.flatten_nil, List.append_nil] at hk
                rw [hk] at hle
                exact absurd (Nat.le_refl _) hle
            | succ k => exact ⟨k, by simpa using hk⟩
          · rintro ⟨k, hk⟩
            exact ⟨k + 1, by simpa using hk⟩
        rw [hshift]
        by_cases hseg : (buffer ++ seg).length ≤ header.length
        · exact ih (buffer ++ seg) h' hseg hread
        · -- this read carries the end of the header and more
          have hlong : header.length ≤ (buffer ++ seg).length := by omega
          rw [async_read_header_of_le hlong, Option.some.injEq, Prod.mk.injEq] at hread
          refine iff_of_false ?_ ?_
          · rw [← hread.1, List.drop_eq_nil_iff]
            omega
          · rintro ⟨k, hk⟩
            have := congrArg List.length hk
            rw [List.length_append] at this
            omega

/-- `init_parser` followed by `read_sse`, on the reads of a whole response: the loop
starts with the whole body unread, and the events it delivers are those of the body. -/
def DeliversBody (h : response_header) (body : std_string) (reads : List std_string) : Prop :=
  ∃ r s, initParser h (.fresh reads .eof) = .ok r ∧ read_sse r = .loop s
    ∧ s.unread = body
    ∧ Settles (iteration fun _ => none) (fun t => t.sent) s (decode body)

/-- For an event stream that is not chunked, and every way its bytes arrive, the body is
delivered as a whole if and only if some read ends exactly where the header ends and no
event of the body comes behind a block without a field. -/
theorem body_iff (h : response_header) (body : std_string) (reads : List std_string)
    (hsse : (find "text/event-stream".toList h.content_type).isSome = true)
    (hchunked : h.chunked = false) (hreads : reads.flatten = h.wire ++ body) :
    DeliversBody h body reads
      ↔ (∃ k, (reads.take k).flatten = h.wire)
        ∧ NoEventAfterHeartbeat (sse_blocks body) := by
  obtain ⟨rest, pending, hread, hbody⟩ := async_read_header_spec reads [] h.wire body hreads
  have hclean := async_read_header_clean_iff reads [] h.wire body hreads (Nat.zero_le _) hread
  simp only [List.nil_append] at hclean
  have hinit : initParser h (.fresh reads .eof) = .ok
      { response.fresh reads .eof with
        buffer_ := rest, pending := pending, sse_ := true, chunked_ := false } := by
    simp only [initParser, response.fresh, hread, hsse, hchunked]
  have hloop : DeliversBody h body reads ↔ (sse_loop.start pending .eof).unread = body
      ∧ Settles (iteration fun _ => none) (fun t => t.sent) (.start pending .eof)
        (decode body) := by
    constructor
    · rintro ⟨r, s, hr, hs, hu, hset⟩
      rw [hinit, Except.ok.injEq] at hr
      subst hr
      simp only [read_sse, response.fresh, Bool.false_eq_true, if_false, not_true,
        sse_entry.loop.injEq] at hs
      subst hs
      exact ⟨hu, hset⟩
    · rintro ⟨hu, hset⟩
      exact ⟨_, _, hinit, rfl, hu, hset⟩
  have hsettles := settles (running_start pending)
  rw [unread_start] at hsettles hloop
  rw [hloop, ← hclean]
  -- no byte is skipped exactly if nothing was left in the other buffer
  have hskip : pending.flatten = body ↔ rest = [] := by
    rw [← hbody]
    constructor
    · intro heq
      have := congrArg List.length heq
      rw [List.length_append] at this
      exact List.length_eq_zero_iff.mp (by omega)
    · intro heq
      rw [heq, List.nil_append]
  rw [hskip, ← leading_events_eq_iff]
  constructor
  · rintro ⟨hrest, hset⟩
    refine ⟨hrest, ?_⟩
    have := settles_unique hsettles hset
    rwa [sse_loop.start, List.nil_append, hskip.mpr hrest] at this
  · rintro ⟨hrest, hlead⟩
    refine ⟨hrest, ?_⟩
    rw [sse_loop.start, List.nil_append, hskip.mpr hrest, hlead] at hsettles
    exact hsettles

/-- The header of an event stream that is not chunked. -/
def stream_header : response_header :=
  { wire := "HTTP/1.1 200 OK\r\nContent-Type: text/event-stream\r\n\r\n".toList
    content_type := "text/event-stream".toList
    chunked := false }

/-- The header in one read and the body in the next. -/
theorem body_iff_two_reads :
    DeliversBody stream_header "data: x\n\n".toList
        [stream_header.wire, "data: x\n\n".toList]
      ↔ (∃ k, (([stream_header.wire, "data: x\n\n".toList] : List std_string).take k).flatten
            = stream_header.wire)
        ∧ NoEventAfterHeartbeat (sse_blocks "data: x\n\n".toList) :=
  body_iff stream_header _ _ (by decide) rfl (by decide)

/-- Both in one read: the loop starts on an empty stream, and no event comes out. -/
theorem first_event_skipped :
    ¬ DeliversBody stream_header "data: x\n\n".toList
      [stream_header.wire ++ "data: x\n\n".toList] := by
  rintro ⟨r, s, hr, hs, hu, -⟩
  have hinit : initParser stream_header
      (.fresh [stream_header.wire ++ "data: x\n\n".toList] .eof)
      = .ok { response.fresh [] .eof with buffer_ := "data: x\n\n".toList, sse_ := true } := by
    rfl
  rw [hinit, Except.ok.injEq] at hr
  subst hr
  have hloop : s = .start [] .eof := (sse_entry.loop.inj hs).symm
  rw [hloop] at hu
  cases hu

end CppHttp.ReadSse
