/-
What `response::read_sse` returns when the response is over, and what `complete()` says
then.

Both loops keep the verdict in the member `ec_`. The one of the private
`read_chunked_encoding`, which `read_chunked_sse` ends in, turns `eof` into success. The
one in `read_sse` itself sets `done_` on `eof`, leaves the loop and returns `ec_`, which
still holds the `eof`; and since it leaves the loop in no other way than with an error in
`ec_`, it never returns success (`loop_never_succeeds`).

So the end of an event stream is reported as success only where it is chunked. There the
verdict is right as long as the read of the message does not report `eof` itself
(`returns_of_chunked`). By its documentation Beast's `async_read` never does: of a message
that is cut short it reports `partial_message`, or `end_of_stream` where nothing of it has
come. `tells_end_iff` says exactly when the end is told.
-/
import CppHttp.ReadSse

set_option autoImplicit false

namespace CppHttp.ReadVerdict

open CppHttp.Errors CppHttp.ReadSse CppHttp.Runs CppHttp.SseParse CppHttp.StdString

/-! ## The loop of `read_chunked_encoding` -/

/-- The members that the private `read_chunked_encoding` works on. `calls` counts its
reads, `returned` is what it returned. -/
structure read_loop where
  calls : ℕ
  ec_ : error_code
  done_ : Bool
  returned : Option (result Unit)

/-- The tests in front of the loop, those of `read_chunked_sse` included. -/
def read_loop.start (r : response) : read_loop :=
  { calls := 0, ec_ := r.ec_, done_ := r.done_
    returned :=
      if r.done_ then some (.error (some .eof))
      else if ¬ r.sse_ ∨ ¬ r.chunked_ then some (.error (some .bad_transfer_encoding))
      else none }

/-- One iteration of `while (!done_)`. `read k` is what the `k`-th `async_read` reports,
which reads up to the end of the message and calls the callbacks on the way. -/
def read_iteration (read : ℕ → error_code) (s : read_loop) : read_loop :=
  if s.returned.isSome then s
  else if s.done_ then
    { s with returned := some (s.ec_.elim (.ok ()) fun e => .error (some e)) }
  else
    let s := { s with calls := s.calls + 1, ec_ := read s.calls, done_ := true }
    match s.ec_ with
    | none => s
    | some .need_buffer => s
    | some .eof => { s with returned := some (.ok ()) }
    | some e => { s with returned := some (.error (some e)) }

/-- `read_sse` returns the result, and `complete()` is what it is. -/
def Returns (r : response) (read send : ℕ → error_code) (res : result Unit)
    (complete : Bool) : Prop :=
  match read_sse r with
  | .returned res' => res' = res ∧ r.done_ = complete
  | .read_chunked_sse =>
      ∃ n, ((read_iteration read)^[n] (.start r)).returned = some res
        ∧ ((read_iteration read)^[n] (.start r)).done_ = complete
  | .loop s =>
      ∃ n, ((iteration send)^[n] s).returned = some res
        ∧ ((iteration send)^[n] s).done_ = complete

/-! ## What is to be reported -/

/-- The server ends the response normally: with the last-chunk, behind which the parser
is done and its read reports no error, or by closing the connection. -/
def EndsNormally (r : response) (read : ℕ → error_code) : Prop :=
  if r.chunked_ then read 0 = none else r.fin = .eof

/-- A send into the channel fails. The chunked reader does not wait for its sends. -/
def ChannelFails (r : response) (send : ℕ → error_code) : Prop :=
  r.chunked_ = false
    ∧ ∃ i < (leading_events (sse_blocks r.pending.flatten)).length, (send i).isSome = true

/-- A response that ends normally, with no failing send on the way, is reported as a
success, and as complete; a failure is reported only where there was one, and a success only
where the response has ended normally. -/
structure TellsEnd (r : response) (read send : ℕ → error_code) : Prop where
  success : EndsNormally r read → ¬ ChannelFails r send → Returns r read send (.ok ()) true
  failure : ∀ ec complete, Returns r read send (.error ec) complete →
    ¬ EndsNormally r read ∨ ChannelFails r send
  finished : ∀ complete, Returns r read send (.ok ()) complete → EndsNormally r read

/-! ## Event streams that are not chunked -/

/-- An iteration returns an error or does not return. -/
theorem iteration_not_ok (send : ℕ → error_code) {s : sse_loop}
    (h : s.returned ≠ some (.ok ())) : (iteration send s).returned ≠ some (.ok ()) := by
  unfold iteration
  by_cases hret : s.returned.isSome = true
  · rw [if_pos hret]
    exact h
  · have hnone : s.returned = none := by simpa using hret
    rw [if_neg hret]
    by_cases hdone : s.done_ = true
    · rw [if_pos hdone]
      simp
    · rw [if_neg hdone]
      rcases async_read_until blank_line s.buffer s.pending with ⟨_ | line_length, buffer, pending⟩
      · -- the transport has ended: each of the branches returns its error or nothing
        cases hfin : s.fin <;> simp [hnone]
      · simp only
        cases hp : parse_sse_block (buffer.take line_length) with
        | none => simp [hnone]
        | some message => cases hsend : send s.sent.length <;> simp [hnone]

/-- The loop of `read_sse` returns nothing but errors. -/
theorem loop_never_succeeds (send : ℕ → error_code) {s : sse_loop}
    (h : s.returned ≠ some (.ok ())) (n : ℕ) :
    ((iteration send)^[n] s).returned ≠ some (.ok ()) :=
  iterate_invariant (I := fun t : sse_loop => t.returned ≠ some (.ok ()))
    (fun _ ht => iteration_not_ok send ht) h n

/-- What `read_sse` enters for an event stream that has not been read yet. -/
theorem read_sse_of_fresh {r : response} (hsse : r.sse_ = true) (hdone : r.done_ = false) :
    read_sse r = if r.chunked_ then .read_chunked_sse else .loop (.start r.pending r.fin) := by
  unfold read_sse
  simp [hsse, hdone]

theorem not_returns_ok_of_eof_delimited {r : response} (hsse : r.sse_ = true)
    (hdone : r.done_ = false) (hchunked : r.chunked_ = false) (read send : ℕ → error_code)
    (complete : Bool) : ¬ Returns r read send (.ok ()) complete := by
  unfold Returns
  rw [read_sse_of_fresh hsse hdone, hchunked]
  rintro ⟨n, hret, -⟩
  exact loop_never_succeeds send (s := .start r.pending r.fin) (by simp [sse_loop.start]) n hret

/-! ## Chunked event streams -/

/-- What the loop makes of the error its read reports. -/
def verdict : error_code → result Unit
  | none => .ok ()
  | some .eof => .ok ()
  | some e => .error (some e)

theorem verdict_eq_ok_iff (ec : error_code) : verdict ec = .ok () ↔ ec = none ∨ ec = some .eof := by
  rcases ec with _ | e
  · simp [verdict]
  · cases e <;> simp [verdict]

/-- One iteration reads, and returns nothing or the verdict. -/
theorem read_iteration_once (read : ℕ → error_code) (ec : error_code) :
    (read_iteration read { calls := 0, ec_ := ec, done_ := false, returned := none }).done_ = true
      ∧ ((read_iteration read
            { calls := 0, ec_ := ec, done_ := false, returned := none }).returned = none
        ∨ (read_iteration read
            { calls := 0, ec_ := ec, done_ := false, returned := none }).returned
          = some (verdict (read 0))) := by
  rcases hread : read 0 with _ | e
  · simp [read_iteration, hread]
  · cases e <;> simp [read_iteration, hread, verdict]

/-- Behind two iterations the verdict is returned, and nothing changes any more. -/
theorem read_iteration_iterate (read : ℕ → error_code) (ec : error_code) (n : ℕ) :
    (read_iteration read)^[n + 2] { calls := 0, ec_ := ec, done_ := false, returned := none }
      = { calls := 1, ec_ := read 0, done_ := true, returned := some (verdict (read 0)) } := by
  have htwo : read_iteration read (read_iteration read
        { calls := 0, ec_ := ec, done_ := false, returned := none })
      = { calls := 1, ec_ := read 0, done_ := true, returned := some (verdict (read 0)) } := by
    rcases hread : read 0 with _ | e
    · simp [read_iteration, hread, verdict]
    · cases e <;> simp [read_iteration, hread, verdict]
  rw [Function.iterate_add_apply]
  refine iterate_invariant (f := read_iteration read)
    (I := fun t => t = { calls := 1, ec_ := read 0, done_ := true
                         returned := some (verdict (read 0)) }) ?_ htwo n
  rintro t rfl
  simp [read_iteration]

/-- The loop reads once and returns its verdict on that. -/
theorem returns_of_chunked {r : response} (hsse : r.sse_ = true) (hdone : r.done_ = false)
    (hchunked : r.chunked_ = true) (read send : ℕ → error_code) (res : result Unit)
    (complete : Bool) :
    Returns r read send res complete ↔ res = verdict (read 0) ∧ complete = true := by
  have hstart : read_loop.start r
      = { calls := 0, ec_ := r.ec_, done_ := false, returned := none } := by
    simp [read_loop.start, hsse, hdone, hchunked]
  have hstay : ∀ n, (read_iteration read)^[n + 2] (.start r)
      = { calls := 1, ec_ := read 0, done_ := true, returned := some (verdict (read 0)) } := by
    intro n
    rw [hstart]
    exact read_iteration_iterate read r.ec_ n
  unfold Returns
  rw [read_sse_of_fresh hsse hdone, hchunked]
  constructor
  · rintro ⟨n, hret, hcomplete⟩
    rcases n with _ | _ | n
    · simp [hstart] at hret
    · rw [Function.iterate_one, hstart] at hret hcomplete
      obtain ⟨hone, hnone | hsome⟩ := read_iteration_once read r.ec_
      · rw [hnone] at hret
        cases hret
      · rw [hsome] at hret
        exact ⟨(Option.some.inj hret).symm, hcomplete.symm.trans hone⟩
    · rw [hstay] at hret hcomplete
      exact ⟨(Option.some.inj hret).symm, hcomplete.symm⟩
  · rintro ⟨rfl, rfl⟩
    exact ⟨2, by rw [hstay 0], by rw [hstay 0]⟩

/-! ## Exactly when the end is told -/

/-- On a chunked event stream all is told but a read that reports `eof`. -/
theorem tells_end_of_chunked {r : response} (hsse : r.sse_ = true) (hdone : r.done_ = false)
    (hchunked : r.chunked_ = true) (read send : ℕ → error_code) :
    TellsEnd r read send ↔ read 0 ≠ some .eof := by
  have hends : EndsNormally r read ↔ read 0 = none := by
    rw [EndsNormally, if_pos hchunked]
  have hreturns := returns_of_chunked hsse hdone hchunked read send
  constructor
  · intro h heof
    have hok : Returns r read send (.ok ()) true :=
      (hreturns _ _).mpr ⟨((verdict_eq_ok_iff _).mpr (.inr heof)).symm, rfl⟩
    rw [hends.mp (h.finished true hok)] at heof
    cases heof
  · intro heof
    refine ⟨?_, ?_, ?_⟩
    · intro hend _
      exact (hreturns _ _).mpr ⟨((verdict_eq_ok_iff _).mpr (.inl (hends.mp hend))).symm, rfl⟩
    · intro ec complete hret
      refine .inl fun hend => ?_
      obtain ⟨hres, -⟩ := (hreturns _ _).mp hret
      rw [hends.mp hend] at hres
      cases hres
    · intro complete hret
      obtain ⟨hres, -⟩ := (hreturns _ _).mp hret
      exact hends.mpr (((verdict_eq_ok_iff _).mp hres.symm).resolve_right heof)

/-- On one that is not chunked the normal end is not told, unless a send fails. -/
theorem tells_end_of_eof_delimited {r : response} (hsse : r.sse_ = true)
    (hdone : r.done_ = false) (hchunked : r.chunked_ = false) (read send : ℕ → error_code) :
    TellsEnd r read send ↔ r.fin ≠ .eof ∨ ChannelFails r send := by
  have hends : EndsNormally r read ↔ r.fin = .eof := by
    simp [EndsNormally, hchunked]
  have hnever := not_returns_ok_of_eof_delimited hsse hdone hchunked read send
  constructor
  · intro h
    by_contra hno
    rw [not_or, not_not] at hno
    exact hnever true (h.success (hends.mpr hno.1) hno.2)
  · intro h
    refine ⟨?_, ?_, ?_⟩
    · intro hend hchannel
      exact absurd hchannel (not_not.mpr (h.resolve_left (not_not.mpr (hends.mp hend))))
    · intro ec complete _
      rw [hends]
      exact h
    · intro complete hret
      exact absurd hret (hnever complete)

/-- **The verdict.** For every event stream, however its bytes arrive, whatever the reads
of the chunked message report and whatever becomes of the sends: `read_sse` reports the
normal end of the response as a success, and as complete, reports failures only where there
were some, and successes only where the response has ended normally, if and only if the
response is chunked and its read does not report `eof`, or it is not chunked and does not
end normally or a send into the channel fails. -/
theorem tells_end_iff (r : response) (read send : ℕ → error_code) (hsse : r.sse_ = true)
    (hdone : r.done_ = false) :
    TellsEnd r read send
      ↔ if r.chunked_ then read 0 ≠ some .eof else r.fin ≠ .eof ∨ ChannelFails r send := by
  cases hchunked : r.chunked_ with
  | true =>
      rw [if_pos rfl]
      exact tells_end_of_chunked hsse hdone hchunked read send
  | false =>
      rw [if_neg Bool.false_ne_true]
      exact tells_end_of_eof_delimited hsse hdone hchunked read send

/-- A response behind its header, with what is to come on its connection. -/
def behind_header (pending : List std_string) (chunked_ : Bool) : response :=
  { response.fresh pending .eof with sse_ := true, chunked_ := chunked_ }

/-- A chunked event stream whose read reports no error. -/
theorem tells_end_iff_chunked :
    TellsEnd (behind_header [] true) (fun _ => none) (fun _ => none)
      ↔ if (behind_header [] true).chunked_ then (none : error_code) ≠ some .eof
        else (behind_header [] true).fin ≠ .eof
          ∨ ChannelFails (behind_header [] true) (fun _ => none) :=
  tells_end_iff (behind_header [] true) (fun _ => none) (fun _ => none) rfl rfl

/-- An event stream that is not chunked, of one event: the event is delivered, the server
closes the connection, and `read_sse` fails with `eof`, though it is complete. -/
theorem eof_reported_as_failure :
    Returns (behind_header ["data: x\n\n".toList] false) (fun _ => none) (fun _ => none)
        (.error (some .eof)) true
      ∧ ¬ TellsEnd (behind_header ["data: x\n\n".toList] false) (fun _ => none)
        (fun _ => none) := by
  refine ⟨⟨2, by decide +kernel, by decide +kernel⟩, fun h => ?_⟩
  refine not_returns_ok_of_eof_delimited rfl rfl rfl _ _ true (h.success rfl ?_)
  rintro ⟨-, i, -, hi⟩
  cases hi

end CppHttp.ReadVerdict
