/-
What the streaming branch of `response::async_write` does about a write that fails.

All operations of the writer report into one error code, and `do_session` looks at it
when the writer is through. The writer itself never does: it goes round its loop
whatever the code says, so behind a failed write it receives and writes on, and each of
these operations overwrites the code.

That a failure is the end of the response and the error the session sees
(`StopsAtFailure`) is therefore true of those runs only in which nothing can come behind
the failure. `stops_at_failure_spec`: it holds in every state of a run in which no
header and no chunk write fails, and of the runs that get to the end of the writer it
holds of no others.
-/
import CppHttp.StreamWriter

set_option autoImplicit false

namespace CppHttp.WriteErrors

open CppHttp.Channel CppHttp.Errors CppHttp.Message CppHttp.Runs CppHttp.StreamWriter

/-! ## The failures of a response -/

/-- The error of the first write that failed. -/
def first_failure (writes : List (wire_item × write_outcome)) : error_code :=
  writes.findSome? fun w => w.2.ec

/-- Behind the first failing write there is no other, and when the writer is through the
error code is that of the first failing write. -/
structure StopsAtFailure (s : stream) : Prop where
  no_more : ∀ pre w post, s.writes = pre ++ w :: post → w.2 ≠ .written → post = []
  ec : s.pc = .done → s.ec = first_failure s.writes

/-- What the writer's next statement writes, if it writes. -/
def writing (s : stream) : Option wire_item :=
  match s.pc with
  | .header => some .header
  | .received chunk => if chunk.valid then some (.chunk chunk.to_chunk_body) else none
  | .last => some .last
  | _ => none

/-- The step is not a header or chunk write that fails. -/
def WriteSucceeds (s : stream) (a : action) : Prop :=
  ∀ outcome item, a = .writer outcome → writing s = some item → item ≠ .last →
    outcome = .written

/-! ## One step -/

theorem ec_eq_none_iff (outcome : write_outcome) : outcome.ec = none ↔ outcome = .written := by
  cases outcome with
  | written => simp [write_outcome.ec]
  | failed e sent => simp [write_outcome.ec]

/-- A statement that writes appends one write to the record and leaves its error in the
code; the others write nothing. Only the last-chunk brings the writer to its end. -/
theorem advance_writes {s t : stream} {outcome : write_outcome}
    (hst : s.advance outcome = some t) :
    (∃ item, writing s = some item ∧ t.writes = s.writes ++ [(item, outcome)]
        ∧ t.ec = outcome.ec ∧ (t.pc = .done ↔ item = .last))
      ∨ (writing s = none ∧ t.writes = s.writes ∧ t.pc ≠ .done) := by
  unfold stream.advance at hst
  unfold writing
  cases hpc : s.pc with
  | header =>
      rw [hpc] at hst
      obtain rfl := Option.some.inj hst
      exact Or.inl ⟨_, rfl, rfl, rfl, by simp⟩
  | test =>
      rw [hpc] at hst
      obtain rfl := Option.some.inj hst
      refine Or.inr ⟨rfl, rfl, ?_⟩
      dsimp only
      split <;> simp
  | receive =>
      rw [hpc] at hst
      cases htake : s.rx.take with
      | mk r rx =>
        rw [htake] at hst
        rcases BoundedChannel.take_cases htake with ⟨c, rfl, -⟩ | ⟨rfl, -⟩ | ⟨rfl, -⟩
        · obtain rfl := Option.some.inj hst
          exact Or.inr ⟨rfl, rfl, by simp⟩
        · obtain rfl := Option.some.inj hst
          exact Or.inr ⟨rfl, rfl, by simp⟩
        · obtain rfl := Option.some.inj hst
          exact Or.inr ⟨rfl, rfl, by simp⟩
  | received chunk =>
      rw [hpc] at hst
      by_cases hv : chunk.valid = true
      · simp only [hv, if_true] at hst ⊢
        obtain rfl := Option.some.inj hst
        exact Or.inl ⟨_, rfl, rfl, rfl, by simp⟩
      · simp only [hv, Bool.false_eq_true, if_false] at hst ⊢
        obtain rfl := Option.some.inj hst
        exact Or.inr ⟨trivial, rfl, by simp⟩
  | last =>
      rw [hpc] at hst
      obtain rfl := Option.some.inj hst
      exact Or.inl ⟨_, rfl, rfl, rfl, by simp⟩
  | waiting =>
      rw [hpc] at hst
      cases hst
  | done =>
      rw [hpc] at hst
      cases hst

/-- The producer writes nothing, and does not disturb a writer that is through. -/
theorem producer_writes {s t : stream} {a : action} (h : Inv s) (hst : step s a = some t)
    (ha : ∀ outcome, a ≠ .writer outcome) :
    t.writes = s.writes ∧ (t.pc = .done ↔ s.pc = .done) ∧ (s.pc = .done → t.ec = s.ec) := by
  have hoffer : ∀ chunk, (s.offer chunk).writes = s.writes
      ∧ ((s.offer chunk).pc = .done ↔ s.pc = .done)
      ∧ (s.pc = .done → (s.offer chunk).ec = s.ec) := by
    intro chunk
    cases hput : s.rx.put chunk with
    | mk r rx =>
      unfold stream.offer
      rw [hput]
      rcases BoundedChannel.put_cases hput with ⟨rfl, -, hpos, -⟩ | ⟨rfl, -⟩ | ⟨rfl, -⟩
      · -- handed over: the writer was suspended in its receive
        have hpc : s.pc = .waiting := by
          by_contra hpc
          rw [h.waits, if_neg hpc] at hpos
          omega
        simp [hpc]
      · simp
      · simp
  cases a with
  | send chunk =>
      simp only [step] at hst
      split at hst
      · cases hst
      · obtain rfl := Option.some.inj hst
        exact hoffer chunk
  | try_send chunk =>
      obtain rfl := Option.some.inj hst
      exact hoffer chunk
  | close =>
      obtain rfl := Option.some.inj hst
      unfold stream.close
      by_cases hpc : s.pc = .waiting
      · simp [hpc]
      · simp [hpc]
  | writer outcome => exact absurd rfl (ha outcome)

/-! ## The record of the writes -/

/-- The last-chunk is the last write and the writer's end, and the error code is then
that of this write. -/
structure Recorded (s : stream) : Prop where
  running : s.pc ≠ .done → ∀ w ∈ s.writes, w.1 ≠ .last
  done : s.pc = .done → ∃ pre outcome, s.writes = pre ++ [(.last, outcome)]
    ∧ s.ec = outcome.ec ∧ ∀ w ∈ pre, w.1 ≠ .last

theorem recorded_step {s t : stream} {a : action} (h : Inv s) (hs : Recorded s)
    (hst : step s a = some t) : Recorded t := by
  by_cases ha : ∃ outcome, a = .writer outcome
  · obtain ⟨outcome, rfl⟩ := ha
    have hrunning : s.pc ≠ .done := by
      intro hpc
      simp [step, stream.advance, hpc] at hst
    rcases advance_writes hst with ⟨item, -, hwrites, hec, hlast⟩ | ⟨-, hwrites, hpc⟩
    · refine ⟨fun hpc w hw => ?_, fun hpc => ?_⟩
      · rw [hwrites, List.mem_append, List.mem_singleton] at hw
        rcases hw with hw | rfl
        · exact hs.running hrunning w hw
        · exact fun hitem => hpc (hlast.mpr hitem)
      · rw [hlast.mp hpc] at hwrites
        exact ⟨s.writes, outcome, hwrites, hec, hs.running hrunning⟩
    · refine ⟨fun _ => ?_, fun hdone => absurd hdone hpc⟩
      rw [hwrites]
      exact hs.running hrunning
  · obtain ⟨hwrites, hpc, hec⟩ := producer_writes h hst (fun outcome heq => ha ⟨outcome, heq⟩)
    refine ⟨fun hne => ?_, fun hdone => ?_⟩
    · rw [hwrites]
      exact hs.running (fun hd => hne (hpc.mpr hd))
    · obtain ⟨pre, outcome, h1, h2, h3⟩ := hs.done (hpc.mp hdone)
      exact ⟨pre, outcome, hwrites.trans h1, (hec (hpc.mp hdone)).trans h2, h3⟩

/-- A step keeps the record free of failed header and chunk writes exactly if it is not
one. -/
theorem written_step {s t : stream} {a : action} (h : Inv s) (hst : step s a = some t) :
    (∀ w ∈ t.writes, w.1 ≠ .last → w.2 = .written)
      ↔ (∀ w ∈ s.writes, w.1 ≠ .last → w.2 = .written) ∧ WriteSucceeds s a := by
  by_cases ha : ∃ outcome, a = .writer outcome
  · obtain ⟨outcome, rfl⟩ := ha
    rcases advance_writes hst with ⟨item, hitem, hwrites, -⟩ | ⟨hitem, hwrites, -⟩
    · have hstep : WriteSucceeds s (.writer outcome) ↔ (item ≠ .last → outcome = .written) := by
        constructor
        · intro h'
          exact h' outcome item rfl hitem
        · intro h' o i ho hi
          obtain rfl := action.writer.inj ho
          obtain rfl := Option.some.inj (hitem.symm.trans hi)
          exact h'
      rw [hwrites, hstep]
      simp only [List.mem_append, List.mem_singleton, or_imp, forall_and, forall_eq]
    · rw [hwrites]
      refine (and_iff_left ?_).symm
      intro o i _ hi
      rw [hitem] at hi
      cases hi
  · rw [(producer_writes h hst (fun outcome heq => ha ⟨outcome, heq⟩)).1]
    refine (and_iff_left ?_).symm
    intro o i ho _
    exact absurd ⟨o, ho⟩ ha

/-- With the last-chunk at most failing, the record is as `StopsAtFailure` says. -/
theorem stopsAtFailure_of_written {s : stream} (hs : Recorded s)
    (h : ∀ w ∈ s.writes, w.1 ≠ .last → w.2 = .written) : StopsAtFailure s := by
  constructor
  · intro pre w post hsplit hw
    have hmem : w ∈ s.writes := by rw [hsplit]; simp
    have hlast : w.1 = .last := by
      by_contra hne
      exact hw (h w hmem hne)
    have hpc : s.pc = .done := by
      by_contra hne
      exact hs.running hne w hmem hlast
    -- the last-chunk is the last of the record
    obtain ⟨front, outcome, hwrites, -, hfront⟩ := hs.done hpc
    rcases List.eq_nil_or_concat post with hnil | ⟨post', x, rfl⟩
    · exact hnil
    · rw [hwrites, List.concat_eq_append, ← List.cons_append, ← List.append_assoc] at hsplit
      have hin : w ∈ front := by
        rw [(List.append_inj' hsplit rfl).1]
        simp
      exact absurd hlast (hfront w hin)
  · intro hpc
    obtain ⟨front, outcome, hwrites, hec, hfront⟩ := hs.done hpc
    have hnone : front.findSome? (fun w => w.2.ec) = none := by
      rw [List.findSome?_eq_none_iff]
      intro w hw
      rw [ec_eq_none_iff]
      exact h w (by rw [hwrites]; simp [hw]) (hfront w hw)
    rw [hec, first_failure, hwrites, List.findSome?_append, hnone, Option.none_or,
      List.findSome?_singleton]

/-- At the writer's end a header or chunk write that failed has the last-chunk behind
it. -/
theorem written_of_stopsAtFailure {s : stream} (hs : Recorded s) (hdone : s.pc = .done)
    (h : StopsAtFailure s) : ∀ w ∈ s.writes, w.1 ≠ .last → w.2 = .written := by
  intro w hw hne
  by_contra hfailed
  obtain ⟨front, outcome, hwrites, -, -⟩ := hs.done hdone
  rw [hwrites, List.mem_append, List.mem_singleton] at hw
  rcases hw with hw | rfl
  · obtain ⟨pre, post, hsplit⟩ := List.append_of_mem hw
    have := h.no_more pre w (post ++ [(.last, outcome)]) (by rw [hwrites, hsplit]; simp) hfailed
    simp at this
  · exact hne rfl

/-! ## Exactly when a failure is the end -/

/-- **Failing writes.** Over a channel of any capacity, with any outcomes of the writes
and any interleaving with the producer: in every state of a run in which no header and
no chunk write fails, nothing is written behind a failed write, and at the writer's end
the error code is the first failure. And of the runs to the writer's end these are the
only ones of which this is true. -/
theorem stops_at_failure_spec (cap : ℕ) (acts : List action) (s : stream)
    (hrun : run step (.start cap) acts = some s) :
    (StepsMeet step WriteSucceeds (.start cap) acts → StopsAtFailure s)
      ∧ (s.pc = .done → StopsAtFailure s → StepsMeet step WriteSucceeds (.start cap) acts) := by
  have hrec : Recorded s := by
    have hstart : Recorded (.start cap) :=
      ⟨fun _ w hw => by simp [stream.start] at hw, fun hpc => by cases hpc⟩
    refine (run_invariant (I := fun s => (Inv s ∧ Framed s) ∧ Recorded s) ?_
      ⟨inv_start cap, hstart⟩ hrun).2
    rintro r a t ⟨hr, hrec⟩ hst
    exact ⟨(step_spec hr hst).1, recorded_step hr.1 hrec hst⟩
  have hiff := property_iff (I := fun s => Inv s ∧ Framed s)
    (Q := fun s => ∀ w ∈ s.writes, w.1 ≠ .last → w.2 = .written)
    (fun _ _ _ hs hst => ⟨(step_spec hs hst).1, written_step hs.1 hst⟩) (inv_start cap) hrun
  have hstart : ∀ w ∈ (stream.start cap).writes, w.1 ≠ .last → w.2 = .written := by
    intro w hw
    simp [stream.start] at hw
  constructor
  · intro hmeet
    exact stopsAtFailure_of_written hrec (hiff.mpr ⟨hstart, hmeet⟩)
  · intro hdone hstops
    exact (hiff.mp (written_of_stopsAtFailure hrec hdone hstops)).2

/-- A chunk that is written, and a last-chunk that is not. -/
def last_fails : List action :=
  [.writer .written, .send { chunked_body := ['a'] }, .writer .written, .writer .written,
    .writer .written, .close, .writer .written, .writer (.failed (.other 0 32) 0)]

/-- The run exists, and the theorem speaks of it. -/
theorem stops_at_failure_spec_last_fails :
    ∃ s, run step (.start 10) last_fails = some s ∧ s.pc = .done
      ∧ (StepsMeet step WriteSucceeds (.start 10) last_fails → StopsAtFailure s)
      ∧ (s.pc = .done → StopsAtFailure s →
          StepsMeet step WriteSucceeds (.start 10) last_fails) := by
  have hend : (run step (.start 10) last_fails).map (fun s => decide (s.pc = .done))
      = some true := by
    decide +kernel
  obtain ⟨s, hrun, hs⟩ := Option.map_eq_some_iff.mp hend
  exact ⟨s, hrun, of_decide_eq_true hs, stops_at_failure_spec 10 last_fails s hrun⟩

/-- The peer is gone when the first of two chunks is written. -/
def first_chunk_fails : List action :=
  [.writer .written, .send { chunked_body := ['a'] }, .send { chunked_body := ['b'] },
    .writer .written, .writer .written, .writer (.failed (.other 0 32) 0), .writer .written,
    .writer .written, .writer .written, .close, .writer .written, .writer .written]

/-- The second chunk and the last-chunk are written all the same, and the session sees no
error. -/
theorem writes_behind_failure :
    (run step (.start 10) first_chunk_fails).map
        (fun s => (s.pc, s.writes.map Prod.snd, s.ec, first_failure s.writes))
      = some (.done, [.written, .failed (.other 0 32) 0, .written, .written], none,
          some (.other 0 32))
    ∧ ¬ ∀ (acts : List action) (s : stream),
        run step (.start 10) acts = some s → StopsAtFailure s := by
  have hend : (run step (.start 10) first_chunk_fails).map
      (fun s => (s.pc, s.writes.map Prod.snd, s.ec, first_failure s.writes))
        = some (.done, [.written, .failed (.other 0 32) 0, .written, .written], none,
          some (.other 0 32)) := by
    decide +kernel
  refine ⟨hend, fun h => ?_⟩
  obtain ⟨s, hrun, hs⟩ := Option.map_eq_some_iff.mp hend
  simp only [Prod.mk.injEq] at hs
  have hec := (h _ s hrun).ec hs.1
  rw [hs.2.2.1, hs.2.2.2] at hec
  cases hec

end CppHttp.WriteErrors
