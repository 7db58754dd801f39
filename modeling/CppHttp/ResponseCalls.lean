/-
The calls of `client/response.hpp` on one response, in any order.

A caller reads the body with `read`, `read_sse` or `read_chunked_encoding`, asks `complete()`
in between, and may `close()` the response at any time, also while a call is suspended in
an operation. `init_parser` has decided about the body: `chunked_` and `sse_` stay as they
are. The transport and the channel of the events are the opponent here, and answer every
operation as they like.

Two results hold against them.

  * `one_reader`. Whatever is called in whatever order, only one kind of operation is ever
    started on the transport, the one for this body. A chunked body is read by one operation,
    whatever comes of it.
  * `complete_is_final`. If `async_read` reads whole messages, `complete()` is final, nothing
    is read behind it, and `read` hands out a body once. It is the last assignment of `done_`
    in `read` that this depends on: it also takes back what `eof` and `close()` have set.
-/
import CppHttp.Errors
import CppHttp.Runs

set_option autoImplicit false

namespace CppHttp.ResponseCalls

open CppHttp.Errors CppHttp.Runs CppHttp.StdString

/-! ## The response -/

/-- The calls that read the body. -/
inductive call
  | read
  | read_sse
  | read_chunked_encoding
  deriving DecidableEq, Repr

/-- What a call returns. -/
inductive outcome
  | value (body : std_string)
  | success
  | failure (ec : error_code)
  deriving DecidableEq, Repr

/-- The operation a call is suspended in. -/
inductive waiting
  | idle
  /-- the `async_read` of `read` -/
  | async_read
  /-- the `async_read` of the private `read_chunked_encoding`, on behalf of a call -/
  | async_read_chunks (c : call)
  /-- the `async_read_until` of `read_sse` -/
  | async_read_until
  /-- `tx.async_send` -/
  | async_send
  deriving DecidableEq, Repr

/-- What is started on the transport. -/
inductive operation
  | read_message
  | read_chunks
  | read_until
  | shutdown
  deriving DecidableEq, Repr

/-- The members of `response` behind `init_parser`, and what has been started and
returned. -/
structure response where
  /-- it has an `ssl_stream_` -/
  secure : Bool
  sse_ : Bool
  chunked_ : Bool
  done_ : Bool
  ec_ : error_code
  pc : waiting
  log : List operation
  returned : List (call × outcome)
  deriving DecidableEq, Repr

/-- A response behind `init_parser`. -/
def response.start (secure sse_ chunked_ : Bool) : response :=
  { secure := secure, sse_ := sse_, chunked_ := chunked_, done_ := false, ec_ := none, pc := .idle
    log := [], returned := [] }

/-- The call returns. -/
def response.finish (s : response) (c : call) (o : outcome) : response :=
  { s with pc := .idle, returned := s.returned ++ [(c, o)] }

/-- The call is suspended in an operation on the transport. -/
def response.wait (s : response) (pc : waiting) (op : operation) : response :=
  { s with pc := pc, log := s.log ++ [op] }

/-! ## Its functions -/

/-- `response::read`, up to its `async_read`. -/
def response.read (s : response) : response :=
  if s.done_ then s.finish .read (.failure (some .eof))
  else if s.chunked_ || s.sse_ then s.finish .read (.failure (some .bad_transfer_encoding))
  else s.wait .async_read .read_message

/-- What is behind that; `is_done` is the parser's, and `body` what has been read since
`body().clear()`. -/
def response.on_read (s : response) (ec : error_code) (body : std_string) (is_done : Bool) :
    response :=
  let s := { s with ec_ := ec }
  match ec with
  | some .need_buffer => s.read
  | some .eof =>
      let s := { s with done_ := true }
      { s with done_ := is_done }.finish .read (.value body)
  | some e => s.finish .read (.failure (some e))
  | none => { s with done_ := is_done }.finish .read (.value body)

/-- The private `read_chunked_encoding`, up to its `async_read`. -/
def response.read_chunks (s : response) (c : call) : response :=
  if s.done_ then s.finish c (.failure (some .eof))
  else if !s.chunked_ then s.finish c (.failure (some .bad_transfer_encoding))
  else s.wait (.async_read_chunks c) .read_chunks

/-- What is behind that. The loop is left at once, with `continue` as well. -/
def response.on_read_chunks (s : response) (c : call) (ec : error_code) : response :=
  let s := { s with ec_ := ec, done_ := true }
  match ec with
  | none => s.finish c .success
  | some .need_buffer => s.finish c (.failure (some .need_buffer))
  | some .eof => s.finish c .success
  | some e => s.finish c (.failure (some e))

/-- `response::read_chunked_encoding`. -/
def response.read_chunked_encoding (s : response) : response :=
  if s.done_ then s.finish .read_chunked_encoding (.failure (some .eof))
  else if !s.chunked_ then
    s.finish .read_chunked_encoding (.failure (some .bad_transfer_encoding))
  else s.read_chunks .read_chunked_encoding

/-- `response::read_chunked_sse`. -/
def response.read_chunked_sse (s : response) : response :=
  if s.done_ then s.finish .read_sse (.failure (some .eof))
  else if !s.sse_ || !s.chunked_ then s.finish .read_sse (.failure (some .bad_transfer_encoding))
  else s.read_chunks .read_sse

/-- The test of `while (!done_)` in `read_sse`, and the next `async_read_until` or the
`return ec_` behind the loop. -/
def response.sse_loop (s : response) : response :=
  if s.done_ then s.finish .read_sse (.failure s.ec_) else s.wait .async_read_until .read_until

/-- `response::read_sse`. -/
def response.read_sse (s : response) : response :=
  if s.done_ then s.finish .read_sse (.failure (some .eof))
  else if !s.sse_ then s.finish .read_sse (.failure (some .bad_transfer_encoding))
  else if s.chunked_ then s.read_chunked_sse
  else s.sse_loop

/-- What is behind `async_read_until`; `event` says whether the block is one. -/
def response.on_read_until (s : response) (ec : error_code) (event : Bool) : response :=
  let s := { s with ec_ := ec }
  match ec with
  | some .need_buffer => s.sse_loop
  | some .eof => { s with done_ := true }.finish .read_sse (.failure (some .eof))
  | some e => s.finish .read_sse (.failure (some e))
  | none => if event then { s with pc := .async_send } else s.sse_loop

/-- What is behind `tx.async_send`. -/
def response.on_send (s : response) (ec : error_code) : response :=
  let s := { s with ec_ := ec }
  match ec with
  | some e => s.finish .read_sse (.failure (some e))
  | none => s.sse_loop

/-- `response::close`. A TLS stream is not shut down. -/
def response.close (s : response) (ec : error_code) : response :=
  let s := if s.secure then s else { s with ec_ := ec, log := s.log ++ [.shutdown] }
  { s with done_ := true }

/-- What the caller and the environment do. -/
inductive action
  | call (c : call)
  | close (ec : error_code)
  | async_read (ec : error_code) (body : std_string) (is_done : Bool)
  | async_read_until (ec : error_code) (event : Bool)
  | async_send (ec : error_code)
  deriving DecidableEq, Repr

/-- The call with this name. -/
def response.invoke (s : response) : call → response
  | .read => s.read
  | .read_sse => s.read_sse
  | .read_chunked_encoding => s.read_chunked_encoding

/-- One step. There is one call at a time; `close()` may come in between. -/
def step (s : response) : action → Option response
  | .call c =>
      match s.pc with
      | .idle => some (s.invoke c)
      | _ => none
  | .close ec => some (s.close ec)
  | .async_read ec body is_done =>
      match s.pc with
      | .async_read => some (s.on_read ec body is_done)
      | .async_read_chunks c => some (s.on_read_chunks c ec)
      | _ => none
  | .async_read_until ec event =>
      match s.pc with
      | .async_read_until => some (s.on_read_until ec event)
      | _ => none
  | .async_send ec =>
      match s.pc with
      | .async_send => some (s.on_send ec)
      | _ => none

/-! ## What a step can do -/

/-- When an operation is started, by the call that is suspended in it. -/
def Starts (s : response) : waiting → operation → Prop
  | .async_read, .read_message => s.chunked_ = false ∧ s.sse_ = false
  | .async_read_chunks _, .read_chunks => s.chunked_ = true ∧ s.pc = .idle
  | .async_read_until, .read_until =>
      s.sse_ = true ∧ s.chunked_ = false ∨ s.pc = .async_read_until ∨ s.pc = .async_send
  | _, _ => False

/-- The steps, by what they do. -/
inductive Step (s : response) : action → response → Prop
  | closes (ec : error_code) : Step s (.close ec) (s.close ec)
  /-- A call that starts nothing: on a complete response, or on another kind of body. -/
  | refuses (c : call) (e : error) (hpc : s.pc = .idle) (h : s.done_ = true → e = .eof) :
      Step s (.call c) (s.finish c (.failure (some e)))
  | starts (a : action) (ec : error_code) (pc : waiting) (op : operation)
      (hdone : s.done_ = false) (h : Starts s pc op) :
      Step s a ({ s with ec_ := ec }.wait pc op)
  | reads (ec : error_code) (body : std_string) (is_done : Bool) (hpc : s.pc = .async_read)
      (hec : ec = none ∨ ec = some .eof) :
      Step s (.async_read ec body is_done)
        ({ s with ec_ := ec, done_ := is_done }.finish .read (.value body))
  | reads_chunks (ec : error_code) (body : std_string) (is_done : Bool) (c : call) (o : outcome)
      (hpc : s.pc = .async_read_chunks c) (ho : ∀ b, o ≠ .value b) :
      Step s (.async_read ec body is_done) ({ s with ec_ := ec, done_ := true }.finish c o)
  | fails (a : action) (ec left : error_code) (done_ : Bool) (c : call) (hpc : s.pc ≠ .idle)
      (hchunks : ∀ c, s.pc ≠ .async_read_chunks c) (h : done_ = s.done_ ∨ done_ = true) :
      Step s a ({ s with ec_ := ec, done_ := done_ }.finish c (.failure left))
  | sends (ec : error_code) (event : Bool) (hpc : s.pc = .async_read_until) :
      Step s (.async_read_until ec event) { s with ec_ := ec, pc := .async_send }

section Spec

variable {s : response}

/-- The private `read_chunked_encoding`, behind the tests of the call. -/
theorem read_chunks_spec {c : call} (hpc : s.pc = .idle) (hdone : s.done_ = false)
    (hchunked : s.chunked_ = true) : Step s (.call c) (s.read_chunks c) := by
  simp only [response.read_chunks, hdone, hchunked, Bool.false_eq_true, if_false, Bool.not_true]
  exact .starts _ s.ec_ _ _ hdone ⟨hchunked, hpc⟩

theorem invoke_spec (hpc : s.pc = .idle) (c : call) : Step s (.call c) (s.invoke c) := by
  by_cases hdone : s.done_ = true
  · -- every call returns `eof`
    have hrefused : s.invoke c = s.finish c (.failure (some .eof)) := by
      cases c <;> exact if_pos hdone
    rw [hrefused]
    exact .refuses c .eof hpc fun _ => rfl
  · have hother : Step s (.call c) (s.finish c (.failure (some .bad_transfer_encoding))) :=
      .refuses c _ hpc fun h => absurd h hdone
    have hopen : s.done_ = false := by simpa using hdone
    cases c with
    | read =>
        rw [response.invoke, response.read, if_neg hdone]
        by_cases hkind : (s.chunked_ || s.sse_) = true
        · rw [if_pos hkind]
          exact hother
        · rw [if_neg hkind]
          rw [Bool.or_eq_true, not_or, Bool.not_eq_true, Bool.not_eq_true] at hkind
          exact .starts _ s.ec_ _ _ hopen hkind
    | read_sse =>
        rw [response.invoke, response.read_sse, if_neg hdone]
        cases hsse : s.sse_ with
        | false => exact hother
        | true =>
            cases hchunked : s.chunked_ with
            | false =>
                simp only [response.sse_loop, hdone]
                exact .starts _ s.ec_ _ _ hopen (.inl ⟨hsse, hchunked⟩)
            | true =>
                simp only [response.read_chunked_sse, hdone, hsse, hchunked]
                exact read_chunks_spec hpc hopen hchunked
    | read_chunked_encoding =>
        rw [response.invoke, response.read_chunked_encoding, if_neg hdone]
        cases hchunked : s.chunked_ with
        | false => exact hother
        | true => exact read_chunks_spec hpc hopen hchunked

/-- The loop of `read_sse`, behind one of its two operations. -/
theorem sse_loop_spec (hpc : s.pc = .async_read_until ∨ s.pc = .async_send) (a : action)
    (ec : error_code) : Step s a (response.sse_loop { s with ec_ := ec }) := by
  have hidle : s.pc ≠ .idle ∧ ∀ c, s.pc ≠ .async_read_chunks c := by
    rcases hpc with hpc | hpc <;> simp [hpc]
  unfold response.sse_loop
  by_cases hdone : s.done_ = true
  · rw [if_pos hdone]
    exact .fails a ec ec s.done_ .read_sse hidle.1 hidle.2 (.inl rfl)
  · rw [if_neg hdone]
    exact .starts a ec _ _ (by simpa using hdone) (.inr hpc)

/-- A call is left with an error. -/
theorem fails_spec {c : call} (hpc : s.pc ≠ .idle) (hchunks : ∀ c, s.pc ≠ .async_read_chunks c)
    (a : action) (ec left : error_code) :
    Step s a (response.finish { s with ec_ := ec } c (.failure left)) :=
  .fails a ec left s.done_ c hpc hchunks (.inl rfl)

theorem on_read_spec (hpc : s.pc = .async_read) (hkind : s.chunked_ = false ∧ s.sse_ = false)
    (ec : error_code) (body : std_string) (is_done : Bool) :
    Step s (.async_read ec body is_done) (s.on_read ec body is_done) := by
  have hidle : s.pc ≠ .idle ∧ ∀ c, s.pc ≠ .async_read_chunks c := by simp [hpc]
  have hfails := fun left =>
    @fails_spec s .read hidle.1 hidle.2 (.async_read ec body is_done) ec left
  cases ec with
  | none => exact .reads none body is_done hpc (.inl rfl)
  | some e =>
      cases e with
      | eof => exact .reads _ body is_done hpc (.inr rfl)
      | need_buffer =>
          -- `read` is called again, and finds the same kind of body
          have hno : ¬ (s.chunked_ || s.sse_) = true := by simp [hkind]
          show Step s _ (response.read { s with ec_ := some .need_buffer })
          unfold response.read
          by_cases hdone : s.done_ = true
          · rw [if_pos hdone]
            exact hfails _
          · rw [if_neg hdone, if_neg hno]
            exact .starts _ _ _ _ (by simpa using hdone) hkind
      | bad_transfer_encoding => exact hfails _
      | channel_closed => exact hfails _
      | other category value => exact hfails _

theorem on_read_chunks_spec {c : call} (hpc : s.pc = .async_read_chunks c) (ec : error_code)
    (body : std_string) (is_done : Bool) :
    Step s (.async_read ec body is_done) (s.on_read_chunks c ec) := by
  have hends := fun o ho => @Step.reads_chunks s ec body is_done c o hpc ho
  unfold response.on_read_chunks
  dsimp only
  split
  · exact hends _ (by simp)
  · exact hends _ (by simp)
  · exact hends _ (by simp)
  · exact hends _ (by simp)

theorem on_read_until_spec (hpc : s.pc = .async_read_until) (ec : error_code) (event : Bool) :
    Step s (.async_read_until ec event) (s.on_read_until ec event) := by
  have hidle : s.pc ≠ .idle ∧ ∀ c, s.pc ≠ .async_read_chunks c := by simp [hpc]
  unfold response.on_read_until
  dsimp only
  split
  · exact sse_loop_spec (.inl hpc) _ _
  · exact .fails _ _ _ true .read_sse hidle.1 hidle.2 (.inr rfl)
  · exact fails_spec hidle.1 hidle.2 _ _ _
  · split
    · exact .sends _ event hpc
    · exact sse_loop_spec (.inl hpc) _ _

theorem on_send_spec (hpc : s.pc = .async_send) (ec : error_code) :
    Step s (.async_send ec) (s.on_send ec) := by
  have hidle : s.pc ≠ .idle ∧ ∀ c, s.pc ≠ .async_read_chunks c := by simp [hpc]
  unfold response.on_send
  dsimp only
  split
  · exact fails_spec hidle.1 hidle.2 _ _ _
  · exact sse_loop_spec (.inr hpc) _ _

end Spec

/-- The call that is suspended is one for this body. -/
def waiting.Fits (sse_ chunked_ : Bool) : waiting → Prop
  | .idle => True
  | .async_read => chunked_ = false ∧ sse_ = false
  | .async_read_chunks _ => chunked_ = true
  | .async_read_until => sse_ = true ∧ chunked_ = false
  | .async_send => sse_ = true ∧ chunked_ = false

/-- From a state whose call fits its body, every step is one of the steps above. -/
theorem step_spec {s t : response} {a : action} (hfits : s.pc.Fits s.sse_ s.chunked_)
    (hst : step s a = some t) : Step s a t := by
  cases a with
  | call c =>
      simp only [step] at hst
      split at hst
      · next hpc => exact Option.some.inj hst ▸ invoke_spec hpc c
      · cases hst
  | close ec => exact Option.some.inj hst ▸ .closes ec
  | async_read ec body is_done =>
      simp only [step] at hst
      split at hst
      · next hpc =>
          rw [hpc] at hfits
          exact Option.some.inj hst ▸ on_read_spec hpc hfits ec body is_done
      · next c hpc => exact Option.some.inj hst ▸ on_read_chunks_spec hpc ec body is_done
      · cases hst
  | async_read_until ec event =>
      simp only [step] at hst
      split at hst
      · next hpc => exact Option.some.inj hst ▸ on_read_until_spec hpc ec event
      · cases hst
  | async_send ec =>
      simp only [step] at hst
      split at hst
      · next hpc => exact Option.some.inj hst ▸ on_send_spec hpc ec
      · cases hst

/-! ## One kind of operation -/

/-- The operation that reads this body. -/
def reader (sse_ chunked_ : Bool) : operation :=
  if chunked_ then .read_chunks else if sse_ then .read_until else .read_message

/-- What holds in every state: the suspended call and everything that was started are for
this body, and a chunked body is being read or over once its read has been started. -/
structure Reading (s : response) : Prop where
  fits : s.pc.Fits s.sse_ s.chunked_
  started : ∀ op ∈ s.log, op = .shutdown ∨ op = reader s.sse_ s.chunked_
  once : s.chunked_ = true → s.log.count .read_chunks = 0
    ∨ s.log.count .read_chunks = 1 ∧ (s.done_ = true ∨ ∃ c, s.pc = .async_read_chunks c)

theorem reading_start (secure sse_ chunked_ : Bool) : Reading (.start secure sse_ chunked_) where
  fits := trivial
  started := by
    intro op hop
    cases hop
  once := fun _ => .inl rfl

/-- A call returns: the log stays as it is. -/
theorem reading_finish {s : response} (h : Reading s) {ec : error_code} {done_ : Bool} (c : call)
    (o : outcome) (hdone : s.done_ = true → s.chunked_ = true → done_ = true)
    (hchunks : (∃ c, s.pc = .async_read_chunks c) → done_ = true) :
    Reading (response.finish { s with ec_ := ec, done_ := done_ } c o) where
  fits := trivial
  started := h.started
  once := by
    intro hchunked
    rcases h.once hchunked with hzero | ⟨hone, hdone' | hpc⟩
    · exact .inl hzero
    · exact .inr ⟨hone, .inl (hdone hdone' hchunked)⟩
    · exact .inr ⟨hone, .inl (hchunks hpc)⟩

/-- `close()` leaves all but the log as it is, and the response complete. -/
theorem close_spec (s : response) (ec : error_code) :
    (s.close ec).pc = s.pc ∧ (s.close ec).sse_ = s.sse_ ∧ (s.close ec).chunked_ = s.chunked_
      ∧ (s.close ec).done_ = true ∧ (s.close ec).returned = s.returned
      ∧ ((s.close ec).log = s.log ∨ (s.close ec).log = s.log ++ [.shutdown]) := by
  unfold response.close
  cases s.secure with
  | true => exact ⟨rfl, rfl, rfl, rfl, rfl, .inl rfl⟩
  | false => exact ⟨rfl, rfl, rfl, rfl, rfl, .inr rfl⟩

theorem reading_close {s : response} (h : Reading s) (ec : error_code) :
    Reading (s.close ec) := by
  obtain ⟨hpc, hsse, hchunked, hdone, -, hlog⟩ := close_spec s ec
  have hcount : (s.close ec).log.count .read_chunks = s.log.count .read_chunks := by
    rcases hlog with hlog | hlog
    · rw [hlog]
    · rw [hlog, List.count_append]
      rfl
  constructor
  · rw [hpc, hsse, hchunked]
    exact h.fits
  · rw [hsse, hchunked]
    intro op hop
    rcases hlog with hlog | hlog
    · exact h.started op (hlog ▸ hop)
    · rw [hlog] at hop
      rcases List.mem_append.mp hop with hop | hop
      · exact h.started op hop
      · exact .inl (List.mem_singleton.mp hop)
  · rw [hchunked, hcount]
    intro hc
    exact (h.once hc).imp_right fun hone => ⟨hone.1, .inl hdone⟩

/-- An operation is started: it is the one for the body, and the first on a chunked one. -/
theorem reading_wait {s : response} (h : Reading s) (hdone : s.done_ = false) {ec : error_code}
    {pc : waiting} {op : operation} (hstarts : Starts s pc op) :
    Reading (response.wait { s with ec_ := ec } pc op) := by
  have hfits : pc.Fits s.sse_ s.chunked_ ∧ op = reader s.sse_ s.chunked_
      ∧ (s.chunked_ = true → s.pc = .idle ∧ ∃ c, pc = .async_read_chunks c) := by
    unfold Starts at hstarts
    split at hstarts
    · obtain ⟨hchunked, hsse⟩ := hstarts
      simp [waiting.Fits, reader, hchunked, hsse]
    · obtain ⟨hchunked, hpc⟩ := hstarts
      simp [waiting.Fits, reader, hchunked, hpc]
    · -- the loop of `read_sse` goes on only where it has begun
      have hkind : s.sse_ = true ∧ s.chunked_ = false := by
        have hf := h.fits
        rcases hstarts with hkind | hpc | hpc
        · exact hkind
        · rwa [hpc] at hf
        · rwa [hpc] at hf
      simp [waiting.Fits, reader, hkind.1, hkind.2]
    · cases hstarts
  obtain ⟨hpcfits, hop, hchunks⟩ := hfits
  refine ⟨hpcfits, ?_, ?_⟩
  · intro op' hop'
    rcases List.mem_append.mp hop' with hmem | hmem
    · exact h.started op' hmem
    · exact .inr ((List.mem_singleton.mp hmem).trans hop)
  · intro hchunked
    have hc : s.chunked_ = true := hchunked
    obtain ⟨hidle, c, rfl⟩ := hchunks hc
    have hreads : op = .read_chunks := by rw [hop, reader, if_pos hc]
    -- a chunked read has set `done_`, or is suspended still
    have hzero : s.log.count .read_chunks = 0 := by
      rcases h.once hc with hzero | ⟨-, hd | ⟨c, hpc⟩⟩
      · exact hzero
      · rw [hdone] at hd
        cases hd
      · rw [hidle] at hpc
        cases hpc
    have hone : (s.log ++ [op]).count .read_chunks = 1 := by
      rw [List.count_append, hzero, hreads]
      rfl
    exact .inr ⟨hone, .inr ⟨c, rfl⟩⟩

theorem reading_step {s t : response} {a : action} (h : Reading s) (hst : step s a = some t) :
    Reading t := by
  cases step_spec h.fits hst with
  | closes ec => exact reading_close h ec
  | refuses c e hpc _ =>
      exact reading_finish h c _ (fun hdone _ => hdone) fun ⟨c, hc⟩ => by simp [hpc] at hc
  | starts a ec pc op hdone hstarts => exact reading_wait h hdone hstarts
  | reads ec body is_done hpc hec =>
      have hfits := h.fits
      rw [hpc] at hfits
      exact reading_finish h _ _ (fun _ hchunked => by simp [hfits.1] at hchunked)
        fun ⟨c, hc⟩ => by simp [hpc] at hc
  | reads_chunks ec body is_done c o hpc _ =>
      exact reading_finish h c o (fun _ _ => rfl) fun _ => rfl
  | fails a ec left done_ c hpc hchunks hdone =>
      refine reading_finish h c _ ?_ fun ⟨c, hc⟩ => absurd hc (hchunks c)
      intro hs _
      rcases hdone with rfl | rfl
      · exact hs
      · rfl
  | sends ec event hpc =>
      have hfits := h.fits
      rw [hpc] at hfits
      refine ⟨hfits, h.started, ?_⟩
      intro hchunked
      have hno : s.chunked_ = false := hfits.2
      have hyes : s.chunked_ = true := hchunked
      rw [hno] at hyes
      cases hyes

/-- What a step does not change. -/
theorem step_kind {s t : response} {a : action} (h : Reading s) (hst : step s a = some t) :
    t.sse_ = s.sse_ ∧ t.chunked_ = s.chunked_ := by
  cases step_spec h.fits hst with
  | closes ec => exact ⟨(close_spec s ec).2.1, (close_spec s ec).2.2.1⟩
  | refuses c e hpc _ => exact ⟨rfl, rfl⟩
  | starts a ec pc op hdone hstarts => exact ⟨rfl, rfl⟩
  | reads ec body is_done hpc hec => exact ⟨rfl, rfl⟩
  | reads_chunks ec body is_done c o hpc _ => exact ⟨rfl, rfl⟩
  | fails a ec left done_ c hpc hchunks hdone => exact ⟨rfl, rfl⟩
  | sends ec event hpc => exact ⟨rfl, rfl⟩

/-- **One reader.** Behind `init_parser`, whichever of the reading calls are made one behind the
other, with `close()` at any point, and whatever the operations report: all that is started on
the transport of a response is the one operation that reads its kind of body, and the
shutdown; and on a chunked body that operation is started once at most. -/
theorem one_reader (secure sse_ chunked_ : Bool) (acts : List action) (s : response)
    (hrun : run step (.start secure sse_ chunked_) acts = some s) :
    (∀ op ∈ s.log, op = .shutdown ∨ op = reader sse_ chunked_)
      ∧ (chunked_ = true → s.log.count .read_chunks ≤ 1) := by
  have hinv : Reading s ∧ s.sse_ = sse_ ∧ s.chunked_ = chunked_ := by
    refine run_invariant (I := fun s => Reading s ∧ s.sse_ = sse_ ∧ s.chunked_ = chunked_) ?_
      ⟨reading_start secure sse_ chunked_, rfl, rfl⟩ hrun
    rintro s a t ⟨h, hsse, hchunked⟩ hst
    obtain ⟨hsse', hchunked'⟩ := step_kind h hst
    exact ⟨reading_step h hst, hsse'.trans hsse, hchunked'.trans hchunked⟩
  obtain ⟨h, rfl, rfl⟩ := hinv
  refine ⟨h.started, ?_⟩
  intro hchunked
  rcases h.once hchunked with hzero | ⟨hone, -⟩
  · omega
  · omega

/-- A chunked event stream, closed while it is read, and called once more. -/
def closed_stream : List action :=
  [.call .read, .call .read_sse, .close none, .async_read (some .need_buffer) [] false,
    .call .read_chunked_encoding]

theorem one_reader_closed_stream :
    ∃ s, run step (.start false true true) closed_stream = some s
      ∧ (∀ op ∈ s.log, op = .shutdown ∨ op = reader true true)
      ∧ (true = true → s.log.count .read_chunks ≤ 1) := by
  obtain ⟨s, hs⟩ := Option.isSome_iff_exists.mp (show (run step (.start false true true)
    closed_stream).isSome from by decide)
  exact ⟨s, hs, one_reader false true true closed_stream s hs⟩

/-! ## Being complete -/

/-- A read of a message is reported as done only if the parser is. `http::async_read` reads
up to the end of the message. -/
def ReadsWhole (s : response) : action → Prop
  | .async_read ec _ is_done =>
      s.pc = .async_read → (ec = none ∨ ec = some .eof) → is_done = true
  | _ => True

instance (s : response) (a : action) : Decidable (ReadsWhole s a) :=
  match a with
  | .async_read ec _ is_done =>
      inferInstanceAs
        (Decidable (s.pc = .async_read → (ec = none ∨ ec = some .eof) → is_done = true))
  | .call _ => isTrue trivial
  | .close _ => isTrue trivial
  | .async_read_until _ _ => isTrue trivial
  | .async_send _ => isTrue trivial

/-- The calls that are suspended. -/
def waiting.pending (pc : waiting) : ℕ := if pc = .idle then 0 else 1

/-- A call on a complete response. -/
def refusal (c : call) : call × outcome := (c, .failure (some .eof))

/-- What can come behind a complete response: it is still complete, nothing but the shutdown
is started, and but for the call that was suspended all calls return `eof`. -/
structure Over (s t : response) : Prop where
  done_ : t.done_ = true
  log : ∃ n, t.log = s.log ++ List.replicate n .shutdown
  returned : t.pc ≠ .idle ∧ s.pc ≠ .idle ∧ t.returned = s.returned
    ∨ t.pc = .idle ∧ ∃ (rs : List (call × outcome)) (cs : List call), rs.length = s.pc.pending
      ∧ t.returned = s.returned ++ rs ++ cs.map refusal

theorem over_self {s : response} (h : s.done_ = true) : Over s s where
  done_ := h
  log := ⟨0, (List.append_nil _).symm⟩
  returned := by
    by_cases hpc : s.pc = .idle
    · right
      refine ⟨hpc, [], [], ?_, by simp⟩
      rw [waiting.pending, if_pos hpc]
      rfl
    · exact .inl ⟨hpc, hpc, rfl⟩

/-- The suspended call returns. -/
theorem over_finish {s t : response} (h : Over s t) (hpc : t.pc ≠ .idle) {ec : error_code}
    {done_ : Bool} (hdone : done_ = true) (c : call) (o : outcome) :
    Over s (response.finish { t with ec_ := ec, done_ := done_ } c o) where
  done_ := hdone
  log := h.log
  returned := by
    rcases h.returned with ⟨-, hs, hreturned⟩ | ⟨hidle, -⟩
    · right
      refine ⟨rfl, [(c, o)], [], ?_, ?_⟩
      · rw [waiting.pending, if_neg hs]
        rfl
      · show t.returned ++ [(c, o)] = _
        rw [hreturned]
        simp
    · exact absurd hidle hpc

theorem over_step {s t u : response} {a : action} (hreading : Reading t) (h : Over s t)
    (hwhole : ReadsWhole t a) (hst : step t a = some u) : Over s u := by
  cases step_spec hreading.fits hst with
  | closes ec =>
      obtain ⟨hpc, -, -, hdone, hreturned, hlog⟩ := close_spec t ec
      obtain ⟨n, hn⟩ := h.log
      refine ⟨hdone, ?_, ?_⟩
      · rcases hlog with hlog | hlog
        · exact ⟨n, hlog.trans hn⟩
        · refine ⟨n + 1, ?_⟩
          rw [hlog, hn, List.append_assoc, List.replicate_succ']
      · rw [hpc, hreturned]
        exact h.returned
  | refuses c e hpc he =>
      obtain rfl := he h.done_
      refine ⟨h.done_, h.log, .inr ⟨rfl, ?_⟩⟩
      rcases h.returned with ⟨hno, -⟩ | ⟨-, rs, cs, hrs, hreturned⟩
      · exact absurd hpc hno
      · refine ⟨rs, cs ++ [c], hrs, ?_⟩
        show t.returned ++ [refusal c] = _
        rw [hreturned, List.map_append, List.append_assoc]
        rfl
  | starts a ec pc op hdone hstarts =>
      -- every call has tested `done_` before it starts anything
      rw [h.done_] at hdone
      cases hdone
  | reads ec body is_done hpc hec =>
      exact over_finish h (by simp [hpc]) (hwhole hpc hec) _ _
  | reads_chunks ec body is_done c o hpc _ => exact over_finish h (by simp [hpc]) rfl _ _
  | fails a ec left done_ c hpc hchunks hdone =>
      refine over_finish h hpc ?_ _ _
      rcases hdone with rfl | rfl
      · exact h.done_
      · rfl
  | sends ec event hpc =>
      refine ⟨h.done_, h.log, .inl ⟨by simp, ?_⟩⟩
      rcases h.returned with ⟨-, hs, hreturned⟩ | ⟨hidle, -⟩
      · exact ⟨hs, hreturned⟩
      · rw [hpc] at hidle
        cases hidle

/-- A body that `read` has handed out. -/
def is_value (r : call × outcome) : Bool :=
  match r.2 with
  | .value _ => true
  | _ => false

/-- No body has been handed out, or one, and then the response is complete and no call is
suspended. -/
def HandedOut (s : response) : Prop :=
  s.returned.countP is_value = 0
    ∨ s.returned.countP is_value = 1 ∧ s.done_ = true ∧ s.pc = .idle

/-- A call that returns no body. -/
theorem handedOut_finish {s : response} (h : HandedOut s) {ec : error_code} {done_ : Bool}
    (hdone : s.pc = .idle → s.done_ = true → done_ = true) (c : call) {o : outcome}
    (ho : ∀ b, o ≠ .value b) :
    HandedOut (response.finish { s with ec_ := ec, done_ := done_ } c o) := by
  have hcount : (s.returned ++ [(c, o)]).countP is_value = s.returned.countP is_value := by
    have hno : is_value (c, o) = false := by
      cases o with
      | value b => exact absurd rfl (ho b)
      | success => rfl
      | failure ec => rfl
    rw [List.countP_append, List.countP_singleton, hno]
    rfl
  rcases h with hzero | ⟨hone, hd, hpc⟩
  · exact .inl (hcount.trans hzero)
  · exact .inr ⟨hcount.trans hone, hdone hpc hd, rfl⟩

theorem handedOut_step {s t : response} {a : action} (hreading : Reading s) (h : HandedOut s)
    (hwhole : ReadsWhole s a) (hst : step s a = some t) : HandedOut t := by
  cases step_spec hreading.fits hst with
  | closes ec =>
      obtain ⟨hpc, -, -, hdone, hreturned, -⟩ := close_spec s ec
      unfold HandedOut
      rw [hreturned, hpc]
      exact h.imp_right fun hone => ⟨hone.1, hdone, hone.2.2⟩
  | refuses c e hpc he => exact handedOut_finish h (fun _ hd => hd) c (by simp)
  | starts a ec pc op hdone hstarts =>
      rcases h with hzero | ⟨-, hd, -⟩
      · exact .inl hzero
      · rw [hdone] at hd
        cases hd
  | reads ec body is_done hpc hec =>
      rcases h with hzero | ⟨-, -, hidle⟩
      · -- the first body, with which the response is complete
        refine .inr ⟨?_, hwhole hpc hec, rfl⟩
        show (s.returned ++ [(call.read, outcome.value body)]).countP is_value = 1
        rw [List.countP_append, hzero]
        rfl
      · rw [hpc] at hidle
        cases hidle
  | reads_chunks ec body is_done c o hpc ho => exact handedOut_finish h (fun _ _ => rfl) c ho
  | fails a ec left done_ c hpc hchunks hdone =>
      exact handedOut_finish h (fun hidle => absurd hidle hpc) c (by simp)
  | sends ec event hpc =>
      rcases h with hzero | ⟨-, -, hidle⟩
      · exact .inl hzero
      · rw [hpc] at hidle
        cases hidle

/-- **Being complete is final**, if no read of a message is reported as done before the parser
is: behind `init_parser`, for every sequence of the reading calls one behind the other, of
their operations and of `close()`, and every point in it at which `complete()` is true, it is
true from there on, nothing but the shutdown is started, and but for a call
that was suspended all calls return `eof`. In the whole sequence `read` hands out one body
at most. -/
theorem complete_is_final (secure sse_ chunked_ : Bool) (before after : List action)
    (s t : response) (hbefore : run step (.start secure sse_ chunked_) before = some s)
    (hafter : run step s after = some t)
    (hwhole : StepsMeet step ReadsWhole (.start secure sse_ chunked_) before)
    (hwhole' : StepsMeet step ReadsWhole s after) :
    (s.done_ = true → Over s t) ∧ t.returned.countP is_value ≤ 1 := by
  have hstep : ∀ s a t, Reading s ∧ HandedOut s → ReadsWhole s a → step s a = some t →
      Reading t ∧ HandedOut t :=
    fun s a t h hw hst => ⟨reading_step h.1 hst, handedOut_step h.1 h.2 hw hst⟩
  have hs := run_invariant_of_meets hstep
    ⟨reading_start secure sse_ chunked_, .inl rfl⟩ hwhole hbefore
  have ht := run_invariant_of_meets hstep hs hwhole' hafter
  constructor
  · intro hdone
    have hover : Reading t ∧ Over s t := run_invariant_of_meets (I := fun t => Reading t ∧ Over s t)
      (fun t a u h hw hst => ⟨reading_step h.1 hst, over_step h.1 h.2 hw hst⟩)
      ⟨hs.1, over_self hdone⟩ hwhole' hafter
    exact hover.2
  · rcases ht.2 with hzero | ⟨hone, -⟩
    · omega
    · omega

/-- A body that is read in two operations. -/
def one_body : List action :=
  [.call .read, .async_read (some .need_buffer) [] false, .async_read none ['a'] true]

/-- What is called behind that. -/
def calls_behind : List action := [.close none, .call .read, .call .read_sse]

theorem complete_is_final_one_body :
    ∃ s t, run step (.start false false false) one_body = some s
      ∧ run step s calls_behind = some t ∧ s.done_ = true
      ∧ (s.done_ = true → Over s t) ∧ t.returned.countP is_value ≤ 1 :=
  ⟨_, _, rfl, rfl, rfl, complete_is_final false false false one_body calls_behind _ _ rfl rfl
    (by decide) (by decide)⟩

/-- A read that `close()` has overtaken and that is reported as done before the parser is:
the response is not complete any more. -/
example : (run step (.start false false false)
    [.call .read, .close none, .async_read (some .eof) [] false]).map response.done_
      = some false := by
  decide

end CppHttp.ResponseCalls
