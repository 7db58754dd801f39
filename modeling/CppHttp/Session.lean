/-
`server::do_session`: the requests of one connection.

A session is a coroutine with three places to wait: in `async_read`, in the handler
that `dispatch_request` calls, and in `async_write`. `session_pc` names them, and the
environment moves the session on: it delivers a request or an error, it runs the
handler in some world, it completes the write. `trace` records what a peer and a reader
of the code can see of it.

Two things are settled about every run. Whether the session goes on behind a response
is decided by comparing the response's `Connection` field with the text `keep-alive`;
`goes_on_iff_spelled_out` says for which responses that is what their headers promise.
And whether a delivered request is answered depends on the target, the routes and the
handler: a target that Boost.URL refuses, a regex of a route that throws on the path, a
handler that throws, one that leaves an error code, and one whose response Beast refuses
to send all end the session without a response. `answered_iff` says that nothing else
does, and that no request is answered twice.
-/
import Mathlib.Data.List.Chain
import CppHttp.Runs
import CppHttp.Server

set_option autoImplicit false

namespace CppHttp.Session

open CppHttp.Errors CppHttp.HttpMessage CppHttp.Matcher CppHttp.Request CppHttp.Runs
  CppHttp.Server CppHttp.ServerResponse CppHttp.StdString

/-! ## The session -/

/-- Where the coroutine waits. -/
inductive session_pc
  /-- in `async_read` -/
  | reading
  /-- a request has been read; its handler runs -/
  | handling (req : request_message)
  /-- in `async_write` -/
  | writing (rep : reply)
  /-- behind the loop -/
  | ended
  /-- left by an exception, which nobody looks at -/
  | raised

/-- What the session does. -/
inductive event
  | reads
  | delivered (req : request_message)
  | wrote (res : response) (ec : error_code)
  | ended
  | raised

/-- A session. -/
structure session where
  pc : session_pc
  ec : error_code
  trace : List event

/-- Before the first request. -/
def session.start : session := { pc := .reading, ec := none, trace := [.reads] }

/-- What the environment does. -/
inductive action (ω : Type)
  /-- `async_read` completes -/
  | read (arrived : Except error request_message)
  /-- the handler runs in this world -/
  | handle (world : ω)
  /-- `async_write` completes -/
  | write (ec : error_code)

variable {L : libraries} {ω : Type}

/-- `response.header_cref()[field::connection] == "keep-alive"`. -/
def says_keep_alive (res : response) : Bool :=
  res.header_cref.fields.get connection == keep_alive_token

/-- `async_read` and the test behind it. -/
def session.on_read (s : session) : Except error request_message → session
  | .error e => { pc := .ended, ec := some e, trace := s.trace ++ [.ended] }
  | .ok req => { pc := .handling req, ec := none, trace := s.trace ++ [.delivered req] }

/-- The request object, `dispatch_request`, and the test behind it. -/
def session.on_handle (srv : server L ω) (s : session) (req : request_message) (world : ω) :
    session :=
  match request.make L.parse_url req with
  | none => { s with pc := .raised, trace := s.trace ++ [.raised] }
  | some request_wrapper =>
      match srv.dispatch_request request_wrapper s.ec world with
      | (none, ec) => { pc := .raised, ec := ec, trace := s.trace ++ [.raised] }
      | (some _, some e) => { pc := .ended, ec := some e, trace := s.trace ++ [.ended] }
      | (some rep, none) => { s with pc := .writing rep, ec := none }

/-- `async_write` and the two tests behind it. -/
def session.on_write (s : session) (res : response) (ec : error_code) : session :=
  if res.refused then { s with pc := .raised, trace := s.trace ++ [.raised] }
  else if ec.isSome then
    { pc := .ended, ec := ec, trace := s.trace ++ [.wrote res ec, .ended] }
  else if !says_keep_alive res then
    { pc := .ended, ec := ec, trace := s.trace ++ [.wrote res ec, .ended] }
  else { pc := .reading, ec := ec, trace := s.trace ++ [.wrote res ec, .reads] }

/-- One step of `server::do_session`. -/
def do_session (srv : server L ω) (s : session) : action ω → Option session
  | .read arrived =>
      match s.pc with
      | .reading => some (s.on_read arrived)
      | _ => none
  | .handle world =>
      match s.pc with
      | .handling req => some (s.on_handle srv req world)
      | _ => none
  | .write ec =>
      match s.pc with
      | .writing rep => some (s.on_write (rep.response L) ec)
      | _ => none

/-! ## What every state looks like -/

/-- The events that end a request's turn: the session reads again or is over. -/
def event.ends_turn : event → Bool
  | .reads => true
  | .ended => true
  | .raised => true
  | _ => false

/-- A response is written. -/
def event.is_wrote : event → Bool
  | .wrote _ _ => true
  | _ => false

/-- What can stand behind an event: a written response ends the turn, and no request is
delivered behind a request. -/
def Ordered : event → event → Prop
  | .wrote _ _, next => next.ends_turn = true
  | .delivered _, next => next.ends_turn = true ∨ next.is_wrote = true
  | _, _ => True

/-- The last event, by the place the session waits in. -/
def session_pc.LastEvent : session_pc → event → Prop
  | .reading, e => e = .reads
  | .handling req, e => e = .delivered req
  | .writing _, e => ∃ req, e = .delivered req
  | .ended, e => e = .ended
  | .raised, e => e = .raised

/-- What holds in every state. -/
structure Inv (s : session) : Prop where
  last : ∃ pre e, s.trace = pre ++ [e] ∧ s.pc.LastEvent e
  clear : ∀ req, s.pc = .handling req → s.ec = none
  ordered : s.trace.IsChain Ordered

theorem inv_start : Inv .start where
  last := ⟨[], .reads, rfl, rfl⟩
  clear := by intro req h; cases h
  ordered := List.isChain_singleton _

theorem isChain_concat_iff {R : event → event → Prop} {pre : List event} {e x : event} :
    (pre ++ [e] ++ [x]).IsChain R ↔ (pre ++ [e]).IsChain R ∧ R e x := by
  rw [List.append_assoc, List.singleton_append, List.isChain_append_cons_cons]
  simp

theorem isChain_concat_two_iff {R : event → event → Prop} {pre : List event} {e x y : event} :
    (pre ++ [e] ++ [x, y]).IsChain R ↔ (pre ++ [e]).IsChain R ∧ R e x ∧ R x y := by
  rw [List.append_assoc, List.singleton_append, List.isChain_append_cons_cons]
  simp

theorem do_session_cases {srv : server L ω} {s t : session} {a : action ω}
    (hst : do_session srv s a = some t) :
    (∃ arrived, a = .read arrived ∧ s.pc = .reading ∧ t = s.on_read arrived)
      ∨ (∃ world req, a = .handle world ∧ s.pc = .handling req ∧ t = s.on_handle srv req world)
      ∨ (∃ ec rep, a = .write ec ∧ s.pc = .writing rep ∧ t = s.on_write (rep.response L) ec) := by
  cases a with
  | read arrived =>
      simp only [do_session] at hst
      split at hst
      · next hpc => exact .inl ⟨arrived, rfl, hpc, (Option.some.inj hst).symm⟩
      · cases hst
  | handle world =>
      simp only [do_session] at hst
      split at hst
      · next req hpc => exact .inr (.inl ⟨world, req, rfl, hpc, (Option.some.inj hst).symm⟩)
      · cases hst
  | write ec =>
      simp only [do_session] at hst
      split at hst
      · next rep hpc => exact .inr (.inr ⟨ec, rep, rfl, hpc, (Option.some.inj hst).symm⟩)
      · cases hst

/-- What the completed read does: it delivers a request or ends the session. -/
theorem on_read_spec (s : session) (arrived : Except error request_message) :
    ∃ pc ec e, s.on_read arrived = { pc := pc, ec := ec, trace := s.trace ++ [e] }
      ∧ pc.LastEvent e ∧ (∀ req, pc = .handling req → ec = none) := by
  cases arrived with
  | error err => exact ⟨.ended, some err, .ended, rfl, rfl, by simp⟩
  | ok req => exact ⟨.handling req, none, .delivered req, rfl, rfl, by simp⟩

/-- The target of a request is a URL, no regex throws that is tried on its path, and the
service that is called for it, if there is one, returns and leaves its error code clear. -/
def Answerable (srv : server L ω) (req : request_message) (world : ω) : Prop :=
  ∃ r, request.make L.parse_url req = some r
    ∧ srv.Handles r world fun h => ∃ res, h = (.returned res, none)

/-- What running the handler does, on a session whose error code is clear: it leads to
the write exactly if the request is answerable; else the session is over. -/
theorem on_handle_spec (srv : server L ω) (s : session) (req : request_message) (world : ω)
    (hec : s.ec = none) :
    (∃ rep, s.on_handle srv req world = { s with pc := .writing rep, ec := none }
        ∧ Answerable srv req world)
      ∨ (∃ pc ec e, s.on_handle srv req world = { pc := pc, ec := ec, trace := s.trace ++ [e] }
        ∧ e.ends_turn = true ∧ pc.LastEvent e ∧ (∀ req, pc ≠ .handling req)
        ∧ ¬ Answerable srv req world) := by
  unfold session.on_handle Answerable
  rw [hec]
  cases hmake : request.make L.parse_url req with
  | none => exact .inr ⟨.raised, s.ec, .raised, by simp [hec], rfl, rfl, by simp, by simp⟩
  | some r =>
      simp only [Option.some.injEq, exists_eq_left', ← dispatch_answers_iff]
      cases hd : srv.dispatch_request r none world with
      | mk out ec =>
        cases out with
        | none => exact .inr ⟨.raised, ec, .raised, rfl, rfl, rfl, by simp, by simp⟩
        | some rep =>
            cases ec with
            | none => exact .inl ⟨rep, rfl, rep, rfl⟩
            | some e => exact .inr ⟨.ended, some e, .ended, rfl, rfl, rfl, by simp, by simp⟩

/-- What the write of a response does that Beast does not send. -/
theorem on_write_of_refused (s : session) {res : response} (h : res.refused = true)
    (ec : error_code) :
    s.on_write res ec = { s with pc := .raised, trace := s.trace ++ [.raised] } := if_pos h

/-- What the completed write of any other does. -/
theorem on_write_spec (s : session) {res : response} (h : res.refused = false)
    (ec : error_code) :
    ∃ pc next, s.on_write res ec
        = { pc := pc, ec := ec, trace := s.trace ++ [.wrote res ec, next] }
      ∧ next.ends_turn = true ∧ pc.LastEvent next ∧ (∀ req, pc ≠ .handling req)
      ∧ (next = .reads ↔ ec = none ∧ says_keep_alive res = true) := by
  unfold session.on_write
  rw [h]
  cases ec with
  | some e => exact ⟨.ended, .ended, rfl, rfl, rfl, by simp, by simp⟩
  | none =>
      cases hk : says_keep_alive res with
      | false => exact ⟨.ended, .ended, rfl, rfl, rfl, by simp, by simp⟩
      | true => exact ⟨.reading, .reads, rfl, rfl, rfl, by simp, by simp⟩

/-- How a relation between neighbouring events comes through a step: a read adds one event
behind the previous `reads`; the handler adds nothing if it leads to the write, else the
end of the session behind the request; the write adds itself and the end of the turn, or
the exception of a response that is refused. -/
theorem trace_step {srv : server L ω} {s t : session} {a : action ω} (h : Inv s)
    (hst : do_session srv s a = some t) (R : event → event → Prop) :
    (∃ arrived e, a = .read arrived
        ∧ (t.trace.IsChain R ↔ s.trace.IsChain R ∧ R .reads e))
      ∨ (∃ world req, a = .handle world ∧ s.pc = .handling req
        ∧ ((Answerable srv req world ∧ t.trace = s.trace)
          ∨ ∃ e, ¬ Answerable srv req world ∧ e.ends_turn = true
            ∧ (t.trace.IsChain R ↔ s.trace.IsChain R ∧ R (.delivered req) e)))
      ∨ (∃ ec rep req, a = .write ec ∧ s.pc = .writing rep
        ∧ s.trace.getLast? = some (.delivered req)
        ∧ ((rep.refused = true
            ∧ (t.trace.IsChain R ↔ s.trace.IsChain R ∧ R (.delivered req) .raised))
          ∨ ∃ next, rep.refused = false ∧ next.ends_turn = true
            ∧ (next = .reads ↔ ec = none ∧ says_keep_alive (rep.response L) = true)
            ∧ (t.trace.IsChain R ↔ s.trace.IsChain R
              ∧ R (.delivered req) (.wrote (rep.response L) ec)
              ∧ R (.wrote (rep.response L) ec) next))) := by
  obtain ⟨pre, last, htrace, hlast⟩ := h.last
  rcases do_session_cases hst with
    ⟨arrived, rfl, hpc, rfl⟩ | ⟨world, req, rfl, hpc, rfl⟩ | ⟨ec, rep, rfl, hpc, rfl⟩
  · rw [hpc] at hlast
    obtain rfl : last = .reads := hlast
    obtain ⟨pc, ec, e, heq, -, -⟩ := on_read_spec s arrived
    refine .inl ⟨arrived, e, rfl, ?_⟩
    rw [heq, htrace]
    exact isChain_concat_iff
  · rw [hpc] at hlast
    obtain rfl : last = .delivered req := hlast
    refine .inr (.inl ⟨world, req, rfl, hpc, ?_⟩)
    rcases on_handle_spec srv s req world (h.clear req hpc) with
      ⟨rep, heq, hans⟩ | ⟨pc, ec, e, heq, hend, -, -, hans⟩
    · exact .inl ⟨hans, by rw [heq]⟩
    · refine .inr ⟨e, hans, hend, ?_⟩
      rw [heq, htrace]
      exact isChain_concat_iff
  · -- the last event is still the request: the handler has added none
    rw [hpc] at hlast
    obtain ⟨req, rfl⟩ := hlast
    have hreq : s.trace.getLast? = some (.delivered req) := by simp [htrace]
    refine .inr (.inr ⟨ec, rep, req, rfl, hpc, hreq, ?_⟩)
    cases hrefused : rep.refused with
    | true =>
        refine .inl ⟨rfl, ?_⟩
        rw [on_write_of_refused s ((rep.response_refused L).trans hrefused), htrace]
        exact isChain_concat_iff
    | false =>
        obtain ⟨pc, next, heq, hend, -, -, hnext⟩ :=
          on_write_spec s ((rep.response_refused L).trans hrefused) ec
        refine .inr ⟨next, rfl, hend, hnext, ?_⟩
        rw [heq, htrace]
        exact isChain_concat_two_iff

theorem inv_step {srv : server L ω} {s t : session} {a : action ω} (h : Inv s)
    (hst : do_session srv s a = some t) : Inv t := by
  have hordered : t.trace.IsChain Ordered := by
    rcases trace_step h hst Ordered with
      ⟨arrived, e, -, hiff⟩ | ⟨world, req, -, -, ⟨-, heq⟩ | ⟨e, -, hend, hiff⟩⟩
        | ⟨ec, rep, req, -, -, -, ⟨-, hiff⟩ | ⟨next, -, hend, -, hiff⟩⟩
    · exact hiff.mpr ⟨h.ordered, trivial⟩
    · rw [heq]
      exact h.ordered
    · exact hiff.mpr ⟨h.ordered, .inl hend⟩
    · exact hiff.mpr ⟨h.ordered, .inl rfl⟩
    · exact hiff.mpr ⟨h.ordered, .inr rfl, hend⟩
  rcases do_session_cases hst with
    ⟨arrived, -, -, rfl⟩ | ⟨world, req, -, hpc, rfl⟩ | ⟨ec, rep, -, -, rfl⟩
  · obtain ⟨pc, ec, e, heq, hlast, hclear⟩ := on_read_spec s arrived
    rw [heq] at hordered ⊢
    exact ⟨⟨s.trace, e, rfl, hlast⟩, hclear, hordered⟩
  · rcases on_handle_spec srv s req world (h.clear req hpc) with
      ⟨rep, heq, -⟩ | ⟨pc, ec, e, heq, -, hlast, hne, -⟩
    · obtain ⟨pre, last, htrace, hlast⟩ := h.last
      rw [hpc] at hlast
      rw [heq] at hordered ⊢
      exact ⟨⟨pre, last, htrace, ⟨req, hlast⟩⟩, by simp, hordered⟩
    · rw [heq] at hordered ⊢
      exact ⟨⟨s.trace, e, rfl, hlast⟩, fun r hr => absurd hr (hne r), hordered⟩
  · cases hrefused : (rep.response L).refused with
    | true =>
        rw [on_write_of_refused s hrefused] at hordered ⊢
        exact ⟨⟨s.trace, .raised, rfl, rfl⟩, by simp, hordered⟩
    | false =>
        obtain ⟨pc, next, heq, -, hlast, hne, -⟩ := on_write_spec s hrefused ec
        rw [heq] at hordered ⊢
        exact ⟨⟨s.trace ++ [.wrote (rep.response L) ec], next, by simp, hlast⟩,
          fun r hr => absurd hr (hne r), hordered⟩

theorem inv_of_run {srv : server L ω} {s : session} {acts : List (action ω)}
    (hrun : run (do_session srv) .start acts = some s) : Inv s :=
  run_invariant (fun _ _ _ h hst => inv_step h hst) inv_start hrun

/-- The rule for what neighbouring events say: if each step keeps the relation exactly when
it meets `P`, a run keeps it exactly when all its steps meet `P`. -/
theorem trace_iff {srv : server L ω} {R : event → event → Prop} {P : session → action ω → Prop}
    (h : ∀ (r : session) (a : action ω) (t : session), Inv r → do_session srv r a = some t →
      (t.trace.IsChain R ↔ r.trace.IsChain R ∧ P r a))
    {s : session} {acts : List (action ω)} (hrun : run (do_session srv) .start acts = some s) :
    s.trace.IsChain R ↔ StepsMeet (do_session srv) P .start acts := by
  have hstep : ∀ (r : session) (a : action ω) (t : session), Inv r → do_session srv r a = some t →
      Inv t ∧ (t.trace.IsChain R ↔ r.trace.IsChain R ∧ P r a) :=
    fun r a t hr hst => ⟨inv_step hr hst, h r a t hr hst⟩
  have hstart : session.start.trace.IsChain R := List.isChain_singleton _
  rw [property_iff hstep inv_start hrun]
  exact and_iff_right hstart

/-! ## Going on behind a response -/

/-- A successfully written response is followed by the next read exactly if it has
keep-alive semantics for its version. -/
def GoesOnAsAnnounced (C : connection_library) : event → event → Prop
  | .wrote res none, next => next = .reads ↔ res.header_cref.keep_alive C = true
  | _, _ => True

instance (e : event) : Decidable (e = .reads) :=
  match e with
  | .reads => isTrue rfl
  | .delivered _ => isFalse nofun
  | .wrote _ _ => isFalse nofun
  | .ended => isFalse nofun
  | .raised => isFalse nofun

instance (C : connection_library) (e next : event) : Decidable (GoesOnAsAnnounced C e next) :=
  match e with
  | .wrote res none =>
      inferInstanceAs (Decidable (next = .reads ↔ res.header_cref.keep_alive C = true))
  | .wrote _ (some _) => isTrue trivial
  | .reads => isTrue trivial
  | .delivered _ => isTrue trivial
  | .ended => isTrue trivial
  | .raised => isTrue trivial

/-- The reply spells out what it means for the connection: a handler's response says
`keep-alive` in its `Connection` field or has close semantics; a 404 or 500 answers a
request before HTTP/1.1 or one that does not want the connection kept. -/
def reply.SpelledOut (C : connection_library) : reply → Prop
  | .value res => res.PlainOrClose C
  | .server_error req _ => req.version < 11 ∨ req.keep_alive C = false
  | .not_found req => req.version < 11 ∨ req.keep_alive C = false

/-- The replies whose successful writes the session handles as they announce. -/
def SpellsOut (C : connection_library) (s : session) : action ω → Prop
  | .write none =>
      ∀ rep, s.pc = .writing rep → rep.refused = false → reply.SpelledOut C rep
  | _ => True

/-- The session's comparison gives the semantics of the response exactly if the reply
spells it out. -/
theorem says_keep_alive_iff (hL : L.connection.Documented) (rep : reply) :
    (says_keep_alive (rep.response L) = true
        ↔ (rep.response L).header_cref.keep_alive L.connection = true)
      ↔ reply.SpelledOut L.connection rep := by
  -- the text `keep-alive` is never a lie, so only its absence can be one
  have hplain : ((says_keep_alive (rep.response L) = true
        ↔ (rep.response L).header_cref.keep_alive L.connection = true)
      ↔ (rep.response L).PlainOrClose L.connection) := by
    unfold says_keep_alive response.PlainOrClose
    rw [beq_iff_eq]
    constructor
    · intro h
      by_cases hk : (rep.response L).header_cref.keep_alive L.connection = true
      · exact .inl (h.mpr hk)
      · exact .inr (by simpa using hk)
    · rintro (h | h)
      · exact ⟨fun _ => keep_alive_of_plain hL _ h, fun _ => h⟩
      · refine ⟨fun hp => ?_, fun hk => ?_⟩
        · exact keep_alive_of_plain hL _ hp
        · rw [h] at hk
          cases hk
  rw [hplain]
  cases rep with
  | value res => exact Iff.rfl
  | server_error req e => exact text_response_plainOrClose hL 500 _ req
  | not_found req => exact text_response_plainOrClose hL 404 _ req

/-- In every run of a session, whatever requests arrive, whatever the handlers do and
however the writes end: behind each successfully written response the session reads the
next request if and only if the response has keep-alive semantics, exactly if every
reply it wrote successfully spells its semantics out. -/
theorem goes_on_iff_spelled_out (srv : server L ω) (acts : List (action ω)) (s : session)
    (hL : L.connection.Documented) (hrun : run (do_session srv) .start acts = some s) :
    s.trace.IsChain (GoesOnAsAnnounced L.connection)
      ↔ StepsMeet (do_session srv) (SpellsOut L.connection) .start acts := by
  have hstep : ∀ (r : session) (a : action ω) (t : session), Inv r → do_session srv r a = some t →
      (t.trace.IsChain (GoesOnAsAnnounced L.connection)
        ↔ r.trace.IsChain (GoesOnAsAnnounced L.connection) ∧ SpellsOut L.connection r a) := by
    intro r a t hr hst
    rcases trace_step hr hst (GoesOnAsAnnounced L.connection) with
      ⟨arrived, e, rfl, hiff⟩ | ⟨world, req, rfl, -, ⟨-, heq⟩ | ⟨e, -, -, hiff⟩⟩
        | ⟨ec, rep, req, rfl, hpc, -, ⟨hrefused, hiff⟩ | ⟨next, hrefused, -, hnext, hiff⟩⟩
    · rw [hiff]
      exact Iff.rfl
    · rw [heq]
      simp [SpellsOut]
    · rw [hiff]
      exact Iff.rfl
    · -- nothing is written, and nothing promised
      rw [hiff]
      cases ec with
      | some e => exact Iff.rfl
      | none => simp [SpellsOut, GoesOnAsAnnounced, hpc, hrefused]
    · rw [hiff]
      -- only a write that succeeded promises anything
      cases ec with
      | some e => exact ⟨fun ⟨h, _, _⟩ => ⟨h, trivial⟩, fun ⟨h, _⟩ => ⟨h, trivial, trivial⟩⟩
      | none =>
          have hlast : GoesOnAsAnnounced L.connection (.wrote (rep.response L) none) next
              ↔ reply.SpelledOut L.connection rep := by
            rw [← says_keep_alive_iff hL]
            simp only [GoesOnAsAnnounced, hnext, true_and]
          rw [hlast]
          simp only [SpellsOut, hpc, session_pc.writing.injEq, forall_eq', hrefused, true_imp_iff]
          exact ⟨fun ⟨h, _, hs⟩ => ⟨h, hs⟩, fun ⟨h, hs⟩ => ⟨h, trivial, hs⟩⟩
  exact trace_iff hstep hrun

/-- A server without routes. -/
def bare_server : server plain_libraries Unit := {}

/-- One request read, handled, and its response written. -/
def one_turn (req : request_message) : List (action Unit) :=
  [.read (.ok req), .handle (), .write none]

/-- An HTTP/1.0 request that asks to keep the connection is answered with the text
`keep-alive`, and the session goes on. -/
theorem goes_on_iff_spelled_out_http10 :
    ∃ s, run (do_session bare_server) .start
        (one_turn { method := .get, target := "/x".toList, version := 10
                    fields := [(connection, keep_alive_token)] }) = some s
      ∧ (s.trace.IsChain (GoesOnAsAnnounced plain_libraries.connection)
        ↔ StepsMeet (do_session bare_server) (SpellsOut plain_libraries.connection) .start
          (one_turn { method := .get, target := "/x".toList, version := 10
                      fields := [(connection, keep_alive_token)] })) := by
  obtain ⟨s, hs⟩ := Option.isSome_iff_exists.mp (show (run (do_session bare_server) .start
    (one_turn { method := .get, target := "/x".toList, version := 10
                fields := [(connection, keep_alive_token)] })).isSome from by decide +kernel)
  exact ⟨s, hs, goes_on_iff_spelled_out bare_server _ s token_connection_documented hs⟩

/-- A plain HTTP/1.1 request without a route: the 404 has keep-alive semantics, no write
fails, and the session ends behind it. -/
theorem persistent_connection_ended :
    ∃ s, run (do_session bare_server) .start
        (one_turn { method := .get, target := "/x".toList }) = some s
      ∧ s.ec = none ∧ ¬ s.trace.IsChain (GoesOnAsAnnounced plain_libraries.connection) := by
  have hend : (run (do_session bare_server) .start
      (one_turn { method := .get, target := "/x".toList })).map
      (fun s => (s.ec, decide (s.trace.IsChain (GoesOnAsAnnounced plain_libraries.connection))))
        = some (none, false) := by
    decide +kernel
  obtain ⟨s, hrun, hs⟩ := Option.map_eq_some_iff.mp hend
  obtain ⟨hec, hchain⟩ := Prod.mk.inj hs
  exact ⟨s, hrun, hec, of_decide_eq_false hchain⟩

/-! ## Answering each request -/

/-- Each request whose turn is over has been answered by exactly one response: between
its delivery and the next read or the end stands one `wrote`. -/
def AnsweredOnce (trace : List event) : Prop :=
  ∀ pre req mid e post, trace = pre ++ event.delivered req :: (mid ++ e :: post) →
    e.ends_turn = true → (∀ x ∈ mid, x.ends_turn = false) → mid.countP event.is_wrote = 1

/-- A response stands behind each request. -/
def Answers : event → event → Prop
  | .delivered _, next => next.is_wrote = true
  | _, _ => True

instance (e next : event) : Decidable (Answers e next) :=
  match e with
  | .delivered _ => inferInstanceAs (Decidable (next.is_wrote = true))
  | .reads => isTrue trivial
  | .wrote _ _ => isTrue trivial
  | .ended => isTrue trivial
  | .raised => isTrue trivial

theorem ends_turn_of_is_wrote {e : event} (h : e.is_wrote = true) : e.ends_turn = false := by
  cases e <;> first | rfl | cases h

/-- In an ordered trace the answers are counted by looking one event ahead. -/
theorem answeredOnce_iff {trace : List event} (h : trace.IsChain Ordered) :
    AnsweredOnce trace ↔ trace.IsChain Answers := by
  constructor
  · intro hans
    rw [List.isChain_iff_forall_rel_of_append_cons_cons]
    intro a b pre post htrace
    have hord := List.isChain_iff_forall_rel_of_append_cons_cons.mp h htrace
    cases a with
    | delivered req =>
        rcases hord with hend | hwrote
        · -- a turn that is over at once has no response in it
          have := hans pre req [] b post htrace hend (by simp)
          simp at this
        · exact hwrote
    | reads => trivial
    | wrote res ec => trivial
    | ended => trivial
    | raised => trivial
  · intro hchain pre req mid e post htrace hend hmid
    rw [List.isChain_iff_forall_rel_of_append_cons_cons] at hchain h
    cases mid with
    | nil =>
        have hwrote : e.is_wrote = true := hchain htrace
        rw [ends_turn_of_is_wrote hwrote] at hend
        cases hend
    | cons m mid =>
        have hwrote : m.is_wrote = true :=
          hchain (show trace = pre ++ event.delivered req :: m :: (mid ++ e :: post) from htrace)
        cases mid with
        | nil => simp [hwrote]
        | cons m' mid =>
            have hord : Ordered m m' :=
              h (show trace = (pre ++ [event.delivered req]) ++ m :: m' :: (mid ++ e :: post)
                from by simpa using htrace)
            have hend' : m'.ends_turn = true := by
              cases m <;> first | exact hord | cases hwrote
            rw [hmid m' (by simp)] at hend'
            cases hend'

/-- The requests that are answered. -/
def AnswersRequest (srv : server L ω) (s : session) : action ω → Prop
  | .handle world => ∀ req, s.pc = .handling req → Answerable srv req world
  | .write _ => ∀ rep, s.pc = .writing rep → rep.refused = false
  | .read _ => True

/-- In every run of a session, whatever requests arrive, whatever the handlers do and
however the writes end: each delivered request is answered by exactly one response before
the session reads again or is over, if and only if each request that was handled had a
target Boost.URL accepts, routes without a regex that throws on its path, a service that
returned with its error code clear, and a response that Beast did not refuse to send. -/
theorem answered_iff (srv : server L ω) (acts : List (action ω)) (s : session)
    (hrun : run (do_session srv) .start acts = some s) :
    AnsweredOnce s.trace ↔ StepsMeet (do_session srv) (AnswersRequest srv) .start acts := by
  have hstep : ∀ (r : session) (a : action ω) (t : session), Inv r → do_session srv r a = some t →
      (t.trace.IsChain Answers ↔ r.trace.IsChain Answers ∧ AnswersRequest srv r a) := by
    intro r a t hr hst
    rcases trace_step hr hst Answers with
      ⟨arrived, e, rfl, hiff⟩ | ⟨world, req, rfl, hpc, ⟨hans, heq⟩ | ⟨e, hans, hend, hiff⟩⟩
        | ⟨ec, rep, req, rfl, hpc, -, ⟨hrefused, hiff⟩ | ⟨next, hrefused, -, -, hiff⟩⟩
    · rw [hiff]
      exact Iff.rfl
    · rw [heq]
      simp [AnswersRequest, hpc, hans]
    · -- the turn is over without a response behind the request
      have hno : ¬ Answers (.delivered req) e := by
        intro hwrote
        rw [ends_turn_of_is_wrote hwrote] at hend
        cases hend
      rw [hiff]
      simp only [AnswersRequest, hpc, session_pc.handling.injEq, forall_eq', hno, hans]
    · rw [hiff]
      simp [AnswersRequest, Answers, event.is_wrote, hpc, hrefused]
    · rw [hiff]
      simp [AnswersRequest, Answers, event.is_wrote, hpc, hrefused]
  rw [answeredOnce_iff (inv_of_run hrun).ordered]
  exact trace_iff hstep hrun

/-- A request for an unknown path is answered with the 404. -/
theorem answered_iff_not_found :
    ∃ s, run (do_session bare_server) .start
        (one_turn { method := .get, target := "/x".toList }) = some s
      ∧ (AnsweredOnce s.trace
        ↔ StepsMeet (do_session bare_server) (AnswersRequest bare_server) .start
          (one_turn { method := .get, target := "/x".toList })) := by
  obtain ⟨s, hs⟩ := Option.isSome_iff_exists.mp (show (run (do_session bare_server) .start
    (one_turn { method := .get, target := "/x".toList })).isSome from by decide +kernel)
  exact ⟨s, hs, answered_iff bare_server _ s hs⟩

/-- The target `/%` is delivered, and the session ends without a response to it. -/
theorem malformed_target_unanswered :
    ∃ s, run (do_session bare_server) .start
        [.read (.ok { method := .get, target := "/%".toList }), .handle ()] = some s
      ∧ ¬ AnsweredOnce s.trace := by
  have hend : (run (do_session bare_server) .start
      [.read (.ok { method := .get, target := "/%".toList }), .handle ()]).map
      (fun s => decide (s.trace.IsChain Answers)) = some false := by
    decide +kernel
  obtain ⟨s, hrun, hs⟩ := Option.map_eq_some_iff.mp hend
  refine ⟨s, hrun, ?_⟩
  rw [answeredOnce_iff (inv_of_run hrun).ordered]
  exact of_decide_eq_false hs

end CppHttp.Session
