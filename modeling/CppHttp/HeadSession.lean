/-
The answers of a session to `HEAD` requests.

The recipient of such an answer reads a header and no body, so on a connection that goes
on, whatever is behind the header is taken for the start of the next response. Nothing
between the handler and the socket looks at the method of the request: a basic response is
written with its body, the two ready-made ones with their texts, and a streaming one with
its last-chunk at least.

So a `HEAD` request is answered by a header alone only if a registered service takes it and
returns a basic response with an empty body (`bare_reply_iff`), and `header_only_iff` says
of a whole run that this is the condition for it. A response that Beast refuses to send
puts nothing on the wire.
-/
import CppHttp.BodyFraming
import CppHttp.Session
import CppHttp.StreamWriter

set_option autoImplicit false

namespace CppHttp.HeadSession

open CppHttp.BodyFraming CppHttp.Errors CppHttp.HttpMessage CppHttp.Request CppHttp.Runs
  CppHttp.Server CppHttp.ServerResponse CppHttp.Session CppHttp.StdString
open CppHttp.StreamWriter (stream body_of body_ne_nil)

variable {L : libraries} {ω : Type}

/-! ## What is written behind a header -/

/-- The bytes a successful write of the response puts behind its header. -/
def SendsBehind : response → std_string → Prop
  | .basic _ body, bytes => bytes = body
  | .streaming _ rx, bytes =>
      ∃ acts s, run StreamWriter.step (.start rx.cap) acts = some s ∧ s.pc = .done
        ∧ (∀ w ∈ s.writes, w.2 = .written) ∧ bytes = body_of s.writes

/-- A response of which nothing but the header is written. -/
def bare : response → Bool
  | .basic _ body => body.isEmpty
  | .streaming _ _ => false

/-- A writer whose channel is closed at once still writes the last-chunk. -/
theorem exists_closed_run (cap : ℕ) :
    ∃ acts s, run StreamWriter.step (.start cap) acts = some s ∧ s.pc = .done
      ∧ ∀ w ∈ s.writes, w.2 = .written := by
  refine ⟨[.close, .writer .written, .writer .written, .writer .written], _, rfl, rfl, ?_⟩
  simp [stream.start, stream.close]

/-- What is behind the header is no body, whatever is sent, exactly if nothing is behind
it. -/
theorem delimits_no_body_iff_bare (res : response) :
    (∀ bytes, SendsBehind res bytes → framing.no_body.Delimits bytes [])
      ↔ bare res = true := by
  cases res with
  | basic header body => simp [SendsBehind, bare, delimits_no_body_iff]
  | streaming header rx =>
      simp only [bare, Bool.false_eq_true, iff_false]
      intro h
      obtain ⟨acts, s, hrun, hdone, hwrites⟩ := exists_closed_run rx.cap
      have := h _ ⟨acts, s, hrun, hdone, hwrites, rfl⟩
      rw [delimits_no_body_iff] at this
      exact body_ne_nil hrun hdone hwrites this.1

/-- A reply of which nothing but the header is written. -/
def reply.bare : reply → Bool
  | .value res => HeadSession.bare res
  | .server_error _ _ => false
  | .not_found _ => false

/-- The two texts are never empty. -/
theorem bare_response (rep : reply) : bare (rep.response L) = reply.bare rep := by
  cases rep with
  | value res => rfl
  | server_error req e => rfl
  | not_found req => rfl

/-- A `HEAD` request gets such a reply exactly if a registered service takes it and returns
a basic response with an empty body. -/
theorem bare_reply_iff (srv : server L ω) (req : request) (world : ω)
    (hmethod : req.inner.method = .head) {rep : reply} {ec : error_code}
    (hrep : srv.dispatch_request req none world = (some rep, ec)) :
    reply.bare rep = true ↔
      ∃ svc req' header, find_service srv.head_services_ req = .ok (some (svc, req'))
        ∧ svc.handle_request req' none world = (.returned (.ok (.basic header [])), ec) := by
  have htable : srv.matchers req.inner.method = srv.head_services_ := by rw [hmethod]; rfl
  rw [← htable]
  rcases hfound : find_service (srv.matchers req.inner.method) req with f | _ | ⟨svc, req'⟩
  · rw [(dispatch_of_error hfound none world).1] at hrep
    cases hrep
  · -- the 404
    rw [(dispatch_of_none hfound none world).1] at hrep
    obtain rfl := Option.some.inj (Prod.mk.inj hrep).1
    simp [reply.bare]
  · rw [(dispatch_of_some hfound none world).1, reply_to_eq_some_iff] at hrep
    rcases hrep with ⟨res, hhandled, rfl⟩ | ⟨e, hhandled, rfl⟩
    · cases res with
      | basic header body => simp [reply.bare, bare, hhandled]
      | streaming header rx => simp [reply.bare, bare, hhandled]
    · simp [reply.bare, hhandled]

/-! ## Whole sessions -/

/-- Behind a `HEAD` request, what a successful write puts behind the header is no body to
the recipient: it leaves all bytes to the next response. -/
def HeaderOnly : event → event → Prop
  | .delivered req, .wrote res none =>
      req.method = .head → ∀ bytes, SendsBehind res bytes → framing.no_body.Delimits bytes []
  | _, _ => True

instance (e next : event) : Decidable (HeaderOnly e next) :=
  match e, next with
  | .delivered req, .wrote res none =>
      decidable_of_iff (req.method = .head → bare res = true)
        (imp_congr_right fun _ => (delimits_no_body_iff_bare res).symm)
  | .delivered _, .wrote _ (some _) => isTrue trivial
  | .delivered _, .reads => isTrue trivial
  | .delivered _, .delivered _ => isTrue trivial
  | .delivered _, .ended => isTrue trivial
  | .delivered _, .raised => isTrue trivial
  | .reads, _ => isTrue trivial
  | .wrote _ _, _ => isTrue trivial
  | .ended, _ => isTrue trivial
  | .raised, _ => isTrue trivial

/-- The replies to `HEAD` requests whose successful writes are a header alone. -/
def AnswersHeadBare (s : session) : action ω → Prop
  | .write none =>
      ∀ req rep, s.trace.getLast? = some (.delivered req) → req.method = .head →
        s.pc = .writing rep → rep.refused = false → reply.bare rep = true
  | _ => True

theorem headerOnly_of_ends_turn {e next : event} (h : next.ends_turn = true) :
    HeaderOnly e next := by
  cases next with
  | wrote res ec => cases h
  | reads => cases e <;> trivial
  | delivered req => cases h
  | ended => cases e <;> trivial
  | raised => cases e <;> trivial

/-- In every run of a session, whatever requests arrive, whatever services are registered
and whatever they return: what is successfully written for the `HEAD` requests are headers
alone, if and only if every reply to one that Beast did not refuse was a basic response of
a handler with an empty body. The reply to a `HEAD` request is one if and only if a
registered service takes the request and returns it. -/
theorem header_only_iff (srv : server L ω) (acts : List (action ω)) (s : session)
    (hrun : run (do_session srv) .start acts = some s) :
    (s.trace.IsChain HeaderOnly ↔ StepsMeet (do_session srv) AnswersHeadBare .start acts)
      ∧ ∀ (req : request) (world : ω) (rep : reply) (ec : error_code),
        req.inner.method = .head → srv.dispatch_request req none world = (some rep, ec) →
        (reply.bare rep = true ↔
          ∃ svc req' header, find_service srv.head_services_ req = .ok (some (svc, req'))
            ∧ svc.handle_request req' none world = (.returned (.ok (.basic header [])), ec)) := by
  have hstep : ∀ (r : session) (a : action ω) (t : session), Inv r → do_session srv r a = some t →
      (t.trace.IsChain HeaderOnly ↔ r.trace.IsChain HeaderOnly ∧ AnswersHeadBare r a) := by
    intro r a t hr hst
    rcases trace_step hr hst HeaderOnly with
      ⟨arrived, e, rfl, hiff⟩ | ⟨world, req, rfl, -, ⟨-, heq⟩ | ⟨e, -, hend, hiff⟩⟩
        | ⟨ec, rep, req, rfl, hpc, hlast, ⟨hrefused, hiff⟩ | ⟨next, hrefused, hend, -, hiff⟩⟩
    · rw [hiff]
      exact Iff.rfl
    · rw [heq]
      simp [AnswersHeadBare]
    · rw [hiff]
      simp [AnswersHeadBare, headerOnly_of_ends_turn hend]
    · -- the response is refused, so nothing is written
      rw [hiff]
      cases ec with
      | some e => exact Iff.rfl
      | none => simp [AnswersHeadBare, HeaderOnly, hpc, hrefused]
    · rw [hiff]
      cases ec with
      | some e => simp [AnswersHeadBare, HeaderOnly]
      | none =>
          have hnext : HeaderOnly (.wrote (rep.response L) none) next := trivial
          have hwrote : HeaderOnly (.delivered req) (.wrote (rep.response L) none)
              ↔ (req.method = .head → reply.bare rep = true) := by
            rw [← bare_response (L := L) rep, ← delimits_no_body_iff_bare]
            exact Iff.rfl
          rw [hwrote]
          simp [AnswersHeadBare, hpc, hlast, hrefused, hnext]
  exact ⟨trace_iff hstep hrun, fun req world _ _ hmethod => bare_reply_iff srv req world hmethod⟩

/-- A service that answers with a header alone. -/
def header_service : service Unit where
  handle_request _ ec _ := (.returned (.ok (.basic {} [])), ec)

/-- A server with one `HEAD` route, for the path `/x`. -/
def head_server : server plain_libraries Unit :=
  { head_services_ := [(.regex "/x".toList "/x".toList, header_service)] }

/-- A `HEAD` request that is answered by its service. -/
theorem header_only_iff_empty_body :
    ∃ s, run (do_session head_server) .start
        (one_turn { method := .head, target := "/x".toList }) = some s
      ∧ (s.trace.IsChain HeaderOnly
        ↔ StepsMeet (do_session head_server) AnswersHeadBare .start
          (one_turn { method := .head, target := "/x".toList })) := by
  obtain ⟨s, hs⟩ := Option.isSome_iff_exists.mp (show (run (do_session head_server) .start
    (one_turn { method := .head, target := "/x".toList })).isSome from by decide +kernel)
  exact ⟨s, hs, (header_only_iff head_server _ s hs).1⟩

/-- A `HEAD` request without a route: the text of the 404 is written behind its header. -/
theorem head_answered_with_text :
    ∃ s, run (do_session bare_server) .start
        (one_turn { method := .head, target := "/x".toList }) = some s
      ∧ ¬ s.trace.IsChain HeaderOnly := by
  have hend : (run (do_session bare_server) .start
      (one_turn { method := .head, target := "/x".toList })).map
      (fun s => decide (s.trace.IsChain HeaderOnly)) = some false := by
    decide +kernel
  obtain ⟨s, hrun, hs⟩ := Option.map_eq_some_iff.mp hend
  exact ⟨s, hrun, of_decide_eq_false hs⟩

end CppHttp.HeadSession
