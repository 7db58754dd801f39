/-
`server::run` (`server/server.hpp`): the accept loop and the sessions it spawns.

`do_listen` sets the acceptor up, in four calls any of which may fail, and then accepts
connections for ever. Each accepted connection becomes a session in a coroutine of its own,
whose result nobody looks at. The loop and the sessions are the main process and the
processes of a `Spawning.system`, and a schedule interleaves them in any order. What the
services share is in the world of each handler call.

`listening_of_run` says what the loop has done after any number of calls: `run` returns only
where the set-up has failed, a failed accept costs one line of output and no connection, and
there is one session for each successful accept. `each_response_answers` says what the peers
of all sessions see: each response is the answer to the request in front of it.
-/
import Mathlib.Tactic.IntervalCases
import CppHttp.Session
import CppHttp.Spawning

set_option autoImplicit false

namespace CppHttp.Listener

open CppHttp.Errors CppHttp.HttpMessage CppHttp.Request CppHttp.Runs CppHttp.Server
  CppHttp.ServerResponse CppHttp.Session CppHttp.Spawning CppHttp.StdString

/-! ## The accept loop -/

/-- The call that `do_listen` makes next, or is suspended in. -/
inductive listen_pc
  /-- `acceptor.open(endpoint.protocol(), ec)` -/
  | opening
  /-- `acceptor.set_option(reuse_address(true), ec)` -/
  | setting_option
  /-- `acceptor.bind(endpoint, ec)` -/
  | binding
  /-- `acceptor.listen(max_listen_connections, ec)` -/
  | listening
  /-- `acceptor.async_accept(socket, yield[ec])` -/
  | accepting
  | returned
  deriving DecidableEq, Repr

/-- The coroutine, and the lines it has printed: what failed, and the error. -/
structure acceptor where
  pc : listen_pc
  cerr : List (std_string × error)
  deriving DecidableEq, Repr

def acceptor.start : acceptor := { pc := .opening, cerr := [] }

/-- `fail(ec, what)`. -/
def acceptor.fail (s : acceptor) (e : error) (what : std_string) : acceptor :=
  { s with cerr := s.cerr ++ [(what, e)] }

/-- One of the calls of the set-up, and `if (ec) { return fail(ec, what); }`. -/
def acceptor.set_up (s : acceptor) (what : std_string) (next : listen_pc) : error_code → acceptor
  | some e => { s.fail e what with pc := .returned }
  | none => { s with pc := next }

/-- `server::do_listen`, call by call, each with the error code it leaves. -/
def do_listen (s : acceptor) (ec : error_code) : Option acceptor :=
  match s.pc with
  | .opening => some (s.set_up "open".toList .setting_option ec)
  | .setting_option => some (s.set_up "set_option".toList .binding ec)
  | .binding => some (s.set_up "bind".toList .listening ec)
  | .listening => some (s.set_up "listen".toList .accepting ec)
  | .accepting =>
      match ec with
      | some e => some (s.fail e "accept".toList)
      | none => some s
  | .returned => none

/-- The call is an accept, and it succeeds: `boost::asio::spawn(…)`. -/
def accepts (s : acceptor) (ec : error_code) : Bool :=
  decide (s.pc = .accepting) && ec.isNone

variable {L : libraries} {ω : Type}

/-- The accept loop and the sessions. -/
abbrev running_server := system acceptor session

/-- `server::run`, before the first call. -/
def running_server.start : running_server := { main := .start, procs := [] }

/-- One step of the accept loop or of a session. -/
def serve (srv : server L ω) (s : running_server) (a : move error_code (action ω)) :
    Option running_server :=
  Spawning.step do_listen accepts (do_session srv) .start s a

/-! ## What the accept loop does -/

/-- The calls of the set-up in order, and the loop behind them. -/
def stage : ℕ → listen_pc
  | 0 => .opening
  | 1 => .setting_option
  | 2 => .binding
  | 3 => .listening
  | _ => .accepting

/-- What a call of the set-up is called in its error message. -/
def stage_name : ℕ → std_string
  | 0 => "open".toList
  | 1 => "set_option".toList
  | 2 => "bind".toList
  | _ => "listen".toList

/-- What the loop has come to after calls that have left these error codes: where it is,
what it has printed, and how many sessions it has spawned. -/
inductive Listening : List error_code → acceptor → ℕ → Prop
  /-- The first calls of the set-up have succeeded. -/
  | set_up {k : ℕ} (hk : k < 4) : Listening (List.replicate k none) { pc := stage k, cerr := [] } 0
  /-- A call of the set-up has failed, and `run` has returned. -/
  | failed {k : ℕ} (hk : k < 4) (e : error) :
      Listening (List.replicate k none ++ [some e])
        { pc := .returned, cerr := [(stage_name k, e)] } 0
  /-- The set-up has succeeded: each accept has spawned a session or printed its error. -/
  | accepting (ecs : List error_code) :
      Listening (List.replicate 4 none ++ ecs)
        { pc := .accepting
          cerr := ecs.filterMap fun ec => ec.map fun e => ("accept".toList, e) }
        (ecs.countP Option.isNone)

/-- A call of the set-up, whichever it is. -/
theorem do_listen_set_up {k : ℕ} (hk : k < 4) (cerr : List (std_string × error))
    (ec : error_code) :
    do_listen { pc := stage k, cerr := cerr } ec
        = some (acceptor.set_up { pc := stage k, cerr := cerr } (stage_name k) (stage (k + 1)) ec)
      ∧ accepts { pc := stage k, cerr := cerr } ec = false := by
  interval_cases k
  · exact ⟨rfl, rfl⟩
  · exact ⟨rfl, rfl⟩
  · exact ⟨rfl, rfl⟩
  · exact ⟨rfl, rfl⟩

/-- One call more. -/
theorem listening_step {bs : List error_code} {s t : acceptor} {n : ℕ} {ec : error_code}
    (h : Listening bs s n) (hst : do_listen s ec = some t) :
    Listening (bs ++ [ec]) t (n + if accepts s ec then 1 else 0) := by
  cases h with
  | @set_up k hk =>
      obtain ⟨hcall, hno⟩ := do_listen_set_up hk [] ec
      rw [hcall] at hst
      obtain rfl := Option.some.inj hst
      rw [hno]
      cases ec with
      | some e => exact .failed hk e
      | none =>
          rw [← List.replicate_succ']
          by_cases hlast : k + 1 < 4
          · exact .set_up hlast
          · -- the last call: the loop begins
            obtain rfl : k = 3 := by omega
            exact .accepting []
  | failed hk e => cases hst
  | accepting ecs =>
      rw [List.append_assoc]
      cases ec with
      | some e =>
          obtain rfl := Option.some.inj hst
          have h := Listening.accepting (ecs ++ [some e])
          rw [List.filterMap_append, List.countP_append] at h
          exact h
      | none =>
          obtain rfl := Option.some.inj hst
          have h := Listening.accepting (ecs ++ [none])
          rw [List.filterMap_append, List.countP_append,
            show [none].filterMap _ = [] from rfl, List.append_nil] at h
          exact h

theorem listening_of_main {bs : List error_code} {s : acceptor}
    (hrun : run do_listen .start bs = some s) :
    Listening bs s (spawned do_listen accepts .start bs) := by
  induction bs using List.reverseRecOn generalizing s with
  | nil =>
      obtain rfl := Option.some.inj hrun
      exact .set_up (k := 0) (by decide)
  | append_singleton bs ec ih =>
      obtain ⟨t, ht, hlast⟩ := run_append.mp hrun
      obtain ⟨u, hst, hu⟩ := run_cons.mp hlast
      obtain rfl := Option.some.inj hu
      rw [spawned_concat ht (by rw [hst]; rfl)]
      exact listening_step (ih ht) hst

/-- **The accept loop** in every run, whatever its sessions do in between: it has returned
only if a call of the set-up has failed, and then it has printed that error and there is no
session; and behind the set-up it goes on for ever, with a session for each successful
accept and a line for each other. -/
theorem listening_of_run (srv : server L ω) (acts : List (move error_code (action ω)))
    (s : running_server) (hrun : run (serve srv) .start acts = some s) :
    Listening (main_moves acts) s.main s.procs.length
      ∧ (s.main.pc ≠ .returned → ∀ ec, ∃ t, serve srv s (.main ec) = some t) := by
  obtain ⟨hmain, hlen⟩ := run_main hrun
  have hlistening := listening_of_main hmain
  refine ⟨?_, ?_⟩
  · rw [hlen]
    exact (Nat.zero_add _).symm ▸ hlistening
  · intro hpc ec
    have hgo : ∀ a : acceptor, a.pc ≠ .returned → ∃ t, do_listen a ec = some t := by
      intro a ha
      unfold do_listen
      split
      · exact ⟨_, rfl⟩
      · exact ⟨_, rfl⟩
      · exact ⟨_, rfl⟩
      · exact ⟨_, rfl⟩
      · cases ec with
        | some e => exact ⟨_, rfl⟩
        | none => exact ⟨_, rfl⟩
      · next hret => exact absurd hret ha
    obtain ⟨m, hm⟩ := hgo s.main hpc
    exact ⟨_, by rw [serve, Spawning.step, hm]; rfl⟩

/-- A set-up that succeeds, a failed accept, and an accepted connection. -/
theorem listening_of_run_one_connection :
    ∃ s, run (serve bare_server) .start [.main none, .main none, .main none, .main none,
        .main (some .eof), .main none] = some s
      ∧ Listening [none, none, none, none, some .eof, none] s.main s.procs.length
      ∧ (s.main.pc ≠ .returned → ∀ ec, ∃ t, serve bare_server s (.main ec) = some t) := by
  obtain ⟨s, hs⟩ := Option.isSome_iff_exists.mp (show (run (serve bare_server) .start
    [.main none, .main none, .main none, .main none, .main (some .eof), .main none]).isSome
      from by decide +kernel)
  exact ⟨s, hs, listening_of_run bare_server _ s hs⟩

/-! ## What the peers see -/

/-- The reply is what `dispatch_request` makes of this request in some world. -/
def Replies (srv : server L ω) (req : request_message) (rep : reply) : Prop :=
  ∃ r world, request.make L.parse_url req = some r
    ∧ srv.dispatch_request r none world = (some rep, none)

/-- A response stands behind a request, and is the response of a reply to it. -/
def RepliesTo (srv : server L ω) : event → event → Prop
  | .delivered req, .wrote res _ => ∃ rep, Replies srv req rep ∧ res = rep.response L
  | _, .wrote _ _ => False
  | _, _ => True

/-- What holds in every state of a session: a reply that is being written is one to the
request that was delivered last. -/
structure Replying (srv : server L ω) (s : session) : Prop where
  inv : Session.Inv s
  replies : s.trace.IsChain (RepliesTo srv)
  writing : ∀ rep, s.pc = .writing rep →
    ∃ pre req, s.trace = pre ++ [.delivered req] ∧ Replies srv req rep

theorem replying_start (srv : server L ω) : Replying srv .start where
  inv := inv_start
  replies := List.isChain_singleton _
  writing := by
    intro rep h
    cases h

/-- An event that is no response can stand behind any other. -/
theorem repliesTo_of_not_wrote (srv : server L ω) (e : event) {next : event}
    (h : next.is_wrote = false) : RepliesTo srv e next := by
  cases next with
  | wrote res ec => cases h
  | reads => cases e <;> trivial
  | delivered req => cases e <;> trivial
  | ended => cases e <;> trivial
  | raised => cases e <;> trivial

/-- Such an event keeps the trace as it is wanted. -/
theorem isChain_of_not_wrote (srv : server L ω) {s : session} (h : Replying srv s) {next : event}
    (hnext : next.is_wrote = false) : (s.trace ++ [next]).IsChain (RepliesTo srv) := by
  obtain ⟨pre, last, htrace, -⟩ := h.inv.last
  have hreplies := h.replies
  rw [htrace] at hreplies ⊢
  exact isChain_concat_iff.mpr ⟨hreplies, repliesTo_of_not_wrote srv last hnext⟩

theorem not_wrote_of_ends_turn {e : event} (h : e.ends_turn = true) : e.is_wrote = false := by
  cases e with
  | wrote res ec => cases h
  | delivered req => cases h
  | reads => rfl
  | ended => rfl
  | raised => rfl

/-- An event that is no response, behind which no reply is being written. -/
theorem replying_quiet {srv : server L ω} {s : session} (h : Replying srv s) {e : event}
    (he : e.is_wrote = false) {pc : session_pc} (hpc : ∀ rep, pc ≠ .writing rep)
    {ec : error_code} (hinv : Session.Inv { pc := pc, ec := ec, trace := s.trace ++ [e] }) :
    Replying srv { pc := pc, ec := ec, trace := s.trace ++ [e] } where
  inv := hinv
  replies := isChain_of_not_wrote srv h he
  writing := fun rep hrep => absurd hrep (hpc rep)

theorem replying_step {srv : server L ω} {s t : session} {a : action ω} (h : Replying srv s)
    (hst : do_session srv s a = some t) : Replying srv t := by
  have hinv := inv_step h.inv hst
  rcases do_session_cases hst with
    ⟨arrived, -, -, rfl⟩ | ⟨world, req, -, hpc, rfl⟩ | ⟨ec, rep, -, hpc, rfl⟩
  · cases arrived with
    | error e => exact replying_quiet h rfl (by simp) hinv
    | ok req => exact replying_quiet h rfl (by simp) hinv
  · -- the handler: its reply is one to the request that was delivered last
    have hclear := h.inv.clear req hpc
    unfold session.on_handle at hinv ⊢
    rw [hclear] at hinv ⊢
    cases hmake : request.make L.parse_url req with
    | none =>
        simp only [hmake] at hinv
        exact replying_quiet h rfl (by simp) hinv
    | some r =>
        simp only [hmake] at hinv ⊢
        cases hdispatch : srv.dispatch_request r none world with
        | mk out left =>
          simp only [hdispatch] at hinv ⊢
          cases out with
          | none => exact replying_quiet h rfl (by simp) hinv
          | some rep =>
              cases left with
              | some e => exact replying_quiet h rfl (by simp) hinv
              | none =>
                  refine ⟨hinv, h.replies, ?_⟩
                  intro rep' hrep
                  cases hrep
                  obtain ⟨pre, last, htrace, hlast⟩ := h.inv.last
                  rw [hpc] at hlast
                  obtain rfl : last = .delivered req := hlast
                  exact ⟨pre, req, htrace, r, world, hmake, hdispatch⟩
  · -- the write: the request it answers is still the last event
    obtain ⟨pre, req, htrace, hreply⟩ := h.writing rep hpc
    cases hrefused : (rep.response L).refused with
    | true =>
        rw [on_write_of_refused s hrefused] at hinv ⊢
        exact replying_quiet h rfl (by simp) hinv
    | false =>
        obtain ⟨pc, next, heq, hend, hlast, -, -⟩ := on_write_spec s hrefused ec
        rw [heq] at hinv ⊢
        refine ⟨hinv, ?_, ?_⟩
        · have hreplies := h.replies
          rw [htrace] at hreplies
          have hanswer : RepliesTo srv (.delivered req) (.wrote (rep.response L) ec) :=
            ⟨rep, hreply, rfl⟩
          have hnext := repliesTo_of_not_wrote srv (.wrote (rep.response L) ec)
            (not_wrote_of_ends_turn hend)
          change (s.trace ++ [.wrote (rep.response L) ec, next]).IsChain (RepliesTo srv)
          rw [htrace]
          exact isChain_concat_two_iff.mpr ⟨hreplies, hanswer, hnext⟩
        · intro rep' hrep
          -- the session waits for a request or is over
          have hpc' : pc = .writing rep' := hrep
          rw [hpc'] at hlast
          obtain ⟨req', rfl⟩ := hlast
          cases hend

/-- **Each response answers the request in front of it.** In every run of the server, for
every session: behind a request there is a response or the end of the session, behind a
response the next read or the end, and each response stands directly behind a request of the
same connection and is what `dispatch_request` replied to it. -/
theorem each_response_answers (srv : server L ω) (acts : List (move error_code (action ω)))
    (s : running_server) (hrun : run (serve srv) .start acts = some s) :
    ∀ p ∈ s.procs, p.trace.IsChain Ordered ∧ p.trace.IsChain (RepliesTo srv) := by
  intro p hp
  have hreplying := procs_invariant (replying_start srv)
    (fun _ _ _ h hst => replying_step h hst) hrun p hp
  exact ⟨hreplying.inv.ordered, hreplying.replies⟩

/-- Two sessions that read and answer in turns. -/
def two_sessions : List (move error_code (action Unit)) :=
  [.main none, .main none, .main none, .main none, .main none,
    .proc 0 (.read (.ok { method := .get, target := "/a".toList })), .main none,
    .proc 1 (.read (.ok { method := .get, target := "/b".toList })), .proc 0 (.handle ()),
    .proc 1 (.handle ()), .proc 1 (.write none), .proc 0 (.write none)]

theorem each_response_answers_two_sessions :
    ∃ s, run (serve bare_server) .start two_sessions = some s
      ∧ ∀ p ∈ s.procs, p.trace.IsChain Ordered ∧ p.trace.IsChain (RepliesTo bare_server) := by
  obtain ⟨s, hs⟩ := Option.isSome_iff_exists.mp (show (run (serve bare_server) .start
    two_sessions).isSome from by decide +kernel)
  exact ⟨s, hs, each_response_answers bare_server _ s hs⟩

end CppHttp.Listener
