/-
`class server` without its connections: the route tables, their registration, and
`dispatch_request`.

A service is whatever its author makes of it. It sees the request its matcher has
filled in, the error code its `yield` is bound to, and a world it shares with every
other coroutine of the program; it returns a result or throws, and it leaves an error
code. Everything below holds for every such function.

`dispatch_request` hands the request to one matcher after the other until one accepts or
throws, so it is a search (`find_service`) followed by at most one call, which `dispatched`
records. What it answers with is one of three replies, and the two it makes up itself are
built from the copy of the request it took before the matchers saw it.

A matcher that throws ends the search, and with it the dispatch, without a reply. So what it
takes for an answer is that no matcher throws that is tried, and that the service behind it
returns (`dispatch_answers_iff`).
-/
import CppHttp.Errors
import CppHttp.Matcher
import CppHttp.ServerResponse

set_option autoImplicit false

namespace CppHttp.Server

open CppHttp.Errors CppHttp.HttpMessage CppHttp.Matcher CppHttp.Request CppHttp.ServerResponse
  CppHttp.StdString

/-- The libraries the server is written with. -/
structure libraries where
  regex : regex_library
  connection : connection_library
  /-- The constructor of `boost::urls::url_view`; `none` is its exception. -/
  parse_url : std_string → Option url_view
  /-- `boost::system::error_code::to_string` -/
  error_to_string : error_code → std_string

variable (L : libraries) (ω : Type)

/-! ## Services and routes -/

/-- How a handler ends. -/
inductive handled
  | returned (res : result response)
  | threw

/-- `class service`: `handle_request(request, yield)` in a world, with the error code it
finds behind `yield` and the one it leaves there. -/
structure service where
  handle_request : request → error_code → ω → handled × error_code

/-- `std::vector<std::pair<std::unique_ptr<matcher>, std::unique_ptr<service>>>`. -/
abbrev routes := List (matcher L.regex × service ω)

/-- `class server`: one table for each method it serves. -/
structure server where
  get_services_ : routes L ω := []
  post_services_ : routes L ω := []
  head_services_ : routes L ω := []
  put_services_ : routes L ω := []
  delete_services_ : routes L ω := []
  options_services_ : routes L ω := []

variable {L ω}

/-- `server::register_service`. A method without a table is not registered. -/
def server.register_service (srv : server L ω) (method : verb) (m : matcher L.regex)
    (s : service ω) : server L ω :=
  match method with
  | .get => { srv with get_services_ := srv.get_services_ ++ [(m, s)] }
  | .post => { srv with post_services_ := srv.post_services_ ++ [(m, s)] }
  | .head => { srv with head_services_ := srv.head_services_ ++ [(m, s)] }
  | .put => { srv with put_services_ := srv.put_services_ ++ [(m, s)] }
  | .delete_ => { srv with delete_services_ := srv.delete_services_ ++ [(m, s)] }
  | .options => { srv with options_services_ := srv.options_services_ ++ [(m, s)] }
  | .other _ => srv

/-- The common shape of `get`, `post`, `head`, `put`, `delete_` and `options`. -/
def server.route (srv : server L ω) (method : verb) (pattern : std_string) (s : service ω) :
    Except fault (server L ω) := do
  let (m, _) ← make_matcher L.regex pattern
  return srv.register_service method m s

def server.get (srv : server L ω) (pattern : std_string) (s : service ω) :
    Except fault (server L ω) := srv.route .get pattern s

def server.post (srv : server L ω) (pattern : std_string) (s : service ω) :
    Except fault (server L ω) := srv.route .post pattern s

def server.head (srv : server L ω) (pattern : std_string) (s : service ω) :
    Except fault (server L ω) := srv.route .head pattern s

def server.put (srv : server L ω) (pattern : std_string) (s : service ω) :
    Except fault (server L ω) := srv.route .put pattern s

def server.delete_ (srv : server L ω) (pattern : std_string) (s : service ω) :
    Except fault (server L ω) := srv.route .delete_ pattern s

def server.options (srv : server L ω) (pattern : std_string) (s : service ω) :
    Except fault (server L ω) := srv.route .options pattern s

/-- The `switch` of `dispatch_request`. -/
def server.matchers (srv : server L ω) : verb → routes L ω
  | .get => srv.get_services_
  | .post => srv.post_services_
  | .head => srv.head_services_
  | .put => srv.put_services_
  | .delete_ => srv.delete_services_
  | .options => srv.options_services_
  | .other _ => []

/-! ## Dispatching a request -/

/-- The loop over the matchers. They share one request: each overwrites the captures of
the one before it, and the service gets what the accepting matcher left. -/
def find_service : routes L ω → request → Except fault (Option (service ω × request))
  | [], _ => .ok none
  | (m, s) :: rest, req => do
      let (matched, req) ← m.match_ req
      if matched then return some (s, req) else find_service rest req

/-- What `dispatch_request` answers with, by the statement it returns from. -/
inductive reply
  /-- `return std::move(res).value()` -/
  | value (res : response)
  /-- `return response{server_error(request, res.error().to_string())}` -/
  | server_error (req : request_message) (e : error_code)
  /-- `return response{not_found(request)}` -/
  | not_found (req : request_message)

/-- The response of a reply. -/
def reply.response (L : libraries) : reply → response
  | .value res => res
  | .server_error req e => ServerResponse.server_error L.connection req (L.error_to_string e)
  | .not_found req => ServerResponse.not_found L.connection req

/-- Beast refuses to send the reply. The two texts have statuses with a body. -/
def reply.refused : reply → Bool
  | .value res => res.refused
  | .server_error _ _ => false
  | .not_found _ => false

theorem reply.response_refused (L : libraries) (rep : reply) :
    (rep.response L).refused = rep.refused := by
  cases rep with
  | value res => rfl
  | server_error req e => rfl
  | not_found req => rfl

/-- What `dispatch_request` makes of the result of the service it has called. -/
def reply_to (message : request_message) : handled × error_code → Option reply × error_code
  | (.threw, ec) => (none, ec)
  | (.returned (.ok res), ec) => (some (.value res), ec)
  | (.returned (.error e), ec) => (some (.server_error message e), ec)

/-- What a run of `dispatch_request` comes to: its result (`none` is an exception that leaves
it), the error code behind its `yield`, and the services it has called with the requests it
has handed them. -/
structure dispatched (ω : Type) where
  result : Option reply
  ec : error_code
  calls : List (service ω × request)

/-- A run of `server::dispatch_request`. -/
def server.dispatch (srv : server L ω) (req : request) (ec : error_code) (world : ω) :
    dispatched ω :=
  let request := req.inner
  match find_service (srv.matchers req.inner.method) req with
  | .error _ => { result := none, ec := ec, calls := [] }
  | .ok none => { result := some (.not_found request), ec := ec, calls := [] }
  | .ok (some (s, req)) =>
      let (result, ec) := reply_to request (s.handle_request req ec world)
      { result := result, ec := ec, calls := [(s, req)] }

/-- `server::dispatch_request`, with the error code behind its `yield`. -/
def server.dispatch_request (srv : server L ω) (req : request) (ec : error_code) (world : ω) :
    Option reply × error_code :=
  ((srv.dispatch req ec world).result, (srv.dispatch req ec world).ec)

/-- The services it calls, with the requests it hands them. -/
def server.calls (srv : server L ω) (req : request) (ec : error_code) (world : ω) :
    List (service ω × request) :=
  (srv.dispatch req ec world).calls

/-- An exception of a matcher leaves `dispatch_request`. -/
theorem dispatch_of_error {srv : server L ω} {req : request} {f : fault}
    (h : find_service (srv.matchers req.inner.method) req = .error f) (ec : error_code)
    (world : ω) :
    srv.dispatch_request req ec world = (none, ec) ∧ srv.calls req ec world = [] := by
  unfold server.dispatch_request server.calls server.dispatch
  simp only [h, and_self]

/-- Without a service there is a 404. -/
theorem dispatch_of_none {srv : server L ω} {req : request}
    (h : find_service (srv.matchers req.inner.method) req = .ok none) (ec : error_code)
    (world : ω) :
    srv.dispatch_request req ec world = (some (.not_found req.inner), ec)
      ∧ srv.calls req ec world = [] := by
  unfold server.dispatch_request server.calls server.dispatch
  simp only [h, and_self]

/-- A service that is found is called once, and what it does makes the reply. -/
theorem dispatch_of_some {srv : server L ω} {req req' : request} {s : service ω}
    (h : find_service (srv.matchers req.inner.method) req = .ok (some (s, req')))
    (ec : error_code) (world : ω) :
    srv.dispatch_request req ec world = reply_to req.inner (s.handle_request req' ec world)
      ∧ srv.calls req ec world = [(s, req')] := by
  unfold server.dispatch_request server.calls server.dispatch
  simp only [h, and_self]

/-- A reply comes of a service that returns. -/
theorem reply_to_eq_some_iff {message : request_message} {h : handled × error_code}
    {rep : reply} {ec : error_code} :
    reply_to message h = (some rep, ec)
      ↔ (∃ res, h = (.returned (.ok res), ec) ∧ rep = .value res)
        ∨ ∃ e, h = (.returned (.error e), ec) ∧ rep = .server_error message e := by
  rcases h with ⟨(res | e) | _, left⟩
  · simp [reply_to, eq_comm, and_comm]
  · simp [reply_to, eq_comm, and_comm]
  · simp [reply_to]

/-! ## When it answers -/

/-- No `std::regex_match` throws that the loop comes to: one behind none but matchers that
reject the path. -/
def NoneThrows (table : routes L ω) (path : std_string) : Prop :=
  ∀ before pattern_ regex_ s after, table = before ++ (.regex pattern_ regex_, s) :: after →
    (∀ entry ∈ before, answer entry.1 path = .ok false) →
    (L.regex.regex_match path regex_).isSome = true

theorem noneThrows_cons (m : matcher L.regex) (s : service ω) (rest : routes L ω)
    (path : std_string) :
    NoneThrows ((m, s) :: rest) path
      ↔ (∃ matched, answer m path = .ok matched)
        ∧ (answer m path = .ok false → NoneThrows rest path) := by
  constructor
  · intro h
    refine ⟨?_, ?_⟩
    · cases hm : answer m path with
      | ok matched => exact ⟨matched, rfl⟩
      | error f =>
          obtain ⟨pattern_, regex_, rfl, hthrows⟩ := throws_iff.mp ⟨f, hm⟩
          have hsome := h [] pattern_ regex_ s rest rfl (by simp)
          rw [hthrows] at hsome
          cases hsome
    · intro hm before pattern_ regex_ s' after htable hbefore
      refine h ((m, s) :: before) pattern_ regex_ s' after (by rw [htable]; rfl) ?_
      exact List.forall_mem_cons.mpr ⟨hm, hbefore⟩
  · rintro ⟨⟨matched, hm⟩, hrest⟩ before pattern_ regex_ s' after htable hbefore
    cases before with
    | nil =>
        -- the matcher is this regex, and it has answered
        obtain ⟨hhead, -⟩ := List.cons.inj htable
        obtain ⟨rfl, -⟩ := Prod.mk.inj hhead
        rw [← Option.ne_none_iff_isSome]
        intro hthrows
        obtain ⟨f, hf⟩ := throws_iff.mpr ⟨pattern_, regex_, rfl, hthrows⟩
        rw [hm] at hf
        cases hf
    | cons entry before =>
        obtain ⟨rfl, htail⟩ := List.cons.inj htable
        obtain ⟨hfirst, hbefore⟩ := List.forall_mem_cons.mp hbefore
        exact hrest hfirst before pattern_ regex_ s' after htail hbefore

/-- The search ends without an exception exactly if no matcher that it tries throws. -/
theorem find_service_returns_iff (table : routes L ω) (req : request) :
    (∃ found, find_service table req = .ok found) ↔ NoneThrows table req.path := by
  induction table generalizing req with
  | nil =>
      refine iff_of_true ⟨none, rfl⟩ ?_
      intro before pattern_ regex_ s after htable
      simp at htable
  | cons entry rest ih =>
      obtain ⟨m, s⟩ := entry
      rw [noneThrows_cons, find_service, match_eq]
      cases hm : answer m req.path with
      | error f => simp [Except.map, bind, Except.bind]
      | ok matched =>
          cases matched with
          | true => simp [Except.map, bind, Except.bind, pure, Except.pure]
          | false =>
              have hrest : (∃ found, find_service rest (with_captures req (captures m req.path))
                  = .ok found) ↔ NoneThrows rest req.path := ih _
              simpa [Except.map, bind, Except.bind] using hrest

/-- No matcher that is tried for the request throws, and of the service that is called for
it, if one is, `P` says what it does there. -/
structure server.Handles (srv : server L ω) (req : request) (world : ω)
    (P : handled × error_code → Prop) : Prop where
  searched : NoneThrows (srv.matchers req.inner.method) req.path
  handled : ∀ s req', find_service (srv.matchers req.inner.method) req = .ok (some (s, req')) →
    P (s.handle_request req' none world)

/-- `dispatch_request` answers, with its error code clear, exactly if no matcher it tries
throws and the service it calls returns and leaves the code clear. -/
theorem dispatch_answers_iff (srv : server L ω) (req : request) (world : ω) :
    (∃ rep, srv.dispatch_request req none world = (some rep, none))
      ↔ srv.Handles req world fun h => ∃ res, h = (.returned res, none) := by
  have hreturns := find_service_returns_iff (srv.matchers req.inner.method) req
  rcases hfound : find_service (srv.matchers req.inner.method) req with f | _ | ⟨s, req'⟩
  · rw [(dispatch_of_error hfound none world).1]
    refine iff_of_false (by simp) ?_
    rintro ⟨hsearched, -⟩
    obtain ⟨found, hok⟩ := hreturns.mpr hsearched
    rw [hfound] at hok
    cases hok
  · -- the 404 does not touch the error code
    refine iff_of_true ⟨_, (dispatch_of_none hfound none world).1⟩ ⟨hreturns.mp ⟨_, hfound⟩, ?_⟩
    intro s req' h
    rw [hfound] at h
    cases h
  · simp only [(dispatch_of_some hfound none world).1, reply_to_eq_some_iff]
    constructor
    · rintro ⟨rep, h⟩
      refine ⟨hreturns.mp ⟨_, hfound⟩, ?_⟩
      intro s' r' hs'
      rw [hfound, Except.ok.injEq, Option.some.injEq, Prod.mk.injEq] at hs'
      obtain ⟨rfl, rfl⟩ := hs'
      rcases h with ⟨res, h, -⟩ | ⟨e, h, -⟩
      · exact ⟨_, h⟩
      · exact ⟨_, h⟩
    · rintro ⟨-, hhandled⟩
      obtain ⟨res, h⟩ := hhandled s req' hfound
      cases res with
      | ok res => exact ⟨.value res, .inl ⟨res, h, rfl⟩⟩
      | error e => exact ⟨.server_error req.inner e, .inr ⟨e, h, rfl⟩⟩

/-! ## Libraries to run the server with -/

/-- A hexadecimal digit. -/
def is_hex (c : Char) : Bool :=
  c.isDigit || (decide ('a' ≤ c) && decide (c ≤ 'f')) || (decide ('A' ≤ c) && decide (c ≤ 'F'))

/-- Every `%` is followed by two hexadecimal digits. -/
def percent_valid : std_string → Bool
  | [] => true
  | ['%'] => false
  | ['%', _] => false
  | '%' :: a :: b :: s => is_hex a && is_hex b && percent_valid s
  | _ :: s => percent_valid s

/-- Targets without a query: the path, unless an escape in it is malformed. -/
def parse_path (target : std_string) : Option url_view :=
  if percent_valid target then some { encoded_path := target, params := [] } else none

/-- Libraries for texts without special characters. -/
def plain_libraries : libraries where
  regex := literal_regex
  connection := token_connection
  parse_url := parse_path
  error_to_string _ := "error".toList

end CppHttp.Server
