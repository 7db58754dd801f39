/-
`dispatch_request` over whole registration histories.

A server is what its registrations have made of it: `register_service` and the six
functions named after methods, in any order (`registration`, `server.of_history`). The
table of a method holds the registrations for that method, in their order, and nothing
else (`matchers_of_history`).

`dispatch_request` goes over that table with one request, which every matcher writes
into. What makes its loop a search for the first matcher that does not reject the path is
`match_eq`: each kind of matcher looks at nothing but the path and overwrites both capture
fields, whether it accepts or not, so nothing of a failed attempt is left
(`find_service_eq`). The matcher that is found accepts the path, or it is a regex that
throws.
-/
import CppHttp.Server

set_option autoImplicit false

namespace CppHttp.Dispatch

open CppHttp.Errors CppHttp.HttpMessage CppHttp.Matcher CppHttp.Request CppHttp.Server
  CppHttp.ServerResponse CppHttp.StdString

variable {L : libraries} {ω : Type}

/-! ## Registrations -/

/-- A call that registers a service. -/
inductive registration (L : libraries) (ω : Type)
  | register_service (method : verb) (m : matcher L.regex) (s : service ω)
  | get (pattern : std_string) (s : service ω)
  | post (pattern : std_string) (s : service ω)
  | head (pattern : std_string) (s : service ω)
  | put (pattern : std_string) (s : service ω)
  | delete_ (pattern : std_string) (s : service ω)
  | options (pattern : std_string) (s : service ω)

/-- The call on a server. -/
def registration.perform (srv : server L ω) :
    registration L ω → Except fault (server L ω)
  | .register_service method m s => .ok (srv.register_service method m s)
  | .get pattern s => srv.get pattern s
  | .post pattern s => srv.post pattern s
  | .head pattern s => srv.head pattern s
  | .put pattern s => srv.put pattern s
  | .delete_ pattern s => srv.delete_ pattern s
  | .options pattern s => srv.options pattern s

/-- What the call leaves behind. `make_matcher` is an argument of `register_service`: if
it throws, no table has been touched. -/
def registration.apply (srv : server L ω) (r : registration L ω) : server L ω :=
  match r.perform srv with
  | .ok srv' => srv'
  | .error _ => srv

/-- A server after these calls. -/
def server.of_history (history : List (registration L ω)) : server L ω :=
  history.foldl registration.apply {}

/-- The method a service is registered for. -/
def registration.method : registration L ω → verb
  | .register_service method _ _ => method
  | .get _ _ => .get
  | .post _ _ => .post
  | .head _ _ => .head
  | .put _ _ => .put
  | .delete_ _ _ => .delete_
  | .options _ _ => .options

/-- The route of a pattern, if the pattern compiles. -/
def route_entry (pattern : std_string) (s : service ω) : Option (matcher L.regex × service ω) :=
  match make_matcher L.regex pattern with
  | .ok (m, _) => some (m, s)
  | .error _ => none

/-- What a registration adds to its table. -/
def registration.entry : registration L ω → Option (matcher L.regex × service ω)
  | .register_service _ m s => some (m, s)
  | .get pattern s => route_entry pattern s
  | .post pattern s => route_entry pattern s
  | .head pattern s => route_entry pattern s
  | .put pattern s => route_entry pattern s
  | .delete_ pattern s => route_entry pattern s
  | .options pattern s => route_entry pattern s

/-- The server has a table for the method. -/
def has_table : verb → Bool
  | .other _ => false
  | _ => true

/-- The routes registered for a method, in order. -/
def routes_for (method : verb) (history : List (registration L ω)) : routes L ω :=
  history.filterMap fun r => if r.method = method ∧ has_table method = true then r.entry else none

/-- `register_service` adds to the table of its method and leaves the others alone. -/
theorem matchers_register_service (srv : server L ω) (method : verb) (m : matcher L.regex)
    (s : service ω) (method' : verb) :
    (srv.register_service method m s).matchers method'
      = srv.matchers method'
        ++ if method = method' ∧ has_table method' = true then [(m, s)] else [] := by
  cases method <;> cases method' <;> simp [server.register_service, server.matchers, has_table]

/-- A route that does not compile changes nothing; another one is registered. -/
theorem apply_route (srv : server L ω) (method : verb) (pattern : std_string) (s : service ω) :
    (match srv.route method pattern s with
      | .ok srv' => srv'
      | .error _ => srv)
      = match route_entry pattern s with
        | some (m, s) => srv.register_service method m s
        | none => srv := by
  unfold server.route route_entry
  cases make_matcher L.regex pattern with
  | error e => rfl
  | ok p => rfl

/-- A registration is `register_service` with its method and its entry. -/
theorem apply_eq (srv : server L ω) (r : registration L ω) :
    r.apply srv = match r.entry with
      | some (m, s) => srv.register_service r.method m s
      | none => srv := by
  cases r with
  | register_service method m s => rfl
  | get pattern s => exact apply_route srv .get pattern s
  | post pattern s => exact apply_route srv .post pattern s
  | head pattern s => exact apply_route srv .head pattern s
  | put pattern s => exact apply_route srv .put pattern s
  | delete_ pattern s => exact apply_route srv .delete_ pattern s
  | options pattern s => exact apply_route srv .options pattern s

theorem matchers_apply (srv : server L ω) (r : registration L ω) (method : verb) :
    (r.apply srv).matchers method = srv.matchers method ++ routes_for method [r] := by
  rw [apply_eq]
  unfold routes_for
  cases hr : r.entry with
  | none =>
      simp [hr]
  | some entry =>
      obtain ⟨m, s⟩ := entry
      rw [matchers_register_service, List.filterMap_cons]
      by_cases h : r.method = method ∧ has_table method = true
      · simp [h, hr]
      · simp [h]

/-- The table of a method is what has been registered for it. -/
theorem matchers_of_history (history : List (registration L ω)) (method : verb) :
    (server.of_history history).matchers method = routes_for method history := by
  have hfold : ∀ srv : server L ω, (history.foldl registration.apply srv).matchers method
      = srv.matchers method ++ routes_for method history := by
    induction history with
    | nil => intro srv; simp [routes_for]
    | cons r history ih =>
        intro srv
        rw [List.foldl_cons, ih, matchers_apply, List.append_assoc]
        congr 1
        exact (List.filterMap_append (l := [r])).symm
  have hempty : ({} : server L ω).matchers method = [] := by cases method <;> rfl
  rw [server.of_history, hfold, hempty, List.nil_append]

/-! ## The loop as a search -/

/-- The matcher lets the loop go on to the next one. -/
def rejects {R : regex_library} (m : matcher R) (path : std_string) : Bool :=
  match answer m path with
  | .ok matched => !matched
  | .error _ => false

theorem rejects_iff {R : regex_library} {m : matcher R} {path : std_string} :
    rejects m path = true ↔ answer m path = .ok false := by
  unfold rejects
  cases answer m path with
  | ok matched => simp
  | error f => simp

/-- The loop finds the first matcher that does not reject the path: it throws if that one
throws, and else comes to its service, with the captures of this matcher. -/
theorem find_service_eq (table : routes L ω) (req : request) :
    find_service table req
      = match table.find? fun entry => !rejects entry.1 req.path with
        | none => .ok none
        | some (m, s) => (answer m req.path).map fun _ =>
            some (s, with_captures req (captures m req.path)) := by
  induction table generalizing req with
  | nil => rfl
  | cons entry rest ih =>
      obtain ⟨m, s⟩ := entry
      rw [find_service, match_eq, List.find?_cons]
      unfold rejects
      cases hm : answer m req.path with
      | error f => simp [hm, Except.map, bind, Except.bind]
      | ok matched =>
          cases matched with
          | true => simp [hm, Except.map, bind, Except.bind, pure, Except.pure]
          | false =>
              -- the path is as it was, and the captures are overwritten once more
              change find_service rest (with_captures req (captures m req.path)) = _
              rw [ih]
              rfl

/-- The service that is found is that of a matcher that accepts the path, behind matchers
that reject it, and the request has the captures of this matcher. -/
theorem find_service_eq_some {table : routes L ω} {req req' : request} {s : service ω}
    (h : find_service table req = .ok (some (s, req'))) :
    ∃ before m after, table = before ++ (m, s) :: after
      ∧ (∀ entry ∈ before, answer entry.1 req.path = .ok false)
      ∧ answer m req.path = .ok true
      ∧ req' = with_captures req (captures m req.path) := by
  rw [find_service_eq] at h
  cases hfind : table.find? fun entry => !rejects entry.1 req.path with
  | none =>
      rw [hfind] at h
      cases h
  | some entry =>
      obtain ⟨m, s'⟩ := entry
      obtain ⟨hstop, before, after, htable, hbefore⟩ := List.find?_eq_some_iff_append.mp hfind
      rw [hfind] at h
      cases hm : answer m req.path with
      | error f =>
          simp only [hm, Except.map] at h
          cases h
      | ok matched =>
          simp only [hm, Except.map, Except.ok.injEq, Option.some.injEq, Prod.mk.injEq] at h
          obtain ⟨rfl, rfl⟩ := h
          have hmatched : matched = true := by
            rw [← Bool.not_eq_false]
            rintro rfl
            rw [rejects_iff.mpr hm] at hstop
            cases hstop
          subst hmatched
          refine ⟨before, m, after, htable, ?_, hm, rfl⟩
          intro entry hentry
          exact rejects_iff.mp (by simpa using hbefore entry hentry)

/-! ## The first registered route -/

/-- `r` is the first registration for the method whose matcher does not reject the path: its
route is `m` and `s`. -/
def FirstDeciding (history : List (registration L ω)) (method : verb) (path : std_string)
    (m : matcher L.regex) (s : service ω) : Prop :=
  ∃ before r after, history = before ++ r :: after
    ∧ r.method = method ∧ has_table method = true ∧ r.entry = some (m, s)
    ∧ answer m path ≠ .ok false
    ∧ ∀ r' ∈ before, r'.method = method → ∀ m' s', r'.entry = some (m', s') →
        answer m' path = .ok false

/-- This is the one whose matcher accepts the path: those in front of it reject it. -/
def FirstAccepting (history : List (registration L ω)) (method : verb) (path : std_string)
    (m : matcher L.regex) (s : service ω) : Prop :=
  FirstDeciding history method path m s ∧ answer m path = .ok true

/-- Or its matcher neither accepts nor rejects the path: it is a regex, and
`std::regex_match` throws. -/
def FirstThrowing (history : List (registration L ω)) (method : verb) (path : std_string) :
    Prop :=
  ∃ pattern_ regex_ s, FirstDeciding history method path (.regex pattern_ regex_) s
    ∧ L.regex.regex_match path regex_ = none

/-- Each registration for the method has a matcher that rejects the path. -/
def NoneAccepting (history : List (registration L ω)) (method : verb) (path : std_string) :
    Prop :=
  has_table method = true →
    ∀ r ∈ history, r.method = method → ∀ m s, r.entry = some (m, s) → answer m path = .ok false

/-- Only the registrations for the method count. -/
theorem routes_for_filter (method : verb) (history : List (registration L ω)) :
    routes_for method (history.filter fun r => r.method = method)
      = routes_for method history := by
  unfold routes_for
  rw [List.filterMap_filter]
  congr 1
  funext r
  by_cases hr : r.method = method
  · simp [hr]
  · simp [hr]

theorem mem_routes_for {history : List (registration L ω)} {method : verb}
    {entry : matcher L.regex × service ω} :
    entry ∈ routes_for method history
      ↔ has_table method = true ∧ ∃ r ∈ history, r.method = method ∧ r.entry = some entry := by
  unfold routes_for
  rw [List.mem_filterMap]
  constructor
  · rintro ⟨r, hr, h⟩
    by_cases hand : r.method = method ∧ has_table method = true
    · rw [if_pos hand] at h
      exact ⟨hand.2, r, hr, hand.1, h⟩
    · rw [if_neg hand] at h
      cases h
  · rintro ⟨htable, r, hr, hmethod, h⟩
    refine ⟨r, hr, ?_⟩
    rw [if_pos ⟨hmethod, htable⟩]
    exact h

theorem find_eq_none_of_noneAccepting {history : List (registration L ω)} {method : verb}
    {path : std_string} (h : NoneAccepting history method path) :
    ((routes_for method history).find? fun entry => !rejects entry.1 path) = none := by
  rw [List.find?_eq_none]
  intro entry hentry
  obtain ⟨htable, r, hr, hmethod, he⟩ := mem_routes_for.mp hentry
  rw [rejects_iff.mpr (h htable r hr hmethod entry.1 entry.2 he)]
  decide

theorem find_eq_some_of_firstDeciding {history : List (registration L ω)} {method : verb}
    {path : std_string} {m : matcher L.regex} {s : service ω}
    (h : FirstDeciding history method path m s) :
    ((routes_for method history).find? fun entry => !rejects entry.1 path) = some (m, s) := by
  obtain ⟨before, r, after, rfl, hmethod, htable, hentry, hdecides, hbefore⟩ := h
  have hfront : ((routes_for method before).find? fun entry => !rejects entry.1 path) = none := by
    apply find_eq_none_of_noneAccepting
    intro _ r' hr' hm' m' s' he'
    exact hbefore r' hr' hm' m' s' he'
  have hsplit : routes_for method (before ++ r :: after)
      = routes_for method before ++ (m, s) :: routes_for method after := by
    unfold routes_for
    rw [List.filterMap_append, List.filterMap_cons, if_pos ⟨hmethod, htable⟩, hentry]
  have hstop : rejects m path = false := by
    rw [← Bool.not_eq_true, rejects_iff]
    exact hdecides
  rw [hsplit, List.find?_append, hfront, Option.none_or, List.find?_cons]
  simp only [hstop, Bool.not_false]

theorem firstDeciding_or_noneAccepting (history : List (registration L ω)) (method : verb)
    (path : std_string) :
    (∃ m s, FirstDeciding history method path m s) ∨ NoneAccepting history method path := by
  by_cases htable : has_table method = true
  · induction history with
    | nil => exact .inr (fun _ r hr => by cases hr)
    | cons r history ih =>
        by_cases hr : r.method = method
            ∧ ∃ m s, r.entry = some (m, s) ∧ answer m path ≠ .ok false
        · obtain ⟨hmethod, m, s, he, hdecides⟩ := hr
          exact .inl ⟨m, s, [], r, history, rfl, hmethod, htable, he, hdecides,
            fun r' hr' => by cases hr'⟩
        · have hreject : r.method = method → ∀ m s, r.entry = some (m, s) →
              answer m path = .ok false := by
            intro hmethod m s he
            by_contra hdecides
            exact hr ⟨hmethod, m, s, he, hdecides⟩
          rcases ih with ⟨m, s, before, r', after, rfl, hm', ht', he', hdec', hbefore⟩ | hnone
          · refine .inl ⟨m, s, r :: before, r', after, rfl, hm', ht', he', hdec', ?_⟩
            intro r'' hr''
            rcases List.mem_cons.mp hr'' with rfl | hmem
            · exact hreject
            · exact hbefore r'' hmem
          · refine .inr (fun ht r' hr' => ?_)
            rcases List.mem_cons.mp hr' with rfl | hmem
            · exact hreject
            · exact hnone ht r' hmem
  · exact .inr (fun ht => absurd ht htable)

/-- The first matcher that does not reject the path accepts it or throws. -/
theorem accepting_or_throwing {history : List (registration L ω)} {method : verb}
    {path : std_string} {m : matcher L.regex} {s : service ω}
    (h : FirstDeciding history method path m s) :
    FirstAccepting history method path m s ∨ FirstThrowing history method path := by
  cases hm : answer m path with
  | error f =>
      obtain ⟨pattern_, regex_, rfl, hthrows⟩ := throws_iff.mp ⟨f, hm⟩
      exact .inr ⟨pattern_, regex_, s, h, hthrows⟩
  | ok matched =>
      cases matched with
      | true => exact .inl ⟨h, hm⟩
      | false =>
          obtain ⟨_, _, _, _, _, _, _, hdecides, _⟩ := h
          exact absurd hm hdecides

/-- A ready-made response keeps the request's version and its wish about the
connection. -/
theorem text_response_keep_alive {C : connection_library} (hC : C.Documented) (status : ℕ)
    (body : std_string) (req : request_message) :
    (text_response C status body req).header_cref.keep_alive C = req.keep_alive C := by
  obtain ⟨f, hf, htext⟩ := text_fields_eq C req
  unfold text_response response.header_cref response_header.keep_alive
  rw [htext]
  exact keep_alive_set_keep_alive hC hf _ _

/-- The response answers the message with this status: it has its version, and is kept
alive if the message asks for it. -/
def Answers (C : connection_library) (res : response) (status : ℕ) (message : request_message) :
    Prop :=
  res.header_cref.result = status ∧ res.header_cref.version = message.version
    ∧ res.header_cref.keep_alive C = message.keep_alive C

/-- Only the table of the method of the request makes a difference. -/
theorem dispatch_congr {srv srv' : server L ω} {req : request}
    (h : srv'.matchers req.inner.method = srv.matchers req.inner.method) (ec : error_code)
    (world : ω) :
    srv'.dispatch_request req ec world = srv.dispatch_request req ec world
      ∧ server.calls srv' req ec world = server.calls srv req ec world := by
  unfold server.dispatch_request server.calls server.dispatch
  rw [h]
  exact ⟨rfl, rfl⟩

/-- At most one service is called. -/
theorem calls_length_le_one (srv : server L ω) (req : request) (ec : error_code) (world : ω) :
    (server.calls srv req ec world).length ≤ 1 := by
  rcases hfound : find_service (srv.matchers req.inner.method) req with f | _ | ⟨s, req'⟩
  · simp [(dispatch_of_error hfound ec world).2]
  · simp [(dispatch_of_none hfound ec world).2]
  · simp [(dispatch_of_some hfound ec world).2]

/-- The search through the table of such a history. -/
theorem find_service_of_firstDeciding {history : List (registration L ω)} {req : request}
    {m : matcher L.regex} {s : service ω}
    (h : FirstDeciding history req.inner.method req.path m s) :
    find_service ((server.of_history history).matchers req.inner.method) req
      = (answer m req.path).map fun _ =>
          some (s, with_captures req (captures m req.path)) := by
  rw [find_service_eq, matchers_of_history, find_eq_some_of_firstDeciding h]

theorem find_service_of_noneAccepting {history : List (registration L ω)} {req : request}
    (h : NoneAccepting history req.inner.method req.path) :
    find_service ((server.of_history history).matchers req.inner.method) req = .ok none := by
  rw [find_service_eq, matchers_of_history, find_eq_none_of_noneAccepting h]

/-- **Dispatching on a server with any registrations.** At most one service is called, and
registrations for other methods make no difference. It is the service registered first
among those for the method whose matcher accepts the path; it is called with what its
matcher makes of the request, and its response is returned unchanged, or its error as a
500. If there is none, nothing is called and the result is a 404. Both are built from the
request as it came. A matcher in front of it that neither accepts nor rejects the path is a
regex on which `std::regex_match` throws; then nothing is called, and the exception leaves
`dispatch_request`. -/
theorem dispatch_first_registered (hC : L.connection.Documented)
    (history : List (registration L ω)) (req : request) (ec : error_code) (world : ω) :
    (server.calls (server.of_history history) req ec world).length ≤ 1
      ∧ (∀ history' : List (registration L ω),
          (history'.filter fun r => r.method = req.inner.method)
            = (history.filter fun r => r.method = req.inner.method) →
          (server.of_history history').dispatch_request req ec world
              = (server.of_history history).dispatch_request req ec world
            ∧ server.calls (server.of_history history') req ec world
              = server.calls (server.of_history history) req ec world)
      ∧ (∀ m s, FirstAccepting history req.inner.method req.path m s →
          ∃ req', m.match_ req = .ok (true, req')
            ∧ server.calls (server.of_history history) req ec world = [(s, req')]
            ∧ (server.of_history history).dispatch_request req ec world
              = match s.handle_request req' ec world with
                | (.threw, ec) => (none, ec)
                | (.returned (.ok res), ec) => (some (.value res), ec)
                | (.returned (.error e), ec) => (some (.server_error req.inner e), ec))
      ∧ (NoneAccepting history req.inner.method req.path →
          server.calls (server.of_history history) req ec world = []
            ∧ (server.of_history history).dispatch_request req ec world
              = (some (.not_found req.inner), ec))
      ∧ (FirstThrowing history req.inner.method req.path →
          server.calls (server.of_history history) req ec world = []
            ∧ (server.of_history history).dispatch_request req ec world = (none, ec))
      ∧ ((∃ m s, FirstAccepting history req.inner.method req.path m s)
          ∨ NoneAccepting history req.inner.method req.path
          ∨ FirstThrowing history req.inner.method req.path)
      ∧ (∀ res, (reply.value res).response L = res)
      ∧ (∀ message e, Answers L.connection ((reply.server_error message e).response L) 500 message)
      ∧ ∀ message, Answers L.connection ((reply.not_found message).response L) 404 message
          ∧ ∃ header, (reply.not_found message).response L
            = .basic header
              ("The resource '".toList ++ message.target ++ "' was not found.".toList) := by
  refine ⟨calls_length_le_one _ _ _ _, ?_, ?_, ?_, ?_, ?_, fun _ => rfl, ?_, ?_⟩
  · intro history' hfilter
    apply dispatch_congr
    rw [matchers_of_history, matchers_of_history, ← routes_for_filter, hfilter,
      routes_for_filter]
  · rintro m s ⟨hfirst, hacc⟩
    have hfound := find_service_of_firstDeciding hfirst
    rw [hacc] at hfound
    obtain ⟨hres, hcalls⟩ := dispatch_of_some hfound ec world
    refine ⟨with_captures req (captures m req.path), ?_, hcalls, ?_⟩
    · rw [match_eq, hacc]
      rfl
    · rw [hres]
      unfold reply_to
      rcases s.handle_request (with_captures req (captures m req.path)) ec world with ⟨_ | _, ec'⟩
      · rfl
      · rfl
  · intro hnone
    exact (dispatch_of_none (find_service_of_noneAccepting hnone) ec world).symm
  · rintro ⟨pattern_, regex_, s, hfirst, hthrows⟩
    obtain ⟨f, hf⟩ := throws_iff.mpr ⟨pattern_, regex_, rfl, hthrows⟩
    have hfound := find_service_of_firstDeciding hfirst
    rw [hf] at hfound
    exact (dispatch_of_error hfound ec world).symm
  · rcases firstDeciding_or_noneAccepting history req.inner.method req.path with
      ⟨m, s, hfirst⟩ | hnone
    · rcases accepting_or_throwing hfirst with hacc | hthrows
      · exact .inl ⟨m, s, hacc⟩
      · exact .inr (.inr hthrows)
    · exact .inr (.inl hnone)
  · intro message e
    exact ⟨rfl, rfl, text_response_keep_alive hC _ _ _⟩
  · intro message
    exact ⟨⟨rfl, rfl, text_response_keep_alive hC _ _ _⟩, _, rfl⟩

/-- A service that greets. -/
def greeting : service Unit :=
  { handle_request := fun _ ec _ => (.returned (.ok (.basic {} "hello".toList)), ec) }

/-- A request for `/a`. -/
def get_a : request :=
  { inner := { method := .get, target := "/a".toList }, path := "/a".toList }

/-- Two services for `/a`, the first of them for another method. -/
theorem dispatch_first_registered_second_route :
    token_connection.Documented
      ∧ ∃ req', (matcher.regex "/a".toList "/a".toList : matcher literal_regex).match_ get_a
          = .ok (true, req')
        ∧ server.calls (@server.of_history plain_libraries Unit
            [.post "/a".toList greeting, .get "/a".toList greeting]) get_a none ()
          = [(greeting, req')] := by
  refine ⟨token_connection_documented, ?_⟩
  have hfirst : @FirstAccepting plain_libraries Unit
      [.post "/a".toList greeting, .get "/a".toList greeting] .get "/a".toList
      (.regex "/a".toList "/a".toList) greeting := by
    refine ⟨⟨[.post "/a".toList greeting], .get "/a".toList greeting, [], rfl, rfl, rfl, rfl,
      by decide, ?_⟩, by decide⟩
    intro r hr hmethod
    rw [List.mem_singleton.mp hr] at hmethod
    cases hmethod
  obtain ⟨req', hmatch, hcalls, -⟩ := (@dispatch_first_registered plain_libraries Unit
    token_connection_documented [.post "/a".toList greeting, .get "/a".toList greeting] get_a
    none ()).2.2.1 _ _ hfirst
  exact ⟨req', hmatch, hcalls⟩

/-! ## What the service sees -/

/-- The request as it was made, without captures. -/
def fresh (req : request) : request := with_captures req ({}, [])

/-- **The called service sees its own captures only.** For every table of routes of both
kinds: the request it is handed is what the matcher of its route alone makes of a fresh
copy, whatever the matchers tried before it have left behind; the message, the path and
the query parameters are those of the request. -/
theorem service_sees_own_captures (srv : server L ω) (req : request) (ec : error_code)
    (world : ω) (s : service ω) (req' : request) (h : (s, req') ∈ server.calls srv req ec world) :
    ∃ before m after, srv.matchers req.inner.method = before ++ (m, s) :: after
      ∧ (∀ entry ∈ before, ∃ r, entry.1.match_ (fresh req) = .ok (false, r))
      ∧ m.match_ (fresh req) = .ok (true, req')
      ∧ req'.inner = req.inner ∧ req'.path = req.path ∧ req'.query_params = req.query_params
      ∧ srv.dispatch_request req ec world
        = reply_to req.inner (s.handle_request req' ec world) := by
  rcases hfound : find_service (srv.matchers req.inner.method) req with f | _ | ⟨s', found⟩
  · rw [(dispatch_of_error hfound ec world).2] at h
    cases h
  · rw [(dispatch_of_none hfound ec world).2] at h
    cases h
  · obtain ⟨hresult, hcalls⟩ := dispatch_of_some hfound ec world
    rw [hcalls, List.mem_singleton, Prod.mk.injEq] at h
    obtain ⟨rfl, rfl⟩ := h
    obtain ⟨before, m, after, htable, hbefore, hacc, rfl⟩ := find_service_eq_some hfound
    refine ⟨before, m, after, htable, ?_, ?_, rfl, rfl, rfl, hresult⟩
    · intro entry hentry
      refine ⟨with_captures (fresh req) (captures entry.1 req.path), ?_⟩
      rw [match_eq, show (fresh req).path = req.path from rfl, hbefore entry hentry]
      rfl
    · rw [match_eq, show (fresh req).path = req.path from rfl, hacc]
      rfl

/-- A path-parameter route that captures `x` from `/a` and then fails. -/
def failing_route : matcher literal_regex :=
  .path_params { pattern_ := "/a:x/b".toList, static_fragments_ := ["/a".toList, "b".toList]
                 param_names_ := ["x".toList] }

/-- This route in front of a regex route. -/
def two_routes : server plain_libraries Unit where
  get_services_ := [(failing_route, greeting), (.regex "/a".toList "/a".toList, greeting)]

/-- The service of the second route does not see what the first has captured. -/
theorem service_sees_own_captures_second_route :
    (captures failing_route get_a.path).1.find "x".toList = some []
      ∧ (greeting, with_captures get_a ({}, ["/a".toList])) ∈ server.calls two_routes get_a none ()
      ∧ ∃ before m after, two_routes.get_services_ = before ++ (m, greeting) :: after
        ∧ m.match_ (fresh get_a) = .ok (true, with_captures get_a ({}, ["/a".toList])) := by
  have hcall : (greeting, with_captures get_a ({}, ["/a".toList]))
      ∈ server.calls two_routes get_a none () := List.mem_singleton.mpr rfl
  refine ⟨by decide, hcall, ?_⟩
  obtain ⟨before, m, after, htable, -, hmatch, -⟩ :=
    service_sees_own_captures two_routes get_a none () _ _ hcall
  exact ⟨before, m, after, htable, hmatch⟩

end CppHttp.Dispatch
