/-
`client/client.hpp` and the request of `client/request_builder.hpp`: sending a request
and following redirects.

`send` picks one of two functions by the scheme of the URL, and each of them ends by
calling `send` again if the response is a redirect. The two differ in how they get to a
connection (`connect_http`, `connect_https`) and are the same from there on. The recursion
is tied in `send` alone, with fuel; the functions under it take what they call as an
argument.

What is on the other side, name resolution, TLS and the servers, is the parameter
`network`: it answers every operation of every hop as it likes.

The limit on redirects is tested with `redirect_count > req.max_redirects` before the
count is raised, so it is one redirect late: `follows_limit_iff` says that the limit is
kept exactly if it is not reached, that is, if one of the first `max_redirects + 1`
responses is not a redirect that can be followed.
-/
import CppHttp.Errors
import CppHttp.HttpMessage

set_option autoImplicit false

namespace CppHttp.Client

open CppHttp.Errors CppHttp.HttpMessage CppHttp.StdString

/-! ## Requests and responses -/

/-- `boost::urls::scheme`, as far as it is looked at. -/
inductive scheme
  | http
  | https
  | other
  deriving DecidableEq, Repr

/-- What is read of a `boost::urls::url`; the port number is zero if there is none. -/
structure url where
  scheme_id : scheme
  host_address : std_string
  port_number : UInt16 := 0
  encoded_target : std_string
  deriving DecidableEq, Repr

/-- `struct http_request`. -/
structure http_request where
  url : url
  request : request_message
  auto_redirect : Bool := true
  max_redirects : UInt64 := 5
  timeout_ms : UInt64 := 5000
  deriving DecidableEq, Repr

/-- A connection: the hop it is made for, whether it speaks TLS, and the time it was last
given, in milliseconds. -/
structure stream where
  hop : ℕ
  secure : Bool
  expires : Option UInt64
  deriving DecidableEq, Repr

/-- The client's `response`, once its header has been read. -/
structure response where
  stream : stream
  header : response_header
  deriving DecidableEq, Repr

/-- What the code calls that is not part of it. -/
structure network where
  /-- The endpoints a name resolves to. -/
  endpoints : Type
  /-- `resolver.async_resolve(host, port)` -/
  async_resolve : ℕ → std_string → std_string → Except error endpoints
  /-- `stream.async_connect(endpoints)` -/
  async_connect : stream → endpoints → error_code
  /-- `SSL_set_tlsext_host_name` and `ERR_get_error` -/
  set_tlsext_host_name : stream → std_string → error_code
  /-- `ssl_stream.async_handshake` -/
  async_handshake : stream → endpoints → error_code
  /-- `async_write(stream, request)` -/
  async_write : stream → endpoints → request_message → error_code
  /-- The `async_read_header` of `response::init_parser`. -/
  async_read_header : stream → endpoints → request_message → Except error response_header
  /-- The constructor of `boost::urls::url`; `none` is its exception. -/
  parse_url : std_string → Option url

/-- `boost::beast::http::error::bad_field`, in the category of Beast's HTTP errors. -/
def bad_field : error := .other 1 17

/-- `boost::beast::errc::protocol_error`, in the generic category. -/
def protocol_error : error := .other 0 71

/-- `response::is_redirection` -/
def response.is_redirection (resp : response) : Bool :=
  resp.header.result == 301 || resp.header.result == 302 || resp.header.result == 303
    || resp.header.result == 307 || resp.header.result == 308

variable (N : network)

/-- `response::redirect_url` -/
def response.redirect_url (resp : response) : Option url :=
  if !resp.is_redirection then none
  else
    let loc := resp.header.fields.get "Location".toList
    if loc.isEmpty then none else N.parse_url loc

/-! ## One hop -/

def user_agent : std_string := "cpp-http/client".toList

/-- `resolve` -/
def resolve (hop : ℕ) (url : url) : Except error N.endpoints :=
  let host := url.host_address
  let is_https := url.scheme_id == .https
  let port : UInt64 :=
    if url.port_number > 0 then url.port_number.toUInt64 else if is_https then 443 else 80
  N.async_resolve hop host (to_string port)

/-- The request as it is written to the host of the URL. -/
def addressed (url : url) (request : request_message) : request_message :=
  { request with
    target := url.encoded_target
    fields := fields.set (request.fields.set "Host".toList url.host_address)
      "User-Agent".toList user_agent }

/-- `if (req.timeout_ms > 0) stream.expires_after(req.timeout_ms)` -/
def stream.expires_after (s : stream) (timeout_ms : UInt64) : stream :=
  if timeout_ms > 0 then { s with expires := some timeout_ms } else s

/-- What can be seen of a hop: a request is written, a redirect is followed. -/
inductive event
  | request (url : url) (message : request_message)
  | redirect (url : url)
  deriving DecidableEq, Repr

/-- `if (ec) return ec;` -/
def check : error_code → Except error Unit
  | some e => .error e
  | none => .ok ()

/-- `send_http` up to the connection. -/
def connect_http (req : http_request) (hop : ℕ) : Except error (stream × N.endpoints) := do
  let stream : stream := { hop := hop, secure := false, expires := none }
  let stream := stream.expires_after req.timeout_ms
  let endpoints ← resolve N hop req.url
  check (N.async_connect stream endpoints)
  return (stream, endpoints)

/-- `send_https` up to the connection: the host name goes into the handshake, and the time
starts afresh for connecting, for the handshake and for writing. -/
def connect_https (req : http_request) (hop : ℕ) : Except error (stream × N.endpoints) := do
  let endpoints ← resolve N hop req.url
  let stream : stream := { hop := hop, secure := true, expires := none }
  check (N.set_tlsext_host_name stream req.url.host_address)
  let stream := stream.expires_after req.timeout_ms
  check (N.async_connect stream endpoints)
  let stream := stream.expires_after req.timeout_ms
  check (N.async_handshake stream endpoints)
  return (stream.expires_after req.timeout_ms, endpoints)

/-- A hop up to the response: what has been written, and the request as it was written
with the response to it. -/
structure exchange where
  events : List event
  outcome : Except error (request_message × response)

/-- Writing the request and reading the header, on a connection that has been made. The
deadline is lifted once the header is there. -/
def converse (req : http_request) : Except error (stream × N.endpoints) → exchange
  | .error e => { events := [], outcome := .error e }
  | .ok (stream, endpoints) =>
      let request := addressed req.url req.request
      { events := [.request req.url request]
        outcome := do
          check (N.async_write stream endpoints request)
          let header ← N.async_read_header stream endpoints request
          return (request, { stream := { stream with expires := none }, header := header }) }

/-! ## Sending -/

/-- What sending comes to; without a result the fuel has run out. -/
structure sent where
  events : List event
  result : Option (Except error response)

/-- The same behind earlier events. -/
def sent.after (s : sent) (es : List event) : sent := { s with events := es ++ s.events }

/-- `send_http`, which calls `next` for `send`. -/
def send_http (next : http_request → UInt64 → ℕ → sent) (req : http_request)
    (redirect_count : UInt64) (hop : ℕ) : sent :=
  let x := converse N req (connect_http N req hop)
  match x.outcome with
  | .error e => { events := x.events, result := some (.error e) }
  | .ok (request, resp) =>
      if resp.is_redirection && req.auto_redirect then
        match resp.redirect_url N with
        | none => { events := x.events, result := some (.error bad_field) }
        | some loc =>
            if redirect_count > req.max_redirects then
              { events := x.events, result := some (.error protocol_error) }
            else
              (next { req with request := request, url := loc } (redirect_count + 1)
                (hop + 1)).after (x.events ++ [.redirect loc])
      else { events := x.events, result := some (.ok resp) }

/-- `send_https` -/
def send_https (next : http_request → UInt64 → ℕ → sent) (req : http_request)
    (redirect_count : UInt64) (hop : ℕ) : sent :=
  let x := converse N req (connect_https N req hop)
  match x.outcome with
  | .error e => { events := x.events, result := some (.error e) }
  | .ok (request, resp) =>
      if resp.is_redirection && req.auto_redirect then
        match resp.redirect_url N with
        | none => { events := x.events, result := some (.error bad_field) }
        | some loc =>
            if redirect_count > req.max_redirects then
              { events := x.events, result := some (.error protocol_error) }
            else
              (next { req with request := request, url := loc } (redirect_count + 1)
                (hop + 1)).after (x.events ++ [.redirect loc])
      else { events := x.events, result := some (.ok resp) }

/-- `send` with a redirect count, for so many hops. -/
def send_from : ℕ → http_request → UInt64 → ℕ → sent
  | 0, _, _, _ => { events := [], result := none }
  | fuel + 1, req, redirect_count, hop =>
      if req.url.scheme_id = .https then
        send_https N (send_from fuel) req redirect_count hop
      else send_http N (send_from fuel) req redirect_count hop

/-- `send` -/
def send (fuel : ℕ) (req : http_request) : sent := send_from N fuel req 0 0

/-- The requests written. -/
def sent.requests (s : sent) : ℕ :=
  s.events.countP fun
    | .request _ _ => true
    | .redirect _ => false

/-- The redirects followed. -/
def sent.redirects (s : sent) : ℕ :=
  s.events.countP fun
    | .request _ _ => false
    | .redirect _ => true

/-! ## Chains of redirects -/

/-- A hop up to the response, by the scheme of its URL. -/
def exchange_of (req : http_request) (hop : ℕ) : exchange :=
  converse N req
    (if req.url.scheme_id = .https then connect_https N req hop else connect_http N req hop)

/-- The request that follows a hop, if its response is a redirect with a usable
`Location`. -/
def redirected (req : http_request) (hop : ℕ) : Option http_request :=
  match (exchange_of N req hop).outcome with
  | .error _ => none
  | .ok (request, resp) =>
      (resp.redirect_url N).map fun loc => { req with request := request, url := loc }

/-- The request of a hop, if all hops in front of it are answered with redirects that can
be followed. -/
def reach (req : http_request) : ℕ → Option http_request
  | 0 => some req
  | hop + 1 => (reach req hop).bind fun r => redirected N r hop

variable {N}

/-- A hop writes one request at most, and exactly one if there is a response. -/
theorem exchange_of_events (req : http_request) (hop : ℕ) :
    ((exchange_of N req hop).events = [] ∧ ∃ e, (exchange_of N req hop).outcome = .error e)
      ∨ ∃ message, (exchange_of N req hop).events = [.request req.url message] := by
  unfold exchange_of
  generalize (if req.url.scheme_id = .https then connect_https N req hop
    else connect_http N req hop) = opened
  cases opened with
  | error e => exact .inl ⟨rfl, e, rfl⟩
  | ok p => exact .inr ⟨_, rfl⟩

/-- One call of `send`: the scheme decides about the connection and nothing else. -/
theorem send_from_succ (fuel : ℕ) (req : http_request) (redirect_count : UInt64) (hop : ℕ) :
    send_from N (fuel + 1) req redirect_count hop
      = match (exchange_of N req hop).outcome with
        | .error e => { events := (exchange_of N req hop).events, result := some (.error e) }
        | .ok (request, resp) =>
            if resp.is_redirection && req.auto_redirect then
              match resp.redirect_url N with
              | none =>
                  { events := (exchange_of N req hop).events, result := some (.error bad_field) }
              | some loc =>
                  if redirect_count > req.max_redirects then
                    { events := (exchange_of N req hop).events,
                      result := some (.error protocol_error) }
                  else
                    (send_from N fuel { req with request := request, url := loc }
                      (redirect_count + 1) (hop + 1)).after
                      ((exchange_of N req hop).events ++ [.redirect loc])
            else { events := (exchange_of N req hop).events, result := some (.ok resp) } := by
  rw [send_from]
  unfold exchange_of
  by_cases h : req.url.scheme_id = .https
  · rw [if_pos h, if_pos h]
    rfl
  · rw [if_neg h, if_neg h]
    rfl

/-- The number of redirects and of requests add up. -/
theorem redirects_after (s : sent) (es : List event) :
    (s.after es).redirects = sent.redirects { events := es, result := none } + s.redirects :=
  List.countP_append

theorem requests_after (s : sent) (es : List event) :
    (s.after es).requests = sent.requests { events := es, result := none } + s.requests :=
  List.countP_append

theorem send_from_redirected {req r : http_request} {hop : ℕ} {redirect_count : UInt64}
    (hauto : req.auto_redirect = true) (h : redirected N req hop = some r)
    (hcount : ¬ redirect_count > req.max_redirects) :
    r.auto_redirect = true ∧ r.max_redirects = req.max_redirects
      ∧ ∃ message loc, ∀ fuel, send_from N (fuel + 1) req redirect_count hop
        = (send_from N fuel r (redirect_count + 1) (hop + 1)).after
            [.request req.url message, .redirect loc] := by
  unfold redirected at h
  cases hx : (exchange_of N req hop).outcome with
  | error e =>
      rw [hx] at h
      cases h
  | ok p =>
      obtain ⟨request, resp⟩ := p
      rw [hx] at h
      obtain ⟨loc, hloc, rfl⟩ := Option.map_eq_some_iff.mp h
      have hredirection : resp.is_redirection = true := by
        by_contra hno
        rw [response.redirect_url, Bool.not_eq_true _ |>.mp hno] at hloc
        cases hloc
      obtain ⟨message, hevents⟩ : ∃ message,
          (exchange_of N req hop).events = [.request req.url message] := by
        rcases exchange_of_events req hop with ⟨-, e, he⟩ | hevents
        · rw [he] at hx
          cases hx
        · exact hevents
      refine ⟨hauto, rfl, message, loc, fun fuel => ?_⟩
      rw [send_from_succ, hx]
      simp only [hredirection, hauto, hloc, Bool.and_self, if_true, if_neg hcount, hevents]
      rfl

theorem send_from_not_redirected {req : http_request} {hop : ℕ} (redirect_count : UInt64)
    (hauto : req.auto_redirect = true) (h : redirected N req hop = none) :
    ∃ res, (∀ fuel, send_from N (fuel + 1) req redirect_count hop
          = { events := (exchange_of N req hop).events, result := some res })
      ∧ ∀ request resp, (exchange_of N req hop).outcome = .ok (request, resp) →
          resp.is_redirection = false → res = .ok resp := by
  unfold redirected at h
  cases hx : (exchange_of N req hop).outcome with
  | error e =>
      refine ⟨.error e, fun fuel => ?_, ?_⟩
      · rw [send_from_succ, hx]
      · intro request resp hok
        cases hok
  | ok p =>
      obtain ⟨request, resp⟩ := p
      rw [hx] at h
      have hloc : resp.redirect_url N = none := Option.map_eq_none_iff.mp h
      by_cases hredirection : resp.is_redirection = true
      · refine ⟨.error bad_field, fun fuel => ?_, ?_⟩
        · rw [send_from_succ, hx]
          simp only [hredirection, hauto, hloc, Bool.and_self, if_true]
        · intro request' resp' hok hno
          obtain ⟨-, rfl⟩ := Prod.mk.inj (Except.ok.inj hok)
          rw [hredirection] at hno
          cases hno
      · have hno : resp.is_redirection = false := by simpa using hredirection
        refine ⟨.ok resp, fun fuel => ?_, ?_⟩
        · rw [send_from_succ, hx]
          simp only [hno, Bool.false_and, Bool.false_eq_true, if_false]
        · intro request' resp' hok _
          obtain ⟨-, rfl⟩ := Prod.mk.inj (Except.ok.inj hok)
          rfl

/-- Following the first redirects: as many as the limit allows and one more are followed,
each behind a request. -/
theorem send_follows {req : http_request} (hauto : req.auto_redirect = true) {hop : ℕ}
    {r : http_request} (hreach : reach N req hop = some r)
    (hhop : hop ≤ req.max_redirects.toNat + 1) :
    r.auto_redirect = true ∧ r.max_redirects = req.max_redirects
      ∧ ∃ es, (∀ fuel, send N (fuel + hop) req
            = (send_from N fuel r (UInt64.ofNat hop) hop).after es)
          ∧ sent.redirects { events := es, result := none } = hop
          ∧ sent.requests { events := es, result := none } = hop := by
  induction hop generalizing r with
  | zero =>
      obtain rfl := Option.some.inj hreach
      exact ⟨hauto, rfl, [], fun fuel => rfl, rfl, rfl⟩
  | succ hop ih =>
      obtain ⟨r', hr', hred⟩ := Option.bind_eq_some_iff.mp hreach
      obtain ⟨hauto', hmax', es, hsend, hredirects, hrequests⟩ := ih hr' (by omega)
      -- the count is the number of the hop, which is not above the limit yet
      have hlt : hop < UInt64.size := by
        have := req.max_redirects.toNat_lt_size
        omega
      have hcount : ¬ UInt64.ofNat hop > r'.max_redirects := by
        rw [hmax', gt_iff_lt, UInt64.lt_iff_toNat_lt, UInt64.toNat_ofNat_of_lt' hlt]
        omega
      obtain ⟨hauto'', hmax'', message, loc, hstep⟩ := send_from_redirected hauto' hred hcount
      refine ⟨hauto'', hmax''.trans hmax', es ++ [.request r'.url message, .redirect loc],
        fun fuel => ?_, ?_, ?_⟩
      · rw [show fuel + (hop + 1) = fuel + 1 + hop by omega, hsend, hstep,
          show UInt64.ofNat hop + 1 = UInt64.ofNat (hop + 1) from (UInt64.ofNat_add hop 1).symm]
        simp [sent.after]
      · unfold sent.redirects at hredirects ⊢
        simp only [List.countP_append, hredirects]
        rfl
      · unfold sent.requests at hrequests ⊢
        simp only [List.countP_append, hrequests]
        rfl

theorem reach_of_le {req : http_request} {i j : ℕ} (hle : i ≤ j) {r : http_request}
    (h : reach N req j = some r) : ∃ r', reach N req i = some r' := by
  induction hle generalizing r with
  | refl => exact ⟨r, h⟩
  | step _ ih =>
      obtain ⟨r', hr', -⟩ := Option.bind_eq_some_iff.mp h
      exact ih hr'

/-! ## The limit -/

variable (N) in
/-- `send` follows at most `max_redirects` redirects and writes at most one request more;
the first response up to then that is not a redirect is returned, and after as many
redirects and one more the result is the protocol error, with no further request. -/
structure FollowsLimit (req : http_request) : Prop where
  redirects_le : ∀ fuel, (send N fuel req).redirects ≤ req.max_redirects.toNat
  requests_le : ∀ fuel, (send N fuel req).requests ≤ req.max_redirects.toNat + 1
  returned : ∀ k, k ≤ req.max_redirects.toNat → ∀ r, reach N req k = some r →
    ∀ request resp, (exchange_of N r k).outcome = .ok (request, resp) →
      resp.is_redirection = false →
      ∃ fuel, (send N fuel req).result = some (.ok resp)
  too_many : ∀ r, reach N req (req.max_redirects.toNat + 1) = some r →
    ∃ fuel, (send N fuel req).result = some (.error protocol_error)
      ∧ (send N fuel req).requests = req.max_redirects.toNat + 1

/-- A chain that ends within the limit: every call of `send` counts no more than the hops
of the chain. -/
theorem send_counts {req : http_request} (hauto : req.auto_redirect = true) {k : ℕ}
    {r : http_request} (hk : k ≤ req.max_redirects.toNat) (hreach : reach N req k = some r)
    (hlast : redirected N r k = none) (fuel : ℕ) :
    (send N fuel req).redirects ≤ k ∧ (send N fuel req).requests ≤ k + 1 := by
  rcases Nat.lt_or_ge k fuel with hlt | hge
  · -- the last hop of the chain is reached
    obtain ⟨hauto', -, es, hsend, hredirects, hrequests⟩ := send_follows hauto hreach (by omega)
    obtain ⟨res, hres, -⟩ := send_from_not_redirected (UInt64.ofNat k) hauto' hlast
    obtain ⟨rest, rfl⟩ : ∃ rest, fuel = rest + 1 + k := ⟨fuel - k - 1, by omega⟩
    rw [hsend, hres, redirects_after, requests_after, hredirects, hrequests]
    rcases exchange_of_events (N := N) r k with ⟨he, -⟩ | ⟨message, he⟩
    · rw [he]
      exact ⟨Nat.le_refl _, Nat.le_succ _⟩
    · rw [he]
      exact ⟨Nat.le_refl _, Nat.le_refl _⟩
  · -- the fuel runs out on the way
    obtain ⟨r', hr'⟩ := reach_of_le hge hreach
    obtain ⟨-, -, es, hsend, hredirects, hrequests⟩ := send_follows hauto hr' (by omega)
    have hzero := hsend 0
    rw [Nat.zero_add] at hzero
    rw [hzero, redirects_after, requests_after, hredirects, hrequests]
    refine ⟨?_, ?_⟩
    · show fuel + 0 ≤ k
      omega
    · show fuel + 0 ≤ k + 1
      omega

/-- **The limit is kept exactly if it is not reached**: if one of the first
`max_redirects + 1` responses is not a redirect that can be followed. -/
theorem follows_limit_iff (req : http_request) (hauto : req.auto_redirect = true) :
    FollowsLimit N req ↔ reach N req (req.max_redirects.toNat + 1) = none := by
  constructor
  · intro h
    by_contra hne
    obtain ⟨r, hr⟩ := Option.ne_none_iff_exists'.mp hne
    -- one redirect more than allowed is followed
    obtain ⟨-, -, es, hsend, hredirects, -⟩ := send_follows hauto hr (Nat.le_refl _)
    have hle := h.redirects_le (0 + (req.max_redirects.toNat + 1))
    rw [hsend, redirects_after, hredirects] at hle
    omega
  · intro h
    -- the hop at which the chain ends
    obtain ⟨k, hk, r, hr, hlast⟩ : ∃ k, k ≤ req.max_redirects.toNat
        ∧ ∃ r, reach N req k = some r ∧ redirected N r k = none := by
      generalize req.max_redirects.toNat = n at h
      induction n with
      | zero => exact ⟨0, Nat.le_refl 0, req, rfl, h⟩
      | succ n ih =>
          cases hn : reach N req (n + 1) with
          | none =>
              obtain ⟨k, hk, rest⟩ := ih hn
              exact ⟨k, Nat.le_succ_of_le hk, rest⟩
          | some r =>
              refine ⟨n + 1, Nat.le_refl _, r, hn, ?_⟩
              rw [reach, hn] at h
              exact h
    constructor
    · intro fuel
      have := (send_counts hauto hk hr hlast fuel).1
      omega
    · intro fuel
      have := (send_counts hauto hk hr hlast fuel).2
      omega
    · intro j hj r' hr' request resp hok hno
      obtain ⟨hauto', -, es, hsend, -, -⟩ := send_follows hauto hr' (by omega)
      have hnone : redirected N r' j = none := by
        unfold redirected
        rw [hok]
        simp [response.redirect_url, hno]
      obtain ⟨res, hres, hresp⟩ := send_from_not_redirected (UInt64.ofNat j) hauto' hnone
      refine ⟨1 + j, ?_⟩
      rw [hsend, hres 0, hresp request resp hok hno]
      rfl
    · intro r' hr'
      rw [h] at hr'
      cases hr'

/-! ## A network to send to -/

/-- A server that redirects every request for `/r` to itself and answers all others. -/
def redirecting (parse_url : std_string → Option url) : network where
  endpoints := Unit
  async_resolve _ _ _ := .ok ()
  async_connect _ _ := none
  set_tlsext_host_name _ _ := none
  async_handshake _ _ := none
  async_write _ _ _ := none
  async_read_header _ _ request :=
    if request.target = "/r".toList then
      .ok { result := 302, fields := [("Location".toList, "/a".toList)] }
    else .ok {}
  parse_url := parse_url

/-- Locations are paths on the host `h`. -/
def on_host (path : std_string) : url :=
  { scheme_id := .https, host_address := "h".toList, encoded_target := path }

/-- A request for `/r` that may be redirected so often. -/
def request_r (max_redirects : UInt64) : http_request where
  url := on_host "/r".toList
  request := { method := .get, target := [] }
  max_redirects := max_redirects

/-- With a limit of one the redirect to `/a` is followed. -/
theorem follows_limit_iff_one_redirect :
    (request_r 1).auto_redirect = true
      ∧ FollowsLimit (redirecting fun path => some (on_host path)) (request_r 1) :=
  ⟨rfl, (follows_limit_iff (request_r 1) rfl).mpr (by decide +kernel)⟩

/-- With a limit of zero it is followed as well. -/
theorem redirect_followed_past_limit :
    ¬ FollowsLimit (redirecting fun path => some (on_host path)) (request_r 0) := by
  intro h
  have := h.redirects_le 2
  exact absurd this (by decide +kernel)

end CppHttp.Client
