/-
What holds of every run of `send` (`client/client.hpp`), on whatever network.

The network is the opponent here: it answers every operation of every hop as it likes, and
redirects for as long as it likes. Three results hold against all of them.

  * `send_terminates_iff`. `send` returns on every network exactly if it does not follow
    redirects or the limit on them is not the largest 64-bit number: the count that is
    compared with that limit wraps around.
  * `every_request_carries`. Every request of a chain is the caller's, readdressed. The
    method, the body and all fields but `Host` and `User-Agent` go to whatever host a redirect
    names, also from `https` to `http`.
  * `every_operation_has_deadline`. Every operation on a connection is made under the time
    limit of the request, on both schemes and on every hop, and the response is handed out
    without one. Only the resolver is asked without a limit.
-/
import CppHttp.RequestLine

set_option autoImplicit false

namespace CppHttp.ClientRuns

open CppHttp.Client CppHttp.Errors CppHttp.HttpMessage CppHttp.RequestLine CppHttp.StdString

/-! ## Termination -/

/-- The largest 64-bit number. -/
def max_count : UInt64 := 18446744073709551615

/-- As long as the count does not wrap around, each hop brings it nearer to the limit. -/
theorem send_from_returns {N : network} {fuel : ℕ} {req : http_request} {count : UInt64}
    {hop : ℕ} (hlimit : req.max_redirects ≠ max_count)
    (hcount : count.toNat ≤ req.max_redirects.toNat + 1)
    (hfuel : req.max_redirects.toNat + 2 ≤ fuel + count.toNat) :
    ∃ res, (send_from N fuel req count hop).result = some res := by
  induction fuel generalizing req count hop with
  | zero => omega
  | succ fuel ih =>
      rw [send_from_succ]
      cases (exchange_of N req hop).outcome with
      | error e => exact ⟨_, rfl⟩
      | ok p =>
          obtain ⟨request, resp⟩ := p
          dsimp only
          by_cases hfollow : (resp.is_redirection && req.auto_redirect) = true
          · rw [if_pos hfollow]
            cases resp.redirect_url N with
            | none => exact ⟨_, rfl⟩
            | some loc =>
                dsimp only
                by_cases hover : count > req.max_redirects
                · rw [if_pos hover]
                  exact ⟨_, rfl⟩
                · rw [if_neg hover]
                  -- the count is at most the limit, which is not the largest number
                  have hle : count.toNat ≤ req.max_redirects.toNat := by
                    rw [gt_iff_lt, UInt64.lt_iff_toNat_lt] at hover
                    omega
                  have hsmall : req.max_redirects.toNat < 18446744073709551615 := by
                    have hne : req.max_redirects.toNat ≠ 18446744073709551615 := by
                      intro h
                      exact hlimit (UInt64.toNat.inj h)
                    have := req.max_redirects.toNat_lt_size
                    have hsize : UInt64.size = 18446744073709551616 := rfl
                    omega
                  have hnext : (count + 1).toNat = count.toNat + 1 := by
                    rw [UInt64.toNat_add]
                    exact Nat.mod_eq_of_lt (by
                      show count.toNat + 1 < 18446744073709551616
                      omega)
                  exact @ih { req with request := request, url := loc } (count + 1) (hop + 1)
                    hlimit (by rw [hnext]; exact Nat.succ_le_succ hle) (by
                      rw [hnext]
                      show req.max_redirects.toNat + 2 ≤ fuel + (count.toNat + 1)
                      omega)
          · rw [if_neg hfollow]
            exact ⟨_, rfl⟩

/-- Without redirects there is one hop. -/
theorem send_from_returns_of_no_redirect {N : network} {req : http_request}
    (hauto : req.auto_redirect = false) (fuel : ℕ) (count : UInt64) (hop : ℕ) :
    ∃ res, (send_from N (fuel + 1) req count hop).result = some res := by
  rw [send_from_succ]
  cases (exchange_of N req hop).outcome with
  | error e => exact ⟨_, rfl⟩
  | ok p =>
      simp only [hauto, Bool.and_false, Bool.false_eq_true, if_false]
      exact ⟨_, rfl⟩

/-- A network that redirects every request to the same URL. -/
def always_redirecting (u : url) : network where
  endpoints := Unit
  async_resolve _ _ _ := .ok ()
  async_connect _ _ := none
  set_tlsext_host_name _ _ := none
  async_handshake _ _ := none
  async_write _ _ _ := none
  async_read_header _ _ _ := .ok { result := 302, fields := [("Location".toList, "/".toList)] }
  parse_url _ := some u

/-- No count is above the largest number, so such a network is followed for ever. -/
theorem send_from_never_returns (u : url) (fuel : ℕ) {req : http_request}
    (hauto : req.auto_redirect = true) (hlimit : req.max_redirects = max_count)
    (count : UInt64) (hop : ℕ) :
    (send_from (always_redirecting u) fuel req count hop).result = none := by
  induction fuel generalizing req count hop with
  | zero => rfl
  | succ fuel ih =>
      have hredirected : ∃ r, redirected (always_redirecting u) req hop = some r := by
        unfold redirected exchange_of
        by_cases hscheme : req.url.scheme_id = .https
        · rw [if_pos hscheme]
          exact ⟨_, rfl⟩
        · rw [if_neg hscheme]
          exact ⟨_, rfl⟩
      obtain ⟨r, hr⟩ := hredirected
      have hcount : ¬ count > req.max_redirects := by
        rw [hlimit, gt_iff_lt, UInt64.lt_iff_toNat_lt]
        have := count.toNat_lt_size
        have hsize : UInt64.size = max_count.toNat + 1 := rfl
        omega
      obtain ⟨hauto', hlimit', message, loc, hstep⟩ := send_from_redirected hauto hr hcount
      rw [hstep fuel]
      exact ih hauto' (hlimit'.trans hlimit) (count + 1) (hop + 1)

/-- `send` is sure to return. -/
def Returns (req : http_request) : Prop :=
  req.auto_redirect = false ∨ req.max_redirects ≠ max_count

theorem send_returns {req : http_request} (h : Returns req) (N : network) {fuel : ℕ}
    (hfuel : req.max_redirects.toNat + 2 ≤ fuel) : (send N fuel req).result ≠ none := by
  have hres : ∃ res, (send N fuel req).result = some res := by
    rcases h with hauto | hlimit
    · obtain ⟨n, rfl⟩ : ∃ n, fuel = n + 1 := ⟨fuel - 1, by omega⟩
      exact send_from_returns_of_no_redirect hauto n 0 0
    · exact send_from_returns hlimit (Nat.zero_le _) hfuel
  obtain ⟨res, hres⟩ := hres
  rw [hres]
  simp

/-- **`send` returns on every network** exactly if it does not follow redirects, or the
limit on them is not the largest 64-bit number. It then makes no more than two hops above
the limit. -/
theorem send_terminates_iff (req : http_request) :
    ((∀ N : network, ∃ fuel, (send N fuel req).result ≠ none) ↔ Returns req)
      ∧ ((∀ (N : network) (fuel : ℕ), req.max_redirects.toNat + 2 ≤ fuel →
          (send N fuel req).result ≠ none) ↔ Returns req) := by
  have hnever : ¬ Returns req → ∀ fuel,
      (send (always_redirecting req.url) fuel req).result = none := by
    intro h fuel
    unfold Returns at h
    rw [not_or, not_not, Bool.not_eq_false] at h
    exact send_from_never_returns req.url fuel h.1 h.2 0 0
  constructor
  · constructor
    · intro h
      by_contra hno
      obtain ⟨fuel, hfuel⟩ := h (always_redirecting req.url)
      exact hfuel (hnever hno fuel)
    · intro h N
      exact ⟨_, send_returns h N (Nat.le_refl _)⟩
  · constructor
    · intro h
      by_contra hno
      exact h (always_redirecting req.url) _ (Nat.le_refl _) (hnever hno _)
    · intro h N fuel hfuel
      exact send_returns h N hfuel

/-! ## What is sent to whom -/

theorem erase_set_same (f : fields) (name value : std_string) :
    (f.set name value).erase name = f.erase name := by
  unfold fields.set fields.erase
  rw [List.filter_append, List.filter_filter]
  simp

theorem erase_set_of_ne (f : fields) {name other : std_string} (value : std_string)
    (h : iequals other name = false) :
    (f.set other value).erase name = (f.erase name).set other value := by
  unfold fields.set fields.erase
  rw [List.filter_append, List.filter_filter, List.filter_filter]
  simp [h, Bool.and_comm]

/-- Two fields that are set again in the same order are as if they were set once. -/
theorem set_set_again (f : fields) {host agent : std_string} (h : iequals agent host = false)
    (a b c : std_string) :
    (((f.set host a).set agent c).set host b).set agent c = (f.set host b).set agent c := by
  have hagent : ∀ g : fields,
      (g ++ [(host, b)]).erase agent = g.erase agent ++ [(host, b)] := by
    intro g
    unfold fields.erase
    rw [List.filter_append]
    simp [iequals_comm host agent, h]
  have hhost : ((f.set host a).set agent c).set host b
      = (f.erase host).set agent c ++ [(host, b)] := by
    conv_lhs => rw [fields.set, erase_set_of_ne _ _ (iequals_comm agent host ▸ h), erase_set_same]
  rw [hhost, fields.set, hagent, erase_set_same]
  conv_rhs => rw [fields.set, fields.set, hagent]

/-- Addressing a request again leaves nothing of the first address. -/
theorem addressed_addressed (u v : url) (request : request_message) :
    addressed u (addressed v request) = addressed u request := by
  have hfields := set_set_again request.fields
    (show iequals "User-Agent".toList "Host".toList = false by decide)
    v.host_address u.host_address user_agent
  exact congrArg (fun f => { request with target := u.encoded_target, fields := f }) hfields

/-- What a hop leaves: the request as it was addressed, and a response on a stream whose
deadline has been lifted. -/
theorem outcome_spec {N : network} {req : http_request} {hop : ℕ}
    {request : request_message} {resp : response}
    (h : (exchange_of N req hop).outcome = .ok (request, resp)) :
    request = addressed req.url req.request ∧ resp.stream.expires = none := by
  unfold exchange_of at h
  generalize (if req.url.scheme_id = .https then connect_https N req hop
    else connect_http N req hop) = opened at h
  cases opened with
  | error e => cases h
  | ok p =>
      obtain ⟨stream, endpoints⟩ := p
      simp only [converse] at h
      cases hwrite : check (N.async_write stream endpoints (addressed req.url req.request)) with
      | error e =>
          rw [hwrite] at h
          cases h
      | ok u =>
          rw [hwrite] at h
          cases hread : N.async_read_header stream endpoints (addressed req.url req.request) with
          | error e =>
              simp only [hread] at h
              cases h
          | ok header =>
              simp only [hread] at h
              cases h
              exact ⟨rfl, rfl⟩

/-- Every request that is written is the first one, addressed to the URL of its hop. The
induction is on the fuel; a redirect passes the addressed request on. -/
theorem carries_of_mem {N : network} {fuel : ℕ} {req : http_request} {count : UInt64}
    {hop : ℕ} {u : url} {message : request_message}
    (h : .request u message ∈ (send_from N fuel req count hop).events) :
    message = addressed u req.request := by
  induction fuel generalizing req count hop with
  | zero => simp [send_from] at h
  | succ fuel ih =>
      rw [send_from_succ] at h
      split at h
      · exact addressed_of_mem_exchange h
      · next request resp hok =>
          split at h
          · split at h
            · exact addressed_of_mem_exchange h
            · split at h
              · exact addressed_of_mem_exchange h
              · simp only [sent.after, List.mem_append, List.mem_singleton, reduceCtorEq,
                  or_false] at h
                rcases h with h | h
                · exact addressed_of_mem_exchange h
                · have hmessage := ih h
                  rw [(outcome_spec hok).1] at hmessage
                  rw [hmessage]
                  exact addressed_addressed u req.url req.request
          · exact addressed_of_mem_exchange h

/-- **Every request carries the caller's**: on every network, each request of each chain is
the caller's request addressed to the URL of its hop. So its method, version and body are
the caller's, and so is every field but `Host` and `User-Agent`, whatever the host and the
scheme of the URL are. -/
theorem every_request_carries (N : network) (fuel : ℕ) (req : http_request) (u : url)
    (message : request_message) (h : .request u message ∈ (send N fuel req).events) :
    message = addressed u req.request ∧ message.method = req.request.method
      ∧ message.version = req.request.version ∧ message.body = req.request.body
      ∧ ∀ name, iequals name "Host".toList = false → iequals name "User-Agent".toList = false →
        message.fields.get name = req.request.fields.get name := by
  have hmessage := carries_of_mem h
  refine ⟨hmessage, ?_⟩
  rw [hmessage]
  refine ⟨rfl, rfl, rfl, ?_⟩
  intro name hhost hagent
  unfold addressed
  dsimp only
  rw [fields.get_set_of_ne _ _ hagent, fields.get_set_of_ne _ _ hhost]

/-- A request with a field of its own, which is redirected once. -/
def request_with_cookie : http_request where
  url := on_host "/r".toList
  request := { method := .post, target := [], fields := [("Cookie".toList, "c".toList)] }

/-- The field goes to where the request is redirected. -/
theorem every_request_carries_cookie :
    (addressed (on_host "/a".toList) request_with_cookie.request).method = .post
      ∧ (addressed (on_host "/a".toList) request_with_cookie.request).fields.get "Cookie".toList
        = "c".toList := by
  have hcarries := every_request_carries (redirecting fun path => some (on_host path)) 2
    request_with_cookie (on_host "/a".toList)
    (addressed (on_host "/a".toList) request_with_cookie.request) (by decide +kernel)
  obtain ⟨-, hmethod, -, -, hfields⟩ := hcarries
  refine ⟨hmethod, ?_⟩
  rw [hfields "Cookie".toList (by decide) (by decide)]
  rfl

/-! ## Deadlines -/

/-- The deadline of an operation on a connection: the time limit of the request, or none if
it has none. -/
def deadline (req : http_request) : Option UInt64 :=
  if req.timeout_ms > 0 then some req.timeout_ms else none

/-- The network with other answers to the operations that are made on a connection under
another deadline than `t`. -/
def network.late (N : network) (t : Option UInt64)
    (connect handshake : stream → N.endpoints → error_code)
    (write : stream → N.endpoints → request_message → error_code)
    (read : stream → N.endpoints → request_message → Except error response_header) : network :=
  { N with
    async_connect := fun s e => if s.expires = t then N.async_connect s e else connect s e
    async_handshake := fun s e => if s.expires = t then N.async_handshake s e else handshake s e
    async_write := fun s e m => if s.expires = t then N.async_write s e m else write s e m
    async_read_header := fun s e m =>
      if s.expires = t then N.async_read_header s e m else read s e m }

section Opening

variable {E : Type}

/-- `connect_http` by what it calls. -/
def open_http (endpoints : Except error E) (connect : stream → E → error_code) (s : stream) :
    Except error (stream × E) := do
  let endpoints ← endpoints
  check (connect s endpoints)
  return (s, endpoints)

/-- `connect_https` by what it calls. The stream is the one without a deadline. -/
def open_https (endpoints : Except error E) (named : error_code)
    (connect handshake : stream → E → error_code) (s : stream) : Except error (stream × E) := do
  let endpoints ← endpoints
  check named
  check (connect s endpoints)
  check (handshake s endpoints)
  return (s, endpoints)

/-- Only the answers on the stream itself matter, and it is that stream that is opened. -/
theorem open_http_congr {connect connect' : stream → E → error_code} {s : stream}
    (h : connect s = connect' s) (endpoints : Except error E) :
    open_http endpoints connect s = open_http endpoints connect' s
      ∧ ∀ opened e, open_http endpoints connect s = .ok (opened, e) → opened = s := by
  unfold open_http
  rw [h]
  refine ⟨rfl, ?_⟩
  intro opened e hok
  cases endpoints with
  | error err => cases hok
  | ok endpoints =>
      cases hc : connect' s endpoints with
      | some err =>
          simp only [bind, Except.bind, check, hc] at hok
          cases hok
      | none =>
          simp only [bind, Except.bind, check, hc] at hok
          cases hok
          rfl

theorem open_https_congr {connect connect' handshake handshake' : stream → E → error_code}
    {s : stream} (hconnect : connect s = connect' s) (hhandshake : handshake s = handshake' s)
    (endpoints : Except error E) (named : error_code) :
    open_https endpoints named connect handshake s
        = open_https endpoints named connect' handshake' s
      ∧ ∀ opened e, open_https endpoints named connect handshake s = .ok (opened, e) →
        opened = s := by
  unfold open_https
  rw [hconnect, hhandshake]
  refine ⟨rfl, ?_⟩
  intro opened e hok
  cases endpoints with
  | error err => cases hok
  | ok endpoints =>
      cases named with
      | some err => cases hok
      | none =>
          cases hc : connect' s endpoints with
          | some err =>
              simp only [bind, Except.bind, check, hc] at hok
              cases hok
          | none =>
              cases hh : handshake' s endpoints with
              | some err =>
                  simp only [bind, Except.bind, check, hc, hh] at hok
                  cases hok
              | none =>
                  simp only [bind, Except.bind, check, hc, hh] at hok
                  cases hok
                  rfl

end Opening

section Deadline

variable {N : network} {req : http_request} {connect handshake : stream → N.endpoints → error_code}
  {write : stream → N.endpoints → request_message → error_code}
  {read : stream → N.endpoints → request_message → Except error response_header}

/-- A stream for the hop, with the deadline. -/
def timed (req : http_request) (hop : ℕ) (secure : Bool) : stream :=
  { hop := hop, secure := secure, expires := deadline req }

/-- The time that starts afresh is the same time. -/
theorem expires_after_eq (req : http_request) (hop : ℕ) (secure : Bool) :
    stream.expires_after { hop := hop, secure := secure, expires := none } req.timeout_ms
        = timed req hop secure
      ∧ (timed req hop secure).expires_after req.timeout_ms = timed req hop secure := by
  unfold stream.expires_after timed deadline
  by_cases hpos : req.timeout_ms > 0
  · simp only [if_pos hpos, and_self]
  · simp only [if_neg hpos, and_self]

theorem connect_http_eq (N : network) (hop : ℕ) :
    connect_http N req hop
      = open_http (resolve N hop req.url) N.async_connect (timed req hop false) := by
  unfold connect_http
  dsimp only
  rw [(expires_after_eq req hop false).1]
  rfl

theorem connect_https_eq (N : network) (hop : ℕ) :
    connect_https N req hop
      = open_https (resolve N hop req.url)
        (N.set_tlsext_host_name { hop := hop, secure := true, expires := none }
          req.url.host_address)
        N.async_connect N.async_handshake (timed req hop true) := by
  obtain ⟨hfirst, hagain⟩ := expires_after_eq req hop true
  unfold connect_https
  simp only [hfirst, hagain]
  rfl

/-- Conversing on a stream with the deadline. -/
theorem converse_late (opened : Except error (stream × N.endpoints))
    (h : ∀ s endpoints, opened = .ok (s, endpoints) → s.expires = deadline req) :
    converse (network.late N (deadline req) connect handshake write read) req opened
      = converse N req opened := by
  cases opened with
  | error e => rfl
  | ok p =>
      obtain ⟨s, endpoints⟩ := p
      have hexpires := h s endpoints rfl
      have hwrite : (network.late N (deadline req) connect handshake write read).async_write s
          endpoints = N.async_write s endpoints := by
        funext m
        exact if_pos hexpires
      have hread : (network.late N (deadline req) connect handshake write read).async_read_header
          s endpoints = N.async_read_header s endpoints := by
        funext m
        exact if_pos hexpires
      simp only [converse]
      rw [hwrite, hread]

/-- A hop does not see the other answers. -/
theorem exchange_of_late (hop : ℕ) :
    exchange_of (network.late N (deadline req) connect handshake write read) req hop
      = exchange_of N req hop := by
  have hconnect : ∀ secure,
      (network.late N (deadline req) connect handshake write read).async_connect
        (timed req hop secure) = N.async_connect (timed req hop secure) := by
    intro secure
    funext endpoints
    exact if_pos rfl
  have hhandshake : (network.late N (deadline req) connect handshake write read).async_handshake
      (timed req hop true) = N.async_handshake (timed req hop true) := by
    funext endpoints
    exact if_pos rfl
  unfold exchange_of
  by_cases hscheme : req.url.scheme_id = .https
  · rw [if_pos hscheme, if_pos hscheme, connect_https_eq, connect_https_eq]
    obtain ⟨hsame, hstream⟩ := open_https_congr (hconnect true) hhandshake
      (resolve N hop req.url) (N.set_tlsext_host_name
        { hop := hop, secure := true, expires := none } req.url.host_address)
    refine (converse_late _ ?_).trans (congrArg (converse N req) hsame)
    intro s endpoints hok
    rw [hstream s endpoints hok]
    rfl
  · rw [if_neg hscheme, if_neg hscheme, connect_http_eq, connect_http_eq]
    obtain ⟨hsame, hstream⟩ := open_http_congr (hconnect false) (resolve N hop req.url)
    refine (converse_late _ ?_).trans (congrArg (converse N req) hsame)
    intro s endpoints hok
    rw [hstream s endpoints hok]
    rfl

/-- Nor does a chain of redirects: every request of it has the limit of the first. -/
theorem send_from_late (fuel : ℕ) (count : UInt64) (hop : ℕ) :
    send_from (network.late N (deadline req) connect handshake write read) fuel req count hop
      = send_from N fuel req count hop := by
  induction fuel generalizing req count hop with
  | zero => rfl
  | succ fuel ih =>
      rw [send_from_succ, send_from_succ, exchange_of_late]
      cases (exchange_of N req hop).outcome with
      | error e => rfl
      | ok p =>
          obtain ⟨request, resp⟩ := p
          dsimp only
          have hlocation : resp.redirect_url
              (network.late N (deadline req) connect handshake write read)
              = resp.redirect_url N := rfl
          rw [hlocation]
          cases resp.redirect_url N with
          | none => rfl
          | some loc =>
              have hnext := @ih { req with request := request, url := loc } (count + 1) (hop + 1)
              have hsame : deadline { req with request := request, url := loc } = deadline req :=
                rfl
              rw [hsame] at hnext
              dsimp only
              rw [hnext]

/-- What is returned is the response of the last hop. -/
theorem send_from_expires {fuel : ℕ} {count : UInt64} {hop : ℕ} {resp : response}
    (h : (send_from N fuel req count hop).result = some (.ok resp)) :
    resp.stream.expires = none := by
  induction fuel generalizing req count hop with
  | zero => cases h
  | succ fuel ih =>
      rw [send_from_succ] at h
      split at h
      · cases h
      · next request last hok =>
          obtain ⟨-, hexpires⟩ := outcome_spec hok
          split at h
          · split at h
            · cases h
            · split at h
              · cases h
              · exact ih h
          · cases h
            exact hexpires

end Deadline

/-- **Every operation on a connection has the deadline**: whatever would be answered to a
connect, a handshake, a write or the read of a header under another one, on whatever hop and
under either scheme, `send` does the same. And a response that is returned has no deadline
any more. -/
theorem every_operation_has_deadline (N : network) (req : http_request) (fuel : ℕ)
    (connect handshake : stream → N.endpoints → error_code)
    (write : stream → N.endpoints → request_message → error_code)
    (read : stream → N.endpoints → request_message → Except error response_header) :
    send (network.late N (deadline req) connect handshake write read) fuel req = send N fuel req
      ∧ ∀ resp, (send N fuel req).result = some (.ok resp) → resp.stream.expires = none := by
  constructor
  · exact send_from_late fuel 0 0
  · intro resp h
    exact send_from_expires h

end CppHttp.ClientRuns
