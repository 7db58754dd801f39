/-
The request line and the `Host` header that `send_http` and `send_https` write, and the
URLs that `client/request_builder.hpp` builds.

Both functions take the target and the header from the URL of the hop, in the same way
(`addressed`), and a request reaches a connection in no other way
(`addressed_of_mem`). So two questions about every request of every chain of redirects
are questions about URLs.

  * `host_header_iff`. The header is the bare host, without the brackets of an IPv6
    address and without the port. A server reads the authority out of it that `resolve`
    connected to exactly if there are no brackets and the port is the default one.
  * `origin_form_iff`. The target is the path and the query as they are. It is in origin
    form exactly if the path is not empty; and the path of a URL that a builder built is
    empty exactly if the last `base_url` or `target` call gave an empty one.
-/
import CppHttp.Redirects

set_option autoImplicit false

namespace CppHttp.RequestLine

open CppHttp.Client CppHttp.HttpMessage CppHttp.Redirects CppHttp.StdString CppHttp.UriReference

/-! ## The requests of a chain -/

/-- A hop writes its request addressed to its URL. -/
theorem addressed_of_mem_exchange {N : network} {req : http_request} {hop : ℕ} {u : url}
    {message : request_message} (h : .request u message ∈ (exchange_of N req hop).events) :
    message = addressed u req.request := by
  unfold exchange_of at h
  generalize (if req.url.scheme_id = .https then connect_https N req hop
    else connect_http N req hop) = opened at h
  cases opened with
  | error e => simp [converse] at h
  | ok p =>
      simp only [converse, List.mem_singleton, event.request.injEq] at h
      rw [h.2, h.1]

/-- And so is every request that `send` writes. The induction is on the fuel, one hop
after the other. -/
theorem addressed_of_mem {N : network} {fuel : ℕ} {req : http_request} {count : UInt64}
    {hop : ℕ} {u : url} {message : request_message}
    (h : .request u message ∈ (send_from N fuel req count hop).events) :
    ∃ request, message = addressed u request := by
  induction fuel generalizing req count hop with
  | zero => simp [send_from] at h
  | succ fuel ih =>
      rw [send_from_succ] at h
      split at h
      · exact ⟨_, addressed_of_mem_exchange h⟩
      · split at h
        · split at h
          · exact ⟨_, addressed_of_mem_exchange h⟩
          · split at h
            · exact ⟨_, addressed_of_mem_exchange h⟩
            · -- this hop's request, or one of those behind the redirect
              simp only [sent.after, List.mem_append, List.mem_singleton, reduceCtorEq,
                or_false] at h
              rcases h with h | h
              · exact ⟨_, addressed_of_mem_exchange h⟩
              · exact ih h
        · exact ⟨_, addressed_of_mem_exchange h⟩

/-- The requests that `send` writes. -/
def written (s : sent) : List request_message :=
  s.events.filterMap fun
    | .request _ message => some message
    | .redirect _ => none

/-- The target and the `Host` header of a request. -/
theorem addressed_fields (u : url) (request : request_message) :
    (addressed u request).target = u.encoded_target
      ∧ (addressed u request).fields.get "Host".toList = u.host_address := by
  refine ⟨rfl, ?_⟩
  unfold addressed
  dsimp only
  rw [fields.get_set_of_ne _ _ (by decide), fields.get_set_same]

/-! ## The authority behind a `Host` header -/

/-- The host as it is written in a URL. -/
def uri_form : url_host → std_string
  | .name text _ _ => text
  | .ip_literal text _ => '[' :: text ++ [']']

/-- The default port of a scheme. -/
def default_port : scheme → ℕ
  | .https => 443
  | _ => 80

/-- What a server makes of a `Host` header: the host, which may be in brackets, and the
port behind a colon, by default that of the scheme it was reached by. -/
def server_authority (default : ℕ) (header : std_string) : Option (std_string × ℕ) :=
  let host :=
    if header.head? = some '[' then header.takeWhile (· ≠ ']') ++ [']']
    else header.takeWhile (· ≠ ':')
  let rest := header.drop host.length
  if rest = [] then some (host, default)
  else if rest.head? = some ':' ∧ rest.tail.all Char.isDigit then
    some (host, if rest.tail = [] then default else digits_value rest.tail)
  else none

/-- The host of a header that does not start with a bracket is its text up to a colon. -/
theorem server_authority_host {default : ℕ} {header host : std_string} {port : ℕ}
    (hhead : header.head? ≠ some '[')
    (h : server_authority default header = some (host, port)) :
    host = header.takeWhile (· ≠ ':') := by
  unfold server_authority at h
  rw [if_neg hhead] at h
  dsimp only at h
  split at h
  · exact (congrArg Prod.fst (Option.some.inj h)).symm
  · split at h
    · exact (congrArg Prod.fst (Option.some.inj h)).symm
    · cases h

/-- A name without a colon stands for itself at the default port. -/
theorem server_authority_name (default : ℕ) {text : std_string} (hcolon : ':' ∉ text)
    (hbracket : '[' ∉ text) : server_authority default text = some (text, default) := by
  have hhead : text.head? ≠ some '[' := by
    intro h
    exact hbracket (List.mem_of_mem_head? h)
  have hhost : text.takeWhile (· ≠ ':') = text := takeWhile_ne_eq_self hcolon
  unfold server_authority
  rw [if_neg hhead, hhost]
  simp

/-- The port that `resolve` asks for is the default one if the URL names none or that. -/
theorem connect_port_eq_default_iff {u : uri} {s : scheme} {a : authority}
    (hs : u.scheme = some s) (ha : u.authority = some a) :
    (connect_port (url_of u)).toNat = default_port s
      ↔ a.port_number = 0 ∨ a.port_number.toNat = default_port s := by
  have hport : (url_of u).port_number = a.port_number := by simp [url_of, ha]
  have hscheme : (url_of u).scheme_id = s := by simp [url_of, hs]
  unfold connect_port
  rw [hport, hscheme]
  by_cases hpos : a.port_number > 0
  · have hne : a.port_number ≠ 0 := by
      rintro heq
      rw [heq] at hpos
      exact absurd hpos (by decide)
    rw [if_pos hpos]
    simp [hne]
  · have hzero : a.port_number = 0 := by
      rw [gt_iff_lt, UInt16.lt_iff_toNat_lt] at hpos
      apply UInt16.toNat.inj
      simpa using hpos
    rw [if_neg hpos]
    refine iff_of_true ?_ (Or.inl hzero)
    cases s <;> decide

/-- **The `Host` header.** For every request that `send` writes, at any hop, and every
absolute URL it is written for: the authority that the server makes of the header is the
host in the form of URLs and the port that was connected to, if and only if the host is
not one in brackets and the URL names no port, the default one, or one that the client takes
for none: zero, or a number of more than 16 bits. -/
theorem host_header_iff (N : network) (fuel : ℕ) (req : http_request) (u : uri) (s : scheme)
    (a : authority) (message : request_message) (hs : u.scheme = some s)
    (ha : u.authority = some a)
    (h : .request (url_of u) message ∈ (send N fuel req).events) :
    server_authority (default_port s) (message.fields.get "Host".toList)
        = some (uri_form a.host, (connect_port (url_of u)).toNat)
      ↔ uri_form a.host = a.host.host_address
        ∧ (a.port_number = 0 ∨ a.port_number.toNat = default_port s) := by
  obtain ⟨request, rfl⟩ := addressed_of_mem h
  have haddress : (url_of u).host_address = a.host.host_address := by simp [url_of, ha]
  rw [(addressed_fields _ request).2, haddress, ← connect_port_eq_default_iff hs ha]
  cases hhost : a.host with
  | name text hcolon hbracket =>
      rw [url_host.host_address, server_authority_name _ hcolon hbracket, uri_form]
      simp [eq_comm]
  | ip_literal text hbracket =>
      -- the header has no bracket, and the host it should name starts with one
      have hhead : text.head? ≠ some '[' := fun hh => hbracket (List.mem_of_mem_head? hh)
      have hform : ∀ t : std_string, '[' ∉ t → uri_form (.ip_literal text hbracket) ≠ t := by
        rintro t ht rfl
        exact ht List.mem_cons_self
      refine iff_of_false (fun heq => ?_) (fun heq => hform text hbracket heq.1)
      refine hform _ (fun hmem => hbracket ?_) (server_authority_host hhead heq)
      exact (List.takeWhile_sublist _).subset hmem

/-- The URL `https://h/r` of a request. -/
theorem host_header_iff_https :
    server_authority 443
        ((addressed (on_host "/r".toList) (request_r 5).request).fields.get "Host".toList)
        = some (uri_form host_h.host, (connect_port (url_of (at_h "/r".toList))).toNat)
      ↔ uri_form host_h.host = host_h.host.host_address
        ∧ (host_h.port_number = 0 ∨ host_h.port_number.toNat = 443) :=
  host_header_iff (redirecting fun _ => none) 1 (request_r 5) (at_h "/r".toList) .https host_h _
    rfl rfl (by decide +kernel)

/-- `https://h:8443/r` -/
def at_port : uri := { at_h "/r".toList with authority := some { host_h with port := some 8443 } }

/-- `https://[::1]/r` -/
def at_address : uri :=
  { at_h "/r".toList with authority := some { host := .ip_literal "::1".toList (by decide) } }

/-- What the server at a URL makes of the `Host` header of the request for it. -/
def read_authority (u : uri) : List (Option (std_string × ℕ)) :=
  (written (send (redirecting fun _ => none) 1 { request_r 5 with url := url_of u })).map
    fun message => server_authority 443 (message.fields.get "Host".toList)

/-- The one loses its port in the header, and the other is no authority at all. -/
theorem port_not_in_host_header :
    read_authority at_port = [some (['h'], 443)] ∧ connect_port (url_of at_port) = 8443
      ∧ read_authority at_address = [none]
      ∧ (at_address.authority.map fun a => uri_form a.host) = some "[::1]".toList := by
  decide +kernel

/-! ## `request_builder` -/

/-- What the builder calls that is not part of it. -/
structure url_library where
  /-- The constructor of `boost::urls::url`; `none` is its exception. -/
  parse_url : std_string → Option uri
  /-- `url.set_path(path)` -/
  set_path : uri → std_string → uri
  /-- `url.params().append({key, value})` -/
  append_param : uri → std_string → std_string → uri
  /-- `request.prepare_payload()` -/
  prepare_payload : request_message → request_message

/-- Behind an authority a path is empty or starts with a slash. -/
def PathOk (u : uri) : Prop := u.authority ≠ none → u.path = [] ∨ u.path.head? = some '/'

/-- What is documented of the URL library: paths behind an authority are kept well formed,
`set_path` sets the path and `append` the query. -/
structure url_library.Documented (L : url_library) : Prop where
  parse_path : ∀ text u, L.parse_url text = some u → PathOk u
  set_path_path : ∀ u path, PathOk (L.set_path u path)
  set_path_empty : ∀ u path, (L.set_path u path).path = [] ↔ path = []
  append_authority : ∀ u key value, (L.append_param u key value).authority = u.authority
  append_path : ∀ u key value, (L.append_param u key value).path = u.path

/-- `class request_builder`: the members of its `http_request`. -/
structure request_builder where
  url : uri := {}
  request : request_message := { method := .other [], target := [] }
  auto_redirect : Bool := true
  max_redirects : UInt64 := 5
  timeout_ms : UInt64 := 5000

/-- A call of one of the setters. -/
inductive builder_call
  | method (m : verb)
  | base_url (base : std_string)
  | param (key value : std_string)
  | target (t : std_string)
  | version (v : ℕ)
  | header (field value : std_string)
  | body (b : std_string)
  | timeout (duration : UInt64)
  | auto_redirect (enable : Bool)
  | max_redirects (max_redirects : UInt64)

/-- The setters; none if `base_url` throws. -/
def request_builder.call (L : url_library) (b : request_builder) :
    builder_call → Option request_builder
  | .method m => some { b with request := { b.request with method := m } }
  | .base_url base => (L.parse_url base).map fun u => { b with url := u }
  | .param key value => some { b with url := L.append_param b.url key value }
  | .target t => some { b with url := L.set_path b.url t }
  | .version v => some { b with request := { b.request with version := v } }
  | .header field value =>
      some { b with request := { b.request with fields := b.request.fields.set field value } }
  | .body body => some { b with request := { b.request with body := body } }
  | .timeout duration => some { b with timeout_ms := duration }
  | .auto_redirect enable => some { b with auto_redirect := enable }
  | .max_redirects max_redirects => some { b with max_redirects := max_redirects }

/-- The builder behind a sequence of calls. -/
def request_builder.calls (L : url_library) (cs : List builder_call) : Option request_builder :=
  cs.foldlM (request_builder.call L) {}

/-- `build()` -/
def request_builder.build (L : url_library) (b : request_builder) : http_request :=
  { url := url_of b.url
    request := L.prepare_payload { b.request with target := encoded_target b.url }
    auto_redirect := b.auto_redirect
    max_redirects := b.max_redirects
    timeout_ms := b.timeout_ms }

/-- The path that the last `base_url` or `target` call asks for. -/
def last_path (L : url_library) (cs : List builder_call) : std_string :=
  cs.foldl (fun path c =>
    match c with
    | .base_url base => ((L.parse_url base).map fun u => u.path).getD []
    | .target t => t
    | _ => path) []

/-- One call keeps the path well formed, and leaves it empty or not as asked for. -/
theorem call_path {L : url_library} (hL : L.Documented) {b b' : request_builder}
    {c : builder_call} (hcall : b.call L c = some b') (cs : List builder_call)
    (hok : PathOk b.url) (hpath : b.url.path = [] ↔ last_path L cs = []) :
    PathOk b'.url ∧ (b'.url.path = [] ↔ last_path L (cs ++ [c]) = []) := by
  unfold last_path at hpath ⊢
  rw [List.foldl_append, List.foldl_cons, List.foldl_nil]
  cases c with
  | base_url base =>
      obtain ⟨u, hu, rfl⟩ := Option.map_eq_some_iff.mp hcall
      refine ⟨hL.parse_path base u hu, ?_⟩
      simp only [hu, Option.map_some, Option.getD_some]
  | param key value =>
      obtain rfl := Option.some.inj hcall
      refine ⟨?_, ?_⟩
      · intro hauthority
        rw [hL.append_authority] at hauthority
        rw [hL.append_path]
        exact hok hauthority
      · rw [hL.append_path]
        exact hpath
  | target t =>
      obtain rfl := Option.some.inj hcall
      exact ⟨hL.set_path_path b.url t, hL.set_path_empty b.url t⟩
  | _ =>
      -- the other setters do not touch the URL
      obtain rfl := Option.some.inj hcall
      exact ⟨hok, hpath⟩

/-- So does a sequence of calls. -/
theorem calls_path {L : url_library} (hL : L.Documented) {cs : List builder_call}
    {b : request_builder} (h : request_builder.calls L cs = some b) :
    PathOk b.url ∧ (b.url.path = [] ↔ last_path L cs = []) := by
  induction cs using List.reverseRecOn generalizing b with
  | nil =>
      obtain rfl := Option.some.inj h
      exact ⟨fun hauthority => absurd rfl hauthority, iff_of_true rfl rfl⟩
  | append_singleton cs c ih =>
      rw [request_builder.calls, List.foldlM_append] at h
      obtain ⟨b', hb', hcall⟩ := Option.bind_eq_some_iff.mp h
      obtain ⟨hok, hpath⟩ := ih hb'
      refine call_path hL ?_ cs hok hpath
      simpa using hcall

/-! ## The request target -/

/-- An absolute http or https URL. -/
def HttpUri (u : uri) : Prop :=
  (u.scheme = some .http ∨ u.scheme = some .https) ∧ HasHost u

/-- The target is in origin form: it starts with a slash, and is the path, a slash where
this is empty, and the query of the URL. -/
def OriginForm (u : uri) (target : std_string) : Prop :=
  target.head? = some '/'
    ∧ target = (if u.path = [] then ['/'] else u.path) ++ (u.query.map ('?' :: ·)).getD []

/-- **The request target.** Every request that `send` writes for an absolute http or https
URL, at any hop, has its target in origin form if and only if the path of the URL is not
empty. The path of a URL that was set through a builder is not empty if and only if the
last `base_url` or `target` call did not leave it so, whatever was called in between. -/
theorem origin_form_iff (L : url_library) (hL : L.Documented) :
    (∀ (N : network) (fuel : ℕ) (req : http_request) (u : uri) (message : request_message),
        HttpUri u → PathOk u → .request (url_of u) message ∈ (send N fuel req).events →
        (OriginForm u message.target ↔ u.path ≠ []))
      ∧ ∀ (cs : List builder_call) (b : request_builder),
        request_builder.calls L cs = some b →
        (b.build L).url = url_of b.url ∧ PathOk b.url
          ∧ (b.url.path ≠ [] ↔ last_path L cs ≠ []) := by
  constructor
  · rintro N fuel req u message ⟨-, a, ha, -⟩ hok h
    obtain ⟨request, rfl⟩ := addressed_of_mem h
    rw [(addressed_fields _ request).1]
    change OriginForm u (encoded_target u) ↔ _
    unfold OriginForm encoded_target
    constructor
    · rintro ⟨-, heq⟩ hpath
      rw [if_pos hpath, hpath, List.append_left_inj] at heq
      cases heq
    · intro hpath
      rw [if_neg hpath]
      refine ⟨?_, rfl⟩
      rcases hok (by rw [ha]; simp) with hnil | hhead
      · exact absurd hnil hpath
      · rw [List.head?_append, hhead]
        rfl
  · intro cs b h
    obtain ⟨hok, hpath⟩ := calls_path hL h
    exact ⟨rfl, hok, not_congr hpath⟩

/-! ## A URL library -/

/-- A library that can read `http://h`. -/
def reads_h : url_library where
  parse_url text :=
    if text = "http://h".toList then some { scheme := some .http, authority := some host_h }
    else none
  set_path u path :=
    { u with path := if path = [] ∨ path.head? = some '/' then path else '/' :: path }
  append_param u key value :=
    let param := key ++ '=' :: value
    { u with query := some ((u.query.map (· ++ '&' :: param)).getD param) }
  prepare_payload request := request

theorem reads_h_documented : reads_h.Documented where
  parse_path text u h := by
    simp only [reads_h] at h
    split at h
    · obtain rfl := Option.some.inj h
      exact fun _ => Or.inl rfl
    · cases h
  set_path_path u path := by
    intro _
    simp only [reads_h]
    split
    · assumption
    · exact Or.inr rfl
  set_path_empty u path := by
    simp only [reads_h]
    split
    · rfl
    · next h =>
        rw [not_or] at h
        simp [h.1]
  append_authority _ _ _ := rfl
  append_path _ _ _ := rfl

/-- `http://h/x?a=1`, by three calls. -/
def built_x : request_builder :=
  { url := { scheme := some .http, authority := some host_h, path := "/x".toList,
             query := some "a=1".toList } }

/-- The request for it is written with a target in origin form. -/
theorem origin_form_iff_built_x :
    (OriginForm built_x.url (addressed (url_of built_x.url) (built_x.build reads_h).request).target
        ↔ built_x.url.path ≠ [])
      ∧ (built_x.build reads_h).url = url_of built_x.url ∧ PathOk built_x.url
      ∧ (built_x.url.path ≠ [] ↔ last_path reads_h
          [.base_url "http://h".toList, .param ['a'] ['1'], .target "x".toList] ≠ []) :=
  ⟨(origin_form_iff reads_h reads_h_documented).1 (redirecting fun _ => none) 1
      (built_x.build reads_h) built_x.url _ ⟨Or.inl rfl, host_h, rfl, by decide⟩
      (fun _ => Or.inr rfl) (by decide +kernel),
    (origin_form_iff reads_h reads_h_documented).2
      [.base_url "http://h".toList, .param ['a'] ['1'], .target "x".toList] built_x (by rfl)⟩

/-- `http://h?a=1` has no path: the target of the request for it starts with the question
mark. -/
theorem query_sent_as_target :
    (request_builder.calls reads_h [.base_url "http://h".toList, .param ['a'] ['1']]).map
        (fun b => (written (send (redirecting fun _ => none) 1 (b.build reads_h))).map
          request_message.target)
      = some ["?a=1".toList]
    ∧ ∀ u : uri, ¬ OriginForm u "?a=1".toList := by
  refine ⟨by decide +kernel, ?_⟩
  rintro u ⟨hhead, -⟩
  cases hhead

end CppHttp.RequestLine
