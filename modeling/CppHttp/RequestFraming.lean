/-
The requests that `send` writes, as the servers they are sent to read them.

A server finds the end of a request from its header. It is `build()` in
`client/request_builder.hpp` that puts the length there, once, and every request of a chain
of redirects is that request readdressed. So whether all of them can be read is decided by
what the caller has asked for: `every_request_is_read_iff` says that it is so on whatever
network exactly if the request does not announce chunks for all that `build()` does
against it, which takes away the last `chunked` in its `Transfer-Encoding` and no more.
-/
import CppHttp.ClientRuns
import CppHttp.Connection

set_option autoImplicit false

namespace CppHttp.RequestFraming

open CppHttp.BodyFraming CppHttp.ChunkGrammar CppHttp.ChunkedService CppHttp.Client
  CppHttp.ClientRuns CppHttp.Connection CppHttp.HttpMessage CppHttp.MessageStream
  CppHttp.Redirects CppHttp.RequestLine CppHttp.StdString CppHttp.UriReference

/-! ## What is written and read -/

/-- The header section of a request, as Beast writes it, and as it is read. -/
structure request_codec where
  encode : request_message → std_string
  decode : std_string → Option (request_message × std_string)

/-- The header of the request is read as it was written, whatever stands behind it. -/
def request_codec.Carries (K : request_codec) (req : request_message) : Prop :=
  ∀ rest, K.decode (K.encode req ++ rest) = some ({ req with body := [] }, rest)

/-- A header section ends at its empty line, and there is one. -/
structure request_codec.Documented (K : request_codec) : Prop where
  incremental : ∀ s header rest, K.decode s = some (header, rest) →
    ∀ more, K.decode (s ++ more) = some (header, rest ++ more)
  not_empty : K.decode [] = none

variable (W : wire_library) (K : request_codec)

/-- A request with a body is given its length, and so is one with a method that is expected
to have a body. -/
def takes_length (req : request_message) : Bool :=
  !req.body.isEmpty || req.method == .options || req.method == .put || req.method == .post

/-- `message::prepare_payload()` of a request. For a `TRACE` request with a body it throws;
such a request is not sent. -/
def prepare_payload (req : request_message) : request_message :=
  { req with
    fields :=
      if takes_length req then set_content_length W req.fields (UInt64.ofNat req.body.length)
      else (set_unchunked W req.fields).erase content_length }

/-- `async_write(stream, request)`: the bytes of a request. -/
def bytes_of (req : request_message) : std_string := K.encode req ++ req.body

/-- How the recipient of a request finds the end of its body. -/
def request_framing (f : fields) : framing :=
  if W.chunked (values f transfer_encoding) then .chunked
  else
    match W.length (values f content_length) with
    | some n => .length n
    | none => .no_body

/-- The recipient reads a request, and leaves what is behind it. -/
def read_request (s : std_string) : Option (request_message × std_string) :=
  (K.decode s).bind fun h =>
    ((request_framing W h.1.fields).read h.2).map fun b => ({ h.1 with body := b.1 }, b.2)

/-- The recipient of requests. -/
def request_recipient : recipient Unit Char request_message := fun _ s => read_request W K s

variable {W K}

/-- No request goes on until the connection is closed. -/
theorem request_framing_ne (f : fields) : request_framing W f ≠ .until_close := by
  unfold request_framing
  split
  · simp
  · split
    · simp
    · simp

theorem read_request_incremental (hK : K.Documented) : Incremental (request_recipient W K) := by
  intro k s req rest h more
  obtain ⟨⟨header, behind⟩, hheader, hbody⟩ := Option.bind_eq_some_iff.mp h
  obtain ⟨⟨body, rest'⟩, hread, heq⟩ := Option.map_eq_some_iff.mp hbody
  obtain ⟨rfl, rfl⟩ := Prod.mk.inj heq
  show (K.decode (s ++ more)).bind _ = _
  rw [hK.incremental _ _ _ hheader more, Option.bind_some]
  dsimp only
  rw [framing_read_more (request_framing_ne _) hread more]
  rfl

/-- A request is read as it was written exactly if its header gives the length of its body
or, if this is empty, says nothing about it. -/
theorem read_request_iff {req : request_message} (hcarries : K.Carries req)
    (rest : std_string) :
    read_request W K (bytes_of K req ++ rest) = some (req, rest)
      ↔ request_framing W req.fields = .length req.body.length
        ∨ request_framing W req.fields = .no_body ∧ req.body = [] := by
  rw [← read_exact_iff _ (request_framing_ne _) req.body rest, bytes_of, List.append_assoc,
    read_request, hcarries, Option.bind_some]
  dsimp only
  cases (request_framing W req.fields).read (req.body ++ rest) with
  | none => simp
  | some b =>
      obtain ⟨body, left⟩ := b
      obtain ⟨method, target, version, fields, text⟩ := req
      simp [Prod.ext_iff]

/-! ## The framing of a prepared request -/

theorem values_erase_same (f : fields) (name : std_string) : values (f.erase name) name = [] := by
  unfold values fields.erase
  rw [List.filter_filter]
  simp

/-- The length of a prepared request is given, or it has no body and no length. -/
theorem length_prepared (hW : W.Documented)
    {req : request_message} (hsize : req.body.length < UInt64.size) :
    W.length (values (prepare_payload W req).fields content_length) = some req.body.length
      ∨ W.length (values (prepare_payload W req).fields content_length) = none
        ∧ req.body = [] := by
  unfold prepare_payload
  by_cases htakes : takes_length req = true
  · left
    simp only [htakes, if_true, set_content_length]
    rw [values_set_unchunked _ (by decide), values_set_same, hW.length_to_string,
      UInt64.toNat_ofNat_of_lt' hsize]
  · right
    have hbody : req.body = [] := by
      simp only [takes_length, Bool.or_eq_true, Bool.not_eq_true', not_or, Bool.not_eq_false,
        List.isEmpty_iff] at htakes
      exact htakes.1.1.1
    simp only [htakes, Bool.false_eq_true, if_false, values_erase_same]
    exact ⟨hW.no_length, hbody⟩

/-- Preparing leaves of the transfer codings what taking the last `chunked` away does. -/
theorem transfer_prepared (req : request_message) :
    values (prepare_payload W req).fields transfer_encoding
      = values (set_unchunked W req.fields) transfer_encoding := by
  unfold prepare_payload
  dsimp only
  split
  · -- the field with the length is another one
    have hlength : ∀ f : fields, ∀ value, values (set_unchunked W (f.set content_length value))
        transfer_encoding = values (set_unchunked W f) transfer_encoding := by
      intro f value
      have hvalues : values (f.set content_length value) transfer_encoding
          = values f transfer_encoding := values_set_of_ne _ _ (by decide)
      have hget : (f.set content_length value).get transfer_encoding
          = f.get transfer_encoding := fields.get_set_of_ne _ _ (by decide)
      unfold set_unchunked
      rw [hvalues, hget]
      split
      · exact hvalues
      · dsimp only
        split
        · rw [values_erase_same, values_erase_same]
        · rw [values_set_same, values_set_same]
    exact hlength _ _
  · exact values_erase_of_ne _ (by decide)

/-- A prepared request is framed unless it announces chunks. -/
theorem framed_prepared_iff (hW : W.Documented) {req : request_message}
    (hsize : req.body.length < UInt64.size) :
    (request_framing W (prepare_payload W req).fields = .length req.body.length
        ∨ request_framing W (prepare_payload W req).fields = .no_body ∧ req.body = [])
      ↔ W.chunked (values (set_unchunked W req.fields) transfer_encoding) = false := by
  unfold request_framing
  rw [transfer_prepared]
  by_cases hchunked :
      W.chunked (values (set_unchunked W req.fields) transfer_encoding) = true
  · simp [hchunked]
  · rw [if_neg hchunked]
    rcases length_prepared hW hsize with hlength | ⟨hlength, hbody⟩
    · simp [hlength, hchunked]
    · simp [hlength, hbody, hchunked]

/-- Addressing a request does not change how it is framed. -/
theorem framing_addressed (u : url) (req : request_message) :
    request_framing W (addressed u req).fields = request_framing W req.fields := by
  unfold request_framing addressed
  dsimp only
  rw [values_set_of_ne _ _ (by decide), values_set_of_ne _ _ (by decide),
    values_set_of_ne _ _ (by decide), values_set_of_ne _ _ (by decide)]

/-! ## The requests of a builder -/

/-- The value that the caller asked for is a list with one `chunked` at its end at most. -/
def OneChunked (W : wire_library) (value : std_string) : Prop :=
  W.chunked [W.unchunked_value value] = false

/-- After any calls there is one `Transfer-Encoding` field at most, and its value is the
argument of a call of `header`. -/
theorem calls_transfer {L : url_library} {cs : List builder_call} {b : request_builder}
    (h : request_builder.calls L cs = some b) :
    values b.request.fields transfer_encoding = []
      ∨ ∃ name value, .header name value ∈ cs ∧ iequals name transfer_encoding = true
        ∧ values b.request.fields transfer_encoding = [value] := by
  induction cs using List.reverseRecOn generalizing b with
  | nil =>
      obtain rfl := Option.some.inj h
      exact .inl rfl
  | append_singleton cs c ih =>
      rw [request_builder.calls, List.foldlM_append] at h
      obtain ⟨b', hb', hcall⟩ := Option.bind_eq_some_iff.mp h
      have hcall' : b'.call L c = some b := by simpa using hcall
      have hkept : values b.request.fields transfer_encoding
            = values b'.request.fields transfer_encoding →
          values b.request.fields transfer_encoding = []
            ∨ ∃ name value, .header name value ∈ cs ++ [c]
              ∧ iequals name transfer_encoding = true
              ∧ values b.request.fields transfer_encoding = [value] := by
        intro hvalues
        rw [hvalues]
        rcases ih hb' with hnone | ⟨name, value, hmem, hname, hvalues⟩
        · exact .inl hnone
        · exact .inr ⟨name, value, List.mem_append_left _ hmem, hname, hvalues⟩
      cases c with
      | header name value =>
          obtain rfl := Option.some.inj hcall'
          by_cases hname : iequals name transfer_encoding = true
          · -- `header` replaces every field of that name, however it is spelt
            right
            refine ⟨name, value, by simp, hname, ?_⟩
            show values (b'.request.fields.set name value) transfer_encoding = [value]
            have hnone : (b'.request.fields.erase name).filter
                (fun e => iequals e.1 transfer_encoding) = [] := by
              rw [List.filter_eq_nil_iff]
              intro e he hte
              have hother := (List.mem_filter.mp he).2
              rw [iequals_trans hte (by rw [iequals_comm]; exact hname)] at hother
              cases hother
            rw [values, fields.set, List.filter_append, hnone, List.nil_append]
            simp [hname]
          · have hne : iequals transfer_encoding name = false := by
              rw [iequals_comm]
              simpa using hname
            exact hkept (values_set_of_ne _ _ hne)
      | base_url base =>
          obtain ⟨u, -, rfl⟩ := Option.map_eq_some_iff.mp hcall'
          exact hkept rfl
      | _ =>
          obtain rfl := Option.some.inj hcall'
          exact hkept rfl

/-- If all values the caller asked for are such, no chunks are announced. -/
theorem unchunked_of_calls (hW : W.Documented) {L : url_library} {cs : List builder_call}
    {b : request_builder} (h : request_builder.calls L cs = some b)
    (hone : ∀ name value, .header name value ∈ cs → iequals name transfer_encoding = true →
      OneChunked W value) :
    W.chunked (values (set_unchunked W b.request.fields) transfer_encoding) = false := by
  unfold set_unchunked
  rcases calls_transfer h with hnone | ⟨name, value, hmem, hname, hvalues⟩
  · rw [hnone, List.isEmpty_nil, if_pos rfl, hnone]
    exact hW.absent
  · have hget : b.request.fields.get transfer_encoding = value := by
      rw [get_eq_values, hvalues]
      rfl
    rw [hvalues, hget]
    simp only [List.isEmpty_cons, Bool.false_eq_true, if_false]
    split
    · rw [values_erase_same]
      exact hW.absent
    · rw [values_set_same]
      exact hone name value hmem hname

/-- A request that `send` writes is framed unless its builder announces chunks. -/
theorem framed_sent_iff (hW : W.Documented) {L : url_library}
    (hprepare : L.prepare_payload = prepare_payload W) {b : request_builder}
    (hsize : b.request.body.length < UInt64.size) {N : network} {fuel : ℕ} {u : url}
    {message : request_message} (h : .request u message ∈ (send N fuel (b.build L)).events) :
    (request_framing W message.fields = .length message.body.length
        ∨ request_framing W message.fields = .no_body ∧ message.body = [])
      ↔ W.chunked (values (set_unchunked W b.request.fields) transfer_encoding) = false := by
  -- each hop writes the request that was built, readdressed
  have hmessage := carries_of_mem h
  have hbuilt : (b.build L).request
      = prepare_payload W { b.request with target := encoded_target b.url } := by
    rw [request_builder.build, hprepare]
  rw [hmessage, framing_addressed, hbuilt]
  exact @framed_prepared_iff W hW { b.request with target := encoded_target b.url } hsize

/-- **Every request is read as it was written.** For every builder, behind whatever calls,
every network and every hop: the request that `send` writes, if its recipient reads its header
section back, is read there as what it is, in front of whatever follows, exactly if taking a
last `chunked` away from what the caller asked for leaves none at the end; and it does if no
`Transfer-Encoding` that the caller asked for lists more than one there. -/
theorem every_request_is_read_iff (hW : W.Documented) {L : url_library}
    (hprepare : L.prepare_payload = prepare_payload W) (cs : List builder_call)
    (b : request_builder) (hcalls : request_builder.calls L cs = some b)
    (hsize : b.request.body.length < UInt64.size) (N : network) (fuel : ℕ) (u : url)
    (message : request_message) (h : .request u message ∈ (send N fuel (b.build L)).events)
    (hcarries : K.Carries message) (rest : std_string) :
    (read_request W K (bytes_of K message ++ rest) = some (message, rest)
        ↔ W.chunked (values (set_unchunked W b.request.fields) transfer_encoding) = false)
      ∧ ((∀ name value, .header name value ∈ cs → iequals name transfer_encoding = true →
          OneChunked W value) →
        read_request W K (bytes_of K message ++ rest) = some (message, rest)) := by
  have hiff : read_request W K (bytes_of K message ++ rest) = some (message, rest)
      ↔ W.chunked (values (set_unchunked W b.request.fields) transfer_encoding) = false := by
    rw [read_request_iff hcarries rest]
    exact framed_sent_iff hW hprepare hsize h
  exact ⟨hiff, fun hone => hiff.mpr (unchunked_of_calls hW hcalls hone)⟩

/-! ## Requests to try it with -/

def verb_name : verb → std_string
  | .get => "GET".toList
  | .post => "POST".toList
  | .head => "HEAD".toList
  | .put => "PUT".toList
  | .delete_ => "DELETE".toList
  | .options => "OPTIONS".toList
  | .other name => name

def string_to_verb (s : std_string) : verb :=
  if s = "GET".toList then .get
  else if s = "POST".toList then .post
  else if s = "HEAD".toList then .head
  else if s = "PUT".toList then .put
  else if s = "DELETE".toList then .delete_
  else if s = "OPTIONS".toList then .options
  else .other s

def request_lines (req : request_message) : List std_string :=
  (verb_name req.method ++ ' ' :: req.target ++ " HTTP/".toList
      ++ [Nat.digitChar (req.version / 10), '.', Nat.digitChar (req.version % 10)])
    :: req.fields.map fun e => e.1 ++ ": ".toList ++ e.2

def parse_request : List std_string → Option request_message
  | [] => none
  | l :: ls =>
      let rest := (l.dropWhile (· ≠ ' ')).drop 1
      some {
        method := string_to_verb (l.takeWhile (· ≠ ' '))
        target := rest.takeWhile (· ≠ ' ')
        version := digits_value (((rest.dropWhile (· ≠ ' ')).drop 6).filter Char.isDigit)
        fields := ls.map parse_field }

/-- Requests as HTTP/1.1 writes them. -/
def http_requests : request_codec where
  encode req := section_of (request_lines req)
  decode s := (read_lines s.length s).bind fun ls => (parse_request ls.1).map fun req => (req, ls.2)

/-- It carries a request whose lines are lines and say what the request says. -/
theorem http_requests_carries {req : request_message}
    (hlines : ∀ l ∈ request_lines req, l ≠ [] ∧ '\r' ∉ l)
    (hparse : parse_request (request_lines req) = some { req with body := [] }) :
    http_requests.Carries req := by
  intro rest
  show (read_lines _ (section_of (request_lines req) ++ rest)).bind _ = _
  rw [show http_requests.encode req = section_of (request_lines req) from rfl,
    read_section hlines, Option.bind_some, hparse]
  rfl

theorem http_requests_documented : http_requests.Documented where
  incremental := by
    intro s header rest h more
    obtain ⟨⟨ls, rest'⟩, hlines, hparse⟩ := Option.bind_eq_some_iff.mp h
    obtain ⟨req, hreq, heq⟩ := Option.map_eq_some_iff.mp hparse
    obtain ⟨rfl, rfl⟩ := Prod.mk.inj heq
    have hfuel : s.length ≤ (s ++ more).length := by
      rw [List.length_append]
      omega
    show (read_lines _ (s ++ more)).bind _ = _
    rw [read_lines_more hfuel hlines more, Option.bind_some, hreq]
    rfl
  not_empty := rfl

/-- The URL library with `prepare_payload` as it is here. -/
def prepares : url_library := { reads_h with prepare_payload := prepare_payload http_wire }

/-- A request with a body, for which the caller announces chunks. -/
def post_calls : List builder_call :=
  [.base_url "http://h".toList, .target "/r".toList, .method .post, .body "a=1".toList,
    .header "transfer-encoding".toList "chunked".toList]

def posted : request_builder where
  url := { scheme := some .http, authority := some host_h, path := "/r".toList }
  request := {
    method := .post, target := [], body := "a=1".toList,
    fields := [("transfer-encoding".toList, "chunked".toList)] }

/-- Its length is put in and the announcement is taken out. -/
def posted_message : request_message :=
  addressed (url_of posted.url) (posted.build prepares).request

/-- It is read in front of the next request. -/
theorem every_request_is_read_iff_posted :
    read_request http_wire http_requests
        (bytes_of http_requests posted_message ++ "GET / HTTP/1.1".toList)
      = some (posted_message, "GET / HTTP/1.1".toList) := by
  have hprepare : prepares.prepare_payload = prepare_payload http_wire := rfl
  have hread := every_request_is_read_iff http_wire_documented hprepare post_calls posted
    (by rfl) (by decide +kernel) (redirecting fun _ => none) 1 (url_of posted.url)
    posted_message (by decide +kernel)
    (http_requests_carries (by decide +kernel) (by decide +kernel)) "GET / HTTP/1.1".toList
  exact hread.1.mpr (by decide +kernel)

end CppHttp.RequestFraming
