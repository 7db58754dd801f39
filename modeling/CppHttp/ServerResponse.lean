/-
`server/response.hpp` and the ready-made responses of `server/util.hpp`.

A response of the server is either a whole message or a header with the channel its
chunks come from. `response_builder` is the fluent interface the handlers build one
with; `not_found`, `server_error` and `bad_request` are built without it and share
their shape: the request's version, a plain text, and the request's wish about the
connection.

What the session turns on is whether a response spells its persistence out
(`PlainOrClose`). Beast's setter does not where the version of the message promises a
persistent connection already: so neither the ready-made responses to an HTTP/1.1 request
that wants the connection kept do (`text_response_plainOrClose`), nor what a handler
builds with `keep_alive(true)` for one (`response_builder.plainOrClose`).
-/
import CppHttp.Channel
import CppHttp.HttpMessage
import CppHttp.Message

set_option autoImplicit false

namespace CppHttp.ServerResponse

open CppHttp.Channel CppHttp.HttpMessage CppHttp.Message CppHttp.StdString

/-! ## Responses -/

/-- `class response`. -/
inductive response
  /-- `mutable_response`: a message with its body. -/
  | basic (header : response_header) (body : std_string)
  /-- `streaming_response`: a header, and the channel the chunks come from. -/
  | streaming (header : response_header) (rx : BoundedChannel http_chunk)

def response.header_cref : response → response_header
  | .basic header _ => header
  | .streaming header _ => header

/-- `response_impl::to_generator` throws: Beast's `prepare_payload` does not take a body
for a status that has none. -/
def response.refused : response → Bool
  | .basic header body => bodiless header.result && !body.isEmpty
  | .streaming _ _ => false

/-! ## `response_builder` -/

/-- `class response_builder`: the header built so far. -/
structure response_builder where
  header_ : response_header := {}
  deriving DecidableEq, Repr

namespace response_builder

def status (b : response_builder) (status : ℕ) : response_builder :=
  { b with header_ := { b.header_ with result := status } }

def ok (b : response_builder) : response_builder := b.status 200

def bad_request (b : response_builder) : response_builder := b.status 400

def server_error (b : response_builder) : response_builder := b.status 500

def version (b : response_builder) (version : ℕ) : response_builder :=
  { b with header_ := { b.header_ with version := version } }

/-- `response_builder::keep_alive`: the version set so far decides how it is written. -/
def keep_alive (C : connection_library) (b : response_builder) (keep_alive : Bool) :
    response_builder :=
  { b with header_ := { b.header_ with
      fields := b.header_.fields.set_keep_alive C b.header_.version keep_alive } }

def set (b : response_builder) (field value : std_string) : response_builder :=
  { b with header_ := { b.header_ with fields := b.header_.fields.set field value } }

def content_type (b : response_builder) (content_type : std_string) : response_builder :=
  b.set "Content-Type".toList content_type

def reason (b : response_builder) (reason : std_string) : response_builder :=
  { b with header_ := { b.header_ with reason := reason } }

def body (b : response_builder) (body : std_string) : response := .basic b.header_ body

end response_builder

/-! ## Ready-made responses -/

variable (C : connection_library)

def server_agent : std_string := "cpp-http/server".toList

/-- The header fields of `bad_request`, `not_found` and `server_error`. -/
def text_fields (req : request_message) : fields :=
  fields.set_keep_alive C
    (fields.set (fields.set [] "Server".toList server_agent)
      "Content-Type".toList "text/plain".toList)
    req.version (req.keep_alive C)

/-- The common shape of the three. -/
def text_response (status : ℕ) (body : std_string) (req : request_message) : response :=
  .basic { version := req.version, result := status, fields := text_fields C req } body

def bad_request (req : request_message) (why : std_string) : response :=
  text_response C 400 why req

def not_found (req : request_message) : response :=
  text_response C 404
    ("The resource '".toList ++ req.target ++ "' was not found.".toList) req

def server_error (req : request_message) (what : std_string) : response :=
  text_response C 500 ("An error occurred: '".toList ++ what ++ "'".toList) req

/-! ## What they say about the connection -/

/-- The response says `keep-alive` in its `Connection` field, or it closes the
connection. -/
def response.PlainOrClose (res : response) : Prop :=
  res.header_cref.fields.get connection = keep_alive_token
    ∨ res.header_cref.keep_alive C = false

/-- A header whose persistence was set, once and for its version, on fields without
`Connection` spells it out exactly if it is one before HTTP/1.1 or not to be kept. -/
theorem plainOrClose_of_set_keep_alive {C : connection_library} (hC : C.Documented)
    {res : response} {f : fields} (h : f.get connection = []) {keep : Bool}
    (hres : res.header_cref.fields = f.set_keep_alive C res.header_cref.version keep) :
    res.PlainOrClose C ↔ res.header_cref.version < 11 ∨ keep = false := by
  unfold response.PlainOrClose response_header.keep_alive
  rw [hres, plain_set_keep_alive_iff hC h, keep_alive_set_keep_alive hC h]
  cases keep with
  | true => simp
  | false => simp

/-- The ready-made responses have no `Connection` field before their persistence is
set. -/
theorem text_fields_eq (req : request_message) :
    ∃ f : fields, f.get connection = []
      ∧ text_fields C req = f.set_keep_alive C req.version (req.keep_alive C) := by
  refine ⟨_, ?_, rfl⟩
  rw [fields.get_set_of_ne _ _ (by decide), fields.get_set_of_ne _ _ (by decide)]
  rfl

/-- A ready-made response spells its semantics out exactly for requests before HTTP/1.1
and requests that do not want the connection kept. -/
theorem text_response_plainOrClose {C : connection_library} (hC : C.Documented)
    (status : ℕ) (body : std_string) (req : request_message) :
    (text_response C status body req).PlainOrClose C
      ↔ req.version < 11 ∨ req.keep_alive C = false := by
  obtain ⟨f, hf, htext⟩ := text_fields_eq C req
  exact @plainOrClose_of_set_keep_alive C hC (text_response C status body req) f hf _ htext

/-- The same of a handler's response that is built with `version(v)` and then
`keep_alive(k)`: to an HTTP/1.1 request it can only spell out the close. -/
theorem response_builder.plainOrClose {C : connection_library} (hC : C.Documented)
    (b : response_builder) (hb : b.header_.fields.get connection = []) (version : ℕ)
    (keep : Bool) (body : std_string) :
    (((b.version version).keep_alive C keep).body body).PlainOrClose C
      ↔ version < 11 ∨ keep = false :=
  @plainOrClose_of_set_keep_alive C hC (((b.version version).keep_alive C keep).body body)
    b.header_.fields hb keep rfl

/-! ## A connection library -/

/-- A text cut at its commas, without blanks. -/
def split_at_commas : std_string → List std_string
  | [] => [[]]
  | ',' :: s => [] :: split_at_commas s
  | c :: s =>
      match split_at_commas s with
      | [] => [[c]]
      | t :: ts => (if c = ' ' then t else c :: t) :: ts

/-- The tokens of a `Connection` value. -/
def token_list (value : std_string) : List std_string :=
  (split_at_commas value).filter fun t => !t.isEmpty

/-- The tokens other than the given one. -/
def without (token : std_string) (ts : List std_string) : List std_string :=
  ts.filter fun t => !iequals t token

/-- The tokens with the given one, added at the end if it is missing. -/
def with_token (token : std_string) (ts : List std_string) : List std_string :=
  if ts.any fun t => iequals t token then ts else ts ++ [token]

/-- Token lists as Beast documents them. -/
def token_connection : connection_library where
  token_exists value token := (token_list value).any fun t => iequals t token
  keep_alive_value version value keep :=
    List.intercalate ", ".toList
      (if version < 11 then
        if keep then with_token keep_alive_token (without close_token (token_list value))
        else without keep_alive_token (without close_token (token_list value))
      else if keep then without keep_alive_token (without close_token (token_list value))
      else with_token close_token (without keep_alive_token (token_list value)))

theorem token_connection_documented : token_connection.Documented where
  keep_alive_exists := by decide +kernel
  keep_alive_not_close := by decide +kernel
  close_exists := by decide +kernel
  empty := fun _ => rfl
  http10_keep := by
    intro version h
    simp only [token_connection, if_pos h]
    decide +kernel
  http10_close := by
    intro version h
    simp only [token_connection, if_pos h]
    decide +kernel
  http11_keep := by
    intro version h
    simp only [token_connection, if_neg (Nat.not_lt.mpr h)]
    decide +kernel
  http11_close := by
    intro version h
    simp only [token_connection, if_neg (Nat.not_lt.mpr h)]
    decide +kernel

end CppHttp.ServerResponse
