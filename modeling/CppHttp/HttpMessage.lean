/-
The part of Beast's HTTP messages that the server reads and writes: methods,
header fields, persistence, request messages and response headers.

Field names are compared without regard to ASCII case. `set` removes every field
of the name before it adds the new one, and reading a field that is not there
gives the empty text.

Whether a message asks for a persistent connection depends on its version and on
the tokens of its `Connection` field. Beast's token list and the setter
`keep_alive(bool)` are not part of the repository: they are the parameter
`connection_library`, and what the code relies on about them is `Documented`.
-/
import CppHttp.StdString

set_option autoImplicit false

namespace CppHttp.HttpMessage

open CppHttp.StdString

/-! ## Methods -/

/-- `boost::beast::http::verb`: the methods the server has a table for, and all
others by name. -/
inductive verb
  | get
  | post
  | head
  | put
  | delete_
  | options
  | other (name : std_string)
  deriving DecidableEq, Repr

/-! ## Fields -/

/-- `boost::beast::iequals`: equal without regard to ASCII case. -/
def iequals (a b : std_string) : Bool := a.map Char.toLower == b.map Char.toLower

/-- `boost::beast::http::fields`: names and values in the order of the header. -/
abbrev fields := List (std_string × std_string)

/-- `fields[name]`: the value of the first field of that name, empty if there is
none. -/
def fields.get (f : fields) (name : std_string) : std_string :=
  ((f.find? fun e => iequals e.1 name).map Prod.snd).getD []

/-- `fields.erase(name)`. -/
def fields.erase (f : fields) (name : std_string) : fields :=
  f.filter fun e => !iequals e.1 name

/-- `fields.set(name, value)`. -/
def fields.set (f : fields) (name value : std_string) : fields :=
  f.erase name ++ [(name, value)]

@[simp] theorem iequals_self (a : std_string) : iequals a a = true := by simp [iequals]

theorem iequals_comm (a b : std_string) : iequals a b = iequals b a := by
  unfold iequals
  rw [Bool.eq_iff_iff, beq_iff_eq, beq_iff_eq]
  exact eq_comm

theorem iequals_trans {a b c : std_string} (h1 : iequals a b = true) (h2 : iequals b c = true) :
    iequals a c = true := by
  simp only [iequals, beq_iff_eq] at *
  rw [h1, h2]

theorem iequals_eq_false {a b c : std_string} (h1 : iequals a b = true)
    (h2 : iequals b c = false) : iequals a c = false := by
  by_contra hac
  have : iequals b c = true :=
    iequals_trans (by rw [iequals_comm]; exact h1) (by simpa using hac)
  rw [h2] at this
  cases this

theorem fields.get_erase_same (f : fields) (name : std_string) :
    (f.erase name).get name = [] := by
  have hnone : (f.erase name).find? (fun e => iequals e.1 name) = none := by
    rw [List.find?_eq_none]
    intro e he
    have := (List.mem_filter.mp he).2
    simpa using this
  rw [fields.get, hnone]
  rfl

theorem fields.get_erase_of_ne (f : fields) {name other : std_string}
    (h : iequals other name = false) : (f.erase name).get other = f.get other := by
  have hfind : (f.erase name).find? (fun e => iequals e.1 other)
      = f.find? fun e => iequals e.1 other := by
    unfold fields.erase
    rw [List.find?_filter]
    congr 1
    funext e
    -- a field of the other name is not one of the erased name
    by_cases ho : iequals e.1 other = true
    · simp [ho, iequals_eq_false ho h]
    · simp [ho]
  rw [fields.get, hfind, fields.get]

theorem fields.get_set_same (f : fields) (name value : std_string) :
    (f.set name value).get name = value := by
  have hnone : (f.erase name).find? (fun e => iequals e.1 name) = none := by
    rw [List.find?_eq_none]
    intro e he
    have := (List.mem_filter.mp he).2
    simpa using this
  simp [fields.get, fields.set, List.find?_append, hnone]

theorem fields.get_set_of_ne (f : fields) {name other : std_string} (value : std_string)
    (h : iequals other name = false) : (f.set name value).get other = f.get other := by
  -- the added field has the set name, so it is not one of the other name
  rw [← fields.get_erase_of_ne f h]
  have hsingle : [(name, value)].find? (fun e => iequals e.1 other) = none := by
    simp [iequals_comm name other, h]
  rw [fields.get, fields.get, fields.set, List.find?_append, hsingle, Option.or_none]

/-! ## Persistence -/

/-- The field name `http::field::connection`. -/
def connection : std_string := "Connection".toList

/-- The token of a connection that stays open, as the code and Beast spell it. -/
def keep_alive_token : std_string := "keep-alive".toList

/-- The token of a connection that is closed. -/
def close_token : std_string := "close".toList

/-- Beast's reading and writing of `Connection` values. -/
structure connection_library where
  /-- `token_list{value}.exists(token)` -/
  token_exists : std_string → std_string → Bool
  /-- What `message::keep_alive(keep)` makes of the value, given the version of the
  message; the empty value is no field. -/
  keep_alive_value : ℕ → std_string → Bool → std_string

/-- What is documented of the two: a single token is in the list of itself, the empty
value has none, and in a message without a `Connection` field `keep_alive` announces
what the version does not promise already. -/
structure connection_library.Documented (C : connection_library) : Prop where
  keep_alive_exists : C.token_exists keep_alive_token keep_alive_token = true
  keep_alive_not_close : C.token_exists keep_alive_token close_token = false
  close_exists : C.token_exists close_token close_token = true
  empty : ∀ token, C.token_exists [] token = false
  http10_keep : ∀ version, version < 11 → C.keep_alive_value version [] true = keep_alive_token
  http10_close : ∀ version, version < 11 → C.keep_alive_value version [] false = []
  http11_keep : ∀ version, 11 ≤ version → C.keep_alive_value version [] true = []
  http11_close : ∀ version, 11 ≤ version → C.keep_alive_value version [] false = close_token

variable (C : connection_library)

/-- `message::keep_alive()`: before HTTP/1.1 a connection persists if it is announced,
from then on unless its end is. -/
def fields.keep_alive (f : fields) (version : ℕ) : Bool :=
  if version < 11 then C.token_exists (f.get connection) keep_alive_token
  else !C.token_exists (f.get connection) close_token

/-- `message::keep_alive(bool)`. -/
def fields.set_keep_alive (f : fields) (version : ℕ) (keep : Bool) : fields :=
  let value := C.keep_alive_value version (f.get connection) keep
  if value.isEmpty then f.erase connection else f.set connection value

theorem fields.get_set_keep_alive (f : fields) (version : ℕ) (keep : Bool) :
    (f.set_keep_alive C version keep).get connection
      = C.keep_alive_value version (f.get connection) keep := by
  unfold fields.set_keep_alive
  by_cases h : C.keep_alive_value version (f.get connection) keep = []
  · simp only [h, List.isEmpty_nil, if_true]
    exact fields.get_erase_same f connection
  · have hne : (C.keep_alive_value version (f.get connection) keep).isEmpty = false := by
      simpa using h
    simp only [hne, Bool.false_eq_true, if_false]
    exact fields.get_set_same f connection _

/-- The plain text `keep-alive` announces persistence in every version. -/
theorem keep_alive_of_plain {C : connection_library} (hC : C.Documented) {f : fields}
    (version : ℕ) (h : f.get connection = keep_alive_token) :
    f.keep_alive C version = true := by
  unfold fields.keep_alive
  rw [h, hC.keep_alive_exists, hC.keep_alive_not_close]
  simp

/-- Where no `Connection` field was, the setter gives the message the semantics it was
asked for. -/
theorem keep_alive_set_keep_alive {C : connection_library} (hC : C.Documented) {f : fields}
    (h : f.get connection = []) (version : ℕ) (keep : Bool) :
    (f.set_keep_alive C version keep).keep_alive C version = keep := by
  unfold fields.keep_alive
  rw [fields.get_set_keep_alive, h]
  by_cases hv : version < 11
  · rw [if_pos hv]
    cases keep with
    | true => rw [hC.http10_keep version hv, hC.keep_alive_exists]
    | false => rw [hC.http10_close version hv, hC.empty]
  · rw [if_neg hv]
    cases keep with
    | true => rw [hC.http11_keep version (by omega), hC.empty, Bool.not_false]
    | false => rw [hC.http11_close version (by omega), hC.close_exists, Bool.not_true]

/-- And it writes the plain text `keep-alive` only where the version does not promise
persistence already. -/
theorem plain_set_keep_alive_iff {C : connection_library} (hC : C.Documented) {f : fields}
    (h : f.get connection = []) (version : ℕ) (keep : Bool) :
    (f.set_keep_alive C version keep).get connection = keep_alive_token
      ↔ version < 11 ∧ keep = true := by
  have hnil : ([] : std_string) ≠ keep_alive_token := by decide
  have hclose : close_token ≠ keep_alive_token := by decide
  rw [fields.get_set_keep_alive, h]
  by_cases hv : version < 11
  · cases keep with
    | true => simp [hC.http10_keep version hv, hv]
    | false => simp [hC.http10_close version hv, hnil]
  · cases keep with
    | true =>
        rw [hC.http11_keep version (by omega)]
        exact ⟨fun heq => absurd heq hnil, fun hand => absurd hand.1 hv⟩
    | false =>
        rw [hC.http11_close version (by omega)]
        exact ⟨fun heq => absurd heq hclose, fun hand => absurd hand.1 hv⟩

/-! ## Messages -/

/-- `boost::beast::http::request<string_body>`. -/
structure request_message where
  method : verb
  target : std_string
  version : ℕ := 11
  fields : fields := []
  body : std_string := []
  deriving DecidableEq, Repr

/-- `request::keep_alive()`. -/
def request_message.keep_alive (req : request_message) : Bool :=
  req.fields.keep_alive C req.version

/-- `boost::beast::http::response_header<>`. -/
structure response_header where
  version : ℕ := 11
  result : ℕ := 200
  reason : std_string := []
  fields : fields := []
  deriving DecidableEq, Repr

/-- The statuses whose responses have no body: 1xx, 204 and 304. -/
def bodiless (result : ℕ) : Bool :=
  (decide (100 ≤ result) && decide (result < 200)) || result == 204 || result == 304

/-- `response::keep_alive()`. -/
def response_header.keep_alive (header : response_header) : Bool :=
  header.fields.keep_alive C header.version

end CppHttp.HttpMessage
