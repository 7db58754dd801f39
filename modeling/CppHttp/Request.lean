/-
`server/request.hpp`: the request a handler sees.

The message Beast has parsed is kept as it is; the target is split into the path
and the query parameters by Boost.URL, and the matchers of the server fill in
`path_params` and `matches`.

Boost.URL is not part of the repository. `url_view` below is what its parser
returns for a target, and the parser itself is a parameter of everything that
builds a request: it either throws or gives the encoded path and the decoded query
parameters.
-/
import CppHttp.HttpMessage
import CppHttp.UnorderedMap

set_option autoImplicit false

namespace CppHttp.Request

open CppHttp.StdString CppHttp.HttpMessage CppHttp.UnorderedMap

/-- What `boost::urls::url_view` exposes of a target it accepts. -/
structure url_view where
  encoded_path : std_string
  params : List (std_string × std_string)
  deriving DecidableEq, Repr

/-- `std::smatch`: the texts of the sub-matches, none in a default one. -/
abbrev smatch := List std_string

/-- `class request`. -/
structure request where
  inner : request_message
  path : std_string
  path_params : unordered_map std_string std_string := {}
  matches_ : smatch := []
  query_params : List (std_string × std_string) := []

/-- `request::request`: `none` is the exception of a target that is not a URL
reference. -/
def request.make (parse_url : std_string → Option url_view) (req : request_message) :
    Option request :=
  (parse_url req.target).map fun url =>
    { inner := req, path := url.encoded_path, query_params := url.params }

/-- The message is kept as received. -/
theorem request.make_inner {parse_url : std_string → Option url_view} {req : request_message}
    {r : request} (h : request.make parse_url req = some r) : r.inner = req := by
  obtain ⟨url, -, rfl⟩ := Option.map_eq_some_iff.mp h
  rfl

end CppHttp.Request
