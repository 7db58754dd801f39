/-
Error codes and results.

An `error_code` tests as true when it holds an error; the code writes one through
`yield[ec]` after every asynchronous operation and tests it with `if (ec)`. Of the
errors only those the code compares with or returns are told apart.

A `result<T>` holds a value or an error code. Returning an error code from a function
that returns a result makes the result a failure, also when the code holds no error.
-/
import CppHttp.StdString

set_option autoImplicit false

namespace CppHttp.Errors

/-- The errors the code names, and all others. -/
inductive error
  | eof
  | need_buffer
  | bad_transfer_encoding
  | channel_closed
  | other (category : ℕ) (value : ℕ)
  deriving DecidableEq, Repr

/-- `boost::system::error_code`: `none` is the code that tests as false. -/
abbrev error_code := Option error

/-- `boost::outcome_v2::result<T>`. -/
abbrev result (α : Type*) := Except error_code α

end CppHttp.Errors
