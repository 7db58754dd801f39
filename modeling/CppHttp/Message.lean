/-
`include/message.hpp`: the two message types the client and the server share,
`http_chunk` and `server_sent_event`, and how each is put on the wire.

An `http_chunk` becomes a Beast `chunk_body` (`to_chunk_body`), whose wire form is
the chunk framing of HTTP/1.1: the size in hexadecimal, the extension text as
given, and the body, each ended by CRLF. A `server_sent_event` becomes the body of
an `http_chunk` (`to_http_chunk`), one `name: value` line per field that is set.

Note what `to_http_chunk` does *not* write: every field line ends with one `'\n'`,
and nothing follows the last one. `to_http_chunk_no_blank` states it; it is the
fact the client side turns on.
-/
import CppHttp.StdString

set_option autoImplicit false

namespace CppHttp.Message

open CppHttp.StdString

/-! ## `http_chunk` -/

/-- `struct http_chunk`. -/
structure http_chunk where
  chunked_body : std_string := []
  extensions : Option std_string := none
  deriving DecidableEq, Repr

/-- `http_chunk::valid`: the body is not empty. -/
def http_chunk.valid (c : http_chunk) : Bool := !c.chunked_body.isEmpty

/-- What Beast's `make_chunk` builds from a buffer and an extension text. -/
structure chunk_body where
  buffer : std_string
  extensions : std_string
  deriving DecidableEq, Repr

def http_chunk.to_chunk_body (c : http_chunk) : chunk_body :=
  match c.extensions with
  | some ext => { buffer := c.chunked_body, extensions := ext }
  | none => { buffer := c.chunked_body, extensions := [] }

/-- The line terminator of HTTP. -/
def crlf : std_string := "\r\n".toList

/-- The chunk framing: size in hexadecimal, extensions, body. -/
def chunk_body.encode (b : chunk_body) : std_string :=
  Nat.toDigits 16 b.buffer.length ++ b.extensions ++ crlf ++ b.buffer ++ crlf

/-- The wire form of `make_chunk_last()`. -/
def chunk_last : std_string := "0".toList ++ crlf ++ crlf

theorem chunk_body.encode_ne_nil (b : chunk_body) : b.encode ≠ [] := by
  simp [chunk_body.encode, crlf]

/-! ## `server_sent_event` -/

/-- `struct server_sent_event`. -/
structure server_sent_event where
  event : Option std_string := none
  id : Option std_string := none
  data : Option std_string := none
  retry : Option UInt64 := none
  deriving DecidableEq, Repr

/-- `server_sent_event::valid`: some field is set. -/
def server_sent_event.valid (e : server_sent_event) : Bool :=
  e.event.isSome || e.id.isSome || e.data.isSome || e.retry.isSome

/-- An event with no field set is the default one. -/
theorem server_sent_event.eq_default {e : server_sent_event} (h : e.valid = false) :
    e = {} := by
  obtain ⟨event, id, data, retry⟩ := e
  simp only [valid, Bool.or_eq_false_iff, Option.isSome_eq_false_iff,
    Option.isNone_iff_eq_none] at h
  obtain ⟨⟨⟨rfl, rfl⟩, rfl⟩, rfl⟩ := h
  rfl

@[simp] theorem server_sent_event.default_valid :
    ({} : server_sent_event).valid = false := rfl

/-- `sse_body.append(name).append(value).append("\n")` under its `has_value` test. -/
def field_line (name : std_string) : Option std_string → std_string
  | some value => name ++ value ++ ['\n']
  | none => []

def server_sent_event.to_http_chunk (e : server_sent_event) : http_chunk :=
  { chunked_body :=
      field_line "event: ".toList e.event
        ++ field_line "id: ".toList e.id
        ++ field_line "data: ".toList e.data
        ++ field_line "retry: ".toList (e.retry.map to_string)
    extensions := none }

/-! ## The shape of an encoded event -/

/-- The strings of an event hold no line terminator. -/
def server_sent_event.SingleLine (e : server_sent_event) : Prop :=
  (∀ v ∈ e.event, '\n' ∉ v ∧ '\r' ∉ v) ∧ (∀ v ∈ e.id, '\n' ∉ v ∧ '\r' ∉ v)
    ∧ (∀ v ∈ e.data, '\n' ∉ v ∧ '\r' ∉ v)

instance (e : server_sent_event) : Decidable e.SingleLine :=
  inferInstanceAs (Decidable ((∀ v ∈ e.event, _) ∧ (∀ v ∈ e.id, _) ∧ (∀ v ∈ e.data, _)))

/-- A text whose only trailing terminator is the last character: it does not end
with a blank line, whatever is in front of it. -/
def OneTerminator (s : std_string) : Prop := ∃ pre c, c ≠ '\n' ∧ s = pre ++ [c, '\n']

theorem OneTerminator.append_left {s : std_string} (h : OneTerminator s) (t : std_string) :
    OneTerminator (t ++ s) := by
  obtain ⟨pre, c, hc, rfl⟩ := h
  exact ⟨t ++ pre, c, hc, by simp⟩

theorem OneTerminator.not_blank {s : std_string} (h : OneTerminator s) :
    ¬ ['\n', '\n'] <:+ s := by
  obtain ⟨pre, c, hc, rfl⟩ := h
  rintro ⟨t, ht⟩
  have h2 : t ++ ['\n'] = pre ++ [c] := by
    have : (t ++ ['\n']) ++ ['\n'] = (pre ++ [c]) ++ ['\n'] := by simpa using ht
    exact List.append_cancel_right this
  have := (List.append_inj' h2 rfl).2
  simp only [List.cons.injEq, and_true] at this
  exact hc this.symm

/-- A field line with a value that holds no `'\n'` has one terminator: the
character in front of it is the value's last one, or the blank behind the colon. -/
theorem field_line_oneTerminator (name : std_string) {c : Char} (hc : c ≠ '\n')
    {value : std_string} (hv : '\n' ∉ value) :
    OneTerminator (field_line (name ++ [c]) (some value)) := by
  rcases List.eq_nil_or_concat value with rfl | ⟨pre, d, rfl⟩
  · exact ⟨name, c, hc, by simp [field_line]⟩
  · refine ⟨name ++ [c] ++ pre, d, ?_, by simp [field_line]⟩
    rintro rfl
    exact hv (by simp)

theorem newline_notMem_to_string (v : UInt64) : '\n' ∉ to_string v := by
  intro h
  have hd := Nat.isDigit_of_mem_toDigits (b := 10) (by decide) (by decide) h
  simp [Char.isDigit] at hd

/-- The encoding of a valid event whose strings hold no `'\n'` ends with one
terminator: the line of the last field that is set is the end of the body, and
no blank line follows it. -/
theorem to_http_chunk_no_blank {e : server_sent_event} (hv : e.valid = true)
    (hs : e.SingleLine) : OneTerminator e.to_http_chunk.chunked_body := by
  obtain ⟨event, id, data, retry⟩ := e
  obtain ⟨hevent, hid, hdata⟩ := hs
  simp only [server_sent_event.to_http_chunk]
  -- the cases are the last field that is set, from the back
  cases retry with
  | some v =>
      exact (field_line_oneTerminator "retry:".toList (by decide)
        (newline_notMem_to_string v)).append_left _
  | none =>
      rw [Option.map_none, field_line, List.append_nil]
      cases data with
      | some v =>
          exact (field_line_oneTerminator "data:".toList (by decide)
            (hdata v rfl).1).append_left _
      | none =>
          rw [field_line, List.append_nil]
          cases id with
          | some v =>
              exact (field_line_oneTerminator "id:".toList (by decide)
                (hid v rfl).1).append_left _
          | none =>
              rw [field_line, List.append_nil]
              cases event with
              | some v =>
                  exact field_line_oneTerminator "event:".toList (by decide)
                    (hevent v rfl).1
              | none => cases hv

end CppHttp.Message
