/-
A connection as its client sees it: the responses of a session, one behind the other.

The client has sent some requests and reads one response for each. Where a response ends it
finds from the header, unless the request was a `HEAD` request. The header of a basic
response is finished by `prepare_payload`, which puts the length in; the header of a
streaming one is written as the service left it, and chunks are written behind it.

`in_step_iff` says when the client is never out of step, in any run of a session and whatever
the requests are: exactly if each response that is written is `Framed` by its header, and
those to `HEAD` requests are headers alone. Then the client reads the responses to its
requests in order and nothing else. `framing_services_in_step` says which servers keep it in
step: those without `HEAD` requests whose services frame what they return. Both kinds of
streaming services do so if their handlers answer with status 200, and so do the two
responses that the server makes up itself.
-/
import CppHttp.Dispatch
import CppHttp.HeadSession
import CppHttp.Listener
import CppHttp.MessageStream
import CppHttp.StreamEndToEnd

set_option autoImplicit false

namespace CppHttp.Connection

open CppHttp.BodyFraming CppHttp.ChunkGrammar CppHttp.ChunkedService CppHttp.Errors
  CppHttp.HeadSession CppHttp.HttpMessage CppHttp.Listener CppHttp.MessageStream
  CppHttp.Request CppHttp.Runs CppHttp.Server CppHttp.ServerResponse
  CppHttp.Session CppHttp.StdString CppHttp.StreamEndToEnd
open CppHttp.Message (http_chunk chunk_body)
open CppHttp.StreamWriter (body_of body_ne_nil written)

/-! ## What is written -/

/-- The part of Beast that messages are written and read with. -/
structure wire_library extends transfer : transfer_library where
  /-- What is left of a `Transfer-Encoding` value if a `chunked` at its end is taken away;
  the empty value is no field. -/
  unchunked_value : std_string → std_string
  /-- The header section of a response, up to the empty line. -/
  encode : response_header → std_string
  /-- The header section in front, and what is behind it. -/
  decode : std_string → Option (response_header × std_string)

/-- What is documented of them: without a field there are no chunks and is no length, and a
`Content-Length` that is written is read. -/
structure wire_library.Documented (W : wire_library) : Prop where
  transfer : W.transfer.Documented
  absent : W.chunked [] = false
  no_length : W.length [] = none
  length_to_string : ∀ n : UInt64, W.length [to_string n] = some n.toNat

/-- The header is read as it was written, whatever stands behind it. The reason phrase may
be another one: if it is empty, a standard one is filled in. -/
def wire_library.Carries (W : wire_library) (header : response_header) : Prop :=
  ∃ reason, ∀ rest,
    W.decode (W.encode header ++ rest) = some ({ header with reason := reason }, rest)

variable (W : wire_library)

/-- What `message::content_length(n)` and `message::chunked(false)` do to the
`Transfer-Encoding` field. -/
def set_unchunked (f : fields) : fields :=
  if (values f transfer_encoding).isEmpty then f
  else
    let value := W.unchunked_value (f.get transfer_encoding)
    if value.isEmpty then f.erase transfer_encoding else f.set transfer_encoding value

/-- `message::content_length(n)`. -/
def set_content_length (f : fields) (n : UInt64) : fields :=
  set_unchunked W (f.set content_length (to_string n))

/-- `message::prepare_payload()`. Refusing the body is `response.refused`. -/
def prepare_payload (header : response_header) (body : std_string) : response_header :=
  { header with fields := set_content_length W header.fields (UInt64.ofNat body.length) }

/-- The header that `response::async_write` writes. -/
def sent_header : response → response_header
  | .basic header body => prepare_payload W header body
  | .streaming header _ => header

/-- A successful write of the response puts the bytes behind its header, and what they carry
is its body. The extension texts of the chunks are extensions. -/
def PutsBehind : response → std_string → std_string → Prop
  | .basic _ body, bytes, carried => bytes = body ∧ carried = body ∧ body.length < UInt64.size
  | .streaming _ rx, bytes, carried =>
      ∃ acts s, run StreamWriter.step (.start rx.cap) acts = some s ∧ s.pc = .done
        ∧ (∀ w ∈ s.writes, w.2 = .written) ∧ (∀ c ∈ s.accepted, Framable c)
        ∧ bytes = body_of s.writes ∧ carried = (written s.writes).flatMap chunk_body.buffer

/-- A request and the response that was successfully written for it. -/
structure turn where
  req : request_message
  res : response

/-- A response to a method, as it was put on a connection: its header and its body are what
the client is to read, but for the reason phrase. -/
abbrev sent_response := sent verb Char (response_header × std_string)

/-- What the turn puts on the connection, and what the client is to read there. A response
to a `HEAD` request has no body. -/
def turn.Puts (t : turn) (m : sent_response) : Prop :=
  ∃ bytes carried, PutsBehind t.res bytes carried
    ∧ m = { context := t.req.method
            message := ({ sent_header W t.res with reason := [] },
              if t.req.method = .head then [] else carried)
            bytes := W.encode (sent_header W t.res) ++ bytes }

/-! ## What is read -/

/-- How the client finds the end of the response's body. -/
def framing_for (method : verb) (header : response_header) : framing :=
  if method = .head then .no_body else W.framing header

/-- The client reads a response: its header, but for the reason phrase, and its body. -/
def read_response : recipient verb Char (response_header × std_string) := fun method s =>
  (W.decode s).bind fun h =>
    ((framing_for W method h.1).read h.2).map fun b => (({ h.1 with reason := [] }, b.1), b.2)

/-- The header tells how the body behind it ends: chunks are announced where there are
chunks, and only there. -/
def Framed : response → Prop
  | .basic header body => W.framing (prepare_payload W header body) ≠ .chunked
  | .streaming header _ => W.framing header = .chunked

/-- The response can be read by the client that has sent the request. -/
def turn.Fits (t : turn) : Prop :=
  if t.req.method = .head then bare t.res = true else Framed W t.res

/-! ## One response -/

variable {W}

theorem values_set_unchunked (f : fields) {name : std_string}
    (h : iequals name transfer_encoding = false) :
    values (set_unchunked W f) name = values f name := by
  unfold set_unchunked
  split
  · rfl
  · dsimp only
    split
    · exact values_erase_of_ne f h
    · exact values_set_of_ne f _ h

/-- The recipient of a prepared header goes by the length, unless there is no body or the
header announces chunks for all that. -/
theorem framing_prepare_payload (hW : W.Documented) (header : response_header)
    {body : std_string} (hsize : body.length < UInt64.size) :
    (W.framing (prepare_payload W header body) = .no_body → bodiless header.result = true)
      ∧ (∀ n, W.framing (prepare_payload W header body) = .length n → n = body.length)
      ∧ W.framing (prepare_payload W header body) ≠ .until_close := by
  -- the length is set first, and taking `chunked` away leaves that field alone
  have hlength : W.length (values (prepare_payload W header body).fields content_length)
      = some body.length := by
    show W.length (values (set_unchunked W (header.fields.set content_length
      (to_string (UInt64.ofNat body.length)))) content_length) = some body.length
    rw [values_set_unchunked _ (by decide), values_set_same, hW.length_to_string,
      UInt64.toNat_ofNat_of_lt' hsize]
  have hresult : (prepare_payload W header body).result = header.result := rfl
  unfold transfer_library.framing
  rw [hlength, hresult]
  by_cases hb : bodiless header.result = true
  · simp [hb]
  · rw [if_neg hb]
    by_cases hc : W.chunked (values (prepare_payload W header body).fields transfer_encoding)
        = true
    · simp [hc]
    · rw [if_neg hc]
      refine ⟨by simp, ?_, by simp⟩
      intro n hn
      exact (framing.length.inj hn).symm

/-- The bytes behind the header of a streaming response are its chunks and the last-chunk. -/
theorem puts_chunks {header : response_header} {rx : Channel.BoundedChannel http_chunk}
    {bytes carried : std_string} (h : PutsBehind (.streaming header rx) bytes carried) :
    ∃ chunks : List (std_string × std_string), (∀ c ∈ chunks, IsExtension c.1 ∧ c.2 ≠ [])
      ∧ bytes = chunks.flatMap (fun c => chunk c.1 c.2) ++ last_chunk
      ∧ carried = chunks.flatMap Prod.snd := by
  obtain ⟨acts, s, hrun, hdone, hwrites, hext, rfl, rfl⟩ := h
  refine ⟨(written s.writes).map on_wire, ?_, body_of_done hrun hdone hwrites, ?_⟩
  · intro c hc
    obtain ⟨b, hb, rfl⟩ := List.mem_map.mp hc
    apply mem_chunk_bodies hext
    rw [chunk_bodies_accepted hrun hdone]
    exact List.mem_append_left _ hb
  · rw [List.flatMap_map]
    rfl

/-- Nothing is behind the header exactly if the response is a bare one. -/
theorem puts_nil_iff {res : response} {bytes carried : std_string}
    (h : PutsBehind res bytes carried) : bytes = [] ↔ bare res = true := by
  cases res with
  | basic header body =>
      obtain ⟨rfl, -, -⟩ := h
      exact List.isEmpty_iff.symm
  | streaming header rx =>
      obtain ⟨acts, s, hrun, hdone, hwrites, -, rfl, -⟩ := h
      simp [bare, body_ne_nil hrun hdone hwrites]

/-- Behind a header of its own, what the response puts there is read as its body exactly if
the header frames it. -/
theorem read_behind_iff (hW : W.Documented) {res : response} (hrefused : res.refused = false)
    {bytes carried : std_string} (h : PutsBehind res bytes carried) (rest : std_string) :
    (W.framing (sent_header W res)).read (bytes ++ rest) = some (carried, rest)
      ↔ Framed W res := by
  cases res with
  | basic header body =>
      obtain ⟨rfl, rfl, hsize⟩ := h
      obtain ⟨hnone, hlength, hclose⟩ := framing_prepare_payload hW header hsize
      rw [sent_header, read_exact_iff _ hclose]
      unfold Framed
      constructor
      · intro hexact hchunked
        rw [hchunked] at hexact
        simp at hexact
      · intro hframed
        cases hf : W.framing (prepare_payload W header carried) with
        | no_body =>
            -- a body where none may be is refused
            have hempty := hrefused
            rw [response.refused, hnone hf, Bool.true_and, Bool.not_eq_false',
              List.isEmpty_iff] at hempty
            exact .inr ⟨rfl, hempty⟩
        | chunked => exact absurd hf hframed
        | length n => exact .inl (congrArg framing.length (hlength n hf))
        | until_close => exact absurd hf hclose
  | streaming header rx =>
      obtain ⟨chunks, hchunks, rfl, rfl⟩ := puts_chunks h
      exact read_chunks_iff _ hchunks rest

/-- **One response.** What a turn puts on the connection is read as it is meant to be, in
front of whatever follows, exactly if it fits. -/
theorem readBefore_iff (hW : W.Documented) {t : turn} (hrefused : t.res.refused = false)
    (hcarries : W.Carries (sent_header W t.res))
    {m : sent_response} (hm : t.Puts W m) (rest : std_string) :
    m.ReadBefore (read_response W) rest ↔ t.Fits W := by
  obtain ⟨bytes, carried, hputs, rfl⟩ := hm
  obtain ⟨reason, hdecode⟩ := hcarries
  -- the header is read as it was, so reading depends on what is behind it
  have hread : ∀ body, (read_response W t.req.method
        (W.encode (sent_header W t.res) ++ (bytes ++ rest))
      = some (({ sent_header W t.res with reason := [] }, body), rest))
      ↔ (framing_for W t.req.method (sent_header W t.res)).read (bytes ++ rest)
        = some (body, rest) := by
    intro body
    have hframing : framing_for W t.req.method { sent_header W t.res with reason := reason }
        = framing_for W t.req.method (sent_header W t.res) := rfl
    rw [read_response, hdecode, Option.bind_some, hframing]
    cases (framing_for W t.req.method (sent_header W t.res)).read (bytes ++ rest) with
    | none => simp
    | some b => simp [Prod.ext_iff]
  unfold sent.ReadBefore turn.Fits
  rw [List.append_assoc, hread]
  by_cases hhead : t.req.method = .head
  · rw [if_pos hhead, if_pos hhead, framing_for, if_pos hhead, ← puts_nil_iff hputs]
    simp [framing.read]
  · rw [if_neg hhead, if_neg hhead, framing_for, if_neg hhead]
    exact read_behind_iff hW hrefused hputs rest

/-! ## A library to run a connection with -/

/-- The lines up to an empty one, fewer than `fuel`, and what is behind it. -/
def read_lines : ℕ → std_string → Option (List std_string × std_string)
  | 0, _ => none
  | fuel + 1, s =>
      (split_line s).bind fun l =>
        if l.1.isEmpty then some ([], l.2)
        else (read_lines fuel l.2).map fun ls => (l.1 :: ls.1, ls.2)

/-- Lines that are written are read. -/
theorem read_lines_append {ls : List std_string} (h : ∀ l ∈ ls, l ≠ [] ∧ '\r' ∉ l) {fuel : ℕ}
    (hfuel : ls.length < fuel) (rest : std_string) :
    read_lines fuel (ls.flatMap (fun l => l ++ crlf) ++ (crlf ++ rest)) = some (ls, rest) := by
  induction ls generalizing fuel with
  | nil =>
      obtain ⟨fuel, rfl⟩ := Nat.exists_eq_add_one.mpr hfuel
      rfl
  | cons l ls ih =>
      obtain ⟨fuel, rfl⟩ := Nat.exists_eq_add_one.mpr (Nat.zero_lt_of_lt hfuel)
      obtain ⟨⟨hne, hcr⟩, hls⟩ := List.forall_mem_cons.mp h
      have hempty : l.isEmpty = false := by simpa using hne
      have hless : ls.length < fuel := by simpa using hfuel
      rw [List.flatMap_cons, List.append_assoc, List.append_assoc, read_lines,
        split_line_append hcr, Option.bind_some]
      simp only [hempty, Bool.false_eq_true, if_false]
      rw [ih hls hless]
      rfl

/-- Lines that have ended are what they are, whatever else arrives. -/
theorem read_lines_more {fuel fuel' : ℕ} (hfuel : fuel ≤ fuel') {s rest : std_string}
    {ls : List std_string} (h : read_lines fuel s = some (ls, rest)) (more : std_string) :
    read_lines fuel' (s ++ more) = some (ls, rest ++ more) := by
  induction fuel generalizing fuel' s ls with
  | zero => cases h
  | succ fuel ih =>
      obtain ⟨fuel', rfl⟩ := Nat.exists_eq_add_one.mpr (Nat.lt_of_lt_of_le (Nat.succ_pos _) hfuel)
      have hless : fuel ≤ fuel' := Nat.le_of_succ_le_succ hfuel
      obtain ⟨⟨l, s'⟩, hsplit, h⟩ := Option.bind_eq_some_iff.mp h
      rw [read_lines, split_line_more hsplit, Option.bind_some]
      dsimp only at h ⊢
      split at h
      · next hempty =>
          obtain ⟨rfl, rfl⟩ := Prod.mk.inj (Option.some.inj h)
          rw [if_pos hempty]
      · next hempty =>
          obtain ⟨⟨ls', rest'⟩, hread, heq⟩ := Option.map_eq_some_iff.mp h
          obtain ⟨rfl, rfl⟩ := Prod.mk.inj heq
          rw [if_neg hempty, ih hless hread]
          rfl

theorem length_le_lines (ls : List std_string) :
    ls.length ≤ (ls.flatMap fun l => l ++ crlf).length := by
  induction ls with
  | nil => exact Nat.le_refl 0
  | cons l ls ih =>
      have hcrlf : crlf.length = 2 := rfl
      simp only [List.flatMap_cons, List.length_append, List.length_cons, hcrlf]
      omega

/-- The lines, and an empty one behind them. -/
def section_of (ls : List std_string) : std_string := ls.flatMap (fun l => l ++ crlf) ++ crlf

/-- A section is read as its lines, whatever stands behind it. -/
theorem read_section {ls : List std_string} (h : ∀ l ∈ ls, l ≠ [] ∧ '\r' ∉ l)
    (rest : std_string) :
    read_lines (section_of ls ++ rest).length (section_of ls ++ rest) = some (ls, rest) := by
  have hfuel : ls.length < (section_of ls ++ rest).length := by
    have hlen := length_le_lines ls
    have hcrlf : crlf.length = 2 := rfl
    simp only [section_of, List.length_append, hcrlf]
    omega
  have hread := read_lines_append h hfuel rest
  rwa [← List.append_assoc] at hread

/-- The phrases that are filled in for the responses of the server's own. -/
def standard_reason (result : ℕ) : std_string :=
  if result = 200 then "OK".toList
  else if result = 400 then "Bad Request".toList
  else if result = 404 then "Not Found".toList
  else if result = 500 then "Internal Server Error".toList
  else "<unknown-status>".toList

def status_line (header : response_header) : std_string :=
  "HTTP/".toList ++ Nat.digitChar (header.version / 10) :: '.'
    :: Nat.digitChar (header.version % 10) :: ' ' :: Nat.toDigits 10 header.result ++ ' '
    :: (if header.reason.isEmpty then standard_reason header.result else header.reason)

def header_lines (header : response_header) : List std_string :=
  status_line header :: header.fields.map fun e => e.1 ++ ": ".toList ++ e.2

def parse_status_line : std_string → Option response_header
  | 'H' :: 'T' :: 'T' :: 'P' :: '/' :: major :: '.' :: minor :: ' ' :: s =>
      some {
        version := digits_value [major, minor]
        result := digits_value (s.takeWhile Char.isDigit)
        reason := (s.dropWhile Char.isDigit).drop 1 }
  | _ => none

def parse_field (l : std_string) : std_string × std_string :=
  (l.takeWhile (· ≠ ':'), (l.dropWhile (· ≠ ':')).drop 2)

def parse_header : List std_string → Option response_header
  | [] => none
  | l :: ls => (parse_status_line l).map fun h => { h with fields := ls.map parse_field }

/-- Messages as HTTP/1.1 writes them, with the token lists of `token_transfer`. -/
def http_wire : wire_library where
  transfer := token_transfer
  unchunked_value value :=
    let tokens := token_list value
    List.intercalate ", ".toList
      (if tokens.getLast?.any fun token => iequals token chunked_coding then tokens.dropLast
        else tokens)
  encode header := section_of (header_lines header)
  decode s :=
    (read_lines s.length s).bind fun ls => (parse_header ls.1).map fun header => (header, ls.2)

theorem http_wire_documented : http_wire.Documented where
  transfer := token_transfer_documented
  absent := by decide +kernel
  no_length := rfl
  length_to_string := by
    intro n
    show (some (to_string n)).bind (fun value => (from_chars value).map UInt64.toNat)
      = some n.toNat
    rw [Option.bind_some, SseRoundTrip.from_chars_to_string]
    rfl

/-- It carries a header whose lines are lines and say what the header says. -/
theorem http_wire_carries {header : response_header} {reason : std_string}
    (hlines : ∀ l ∈ header_lines header, l ≠ [] ∧ '\r' ∉ l)
    (hparse : parse_header (header_lines header) = some { header with reason := reason }) :
    http_wire.Carries header := by
  refine ⟨reason, fun rest => ?_⟩
  show (read_lines _ (section_of (header_lines header) ++ rest)).bind _ = _
  rw [show http_wire.encode header = section_of (header_lines header) from rfl,
    read_section hlines, Option.bind_some, hparse]
  rfl

/-! ## The responses of a session -/

/-- A request that is answered: the response to it is written directly behind it. -/
def turn_of : event → event → Option turn
  | .delivered req, .wrote res none => some { req := req, res := res }
  | _, _ => none

/-- The answered requests of a session, with their responses. -/
def turns : List event → List turn
  | e :: next :: rest => (turn_of e next).toList ++ turns (next :: rest)
  | _ => []

/-- The requests of a session. -/
def requests (trace : List event) : List request_message :=
  trace.filterMap fun e =>
    match e with
    | .delivered req => some req
    | _ => none

theorem turns_concat (pre : List event) (e next : event) :
    turns (pre ++ [e] ++ [next]) = turns (pre ++ [e]) ++ (turn_of e next).toList := by
  induction pre with
  | nil => simp [turns]
  | cons a pre ih =>
      cases pre with
      | nil => simp [turns]
      | cons b pre =>
          simp only [List.cons_append, turns] at ih ⊢
          rw [ih, List.append_assoc]

theorem requests_append (a b : List event) : requests (a ++ b) = requests a ++ requests b :=
  List.filterMap_append

theorem requests_of_ends_turn {e : event} (h : e.ends_turn = true) : requests [e] = [] := by
  cases e with
  | delivered req => cases h
  | wrote res ec => cases h
  | reads => rfl
  | ended => rfl
  | raised => rfl

/-- Only a response makes a turn. -/
theorem turn_of_not_wrote (e : event) {next : event} (h : next.is_wrote = false) :
    turn_of e next = none := by
  cases next with
  | wrote res ec => cases h
  | reads => cases e <;> rfl
  | delivered req => cases e <;> rfl
  | ended => cases e <;> rfl
  | raised => cases e <;> rfl

/-- A turn stands in the trace, the response behind the request. -/
theorem rel_of_mem_turns {R : event → event → Prop} {trace : List event}
    (h : trace.IsChain R) {t : turn} (ht : t ∈ turns trace) :
    R (.delivered t.req) (.wrote t.res none) := by
  induction trace using turns.induct with
  | case1 e next rest ih =>
      obtain ⟨hR, hrest⟩ := List.isChain_cons_cons.mp h
      rw [turns, List.mem_append] at ht
      rcases ht with ht | ht
      · unfold turn_of at ht
        split at ht
        · rw [Option.mem_toList] at ht
          obtain rfl := Option.some.inj ht
          exact hR
        · cases ht
      · exact ih hrest ht
  | case2 trace htrace =>
      rw [turns] at ht
      · cases ht
      · exact htrace

/-- The requests without an answer, by the place the session waits in. -/
def session_pc.Unanswered : session_pc → List request_message → Prop
  | .reading, left => left = []
  | .handling req, left => left = [req]
  | .writing _, left => left.length = 1
  | .ended, _ => True
  | .raised, _ => True

/-- What holds in every state: the answered requests are the first ones, in order, and no
response that was written is one that Beast refuses. -/
structure Answering (s : session) : Prop where
  inv : Session.Inv s
  answered : ∃ left, requests s.trace = (turns s.trace).map turn.req ++ left
    ∧ session_pc.Unanswered s.pc left
  sendable : ∀ t ∈ turns s.trace, t.res.refused = false

theorem answering_start : Answering .start where
  inv := inv_start
  answered := ⟨[], rfl, rfl⟩
  sendable := by
    intro t ht
    cases ht

/-- An event that is no response adds no turn. -/
theorem turns_of_not_wrote {s : session} (h : Answering s) {next : event}
    (hnext : next.is_wrote = false) : turns (s.trace ++ [next]) = turns s.trace := by
  obtain ⟨pre, e, htrace, -⟩ := h.inv.last
  rw [htrace, turns_concat, turn_of_not_wrote e hnext, Option.toList_none, List.append_nil]

/-- The end of a turn adds neither a turn nor a request. -/
theorem answering_end {s : session} (h : Answering s) {e : event} (he : e.ends_turn = true)
    {pc : session_pc} {ec : error_code}
    (hinv : Session.Inv { pc := pc, ec := ec, trace := s.trace ++ [e] })
    (hpc : ∀ left, session_pc.Unanswered pc left) :
    Answering { pc := pc, ec := ec, trace := s.trace ++ [e] } := by
  have hturns := turns_of_not_wrote h (not_wrote_of_ends_turn he)
  have hrequests : requests (s.trace ++ [e]) = requests s.trace := by
    rw [requests_append, requests_of_ends_turn he, List.append_nil]
  obtain ⟨left, hleft, -⟩ := h.answered
  refine ⟨hinv, ⟨left, ?_, hpc left⟩, ?_⟩
  · rw [hturns, hrequests, hleft]
  · rw [hturns]
    exact h.sendable

/-- A write that is over answers the last request, unless it has failed. -/
theorem answering_write {s : session} (h : Answering s) {rep : reply}
    (hpc : s.pc = .writing rep) {res : response} (hrefused : res.refused = false)
    {ec : error_code} {next : event} (hnext : next.ends_turn = true) {pc : session_pc}
    {ec' : error_code}
    (hinv : Session.Inv { pc := pc, ec := ec', trace := s.trace ++ [.wrote res ec, next] })
    (hend : ∀ left, (ec = none → left = []) → session_pc.Unanswered pc left) :
    Answering { pc := pc, ec := ec', trace := s.trace ++ [.wrote res ec, next] } := by
  obtain ⟨pre, last, htrace, hlast⟩ := h.inv.last
  obtain ⟨left, hleft, hone⟩ := h.answered
  rw [hpc] at hlast hone
  obtain ⟨req, rfl⟩ := hlast
  -- the request that waits is the last one
  obtain rfl : left = [req] := by
    obtain ⟨x, rfl⟩ := List.length_eq_one_iff.mp hone
    rw [htrace, requests_append] at hleft
    have hlasts := congrArg List.getLast? hleft
    simp [requests] at hlasts
    rw [hlasts]
  have hsplit : s.trace ++ [.wrote res ec, next]
      = pre ++ [.delivered req] ++ [.wrote res ec] ++ [next] := by
    rw [htrace, List.append_assoc _ [_] [next]]
    rfl
  have hturns : turns (s.trace ++ [.wrote res ec, next])
      = turns s.trace ++ (turn_of (.delivered req) (.wrote res ec)).toList := by
    rw [hsplit, turns_concat, turn_of_not_wrote _ (not_wrote_of_ends_turn hnext), turns_concat,
      htrace, Option.toList_none, List.append_nil]
  have hrequests : requests (s.trace ++ [.wrote res ec, next]) = requests s.trace := by
    have hwrote : requests [.wrote res ec, next] = requests [next] := rfl
    rw [requests_append, hwrote, requests_of_ends_turn hnext, List.append_nil]
  cases ec with
  | none =>
      refine ⟨hinv, ⟨[], ?_, hend [] fun _ => rfl⟩, ?_⟩
      · rw [hturns, hrequests, hleft, List.map_append, List.append_nil]
        rfl
      · rw [hturns]
        intro t ht
        rcases List.mem_append.mp ht with ht | ht
        · exact h.sendable t ht
        · obtain rfl := List.mem_singleton.mp ht
          exact hrefused
  | some e =>
      have hnone : (turn_of (.delivered req) (.wrote res (some e))).toList = [] := rfl
      rw [hnone, List.append_nil] at hturns
      refine ⟨hinv, ⟨[req], ?_, hend [req] fun hec => by cases hec⟩, ?_⟩
      · rw [hturns, hrequests, hleft]
      · rw [hturns]
        exact h.sendable

variable {L : libraries} {ω : Type}

theorem answering_step {srv : server L ω} {s t : session} {a : action ω} (h : Answering s)
    (hst : do_session srv s a = some t) : Answering t := by
  have hinv := inv_step h.inv hst
  obtain ⟨left, hleft, hpcleft⟩ := h.answered
  rcases do_session_cases hst with
    ⟨arrived, -, hpc, rfl⟩ | ⟨world, req, -, hpc, rfl⟩ | ⟨ec, rep, -, hpc, rfl⟩
  · cases arrived with
    | error e => exact answering_end h rfl hinv fun _ => trivial
    | ok req =>
        rw [hpc] at hpcleft
        obtain rfl : left = [] := hpcleft
        have hdelivered : (event.delivered req).is_wrote = false := rfl
        have hturns := turns_of_not_wrote h hdelivered
        refine ⟨hinv, ⟨[req], ?_, rfl⟩, ?_⟩
        · show requests (s.trace ++ [.delivered req])
            = (turns (s.trace ++ [.delivered req])).map turn.req ++ [req]
          rw [hturns, requests_append, hleft, List.append_nil]
          rfl
        · show ∀ t ∈ turns (s.trace ++ [.delivered req]), t.res.refused = false
          rw [hturns]
          exact h.sendable
  · -- the handler: nothing is answered yet, and a session that is over owes no answer
    rw [hpc] at hpcleft
    obtain rfl : left = [req] := hpcleft
    have hclear := h.inv.clear req hpc
    unfold session.on_handle at hinv ⊢
    rw [hclear] at hinv ⊢
    cases hmake : request.make L.parse_url req with
    | none =>
        simp only [hmake] at hinv ⊢
        exact answering_end h rfl hinv fun _ => trivial
    | some r =>
        simp only [hmake] at hinv ⊢
        cases hdispatch : srv.dispatch_request r none world with
        | mk out left =>
          simp only [hdispatch] at hinv ⊢
          cases out with
          | none => exact answering_end h rfl hinv fun _ => trivial
          | some rep =>
              cases left with
              | some e => exact answering_end h rfl hinv fun _ => trivial
              | none => exact ⟨hinv, ⟨[req], hleft, rfl⟩, h.sendable⟩
  · -- the write: a refused response raises, any other is over with or without an error
    unfold session.on_write at hinv ⊢
    cases hrefused : (rep.response L).refused with
    | true =>
        simp only [hrefused, if_true] at hinv ⊢
        exact answering_end h rfl hinv fun _ => trivial
    | false =>
        simp only [hrefused, Bool.false_eq_true, if_false] at hinv ⊢
        cases ec with
        | some e => exact answering_write h hpc hrefused rfl hinv fun _ _ => trivial
        | none =>
            cases hkeep : says_keep_alive (rep.response L) with
            | false =>
                simp only [hkeep] at hinv ⊢
                exact answering_write h hpc hrefused rfl hinv fun _ _ => trivial
            | true =>
                simp only [hkeep] at hinv ⊢
                exact answering_write h hpc hrefused rfl hinv fun _ hleft => hleft rfl

theorem answering_of_run {srv : server L ω} {acts : List (action ω)} {s : session}
    (hrun : run (do_session srv) .start acts = some s) : Answering s :=
  run_invariant (fun _ _ _ h hst => answering_step h hst) answering_start hrun

/-- The answered requests are the first ones. -/
theorem Answering.first {s : session} (h : Answering s) :
    (turns s.trace).map turn.req = (requests s.trace).take (turns s.trace).length := by
  obtain ⟨left, hleft, -⟩ := h.answered
  rw [hleft, ← List.length_map (f := turn.req), List.take_left]

theorem contexts_eq {ts : List turn} {ms : List sent_response}
    (h : List.Forall₂ (turn.Puts W) ts ms) :
    ms.map sent.context = (ts.map turn.req).map request_message.method := by
  induction h with
  | nil => rfl
  | cons hm _ ih =>
      obtain ⟨bytes, carried, -, rfl⟩ := hm
      rw [List.map_cons, ih]
      rfl

/-- The client is in step exactly if all turns fit. -/
theorem inStep_turns_iff (hW : W.Documented) {s : session} (h : Answering s)
    (hcarries : ∀ t ∈ turns s.trace, W.Carries (sent_header W t.res)) {ms : List sent_response}
    (hms : List.Forall₂ (turn.Puts W) (turns s.trace) ms) (rest : std_string) :
    InStep (read_response W) ms rest ↔ ∀ t ∈ turns s.trace, t.Fits W :=
  inStep_iff hms
    (fun t ht _ hm rest => readBefore_iff hW (h.sendable t ht) (hcarries t ht) hm rest) rest

/-- In step it reads the responses to the first requests. -/
theorem read_all_turns {s : session} (h : Answering s) {ms : List sent_response}
    (hms : List.Forall₂ (turn.Puts W) (turns s.trace) ms) {rest : std_string}
    (hstep : InStep (read_response W) ms rest) :
    read_all (read_response W)
        (((requests s.trace).take ms.length).map request_message.method) (line ms ++ rest)
      = some (ms.map sent.message, rest) := by
  rw [← hms.length_eq, ← h.first, ← contexts_eq hms]
  exact read_all_of_inStep hstep

/-- **A connection in step.** In every run of a session whose responses have header sections
that the client reads back, and are put behind them as `PutsBehind` says: the client reads
each response from where it begins, as it was put there, to where it ends, if and only if each
response that was written fits. And then it gets the responses to its requests, in order, and
what is behind them is left. -/
theorem in_step_iff (hW : W.Documented) (srv : server L ω) (acts : List (action ω)) (s : session)
    (hrun : run (do_session srv) .start acts = some s)
    (hcarries : ∀ t ∈ turns s.trace, W.Carries (sent_header W t.res))
    (ms : List sent_response)
    (hms : List.Forall₂ (turn.Puts W) (turns s.trace) ms) (rest : std_string) :
    (InStep (read_response W) ms rest ↔ ∀ t ∈ turns s.trace, t.Fits W)
      ∧ (InStep (read_response W) ms rest →
        read_all (read_response W)
            (((requests s.trace).take ms.length).map request_message.method) (line ms ++ rest)
          = some (ms.map sent.message, rest)) := by
  have h := answering_of_run hrun
  exact ⟨inStep_turns_iff hW h hcarries hms rest, read_all_turns h hms⟩

/-- A request without a route, on a connection that is to be kept. -/
def kept (path : std_string) : request_message :=
  { method := .get, target := path, version := 10, fields := [(connection, keep_alive_token)] }

/-- The turn of a server without routes. -/
def not_found_turn (path : std_string) : turn :=
  { req := kept path, res := not_found token_connection (kept path) }

/-- What the turn puts on the connection. -/
def not_found_sent (path : std_string) : sent_response :=
  let body := "The resource '".toList ++ path ++ "' was not found.".toList
  let header := sent_header http_wire (not_found_turn path).res
  { context := .get, message := (header, body), bytes := http_wire.encode header ++ body }

theorem puts_not_found {path : std_string}
    (h : ("The resource '".toList ++ path ++ "' was not found.".toList).length < UInt64.size) :
    (not_found_turn path).Puts http_wire (not_found_sent path) :=
  ⟨_, _, ⟨rfl, rfl, h⟩, rfl⟩

/-- Two requests, one behind the other. -/
def two_turns : List (action Unit) :=
  [.read (.ok (kept "/x".toList)), .handle (), .write none,
    .read (.ok (kept "/y".toList)), .handle (), .write none]

theorem run_two_turns :
    ∃ s, run (do_session bare_server) .start two_turns = some s
      ∧ turns s.trace = [not_found_turn "/x".toList, not_found_turn "/y".toList]
      ∧ requests s.trace = [kept "/x".toList, kept "/y".toList] :=
  ⟨_, rfl, rfl, rfl⟩

theorem puts_two_turns :
    List.Forall₂ (turn.Puts http_wire) [not_found_turn "/x".toList, not_found_turn "/y".toList]
      [not_found_sent "/x".toList, not_found_sent "/y".toList] :=
  .cons (puts_not_found (by decide +kernel)) (.cons (puts_not_found (by decide +kernel)) .nil)

theorem carries_two_turns : ∀ t ∈ [not_found_turn "/x".toList, not_found_turn "/y".toList],
    http_wire.Carries (sent_header http_wire t.res) := by
  intro t ht
  rcases List.mem_cons.mp ht with rfl | ht
  · exact @http_wire_carries _ "Not Found".toList (by decide +kernel) (by decide +kernel)
  · obtain rfl := List.mem_singleton.mp ht
    exact @http_wire_carries _ "Not Found".toList (by decide +kernel) (by decide +kernel)

/-- Both requests are answered with what their client can read. -/
theorem in_step_iff_two_turns :
    ∃ (s : session) (ms : List sent_response),
      run (do_session bare_server) .start two_turns = some s ∧ ms.length = 2
      ∧ (InStep (read_response http_wire) ms [] ↔ ∀ t ∈ turns s.trace, t.Fits http_wire)
      ∧ (InStep (read_response http_wire) ms [] →
        read_all (read_response http_wire)
            (((requests s.trace).take ms.length).map request_message.method) (line ms ++ [])
          = some (ms.map sent.message, [])) := by
  obtain ⟨s, hrun, hturns, -⟩ := run_two_turns
  refine ⟨s, [not_found_sent "/x".toList, not_found_sent "/y".toList], hrun, rfl, ?_⟩
  exact in_step_iff http_wire_documented bare_server two_turns s hrun
    (hturns ▸ carries_two_turns) _ (hturns ▸ puts_two_turns) []

/-! ## Services that keep a client in step -/

variable (W) in
/-- What the service returns is framed. -/
def Frames (svc : service ω) : Prop :=
  ∀ req ec world res left, svc.handle_request req ec world = (.returned (.ok res), left) →
    Framed W res

/-- A basic response without a `Transfer-Encoding` field is framed by its length. -/
theorem framed_of_length (hW : W.Documented) {header : response_header} (body : std_string)
    (h : values header.fields transfer_encoding = []) : Framed W (.basic header body) := by
  have hvalues : values (prepare_payload W header body).fields transfer_encoding = [] := by
    show values (set_unchunked W (header.fields.set content_length _)) transfer_encoding = []
    rw [set_unchunked, values_set_of_ne _ _ (by decide), h, List.isEmpty_nil, if_pos rfl,
      values_set_of_ne _ _ (by decide), h]
  intro hchunked
  rw [framing_eq_chunked_iff, transfer_library.Announces, hvalues, hW.absent] at hchunked
  exact absurd hchunked.1 (by decide)

/-- So are the responses that the server makes up itself. -/
theorem framed_text_response (hW : W.Documented) (C : connection_library) (status : ℕ)
    (body : std_string) (req : request_message) :
    Framed W (text_response C status body req) := by
  apply framed_of_length hW
  show values (text_fields C req) transfer_encoding = []
  unfold text_fields fields.set_keep_alive
  dsimp only
  split
  · rw [values_erase_of_ne _ (by decide), values_set_of_ne _ _ (by decide),
      values_set_of_ne _ _ (by decide)]
    rfl
  · rw [values_set_of_ne _ _ (by decide), values_set_of_ne _ _ (by decide),
      values_set_of_ne _ _ (by decide)]
    rfl

/-- A streaming service frames what it returns if its handler answers with status 200 or
announces the chunks itself. -/
theorem frames_streaming (hW : W.Documented) (svc : streaming_service ω)
    (h : ∀ req tx ec world header left,
      svc.handler req tx ec world = (.returned (.ok header), left) →
      header.result = 200 ∨ W.framing header = .chunked) :
    Frames W (svc.as_service W.transfer) := by
  intro req ec world res left hres
  cases res with
  | basic header body =>
      -- `chunked_service::handle_request` returns streaming responses
      have hreturns : ∀ svc : chunked_service ω,
          svc.handle_request W.transfer req ec world
            ≠ (.returned (.ok (.basic header body)), left) := by
        intro svc heq
        unfold chunked_service.handle_request at heq
        dsimp only at heq
        split at heq <;> cases heq
      cases svc with
      | chunked svc => exact absurd hres (hreturns svc)
      | sse svc => exact absurd hres (hreturns svc.as_chunked)
  | streaming sent rx =>
      obtain ⟨header, hhandler, -, hiff⟩ :=
        handle_request_spec hW.transfer svc req ec left world sent rx hres
      exact hiff.mpr (h _ _ _ _ _ _ hhandler)

/-- A server whose services frame what they return replies with what is framed. -/
theorem framed_of_replies (hW : W.Documented) {srv : server L ω}
    (hframes : ∀ method, ∀ route ∈ srv.matchers method, Frames W route.2)
    {req : request_message} {rep : reply} (h : Replies srv req rep) :
    Framed W (rep.response L) := by
  obtain ⟨r, world, -, hdispatch⟩ := h
  rcases hfound : find_service (srv.matchers r.inner.method) r with f | _ | ⟨svc, req'⟩
  · rw [(dispatch_of_error hfound none world).1] at hdispatch
    cases hdispatch
  · rw [(dispatch_of_none hfound none world).1] at hdispatch
    obtain rfl := Option.some.inj (Prod.mk.inj hdispatch).1
    exact framed_text_response hW _ _ _ _
  · -- the service that is called is one of the table
    obtain ⟨before, m, after, htable, -⟩ := Dispatch.find_service_eq_some hfound
    have hmem : (m, svc) ∈ srv.matchers r.inner.method := by simp [htable]
    rw [(dispatch_of_some hfound none world).1, reply_to_eq_some_iff] at hdispatch
    rcases hdispatch with ⟨res, hhandled, rfl⟩ | ⟨e, -, rfl⟩
    · exact hframes _ _ hmem _ _ _ _ _ hhandled
    · exact framed_text_response hW _ _ _ _

/-- In every run each response that was written is one of a reply to its request. -/
theorem replies_of_run {srv : server L ω} {acts : List (action ω)} {s : session}
    (hrun : run (do_session srv) .start acts = some s) :
    ∀ t ∈ turns s.trace, ∃ rep, Replies srv t.req rep ∧ t.res = rep.response L := by
  have hreplying : Replying srv s :=
    run_invariant (fun _ _ _ h hst => replying_step h hst) (replying_start srv) hrun
  exact fun t ht => rel_of_mem_turns hreplying.replies ht

/-- Without `HEAD` requests they fit, if the services frame what they return. -/
theorem fits_of_run (hW : W.Documented) {srv : server L ω}
    (hframes : ∀ method, ∀ route ∈ srv.matchers method, Frames W route.2)
    {acts : List (action ω)} {s : session} (hrun : run (do_session srv) .start acts = some s)
    (hhead : ∀ req ∈ requests s.trace, req.method ≠ .head) :
    ∀ t ∈ turns s.trace, t.Fits W := by
  intro t ht
  have hmem : t.req ∈ requests s.trace := by
    have hfirst := List.mem_map_of_mem (f := turn.req) ht
    rw [(answering_of_run hrun).first] at hfirst
    exact List.mem_of_mem_take hfirst
  obtain ⟨rep, hrep, hres⟩ := replies_of_run hrun t ht
  rw [turn.Fits, if_neg (hhead _ hmem), hres]
  exact framed_of_replies hW hframes hrep

/-- **A server whose services frame what they return keeps its clients in step**: in every
run of a session without `HEAD` requests, whose responses have header sections that the client
reads back, the client reads as many responses as were written, each is the response of a
reply to the request in the same place, and what is behind them is left. -/
theorem framing_services_in_step (hW : W.Documented) (srv : server L ω)
    (hframes : ∀ method, ∀ route ∈ srv.matchers method, Frames W route.2)
    (acts : List (action ω)) (s : session) (hrun : run (do_session srv) .start acts = some s)
    (hhead : ∀ req ∈ requests s.trace, req.method ≠ .head)
    (hcarries : ∀ t ∈ turns s.trace, W.Carries (sent_header W t.res))
    (ms : List sent_response)
    (hms : List.Forall₂ (turn.Puts W) (turns s.trace) ms) (rest : std_string) :
    read_all (read_response W)
        (((requests s.trace).take ms.length).map request_message.method) (line ms ++ rest)
      = some (ms.map sent.message, rest)
      ∧ (turns s.trace).map turn.req = (requests s.trace).take ms.length
      ∧ ∀ t ∈ turns s.trace, ∃ rep, Replies srv t.req rep ∧ t.res = rep.response L := by
  have h := answering_of_run hrun
  have hfits := fits_of_run hW hframes hrun hhead
  refine ⟨read_all_turns h hms ((inStep_turns_iff hW h hcarries hms rest).mpr hfits), ?_,
    replies_of_run hrun⟩
  rw [← hms.length_eq, ← h.first]

theorem framing_services_in_step_two_turns :
    ∃ (s : session) (ms : List sent_response),
      run (do_session bare_server) .start two_turns = some s ∧ ms.length = 2
      ∧ read_all (read_response http_wire)
          (((requests s.trace).take ms.length).map request_message.method) (line ms ++ [])
        = some (ms.map sent.message, [])
      ∧ (turns s.trace).map turn.req = (requests s.trace).take ms.length
      ∧ ∀ t ∈ turns s.trace, ∃ rep, Replies bare_server t.req rep
        ∧ t.res = rep.response plain_libraries := by
  obtain ⟨s, hrun, hturns, hrequests⟩ := run_two_turns
  refine ⟨s, [not_found_sent "/x".toList, not_found_sent "/y".toList], hrun, rfl, ?_⟩
  refine framing_services_in_step http_wire_documented bare_server ?_ two_turns s hrun ?_
    (hturns ▸ carries_two_turns) _ (hturns ▸ puts_two_turns) []
  · intro method route hroute
    cases method <;> cases hroute
  · rw [hrequests]
    decide

end CppHttp.Connection
