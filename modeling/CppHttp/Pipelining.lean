/-
A session on the bytes of its connection.

`server::do_session` (`server/server.hpp`) keeps one `flat_buffer` for the whole session, "to
persist across reads". Each `async_read` takes what the network brings until there is a
request in the buffer, and what is behind that request stays there: the client may write its
requests without waiting for the responses, and the network cuts them as it likes.
`socket_session` is a session with this buffer.

`pipelined_iff` says that the bytes and the buffer come to what `do_session` is elsewhere: a
session that is given requests, namely those in front of all bytes, one after the other. So
the cuts make no difference, and no byte is lost or used twice. `conversation` puts both
directions together: the client that has written some requests reads a response for each of
the first ones, in order, and each is what `dispatch_request` replied to the request in its
place.
-/
import CppHttp.RequestFraming

set_option autoImplicit false

namespace CppHttp.Pipelining

open CppHttp.BodyFraming CppHttp.ChunkedService CppHttp.Connection CppHttp.Errors
  CppHttp.HttpMessage CppHttp.Listener CppHttp.MessageStream CppHttp.Request
  CppHttp.RequestFraming CppHttp.Runs CppHttp.Server CppHttp.ServerResponse CppHttp.Session
  CppHttp.StdString
open CppHttp.Client (network url)
open CppHttp.RequestLine (request_builder url_library)

variable (W : wire_library) (K : request_codec)

/-! ## The session and its buffer -/

/-- `do_session` with its `buffer`. -/
structure socket_session where
  session : session
  buffer : inbound Char

/-- Before the first request; the pieces are all that the connection will bring. -/
def socket_session.start (pieces : List std_string) : socket_session :=
  { session := .start, buffer := { buffer := [], pending := pieces } }

/-- What the environment does. -/
inductive socket_action (ω : Type)
  /-- `async_read` finds a request -/
  | read
  /-- `async_read` fails: the end of the connection, the time limit, an error of the parser -/
  | fail (e : error)
  | handle (world : ω)
  | write (ec : error_code)

variable {L : libraries} {ω : Type}

/-- One step of `server::do_session` on its connection. -/
def do_socket_session (srv : server L ω) (s : socket_session) :
    socket_action ω → Option socket_session
  | .read =>
      (s.buffer.read_next (request_recipient W K) ()).bind fun r =>
        (do_session srv s.session (.read (.ok r.1))).map fun t => { session := t, buffer := r.2 }
  | .fail e =>
      (do_session srv s.session (.read (.error e))).map fun t => { s with session := t }
  | .handle world =>
      (do_session srv s.session (.handle world)).map fun t => { s with session := t }
  | .write ec => (do_session srv s.session (.write ec)).map fun t => { s with session := t }

/-! ## It is a session that is given requests -/

/-- An action of the session, without the request that is read. -/
def on_socket : action ω → socket_action ω
  | .read (.ok _) => .read
  | .read (.error e) => .fail e
  | .handle world => .handle world
  | .write ec => .write ec

/-- The requests that are read. -/
def delivered (acts : List (action ω)) : List request_message :=
  acts.filterMap fun
    | .read (.ok req) => some req
    | _ => none

/-- Reading these requests in front of the bytes. -/
def ReadsOff (reqs : List request_message) (text rest : std_string) : Prop :=
  read_all (request_recipient W K) (reqs.map fun _ => ()) text = some (reqs, rest)

variable {W K}

/-- But for the requests, the actions on the connection are those of the session. -/
theorem on_socket_inj {a b : action ω} (ha : delivered [a] = []) (h : on_socket b = on_socket a) :
    b = a := by
  rcases a with (e | req) | world | ec <;> rcases b with (e' | req') | world' | ec' <;> cases h
  · rfl
  · cases ha
  · rfl
  · rfl

/-- An action that reads no request leaves the buffer as it is. -/
theorem socket_step_quiet (srv : server L ω) {s t : session} {i : inbound Char} {a : action ω}
    (ha : delivered [a] = []) {rest : std_string} :
    (∃ j, do_socket_session W K srv { session := s, buffer := i } (on_socket a)
        = some { session := t, buffer := j } ∧ j.text = rest)
      ↔ ∃ b, on_socket b = on_socket a ∧ do_session srv s b = some t
        ∧ ReadsOff W K (delivered [b]) i.text rest := by
  have hstep : do_socket_session W K srv { session := s, buffer := i } (on_socket a)
      = (do_session srv s a).map fun u => { session := u, buffer := i } := by
    rcases a with (e | req) | world | ec
    · rfl
    · cases ha
    · rfl
    · rfl
  rw [hstep]
  constructor
  · rintro ⟨j, hmap, rfl⟩
    obtain ⟨u, hu, heq⟩ := Option.map_eq_some_iff.mp hmap
    obtain ⟨rfl, rfl⟩ := socket_session.mk.inj heq
    refine ⟨a, rfl, hu, ?_⟩
    rw [ha]
    rfl
  · rintro ⟨b, hb, hu, hread⟩
    obtain rfl := on_socket_inj ha hb
    rw [ha] at hread
    obtain ⟨-, rfl⟩ := Prod.mk.inj (Option.some.inj hread)
    exact ⟨i, by rw [hu]; rfl, rfl⟩

/-- Reading one request off the bytes. -/
theorem readsOff_one {req : request_message} {text rest : std_string} :
    ReadsOff W K [req] text rest ↔ read_request W K text = some (req, rest) := by
  show (read_request W K text).bind _ = some ([req], rest) ↔ _
  cases read_request W K text with
  | none => simp
  | some r => simp [read_all, Prod.ext_iff]

/-- One step on the connection is one step of the session, with the request in front of the
bytes if one is read. -/
theorem socket_step_iff (hK : K.Documented) (srv : server L ω) {s t : session}
    {i : inbound Char} {act : socket_action ω} {rest : std_string} :
    (∃ j, do_socket_session W K srv { session := s, buffer := i } act
        = some { session := t, buffer := j } ∧ j.text = rest)
      ↔ ∃ a, on_socket a = act ∧ do_session srv s a = some t
        ∧ ReadsOff W K (delivered [a]) i.text rest := by
  have hincremental := @read_request_incremental W K hK
  cases act with
  | fail e => exact @socket_step_quiet W K _ _ srv s t i (.read (.error e)) rfl rest
  | handle world => exact @socket_step_quiet W K _ _ srv s t i (.handle world) rfl rest
  | write ec => exact @socket_step_quiet W K _ _ srv s t i (.write ec) rfl rest
  | read =>
      constructor
      · rintro ⟨j, hstep, rfl⟩
        obtain ⟨⟨req, i'⟩, hnext, hstep⟩ := Option.bind_eq_some_iff.mp hstep
        obtain ⟨u, hu, heq⟩ := Option.map_eq_some_iff.mp hstep
        obtain ⟨rfl, rfl⟩ := socket_session.mk.inj heq
        exact ⟨.read (.ok req), rfl, hu, readsOff_one.mpr (read_of_read_next hincremental hnext)⟩
      · rintro ⟨a, ha, hu, hread⟩
        obtain ⟨req, rfl⟩ : ∃ req, a = .read (.ok req) := by
          rcases a with (e | req) | world | ec
          · cases ha
          · exact ⟨req, rfl⟩
          · cases ha
          · cases ha
        -- the request in front of all bytes is the one that the buffer comes to hold
        obtain ⟨j, hnext, hj⟩ := read_next_of_read hincremental (readsOff_one.mp hread)
        refine ⟨j, ?_, hj⟩
        show (i.read_next (request_recipient W K) ()).bind _ = _
        rw [hnext, Option.bind_some, hu]
        rfl

theorem delivered_cons (a : action ω) (acts : List (action ω)) :
    delivered (a :: acts) = delivered [a] ++ delivered acts := by
  rw [← List.singleton_append]
  exact List.filterMap_append

theorem readsOff_append_iff {reqs reqs' : List request_message} {text rest : std_string} :
    ReadsOff W K (reqs ++ reqs') text rest
      ↔ ∃ mid, ReadsOff W K reqs text mid ∧ ReadsOff W K reqs' mid rest := by
  unfold ReadsOff
  rw [List.map_append]
  exact read_all_append_iff (by rw [List.length_map])

/-- **A run on the connection is a run of the session** on the requests in front of the
bytes. The induction is on the run; what one step leaves of the bytes the others read. -/
theorem socket_run_iff (hK : K.Documented) (srv : server L ω)
    {acts : List (socket_action ω)} {s t : session} {i : inbound Char} {rest : std_string} :
    (∃ j, run (do_socket_session W K srv) { session := s, buffer := i } acts
        = some { session := t, buffer := j } ∧ j.text = rest)
      ↔ ∃ acts', acts'.map on_socket = acts ∧ run (do_session srv) s acts' = some t
        ∧ ReadsOff W K (delivered acts') i.text rest := by
  induction acts generalizing s i with
  | nil =>
      constructor
      · rintro ⟨j, hrun, rfl⟩
        obtain ⟨rfl, rfl⟩ := socket_session.mk.inj (Option.some.inj hrun)
        exact ⟨[], rfl, rfl, rfl⟩
      · rintro ⟨acts', hacts, hrun, hread⟩
        obtain rfl := List.map_eq_nil_iff.mp hacts
        obtain rfl := Option.some.inj hrun
        obtain ⟨-, rfl⟩ := Prod.mk.inj (Option.some.inj hread)
        exact ⟨i, rfl, rfl⟩
  | cons act acts ih =>
      constructor
      · rintro ⟨j, hrun, hj⟩
        obtain ⟨⟨u, k⟩, hstep, hmore⟩ := run_cons.mp hrun
        obtain ⟨a, ha, hu, hone⟩ := (socket_step_iff hK srv).mp ⟨k, hstep, rfl⟩
        obtain ⟨acts', hacts, hrun', hread⟩ := ih.mp ⟨j, hmore, hj⟩
        refine ⟨a :: acts', by rw [List.map_cons, ha, hacts], run_cons.mpr ⟨u, hu, hrun'⟩, ?_⟩
        rw [delivered_cons]
        exact readsOff_append_iff.mpr ⟨_, hone, hread⟩
      · rintro ⟨acts', hacts, hrun, hread⟩
        obtain ⟨a, acts', rfl, ha, hmap⟩ := List.map_eq_cons_iff.mp hacts
        obtain ⟨u, hu, hrun'⟩ := run_cons.mp hrun
        rw [delivered_cons] at hread
        obtain ⟨mid, hone, hmore⟩ := readsOff_append_iff.mp hread
        obtain ⟨k, hstep, rfl⟩ := (socket_step_iff hK srv).mpr ⟨a, ha, hu, hone⟩
        obtain ⟨j, hj, hrest⟩ := ih.mpr ⟨acts', hmap, hrun', hmore⟩
        exact ⟨j, run_cons.mpr ⟨_, hstep, hj⟩, hrest⟩

/-! ## The requests of a run -/

/-- A read request is the only one that is added. -/
theorem requests_step {srv : server L ω} {s t : session} {a : action ω}
    (hst : do_session srv s a = some t) :
    requests t.trace = requests s.trace ++ delivered [a] := by
  rcases do_session_cases hst with
    ⟨arrived, rfl, -, rfl⟩ | ⟨world, req, rfl, -, rfl⟩ | ⟨ec, rep, rfl, -, rfl⟩
  · cases arrived with
    | error e => exact requests_append _ _
    | ok req => exact requests_append _ _
  · unfold session.on_handle
    split
    · exact requests_append _ _
    · split
      · exact requests_append _ _
      · exact requests_append _ _
      · exact (List.append_nil _).symm
  · unfold session.on_write
    split
    · exact requests_append _ _
    · split
      · exact requests_append _ _
      · split
        · exact requests_append _ _
        · exact requests_append _ _

theorem requests_of_run {srv : server L ω} {s t : session} {acts : List (action ω)}
    (hrun : run (do_session srv) s acts = some t) :
    requests t.trace = requests s.trace ++ delivered acts := by
  induction acts generalizing s with
  | nil =>
      obtain rfl := Option.some.inj hrun
      exact (List.append_nil _).symm
  | cons a acts ih =>
      obtain ⟨u, hst, hu⟩ := run_cons.mp hrun
      rw [ih hu, requests_step hst, List.append_assoc, ← delivered_cons]

/-! ## The requests of a client -/

/-- The server reads this request as it was written, in front of anything: its header is
read, and gives the length of its body. -/
structure Readable (W : wire_library) (K : request_codec) (req : request_message) : Prop where
  carries : K.Carries req
  framed : request_framing W req.fields = .length req.body.length
    ∨ request_framing W req.fields = .no_body ∧ req.body = []

/-- So is what `send` writes, unless the caller has announced chunks for all that `build()`
does against it. -/
theorem readable_of_sent (hW : W.Documented) {L : url_library}
    (hprepare : L.prepare_payload = RequestFraming.prepare_payload W) {b : request_builder}
    (hsize : b.request.body.length < UInt64.size)
    (hchunked : W.chunked (values (set_unchunked W b.request.fields) transfer_encoding) = false)
    {N : network} {fuel : ℕ} {u : url} {message : request_message}
    (h : .request u message ∈ (Client.send N fuel (b.build L)).events)
    (hcarries : K.Carries message) :
    Readable W K message where
  carries := hcarries
  framed := (framed_sent_iff hW hprepare hsize h).mpr hchunked

/-- A request, as the client puts it on the connection. -/
def put_request (K : request_codec) (req : request_message) :
    sent Unit Char request_message :=
  { context := (), message := req, bytes := bytes_of K req }

theorem inStep_requests {reqs : List request_message} (h : ∀ req ∈ reqs, Readable W K req)
    (rest : std_string) : InStep (request_recipient W K) (reqs.map (put_request K)) rest := by
  induction reqs with
  | nil => trivial
  | cons req reqs ih =>
      obtain ⟨hreq, hreqs⟩ := List.forall_mem_cons.mp h
      exact ⟨(read_request_iff hreq.carries _).mpr hreq.framed, ih hreqs⟩

theorem line_requests (reqs : List request_message) :
    line (reqs.map (put_request K)) = reqs.flatMap (bytes_of K) := by
  rw [line, List.flatMap_map]
  rfl

/-- All of a client's requests can be read. -/
theorem readsOff_requests {reqs : List request_message} (h : ∀ req ∈ reqs, Readable W K req) :
    ReadsOff W K reqs (reqs.flatMap (bytes_of K)) [] := by
  have hall := read_all_of_inStep (inStep_requests h [])
  rw [List.append_nil, line_requests, List.map_map, List.map_map] at hall
  have hmessages : reqs.map (sent.message ∘ put_request K) = reqs := List.map_id reqs
  rw [hmessages] at hall
  exact hall

/-- Of a client's bytes, the server reads the client's requests, in order. -/
theorem prefix_of_readsOff (hK : K.Documented) {reqs got : List request_message}
    (h : ∀ req ∈ reqs, Readable W K req) {text rest : std_string}
    (htext : text <+: reqs.flatMap (bytes_of K)) (hread : ReadsOff W K got text rest) :
    got <+: reqs := by
  obtain ⟨more, hmore⟩ := htext
  -- what has not arrived does not change what has been read
  have hall := read_all_more (read_request_incremental hK) hread more
  rw [hmore, ← line_requests] at hall
  have hempty : ∀ k, request_recipient W K k [] = none := by
    intro k
    show (K.decode []).bind _ = none
    rw [hK.not_empty]
    rfl
  have hfront := prefix_of_read_all hempty (inStep_requests h []) hall
  rwa [List.map_map, show sent.message ∘ put_request K = id from rfl, List.map_id] at hfront

/-- The bytes of two requests, cut within the first. -/
def two_pieces : List std_string :=
  let bytes := bytes_of http_requests (kept "/x".toList)
  [bytes.take 5, bytes.drop 5 ++ bytes_of http_requests (kept "/y".toList)]

theorem flatten_two_pieces :
    two_pieces.flatten
      = [kept "/x".toList, kept "/y".toList].flatMap (bytes_of http_requests) := by
  show List.take 5 _ ++ (List.drop 5 _ ++ _ ++ []) = _ ++ (_ ++ [])
  rw [← List.append_assoc, ← List.append_assoc, List.take_append_drop, List.append_assoc]

theorem readable_two :
    ∀ req ∈ [kept "/x".toList, kept "/y".toList], Readable http_wire http_requests req := by
  intro req hreq
  rcases List.mem_cons.mp hreq with rfl | hreq
  · exact ⟨http_requests_carries (by decide +kernel) (by decide +kernel),
      .inr ⟨by decide +kernel, rfl⟩⟩
  · obtain rfl := List.mem_singleton.mp hreq
    exact ⟨http_requests_carries (by decide +kernel) (by decide +kernel),
      .inr ⟨by decide +kernel, rfl⟩⟩

/-- Both are read, answered with a response that keeps the connection, and answered again. -/
def socket_two_turns : List (socket_action Unit) := two_turns.map on_socket

/-! ## One direction -/

/-- **The buffer and the cuts cannot be seen.** For every way the bytes of a connection are
cut: what a session can come to on them is what `do_session` comes to, by the same actions,
on the requests that stand in front of the bytes, read one behind the other; and what is
left of the bytes is what stands behind these requests. -/
theorem pipelined_iff (hK : K.Documented) (srv : server L ω)
    (pieces : List std_string) (acts : List (socket_action ω)) (t : session)
    (rest : std_string) :
    (∃ j, run (do_socket_session W K srv) (.start pieces) acts
        = some { session := t, buffer := j } ∧ j.text = rest)
      ↔ ∃ acts', acts'.map on_socket = acts ∧ run (do_session srv) .start acts' = some t
        ∧ ReadsOff W K (requests t.trace) pieces.flatten rest := by
  rw [socket_session.start, socket_run_iff hK srv]
  have hrequests : ∀ acts' : List (action ω), run (do_session srv) .start acts' = some t →
      requests t.trace = delivered acts' := fun acts' hrun => requests_of_run hrun
  constructor
  · rintro ⟨acts', hacts, hrun, hread⟩
    exact ⟨acts', hacts, hrun, (hrequests acts' hrun).symm ▸ hread⟩
  · rintro ⟨acts', hacts, hrun, hread⟩
    exact ⟨acts', hacts, hrun, hrequests acts' hrun ▸ hread⟩

/-- The second piece holds the end of the first request and all of the second. -/
theorem pipelined_iff_two_turns :
    ∃ (t : session) (j : inbound Char),
      run (do_socket_session http_wire http_requests bare_server) (.start two_pieces)
          socket_two_turns = some { session := t, buffer := j }
        ∧ requests t.trace = [kept "/x".toList, kept "/y".toList] ∧ j.text = [] := by
  obtain ⟨t, hrun, -, hrequests⟩ := run_two_turns
  have hread : ReadsOff http_wire http_requests (requests t.trace) two_pieces.flatten [] := by
    rw [hrequests, flatten_two_pieces]
    exact readsOff_requests readable_two
  obtain ⟨j, hj, hrest⟩ := (pipelined_iff http_requests_documented bare_server two_pieces
    socket_two_turns t []).mpr ⟨two_turns, rfl, hrun, hread⟩
  exact ⟨t, j, hj, hrequests, hrest⟩

/-! ## Both directions -/

/-- What the client gets for a request: the header and the body that a reply of
`dispatch_request` to it puts on the connection. -/
def Answered (W : wire_library) (srv : server L ω) (req : request_message) (m : sent_response) :
    Prop :=
  ∃ rep, Replies srv req rep ∧ turn.Puts W { req := req, res := rep.response L } m

/-- **A conversation.** The client writes readable requests, none of them a `HEAD` request,
the services of the server frame what they return, and the client reads the header sections
of the responses back. However the client's bytes are cut,
however far they have arrived and whatever the session does: the requests it has read are
the client's first ones, in order; it has answered the first of these, one by one, with
what `dispatch_request` replied to them; and the client reads these answers, in order, each
as it was put on the connection. -/
theorem conversation (hW : W.Documented) (hK : K.Documented) (srv : server L ω)
    (hframes : ∀ method, ∀ route ∈ srv.matchers method, Frames W route.2)
    (reqs : List request_message)
    (hreqs : ∀ req ∈ reqs, Readable W K req ∧ req.method ≠ .head)
    (pieces : List std_string) (hpieces : pieces.flatten <+: reqs.flatMap (bytes_of K))
    (acts : List (socket_action ω)) (s : socket_session)
    (hrun : run (do_socket_session W K srv) (.start pieces) acts = some s)
    (hcarries : ∀ t ∈ turns s.session.trace, W.Carries (sent_header W t.res))
    (ms : List sent_response)
    (hms : List.Forall₂ (turn.Puts W) (turns s.session.trace) ms) (rest : std_string) :
    requests s.session.trace <+: reqs
      ∧ List.Forall₂ (Answered W srv) (reqs.take ms.length) ms
      ∧ read_all (read_response W) ((reqs.take ms.length).map request_message.method)
          (line ms ++ rest) = some (ms.map sent.message, rest) := by
  obtain ⟨t, j⟩ := s
  obtain ⟨acts', -, hsession, hread⟩ :=
    (@socket_run_iff W K _ _ hK srv acts .start t _ j.text).mp ⟨j, hrun, rfl⟩
  have hdelivered : requests t.trace = delivered acts' := requests_of_run hsession
  have hreadable : ∀ req ∈ reqs, Readable W K req := fun req hreq => (hreqs req hreq).1
  have hfront : requests t.trace <+: reqs := by
    rw [hdelivered]
    exact prefix_of_readsOff hK hreadable hpieces hread
  have hanswering := answering_of_run hsession
  have hfits := fits_of_run hW hframes hsession fun req hreq =>
    (hreqs req (hfront.subset hreq)).2
  have hstep := (inStep_turns_iff hW hanswering hcarries hms rest).mpr hfits
  -- the answered requests are the first of those read, which are the first of the client's
  have hlen : ms.length ≤ (requests t.trace).length := by
    have hfirst := congrArg List.length hanswering.first
    rw [List.length_map, List.length_take, hms.length_eq] at hfirst
    omega
  have htake : (requests t.trace).take ms.length = reqs.take ms.length := by
    obtain ⟨more, hmore⟩ := hfront
    rw [← hmore, List.take_append_of_le_length hlen]
  refine ⟨hfront, ?_, ?_⟩
  · rw [← htake, ← hms.length_eq, ← hanswering.first, List.forall₂_map_left_iff]
    have hboth := (List.forall₂_and_left _ _).mpr ⟨replies_of_run hsession, hms⟩
    refine hboth.imp ?_
    rintro t m ⟨⟨rep, hrep, hres⟩, hm⟩
    exact ⟨rep, hrep, hres ▸ hm⟩
  · rw [← htake]
    exact read_all_turns hanswering hms hstep

/-- Both requests are answered. -/
theorem conversation_two_turns :
    ∃ (s : socket_session) (ms : List sent_response),
      run (do_socket_session http_wire http_requests bare_server) (.start two_pieces)
          socket_two_turns = some s
        ∧ ms.length = 2
        ∧ requests s.session.trace <+: [kept "/x".toList, kept "/y".toList]
        ∧ List.Forall₂ (Answered http_wire bare_server)
            ([kept "/x".toList, kept "/y".toList].take ms.length) ms
        ∧ read_all (read_response http_wire)
            (([kept "/x".toList, kept "/y".toList].take ms.length).map request_message.method)
            (line ms ++ []) = some (ms.map sent.message, []) := by
  obtain ⟨t, hrun, hturns, hrequests⟩ := run_two_turns
  have hread : ReadsOff http_wire http_requests (delivered two_turns) two_pieces.flatten [] := by
    rw [flatten_two_pieces]
    exact readsOff_requests readable_two
  obtain ⟨j, hj, -⟩ := (@socket_run_iff http_wire http_requests _ _ http_requests_documented
    bare_server socket_two_turns .start t { buffer := [], pending := two_pieces } []).mpr
      ⟨two_turns, rfl, hrun, hread⟩
  refine ⟨{ session := t, buffer := j }, [not_found_sent "/x".toList, not_found_sent "/y".toList],
    hj, rfl, ?_⟩
  refine conversation http_wire_documented http_requests_documented bare_server ?_
    [kept "/x".toList, kept "/y".toList] ?_ two_pieces ?_ socket_two_turns _ hj
    (hturns ▸ carries_two_turns) _ (hturns ▸ puts_two_turns) []
  · intro method route hroute
    cases method <;> cases hroute
  · intro req hreq
    refine ⟨readable_two req hreq, ?_⟩
    rcases List.mem_cons.mp hreq with rfl | hreq
    · decide
    · obtain rfl := List.mem_singleton.mp hreq
      decide
  · rw [flatten_two_pieces]

end CppHttp.Pipelining
