/-
`chunked_service` and `sse_service` of `server/service.hpp`: services that return a header
and send the body, chunk by chunk, into a channel.

The framing of such a response is decided in two places. `response::async_write` sees that
the response is a streaming one and writes chunks and a last-chunk. Whether the header says
so is decided by `chunked_service::handle_request`, which adds `Transfer-Encoding: chunked`
if the status is 200, and by the handler for any other status. `response_builder::streaming`
always adds it (`streaming_announces`).

A recipient goes by the header alone: `transfer_library.framing` is what it makes of one.
`streaming_consistent_iff` says of an arbitrary header when the chunks behind it are read as
the chunks that were sent, and `message_consistent_iff` says it of the headers the two
services send: with another status than 200 a handler has to announce the chunks itself.

Beast's reading and writing of the header fields is a parameter. The channel of a response
is the one the service has made; what is sent into it, before the handler returns or later,
are the producer's actions of the writer's schedule.
-/
import CppHttp.BodyFraming
import CppHttp.Server
import CppHttp.StreamWriter

set_option autoImplicit false

namespace CppHttp.ChunkedService

open CppHttp.BodyFraming CppHttp.Channel CppHttp.Errors CppHttp.HttpMessage CppHttp.Message
  CppHttp.Request CppHttp.Runs CppHttp.Server CppHttp.ServerResponse CppHttp.StdString
  CppHttp.StreamWriter

/-! ## The header of a streaming response -/

def transfer_encoding : std_string := "Transfer-Encoding".toList

def content_length : std_string := "Content-Length".toList

def content_type : std_string := "Content-Type".toList

def chunked_coding : std_string := "chunked".toList

/-- The values of all fields of the name, in order. -/
def values (f : fields) (name : std_string) : List std_string :=
  (f.filter fun e => iequals e.1 name).map Prod.snd

/-- Beast's reading and writing of the fields that say how long a body is. -/
structure transfer_library where
  /-- These `Transfer-Encoding` values list `chunked` last. -/
  chunked : List std_string → Bool
  /-- What `message::chunked(true)` makes of a value that does not; the empty value is no
  field. -/
  chunked_value : std_string → std_string
  /-- The length that these `Content-Length` values give. -/
  length : List std_string → Option ℕ

/-- What is documented of them: the empty value does not list `chunked`, and
`message::chunked(true)` makes it the last item. -/
structure transfer_library.Documented (T : transfer_library) : Prop where
  empty : T.chunked [[]] = false
  chunked_value : ∀ value, T.chunked [T.chunked_value value] = true

variable (T : transfer_library)

/-- `message::chunked(true)`. -/
def set_chunked (f : fields) : fields :=
  let value := f.get transfer_encoding
  (if T.chunked [value] then f else f.set transfer_encoding (T.chunked_value value)).erase
    content_length

/-- The header announces chunks. -/
def transfer_library.Announces (header : response_header) : Prop :=
  T.chunked (values header.fields transfer_encoding) = true

/-- How the recipient of a response to any request but a `HEAD` finds the end of its
body. -/
def transfer_library.framing (header : response_header) : framing :=
  if bodiless header.result then .no_body
  else if T.chunked (values header.fields transfer_encoding) then .chunked
  else
    match T.length (values header.fields content_length) with
    | some n => .length n
    | none => .until_close

/-! ## The services -/

/-- How `handle_chunked_request` and `handle_sse_request` end. -/
inductive chunked_handled
  | returned (header : result response_header)
  | threw

/-- The type of the two: a request, the channel to send into, the error code behind `yield`,
and a world. -/
abbrev chunked_handler (ω : Type) :=
  request → BoundedChannel http_chunk → error_code → ω → chunked_handled × error_code

/-- `class chunked_service`. -/
structure chunked_service (ω : Type) where
  handle_chunked_request : chunked_handler ω

/-- `class sse_service`. -/
structure sse_service (ω : Type) where
  handle_sse_request : chunked_handler ω

variable {ω : Type}

/-- What `chunked_service::handle_request` does to the header its handler returned. -/
def finish_header (header : response_header) : response_header :=
  if header.result = 200 then
    { header with fields := set_chunked T (header.fields.set transfer_encoding chunked_coding) }
  else header

/-- `chunked_service::handle_request`. -/
def chunked_service.handle_request (svc : chunked_service ω) (req : request) (ec : error_code)
    (world : ω) : handled × error_code :=
  let channel := BoundedChannel.make http_chunk 10
  match svc.handle_chunked_request req channel ec world with
  | (.threw, ec) => (.threw, ec)
  | (.returned (.error e), ec) => (.returned (.error e), ec)
  | (.returned (.ok header), ec) =>
      (.returned (.ok (.streaming (finish_header T header) channel)), ec)

/-- What `sse_service::handle_chunked_request` does to the header its handler returned. -/
def mark_event_stream (header : response_header) : response_header :=
  if header.result = 200 then
    { header with fields := header.fields.set content_type "text/event-stream".toList }
  else header

/-- `sse_service::handle_chunked_request`. -/
def sse_service.handle_chunked_request (svc : sse_service ω) : chunked_handler ω :=
  fun req tx ec world =>
    match svc.handle_sse_request req tx ec world with
    | (.returned (.ok header), ec) => (.returned (.ok (mark_event_stream header)), ec)
    | (.returned (.error e), ec) => (.returned (.error e), ec)
    | (.threw, ec) => (.threw, ec)

/-- An `sse_service` is a `chunked_service`. -/
def sse_service.as_chunked (svc : sse_service ω) : chunked_service ω where
  handle_chunked_request := svc.handle_chunked_request

/-- A service of either kind. -/
inductive streaming_service (ω : Type)
  | chunked (svc : chunked_service ω)
  | sse (svc : sse_service ω)

/-- The virtual function its author writes. -/
def streaming_service.handler : streaming_service ω → chunked_handler ω
  | .chunked svc => svc.handle_chunked_request
  | .sse svc => svc.handle_sse_request

def streaming_service.handle_request : streaming_service ω →
    request → error_code → ω → handled × error_code
  | .chunked svc => svc.handle_request T
  | .sse svc => svc.as_chunked.handle_request T

/-- It can be registered with the server. -/
def streaming_service.as_service (svc : streaming_service ω) : service ω where
  handle_request := svc.handle_request T

/-- `response_builder::streaming`. -/
def streaming (b : response_builder) (rx : BoundedChannel http_chunk) : response :=
  .streaming { b.header_ with fields := set_chunked T b.header_.fields } rx

/-- `response_builder::empty`. -/
def empty (b : response_builder) : response_header := b.header_

/-! ## What the header announces -/

theorem values_erase_of_ne (f : fields) {name other : std_string}
    (h : iequals other name = false) : values (f.erase name) other = values f other := by
  unfold values fields.erase
  rw [List.filter_filter]
  congr 2
  funext e
  -- a field of the other name is not one of the erased name
  by_cases ho : iequals e.1 other = true
  · simp [ho, iequals_eq_false ho h]
  · simp [ho]

theorem values_set_same (f : fields) (name value : std_string) :
    values (f.set name value) name = [value] := by
  have hnone : (f.erase name).filter (fun e => iequals e.1 name) = [] := by
    rw [List.filter_eq_nil_iff]
    intro e he
    simpa using (List.mem_filter.mp he).2
  simp [values, fields.set, hnone]

theorem values_set_of_ne (f : fields) {name other : std_string} (value : std_string)
    (h : iequals other name = false) : values (f.set name value) other = values f other := by
  have hsingle : [(name, value)].filter (fun e => iequals e.1 other) = [] := by
    simp [iequals_comm name other, h]
  rw [← values_erase_of_ne f h, fields.set, values, List.filter_append, hsingle,
    List.append_nil, values]

theorem get_eq_values (f : fields) (name : std_string) :
    f.get name = ((values f name).head?).getD [] := by
  unfold fields.get values
  rw [List.head?_map, List.head?_filter]

variable {T}

/-- `message::chunked(true)` announces chunks on a header with one `Transfer-Encoding`
field at most. -/
theorem set_chunked_announces (hT : T.Documented) {f : fields}
    (h : (values f transfer_encoding).length ≤ 1) :
    T.chunked (values (set_chunked T f) transfer_encoding) = true := by
  unfold set_chunked
  rw [values_erase_of_ne _ (by decide)]
  by_cases hv : T.chunked [f.get transfer_encoding] = true
  · rw [if_pos hv]
    rw [get_eq_values] at hv
    match hvalues : values f transfer_encoding with
    | [] =>
        rw [hvalues] at hv
        exact absurd (hT.empty.symm.trans hv) (by decide)
    | [value] =>
        rw [hvalues] at hv
        exact hv
    | _ :: _ :: _ =>
        rw [hvalues] at h
        simp at h
  · rw [if_neg hv, values_set_same]
    exact hT.chunked_value _

/-- What `response_builder::streaming` builds announces chunks, for every status: its own
setters leave one `Transfer-Encoding` field at most. -/
theorem streaming_announces (hT : T.Documented) (b : response_builder)
    (h : (values b.header_.fields transfer_encoding).length ≤ 1)
    (rx : BoundedChannel http_chunk) : T.Announces (streaming T b rx).header_cref :=
  set_chunked_announces hT h

/-- A header with status 200 is finished with an announcement; any other is left alone. -/
theorem finish_header_framing (hT : T.Documented) (header : response_header) :
    T.framing (finish_header T header) = .chunked
      ↔ header.result = 200 ∨ T.framing header = .chunked := by
  unfold finish_header
  by_cases h200 : header.result = 200
  · rw [if_pos h200]
    have hann := set_chunked_announces (T := T) hT
      (f := header.fields.set transfer_encoding chunked_coding) (by rw [values_set_same]; simp)
    simp only [h200, true_or, iff_true]
    unfold transfer_library.framing
    rw [if_neg (by simp [bodiless]), if_pos hann]
  · rw [if_neg h200]
    simp only [h200, false_or]

/-- The content type has nothing to do with the framing. -/
theorem mark_event_stream_framing (header : response_header) :
    T.framing (mark_event_stream header) = T.framing header := by
  unfold mark_event_stream
  by_cases h200 : header.result = 200
  · rw [if_pos h200]
    unfold transfer_library.framing
    rw [values_set_of_ne _ _ (by decide), values_set_of_ne _ _ (by decide)]
  · rw [if_neg h200]

theorem mark_event_stream_result (header : response_header) :
    (mark_event_stream header).result = header.result := by
  unfold mark_event_stream
  split
  · rfl
  · rfl

/-- The header that is sent announces chunks to its recipient exactly if the status is 200
or the handler's header does so already. -/
theorem handle_request_spec (hT : T.Documented) (svc : streaming_service ω) (req : request)
    (ec left : error_code) (world : ω) (sent : response_header) (rx : BoundedChannel http_chunk)
    (hres : svc.handle_request T req ec world = (.returned (.ok (.streaming sent rx)), left)) :
    ∃ header, svc.handler req (.make http_chunk 10) ec world = (.returned (.ok header), left)
      ∧ rx = .make http_chunk 10
      ∧ (T.framing sent = .chunked ↔ header.result = 200 ∨ T.framing header = .chunked) := by
  cases svc with
  | chunked svc =>
      simp only [streaming_service.handle_request, chunked_service.handle_request] at hres
      split at hres
      · cases hres
      · cases hres
      · next header ec' hhandler =>
          simp only [Prod.mk.injEq, handled.returned.injEq, Except.ok.injEq,
            response.streaming.injEq] at hres
          obtain ⟨⟨rfl, rfl⟩, rfl⟩ := hres
          exact ⟨header, hhandler, rfl, finish_header_framing hT header⟩
  | sse svc =>
      simp only [streaming_service.handle_request, chunked_service.handle_request,
        sse_service.as_chunked, sse_service.handle_chunked_request] at hres
      split at hres
      · cases hres
      · cases hres
      · next marked ec' hmarked =>
          simp only [Prod.mk.injEq, handled.returned.injEq, Except.ok.injEq,
            response.streaming.injEq] at hres
          obtain ⟨⟨rfl, rfl⟩, rfl⟩ := hres
          split at hmarked
          · next header ec'' hhandler =>
              simp only [Prod.mk.injEq, chunked_handled.returned.injEq, Except.ok.injEq] at hmarked
              obtain ⟨rfl, rfl⟩ := hmarked
              refine ⟨header, hhandler, rfl, ?_⟩
              rw [finish_header_framing hT, mark_event_stream_result, mark_event_stream_framing]
          · cases hmarked
          · cases hmarked

/-! ## What the recipient reads -/

/-- The chunk's extension text, if it has one, is an extension. -/
def Framable (c : http_chunk) : Prop := IsExtension (c.extensions.getD [])

/-- The message on the wire is consistent: its header announces the chunks behind it, and
its recipient reads the chunks that were sent, and leaves what follows the message. -/
def Consistent (T : transfer_library) (header : response_header) (s : stream) : Prop :=
  T.Announces header
    ∧ (T.framing header).Delimits (body_of s.writes) (s.accepted.flatMap http_chunk.chunked_body)

/-- A header makes its recipient read chunks exactly if it announces them and may have a
body. -/
theorem framing_eq_chunked_iff (header : response_header) :
    T.framing header = .chunked ↔ T.Announces header ∧ bodiless header.result = false := by
  unfold transfer_library.framing transfer_library.Announces
  by_cases hb : bodiless header.result = true
  · simp [hb]
  · by_cases hc : T.chunked (values header.fields transfer_encoding) = true
    · simp [hb, hc]
    · rw [if_neg hb, if_neg hc]
      refine ⟨fun h => ?_, fun h => absurd h.1 hc⟩
      split at h
      · cases h
      · cases h

/-- The chunk that a write is given has the body and the extension of the chunk that was
sent. -/
theorem mem_chunk_bodies {chunks : List http_chunk} (hext : ∀ c ∈ chunks, Framable c)
    {b : chunk_body} (hb : b ∈ chunk_bodies chunks) : IsExtension b.extensions ∧ b.buffer ≠ [] := by
  obtain ⟨c, hc, rfl⟩ := List.mem_map.mp hb
  obtain ⟨hmem, hvalid⟩ := List.mem_filter.mp hc
  have hbody : c.chunked_body ≠ [] := by simpa [http_chunk.valid] using hvalid
  have hframable := hext c hmem
  unfold Framable at hframable
  unfold http_chunk.to_chunk_body
  split
  · next ext heq =>
      rw [heq] at hframable
      exact ⟨hframable, hbody⟩
  · exact ⟨.inl rfl, hbody⟩

/-- In every run that has brought the writer to its end without a failing write: what is
behind the header is read as chunks, and as the chunks that were sent exactly if the writer
has left none behind. -/
theorem delimits_iff_drained {cap : ℕ} {acts : List action} {s : stream}
    (hrun : run step (.start cap) acts = some s) (hdone : s.pc = .done)
    (hwrites : ∀ w ∈ s.writes, w.2 = .written) (hext : ∀ c ∈ s.accepted, Framable c) :
    framing.chunked.Delimits (body_of s.writes) (s.accepted.flatMap http_chunk.chunked_body)
      ↔ StepsMeet step Drained (.start cap) acts := by
  obtain ⟨hwire, hchunks⟩ := (inv_of_run (inv_start cap) hrun).2
  rw [hdone] at hwire hchunks
  have hchunks' : chunk_bodies s.accepted = written s.writes ++ chunk_bodies s.rx.buffer := by
    simpa [writer_pc.in_hand, chunk_bodies] using hchunks
  -- the written chunks as pairs of an extension and data
  let pairs := (written s.writes).map fun b => (b.extensions, b.buffer)
  have hbytes : body_of s.writes
      = pairs.flatMap (fun c => chunk c.1 c.2) ++ BodyFraming.last_chunk := by
    rw [body_of_eq_intended hwrites, hwire, List.flatMap_map]
    rfl
  have hpairs : ∀ c ∈ pairs, IsExtension c.1 ∧ c.2 ≠ [] := by
    intro c hc
    obtain ⟨b, hb, rfl⟩ := List.mem_map.mp hc
    apply mem_chunk_bodies hext
    rw [hchunks']
    exact List.mem_append_left _ hb
  have hdata : pairs.flatMap Prod.snd = (written s.writes).flatMap chunk_body.buffer := by
    rw [List.flatMap_map]
  have hsent : s.accepted.flatMap http_chunk.chunked_body
      = (written s.writes).flatMap chunk_body.buffer
        ++ s.rx.buffer.flatMap http_chunk.chunked_body := by
    rw [← flatMap_chunk_bodies, hchunks', List.flatMap_append, flatMap_chunk_bodies]
  rw [hbytes, delimits_chunks_iff hpairs, hdata, hsent, ← drained_iff hrun hdone,
    List.append_right_eq_self, payload_eq_nil_iff, List.flatMap_eq_nil_iff]
  simp only [http_chunk.valid, Bool.not_eq_false', List.isEmpty_iff]

/-- A consistent message has a header by which its recipient reads chunks: there is always
something behind the header, and without a body there would not be. -/
theorem framing_of_consistent {cap : ℕ} {acts : List action} {s : stream}
    {header : response_header} (hrun : run step (.start cap) acts = some s)
    (hdone : s.pc = .done) (hwrites : ∀ w ∈ s.writes, w.2 = .written)
    (h : Consistent T header s) : T.framing header = .chunked := by
  obtain ⟨hann, hdel⟩ := h
  rw [framing_eq_chunked_iff]
  refine ⟨hann, ?_⟩
  by_contra hb
  have hno : T.framing header = .no_body := if_pos (by simpa using hb)
  rw [hno, delimits_no_body_iff] at hdel
  exact body_ne_nil hrun hdone hwrites hdel.1

/-- A streaming response with an arbitrary header, sent to its end: it is consistent exactly
if its recipient goes by the chunks and none of them was left behind. -/
theorem streaming_consistent_iff {cap : ℕ} {acts : List action} {s : stream}
    (header : response_header) (hrun : run step (.start cap) acts = some s)
    (hdone : s.pc = .done) (hwrites : ∀ w ∈ s.writes, w.2 = .written)
    (hext : ∀ c ∈ s.accepted, Framable c) :
    Consistent T header s
      ↔ T.framing header = .chunked ∧ StepsMeet step Drained (.start cap) acts := by
  rw [← delimits_iff_drained hrun hdone hwrites hext]
  constructor
  · intro h
    have hchunked := framing_of_consistent hrun hdone hwrites h
    exact ⟨hchunked, hchunked ▸ h.2⟩
  · rintro ⟨hchunked, hdel⟩
    unfold Consistent
    rw [hchunked]
    exact ⟨((framing_eq_chunked_iff header).mp hchunked).1, hdel⟩

/-- For every service of either kind, whatever header its handler returns and whatever it
sends, and for every way the response is written to its end: the message can only be
consistent if the status is 200 or the handler's own header lets its recipient read chunks.
If the extension texts of the chunks are extensions, it is consistent if and only if this is
so and every test that found the channel closed found it drained. -/
theorem message_consistent_iff (hT : T.Documented) (svc : streaming_service ω) (req : request)
    (ec left : error_code) (world : ω) (sent : response_header) (rx : BoundedChannel http_chunk)
    (hres : svc.handle_request T req ec world = (.returned (.ok (.streaming sent rx)), left))
    (acts : List action) (s : stream) (hrun : run step (.start rx.cap) acts = some s)
    (hdone : s.pc = .done) (hwrites : ∀ w ∈ s.writes, w.2 = .written) :
    ∃ header, svc.handler req (.make http_chunk 10) ec world = (.returned (.ok header), left)
      ∧ (Consistent T sent s → header.result = 200 ∨ T.framing header = .chunked)
      ∧ ((∀ c ∈ s.accepted, Framable c) →
        (Consistent T sent s
          ↔ (header.result = 200 ∨ T.framing header = .chunked)
            ∧ StepsMeet step Drained (.start rx.cap) acts)) := by
  obtain ⟨header, hhandler, -, hsent⟩ := handle_request_spec hT svc req ec left world sent rx hres
  refine ⟨header, hhandler, ?_, ?_⟩
  · intro h
    exact hsent.mp (framing_of_consistent hrun hdone hwrites h)
  · intro hext
    rw [streaming_consistent_iff sent hrun hdone hwrites hext, hsent]

/-! ## Two handlers -/

theorem split_at_commas_ne_nil (a : std_string) : split_at_commas a ≠ [] := by
  fun_cases split_at_commas a with
  | case1 => simp
  | case2 => simp
  | case3 => simp
  | case4 => simp

theorem split_at_commas_append (a b : std_string) :
    split_at_commas (a ++ ',' :: b) = split_at_commas a ++ split_at_commas b := by
  induction a with
  | nil => rfl
  | cons c a ih =>
      by_cases hc : c = ','
      · subst hc
        rw [List.cons_append, split_at_commas, split_at_commas, ih, List.cons_append]
      · rw [List.cons_append, split_at_commas.eq_3 _ _ hc, split_at_commas.eq_3 _ _ hc, ih]
        cases ha : split_at_commas a with
        | nil => exact absurd ha (split_at_commas_ne_nil a)
        | cons t ts => rfl

/-- Token lists of transfer codings as Beast documents them. -/
def token_transfer : transfer_library where
  chunked values :=
    match (values.flatMap token_list).getLast? with
    | some token => iequals token chunked_coding
    | none => false
  chunked_value value :=
    if value.isEmpty then chunked_coding else value ++ ", chunked".toList
  length values := (values.head?).bind fun value => (from_chars value).map UInt64.toNat

theorem token_transfer_documented : token_transfer.Documented where
  empty := by decide +kernel
  chunked_value := by
    intro value
    by_cases hv : value.isEmpty = true
    · simp only [token_transfer, if_pos hv]
      decide +kernel
    · -- the new item is the last one
      have hlast : token_list (value ++ ", chunked".toList)
          = token_list value ++ [chunked_coding] := by
        have hitem : (split_at_commas " chunked".toList).filter (fun t => !t.isEmpty)
            = [chunked_coding] := by
          decide +kernel
        rw [token_list, show ", chunked".toList = ',' :: " chunked".toList from rfl,
          split_at_commas_append, List.filter_append, hitem, token_list]
      simp only [token_transfer, if_neg hv, List.flatMap_cons, List.flatMap_nil, List.append_nil,
        hlast, List.getLast?_concat]
      exact iequals_self chunked_coding

/-- A service whose handler answers every request with this header. -/
def answering (header : response_header) : streaming_service Unit :=
  .chunked { handle_chunked_request := fun _ _ ec _ => (.returned (.ok header), ec) }

/-- A request without anything of interest. -/
def plain_request : request :=
  { inner := { method := .get, target := "/x".toList }, path := "/x".toList }

/-- A handler that answers with status 200, and a chunk that is received before the channel
is closed. -/
theorem message_consistent_iff_status_200 :
    ∃ sent rx s, (answering {}).handle_request token_transfer plain_request none ()
        = (.returned (.ok (.streaming sent rx)), none)
      ∧ run step (.start rx.cap) kept_up = some s
      ∧ ∃ header, (answering {}).handler plain_request (.make http_chunk 10) none ()
          = (.returned (.ok header), none)
        ∧ (Consistent token_transfer sent s
          ↔ (header.result = 200 ∨ token_transfer.framing header = .chunked)
            ∧ StepsMeet step Drained (.start rx.cap) kept_up) := by
  have hend : (run step (.start 10) kept_up).map
      (fun s => (decide (s.pc = .done), (s.writes.all fun w => w.2 = .written),
        s.accepted.all fun c => c.extensions = none)) = some (true, true, true) := by
    decide +kernel
  obtain ⟨s, hrun, hs⟩ := Option.map_eq_some_iff.mp hend
  simp only [Prod.mk.injEq, decide_eq_true_iff, List.all_eq_true] at hs
  obtain ⟨hdone, hwrites, hnone⟩ := hs
  have hext : ∀ c ∈ s.accepted, Framable c := by
    intro c hc
    unfold Framable
    rw [hnone c hc]
    exact .inl rfl
  obtain ⟨header, hhandler, -, hiff⟩ := message_consistent_iff token_transfer_documented
    (answering {}) plain_request none none () _ _ rfl kept_up s hrun hdone hwrites
  exact ⟨_, _, s, rfl, hrun, header, hhandler, hiff hext⟩

/-- A handler that answers with status 201: the same chunk is written behind a header that
does not announce chunks, and its recipient takes the framing for the body. -/
theorem created_without_announcement :
    ∃ sent rx s, (answering { result := 201 }).handle_request token_transfer plain_request none ()
        = (.returned (.ok (.streaming sent rx)), none)
      ∧ run step (.start rx.cap) kept_up = some s ∧ s.pc = .done
      ∧ (∀ w ∈ s.writes, w.2 = .written)
      ∧ s.accepted.flatMap http_chunk.chunked_body = "a".toList
      ∧ (token_transfer.framing sent).read (body_of s.writes)
        = some ("1\r\na\r\n0\r\n\r\n".toList, [])
      ∧ ¬ Consistent token_transfer sent s := by
  have hend : (run step (.start 10) kept_up).map
      (fun s => (decide (s.pc = .done), (s.writes.all fun w => w.2 = .written),
        s.accepted.flatMap http_chunk.chunked_body, body_of s.writes))
        = some (true, true, "a".toList, "1\r\na\r\n0\r\n\r\n".toList) := by
    decide +kernel
  obtain ⟨s, hrun, hs⟩ := Option.map_eq_some_iff.mp hend
  simp only [Prod.mk.injEq, decide_eq_true_iff, List.all_eq_true] at hs
  obtain ⟨hdone, hwrites, hsent, hbody⟩ := hs
  refine ⟨_, _, s, rfl, hrun, hdone, hwrites, hsent, ?_, ?_⟩
  · rw [hbody]
    decide +kernel
  · rintro ⟨hann, -⟩
    exact absurd hann (by unfold transfer_library.Announces; decide +kernel)

end CppHttp.ChunkedService
