/-
`server/middleware.hpp`, `server/service_builder.hpp`, and the wrapping services of
`server/service.hpp`.

A service and the handlers of a middleware do things: they send into channels, they wait,
they throw. What exactly is left open. A service is a function into an arbitrary monad,
and everything below holds in every one of them; `coroutine` is the monad of the
services `Server` registers, so that what is built here can be registered there
(`as_server_service`).

A middleware is a tree of stacks. Only the sequence of its leaves matters
(`layer_eq_leaves`), so stacking is associative and `indentity_middleware` is its unit.
Along that sequence a request goes in from the last leaf to the first, and a result comes
out from the first to the last (`handle_request_eq`). A leaf takes part in this once if
it hands the request on once. The pre-request and after-response middlewares do; a
function middleware is an arbitrary function on services, which may as well answer
itself, and then nothing behind it runs (`short_circuit_skips_handlers`).

The objects of the source give up what they own when they are used: a builder is consumed
by `build_service`, and a middleware moves its handler into the service it makes. Here each
of them is used once; `MovedHandlers` is about what a move leaves behind.
-/
import CppHttp.Server

set_option autoImplicit false

namespace CppHttp.Middleware

open CppHttp.Errors CppHttp.Request CppHttp.ServerResponse

variable {M : Type → Type} [Monad M]

/-! ## Services -/

/-- `class service`, with the effects of `M`. -/
structure service (M : Type → Type) where
  handle_request : request → M (result response)

/-- `class function_service`. -/
def function_service (func_ : request → M (result response)) : service M where
  handle_request := func_

/-- `class pre_request_service`. -/
def pre_request_service (handler_ : request → M request) (inner_ : service M) : service M where
  handle_request request := do
    let new_request ← handler_ request
    inner_.handle_request new_request

/-- `class after_response_service`. -/
def after_response_service (handler_ : result response → M (result response))
    (inner_ : service M) : service M where
  handle_request request := do
    let response ← inner_.handle_request request
    handler_ response

/-! ## Middlewares -/

/-- `class middleware` with its subclasses. -/
inductive middleware (M : Type → Type)
  | indentity_middleware
  | stacked_middleware (inner_ outer_ : middleware M)
  | function_middleware (func_ : service M → service M)
  | pre_request_middleware (handler_ : request → M request)
  | after_response_middleware (handler_ : result response → M (result response))

/-- `middleware::layer`. -/
def middleware.layer : middleware M → service M → service M
  | .indentity_middleware, service => service
  | .stacked_middleware inner_ outer_, service => outer_.layer (inner_.layer service)
  | .function_middleware func_, service => func_ service
  | .pre_request_middleware handler_, service => pre_request_service handler_ service
  | .after_response_middleware handler_, service => after_response_service handler_ service

/-- `class service_builder`. -/
structure service_builder (M : Type → Type) where
  middleware_ : middleware M := .indentity_middleware

namespace service_builder

def with_middleware (b : service_builder M) (m : middleware M) : service_builder M :=
  { middleware_ := .stacked_middleware b.middleware_ m }

def with_function_middleware (b : service_builder M) (func : service M → service M) :
    service_builder M :=
  b.with_middleware (.function_middleware func)

def with_pre_request_middleware (b : service_builder M) (handler : request → M request) :
    service_builder M :=
  b.with_middleware (.pre_request_middleware handler)

def with_after_response_middleware (b : service_builder M)
    (handler : result response → M (result response)) : service_builder M :=
  b.with_middleware (.after_response_middleware handler)

def build_service (b : service_builder M) (s : service M) : service M :=
  b.middleware_.layer s

def build_function_service (b : service_builder M) (func : request → M (result response)) :
    service M :=
  b.build_service (function_service func)

end service_builder

/-- The builder after these middlewares have been added in order. -/
def builder_of (ms : List (middleware M)) : service_builder M :=
  ms.foldl service_builder.with_middleware {}

/-! ## Stacks -/

/-- The middlewares of a tree, inner ones first, without stacks and identities. -/
def middleware.leaves : middleware M → List (middleware M)
  | .indentity_middleware => []
  | .stacked_middleware inner_ outer_ => inner_.leaves ++ outer_.leaves
  | .function_middleware func_ => [.function_middleware func_]
  | .pre_request_middleware handler_ => [.pre_request_middleware handler_]
  | .after_response_middleware handler_ => [.after_response_middleware handler_]

/-- Layering one middleware after the other. -/
def layer_all (ms : List (middleware M)) (s : service M) : service M :=
  ms.foldl (fun s m => m.layer s) s

theorem layer_all_append (as bs : List (middleware M)) (s : service M) :
    layer_all (as ++ bs) s = layer_all bs (layer_all as s) := List.foldl_append

/-- A tree layers its leaves, inner ones first. -/
theorem layer_eq_leaves (m : middleware M) (s : service M) :
    m.layer s = layer_all m.leaves s := by
  induction m generalizing s with
  | indentity_middleware => rfl
  | stacked_middleware inner_ outer_ ih_inner ih_outer =>
      rw [middleware.layer, middleware.leaves, layer_all_append, ih_inner, ih_outer]
  | function_middleware func_ => rfl
  | pre_request_middleware handler_ => rfl
  | after_response_middleware handler_ => rfl

theorem layer_all_leaves (ms : List (middleware M)) (s : service M) :
    layer_all ms s = layer_all (ms.flatMap middleware.leaves) s := by
  induction ms generalizing s with
  | nil => rfl
  | cons m ms ih =>
      rw [List.flatMap_cons, layer_all_append, ← layer_eq_leaves]
      exact ih (m.layer s)

theorem build_service_eq (ms : List (middleware M)) (s : service M) :
    (builder_of ms).build_service s = layer_all ms s := by
  have hfold : ∀ b : service_builder M,
      (ms.foldl service_builder.with_middleware b).build_service s
        = layer_all ms (b.build_service s) := by
    induction ms with
    | nil => intro b; rfl
    | cons m ms ih => intro b; exact ih (b.with_middleware m)
  exact hfold {}

/-! ## The way in and the way out -/

/-- What a middleware does to a request it hands on once: the request it hands on, and
what it does to the result that comes back. -/
abbrev around (M : Type → Type) :=
  request → M (request × (result response → M (result response)))

/-- The function on services hands every request on, once. -/
def Wraps (func_ : service M → service M) (w : around M) : Prop :=
  ∀ s req, (func_ s).handle_request req = do
    let (req, back) ← w req
    let res ← s.handle_request req
    back res

/-- The leaf takes part in each request once, as `w`. -/
def HandsOn : middleware M → around M → Prop
  | .pre_request_middleware handler_, w => w = fun req => do
      let req ← handler_ req
      pure (req, pure)
  | .after_response_middleware handler_, w => w = fun req => pure (req, handler_)
  | .function_middleware func_, w => Wraps func_ w
  | _, _ => False

/-- One more middleware on the way in: the request goes on, and what is to be done to the
result comes in front of what is to be done already. -/
def enter (st : request × List (result response → M (result response))) (w : around M) :
    M (request × List (result response → M (result response))) := do
  let (req, back) ← w st.1
  pure (req, back :: st.2)

/-- The way in, from the last of the middlewares to the first. -/
def way_in (ws : List (around M)) (req : request) :
    M (request × List (result response → M (result response))) :=
  ws.reverse.foldlM enter (req, [])

/-- The way out, from the first of the middlewares to the last. -/
def way_out (backs : List (result response → M (result response))) (res : result response) :
    M (result response) :=
  backs.foldlM (fun res back => back res) res

variable [LawfulMonad M]

theorem layer_of_handsOn {m : middleware M} {w : around M} (h : HandsOn m w) (s : service M)
    (req : request) :
    (m.layer s).handle_request req = w req >>= fun p => s.handle_request p.1 >>= p.2 := by
  cases m with
  | indentity_middleware => exact h.elim
  | stacked_middleware inner_ outer_ => exact h.elim
  | function_middleware func_ => exact h s req
  | pre_request_middleware handler_ =>
      rw [show w = _ from h]
      simp [middleware.layer, pre_request_service]
  | after_response_middleware handler_ =>
      rw [show w = _ from h]
      simp [middleware.layer, after_response_service]

/-- **The way of a request through a stack**: in from the last leaf to the first, through
the service, and out from the first leaf to the last. -/
theorem handle_request_eq {ms : List (middleware M)} {ws : List (around M)}
    (h : List.Forall₂ HandsOn ms ws) (s : service M) (req : request) :
    (layer_all ms s).handle_request req
      = way_in ws req >>= fun st => s.handle_request st.1 >>= way_out st.2 := by
  induction h generalizing s with
  | nil =>
      have hout : way_out ([] : List (result response → M (result response))) = pure := rfl
      simp [layer_all, way_in, hout]
  | @cons m w ms ws hm _ ih =>
      -- the first of the middlewares is the last that the request comes to
      have hin : way_in (w :: ws) req = way_in ws req >>= fun st => enter st w := by
        unfold way_in
        rw [List.reverse_cons, List.foldlM_append]
        simp
      have hout : ∀ (back : result response → M (result response)) backs,
          way_out (back :: backs) = fun res => back res >>= way_out backs := by
        intro back backs
        rfl
      rw [hin, bind_assoc]
      calc (layer_all (m :: ms) s).handle_request req
          = (layer_all ms (m.layer s)).handle_request req := rfl
        _ = way_in ws req >>= fun st => (m.layer s).handle_request st.1 >>= way_out st.2 :=
            ih (m.layer s)
        _ = way_in ws req >>= fun st =>
              enter st w >>= fun st => s.handle_request st.1 >>= way_out st.2 := by
            apply bind_congr
            intro st
            rw [layer_of_handsOn hm, enter]
            simp [hout]

/-- The pre-request handlers of some leaves, in order. -/
def pre_handlers (ms : List (middleware M)) : List (request → M request) :=
  ms.filterMap fun
    | .pre_request_middleware handler_ => some handler_
    | _ => none

/-- Their after-response handlers. -/
def after_handlers (ms : List (middleware M)) :
    List (result response → M (result response)) :=
  ms.filterMap fun
    | .after_response_middleware handler_ => some handler_
    | _ => none

/-- The leaf only runs a handler. -/
def RunsHandler : middleware M → Prop
  | .pre_request_middleware _ => True
  | .after_response_middleware _ => True
  | _ => False

/-- Without function middlewares: the pre-request handlers from the last to the first, the
service, the after-response handlers from the first to the last. -/
theorem handle_request_of_handlers {ms : List (middleware M)}
    (h : ∀ m ∈ ms, RunsHandler m) (s : service M) (req : request) :
    (layer_all ms s).handle_request req
      = (pre_handlers ms).reverse.foldlM (fun req handler => handler req) req >>= fun req =>
          s.handle_request req >>= fun res =>
            (after_handlers ms).foldlM (fun res handler => handler res) res := by
  induction ms generalizing s with
  | nil =>
      simp [layer_all, pre_handlers, after_handlers]
  | cons m ms ih =>
      have htail : ∀ m' ∈ ms, RunsHandler m' := fun m' hm' => h m' (List.mem_cons_of_mem m hm')
      have hhead := h m List.mem_cons_self
      rw [show layer_all (m :: ms) s = layer_all ms (m.layer s) from rfl, ih htail]
      cases m with
      | indentity_middleware => exact hhead.elim
      | stacked_middleware inner_ outer_ => exact hhead.elim
      | function_middleware func_ => exact hhead.elim
      | pre_request_middleware handler_ =>
          have hpre : pre_handlers (.pre_request_middleware handler_ :: ms)
              = handler_ :: pre_handlers ms := rfl
          have hafter : after_handlers (.pre_request_middleware handler_ :: ms)
              = after_handlers ms := rfl
          rw [hpre, hafter, List.reverse_cons, List.foldlM_append, bind_assoc]
          simp [middleware.layer, pre_request_service]
      | after_response_middleware handler_ =>
          have hpre : pre_handlers (.after_response_middleware handler_ :: ms)
              = pre_handlers ms := rfl
          have hafter : after_handlers (.after_response_middleware handler_ :: ms)
              = handler_ :: after_handlers ms := rfl
          rw [hpre, hafter]
          simp [middleware.layer, after_response_service]

/-! ## What the builder builds -/

/-- **A built service.** It is the layers of its middlewares, one over the other, and how
they are grouped into stacks makes no difference: stacking is associative, with
`indentity_middleware` as its unit. If every leaf hands each request on once, a request
takes part in them from the last to the first, then in the service, then from the first to
the last; if they are all handlers, these run in this order, whatever the result is. -/
theorem built_service_spec (ms : List (middleware M)) (s : service M) :
    (builder_of ms).build_service s = ms.foldl (fun s m => m.layer s) s
      ∧ (∀ ms' : List (middleware M),
          ms'.flatMap middleware.leaves = ms.flatMap middleware.leaves →
          (builder_of ms').build_service s = (builder_of ms).build_service s)
      ∧ (∀ a b c : middleware M,
          (middleware.stacked_middleware (.stacked_middleware a b) c).layer s
            = (middleware.stacked_middleware a (.stacked_middleware b c)).layer s
          ∧ (middleware.stacked_middleware .indentity_middleware a).layer s = a.layer s
          ∧ (middleware.stacked_middleware a .indentity_middleware).layer s = a.layer s)
      ∧ (∀ ws : List (around M), List.Forall₂ HandsOn (ms.flatMap middleware.leaves) ws →
          ∀ req, ((builder_of ms).build_service s).handle_request req
            = way_in ws req >>= fun st => s.handle_request st.1 >>= way_out st.2)
      ∧ ((∀ m ∈ ms.flatMap middleware.leaves, RunsHandler m) →
          ∀ req, ((builder_of ms).build_service s).handle_request req
            = (pre_handlers (ms.flatMap middleware.leaves)).reverse.foldlM
                (fun req handler => handler req) req >>= fun req =>
              s.handle_request req >>= fun res =>
                (after_handlers (ms.flatMap middleware.leaves)).foldlM
                  (fun res handler => handler res) res) := by
  refine ⟨build_service_eq ms s, ?_, fun a b c => ⟨rfl, rfl, rfl⟩, ?_, ?_⟩
  · intro ms' h
    rw [build_service_eq, build_service_eq, layer_all_leaves ms', h, ← layer_all_leaves]
  · intro ws h req
    rw [build_service_eq, layer_all_leaves]
    exact handle_request_eq h s req
  · intro h req
    rw [build_service_eq, layer_all_leaves]
    exact handle_request_of_handlers h s req

/-! ## Effects that are written down -/

/-- A monad with a log. -/
abbrev logging := StateM (List ℕ)

/-- A pre-request handler that logs its number. -/
def log_request (n : ℕ) (req : request) : logging request := do
  modify (· ++ [n])
  pure req

/-- An after-response handler that logs its number. -/
def log_response (n : ℕ) (res : result response) : logging (result response) := do
  modify (· ++ [n])
  pure res

/-- A service that logs zero and fails. -/
def failing : service logging where
  handle_request _ := do
    modify (· ++ [0])
    pure (.error none)

/-- A request for nothing. -/
def bare_request : request := { inner := { method := .get, target := [] }, path := [] }

/-- What is in the log behind it. -/
def log_of (s : service logging) : List ℕ := (Id.run ((s.handle_request bare_request).run [])).2

/-- A function middleware's function: it logs a number on the way in and one on the way
out. -/
def log_around (n m : ℕ) (s : service logging) : service logging where
  handle_request req := do
    modify (· ++ [n])
    let res ← s.handle_request req
    modify (· ++ [m])
    pure res

/-- What it does on the way in and out. -/
def logs_around (n m : ℕ) : around logging := fun req => do
  modify (· ++ [n])
  pure (req, log_response m)

/-- It hands each request on once. -/
theorem log_around_wraps (n m : ℕ) : Wraps (log_around n m) (logs_around n m) := by
  intro s req
  rfl

/-- Four handlers around a service that fails, and a function between two of them. -/
theorem built_service_spec_logged :
    log_of ((builder_of [.pre_request_middleware (log_request 1),
        .after_response_middleware (log_response 2),
        .stacked_middleware (.after_response_middleware (log_response 3))
          (.pre_request_middleware (log_request 4))]).build_service failing)
      = [4, 1, 0, 2, 3]
    ∧ log_of ((builder_of [.pre_request_middleware (log_request 1),
        .function_middleware (log_around 5 6),
        .after_response_middleware (log_response 2)]).build_service failing)
      = [5, 1, 0, 6, 2] := by
  constructor
  · have h := (built_service_spec [.pre_request_middleware (log_request 1),
        .after_response_middleware (log_response 2),
        .stacked_middleware (.after_response_middleware (log_response 3))
          (.pre_request_middleware (log_request 4))] failing).2.2.2.2
      (by simp [middleware.leaves, RunsHandler]) bare_request
    unfold log_of
    rw [h]
    rfl
  · have h := (built_service_spec [.pre_request_middleware (log_request 1),
        .function_middleware (log_around 5 6),
        .after_response_middleware (log_response 2)] failing).2.2.2.1
      [fun req => log_request 1 req >>= fun req => pure (req, pure), logs_around 5 6,
        fun req => pure (req, log_response 2)]
      (.cons rfl (.cons (log_around_wraps 5 6) (.cons rfl .nil))) bare_request
    unfold log_of
    rw [h]
    rfl

/-- A function middleware that answers itself skips the handlers behind it. -/
theorem short_circuit_skips_handlers :
    ¬ ∀ (ms : List (middleware logging)) (s : service logging),
        middleware.pre_request_middleware (log_request 1) ∈ ms →
        1 ∈ log_of ((builder_of ms).build_service s) := by
  intro h
  have := h [.pre_request_middleware (log_request 1), .function_middleware fun _ => failing]
    failing List.mem_cons_self
  exact absurd this (by decide)

/-! ## Built services in the server -/

/-- What a handler does behind its `yield`: it sees the world and an error code, leaves an
error code, and may throw. -/
abbrev coroutine (ω : Type) := ReaderT ω (OptionT (StateM error_code))

/-- Such a service as one that can be registered. -/
def as_server_service {ω : Type} (s : service (coroutine ω)) : Server.service ω where
  handle_request req ec world :=
    match Id.run (((s.handle_request req).run world).run.run ec) with
    | (some res, ec) => (.returned res, ec)
    | (none, ec) => (.threw, ec)

/-- A registered service as one that can be wrapped. -/
def of_server_service {ω : Type} (s : Server.service ω) : service (coroutine ω) where
  handle_request req := fun world => OptionT.mk fun ec =>
    match s.handle_request req ec world with
    | (.returned res, ec) => pure (some res, ec)
    | (.threw, ec) => pure (none, ec)

theorem as_server_service_of (ω : Type) (s : Server.service ω) :
    as_server_service (of_server_service s) = s := by
  obtain ⟨handle⟩ := s
  unfold as_server_service of_server_service
  congr 1
  funext req ec world
  change (match Id.run (match handle req ec world with
    | (.returned res, ec) => pure (some res, ec)
    | (.threw, ec) => pure (none, ec)) with
    | (some res, ec) => ((.returned res, ec) : Server.handled × error_code)
    | (none, ec) => (.threw, ec)) = handle req ec world
  rcases handle req ec world with ⟨_ | _, ec'⟩
  · rfl
  · rfl

end CppHttp.Middleware
