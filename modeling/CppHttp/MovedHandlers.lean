/-
What `middleware::layer` leaves behind in the middleware (`server/middleware.hpp`).

In `Middleware` a middleware is a value, and `layer` a function of it. In the source it is
an object, and `layer` is a member function that may be called again. Two of the kinds
hand their handler over with `std::move(handler_)`: the service gets it, and the object is
left with an empty `std::function`, which throws when it is called. A function middleware
keeps its function, which may have a state of its own: what it makes of a service depends
on those it has been given before. A stack layers its two middlewares and is left with them
as they are then.

Here `layer` returns the service and the object behind the call. The first call makes the
service that `Middleware` says (`layer_fresh`). If the functions keep no state, a second
call makes what it would make of handlers that throw (`layer_again`). That is what a new
middleware would make, for everything that may stand in an arrangement of middlewares,
exactly if the arrangement has no place for a handler; and if functions may keep state,
exactly if it has no place for a function either. `layered_again_spec` says all of this.

So a middleware with handlers is used up by one call, and the builder, whose
`build_service` is for an rvalue only, makes no more than one.
-/
import CppHttp.Middleware

set_option autoImplicit false

namespace CppHttp.MovedHandlers

open CppHttp.Errors CppHttp.Middleware CppHttp.Request CppHttp.ServerResponse

variable {M : Type → Type} [Monad M]

/-! ## Objects -/

/-- A `std::function`, which is empty when it has been moved from. -/
abbrev std_function (α β : Type) (M : Type → Type) := Option (α → M β)

section Calls

variable (bad_function_call : (α : Type) → M α)

/-- Calling a `std::function`; an empty one throws. -/
def call {α β : Type} (f : std_function α β M) (a : α) : M β :=
  f.elim (bad_function_call β) fun f => f a

/-- `class middleware` with its subclasses, as objects: the handlers may be gone. The state
of a function is what it has been given so far, and `func_` says what it makes of one more
service then. -/
inductive middleware_object (M : Type → Type)
  | indentity_middleware
  | stacked_middleware (inner_ outer_ : middleware_object M)
  | function_middleware (func_ : List (service M) → service M → service M)
      (given : List (service M))
  | pre_request_middleware (handler_ : std_function request request M)
  | after_response_middleware (handler_ : std_function (result response) (result response) M)

/-- `middleware::layer`: the service, and the object behind the call. -/
def middleware_object.layer : middleware_object M → service M → service M × middleware_object M
  | .indentity_middleware, service => (service, .indentity_middleware)
  | .stacked_middleware inner_ outer_, service =>
      let (inner_service, inner_) := inner_.layer service
      let (outer_service, outer_) := outer_.layer inner_service
      (outer_service, .stacked_middleware inner_ outer_)
  | .function_middleware func_ given, service =>
      (func_ given service, .function_middleware func_ (given ++ [service]))
  | .pre_request_middleware handler_, service =>
      (pre_request_service (call bad_function_call handler_) service,
        .pre_request_middleware none)
  | .after_response_middleware handler_, service =>
      (after_response_service (call bad_function_call handler_) service,
        .after_response_middleware none)

/-- A middleware as it is constructed, with functions that keep no state. -/
def fresh : middleware M → middleware_object M
  | .indentity_middleware => .indentity_middleware
  | .stacked_middleware inner_ outer_ => .stacked_middleware (fresh inner_) (fresh outer_)
  | .function_middleware func_ => .function_middleware (fun _ => func_) []
  | .pre_request_middleware handler_ => .pre_request_middleware (some handler_)
  | .after_response_middleware handler_ => .after_response_middleware (some handler_)

theorem layer_fresh (m : middleware M) (s : service M) :
    ((fresh m).layer bad_function_call s).1 = m.layer s := by
  induction m generalizing s with
  | indentity_middleware => rfl
  | stacked_middleware inner_ outer_ ih_inner ih_outer =>
      calc ((fresh (.stacked_middleware inner_ outer_)).layer bad_function_call s).1
          = ((fresh outer_).layer bad_function_call
              ((fresh inner_).layer bad_function_call s).1).1 := rfl
        _ = outer_.layer (inner_.layer s) := by rw [ih_inner, ih_outer]
  | function_middleware func_ => rfl
  | pre_request_middleware handler_ => rfl
  | after_response_middleware handler_ => rfl

/-! ## The second call -/

/-- The middleware with handlers that throw. -/
def throwing : middleware M → middleware M
  | .indentity_middleware => .indentity_middleware
  | .stacked_middleware inner_ outer_ => .stacked_middleware (throwing inner_) (throwing outer_)
  | .function_middleware func_ => .function_middleware func_
  | .pre_request_middleware _ => .pre_request_middleware fun _ => bad_function_call request
  | .after_response_middleware _ =>
      .after_response_middleware fun _ => bad_function_call (result response)

/-- The service of the second call: the handlers have been given away, and throw. -/
theorem layer_again (m : middleware M) (s1 s2 : service M) :
    (((fresh m).layer bad_function_call s1).2.layer bad_function_call s2).1
      = (throwing bad_function_call m).layer s2 := by
  induction m generalizing s1 s2 with
  | indentity_middleware => rfl
  | stacked_middleware inner_ outer_ ih_inner ih_outer =>
      -- the outer one has been layered over the service of the inner one
      let inner_object := ((fresh inner_).layer bad_function_call s1).2
      let outer_object := ((fresh outer_).layer bad_function_call
        ((fresh inner_).layer bad_function_call s1).1).2
      calc (((fresh (.stacked_middleware inner_ outer_)).layer bad_function_call s1).2.layer
              bad_function_call s2).1
          = (outer_object.layer bad_function_call
              (inner_object.layer bad_function_call s2).1).1 := rfl
        _ = (throwing bad_function_call outer_).layer
              ((throwing bad_function_call inner_).layer s2) := by rw [ih_outer, ih_inner]
  | function_middleware func_ => rfl
  | pre_request_middleware handler_ => rfl
  | after_response_middleware handler_ => rfl

end Calls

/-! ## Arrangements -/

/-- How the middlewares are put together, whatever functions they have. -/
inductive arrangement
  | indentity
  | stacked (inner outer : arrangement)
  | function
  | pre_request
  | after_response

/-- The arrangement of a middleware. -/
def middleware_object.arrangement : middleware_object M → MovedHandlers.arrangement
  | .indentity_middleware => .indentity
  | .stacked_middleware inner_ outer_ => .stacked inner_.arrangement outer_.arrangement
  | .function_middleware _ _ => .function
  | .pre_request_middleware _ => .pre_request
  | .after_response_middleware _ => .after_response

/-- The object is as it was constructed: it has its handlers, and its functions have been
given nothing yet. -/
def middleware_object.New : middleware_object M → Prop
  | .indentity_middleware => True
  | .stacked_middleware inner_ outer_ => inner_.New ∧ outer_.New
  | .function_middleware _ given => given = []
  | .pre_request_middleware handler_ => handler_.isSome = true
  | .after_response_middleware handler_ => handler_.isSome = true

omit [Monad M] in
theorem new_fresh (m : middleware M) : (fresh m).New := by
  induction m with
  | indentity_middleware => trivial
  | stacked_middleware inner_ outer_ ih_inner ih_outer => exact ⟨ih_inner, ih_outer⟩
  | function_middleware func_ => rfl
  | pre_request_middleware handler_ => rfl
  | after_response_middleware handler_ => rfl

namespace arrangement

/-- There is no place for a handler, at any depth. -/
def HandlerFree : arrangement → Prop
  | .indentity => True
  | .stacked inner outer => inner.HandlerFree ∧ outer.HandlerFree
  | .function => True
  | .pre_request => False
  | .after_response => False

/-- There are stacks and identities only. -/
def Plain : arrangement → Prop
  | .indentity => True
  | .stacked inner outer => inner.Plain ∧ outer.Plain
  | .function => False
  | .pre_request => False
  | .after_response => False

/-- A middleware of this arrangement that changes nothing. -/
def idle (M : Type → Type) [Monad M] : arrangement → middleware M
  | .indentity => .indentity_middleware
  | .stacked inner outer => .stacked_middleware (inner.idle M) (outer.idle M)
  | .function => .function_middleware fun service => service
  | .pre_request => .pre_request_middleware pure
  | .after_response => .after_response_middleware pure

theorem arrangement_fresh_idle (a : arrangement) : (fresh (a.idle M)).arrangement = a := by
  induction a with
  | indentity => rfl
  | stacked inner outer ih_inner ih_outer =>
      exact congrArg₂ arrangement.stacked ih_inner ih_outer
  | function => rfl
  | pre_request => rfl
  | after_response => rfl

variable [LawfulMonad M]

theorem layer_idle (a : arrangement) (s : service M) (req : request) :
    ((a.idle M).layer s).handle_request req = s.handle_request req := by
  induction a generalizing s with
  | indentity => rfl
  | stacked inner outer ih_inner ih_outer =>
      exact (ih_outer ((inner.idle M).layer s)).trans (ih_inner s)
  | function => rfl
  | pre_request => exact pure_bind req s.handle_request
  | after_response => exact bind_pure (s.handle_request req)

end arrangement

section Exceptions

variable (bad_function_call : (α : Type) → M α)

omit [Monad M] in
/-- With no place for a handler nothing is lost. -/
theorem throwing_of_handlerFree {m : middleware M} (h : (fresh m).arrangement.HandlerFree) :
    throwing bad_function_call m = m := by
  induction m with
  | indentity_middleware => rfl
  | stacked_middleware inner_ outer_ ih_inner ih_outer =>
      rw [throwing, ih_inner h.1, ih_outer h.2]
  | function_middleware func_ => rfl
  | pre_request_middleware handler_ => exact h.elim
  | after_response_middleware handler_ => exact h.elim

variable
  (hthrow : ∀ (α β : Type) (f : α → M β), bad_function_call α >>= f = bad_function_call β)
include hthrow

/-- A service that throws goes on throwing, whatever is around it. -/
theorem throwing_idle_of_throws (a : arrangement) (s : service M)
    (h : ∀ req, s.handle_request req = bad_function_call (result response)) (req : request) :
    ((throwing bad_function_call (a.idle M)).layer s).handle_request req
      = bad_function_call (result response) := by
  induction a generalizing s req with
  | indentity => exact h req
  | stacked inner outer ih_inner ih_outer => exact ih_outer _ (ih_inner s h) req
  | function => exact h req
  | pre_request => exact hthrow request (result response) s.handle_request
  | after_response =>
      calc s.handle_request req >>= (fun _ => bad_function_call (result response))
          = bad_function_call (result response)
              >>= fun _ => bad_function_call (result response) := by rw [h]
        _ = bad_function_call (result response) := hthrow _ _ _

/-- Where there is a place for a handler, the second service throws instead of answering. -/
theorem throwing_idle_of_not_handlerFree [LawfulMonad M] {a : arrangement} (ha : ¬ a.HandlerFree)
    (s : service M) (res : result response) (h : ∀ req, s.handle_request req = pure res)
    (req : request) :
    ((throwing bad_function_call (a.idle M)).layer s).handle_request req
      = bad_function_call (result response) := by
  induction a generalizing s req with
  | indentity => exact absurd trivial ha
  | stacked inner outer ih_inner ih_outer =>
      by_cases hinner : inner.HandlerFree
      · -- the inner ones pass the answer on, and it is lost in the outer ones
        have houter : ¬ outer.HandlerFree := fun houter => ha ⟨hinner, houter⟩
        refine ih_outer houter _ (fun req => ?_) req
        rw [throwing_of_handlerFree bad_function_call
          (by rwa [arrangement.arrangement_fresh_idle]), arrangement.layer_idle, h]
      · exact throwing_idle_of_throws bad_function_call hthrow outer _
          (ih_inner hinner s h) req
  | function => exact absurd trivial ha
  | pre_request => exact hthrow request (result response) s.handle_request
  | after_response =>
      calc s.handle_request req >>= (fun _ => bad_function_call (result response))
          = pure res >>= fun _ => bad_function_call (result response) := by rw [h]
        _ = bad_function_call (result response) := pure_bind _ _

/-- So with a place for a handler the second service is not the one of a new middleware. -/
theorem second_differs_of_not_handlerFree [LawfulMonad M] {a : arrangement}
    (ha : ¬ a.HandlerFree) {res : result response}
    (hres : (pure res : M (result response)) ≠ bad_function_call (result response)) :
    ¬ ∀ (s1 s2 : service M) (req : request),
        (((fresh (a.idle M)).layer bad_function_call s1).2.layer bad_function_call
            s2).1.handle_request req
          = ((fresh (a.idle M)).layer bad_function_call s2).1.handle_request req := by
  intro h
  have hsame := h ⟨fun _ => pure res⟩ ⟨fun _ => pure res⟩ bare_request
  rw [layer_again, layer_fresh, arrangement.layer_idle,
    throwing_idle_of_not_handlerFree bad_function_call hthrow ha _ res fun _ => rfl] at hsame
  exact hres hsame.symm

end Exceptions

/-! ## Functions that keep state -/

section States

variable (bad_function_call : (α : Type) → M α)

/-- A function that passes the first service on and makes one that throws of all others. -/
def only_once (given : List (service M)) (s : service M) : service M :=
  match given with
  | [] => s
  | _ :: _ => { handle_request := fun _ => bad_function_call (result response) }

/-- A middleware of this arrangement with such functions. -/
def arrangement.turning : arrangement → middleware_object M
  | .indentity => .indentity_middleware
  | .stacked inner outer => .stacked_middleware inner.turning outer.turning
  | .function => .function_middleware (only_once bad_function_call) []
  | .pre_request => .pre_request_middleware (some pure)
  | .after_response => .after_response_middleware (some pure)

theorem arrangement_turning (a : arrangement) :
    (a.turning bad_function_call).arrangement = a := by
  induction a with
  | indentity => rfl
  | stacked inner outer ih_inner ih_outer =>
      exact congrArg₂ arrangement.stacked ih_inner ih_outer
  | function => rfl
  | pre_request => rfl
  | after_response => rfl

theorem new_turning (a : arrangement) : (a.turning bad_function_call).New := by
  induction a with
  | indentity => trivial
  | stacked inner outer ih_inner ih_outer => exact ⟨ih_inner, ih_outer⟩
  | function => rfl
  | pre_request => rfl
  | after_response => rfl

/-- Without handlers, its first call passes the service on. -/
theorem layer_turning {a : arrangement} (ha : a.HandlerFree) (s : service M) :
    ((a.turning bad_function_call).layer bad_function_call s).1 = s := by
  induction a generalizing s with
  | indentity => rfl
  | stacked inner outer ih_inner ih_outer =>
      exact (ih_outer ha.2 _).trans (ih_inner ha.1 s)
  | function => rfl
  | pre_request => exact ha.elim
  | after_response => exact ha.elim

/-- A service that throws goes on throwing in its second call. -/
theorem turning_again_of_throws {a : arrangement} (ha : a.HandlerFree) (s1 s2 : service M)
    (h : ∀ req, s2.handle_request req = bad_function_call (result response)) (req : request) :
    (((a.turning bad_function_call).layer bad_function_call s1).2.layer bad_function_call
        s2).1.handle_request req = bad_function_call (result response) := by
  induction a generalizing s1 s2 req with
  | indentity => exact h req
  | stacked inner outer ih_inner ih_outer =>
      exact ih_outer ha.2 _ _ (ih_inner ha.1 s1 s2 h) req
  | function => rfl
  | pre_request => exact ha.elim
  | after_response => exact ha.elim

/-- With a place for a function, its second call makes a service that throws. -/
theorem turning_again {a : arrangement} (ha : a.HandlerFree) (hplain : ¬ a.Plain)
    (s1 s2 : service M) (req : request) :
    (((a.turning bad_function_call).layer bad_function_call s1).2.layer bad_function_call
        s2).1.handle_request req = bad_function_call (result response) := by
  induction a generalizing s1 s2 req with
  | indentity => exact absurd trivial hplain
  | stacked inner outer ih_inner ih_outer =>
      by_cases hinner : inner.Plain
      · have houter : ¬ outer.Plain := fun houter => hplain ⟨hinner, houter⟩
        exact ih_outer ha.2 houter _ _ req
      · -- the inner one throws, and so does what is around it
        exact turning_again_of_throws bad_function_call ha.2 _ _ (ih_inner ha.1 hinner s1 s2) req
  | function => rfl
  | pre_request => exact ha.elim
  | after_response => exact ha.elim

/-- Stacks of identities change nothing and keep nothing. -/
theorem layer_of_plain {o : middleware_object M} (h : o.arrangement.Plain) (s : service M) :
    o.layer bad_function_call s = (s, o) := by
  induction o generalizing s with
  | indentity_middleware => rfl
  | stacked_middleware inner_ outer_ ih_inner ih_outer =>
      rw [middleware_object.layer, ih_inner h.1]
      simp only [ih_outer h.2]
  | function_middleware func_ given => exact h.elim
  | pre_request_middleware handler_ => exact h.elim
  | after_response_middleware handler_ => exact h.elim

end States

/-! ## Layering twice -/

/-- **What a middleware can be used for.** Its first call makes the service of a freshly
constructed middleware. If its functions keep no state, a later call makes the one of a
middleware whose handlers throw whenever they are called. So an arrangement of middlewares
can be layered repeatedly, whatever functions without state are put into it, exactly if it
has no pre-request and no after-response middleware, at any depth; and whatever functions
are put into it, with state or without, exactly if it has no function middleware either. -/
theorem layered_again_spec [LawfulMonad M] (bad_function_call : (α : Type) → M α)
    (hthrow : ∀ (α β : Type) (f : α → M β), bad_function_call α >>= f = bad_function_call β)
    (hseen : ∃ res : result response, (pure res : M (result response))
      ≠ bad_function_call (result response)) :
    (∀ (m : middleware M) (s1 s2 : service M),
        ((fresh m).layer bad_function_call s1).1 = m.layer s1
        ∧ (((fresh m).layer bad_function_call s1).2.layer bad_function_call s2).1
          = ((fresh (throwing bad_function_call m)).layer bad_function_call s2).1)
      ∧ ∀ a : arrangement,
        ((∀ m : middleware M, (fresh m).arrangement = a →
            ∀ (s1 s2 : service M) (req : request),
              (((fresh m).layer bad_function_call s1).2.layer bad_function_call
                  s2).1.handle_request req
                = ((fresh m).layer bad_function_call s2).1.handle_request req)
          ↔ a.HandlerFree)
        ∧ ((∀ o : middleware_object M, o.New → o.arrangement = a →
            ∀ (s1 s2 : service M) (req : request),
              ((o.layer bad_function_call s1).2.layer bad_function_call s2).1.handle_request req
                = (o.layer bad_function_call s2).1.handle_request req)
          ↔ a.Plain) := by
  obtain ⟨res, hres⟩ := hseen
  refine ⟨fun m s1 s2 => ⟨layer_fresh bad_function_call m s1, ?_⟩,
    fun a => ⟨⟨?_, ?_⟩, ⟨?_, ?_⟩⟩⟩
  · rw [layer_again, layer_fresh]
  · intro h
    by_contra ha
    exact second_differs_of_not_handlerFree bad_function_call hthrow ha hres
      (h (a.idle M) a.arrangement_fresh_idle)
  · intro ha m hm s1 s2 req
    subst hm
    rw [layer_again, layer_fresh, throwing_of_handlerFree bad_function_call ha]
  · intro h
    by_contra hplain
    by_cases ha : a.HandlerFree
    · -- a function that has been given a service before throws
      have hsame := h (a.turning bad_function_call) (new_turning bad_function_call a)
        (arrangement_turning bad_function_call a) ⟨fun _ => pure res⟩ ⟨fun _ => pure res⟩
        bare_request
      rw [turning_again bad_function_call ha hplain, layer_turning bad_function_call ha] at hsame
      exact hres hsame.symm
    · exact second_differs_of_not_handlerFree bad_function_call hthrow ha hres
        (h (fresh (a.idle M)) (new_fresh _) a.arrangement_fresh_idle)
  · intro ha o _ ho s1 s2 req
    subst ho
    rw [layer_of_plain bad_function_call ha]

/-! ## In a coroutine -/

/-- An exception in a coroutine of the server. -/
def exception {ω : Type} (α : Type) : coroutine ω α := failure

/-- A service that answers with a failure. -/
def refusing {ω : Type} : service (coroutine ω) where
  handle_request _ := pure (.error none)

/-- What comes of it, and nothing if that is an exception. -/
def outcome (c : coroutine Unit (result response)) : Option (result response) :=
  (Id.run ((c.run ()).run.run none)).1

/-- A pre-request middleware around a function middleware. -/
theorem layered_again_spec_stack :
    ¬ ∀ m : middleware (coroutine Unit),
        (fresh m).arrangement = .stacked .function (.stacked .pre_request .indentity) →
        ∀ (s1 s2 : service (coroutine Unit)) (req : request),
          (((fresh m).layer exception s1).2.layer exception s2).1.handle_request req
            = ((fresh m).layer exception s2).1.handle_request req := by
  have hseen : (pure (.error none) : coroutine Unit (result response)) ≠ exception _ := by
    intro h
    have hrun : some (.error none : result response) = none := congrArg outcome h
    exact Option.some_ne_none _ hrun
  intro h
  exact (((layered_again_spec exception (fun _ _ _ => rfl) ⟨_, hseen⟩).2 _).1.mp h).2.1

/-- The second service of a pre-request middleware throws where a new one would answer. -/
theorem second_service_throws :
    ¬ ∀ (m : middleware (coroutine Unit)) (s1 s2 : service (coroutine Unit)) (req : request),
        (((fresh m).layer exception s1).2.layer exception s2).1.handle_request req
          = ((fresh m).layer exception s2).1.handle_request req := by
  intro h
  have hsame := h (.pre_request_middleware pure) refusing refusing bare_request
  have hrun : none = some (.error none : result response) := congrArg outcome hsame
  exact Option.some_ne_none _ hrun.symm

end CppHttp.MovedHandlers
