/-
`response_builder` (`server/response.hpp`) as a sequence of setter calls.

Every setter acts on the header at once. For the status, the version, the reason and the
fields this means that the last call decides, whatever the order (`built_spec`). The
setter `keep_alive` is different: what it writes into the `Connection` field depends on
the version the header has at that moment, and a later `version` call does not go back
to it. Among the values it can have written itself nothing is left of an earlier call,
so the field is what the *last* `keep_alive` call writes under the version in front of
it (`keep_alive_call`).

`setters_commute_iff` says what follows for two sequences with the same last calls.
-/
import CppHttp.ServerResponse

set_option autoImplicit false

namespace CppHttp.ResponseBuilder

open CppHttp.HttpMessage CppHttp.ServerResponse CppHttp.StdString

/-! ## Setter calls -/

/-- A call of one of the setters. `ok`, `bad_request` and `server_error` are calls of
`status`. -/
inductive setter
  | status (status : ℕ)
  | version (version : ℕ)
  | keep_alive (keep_alive : Bool)
  | content_type (content_type : std_string)
  | reason (reason : std_string)
  | set (field value : std_string)
  deriving DecidableEq, Repr

variable (C : connection_library)

def setter.apply (b : response_builder) : setter → response_builder
  | .status s => b.status s
  | .version v => b.version v
  | .keep_alive keep => b.keep_alive C keep
  | .content_type value => b.content_type value
  | .reason text => b.reason text
  | .set field value => b.set field value

/-- The builder behind the calls. -/
def built (calls : List setter) : response_builder := calls.foldl (setter.apply C) {}

/-! ## The last calls -/

/-- The argument of the last of the calls that `f` picks. -/
def last_of {α : Type} (f : setter → Option α) (calls : List setter) : Option α :=
  (calls.filterMap f).getLast?

def status_of : setter → Option ℕ
  | .status status => some status
  | _ => none

def version_of : setter → Option ℕ
  | .version version => some version
  | _ => none

def keep_alive_of : setter → Option Bool
  | .keep_alive keep => some keep
  | _ => none

def reason_of : setter → Option std_string
  | .reason reason => some reason
  | _ => none

/-- The value a call sets a field of that name to. -/
def field_of (name : std_string) : setter → Option std_string
  | .content_type value => if iequals "Content-Type".toList name then some value else none
  | .set field value => if iequals field name then some value else none
  | _ => none

/-- The version set so far, and the last `keep_alive` call with the version set in front
of it. -/
def track (p : ℕ × Option (ℕ × Bool)) : setter → ℕ × Option (ℕ × Bool)
  | .version version => (version, p.2)
  | .keep_alive keep => (p.1, some (p.1, keep))
  | _ => p

/-- The last `keep_alive` call, with the version the header has when it is made. -/
def keep_alive_call (calls : List setter) : Option (ℕ × Bool) :=
  (calls.foldl track (11, none)).2

theorem last_of_append {α : Type} (f : setter → Option α) (calls : List setter) (c : setter) :
    last_of f (calls ++ [c]) = (f c).or (last_of f calls) := by
  unfold last_of
  rw [List.filterMap_append, List.getLast?_append]
  cases h : f c with
  | none => simp [h]
  | some a => simp [h]

/-- The version is that of the last `version` call, and the `keep_alive` call the last
one. -/
theorem track_eq (calls : List setter) :
    (calls.foldl track (11, none)).1 = (last_of version_of calls).getD 11
      ∧ (keep_alive_call calls).map Prod.snd = last_of keep_alive_of calls := by
  unfold keep_alive_call
  induction calls using List.reverseRecOn with
  | nil => exact ⟨rfl, rfl⟩
  | append_singleton calls c ih =>
      rw [List.foldl_append, List.foldl_cons, List.foldl_nil, last_of_append, last_of_append,
        ← ih.2]
      cases c with
      | version version => exact ⟨rfl, by simp [track, keep_alive_of]⟩
      | keep_alive keep => exact ⟨by simpa [track, version_of] using ih.1, rfl⟩
      | _ => exact ⟨by simpa [track, version_of] using ih.1, by simp [track, keep_alive_of]⟩

/-- No call sets the `Connection` field directly. -/
def NoConnection (calls : List setter) : Prop :=
  ∀ field value, .set field value ∈ calls → iequals field connection = false

/-! ## The `Connection` field -/

/-- What is documented of `keep_alive` on a field that it has written itself: the single
token gives way to what the new call announces. -/
structure PlainTokens : Prop where
  keep_alive_forgotten : ∀ version keep,
    C.keep_alive_value version keep_alive_token keep = C.keep_alive_value version [] keep
  close_forgotten : ∀ version keep,
    C.keep_alive_value version close_token keep = C.keep_alive_value version [] keep
  close_not_keep_alive : C.token_exists close_token keep_alive_token = false

/-- The value of the field behind the last `keep_alive` call. -/
def announced (call : Option (ℕ × Bool)) : std_string :=
  call.elim [] fun p => C.keep_alive_value p.1 [] p.2

variable {C}

/-- There are three values the field can have. -/
theorem announced_cases (hC : C.Documented) (version : ℕ) (keep : Bool) :
    (version < 11 ∧ keep = true
        ∧ C.keep_alive_value version [] keep = keep_alive_token)
      ∨ (11 ≤ version ∧ keep = false ∧ C.keep_alive_value version [] keep = close_token)
      ∨ (keep = decide (11 ≤ version) ∧ C.keep_alive_value version [] keep = []) := by
  by_cases hv : version < 11
  · have hv' : ¬ 11 ≤ version := by omega
    cases keep with
    | true => exact Or.inl ⟨hv, rfl, hC.http10_keep version hv⟩
    | false => exact Or.inr (Or.inr ⟨by simp [hv'], hC.http10_close version hv⟩)
  · have hv' : 11 ≤ version := by omega
    cases keep with
    | true => exact Or.inr (Or.inr ⟨by simp [hv'], hC.http11_keep version hv'⟩)
    | false => exact Or.inr (Or.inl ⟨hv', rfl, hC.http11_close version hv'⟩)

/-- A further call forgets the last one. -/
theorem keep_alive_value_announced (hC : C.Documented) (hP : PlainTokens C)
    (call : Option (ℕ × Bool)) (version : ℕ) (keep : Bool) :
    C.keep_alive_value version (announced C call) keep = C.keep_alive_value version [] keep := by
  cases call with
  | none => rfl
  | some p =>
      rw [announced, Option.elim_some]
      rcases announced_cases hC p.1 p.2 with ⟨-, -, h⟩ | ⟨-, -, h⟩ | ⟨-, h⟩
      · rw [h, hP.keep_alive_forgotten]
      · rw [h, hP.close_forgotten]
      · rw [h]

/-! ## What is built -/

theorem iequals_congr {a b c : std_string} (h : iequals a b = true) :
    iequals a c = iequals b c := by
  rw [Bool.eq_iff_iff]
  constructor
  · exact iequals_trans (by rw [iequals_comm]; exact h)
  · exact iequals_trans h

/-- Field names that differ in case only name the same field. -/
theorem get_congr (f : fields) {a b : std_string} (h : iequals a b = true) :
    f.get a = f.get b := by
  unfold fields.get
  congr 3
  funext e
  rw [iequals_comm e.1 a, iequals_comm e.1 b, iequals_congr h]

/-- `set` on a field, seen under any name. -/
theorem get_set (f : fields) (field value name : std_string) :
    (f.set field value).get name = if iequals field name then value else f.get name := by
  by_cases h : iequals field name = true
  · rw [if_pos h, ← get_congr _ h, fields.get_set_same]
  · rw [if_neg h]
    exact fields.get_set_of_ne f value (by rw [iequals_comm]; simpa using h)

/-- `keep_alive` leaves the other fields alone. -/
theorem get_set_keep_alive_of_ne (f : fields) (version : ℕ) (keep : Bool) {name : std_string}
    (h : iequals name connection = false) :
    (f.set_keep_alive C version keep).get name = f.get name := by
  unfold fields.set_keep_alive
  dsimp only
  split
  · exact fields.get_erase_of_ne f h
  · exact fields.get_set_of_ne f _ h

/-- A header as the last calls leave it. -/
structure FromLastCalls (C : connection_library) (calls : List setter)
    (header : response_header) : Prop where
  result : header.result = (last_of status_of calls).getD 200
  version : header.version = (last_of version_of calls).getD 11
  reason : header.reason = (last_of reason_of calls).getD []
  fields : ∀ name, iequals name connection = false →
    header.fields.get name = (last_of (field_of name) calls).getD []
  connection : header.fields.get HttpMessage.connection = announced C (keep_alive_call calls)

theorem built_append (calls : List setter) (c : setter) :
    built C (calls ++ [c]) = setter.apply C (built C calls) c := by
  rw [built, List.foldl_append]
  rfl

/-- What the calls that `f` picks set, and the others leave alone, is as the last of these
calls set it. -/
theorem read_eq_last {α : Type} (f : setter → Option α) (read : response_header → α)
    (hstep : ∀ b c, read (setter.apply C b c).header_ = (f c).getD (read b.header_))
    (calls : List setter) :
    read (built C calls).header_ = (last_of f calls).getD (read (built C []).header_) := by
  induction calls using List.reverseRecOn with
  | nil => rfl
  | append_singleton calls c ih =>
      rw [built_append, hstep, ih, last_of_append]
      cases f c with
      | none => rfl
      | some a => rfl

theorem result_apply (b : response_builder) (c : setter) :
    (setter.apply C b c).header_.result = (status_of c).getD b.header_.result := by
  cases c <;> rfl

theorem version_apply (b : response_builder) (c : setter) :
    (setter.apply C b c).header_.version = (version_of c).getD b.header_.version := by
  cases c <;> rfl

theorem reason_apply (b : response_builder) (c : setter) :
    (setter.apply C b c).header_.reason = (reason_of c).getD b.header_.reason := by
  cases c <;> rfl

theorem get_apply {name : std_string} (h : iequals name connection = false)
    (b : response_builder) (c : setter) :
    (setter.apply C b c).header_.fields.get name
      = (field_of name c).getD (b.header_.fields.get name) := by
  cases c with
  | content_type value =>
      change (b.header_.fields.set "Content-Type".toList value).get name = _
      rw [get_set, field_of]
      split <;> rfl
  | set field value =>
      change (b.header_.fields.set field value).get name = _
      rw [get_set, field_of]
      split <;> rfl
  | keep_alive keep => exact get_set_keep_alive_of_ne _ _ _ h
  | _ => rfl

/-- Behind a call the `Connection` field is what the last `keep_alive` call announces. What
the earlier ones have written is forgotten. -/
theorem connection_apply (hC : C.Documented) (hP : PlainTokens C) {b : response_builder}
    {call : Option (ℕ × Bool)} (c : setter) (hno : NoConnection [c])
    (h : b.header_.fields.get connection = announced C call) :
    (setter.apply C b c).header_.fields.get connection
      = announced C (track (b.header_.version, call) c).2 := by
  cases c with
  | content_type value =>
      change (b.header_.fields.set "Content-Type".toList value).get connection = _
      rw [get_set, if_neg (by decide)]
      exact h
  | set field value =>
      have hfield := hno field value List.mem_cons_self
      change (b.header_.fields.set field value).get connection = _
      rw [get_set, hfield]
      exact h
  | keep_alive keep =>
      change (b.header_.fields.set_keep_alive C _ keep).get connection = _
      rw [fields.get_set_keep_alive, h, keep_alive_value_announced hC hP]
      rfl
  | _ => exact h

theorem connection_built (hC : C.Documented) (hP : PlainTokens C) (calls : List setter)
    (hno : NoConnection calls) :
    (built C calls).header_.fields.get connection = announced C (keep_alive_call calls) := by
  induction calls using List.reverseRecOn with
  | nil => rfl
  | append_singleton calls c ih =>
      have hcalls := ih fun field value hmem => hno field value (List.mem_append_left _ hmem)
      have hc : NoConnection [c] :=
        fun field value hmem => hno field value (List.mem_append_right _ hmem)
      have hversion : (built C calls).header_.version = (calls.foldl track (11, none)).1 := by
        rw [read_eq_last version_of response_header.version version_apply, (track_eq calls).1]
        rfl
      rw [built_append, connection_apply hC hP c hc hcalls, hversion, keep_alive_call,
        keep_alive_call, List.foldl_append]
      rfl

/-- **What is built**, as the last calls leave it. -/
theorem built_spec (hC : C.Documented) (hP : PlainTokens C) (calls : List setter)
    (hno : NoConnection calls) : FromLastCalls C calls (built C calls).header_ where
  result := read_eq_last status_of response_header.result result_apply calls
  version := read_eq_last version_of response_header.version version_apply calls
  reason := read_eq_last reason_of response_header.reason reason_apply calls
  fields name h :=
    read_eq_last (field_of name) (fun header => header.fields.get name) (get_apply h) calls
  connection := connection_built hC hP calls hno

/-! ## Two sequences of calls -/

/-- The last calls of each kind have the same arguments; of the fields, the last values of
each name. -/
structure SameLast (as bs : List setter) : Prop where
  status : last_of status_of as = last_of status_of bs
  version : last_of version_of as = last_of version_of bs
  keep_alive : last_of keep_alive_of as = last_of keep_alive_of bs
  reason : last_of reason_of as = last_of reason_of bs
  fields : ∀ name, last_of (field_of name) as = last_of (field_of name) bs

/-- The headers agree, the `Connection` field apart. -/
structure SameButConnection (a b : response_header) : Prop where
  result : a.result = b.result
  version : a.version = b.version
  reason : a.reason = b.reason
  fields : ∀ name, iequals name connection = false → a.fields.get name = b.fields.get name

/-- The `Connection` fields agree as well, and the persistence that the header has is the
one that was asked for last. -/
structure KeepsLast (C : connection_library) (as : List setter) (a b : response_header) :
    Prop where
  connection : a.fields.get connection = b.fields.get connection
  keep_alive : ∀ keep, last_of keep_alive_of as = some keep →
    a.keep_alive C = keep ∧ b.keep_alive C = keep

/-- The last `keep_alive` calls are made under versions on one side of HTTP/1.1, and the
final version is on that side too, unless it promises by itself what was asked for. -/
def VersionsAgree (as bs : List setter) : Prop :=
  ∀ v v' keep, keep_alive_call as = some (v, keep) → keep_alive_call bs = some (v', keep) →
    (v < 11 ↔ v' < 11)
      ∧ ((v < 11 ↔ (last_of version_of as).getD 11 < 11)
        ∨ keep = decide (11 ≤ (last_of version_of as).getD 11))

/-- A persistence announced under one version and read under another is the same exactly
if they are on one side of HTTP/1.1 or the reading version promises it by itself. -/
theorem keep_alive_announced_iff (hC : C.Documented) (hP : PlainTokens C) (f : fields)
    (v version : ℕ) (keep : Bool) (h : f.get connection = C.keep_alive_value v [] keep) :
    f.keep_alive C version = keep
      ↔ (v < 11 ↔ version < 11) ∨ keep = decide (11 ≤ version) := by
  unfold fields.keep_alive
  rw [h]
  rcases announced_cases hC v keep with ⟨hv, rfl, heq⟩ | ⟨hv, rfl, heq⟩ | ⟨hkeep, heq⟩
  · -- announced with the token: it is true in every version
    rw [heq, hC.keep_alive_exists, hC.keep_alive_not_close]
    by_cases hver : version < 11
    · simp [hver, hv]
    · simp [hver, Nat.le_of_not_lt hver]
  · -- its end announced: before HTTP/1.1 the token says nothing
    rw [heq, hP.close_not_keep_alive, hC.close_exists]
    by_cases hver : version < 11
    · simp [hver]
    · simp [hver, hv, Nat.le_of_not_lt hver]
  · -- nothing announced: the version decides
    rw [heq, hC.empty, hC.empty, hkeep]
    by_cases hver : version < 11
    · by_cases hv : v < 11
      · simp [hver, hv]
      · simp [hver, hv, Nat.le_of_not_lt hv]
    · by_cases hv : v < 11
      · simp [hver, hv, Nat.le_of_not_lt hver]
      · simp [hver, hv, Nat.le_of_not_lt hv]

/-- The same persistence is announced in the same way exactly under versions on one side of
HTTP/1.1. -/
theorem announced_eq_iff (hC : C.Documented) (v v' : ℕ) (keep : Bool) :
    C.keep_alive_value v [] keep = C.keep_alive_value v' [] keep ↔ (v < 11 ↔ v' < 11) := by
  -- on different sides one of them announces it and the other does not
  have hdiff : ∀ v v' : ℕ, v < 11 → 11 ≤ v' → ∀ keep,
      C.keep_alive_value v [] keep ≠ C.keep_alive_value v' [] keep := by
    intro v v' hv hv' keep
    cases keep with
    | true =>
        rw [hC.http10_keep v hv, hC.http11_keep v' hv']
        decide
    | false =>
        rw [hC.http10_close v hv, hC.http11_close v' hv']
        decide
  by_cases hv : v < 11
  · by_cases hv' : v' < 11
    · refine iff_of_true ?_ (iff_of_true hv hv')
      cases keep with
      | true => rw [hC.http10_keep v hv, hC.http10_keep v' hv']
      | false => rw [hC.http10_close v hv, hC.http10_close v' hv']
    · exact iff_of_false (hdiff v v' hv (by omega) keep) (fun h => hv' (h.mp hv))
  · by_cases hv' : v' < 11
    · exact iff_of_false (hdiff v' v hv' (by omega) keep).symm (fun h => hv (h.mpr hv'))
    · refine iff_of_true ?_ (iff_of_false hv hv')
      cases keep with
      | true => rw [hC.http11_keep v (by omega), hC.http11_keep v' (by omega)]
      | false => rw [hC.http11_close v (by omega), hC.http11_close v' (by omega)]

/-- Two headers that the same last calls leave. -/
theorem FromLastCalls.sameButConnection {as bs : List setter} {a b : response_header}
    (ha : FromLastCalls C as a) (hb : FromLastCalls C bs b) (hsame : SameLast as bs) :
    SameButConnection a b where
  result := by rw [ha.result, hb.result, hsame.status]
  version := by rw [ha.version, hb.version, hsame.version]
  reason := by rw [ha.reason, hb.reason, hsame.reason]
  fields name h := by rw [ha.fields name h, hb.fields name h, hsame.fields name]

/-- Two headers of one version on which the same persistence was announced. -/
theorem keepsLast_iff (hC : C.Documented) (hP : PlainTokens C) {as : List setter}
    {a b : response_header} {v v' : ℕ} {keep : Bool}
    (hlast : last_of keep_alive_of as = some keep) (hversion : a.version = b.version)
    (ha : a.fields.get connection = C.keep_alive_value v [] keep)
    (hb : b.fields.get connection = C.keep_alive_value v' [] keep) :
    KeepsLast C as a b
      ↔ (v < 11 ↔ v' < 11) ∧ ((v < 11 ↔ a.version < 11) ∨ keep = decide (11 ≤ a.version)) := by
  have hsema := keep_alive_announced_iff hC hP _ v a.version keep ha
  have hsemb := keep_alive_announced_iff hC hP _ v' b.version keep hb
  have hsides := announced_eq_iff hC v v' keep
  constructor
  · intro h
    refine ⟨hsides.mp ?_, hsema.mp (h.keep_alive keep hlast).1⟩
    rw [← ha, h.connection, hb]
  · rintro ⟨hv, hkeep⟩
    refine ⟨by rw [ha, hb, hsides.mpr hv], fun k hk => ?_⟩
    obtain rfl : keep = k := Option.some.inj (hlast.symm.trans hk)
    refine ⟨hsema.mpr hkeep, hsemb.mpr ?_⟩
    -- the other header was announced on the same side, and has the same version
    rw [← hv, ← hversion]
    exact hkeep

theorem versionsAgree_iff {as bs : List setter} {v v' : ℕ} {keep : Bool}
    (ha : keep_alive_call as = some (v, keep)) (hb : keep_alive_call bs = some (v', keep)) :
    VersionsAgree as bs
      ↔ (v < 11 ↔ v' < 11) ∧ ((v < 11 ↔ (last_of version_of as).getD 11 < 11)
        ∨ keep = decide (11 ≤ (last_of version_of as).getD 11)) := by
  constructor
  · intro h
    exact h v v' keep ha hb
  · intro h w w' k hw hw'
    rw [ha] at hw
    rw [hb] at hw'
    obtain ⟨rfl, rfl⟩ := Prod.mk.inj (Option.some.inj hw)
    obtain ⟨rfl, -⟩ := Prod.mk.inj (Option.some.inj hw')
    exact h

/-- **Two sequences of setter calls** in which the last calls of each kind have the same
arguments build the same status, version, reason and fields, the `Connection` field apart.
They build the same `Connection` field too, and the persistence that was asked for last, if
and only if the versions in front of the last `keep_alive` calls agree with each other and
with the final one. -/
theorem setters_commute_iff (hC : C.Documented) (hP : PlainTokens C) (as bs : List setter)
    (has : NoConnection as) (hbs : NoConnection bs) (hsame : SameLast as bs) :
    SameButConnection (built C as).header_ (built C bs).header_
      ∧ (KeepsLast C as (built C as).header_ (built C bs).header_ ↔ VersionsAgree as bs) := by
  have ha := built_spec hC hP as has
  have hb := built_spec hC hP bs hbs
  have hmost := ha.sameButConnection hb hsame
  refine ⟨hmost, ?_⟩
  have hka := (track_eq as).2
  have hkb := (track_eq bs).2
  rw [← hsame.keep_alive] at hkb
  cases hwa : keep_alive_call as with
  | none =>
      -- no call of `keep_alive`, in either sequence
      rw [hwa, Option.map_none] at hka
      rw [← hka, Option.map_eq_none_iff] at hkb
      refine iff_of_true ⟨?_, ?_⟩ ?_
      · rw [ha.connection, hb.connection, hwa, hkb]
      · intro keep hkeep
        rw [← hka] at hkeep
        cases hkeep
      · intro v v' keep hv
        rw [hwa] at hv
        cases hv
  | some p =>
      obtain ⟨v, keep⟩ := p
      rw [hwa, Option.map_some] at hka
      rw [← hka] at hkb
      obtain ⟨⟨v', keep'⟩, hwb, hkeep⟩ := Option.map_eq_some_iff.mp hkb
      obtain rfl : keep' = keep := hkeep
      have hconna := ha.connection
      have hconnb := hb.connection
      rw [hwa] at hconna
      rw [hwb] at hconnb
      rw [versionsAgree_iff hwa hwb, ← ha.version]
      exact keepsLast_iff hC hP hka.symm hmost.version hconna hconnb

/-! ## Orders that matter -/

theorem token_connection_plainTokens : PlainTokens token_connection where
  keep_alive_forgotten version keep := by
    by_cases h : version < 11
    · simp only [token_connection, if_pos h]
      cases keep <;> decide +kernel
    · simp only [token_connection, if_neg h]
      cases keep <;> decide +kernel
  close_forgotten version keep := by
    by_cases h : version < 11
    · simp only [token_connection, if_pos h]
      cases keep <;> decide +kernel
    · simp only [token_connection, if_neg h]
      cases keep <;> decide +kernel
  close_not_keep_alive := by decide +kernel

/-- A 404 for HTTP/1.0 that keeps the connection, the version first. -/
def version_first : List setter :=
  [.version 10, .keep_alive true, .status 404, .content_type "text/plain".toList]

/-- The same, with the calls in another order and the status set twice. -/
def version_early : List setter :=
  [.status 200, .content_type "text/plain".toList, .version 10, .status 404, .keep_alive true]

/-- Two orders that make no difference. -/
theorem setters_commute_iff_version_first :
    SameButConnection (built token_connection version_first).header_
        (built token_connection version_early).header_
      ∧ (KeepsLast token_connection version_first
            (built token_connection version_first).header_
            (built token_connection version_early).header_
          ↔ VersionsAgree version_first version_early) :=
  setters_commute_iff token_connection_documented token_connection_plainTokens version_first
    version_early (by simp [NoConnection, version_first]) (by simp [NoConnection, version_early])
    ⟨rfl, rfl, rfl, rfl, fun _ => rfl⟩

/-- `keep_alive(true)` in front of `version(10)` and behind it: the first response is not
to be kept, the second is. -/
theorem keep_alive_before_version :
    SameLast [.keep_alive true, .version 10] [.version 10, .keep_alive true]
      ∧ last_of keep_alive_of [.keep_alive true, .version 10] = some true
      ∧ (built token_connection [.keep_alive true, .version 10]).header_.keep_alive
          token_connection = false
      ∧ (built token_connection [.version 10, .keep_alive true]).header_.keep_alive
          token_connection = true :=
  ⟨⟨rfl, rfl, rfl, rfl, fun _ => rfl⟩, rfl, by decide +kernel, by decide +kernel⟩

end CppHttp.ResponseBuilder
