/-
Runs of a transition function, over an arbitrary state and action type.

Two kinds of system are run in this development. A *schedule* is a list of
actions given to a partial step function (`run`): every interleaving of several
parties is one such list. A *loop* is a total function applied over and over
(`f^[n]`), which either reaches a state that counts as returned or never does.

For schedules the library has the rules every proof below ends with.
`run_invariant` lifts what one step keeps to a whole run. `property_iff` is the
rule for properties that a run has exactly as long as none of its steps goes
wrong; `defect_eq_iff` is the form of it to use when the property says that a
number has not moved. `throughout_iff` is the rule for properties of states that have to
hold in every state a run goes through. That a party gets to its end is
`exists_run_of_measure`.

For loops, `halts_step_iff` and `settles_step_iff` peel one iteration off, so
that termination and the final value are both proved by induction on the input.
-/
import Mathlib.Logic.Function.Iterate
import Mathlib.Tactic.Common

set_option autoImplicit false

namespace CppHttp.Runs

/-! ## Schedules -/

section Schedule

variable {σ α : Type*} (step : σ → α → Option σ)

/-- The state after a schedule, `none` as soon as an action is not enabled. -/
def run : σ → List α → Option σ
  | s, [] => some s
  | s, a :: as => (step s a).bind fun t => run t as

/-- Every step of the schedule meets `P` in the state it is taken from. -/
def StepsMeet (P : σ → α → Prop) : σ → List α → Prop
  | _, [] => True
  | s, a :: as => P s a ∧ ∀ t ∈ step s a, StepsMeet P t as

instance decidableStepsMeet (P : σ → α → Prop) [∀ s a, Decidable (P s a)] :
    ∀ s as, Decidable (StepsMeet step P s as)
  | _, [] => isTrue trivial
  | s, a :: as =>
      have : ∀ t, Decidable (StepsMeet step P t as) := fun t => decidableStepsMeet P t as
      inferInstanceAs (Decidable (P s a ∧ ∀ t ∈ step s a, StepsMeet step P t as))

variable {step}

@[simp] theorem run_nil (s : σ) : run step s [] = some s := rfl

theorem run_cons {s u : σ} {a : α} {as : List α} :
    run step s (a :: as) = some u ↔ ∃ t, step s a = some t ∧ run step t as = some u := by
  simp [run, Option.bind_eq_some_iff]

theorem run_append {s u : σ} {as bs : List α} :
    run step s (as ++ bs) = some u
      ↔ ∃ t, run step s as = some t ∧ run step t bs = some u := by
  induction as generalizing s with
  | nil => simp
  | cons a as ih =>
      rw [List.cons_append, run_cons]
      constructor
      · rintro ⟨t, hst, ht⟩
        obtain ⟨v, htv, hv⟩ := ih.mp ht
        exact ⟨v, run_cons.mpr ⟨t, hst, htv⟩, hv⟩
      · rintro ⟨v, hsv, hv⟩
        obtain ⟨t, hst, htv⟩ := run_cons.mp hsv
        exact ⟨t, hst, ih.mpr ⟨v, htv, hv⟩⟩

theorem run_invariant {I : σ → Prop} (h : ∀ s a t, I s → step s a = some t → I t)
    {s u : σ} {as : List α} (hs : I s) (hrun : run step s as = some u) : I u := by
  induction as generalizing s with
  | nil =>
      simp only [run_nil, Option.some.injEq] at hrun
      exact hrun ▸ hs
  | cons a as ih =>
      obtain ⟨t, hst, ht⟩ := run_cons.mp hrun
      exact ih (h s a t hs hst) ht

/-- What every step that meets `P` keeps, every run whose steps all meet `P`
keeps. -/
theorem run_invariant_of_meets {P : σ → α → Prop} {I : σ → Prop}
    (h : ∀ s a t, I s → P s a → step s a = some t → I t)
    {s u : σ} {as : List α} (hs : I s) (hmeet : StepsMeet step P s as)
    (hrun : run step s as = some u) : I u := by
  induction as generalizing s with
  | nil =>
      simp only [run_nil, Option.some.injEq] at hrun
      exact hrun ▸ hs
  | cons a as ih =>
      obtain ⟨t, hst, ht⟩ := run_cons.mp hrun
      exact ih (h s a t hs hmeet.1 hst) (hmeet.2 t hst) ht

theorem stepsMeet_append {P : σ → α → Prop} {s t : σ} {as bs : List α}
    (hs : run step s as = some t) (h1 : StepsMeet step P s as) (h2 : StepsMeet step P t bs) :
    StepsMeet step P s (as ++ bs) := by
  induction as generalizing s with
  | nil =>
      simp only [run_nil, Option.some.injEq] at hs
      exact hs ▸ h2
  | cons a as ih =>
      obtain ⟨u, hsu, hu⟩ := run_cons.mp hs
      refine ⟨h1.1, ?_⟩
      intro v hv
      rw [hsu, Option.mem_some_iff] at hv
      subst hv
      exact ih hu (h1.2 u hsu)

/-- The property rule. If under an invariant `I` a step keeps the property `Q` exactly
when it meets `P`, and no step restores it, then a run keeps it exactly when all its
steps meet `P`. -/
theorem property_iff {P : σ → α → Prop} {I Q : σ → Prop}
    (h : ∀ s a t, I s → step s a = some t → I t ∧ (Q t ↔ Q s ∧ P s a))
    {s u : σ} {as : List α} (hs : I s) (hrun : run step s as = some u) :
    Q u ↔ Q s ∧ StepsMeet step P s as := by
  induction as generalizing s with
  | nil =>
      simp only [run_nil, Option.some.injEq] at hrun
      subst hrun
      simp [StepsMeet]
  | cons a as ih =>
      obtain ⟨t, hst, ht⟩ := run_cons.mp hrun
      obtain ⟨hIt, hiff⟩ := h s a t hs hst
      rw [ih hIt ht, hiff, StepsMeet, hst]
      simp only [Option.mem_some_iff, forall_eq', and_assoc]

/-- The defect rule. Under an invariant `I`, let `d` be a number that no step
lowers and that a step leaves alone exactly if it meets `P`. Then a run leaves
`d` alone exactly if all its steps meet `P`. -/
theorem defect_eq_iff {P : σ → α → Prop} {I : σ → Prop} (d : σ → ℕ)
    (h : ∀ s a t, I s → step s a = some t → I t ∧ d s ≤ d t ∧ (d t = d s ↔ P s a))
    {s u : σ} {as : List α} (hs : I s) (hrun : run step s as = some u) :
    d s ≤ d u ∧ (d u = d s ↔ StepsMeet step P s as) := by
  -- the property is that `d` has not moved from where the run started
  have hstep : ∀ r a t, I r ∧ d s ≤ d r → step r a = some t →
      (I t ∧ d s ≤ d t) ∧ (d t = d s ↔ d r = d s ∧ P r a) := by
    rintro r a t ⟨hr, hle⟩ hst
    obtain ⟨ht, hmono, hiff⟩ := h r a t hr hst
    refine ⟨⟨ht, Nat.le_trans hle hmono⟩, ?_⟩
    rw [← hiff]
    omega
  have hI : I u ∧ d s ≤ d u :=
    run_invariant (fun r a t hr hst => (hstep r a t hr hst).1) ⟨hs, Nat.le_refl _⟩ hrun
  refine ⟨hI.2, ?_⟩
  rw [property_iff hstep ⟨hs, Nat.le_refl _⟩ hrun]
  simp

variable (step) in
/-- `Q` holds in every state the schedule goes through. -/
def Throughout (Q : σ → Prop) (s : σ) (as : List α) : Prop :=
  ∀ bs, bs <+: as → ∀ t, run step s bs = some t → Q t

theorem throughout_cons {Q : σ → Prop} {s t : σ} {a : α} {as : List α}
    (hst : step s a = some t) :
    Throughout step Q s (a :: as) ↔ Q s ∧ Throughout step Q t as := by
  constructor
  · intro h
    refine ⟨h [] List.nil_prefix s rfl, fun bs hbs u hu => ?_⟩
    exact h (a :: bs) (List.cons_prefix_cons.mpr ⟨rfl, hbs⟩) u (run_cons.mpr ⟨t, hst, hu⟩)
  · rintro ⟨hs, h⟩ bs hbs u hu
    cases bs with
    | nil =>
        obtain rfl := Option.some.inj hu
        exact hs
    | cons b bs =>
        obtain ⟨rfl, hbs'⟩ := List.cons_prefix_cons.mp hbs
        obtain ⟨v, hsv, hv⟩ := run_cons.mp hu
        rw [hst] at hsv
        obtain rfl := Option.some.inj hsv
        exact h bs hbs' u hv

/-- The state rule. If under an invariant `I` a step from a state with `Q` leads to one
with `Q` exactly when it meets `P`, then `Q` holds throughout a run exactly when all its
steps meet `P`. -/
theorem throughout_iff {P : σ → α → Prop} {I Q : σ → Prop}
    (h : ∀ s a t, I s → step s a = some t → I t ∧ (Q s → (Q t ↔ P s a)))
    {s u : σ} {as : List α} (hs : I s) (hq : Q s) (hrun : run step s as = some u) :
    Throughout step Q s as ↔ StepsMeet step P s as := by
  induction as generalizing s with
  | nil =>
      refine iff_of_true ?_ trivial
      intro bs hbs t ht
      rw [List.prefix_nil.mp hbs, run_nil, Option.some.injEq] at ht
      exact ht ▸ hq
  | cons a as ih =>
      obtain ⟨t, hst, ht⟩ := run_cons.mp hrun
      obtain ⟨hIt, hiff⟩ := h s a t hs hst
      rw [throughout_cons hst, StepsMeet, hst]
      simp only [Option.mem_some_iff, forall_eq', hq, true_and]
      constructor
      · intro hall
        have hqt : Q t := hall [] List.nil_prefix t rfl
        exact ⟨(hiff hq).mp hqt, (ih hIt hqt ht).mp hall⟩
      · rintro ⟨hP, hmeet⟩
        exact (ih hIt ((hiff hq).mpr hP) ht).mpr hmeet

/-- The progress rule. If the action `a` is enabled in every state that satisfies `I`
and is not final, keeps `I` and lowers the measure `m`, then repeating it leads to a
final state. -/
theorem exists_run_of_measure {I final : σ → Prop} (m : σ → ℕ) (a : α)
    (h : ∀ s, I s → ¬ final s → ∃ t, step s a = some t ∧ I t ∧ m t < m s)
    {s : σ} (hs : I s) :
    ∃ n t, run step s (List.replicate n a) = some t ∧ I t ∧ final t := by
  induction hk : m s using Nat.strongRecOn generalizing s with
  | ind k ih =>
      by_cases hfinal : final s
      · exact ⟨0, s, rfl, hs, hfinal⟩
      · obtain ⟨t, hst, ht, hlt⟩ := h s hs hfinal
        obtain ⟨n, u, hrun, hu, hfu⟩ := ih (m t) (hk ▸ hlt) ht rfl
        exact ⟨n + 1, u, run_cons.mpr ⟨t, hst, hrun⟩, hu, hfu⟩

end Schedule

/-! ## Loops -/

section Loop

variable {σ β : Type*} (f : σ → σ)

/-- The loop reaches a state that counts as returned. -/
def Halts (returned : σ → Prop) (s : σ) : Prop := ∃ n, returned (f^[n] s)

/-- The value `g` of the loop's state is `x` from some iteration on. -/
def Settles (g : σ → β) (s : σ) (x : β) : Prop := ∃ N, ∀ n, N ≤ n → g (f^[n] s) = x

variable {f}

theorem iterate_invariant {I : σ → Prop} (hI : ∀ s, I s → I (f s)) {s : σ} (hs : I s)
    (n : ℕ) : I (f^[n] s) := by
  induction n with
  | zero => exact hs
  | succ n ih => rw [Function.iterate_succ_apply']; exact hI _ ih

/-- A state that has not returned halts if and only if the next one does. -/
theorem halts_step_iff {returned : σ → Prop} {s : σ} (hs : ¬ returned s) :
    Halts f returned s ↔ Halts f returned (f s) := by
  constructor
  · rintro ⟨n, hn⟩
    cases n with
    | zero => exact absurd hn hs
    | succ n => exact ⟨n, by rwa [Function.iterate_succ_apply] at hn⟩
  · rintro ⟨n, hn⟩
    exact ⟨n + 1, by rwa [Function.iterate_succ_apply]⟩

/-- A loop that halts, halts from each of its later states, if returning is final. -/
theorem halts_iterate {returned : σ → Prop} (hstay : ∀ t, returned t → returned (f t)) {s : σ}
    (h : Halts f returned s) (n : ℕ) : Halts f returned (f^[n] s) := by
  refine iterate_invariant (I := fun t => Halts f returned t) ?_ h n
  intro t ht
  by_cases hret : returned t
  · exact ⟨0, hstay t hret⟩
  · exact (halts_step_iff hret).mp ht

/-- A loop whose invariant excludes returning never halts. -/
theorem not_halts_of_invariant {returned I : σ → Prop} (hI : ∀ s, I s → I (f s))
    (hret : ∀ s, I s → ¬ returned s) {s : σ} (hs : I s) : ¬ Halts f returned s := by
  rintro ⟨n, hn⟩
  exact hret _ (iterate_invariant hI hs n) hn

theorem settles_step_iff {g : σ → β} {s : σ} {x : β} :
    Settles f g s x ↔ Settles f g (f s) x := by
  constructor
  · rintro ⟨N, hN⟩
    refine ⟨N, fun n hn => ?_⟩
    rw [← Function.iterate_succ_apply]
    exact hN _ (by omega)
  · rintro ⟨N, hN⟩
    refine ⟨N + 1, fun n hn => ?_⟩
    obtain ⟨m, rfl⟩ : ∃ m, n = m + 1 := ⟨n - 1, by omega⟩
    rw [Function.iterate_succ_apply]
    exact hN m (by omega)

theorem settles_unique {g : σ → β} {s : σ} {x y : β} (hx : Settles f g s x)
    (hy : Settles f g s y) : x = y := by
  obtain ⟨N, hN⟩ := hx
  obtain ⟨M, hM⟩ := hy
  rw [← hN (max N M) (Nat.le_max_left N M), hM (max N M) (Nat.le_max_right N M)]

/-- A value that an invariant fixes is settled from the start. -/
theorem settles_of_invariant {I : σ → Prop} {g : σ → β} {x : β} (hI : ∀ s, I s → I (f s))
    (hg : ∀ s, I s → g s = x) {s : σ} (hs : I s) : Settles f g s x := by
  exact ⟨0, fun n _ => hg _ (iterate_invariant hI hs n)⟩

end Loop

end CppHttp.Runs
