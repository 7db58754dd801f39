/-
A main process and the processes it spawns, over arbitrary types of states and moves.

The main process moves by `main`, and some of its moves spawn a process in the state
`fresh`; the processes move by `proc`. A schedule interleaves them in any order, and nothing
is shared but what the schedule itself says.

Such a run is made of separate runs: the main process goes through a run of its own
(`run_main`), and so does each process (`run_proc`). So what a process keeps by itself, it
keeps among all others (`procs_invariant`).
-/
import Mathlib.Data.List.Basic
import CppHttp.Runs

set_option autoImplicit false

namespace CppHttp.Spawning

open CppHttp.Runs

section System

variable {κ β σ α : Type*}

/-! ## The system -/

/-- The main process and the processes, in the order they were spawned in. -/
structure system (κ σ : Type*) where
  main : κ
  procs : List σ

/-- Who moves. -/
inductive move (β α : Type*)
  | main (b : β)
  | proc (i : ℕ) (a : α)
  deriving DecidableEq, Repr

variable (main : κ → β → Option κ) (spawns : κ → β → Bool) (proc : σ → α → Option σ) (fresh : σ)

/-- One move. -/
def step (s : system κ σ) : move β α → Option (system κ σ)
  | .main b =>
      (main s.main b).map fun m =>
        { main := m, procs := if spawns s.main b then s.procs ++ [fresh] else s.procs }
  | .proc i a =>
      (s.procs[i]?).bind fun p =>
        (proc p a).map fun p' => { s with procs := s.procs.set i p' }

/-- The moves of the main process. -/
def main_moves (acts : List (move β α)) : List β :=
  acts.filterMap fun
    | .main b => some b
    | .proc _ _ => none

/-- The moves of the `i`-th process. -/
def moves_of (i : ℕ) (acts : List (move β α)) : List α :=
  acts.filterMap fun
    | .main _ => none
    | .proc j a => if j = i then some a else none

/-- How many processes a run of the main process spawns. -/
def spawned : κ → List β → ℕ
  | _, [] => 0
  | m, b :: bs =>
      (if spawns m b then 1 else 0) + (main m b).elim 0 fun m' => spawned m' bs

variable {main spawns proc fresh}

/-! ## A run is made of separate runs -/

/-- What a run of the main process spawns, with one move more. -/
theorem spawned_concat {m m' : κ} {bs : List β} (hrun : run main m bs = some m') {b : β}
    (hb : (main m' b).isSome = true) :
    spawned main spawns m (bs ++ [b])
      = spawned main spawns m bs + if spawns m' b then 1 else 0 := by
  induction bs generalizing m with
  | nil =>
      obtain rfl := Option.some.inj hrun
      obtain ⟨u, hu⟩ := Option.isSome_iff_exists.mp hb
      simp [spawned, hu]
  | cons c bs ih =>
      obtain ⟨u, hst, hu⟩ := run_cons.mp hrun
      rw [List.cons_append, spawned, spawned, hst, Option.elim_some, Option.elim_some, ih hu,
        Nat.add_assoc]

/-- The main process does not see the others. -/
theorem run_main {s t : system κ σ} {acts : List (move β α)}
    (hrun : run (step main spawns proc fresh) s acts = some t) :
    run main s.main (main_moves acts) = some t.main
      ∧ t.procs.length = s.procs.length + spawned main spawns s.main (main_moves acts) := by
  induction acts generalizing s with
  | nil =>
      obtain rfl := Option.some.inj hrun
      exact ⟨rfl, rfl⟩
  | cons act acts ih =>
      obtain ⟨u, hst, hu⟩ := run_cons.mp hrun
      obtain ⟨hmain, hlen⟩ := ih hu
      cases act with
      | main b =>
          obtain ⟨m, hm, rfl⟩ := Option.map_eq_some_iff.mp hst
          refine ⟨run_cons.mpr ⟨m, hm, hmain⟩, ?_⟩
          have hmoves : main_moves (.main b :: acts) = b :: main_moves acts := rfl
          rw [hlen, hmoves, spawned, hm, Option.elim_some]
          by_cases hspawns : spawns s.main b = true
          · simp only [hspawns, if_true, List.length_append, List.length_singleton]
            exact Nat.add_assoc _ _ _
          · simp only [hspawns, Bool.false_eq_true, if_false, Nat.zero_add]
      | proc i a =>
          obtain ⟨p, -, hp⟩ := Option.bind_eq_some_iff.mp hst
          obtain ⟨p', -, rfl⟩ := Option.map_eq_some_iff.mp hp
          refine ⟨hmain, ?_⟩
          rw [hlen, List.length_set]
          rfl

/-- The state a process is in, or will be spawned in. -/
def state_of (fresh : σ) (s : system κ σ) (i : ℕ) : σ := (s.procs[i]?).getD fresh

/-- What a move leaves of the `i`-th process: its own move moves it, and no other does. -/
theorem state_of_step {s t : system κ σ} {act : move β α}
    (hst : step main spawns proc fresh s act = some t) (i : ℕ) :
    (∃ a, act = .proc i a ∧ proc (state_of fresh s i) a = some (state_of fresh t i))
      ∨ ((∀ a, act ≠ .proc i a) ∧ state_of fresh t i = state_of fresh s i) := by
  cases act with
  | main b =>
      obtain ⟨m, -, rfl⟩ := Option.map_eq_some_iff.mp hst
      refine .inr ⟨by simp, ?_⟩
      unfold state_of
      by_cases hspawns : spawns s.main b = true
      · simp only [hspawns, if_true]
        -- a new process is in the state it was said to be spawned in
        rcases Nat.lt_trichotomy i s.procs.length with hlt | rfl | hgt
        · rw [List.getElem?_append_left hlt]
        · simp
        · rw [List.getElem?_eq_none (by simp; omega), List.getElem?_eq_none (by omega)]
      · simp only [hspawns]
        rfl
  | proc j a =>
      obtain ⟨p, hget, hp⟩ := Option.bind_eq_some_iff.mp hst
      obtain ⟨p', hp', rfl⟩ := Option.map_eq_some_iff.mp hp
      by_cases hji : j = i
      · subst hji
        refine .inl ⟨a, rfl, ?_⟩
        have hlt : j < s.procs.length := (List.getElem?_eq_some_iff.mp hget).1
        unfold state_of
        rw [hget, List.getElem?_set_self hlt]
        exact hp'
      · refine .inr ⟨?_, ?_⟩
        · intro a' heq
          rw [move.proc.injEq] at heq
          exact hji heq.1
        · unfold state_of
          rw [List.getElem?_set_ne hji]

/-- **Each process goes through a run of its own**, on its own moves. -/
theorem run_proc {s t : system κ σ} {acts : List (move β α)}
    (hrun : run (step main spawns proc fresh) s acts = some t) (i : ℕ) :
    run proc (state_of fresh s i) (moves_of i acts) = some (state_of fresh t i) := by
  induction acts generalizing s with
  | nil =>
      obtain rfl := Option.some.inj hrun
      rfl
  | cons act acts ih =>
      obtain ⟨u, hst, hu⟩ := run_cons.mp hrun
      have hrest := ih hu
      rcases state_of_step hst i with ⟨a, rfl, hproc⟩ | ⟨hother, hsame⟩
      · have hmoves : moves_of i (.proc i a :: acts) = a :: moves_of i acts := by
          simp [moves_of]
        rw [hmoves]
        exact run_cons.mpr ⟨_, hproc, hrest⟩
      · have hmoves : moves_of i (act :: acts) = moves_of i acts := by
          cases act with
          | main b => rfl
          | proc j a =>
              have hji : j ≠ i := fun h => hother a (h ▸ rfl)
              simp [moves_of, hji]
        rw [hmoves, ← hsame]
        exact hrest

/-- What a process keeps, it keeps among all others. -/
theorem procs_invariant {I : σ → Prop} (hfresh : I fresh)
    (hproc : ∀ p a p', I p → proc p a = some p' → I p') {m : κ} {t : system κ σ}
    {acts : List (move β α)}
    (hrun : run (step main spawns proc fresh) { main := m, procs := [] } acts = some t) :
    ∀ p ∈ t.procs, I p := by
  intro p hp
  obtain ⟨i, hi⟩ := List.getElem?_of_mem hp
  have hown := run_proc hrun i
  have hstate : state_of fresh t i = p := by
    unfold state_of
    rw [hi]
    rfl
  rw [hstate] at hown
  exact run_invariant hproc hfresh hown

end System

end CppHttp.Spawning
