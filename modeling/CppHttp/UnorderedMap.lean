/-
`std::unordered_map`, over arbitrary keys and values.

The map is the list of its entries in the order they were inserted, together with
the proof that no key occurs twice; the order is not observable through the
operations below. `emplace` leaves a key that is present alone, so of several values
emplaced under one key the *first* is found (`find_emplace`).
-/
import Mathlib.Data.List.Nodup
import Mathlib.Tactic.Common

set_option autoImplicit false

namespace CppHttp.UnorderedMap

variable {κ α : Type*} [DecidableEq κ]

/-- A map from keys to values. -/
structure unordered_map (κ α : Type*) where
  /-- The entries. -/
  entries : List (κ × α) := []
  /-- One entry a key. -/
  nodup : (entries.map Prod.fst).Nodup := by exact List.nodup_nil

/-- `m.find(key)`. -/
def unordered_map.find (m : unordered_map κ α) (key : κ) : Option α :=
  m.entries.lookup key

/-- `m.emplace(key, value)`: nothing happens if the key is present. -/
def unordered_map.emplace (m : unordered_map κ α) (key : κ) (value : α) :
    unordered_map κ α :=
  if h : key ∈ m.entries.map Prod.fst then m
  else
    { entries := m.entries ++ [(key, value)]
      nodup := by
        rw [List.map_append, List.map_singleton, List.nodup_append]
        refine ⟨m.nodup, List.nodup_singleton key, ?_⟩
        intro k hk k' hk' heq
        rw [List.mem_singleton] at hk'
        rw [heq, hk'] at hk
        exact h hk }

theorem find_eq_none_iff (m : unordered_map κ α) (key : κ) :
    m.find key = none ↔ key ∉ m.entries.map Prod.fst := by
  unfold unordered_map.find
  rw [List.lookup_eq_none_iff]
  simp only [List.mem_map, not_exists, not_and, bne_iff_ne, ne_eq]
  constructor
  · intro h p hp heq
    exact h p hp heq.symm
  · intro h p hp heq
    exact h p hp heq.symm

/-- What `emplace` changes: the key itself, if it was absent. -/
theorem find_emplace (m : unordered_map κ α) (key key' : κ) (value : α) :
    (m.emplace key value).find key'
      = (m.find key').or (if key' = key then some value else none) := by
  by_cases hmem : key ∈ m.entries.map Prod.fst
  · rw [unordered_map.emplace, dif_pos hmem]
    by_cases hkey : key' = key
    · subst hkey
      -- the key is present, so the second alternative is never reached
      cases hf : m.find key' with
      | none => exact absurd hmem ((find_eq_none_iff m key').mp hf)
      | some v => rfl
    · rw [if_neg hkey, Option.or_none]
  · rw [unordered_map.emplace, dif_neg hmem]
    unfold unordered_map.find
    rw [List.lookup_append]
    by_cases hkey : key' = key
    · rw [if_pos hkey, hkey, List.lookup_cons_self]
    · have hbeq : (key' == key) = false := by simpa using hkey
      rw [if_neg hkey, List.lookup_cons, hbeq, List.lookup_nil]

end CppHttp.UnorderedMap
