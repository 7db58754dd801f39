/-
A bounded first-in first-out channel between two parties, over an arbitrary type
of messages.

The channel has a capacity, a buffer, an open flag and a number of receives that
wait for a message. Its three operations are the ones a channel of an
asynchronous runtime has:

  * `put` hands the message to a waiting receive if there is one, buffers it if
    there is room, and refuses it otherwise (in particular when the channel is
    closed). A refused message is not stored.
  * `take` gives the oldest buffered message, waits on an empty open channel, and
    reports an empty closed one. Closing leaves buffered messages to take.
  * `close` ends all waiting receives and refuses every later `put`.

The two facts that keep the bookkeeping honest are fields of the type: the buffer
never exceeds the capacity, and a receive waits only on an empty open channel. So
a state in which a message is overtaken cannot be written down.
-/
import Mathlib.Data.List.Basic
import Mathlib.Tactic.Common

set_option autoImplicit false

namespace CppHttp.Channel

/-- A bounded channel. -/
structure BoundedChannel (α : Type*) where
  cap : ℕ
  buffer : List α
  is_open : Bool
  receivers : ℕ
  buffer_le : buffer.length ≤ cap
  waiting_empty : 0 < receivers → buffer = [] ∧ is_open = true

/-- What became of a message that was offered. -/
inductive put_result
  | handed
  | buffered
  | refused
  deriving DecidableEq, Repr

/-- What a receive found. -/
inductive take_result (α : Type*)
  | got (a : α)
  | waits
  | closed
  deriving DecidableEq, Repr

namespace BoundedChannel

section Operations

variable {α : Type*}

/-- A fresh open channel. -/
def make (α : Type*) (cap : ℕ) : BoundedChannel α where
  cap := cap
  buffer := []
  is_open := true
  receivers := 0
  buffer_le := Nat.zero_le _
  waiting_empty := fun h => absurd h (Nat.lt_irrefl 0)

/-- There is room for one more message: a receive waits, or the buffer of the
open channel is not full. -/
def HasRoom (ch : BoundedChannel α) : Prop :=
  ch.is_open = true ∧ (0 < ch.receivers ∨ ch.buffer.length < ch.cap)

instance (ch : BoundedChannel α) : Decidable ch.HasRoom :=
  inferInstanceAs (Decidable (_ ∧ _))

/-- Offer a message. -/
def put (ch : BoundedChannel α) (a : α) : put_result × BoundedChannel α :=
  if h : 0 < ch.receivers then
    (.handed, { ch with
      receivers := ch.receivers - 1
      waiting_empty := fun _ => ch.waiting_empty h })
  else if hroom : ch.is_open = true ∧ ch.buffer.length < ch.cap then
    (.buffered, { ch with
      buffer := ch.buffer ++ [a]
      buffer_le := by simp only [List.length_append, List.length_singleton]; omega
      waiting_empty := fun hw => absurd hw h })
  else (.refused, ch)

/-- Ask for a message. -/
def take (ch : BoundedChannel α) : take_result α × BoundedChannel α :=
  match hb : ch.buffer with
  | a :: rest =>
      (.got a, { ch with
        buffer := rest
        buffer_le := by have := ch.buffer_le; rw [hb] at this; simp at this; omega
        waiting_empty := fun hw => by
          have := (ch.waiting_empty hw).1; rw [hb] at this; cases this })
  | [] =>
      if ho : ch.is_open = true then
        (.waits, { ch with
          receivers := ch.receivers + 1
          waiting_empty := fun _ => ⟨hb, ho⟩ })
      else (.closed, ch)

/-- Close the channel. Buffered messages stay, waiting receives are ended. -/
def close (ch : BoundedChannel α) : BoundedChannel α :=
  { ch with
    is_open := false
    receivers := 0
    waiting_empty := fun h => absurd h (Nat.lt_irrefl 0) }

end Operations

/-! ## What the operations do -/

section Lemmas

variable {α : Type*} {ch : BoundedChannel α} {a : α}

@[simp] theorem close_buffer : ch.close.buffer = ch.buffer := rfl

/-- A refused message leaves the channel as it was. -/
theorem put_of_not_hasRoom (h : ¬ ch.HasRoom) : ch.put a = (.refused, ch) := by
  have hw : ¬ 0 < ch.receivers := fun hw => h ⟨(ch.waiting_empty hw).2, Or.inl hw⟩
  have hb : ¬ (ch.is_open = true ∧ ch.buffer.length < ch.cap) :=
    fun hb => h ⟨hb.1, Or.inr hb.2⟩
  simp only [put, dif_neg hw, dif_neg hb]

theorem put_cases {r : put_result} {ch' : BoundedChannel α} (h : ch.put a = (r, ch')) :
    (r = .handed ∧ ch.HasRoom ∧ 0 < ch.receivers ∧ ch.buffer = [] ∧ ch'.buffer = []
        ∧ ch'.receivers = ch.receivers - 1 ∧ ch.is_open = true ∧ ch'.is_open = true)
      ∨ (r = .buffered ∧ ch.HasRoom ∧ ch.receivers = 0 ∧ ch'.buffer = ch.buffer ++ [a]
        ∧ ch'.receivers = 0 ∧ ch.is_open = true ∧ ch'.is_open = true)
      ∨ (r = .refused ∧ ¬ ch.HasRoom ∧ ch' = ch) := by
  by_cases hr : ch.HasRoom
  · by_cases hw : 0 < ch.receivers
    · obtain ⟨hb, ho⟩ := ch.waiting_empty hw
      simp only [put, dif_pos hw, Prod.mk.injEq] at h
      obtain ⟨rfl, rfl⟩ := h
      exact Or.inl ⟨rfl, hr, hw, hb, hb, rfl, ho, ho⟩
    · have hb : ch.is_open = true ∧ ch.buffer.length < ch.cap :=
        ⟨hr.1, hr.2.resolve_left hw⟩
      have h0 : ch.receivers = 0 := by omega
      simp only [put, dif_neg hw, dif_pos hb, Prod.mk.injEq] at h
      obtain ⟨rfl, rfl⟩ := h
      exact Or.inr (Or.inl ⟨rfl, hr, h0, rfl, h0, hr.1, hr.1⟩)
  · rw [put_of_not_hasRoom hr, Prod.mk.injEq] at h
    obtain ⟨rfl, rfl⟩ := h
    exact Or.inr (Or.inr ⟨rfl, hr, rfl⟩)

theorem take_cases {r : take_result α} {ch' : BoundedChannel α} (h : ch.take = (r, ch')) :
    (∃ a, r = .got a ∧ ch.buffer = a :: ch'.buffer ∧ ch'.receivers = ch.receivers
        ∧ ch'.is_open = ch.is_open)
      ∨ (r = .waits ∧ ch.buffer = [] ∧ ch'.buffer = [] ∧ ch'.receivers = ch.receivers + 1
        ∧ ch.is_open = true ∧ ch'.is_open = true)
      ∨ (r = .closed ∧ ch.buffer = [] ∧ ch.is_open = false ∧ ch' = ch) := by
  unfold take at h
  split at h
  · next a rest hb =>
      rw [Prod.mk.injEq] at h
      obtain ⟨rfl, rfl⟩ := h
      exact Or.inl ⟨a, rfl, hb, rfl, rfl⟩
  · next hb =>
      by_cases ho : ch.is_open = true
      · rw [dif_pos ho, Prod.mk.injEq] at h
        obtain ⟨rfl, rfl⟩ := h
        exact Or.inr (Or.inl ⟨rfl, hb, hb, rfl, ho, ho⟩)
      · rw [dif_neg ho, Prod.mk.injEq] at h
        obtain ⟨rfl, rfl⟩ := h
        exact Or.inr (Or.inr ⟨rfl, hb, by simpa using ho, rfl⟩)

end Lemmas

end BoundedChannel

end CppHttp.Channel
