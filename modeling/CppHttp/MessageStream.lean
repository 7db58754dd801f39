/-
Messages that stand one behind the other on a connection.

A recipient finds the end of a message from the bytes, and from what it knows about the
message beforehand, the `context`: for a response this is the request it answers. If it is
wrong about one end, everything behind it is read from the wrong place.

`InStep` says that this never happens: each message is read from where it begins, as it was
sent, and nothing behind its end is taken. `inStep_iff` reduces that to the single
messages, and `read_all_of_inStep` says what it is good for: the recipient's loop gets
exactly the messages and is left with what comes behind the last one.

The bytes arrive in pieces, which do not end where the messages do. A recipient that keeps
what it has not used in a buffer (`inbound.read_next`) does not see where they were cut:
`read_next_eq` says that it reads what it would read from all bytes at once.
-/
import Mathlib.Data.List.Basic
import Mathlib.Tactic.Common

set_option autoImplicit false

namespace CppHttp.MessageStream

variable {κ α β γ : Type*}

/-- A message as it was sent: what is known of it beforehand, what it says, and its bytes. -/
structure sent (κ α β : Type*) where
  context : κ
  message : β
  bytes : List α

/-- The bytes of the messages. -/
def line (ms : List (sent κ α β)) : List α := ms.flatMap sent.bytes

@[simp] theorem line_cons (m : sent κ α β) (ms : List (sent κ α β)) :
    line (m :: ms) = m.bytes ++ line ms := List.flatMap_cons

/-- Reading a message: what it says, and what is behind it. -/
abbrev recipient (κ α β : Type*) := κ → List α → Option (β × List α)

variable (read : recipient κ α β)

/-- Reading a message for each of the contexts. -/
def read_all : List κ → List α → Option (List β × List α)
  | [], s => some ([], s)
  | k :: ks, s =>
      (read k s).bind fun m => (read_all ks m.2).map fun ms => (m.1 :: ms.1, ms.2)

/-- The recipient reads the message in front of `rest`, and leaves just that. -/
def sent.ReadBefore (m : sent κ α β) (rest : List α) : Prop :=
  read m.context (m.bytes ++ rest) = some (m.message, rest)

/-- Each message is read from where it begins to where it ends. -/
def InStep : List (sent κ α β) → List α → Prop
  | [], _ => True
  | m :: ms, rest => m.ReadBefore read (line ms ++ rest) ∧ InStep ms rest

variable {read}

/-- **A recipient in step gets all messages**, and is left with what is behind them. -/
theorem read_all_of_inStep {ms : List (sent κ α β)} {rest : List α} (h : InStep read ms rest) :
    read_all read (ms.map sent.context) (line ms ++ rest)
      = some (ms.map sent.message, rest) := by
  induction ms with
  | nil => rfl
  | cons m ms ih =>
      obtain ⟨hm, hms⟩ := h
      have hread : read m.context (m.bytes ++ (line ms ++ rest))
          = some (m.message, line ms ++ rest) := hm
      rw [line_cons, List.append_assoc, List.map_cons, read_all, hread, Option.bind_some,
        ih hms]
      rfl

/-- If nothing can be read where nothing is left, and every message is read in the same way,
only the messages can be read, in order. -/
theorem prefix_of_read_all [Subsingleton κ] (hempty : ∀ k, read k [] = none)
    {ms : List (sent κ α β)} (h : InStep read ms []) {ks : List κ} {got : List β}
    {rest : List α} (hread : read_all read ks (line ms) = some (got, rest)) :
    got <+: ms.map sent.message := by
  induction ks generalizing ms got with
  | nil =>
      obtain ⟨rfl, -⟩ := Prod.mk.inj (Option.some.inj hread)
      exact List.nil_prefix
  | cons k ks ih =>
      obtain ⟨⟨b, rest'⟩, hone, hall⟩ := Option.bind_eq_some_iff.mp hread
      obtain ⟨⟨got', rest''⟩, hmore, heq⟩ := Option.map_eq_some_iff.mp hall
      obtain ⟨rfl, rfl⟩ := Prod.mk.inj heq
      cases ms with
      | nil =>
          rw [line, List.flatMap_nil, hempty] at hone
          cases hone
      | cons m ms =>
          obtain ⟨hm, hms⟩ := h
          have hfirst : read m.context (m.bytes ++ (line ms ++ []))
              = some (m.message, line ms ++ []) := hm
          rw [List.append_nil, Subsingleton.elim m.context k, ← line_cons, hone] at hfirst
          obtain ⟨rfl, rfl⟩ := Prod.mk.inj (Option.some.inj hfirst)
          exact List.prefix_cons_inj _ |>.mpr (ih hms hmore)

/-- Reading goes on where it has stopped. -/
theorem read_all_append_iff {ks ks' : List κ} {got got' : List β} (hlen : got.length = ks.length)
    {s rest : List α} :
    read_all read (ks ++ ks') s = some (got ++ got', rest)
      ↔ ∃ mid, read_all read ks s = some (got, mid)
        ∧ read_all read ks' mid = some (got', rest) := by
  induction ks generalizing got s with
  | nil =>
      obtain rfl := List.eq_nil_of_length_eq_zero hlen
      simp [read_all]
  | cons k ks ih =>
      cases got with
      | nil => cases hlen
      | cons b got =>
          have hless : got.length = ks.length := by simpa using hlen
          rw [List.cons_append, List.cons_append, read_all, read_all]
          cases read k s with
          | none => simp
          | some m =>
              rw [Option.bind_some, Option.bind_some]
              constructor
              · intro h
                obtain ⟨⟨more, rest'⟩, hmore, heq⟩ := Option.map_eq_some_iff.mp h
                obtain ⟨hcons, rfl⟩ := Prod.mk.inj heq
                obtain ⟨rfl, rfl⟩ := List.cons.inj hcons
                obtain ⟨mid, hmid, hend⟩ := (ih hless).mp hmore
                exact ⟨mid, by rw [hmid]; rfl, hend⟩
              · rintro ⟨mid, hmid, hend⟩
                obtain ⟨⟨more, mid'⟩, hmore, heq⟩ := Option.map_eq_some_iff.mp hmid
                obtain ⟨hcons, rfl⟩ := Prod.mk.inj heq
                obtain ⟨rfl, rfl⟩ := List.cons.inj hcons
                rw [(ih hless).mpr ⟨mid', hmore, hend⟩]
                rfl

/-- If it depends on a message alone whether it is read in front of anything, a recipient
is in step exactly if all messages are such. The messages are those of some `gs`. -/
theorem inStep_iff {R : γ → sent κ α β → Prop} {P : γ → Prop} {gs : List γ}
    {ms : List (sent κ α β)} (hR : List.Forall₂ R gs ms)
    (h : ∀ g ∈ gs, ∀ m, R g m → ∀ rest, m.ReadBefore read rest ↔ P g) (rest : List α) :
    InStep read ms rest ↔ ∀ g ∈ gs, P g := by
  induction hR with
  | nil => simp [InStep]
  | @cons g m gs ms hm _ ih =>
      obtain ⟨hg, hgs⟩ := List.forall_mem_cons.mp h
      rw [InStep, hg m hm, ih hgs, List.forall_mem_cons]

/-! ## Bytes that arrive in pieces -/

/-- A recipient that has found the end of a message does not look behind it. -/
def Incremental (read : recipient κ α β) : Prop :=
  ∀ k s m rest, read k s = some (m, rest) → ∀ more, read k (s ++ more) = some (m, rest ++ more)

theorem read_all_more (h : Incremental read) {ks : List κ} {got : List β} {s rest : List α}
    (hread : read_all read ks s = some (got, rest)) (more : List α) :
    read_all read ks (s ++ more) = some (got, rest ++ more) := by
  induction ks generalizing s got with
  | nil =>
      obtain ⟨rfl, rfl⟩ := Prod.mk.inj (Option.some.inj hread)
      rfl
  | cons k ks ih =>
      obtain ⟨⟨b, rest'⟩, hone, hall⟩ := Option.bind_eq_some_iff.mp hread
      obtain ⟨⟨got', rest''⟩, hmore, heq⟩ := Option.map_eq_some_iff.mp hall
      obtain ⟨rfl, rfl⟩ := Prod.mk.inj heq
      rw [read_all, h k s b rest' hone more, Option.bind_some, ih hmore]
      rfl

/-- What is in the buffer, and the pieces that have not been taken from the connection. -/
structure inbound (α : Type*) where
  buffer : List α
  pending : List (List α)

/-- The bytes that have not been used. -/
def inbound.text (i : inbound α) : List α := i.buffer ++ i.pending.flatten

/-- Pieces are taken until there is a message in the buffer. -/
def read_buffered (read : recipient κ α β) (k : κ) :
    List α → List (List α) → Option (β × inbound α)
  | buffer, [] => (read k buffer).map fun m => (m.1, { buffer := m.2, pending := [] })
  | buffer, piece :: pending =>
      match read k buffer with
      | some m => some (m.1, { buffer := m.2, pending := piece :: pending })
      | none => read_buffered read k (buffer ++ piece) pending

/-- Reading one message. What is behind it stays in the buffer. -/
def inbound.read_next (read : recipient κ α β) (k : κ) (i : inbound α) :
    Option (β × inbound α) :=
  read_buffered read k i.buffer i.pending

/-- **The cuts make no difference**: the next message is the one in front of all bytes, and
what is left is what is behind it. -/
theorem read_next_eq (h : Incremental read) (k : κ) (i : inbound α) :
    (i.read_next read k).map (fun m => (m.1, m.2.text)) = read k i.text := by
  obtain ⟨buffer, pending⟩ := i
  unfold inbound.read_next inbound.text
  induction pending generalizing buffer with
  | nil =>
      dsimp only
      rw [read_buffered, List.flatten_nil, List.append_nil]
      cases read k buffer with
      | none => rfl
      | some m => simp
  | cons piece pending ih =>
      rw [read_buffered]
      cases hread : read k buffer with
      | none =>
          dsimp only at ih ⊢
          rw [ih, List.flatten_cons, List.append_assoc]
      | some m => exact (h k buffer m.1 m.2 hread _).symm

/-- A message that is in front of the bytes is read. -/
theorem read_next_of_read (h : Incremental read) {k : κ} {i : inbound α} {m : β} {rest : List α}
    (hread : read k i.text = some (m, rest)) :
    ∃ i', i.read_next read k = some (m, i') ∧ i'.text = rest := by
  rw [← read_next_eq h] at hread
  obtain ⟨⟨m', i'⟩, hnext, heq⟩ := Option.map_eq_some_iff.mp hread
  obtain ⟨rfl, rfl⟩ := Prod.mk.inj heq
  exact ⟨i', hnext, rfl⟩

theorem read_of_read_next (h : Incremental read) {k : κ} {i i' : inbound α} {m : β}
    (hnext : i.read_next read k = some (m, i')) : read k i.text = some (m, i'.text) := by
  rw [← read_next_eq h, hnext]
  rfl

end CppHttp.MessageStream
