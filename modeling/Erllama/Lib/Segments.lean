import Mathlib.Control.Lawful
import Mathlib.Data.List.Basic

namespace Erllama.Lib

/-!
# Readers of concatenated segments

A binary format is read from the front: each field takes a fixed or announced number of
symbols and leaves the rest.  `Reader α β` is such a function with failure; `do` sequences
readers.

* `Reads r w b` — the reader takes exactly `w` off the front and gives `b`, whatever follows.
* `Reads.bind`, `Reads.bind_pure` — how that composes: the words are concatenated.
* `Reader.one`, `Reader.take`, `Reader.literal` — the three primitive readers.
* `Takes r n` — where the reader succeeds, it takes exactly `n` symbols, whatever follows.

A round trip of a format is one `Reads` of its writer's output, assembled field by field.
-/

variable {α β γ : Type}

/-- A reader takes a value off the front of a list, or fails. -/
abbrev Reader (α : Type) := StateT (List α) Option

/-- The reader takes exactly `w` off the front and gives `b`, whatever follows. -/
def Reads (r : Reader α β) (w : List α) (b : β) : Prop :=
  ∀ rest, r.run (w ++ rest) = some (b, rest)

namespace Reader

/-- Take one symbol. -/
def one : Reader α α := fun l =>
  match l with
  | a :: rest => some (a, rest)
  | []        => none

/-- Take `n` symbols. -/
def take (n : Nat) : Reader α (List α) := fun l =>
  if n ≤ l.length then some (l.take n, l.drop n) else none

/-- Take exactly this word. -/
def literal [DecidableEq α] (w : List α) : Reader α Unit := fun l =>
  if l.take w.length = w then some ((), l.drop w.length) else none

end Reader

namespace Reads

/-- One reader after another. -/
theorem bind {r : Reader α β} {f : β → Reader α γ} {w v : List α} {b : β} {c : γ}
    (hr : Reads r w b) (hf : Reads (f b) v c) : Reads (r >>= f) (w ++ v) c := by
  intro rest
  rw [List.append_assoc, StateT.run_bind, hr (v ++ rest)]
  exact hf rest

/-- A reader whose result is changed. -/
theorem bind_pure {r : Reader α β} {w : List α} {b : β} (f : β → γ) (hr : Reads r w b) :
    Reads (r >>= fun x => Pure.pure (f x)) w (f b) := by
  intro rest
  rw [StateT.run_bind, hr rest]
  rfl

/-- One symbol. -/
theorem one (a : α) : Reads Reader.one [a] a := fun _ => rfl

/-- A number of symbols. -/
theorem take {n : Nat} {w : List α} (h : w.length = n) : Reads (Reader.take n) w w := by
  intro rest
  have hle : n ≤ (w ++ rest).length := by
    rw [List.length_append]
    omega
  show (if n ≤ (w ++ rest).length then some ((w ++ rest).take n, (w ++ rest).drop n) else none)
    = some (w, rest)
  rw [if_pos hle, ← h, List.take_left, List.drop_left]

/-- A fixed word. -/
theorem literal [DecidableEq α] (w : List α) : Reads (Reader.literal w) w () := by
  intro rest
  show (if (w ++ rest).take w.length = w then some ((), (w ++ rest).drop w.length) else none)
    = some ((), rest)
  rw [if_pos (List.take_left ..), List.drop_left]

end Reads

/-! ### How much a reader takes -/

/-- Where the reader succeeds, it read a word of `n` symbols, and reads it before anything. -/
def Takes (r : Reader α β) (n : Nat) : Prop :=
  ∀ l b rest, r.run l = some (b, rest) → ∃ w, w.length = n ∧ l = w ++ rest ∧ Reads r w b

namespace Takes

/-- One reader after another. -/
theorem bind {r : Reader α β} {f : β → Reader α γ} {m n : Nat} (hr : Takes r m)
    (hf : ∀ b, Takes (f b) n) : Takes (r >>= f) (m + n) := by
  intro l c rest h
  rw [StateT.run_bind] at h
  obtain ⟨⟨b, mid⟩, hb, hc⟩ := Option.bind_eq_some_iff.mp h
  obtain ⟨w, hw, hl, hread⟩ := hr l b mid hb
  obtain ⟨v, hv, hmid, hread'⟩ := hf b mid c rest hc
  refine ⟨w ++ v, ?_, ?_, hread.bind hread'⟩
  · rw [List.length_append, hw, hv]
  · rw [hl, hmid, List.append_assoc]

/-- A reader whose result is changed. -/
theorem bind_pure {r : Reader α β} {n : Nat} (hr : Takes r n) (f : β → γ) :
    Takes (r >>= fun x => Pure.pure (f x)) n := by
  intro l c rest h
  rw [StateT.run_bind] at h
  obtain ⟨⟨b, mid⟩, hb, hc⟩ := Option.bind_eq_some_iff.mp h
  obtain ⟨rfl, rfl⟩ := Prod.mk.inj (Option.some.inj hc)
  obtain ⟨w, hw, hl, hread⟩ := hr l b mid hb
  exact ⟨w, hw, hl, hread.bind_pure f⟩

/-- One symbol. -/
theorem one : Takes (Reader.one : Reader α α) 1 := by
  intro l b rest h
  cases l with
  | nil      => cases h
  | cons a l =>
    obtain ⟨rfl, rfl⟩ := Prod.mk.inj (Option.some.inj h)
    exact ⟨[a], rfl, rfl, Reads.one a⟩

/-- A number of symbols. -/
theorem take (n : Nat) : Takes (Reader.take n : Reader α (List α)) n := by
  intro l b rest h
  have h' : (if n ≤ l.length then some (l.take n, l.drop n) else none) = some (b, rest) := h
  split at h'
  · rename_i hle
    obtain ⟨rfl, rfl⟩ := Prod.mk.inj (Option.some.inj h')
    have hlen : (l.take n).length = n := List.length_take_of_le hle
    exact ⟨l.take n, hlen, (List.take_append_drop n l).symm, Reads.take hlen⟩
  · cases h'

/-- A fixed word. -/
theorem literal [DecidableEq α] (w : List α) : Takes (Reader.literal w) w.length := by
  intro l b rest h
  have h' : (if l.take w.length = w then some ((), l.drop w.length) else none) =
      some (b, rest) := h
  split at h'
  · rename_i heq
    obtain ⟨-, rfl⟩ := Prod.mk.inj (Option.some.inj h')
    refine ⟨w, rfl, ?_, Reads.literal w⟩
    conv_lhs => rw [← List.take_append_drop w.length l, heq]
  · cases h'

end Takes

end Erllama.Lib
