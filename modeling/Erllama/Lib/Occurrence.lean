import Mathlib.Data.List.Basic

namespace Erllama.Lib

/-!
# Looking for patterns in a text that arrives in pieces

A text is searched for the first of several patterns as it grows.  The searcher keeps a tail
back that is one letter shorter than the longest pattern; what is before the tail can never
be part of a match.

* `Free` — no pattern occurs; `Leftmost` — the occurrence a search finds: the first position,
  and there the longest pattern.
* `Free.start_of_append` — an occurrence in a longer text starts in the tail or after it.
* `Held` — the searcher found nothing yet: what it let go, and what it holds back.
* `Held.miss`, `Held.hit` — the next piece, searched together with the tail only.
-/

variable {α : Type*} {pats : List (List α)} {t c p : List α} {i m pos : Nat}

/-! ### Occurrences -/

/-- No pattern occurs in the text. -/
def Free (pats : List (List α)) (t : List α) : Prop := ∀ i, ∀ p ∈ pats, ¬ p <+: t.drop i

/-- The occurrence that a search finds: nothing starts before it, and nothing longer at it. -/
structure Leftmost (pats : List (List α)) (t : List α) (pos : Nat) (p : List α) : Prop where
  mem : p ∈ pats
  here : p <+: t.drop pos
  first : ∀ i < pos, ∀ p' ∈ pats, ¬ p' <+: t.drop i
  longest : ∀ p' ∈ pats, p' <+: t.drop pos → p'.length ≤ p.length

/-- An occurrence that ends inside the text is one of the text. -/
theorem prefix_drop_of_append (h : p <+: (t ++ c).drop i) (hlen : i + p.length ≤ t.length) :
    p <+: t.drop i := by
  rw [List.drop_append] at h
  refine List.prefix_of_prefix_length_le h (List.prefix_append _ _) ?_
  rw [List.length_drop]
  omega

/-- What is behind is as free. -/
theorem Free.drop (h : Free pats t) (n : Nat) : Free pats (t.drop n) := by
  intro i p hp hhere
  rw [List.drop_drop] at hhere
  exact h (n + i) p hp hhere

/-- The empty text is free of patterns that are not empty. -/
theorem Free.nil (hpats : ∀ p ∈ pats, p ≠ []) : Free pats [] := by
  intro i p hp hhere
  rw [List.drop_nil, List.prefix_nil] at hhere
  exact hpats p hp hhere

/-- A text with a match is not free. -/
theorem Leftmost.not_free (h : Leftmost pats t pos p) : ¬ Free pats t :=
  fun hfree => hfree pos p h.mem h.here

/-- A search finds one occurrence. -/
theorem Leftmost.unique {pos' : Nat} {p' : List α} (h : Leftmost pats t pos p)
    (h' : Leftmost pats t pos' p') : pos' = pos ∧ p' = p := by
  obtain hlt | rfl | hlt := Nat.lt_trichotomy pos pos'
  · exact absurd h.here (h'.first pos hlt p h.mem)
  · have hle := h.longest p' h'.mem h'.here
    have hge := h'.longest p h.mem h.here
    refine ⟨rfl, ?_⟩
    exact (List.prefix_of_prefix_length_le h'.here h.here hle).eq_of_length (by omega)
  · exact absurd h'.here (h.first pos' hlt p' h'.mem)

/-- The pattern that was found, searched for alone, is found at the same place. -/
theorem Leftmost.single (h : Leftmost pats t pos p) : Leftmost [p] t pos p where
  mem := List.mem_singleton_self p
  here := h.here
  first i hi _ hp' := List.mem_singleton.mp hp' ▸ h.first i hi p h.mem
  longest _ hp' _ := Nat.le_of_eq (congrArg List.length (List.mem_singleton.mp hp'))

/-! ### The tail -/

/-- Where nothing occurred, an occurrence in a continuation starts in the last `m` letters. -/
theorem Free.start_of_append (h : Free pats t) (hlen : ∀ p ∈ pats, p.length ≤ m + 1)
    (hp : p ∈ pats) (hhere : p <+: (t ++ c).drop i) : t.length - m ≤ i := by
  by_contra hlt
  have hshort := hlen p hp
  exact h i p hp (prefix_drop_of_append hhere (by omega))

/-- Searching from a position that no occurrence starts before. -/
theorem Leftmost.of_drop {n : Nat} (hbefore : ∀ i < n, ∀ p ∈ pats, ¬ p <+: t.drop i)
    (h : Leftmost pats (t.drop n) pos p) : Leftmost pats t (n + pos) p where
  mem := h.mem
  here := by
    rw [← List.drop_drop]
    exact h.here
  first i hi p' hp' := by
    rcases Nat.lt_or_ge i n with hlt | hge
    · exact hbefore i hlt p' hp'
    · have hfirst := h.first (i - n) (by omega) p' hp'
      rwa [List.drop_drop, show n + (i - n) = i by omega] at hfirst
  longest p' hp' hhere := by
    rw [← List.drop_drop] at hhere
    exact h.longest p' hp' hhere

/-- A text is free if nothing matches in its front and the rest is free. -/
theorem Free.of_drop {n : Nat} (hbefore : ∀ i < n, ∀ p ∈ pats, ¬ p <+: t.drop i)
    (h : Free pats (t.drop n)) : Free pats t := by
  intro i p hp hhere
  rcases Nat.lt_or_ge i n with hlt | hge
  · exact hbefore i hlt p hp hhere
  · refine h (i - n) p hp ?_
    rwa [List.drop_drop, show n + (i - n) = i by omega]

/-! ### The searcher -/

/-- The searcher has found nothing in `t`: it let go of `sent` and keeps `pending`, the last
    `m` letters. -/
structure Held (pats : List (List α)) (m : Nat) (t sent pending : List α) : Prop where
  free : Free pats t
  sent : sent = t.take (t.length - m)
  pending : pending = t.drop (t.length - m)

namespace Held

variable {sent pending : List α}

/-- What was sent and what is held back make up the text. -/
theorem append_eq (h : Held pats m t sent pending) : sent ++ pending = t := by
  rw [h.sent, h.pending, List.take_append_drop]

/-- Before anything arrived. -/
theorem start (hpats : ∀ p ∈ pats, p ≠ []) (m : Nat) : Held pats m [] [] [] := by
  refine ⟨.nil hpats, ?_, ?_⟩
  · rw [List.take_nil]
  · rw [List.drop_nil]

/-- The tail and the next piece are the end of the text from where the tail starts. -/
theorem pending_append (h : Held pats m t sent pending) (c : List α) :
    pending ++ c = (t ++ c).drop (t.length - m) := by
  rw [h.pending, List.drop_append_of_le_length (Nat.sub_le _ _)]

/-- Nothing starts in what the searcher let go. -/
theorem before (h : Held pats m t sent pending) (hlen : ∀ p ∈ pats, p.length ≤ m + 1)
    (c : List α) : ∀ i < t.length - m, ∀ p ∈ pats, ¬ p <+: (t ++ c).drop i := by
  intro i hi p hp hhere
  have hstart := h.free.start_of_append hlen hp hhere
  omega

/-- **What was let go is before any match** of any continuation. -/
theorem sent_prefix (h : Held pats m t sent pending) (hlen : ∀ p ∈ pats, p.length ≤ m + 1)
    (hmatch : Leftmost pats (t ++ c) pos p) : sent <+: (t ++ c).take pos := by
  have hstart := h.free.start_of_append hlen hmatch.mem hmatch.here
  have hsent : sent = (t ++ c).take (t.length - m) := by
    rw [h.sent, List.take_append_of_le_length (Nat.sub_le _ _)]
  rw [hsent]
  exact List.take_prefix_take_left hstart

/-- **Nothing in the tail and the next piece**: nothing in the text, and the searcher keeps the
    last letters of the two. -/
theorem miss (h : Held pats m t sent pending) (hlen : ∀ p ∈ pats, p.length ≤ m + 1)
    (hfree : Free pats (pending ++ c)) :
    Held pats m (t ++ c) (sent ++ (pending ++ c).take ((pending ++ c).length - m))
      ((pending ++ c).drop ((pending ++ c).length - m)) := by
  have hkeep : t.length - m + ((pending ++ c).length - m) = (t ++ c).length - m := by
    rw [h.pending_append, List.length_drop, List.length_append]
    omega
  rw [h.pending_append] at hfree hkeep ⊢
  refine ⟨.of_drop (h.before hlen c) hfree, ?_, ?_⟩
  · have hsent : sent = (t ++ c).take (t.length - m) := by
      rw [h.sent, List.take_append_of_le_length (Nat.sub_le _ _)]
    rw [hsent, ← List.take_add, hkeep]
  · rw [List.drop_drop, hkeep]

/-- **A match in the tail and the next piece** is the match in the text. -/
theorem hit (h : Held pats m t sent pending) (hlen : ∀ p ∈ pats, p.length ≤ m + 1)
    (hmatch : Leftmost pats (pending ++ c) pos p) :
    Leftmost pats (t ++ c) (t.length - m + pos) p ∧
      sent ++ (pending ++ c).take pos = (t ++ c).take (t.length - m + pos) := by
  rw [h.pending_append] at hmatch ⊢
  refine ⟨.of_drop (h.before hlen c) hmatch, ?_⟩
  have hsent : sent = (t ++ c).take (t.length - m) := by
    rw [h.sent, List.take_append_of_le_length (Nat.sub_le _ _)]
  rw [hsent, ← List.take_add]

end Held

end Erllama.Lib
