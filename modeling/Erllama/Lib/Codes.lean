import Mathlib.Data.List.Basic

namespace Erllama.Lib

/-!
# Codes whose words can be cut off the front

A list is encoded by writing the word of each item, with nothing between the words.

* `Instant f` — no word is empty, and a word is found at the front whatever follows it.
* `Instant.of_length`, `Instant.of_terminator` — words of one width, and words that end in a
  mark of their own.
* `Instant.flatMap_eq_iff` — a concatenation has one list of words.
* `Instant.flatMap_append` — a concatenation that starts another one is that of its first words.
-/

variable {α β : Type*} {f : α → List β}

/-- No word is empty, and two texts that begin alike begin with the same word. -/
structure Instant (f : α → List β) : Prop where
  nonempty : ∀ a, f a ≠ []
  cut : ∀ {a b u v}, f a ++ u = f b ++ v → f a = f b

namespace Instant

/-- Words of one positive width. -/
theorem of_length {n : Nat} (hn : 0 < n) (h : ∀ a, (f a).length = n) : Instant f where
  nonempty a ha := by
    have := h a
    rw [ha, List.length_nil] at this
    omega
  cut heq := (List.append_inj heq ((h _).trans (h _).symm)).1

/-- Words that carry an end mark, and carry it nowhere else. -/
theorem of_terminator {g : α → List β} {z : β} (h : ∀ a, z ∉ g a) :
    Instant fun a => g a ++ [z] where
  nonempty _ := List.append_ne_nil_of_right_ne_nil _ (List.cons_ne_nil _ _)
  cut {a b u v} heq := by
    -- the shorter word would end inside the longer one, at its mark
    have hmark : ∀ {x y : List β} {t r s : List β}, z ∉ y → y = x ++ t →
        [z] ++ r = t ++ ([z] ++ s) → t = [] := by
      intro x y t r s hy hyx ht
      cases t with
      | nil => rfl
      | cons c t =>
        obtain ⟨hc, -⟩ := List.cons.inj ht
        exact absurd (by simp [hyx, ← hc]) hy
    rw [List.append_assoc, List.append_assoc] at heq
    rcases List.append_eq_append_iff.mp heq with ⟨t, hb, ht⟩ | ⟨t, ha, ht⟩
    · rw [hb, hmark (h b) hb ht, List.append_nil]
    · rw [ha, hmark (h a) ha ht, List.append_nil]

/-- The word at the front and what follows it. -/
theorem append_inj (hf : Instant f) {a b : α} {u v : List β} (h : f a ++ u = f b ++ v) :
    f a = f b ∧ u = v := by
  have hword := hf.cut h
  rw [hword] at h
  exact ⟨hword, List.append_cancel_left h⟩

/-- **A concatenation that starts another one** is that of its first words. -/
theorem flatMap_append (hf : Instant f) {l l' : List α} {u : List β}
    (h : l.flatMap f ++ u = l'.flatMap f) :
    ∃ l₁ l₂, l' = l₁ ++ l₂ ∧ l.map f = l₁.map f ∧ u = l₂.flatMap f := by
  induction l generalizing l' with
  | nil => exact ⟨[], l', rfl, rfl, h⟩
  | cons a l ih =>
    cases l' with
    | nil =>
      -- the first word alone is longer than nothing
      simp only [List.flatMap_cons, List.flatMap_nil, List.append_assoc,
        List.append_eq_nil_iff] at h
      exact absurd h.1 (hf.nonempty a)
    | cons b l' =>
      rw [List.flatMap_cons, List.flatMap_cons, List.append_assoc] at h
      obtain ⟨hword, hrest⟩ := hf.append_inj h
      obtain ⟨l₁, l₂, rfl, hmap, hu⟩ := ih hrest
      refine ⟨b :: l₁, l₂, rfl, ?_, hu⟩
      rw [List.map_cons, List.map_cons, hword, hmap]

/-- **A concatenation has one list of words.** -/
theorem flatMap_eq_iff (hf : Instant f) {l l' : List α} :
    l.flatMap f = l'.flatMap f ↔ l.map f = l'.map f := by
  constructor
  · intro h
    obtain ⟨l₁, l₂, rfl, hmap, hnil⟩ := hf.flatMap_append ((List.append_nil _).trans h)
    cases l₂ with
    | nil => rwa [List.append_nil]
    | cons a l₂ =>
      rw [List.flatMap_cons] at hnil
      exact absurd (List.append_eq_nil_iff.mp hnil.symm).1 (hf.nonempty a)
  · intro h
    rw [List.flatMap_def, List.flatMap_def, h]

end Instant

end Erllama.Lib
