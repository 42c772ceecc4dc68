import Mathlib.Data.Finset.Basic
import Mathlib.Data.Prod.Lex
import Mathlib.Logic.Function.Basic

namespace Erllama.Lib

/-!
# A secondary index by stamp

A primary table gives some of its keys a stamp `f : κ → Option τ`; an ordered index holds
`{stamp, key}` pairs.  `Indexes f ix` says the index is exactly the graph of `f`, and the
lemmas say how one key's stamp is set, moved and cleared on both sides.

* `Indexes.insert`, `Indexes.erase`, `Indexes.move` — the updates that keep both in step.
* `Indexes.not_of_leak` — forgetting to clear an entry is visible.
-/

variable {κ τ : Type*} [DecidableEq κ] [DecidableEq τ]

/-- The index holds exactly one pair `{t, k}` for every key `k` with stamp `t`. -/
def Indexes (f : κ → Option τ) (ix : Finset (τ ×ₗ κ)) : Prop :=
  ∀ t k, toLex (t, k) ∈ ix ↔ f k = some t

omit [DecidableEq κ] [DecidableEq τ] in
theorem Indexes.empty : Indexes (fun _ : κ => (none : Option τ)) ∅ := by
  intro t k
  simp

variable {f : κ → Option τ} {ix : Finset (τ ×ₗ κ)} {k : κ} {t : τ}

/-- Clearing the stamp of a key takes its pair out. -/
theorem Indexes.erase (h : Indexes f ix) (hk : f k = some t) :
    Indexes (Function.update f k none) (ix.erase (toLex (t, k))) := by
  intro u j
  rw [Finset.mem_erase, h u j]
  by_cases hj : j = k
  · subst hj
    have hu : toLex (u, j) ≠ toLex (t, j) → u ≠ t := by
      rintro hne rfl
      exact hne rfl
    simp only [Function.update_self, reduceCtorEq, iff_false, not_and, hk, Option.some.injEq]
    intro hne ht
    exact hu hne ht.symm
  · rw [Function.update_of_ne hj, and_iff_right_iff_imp]
    intro _ heq
    exact hj (congrArg Prod.snd (toLex.injective heq))

/-- A key without a stamp has no pair to take out. -/
theorem Indexes.erase_of_none (h : Indexes f ix) (hk : f k = none) :
    ix.erase (toLex (t, k)) = ix := by
  refine Finset.erase_eq_of_notMem ?_
  rw [h t k, hk]
  simp

/-- Giving a stamp to a key without one adds its pair. -/
theorem Indexes.insert (h : Indexes f ix) (hk : f k = none) :
    Indexes (Function.update f k (some t)) (insert (toLex (t, k)) ix) := by
  intro u j
  rw [Finset.mem_insert, h u j]
  by_cases hj : j = k
  · subst hj
    simp only [Function.update_self, hk, reduceCtorEq, or_false, Option.some.injEq]
    exact ⟨fun heq => (congrArg Prod.fst (toLex.injective heq)).symm, fun heq => by rw [heq]⟩
  · rw [Function.update_of_ne hj, or_iff_right_iff_imp]
    intro heq
    exact absurd (congrArg Prod.snd (toLex.injective heq)) hj

/-- Moving a key to a new stamp takes its old pair out first. -/
theorem Indexes.move (h : Indexes f ix) {u : τ} (hk : f k = none ∨ f k = some u) :
    Indexes (Function.update f k (some t))
      (Insert.insert (toLex (t, k)) (ix.erase (toLex (u, k)))) := by
  rcases hk with hk | hk
  · rw [h.erase_of_none hk]
    exact h.insert hk
  · have h' := (h.erase hk).insert (k := k) (t := t) (Function.update_self _ _ _)
    rwa [Function.update_idem] at h'

omit [DecidableEq κ] [DecidableEq τ] in
/-- **A leak shows.** Clearing a stamp without taking the pair out breaks the index. -/
theorem Indexes.not_of_leak (h : Indexes f ix) {g : κ → Option τ} (hf : (f k).isSome)
    (hg : g k = none) : ¬ Indexes g ix := by
  intro h'
  obtain ⟨t, ht⟩ := Option.isSome_iff_exists.mp hf
  have hmem := (h t k).mpr ht
  rw [h' t k, hg] at hmem
  cases hmem

end Erllama.Lib
