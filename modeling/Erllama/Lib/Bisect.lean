import Mathlib

namespace Erllama.Lib

/-!
# Bisection

A search for an index at which a monotone function takes a given value.  Where several indices
have it, the answer is the first midpoint that does, so it depends on the interval as well.

* `bisect` — the first midpoint with the value.
* `bisect_some`, `bisect_none` — what is found has the value, and nothing is missed.
* `bisect_congr` — only the comparisons matter.
* `side` — the comparisons with a block of indices.
-/

variable {α : Type*} [LinearOrder α] {f : Nat → α} {target : α} {lo hi : Nat}

/-- Bisect the indices from `lo` up to `hi`, exclusive. -/
def bisect (f : Nat → α) (target : α) (lo hi : Nat) : Option Nat :=
  if lo < hi then
    let mid := (lo + (hi - 1)) / 2
    if f mid = target then some mid
    else if f mid < target then bisect f target (mid + 1) hi
    else bisect f target lo mid
  else none
termination_by hi - lo
decreasing_by all_goals omega

/-- What is found has the value and lies in the interval. -/
theorem bisect_some {k : Nat} (h : bisect f target lo hi = some k) :
    f k = target ∧ lo ≤ k ∧ k < hi := by
  fun_induction bisect f target lo hi with
  | case1 lo hi hlt mid heq =>
    obtain rfl := Option.some.inj h
    exact ⟨heq, by omega, by omega⟩
  | case2 lo hi hlt mid hne hless ih =>
    obtain ⟨hk, hlo, hhi⟩ := ih h
    exact ⟨hk, by omega, hhi⟩
  | case3 lo hi hlt mid hne hge ih =>
    obtain ⟨hk, hlo, hhi⟩ := ih h
    exact ⟨hk, hlo, by omega⟩
  | case4 => cases h

/-- **Nothing is missed**: no index of the interval has the value. -/
theorem bisect_none (hf : Monotone f) (h : bisect f target lo hi = none) {k : Nat}
    (hlo : lo ≤ k) (hhi : k < hi) : f k ≠ target := by
  fun_induction bisect f target lo hi with
  | case1 lo hi hlt mid heq => cases h
  | case2 lo hi hlt mid hne hless ih =>
    by_cases hk : mid < k
    · exact ih h hk hhi
    · -- the left half is below the target, with its last value
      exact (lt_of_le_of_lt (hf (not_lt.mp hk)) hless).ne
  | case3 lo hi hlt mid hne hge ih =>
    by_cases hk : k < mid
    · exact ih h hlo hk
    · have habove : target < f mid := lt_of_le_of_ne (not_lt.mp hge) (Ne.symm hne)
      exact (lt_of_lt_of_le habove (hf (not_lt.mp hk))).ne'
  | case4 lo hi hge => omega

/-- Only the comparisons with the target matter. -/
theorem bisect_congr {β : Type*} [LinearOrder β] {g : Nat → β} {target' : β}
    (h : ∀ i, lo ≤ i → i < hi → (f i = target ↔ g i = target') ∧ (f i < target ↔ g i < target')) :
    bisect f target lo hi = bisect g target' lo hi := by
  fun_induction bisect f target lo hi with
  | case1 lo hi hlt mid heq =>
    have heq' := (h mid (by omega) (by omega)).1.mp heq
    rw [bisect, if_pos hlt]
    dsimp only
    rw [if_pos heq']
  | case2 lo hi hlt mid hne hless ih =>
    obtain ⟨heq, hlt'⟩ := h mid (by omega) (by omega)
    have hrest := ih fun i hi' hi'' => h i (by omega) hi''
    rw [hrest]
    conv_rhs => rw [bisect, if_pos hlt]
    dsimp only
    rw [if_neg (heq.not.mp hne), if_pos (hlt'.mp hless)]
  | case3 lo hi hlt mid hne hge ih =>
    obtain ⟨heq, hlt'⟩ := h mid (by omega) (by omega)
    have hrest := ih fun i hi' hi'' => h i hi' (by omega)
    rw [hrest]
    conv_rhs => rw [bisect, if_pos hlt]
    dsimp only
    rw [if_neg (heq.not.mp hne), if_neg (hlt'.not.mp hge)]
  | case4 lo hi hge => rw [bisect, if_neg hge]

/-- Where an index lies relative to the block from `a` to `b`: before it, in it, after it. -/
def side (a b i : Nat) : Nat := if i < a then 0 else if i ≤ b then 1 else 2

/-- The sides go up. -/
theorem side_mono (a b : Nat) : Monotone (side a b) := by
  intro i j hij
  unfold side
  split_ifs <;> omega

/-- An index is inside from the one bound to the other. -/
theorem side_eq_one_iff {a b i : Nat} : side a b i = 1 ↔ a ≤ i ∧ i ≤ b := by
  unfold side
  split
  · simp; omega
  · split
    · simp; omega
    · simp; omega

/-- Before it are the smaller ones. -/
theorem side_lt_one_iff {a b i : Nat} : side a b i < 1 ↔ i < a := by
  unfold side
  split
  · simp; omega
  · split
    · simp; omega
    · simp; omega

end Erllama.Lib
