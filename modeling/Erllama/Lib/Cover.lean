import Mathlib

namespace Erllama.Lib

/-!
# The shortest prefix that reaches a target

Items with a weight are taken from the front of a list until the weights taken sum to at
least a target.

* `shortestCover` — the items taken, by recursion over the list.
* `ShortestCover` — what "the shortest prefix that reaches the target" means; when no prefix
  does, it is the whole list.
* `shortestCover_spec` — the recursion computes it; `shortestCover_iff` — what it weighs.
* `rel_of_prefix_mem` — in a sorted list what is taken stands before what stays.
-/

variable {α : Type*} {w : α → Nat} {t : Nat} {l p : List α}

/-- Take items until the target is reached. -/
def shortestCover (w : α → Nat) : Nat → List α → List α
  | _, []     => []
  | t, a :: l => if t = 0 then [] else a :: shortestCover w (t - w a) l

/-- `p` is the shortest prefix of `l` whose weights sum to at least `t`, or all of `l` when
    no prefix reaches `t`. -/
structure ShortestCover (w : α → Nat) (t : Nat) (l p : List α) : Prop where
  isPrefix : p <+: l
  covers : t ≤ (p.map w).sum ∨ p = l
  shortest : ∀ q, q <+: l → q.length < p.length → (q.map w).sum < t

/-- **Taking items until the target is reached** takes the shortest prefix that reaches it. -/
theorem shortestCover_spec (w : α → Nat) (t : Nat) (l : List α) :
    ShortestCover w t l (shortestCover w t l) := by
  induction l generalizing t with
  | nil => exact ⟨List.nil_prefix, Or.inr rfl, fun q _ hlen => absurd hlen (Nat.not_lt_zero _)⟩
  | cons a l ih =>
    unfold shortestCover
    by_cases ht : t = 0
    · rw [if_pos ht]
      refine ⟨List.nil_prefix, Or.inl ?_, fun q _ hlen => absurd hlen (Nat.not_lt_zero _)⟩
      omega
    · rw [if_neg ht]
      obtain ⟨hpre, hcovers, hshortest⟩ := ih (t - w a)
      refine ⟨(List.prefix_cons_inj a).mpr hpre, ?_, ?_⟩
      · rcases hcovers with h | h
        · left
          rw [List.map_cons, List.sum_cons]
          omega
        · exact Or.inr (by rw [h])
      · intro q hq hlen
        cases q with
        | nil => simpa using Nat.pos_of_ne_zero ht
        | cons b q =>
          obtain ⟨rfl, htail⟩ := List.cons_prefix_cons.mp hq
          have h := hshortest q htail (by simpa using hlen)
          rw [List.map_cons, List.sum_cons]
          omega

/-- What the prefix that is taken weighs meets an upward closed condition iff every prefix that
    reaches the target does, provided the whole list does. -/
theorem shortestCover_iff {P : Nat → Prop} (hmono : ∀ m n, m ≤ n → P m → P n)
    (hall : P (l.map w).sum) :
    P ((shortestCover w t l).map w).sum ↔ ∀ q, q <+: l → t ≤ (q.map w).sum → P (q.map w).sum := by
  obtain ⟨hpre, hcovers, hshortest⟩ := shortestCover_spec w t l
  constructor
  · intro h q hq hreach
    have hlen : (shortestCover w t l).length ≤ q.length := by
      by_contra hlt
      have hshort := hshortest q hq (by omega)
      omega
    -- a prefix that reaches the target is at least as long, so it weighs as much
    obtain ⟨rest, hrest⟩ := List.prefix_of_prefix_length_le hpre hq hlen
    rw [← hrest, List.map_append, List.sum_append]
    exact hmono _ _ (Nat.le_add_right ..) h
  · intro h
    rcases hcovers with hreach | hwhole
    · exact h _ hpre hreach
    · rw [hwhole]
      exact hall

/-- In a sorted list the items of a prefix stand before the others. -/
theorem rel_of_prefix_mem {R : α → α → Prop} (hl : l.Pairwise R) (hp : p <+: l) {a b : α}
    (ha : a ∈ p) (hb : b ∈ l) (hnot : b ∉ p) : R a b := by
  obtain ⟨rest, rfl⟩ := hp
  have hrest : b ∈ rest := (List.mem_append.mp hb).resolve_left hnot
  exact (List.pairwise_append.mp hl).2.2 a ha b hrest

end Erllama.Lib
