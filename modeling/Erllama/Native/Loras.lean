import Mathlib.Algebra.Order.Ring.Rat
import Mathlib.Data.List.Nodup
import Mathlib.Data.List.Perm.Subperm

namespace Erllama.Native

/-!
# The adapters of a context (`llama_context::set_adapters_lora`)

A context holds its adapters with their scales as a map; here they stand in the order in which
they were put in.

* `putLoras` — what the library makes of a list: no adapter of scale zero, and each once.
* `sameLoras` — the library's test whether a list is what it has already.
* `applyLoras` — the call.
* `applyLoras_perm` — for a list that names no adapter twice, the test makes no difference.
-/

variable {α : Type} [DecidableEq α]

/-- One round of the loop of `set_adapters_lora`: an adapter of scale zero is left out, and of
    one that is there already the first scale stays. -/
def putLora (loras : List (α × ℚ)) (a : α × ℚ) : List (α × ℚ) :=
  if a.2 = 0 ∨ a.1 ∈ loras.map Prod.fst then loras else loras ++ [a]

/-- The loop of `set_adapters_lora`, from an empty set. -/
def putLoras (pairs : List (α × ℚ)) : List (α × ℚ) := pairs.foldl putLora []

/-- `adapters_lora_are_same`: every adapter of the list is there with its scale, and there are as
    many; those of scale zero do not count. -/
def sameLoras (loras pairs : List (α × ℚ)) : Bool :=
  let used := pairs.filter (·.2 ≠ 0)
  used.all (loras.contains ·) && used.length == loras.length

/-- `set_adapters_lora`. -/
def applyLoras (loras pairs : List (α × ℚ)) : List (α × ℚ) :=
  if sameLoras loras pairs then loras else putLoras pairs

/-- Each adapter once, and none of scale zero. -/
structure TidyLoras (pairs : List (α × ℚ)) : Prop where
  nodup : (pairs.map Prod.fst).Nodup
  scales : ∀ a ∈ pairs, a.2 ≠ 0

variable {loras pairs : List (α × ℚ)}

/-- One round keeps the adapters tidy. -/
theorem putLora_tidy (h : TidyLoras loras) (a : α × ℚ) : TidyLoras (putLora loras a) := by
  unfold putLora
  split
  case isTrue => exact h
  case isFalse hput =>
    rw [not_or] at hput
    refine ⟨?_, fun b hb => ?_⟩
    · rw [List.map_append, List.nodup_append]
      refine ⟨h.nodup, List.nodup_singleton _, fun x hx y hy heq => hput.2 ?_⟩
      rw [← List.mem_singleton.mp hy, ← heq]
      exact hx
    · rcases List.mem_append.mp hb with hold | hnew
      · exact h.scales b hold
      · rw [List.mem_singleton.mp hnew]
        exact hput.1

/-- What the loop puts in is tidy. -/
theorem putLoras_tidy (pairs : List (α × ℚ)) : TidyLoras (putLoras pairs) := by
  have hall : ∀ loras, TidyLoras loras → TidyLoras (pairs.foldl putLora loras) := by
    induction pairs with
    | nil => exact fun _ h => h
    | cons a pairs ih => exact fun loras h => ih _ (putLora_tidy h a)
  exact hall [] ⟨List.nodup_nil, nofun⟩

/-- A tidy list is put in as it is. -/
theorem putLoras_eq (h : TidyLoras pairs) : putLoras pairs = pairs := by
  have hall : ∀ loras, TidyLoras (loras ++ pairs) →
      pairs.foldl putLora loras = loras ++ pairs := by
    clear h
    induction pairs with
    | nil => exact fun loras _ => (List.append_nil loras).symm
    | cons a pairs ih =>
      intro loras htidy
      have hput : putLora loras a = loras ++ [a] := by
        refine if_neg (not_or.mpr ⟨htidy.scales a (by simp), fun hmem => ?_⟩)
        have hnodup := htidy.nodup
        rw [List.map_append, List.nodup_append] at hnodup
        exact hnodup.2.2 a.1 hmem a.1 (by simp) rfl
      have hshift : loras ++ a :: pairs = loras ++ [a] ++ pairs := by simp
      rw [hshift] at htidy ⊢
      rw [List.foldl_cons, hput]
      exact ih _ htidy
  exact hall [] h

/-- What the loop puts in was in the list. -/
theorem mem_of_putLoras {a : α × ℚ} (ha : a ∈ putLoras pairs) : a ∈ pairs := by
  have hall : ∀ loras, a ∈ pairs.foldl putLora loras → a ∈ loras ∨ a ∈ pairs := by
    clear ha
    induction pairs with
    | nil => exact fun _ h => .inl h
    | cons b pairs ih =>
      intro loras h
      rcases ih _ h with hput | hrest
      · unfold putLora at hput
        split at hput
        · exact .inl hput
        · rcases List.mem_append.mp hput with hold | hnew
          · exact .inl hold
          · rw [List.mem_singleton.mp hnew]
            exact .inr List.mem_cons_self
      · exact .inr (List.mem_cons_of_mem b hrest)
  exact (hall [] ha).resolve_left (by simp)

/-- After the call, an adapter was there before or is one of the list. -/
theorem mem_of_applyLoras {a : α × ℚ} (ha : a ∈ applyLoras loras pairs) :
    a ∈ loras ∨ a ∈ pairs := by
  unfold applyLoras at ha
  split at ha
  · exact .inl ha
  · exact .inr (mem_of_putLoras ha)

/-- The adapters of scale zero make no difference. -/
theorem putLoras_filter (pairs : List (α × ℚ)) :
    putLoras (pairs.filter (·.2 ≠ 0)) = putLoras pairs := by
  unfold putLoras
  rw [List.foldl_filter]
  congr
  funext loras a
  by_cases hzero : a.2 = 0
  · simp [putLora, hzero]
  · simp [hzero]

/-- **The call** leaves the adapters of the list on the context, when it names none twice. -/
theorem applyLoras_perm (hp : (pairs.map Prod.fst).Nodup) :
    (applyLoras loras pairs).Perm (putLoras pairs) := by
  unfold applyLoras
  split
  case isFalse => exact .refl _
  case isTrue hsame =>
    have htidy : TidyLoras (pairs.filter (·.2 ≠ 0)) := {
      nodup := hp.sublist (List.filter_sublist.map _)
      scales := fun a ha => of_decide_eq_true (List.mem_filter.mp ha).2 }
    unfold sameLoras at hsame
    obtain ⟨hsub, hlen⟩ := Bool.and_eq_true_iff.mp hsame
    rw [← putLoras_filter, putLoras_eq htidy]
    -- as many, each once, and all of them there
    refine (List.Subperm.perm_of_length_le ?_ (beq_iff_eq.mp hlen).ge).symm
    have hnodup : (pairs.filter (·.2 ≠ 0)).Nodup := List.Nodup.of_map Prod.fst htidy.nodup
    refine hnodup.subperm fun a ha => ?_
    simpa using List.all_eq_true.mp hsub a ha

end Erllama.Native
