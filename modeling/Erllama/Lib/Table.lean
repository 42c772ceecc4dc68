import Mathlib.Data.List.AList

namespace AList

/-!
# Finite tables

A finite map is an `AList` with one value type.  The map operations and their lookup laws
are Mathlib's; this file adds what counting and enumerating the values needs.

* `AList.values` — the values in the table's own order.
* `AList.update` — replace the value of a key that is present.
* `AList.values_perm_of_lookup` — the values around one key.
* `AList.countValues` — how many values satisfy a predicate, with its change under
  `insert` of a fresh key and `erase`; `AList.card` — how many entries there are.
-/

variable {κ α : Type*} [DecidableEq κ]

/-- The values, in the table's own order. -/
def values {κ α : Type*} (t : AList fun _ : κ => α) : List α :=
  t.entries.map Sigma.snd

/-- Apply `f` to the value of `k`, if there is one. -/
def update (t : AList fun _ : κ => α) (k : κ) (f : α → α) : AList fun _ : κ => α :=
  match t.lookup k with
  | some a => t.insert k (f a)
  | none   => t

/-- The number of values that satisfy `p`. -/
def countValues {κ α : Type*} (t : AList fun _ : κ => α) (p : α → Bool) : Nat :=
  t.values.countP p

/-- The entries of a table are what is found in it. -/
theorem mem_entries_iff {t : AList fun _ : κ => α} {k : κ} {a : α} :
    (⟨k, a⟩ : (_ : κ) × α) ∈ t.entries ↔ t.lookup k = some a :=
  AList.mem_lookup_iff.symm

/-- The values are what is found under some key. -/
theorem mem_values_iff {t : AList fun _ : κ => α} {a : α} :
    a ∈ t.values ↔ ∃ k, t.lookup k = some a := by
  simp only [values, List.mem_map]
  constructor
  · rintro ⟨⟨k, b⟩, hmem, rfl⟩
    exact ⟨k, mem_entries_iff.mp hmem⟩
  · rintro ⟨k, hk⟩
    exact ⟨⟨k, a⟩, mem_entries_iff.mpr hk, rfl⟩

/-! ### Lookup after an update -/

/-- An updated entry is found changed. -/
theorem lookup_update (t : AList fun _ : κ => α) (k : κ) (f : α → α) (k' : κ) :
    (t.update k f).lookup k' = if k' = k then (t.lookup k).map f else t.lookup k' := by
  unfold update
  by_cases h : k' = k
  · subst h
    cases hk : t.lookup k' with
    | none   => simp [hk]
    | some a => simp [AList.lookup_insert]
  · cases hk : t.lookup k with
    | none   => simp [h]
    | some a => simp [h, AList.lookup_insert_ne h]

/-- A new entry is found. -/
theorem lookup_insert_ite (t : AList fun _ : κ => α) (k : κ) (a : α) (k' : κ) :
    (t.insert k a).lookup k' = if k' = k then some a else t.lookup k' := by
  by_cases h : k' = k
  · subst h; simp [AList.lookup_insert]
  · simp [h, AList.lookup_insert_ne h]

/-- An erased entry is not. -/
theorem lookup_erase_ite (t : AList fun _ : κ => α) (k k' : κ) :
    (t.erase k).lookup k' = if k' = k then none else t.lookup k' := by
  by_cases h : k' = k
  · subst h; simp [AList.lookup_erase]
  · simp [h, AList.lookup_erase_ne h]

/-- Erasing a key forgets what it was set to. -/
theorem erase_insert_self (t : AList fun _ : κ => α) (k : κ) (a : α) :
    (t.insert k a).erase k = t.erase k := by
  apply AList.ext
  exact List.kerase_cons_eq rfl

/-- Erasing the keys of several entries. -/
theorem lookup_foldl_erase (l : List ((_ : κ) × α)) (t : AList fun _ : κ => α) (k : κ) :
    (l.foldl (fun t e => t.erase e.1) t).lookup k =
      if k ∈ l.map Sigma.fst then none else t.lookup k := by
  induction l generalizing t with
  | nil => simp
  | cons e l ih =>
    rw [List.foldl_cons, ih, List.map_cons]
    by_cases hk : k = e.1
    · subst hk
      simp [AList.lookup_erase]
    · simp only [List.mem_cons, hk, false_or, AList.lookup_erase_ite, ↓reduceIte]

/-! ### Counting values -/

omit [DecidableEq κ] in
/-- An empty table has nothing to count. -/
@[simp] theorem countValues_empty (p : α → Bool) :
    countValues (∅ : AList fun _ : κ => α) p = 0 := rfl

/-- Adding a value under a fresh key adds one to the count if it satisfies `p`. -/
theorem countValues_insert_of_lookup_none {t : AList fun _ : κ => α} {k : κ} (h : t.lookup k = none)
    (a : α) (p : α → Bool) :
    (t.insert k a).countValues p = t.countValues p + if p a then 1 else 0 := by
  have hk : k ∉ t := AList.lookup_eq_none.mp h
  simp only [countValues, values, AList.entries_insert_of_notMem hk, List.map_cons,
    List.countP_cons]

/-- The entry of a key, and the rest. -/
theorem entries_perm_of_lookup {t : AList fun _ : κ => α} {k : κ} {a : α}
    (h : t.lookup k = some a) : t.entries.Perm (⟨k, a⟩ :: (t.erase k).entries) := by
  have hmem : (⟨k, a⟩ : (_ : κ) × α) ∈ t.entries := mem_entries_iff.mpr h
  obtain ⟨b, l₁, l₂, -, hsplit, herase⟩ :=
    List.exists_of_kerase (List.mem_keys_of_mem hmem)
  have hb : b = a := by
    have hb' : (⟨k, b⟩ : (_ : κ) × α) ∈ t.entries := by rw [hsplit]; simp
    simpa [h, eq_comm] using mem_entries_iff.mp hb'
  subst hb
  show t.entries.Perm (⟨k, b⟩ :: List.kerase k t.entries)
  rw [herase, hsplit]
  exact List.perm_middle

/-- The value of a key, and the rest. -/
theorem values_perm_of_lookup {t : AList fun _ : κ => α} {k : κ} {a : α}
    (h : t.lookup k = some a) : t.values.Perm (a :: (t.erase k).values) := by
  have hperm := (entries_perm_of_lookup h).map (Sigma.snd : ((_ : κ) × α) → α)
  exact hperm

/-- Erasing a key that is not there changes no value. -/
theorem values_erase_of_lookup_none {t : AList fun _ : κ => α} {k : κ}
    (h : t.lookup k = none) : (t.erase k).values = t.values := by
  unfold values
  rw [show (t.erase k).entries = t.entries from
    List.kerase_of_notMem_keys (AList.lookup_eq_none.mp h)]

/-- Erasing a key that holds `a` takes one from the count if `a` satisfies `p`. -/
theorem countValues_erase_of_lookup_some {t : AList fun _ : κ => α} {k : κ} {a : α}
    (h : t.lookup k = some a) (p : α → Bool) :
    t.countValues p = (t.erase k).countValues p + if p a then 1 else 0 := by
  unfold countValues
  rw [(values_perm_of_lookup h).countP_eq p, List.countP_cons]

/-- Setting a value replaces the one the key had. -/
theorem countValues_insert (t : AList fun _ : κ => α) (k : κ) (a : α) (p : α → Bool) :
    (t.insert k a).countValues p = (t.erase k).countValues p + if p a then 1 else 0 := by
  simp only [countValues, values, AList.entries_insert, List.map_cons, List.countP_cons]
  rfl

/-- Replacing a value changes the count by the two values. -/
theorem countValues_insert_of_lookup_some {t : AList fun _ : κ => α} {k : κ} {a : α}
    (h : t.lookup k = some a) (b : α) (p : α → Bool) :
    (t.insert k b).countValues p + (if p a then 1 else 0) =
      t.countValues p + if p b then 1 else 0 := by
  rw [countValues_insert, countValues_erase_of_lookup_some h p]
  omega

/-! ### Counting entries -/

/-- The number of entries (`map_size/1`). -/
def card {κ α : Type*} (t : AList fun _ : κ => α) : Nat := t.entries.length

omit [DecidableEq κ] in
/-- It has no entry. -/
@[simp] theorem card_empty : card (∅ : AList fun _ : κ => α) = 0 := rfl

/-- A new key is one entry more. -/
theorem card_insert_of_lookup_none {t : AList fun _ : κ => α} {k : κ} (h : t.lookup k = none)
    (a : α) : (t.insert k a).card = t.card + 1 := by
  rw [card, AList.entries_insert_of_notMem (AList.lookup_eq_none.mp h), List.length_cons, card]

/-- An erased key is one entry less. -/
theorem card_erase_of_lookup_some {t : AList fun _ : κ => α} {k : κ} {a : α}
    (h : t.lookup k = some a) : t.card = (t.erase k).card + 1 :=
  (entries_perm_of_lookup h).length_eq

end AList

namespace Erllama.Lib

/-- A finite map from `κ` to `α`. -/
abbrev Table (κ α : Type*) := AList fun _ : κ => α

end Erllama.Lib
