import Erllama.CacheKey
import Erllama.Lib.Codes
import Mathlib

namespace Erllama

open Lib (Instant)

/-!
# What the effective fingerprint tells apart

`effective_fingerprint/2` sorts the attached adapters by sha and by exact scale, writes one
record of forty bytes for each, and hashes the records behind the base fingerprint.  A record
holds the scale in steps of `2 ^ -32`, rounded, and of that only the low 64 bits.

* `roundedAdapter`, `adapterRecord` — an adapter with its rounded scale, and with the low bits.
* `adapterBytes_instant`, `adapterBytes_eq_iff` — the written records determine the list.
* `sortAdapters_map_eq` — rounding keeps the order, so the sorted roundings depend on the
  multiset alone.
* `effectiveFingerprint_identifies` — what equal fingerprints say about the adapter sets.
-/

/-- `round(Scale * (1 bsl 32))`. -/
def scaleQ32 (scale : ℚ) : ℤ := erlRound (scale * 2 ^ 32)

/-- An adapter with its scale in whole steps. -/
def roundedAdapter (a : Digest × ℚ) : Digest × ℤ := (a.1, scaleQ32 a.2)

/-- What the record of an adapter holds: the sha, and the steps modulo `2 ^ 64`. -/
def adapterRecord (a : Digest × ℚ) : Digest × ℤ := (a.1, scaleQ32 a.2 % 2 ^ 64)

/-- The steps fit the signed 64-bit field of the record. -/
def FitsInt64 (a : Digest × ℚ) : Prop := -2 ^ 63 ≤ scaleQ32 a.2 ∧ scaleQ32 a.2 < 2 ^ 63

/-- The bytes `effective_fingerprint/2` hashes for a non-empty adapter list. -/
def adaptersPreimage (fp : Digest) (adapters : List (Digest × ℚ)) : Bytes :=
  fp.bytes ++ (sortAdapters adapters).flatMap adapterBytes

/-- The hash does not confuse the two lists: not with each other, and neither with the bare
    fingerprint. -/
structure Separates (sha256 : Bytes → Digest) (fp : Digest) (A B : List (Digest × ℚ)) : Prop where
  injOn : Set.InjOn sha256 {adaptersPreimage fp A, adaptersPreimage fp B}
  base_left : A ≠ [] → sha256 (adaptersPreimage fp A) ≠ fp
  base_right : B ≠ [] → sha256 (adaptersPreimage fp B) ≠ fp

/-! ### Records -/

/-- The eight bytes of an integer hold it modulo `2 ^ 64`. -/
theorem u64le_eq_iff {a b : ℤ} : u64le a = u64le b ↔ a % 2 ^ 64 = b % 2 ^ 64 := by
  constructor
  · intro h
    obtain ⟨hlow, hhigh⟩ := List.append_inj h rfl
    -- each half is read back from its four bytes
    have hread : ∀ {m n : Nat}, u32le m = u32le n → m % 2 ^ 32 = n % 2 ^ 32 := by
      intro m n hmn
      have hm := u32leValue_u32le m
      simp only [u32le, List.cons.injEq, and_true] at hmn
      rw [hmn.1, hmn.2.1, hmn.2.2.1, hmn.2.2.2] at hm
      rw [← hm, u32leValue_u32le]
    have hlow := hread hlow
    have hhigh := hread hhigh
    omega
  · intro h
    unfold u64le
    rw [h]

/-- An adapter takes 40 bytes. -/
@[simp] theorem length_adapterBytes (a : Digest × ℚ) : (adapterBytes a).length = 40 := by
  unfold adapterBytes u64le
  rw [List.length_append, a.1.size_eq]
  rfl

/-- **Fixed-width records.** -/
theorem adapterBytes_instant : Instant adapterBytes :=
  .of_length (by decide) length_adapterBytes

/-- A record determines the sha and the low bits of the scale, and nothing more. -/
theorem adapterBytes_eq_iff {a b : Digest × ℚ} :
    adapterBytes a = adapterBytes b ↔ adapterRecord a = adapterRecord b := by
  unfold adapterBytes adapterRecord
  constructor
  · intro h
    obtain ⟨hsha, hscale⟩ := List.append_inj h (by rw [a.1.size_eq, b.1.size_eq])
    exact Prod.ext (Digest.bytes_injective hsha) (u64le_eq_iff.mp hscale)
  · intro h
    obtain ⟨hsha, hscale⟩ := Prod.mk.inj h
    rw [hsha]
    exact congrArg (b.1.bytes ++ ·) (u64le_eq_iff.mpr hscale)

/-- Two lists of adapters are written alike when they agree record by record. -/
theorem flatMap_adapterBytes_eq_iff {A B : List (Digest × ℚ)} :
    A.flatMap adapterBytes = B.flatMap adapterBytes ↔
      A.map adapterRecord = B.map adapterRecord := by
  rw [adapterBytes_instant.flatMap_eq_iff]
  induction A generalizing B with
  | nil => cases B <;> simp
  | cons a A ih =>
    cases B with
    | nil => simp
    | cons b B => simp only [List.map_cons, List.cons.injEq, adapterBytes_eq_iff, ih]

/-! ### Sorting and rounding -/

/-- Erlang's `round/1` keeps the order. -/
theorem erlRound_mono : Monotone erlRound := by
  intro p q hpq
  unfold erlRound
  by_cases hp : 0 ≤ p
  · rw [if_pos hp, if_pos (hp.trans hpq)]
    exact Int.floor_mono (by linarith)
  · rw [if_neg hp]
    by_cases hq : 0 ≤ q
    · -- a negative number is rounded to at most zero, the other to at least zero
      rw [if_pos hq]
      have hneg : 0 ≤ ⌊-p + 1 / 2⌋ := Int.floor_nonneg.mpr (by linarith)
      have hpos : 0 ≤ ⌊q + 1 / 2⌋ := Int.floor_nonneg.mpr (by linarith)
      omega
    · rw [if_neg hq, neg_le_neg_iff]
      exact Int.floor_mono (by linarith)

/-- A larger scale is coded by a larger number. -/
theorem scaleQ32_mono : Monotone scaleQ32 := by
  intro p q hpq
  apply erlRound_mono
  linarith

/-- Rounding the scales keeps the order by sha and scale. -/
theorem roundedAdapter_mono {a b : Digest × ℚ} (h : toLex a ≤ toLex b) :
    toLex (roundedAdapter a) ≤ toLex (roundedAdapter b) := by
  rcases Prod.Lex.toLex_le_toLex.mp h with hsha | ⟨hsha, hscale⟩
  · exact Prod.Lex.toLex_le_toLex.mpr (.inl hsha)
  · exact Prod.Lex.toLex_le_toLex.mpr (.inr ⟨hsha, scaleQ32_mono hscale⟩)

/-- Sorting keeps the adapters. -/
theorem sortAdapters_perm (A : List (Digest × ℚ)) : (sortAdapters A).Perm A :=
  List.perm_insertionSort _ A

/-- After sorting by the exact scales, the rounded ones are sorted. -/
theorem sortAdapters_rounded (A : List (Digest × ℚ)) :
    ((sortAdapters A).map fun a => toLex (roundedAdapter a)).Pairwise (· ≤ ·) := by
  have : Std.Total fun a b : Digest × ℚ => toLex a ≤ toLex b :=
    ⟨fun a b => le_total (toLex a) (toLex b)⟩
  have : IsTrans (Digest × ℚ) fun a b => toLex a ≤ toLex b :=
    ⟨fun _ _ _ hab hbc => le_trans hab hbc⟩
  rw [List.pairwise_map]
  exact (List.pairwise_insertionSort _ A).imp roundedAdapter_mono

/-- **Order independence.** The sorted roundings depend only on their multiset. -/
theorem sortAdapters_map_eq {A B : List (Digest × ℚ)}
    (h : (A.map roundedAdapter).Perm (B.map roundedAdapter)) :
    (sortAdapters A).map roundedAdapter = (sortAdapters B).map roundedAdapter := by
  have hperm := ((sortAdapters_perm A).map roundedAdapter).trans
    (h.trans ((sortAdapters_perm B).map roundedAdapter).symm)
  have hlex := hperm.map toLex
  rw [List.map_map, List.map_map] at hlex
  have heq := hlex.eq_of_pairwise' (sortAdapters_rounded A) (sortAdapters_rounded B)
  have hback := congrArg (List.map ofLex) heq
  rw [List.map_map, List.map_map] at hback
  exact hback

/-- The record of an adapter holds what is left of its rounded scale. -/
theorem map_adapterRecord (A : List (Digest × ℚ)) :
    A.map adapterRecord = (A.map roundedAdapter).map fun r => (r.1, r.2 % 2 ^ 64) := by
  rw [List.map_map]
  rfl

/-- Lists that fit have the same records exactly when they have the same roundings. -/
theorem perm_rounded_of_fits {A B : List (Digest × ℚ)} (hA : ∀ a ∈ A, FitsInt64 a)
    (hB : ∀ b ∈ B, FitsInt64 b) (h : (A.map adapterRecord).Perm (B.map adapterRecord)) :
    (A.map roundedAdapter).Perm (B.map roundedAdapter) := by
  -- on what fits, the rounding is read off the record
  let decode : Digest × ℤ → Digest × ℤ := fun r => (r.1, r.2.bmod (2 ^ 64))
  have hdecode : ∀ a, FitsInt64 a → decode (adapterRecord a) = roundedAdapter a := by
    intro a ha
    refine Prod.ext rfl ?_
    show (scaleQ32 a.2 % (2 ^ 64 : Nat)).bmod (2 ^ 64) = scaleQ32 a.2
    rw [Int.emod_bmod]
    exact Int.bmod_eq_of_le ha.1 ha.2
  have hmap : ∀ l : List (Digest × ℚ), (∀ a ∈ l, FitsInt64 a) →
      (l.map adapterRecord).map decode = l.map roundedAdapter := by
    intro l hl
    rw [List.map_map]
    exact List.map_congr_left fun a ha => hdecode a (hl a ha)
  have hperm := h.map decode
  rwa [hmap A hA, hmap B hB] at hperm

/-! ### The fingerprint -/

section Hash

variable {sha256 : Bytes → Digest} {fp : Digest} {A B : List (Digest × ℚ)}

/-- With adapters the fingerprint is a hash. -/
theorem effectiveFingerprint_of_ne_nil (h : A ≠ []) :
    effectiveFingerprint sha256 fp A = sha256 (adaptersPreimage fp A) := by
  cases A with
  | nil => exact absurd rfl h
  | cons a A => rfl

/-- Equal fingerprints mean equal records in sorted order. -/
theorem effectiveFingerprint_eq_iff (h : Separates sha256 fp A B) :
    effectiveFingerprint sha256 fp A = effectiveFingerprint sha256 fp B ↔
      (sortAdapters A).map adapterRecord = (sortAdapters B).map adapterRecord := by
  have hlen : ∀ {L M : List (Digest × ℚ)},
      (sortAdapters L).map adapterRecord = (sortAdapters M).map adapterRecord →
        L.length = M.length := by
    intro L M heq
    have := congrArg List.length heq
    rwa [List.length_map, List.length_map, (sortAdapters_perm L).length_eq,
      (sortAdapters_perm M).length_eq] at this
  by_cases hA : A = []
  · subst hA
    by_cases hB : B = []
    · subst hB
      exact ⟨fun _ => rfl, fun _ => rfl⟩
    · -- the bare fingerprint is not the hash of the other list
      rw [effectiveFingerprint_of_ne_nil hB]
      refine ⟨fun heq => absurd heq.symm (h.base_right hB), fun heq => ?_⟩
      exact absurd (List.length_eq_zero_iff.mp (hlen heq).symm) hB
  · rw [effectiveFingerprint_of_ne_nil hA]
    by_cases hB : B = []
    · subst hB
      refine ⟨fun heq => absurd heq (h.base_left hA), fun heq => ?_⟩
      exact absurd (List.length_eq_zero_iff.mp (hlen heq)) hA
    · rw [effectiveFingerprint_of_ne_nil hB, h.injOn.eq_iff (.inl rfl) (.inr rfl),
        ← flatMap_adapterBytes_eq_iff]
      unfold adaptersPreimage
      exact List.append_right_inj _

/-- **Adapter sets and fingerprints.** Equal fingerprints come only from equal multisets of
    records; equal multisets of rounded adapters give equal fingerprints, and where every
    scale fits its field the records suffice.  No adapters give the base fingerprint. -/
theorem effectiveFingerprint_identifies (h : Separates sha256 fp A B) :
    (effectiveFingerprint sha256 fp A = effectiveFingerprint sha256 fp B →
      (A.map adapterRecord).Perm (B.map adapterRecord)) ∧
    ((A.map roundedAdapter).Perm (B.map roundedAdapter) →
      effectiveFingerprint sha256 fp A = effectiveFingerprint sha256 fp B) ∧
    ((∀ a ∈ A ++ B, FitsInt64 a) →
      (effectiveFingerprint sha256 fp A = effectiveFingerprint sha256 fp B ↔
        (A.map adapterRecord).Perm (B.map adapterRecord))) ∧
    effectiveFingerprint sha256 fp [] = fp := by
  have honly : effectiveFingerprint sha256 fp A = effectiveFingerprint sha256 fp B →
      (A.map adapterRecord).Perm (B.map adapterRecord) := by
    intro heq
    have hsorted := (effectiveFingerprint_eq_iff h).mp heq
    have hleft := (sortAdapters_perm A).map adapterRecord
    have hright := (sortAdapters_perm B).map adapterRecord
    rw [hsorted] at hleft
    exact hleft.symm.trans hright
  have hsame : (A.map roundedAdapter).Perm (B.map roundedAdapter) →
      effectiveFingerprint sha256 fp A = effectiveFingerprint sha256 fp B := by
    intro hperm
    apply (effectiveFingerprint_eq_iff h).mpr
    rw [map_adapterRecord, map_adapterRecord, sortAdapters_map_eq hperm]
  refine ⟨honly, hsame, fun hfits => ⟨honly, fun hperm => hsame ?_⟩, rfl⟩
  exact perm_rounded_of_fits (fun a ha => hfits a (List.mem_append_left B ha))
    (fun b hb => hfits b (List.mem_append_right A hb)) hperm

end Hash

/-! ### Scales outside the field -/

/-- A hash that tells one input from all others. -/
def markHash (marked bytes : Bytes) : Digest :=
  if bytes = marked then .fill 1 else .fill 2

/-- The hash that marks one preimage tells that preimage. -/
theorem markHash_eq_iff {marked bytes : Bytes} :
    markHash marked marked = markHash marked bytes ↔ bytes = marked := by
  unfold markHash
  rw [if_pos rfl]
  by_cases h : bytes = marked
  · simp [h]
  · rw [if_neg h]
    exact ⟨fun heq => absurd heq (by decide), fun heq => absurd heq h⟩

/-- It separates two lists of adapters. -/
theorem markHash_separates {fp : Digest} (h1 : fp ≠ .fill 1) (h2 : fp ≠ .fill 2)
    (A B : List (Digest × ℚ)) : Separates (markHash (adaptersPreimage fp A)) fp A B := by
  have hbase : ∀ marked bytes, markHash marked bytes ≠ fp := by
    intro marked bytes
    unfold markHash
    split
    · exact h1.symm
    · exact h2.symm
  refine ⟨?_, fun _ => hbase _ _, fun _ => hbase _ _⟩
  rintro x (rfl | rfl) y (rfl | rfl) hxy
  · rfl
  · exact (markHash_eq_iff.mp hxy).symm
  · exact markHash_eq_iff.mp hxy.symm
  · rfl

/-- One adapter attached twice and another once; the first list is not sorted. -/
theorem effectiveFingerprint_reordered :
    effectiveFingerprint (markHash (adaptersPreimage (.fill 0)
        [(.fill 4, 1 / 2), (.fill 3, 1), (.fill 4, -2)])) (.fill 0)
        [(.fill 4, 1 / 2), (.fill 3, 1), (.fill 4, -2)] =
      effectiveFingerprint (markHash (adaptersPreimage (.fill 0)
        [(.fill 4, 1 / 2), (.fill 3, 1), (.fill 4, -2)])) (.fill 0)
        [(.fill 3, 1), (.fill 4, -2), (.fill 4, 1 / 2)] :=
  (effectiveFingerprint_identifies (markHash_separates (by decide) (by decide) _ _)).2.1
    (by decide +kernel)

/-- The scales `-1` and `2 ^ 32 - 1` have one record, but `2` sorts between them. -/
theorem effectiveFingerprint_wraps :
    ¬ ∀ (sha256 : Bytes → Digest) (fp : Digest) (A B : List (Digest × ℚ)),
      Separates sha256 fp A B →
        (effectiveFingerprint sha256 fp A = effectiveFingerprint sha256 fp B ↔
          (A.map adapterRecord).Perm (B.map adapterRecord)) := by
  intro h
  have hsep : Separates (markHash (adaptersPreimage (.fill 0) [(.fill 3, -1), (.fill 3, 2)]))
      (.fill 0) [(.fill 3, -1), (.fill 3, 2)] [(.fill 3, 2 ^ 32 - 1), (.fill 3, 2)] :=
    markHash_separates (by decide) (by decide) _ _
  have heq := (h _ _ _ _ hsep).mpr (by decide +kernel)
  have hsorted := (effectiveFingerprint_eq_iff hsep).mp heq
  exact absurd hsorted (by decide +kernel)

end Erllama
