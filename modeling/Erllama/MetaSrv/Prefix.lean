import Erllama.MetaSrv.State
import Mathlib.Data.List.Sort
import Mathlib.Data.Set.Function

namespace Erllama.MetaSrv

open Lib

/-!
# The longest stored text prefix

The prefix lookup reads the meta table only.  It collects the text lengths of *all* available
rows, whatever namespace they belong to, and probes the prompt's prefixes of these lengths,
longest first, by hashing each one and looking its key up.

* `lookupExact`, `availableTextLengths`, `probeTextPrefix`, `lookupLongestTextPrefix` — the
  read path.
* `TextKeyed` — every available row's key is the hash of its own text in its own namespace.
* `lookupLongestTextPrefix_exact` — the lookup finds the longest matching row of the asked
  namespace, and misses iff there is none.
-/

/-- The namespace a lookup asks for. -/
structure KeyMeta where
  fingerprint : Digest
  quantType : QuantType
  ctxParamsHash : Digest

/-- `lookup_exact/1`. -/
def lookupExact (t : Table CacheKey Row) (key : CacheKey) : Option Row :=
  (t.lookup key).filter fun r => r.status = .available

/-- `available_text_lengths/1`: the distinct lengths, longest first; rows without a text are
    left out. -/
def availableTextLengths (t : Table CacheKey Row) (maxLen : Nat) : List Nat :=
  (((t.values.filter fun r =>
      r.status = .available ∧ 0 < r.textBytes ∧ r.textBytes ≤ maxLen).map
    Row.textBytes).dedup.insertionSort (· ≤ ·)).reverse

section Probe

variable (sha256 : Bytes → Digest) (t : Table CacheKey Row) (ns : KeyMeta) (bytes : Bytes)

/-- The key of the prompt's prefix of this length. -/
def candidateKey (len : Nat) : CacheKey :=
  makeText sha256 ns.fingerprint ns.quantType ns.ctxParamsHash (bytes.take len)

/-- `probe_text_prefix/6`; the row tuple it returns has the key as its first column. -/
def probeTextPrefix : List Nat → Option (Nat × CacheKey × Row)
  | []          => none
  | len :: rest =>
    let candidate := candidateKey sha256 ns bytes len
    match lookupExact t candidate with
    | some row => some (len, candidate, row)
    | none     => probeTextPrefix rest

/-- `lookup_longest_text_prefix/2`. -/
def lookupLongestTextPrefix : Option (Nat × CacheKey × Row) :=
  probeTextPrefix sha256 t ns bytes (availableTextLengths t bytes.length)

end Probe

/-! ### The lengths that are probed -/

variable {sha256 : Bytes → Digest} {t : Table CacheKey Row} {ns : KeyMeta} {bytes : Bytes}

/-- A row is found iff it is there and available. -/
theorem lookupExact_eq_some_iff {key : CacheKey} {row : Row} :
    lookupExact t key = some row ↔ t.lookup key = some row ∧ row.status = .available := by
  simp [lookupExact, Option.filter_eq_some_iff]

/-- The lengths that are probed are those of available rows that fit. -/
theorem mem_availableTextLengths {maxLen n : Nat} :
    n ∈ availableTextLengths t maxLen ↔
      0 < n ∧ n ≤ maxLen ∧ ∃ key row, lookupExact t key = some row ∧ row.textBytes = n := by
  simp only [availableTextLengths, List.mem_reverse, List.mem_insertionSort, List.mem_dedup,
    List.mem_map, List.mem_filter, AList.mem_values_iff, decide_eq_true_eq,
    lookupExact_eq_some_iff]
  constructor
  · rintro ⟨row, ⟨⟨key, hkey⟩, hav, hpos, hle⟩, rfl⟩
    exact ⟨hpos, hle, key, row, ⟨hkey, hav⟩, rfl⟩
  · rintro ⟨hpos, hle, key, row, ⟨hkey, hav⟩, rfl⟩
    exact ⟨row, ⟨⟨key, hkey⟩, hav, hpos, hle⟩, rfl⟩

/-- The lengths come longest first, each once. -/
theorem availableTextLengths_sorted (t : Table CacheKey Row) (maxLen : Nat) :
    (availableTextLengths t maxLen).Pairwise (· > ·) := by
  unfold availableTextLengths
  generalize ((t.values.filter _).map Row.textBytes) = lens
  rw [List.pairwise_reverse]
  have hsorted := List.pairwise_insertionSort (· ≤ ·) lens.dedup
  have hnodup : (lens.dedup.insertionSort (· ≤ ·)).Nodup :=
    (List.perm_insertionSort (· ≤ ·) lens.dedup).nodup_iff.mpr (List.nodup_dedup lens)
  exact (hsorted.and hnodup).imp fun h => lt_of_le_of_ne h.1 h.2

/-- **Probing.** Over lengths in descending order the probe returns the largest length whose
    candidate key has an available row. -/
theorem probeTextPrefix_eq_some_iff {lens : List Nat} (hlens : lens.Pairwise (· > ·)) {n : Nat}
    {key : CacheKey} {row : Row} :
    probeTextPrefix sha256 t ns bytes lens = some (n, key, row) ↔
      n ∈ lens ∧ key = candidateKey sha256 ns bytes n ∧ lookupExact t key = some row ∧
        ∀ m ∈ lens, (lookupExact t (candidateKey sha256 ns bytes m)).isSome → m ≤ n := by
  induction lens with
  | nil => simp [probeTextPrefix]
  | cons len rest ih =>
    obtain ⟨hlen, hrest⟩ := List.pairwise_cons.mp hlens
    unfold probeTextPrefix
    cases hfound : lookupExact t (candidateKey sha256 ns bytes len) with
    | some row' =>
      simp only [hfound, Option.some.injEq, Prod.mk.injEq, List.mem_cons]
      constructor
      · rintro ⟨rfl, rfl, rfl⟩
        refine ⟨Or.inl rfl, rfl, hfound, ?_⟩
        rintro m (rfl | hm) -
        · exact le_rfl
        · exact (hlen m hm).le
      · rintro ⟨hn, rfl, hrow, hmax⟩
        -- the first length has a row, so no later one can be the largest
        have hle : len ≤ n := hmax len (Or.inl rfl) (by rw [hfound]; rfl)
        have hn' : n = len := by
          rcases hn with rfl | hn
          · rfl
          · exact absurd (hlen n hn) (Nat.not_lt.mpr hle)
        subst hn'
        exact ⟨rfl, rfl, Option.some.inj (hfound.symm.trans hrow)⟩
    | none =>
      simp only [hfound, List.mem_cons]
      rw [ih hrest]
      constructor
      · rintro ⟨hn, hkey, hrow, hmax⟩
        refine ⟨Or.inr hn, hkey, hrow, ?_⟩
        rintro m (rfl | hm) hsome
        · rw [hfound] at hsome; cases hsome
        · exact hmax m hm hsome
      · rintro ⟨rfl | hn, hkey, hrow, hmax⟩
        · cases (hkey ▸ hfound).symm.trans hrow
        · exact ⟨hn, hkey, hrow, fun m hm => hmax m (Or.inr hm)⟩

/-- Nothing is found iff no candidate is. -/
theorem probeTextPrefix_eq_none_iff {lens : List Nat} :
    probeTextPrefix sha256 t ns bytes lens = none ↔
      ∀ m ∈ lens, lookupExact t (candidateKey sha256 ns bytes m) = none := by
  induction lens with
  | nil => simp [probeTextPrefix]
  | cons len rest ih =>
    unfold probeTextPrefix
    cases hfound : lookupExact t (candidateKey sha256 ns bytes len) with
    | some row => simp [hfound]
    | none     => simp [hfound, ih]

/-! ### Rows keyed by their text -/

/-- What a row's key was computed from. -/
structure Origin where
  fingerprint : Digest
  quantType : QuantType
  ctxParamsHash : Digest
  text : Bytes

/-- The bytes whose hash is the key. -/
def Origin.preimage (o : Origin) : Bytes :=
  keyPreimage o.fingerprint o.quantType o.ctxParamsHash o.text

/-- Every available row's key is the key of its own text, and its length column the text's
    length. -/
structure TextKeyed (sha256 : Bytes → Digest) (t : Table CacheKey Row)
    (origin : CacheKey → Origin) : Prop where
  key : ∀ {k row}, lookupExact t k = some row → k = sha256 (origin k).preimage
  textBytes : ∀ {k row}, lookupExact t k = some row → row.textBytes = (origin k).text.length

/-- The hashed bytes that occur: those of the rows, and those of the probes. -/
def hashedBytes (t : Table CacheKey Row) (origin : CacheKey → Origin) (ns : KeyMeta)
    (bytes : Bytes) : Set Bytes :=
  {b | ∃ k, (lookupExact t k).isSome ∧ b = (origin k).preimage} ∪
    {b | ∃ n ≤ bytes.length,
      b = keyPreimage ns.fingerprint ns.quantType ns.ctxParamsHash (bytes.take n)}

/-- The row is of the asked namespace, and its text a non-empty prefix of the prompt. -/
structure Origin.Matches (o : Origin) (ns : KeyMeta) (bytes : Bytes) : Prop where
  fingerprint : o.fingerprint = ns.fingerprint
  quantByte : quantByte o.quantType = quantByte ns.quantType
  ctxParamsHash : o.ctxParamsHash = ns.ctxParamsHash
  nonempty : o.text ≠ []
  isPrefix : o.text <+: bytes

variable {origin : CacheKey → Origin}

/-- A matching row is found under the candidate key of its own length. -/
theorem candidateKey_of_matches (ht : TextKeyed sha256 t origin) {key : CacheKey} {row : Row}
    (hrow : lookupExact t key = some row) (hm : (origin key).Matches ns bytes) :
    candidateKey sha256 ns bytes (origin key).text.length = key := by
  have htake : bytes.take (origin key).text.length = (origin key).text :=
    (List.prefix_iff_eq_take.mp hm.isPrefix).symm
  refine Eq.trans ?_ (ht.key hrow).symm
  unfold candidateKey makeText Origin.preimage keyPreimage
  rw [htake, ← hm.fingerprint, ← hm.quantByte, ← hm.ctxParamsHash]

/-- A row found under a candidate key of positive length matches, and has that length. -/
theorem matches_of_candidateKey (ht : TextKeyed sha256 t origin)
    (hinj : Set.InjOn sha256 (hashedBytes t origin ns bytes)) {n : Nat} (hpos : 0 < n)
    (hle : n ≤ bytes.length) {row : Row}
    (hrow : lookupExact t (candidateKey sha256 ns bytes n) = some row) :
    (origin (candidateKey sha256 ns bytes n)).Matches ns bytes ∧
      (origin (candidateKey sha256 ns bytes n)).text.length = n := by
  have hpre : keyPreimage ns.fingerprint ns.quantType ns.ctxParamsHash (bytes.take n) =
      (origin (candidateKey sha256 ns bytes n)).preimage :=
    hinj (Or.inr ⟨n, hle, rfl⟩) (Or.inl ⟨_, by rw [hrow]; rfl, rfl⟩) (ht.key hrow)
  obtain ⟨hfp, hqt, hctx, htext⟩ := keyPreimage_inj hpre
  have hlen : (bytes.take n).length = n := List.length_take_of_le hle
  refine ⟨⟨hfp.symm, hqt.symm, hctx.symm, ?_, ?_⟩, ?_⟩
  · rw [← htext]
    intro hnil
    rw [hnil] at hlen
    exact hpos.ne hlen
  · rw [← htext]
    exact List.take_prefix n bytes
  · rw [← htext, hlen]

/-- **The longest text prefix is exact.** If the hash does not collide on the bytes that occur
    and every available row is keyed by its own text, the lookup returns a row with `n` iff
    it is the available row of the asked namespace whose text is the longest non-empty stored
    text that is a prefix of the prompt, and `n` is that text's length; it misses iff the
    namespace has no such row. -/
theorem lookupLongestTextPrefix_exact (ht : TextKeyed sha256 t origin)
    (hinj : Set.InjOn sha256 (hashedBytes t origin ns bytes)) :
    (∀ n key row, lookupLongestTextPrefix sha256 t ns bytes = some (n, key, row) ↔
      lookupExact t key = some row ∧ (origin key).Matches ns bytes ∧
        n = (origin key).text.length ∧
        ∀ key' row', lookupExact t key' = some row' → (origin key').Matches ns bytes →
          (origin key').text.length ≤ n) ∧
    (lookupLongestTextPrefix sha256 t ns bytes = none ↔
      ∀ key row, lookupExact t key = some row → ¬ (origin key).Matches ns bytes) := by
  -- a matching row contributes its length to the probe
  have hmem : ∀ {key row}, lookupExact t key = some row → (origin key).Matches ns bytes →
      (origin key).text.length ∈ availableTextLengths t bytes.length := by
    intro key row hrow hm
    exact mem_availableTextLengths.mpr ⟨List.length_pos_of_ne_nil hm.nonempty,
      hm.isPrefix.length_le, key, row, hrow, ht.textBytes hrow⟩
  constructor
  · intro n key row
    unfold lookupLongestTextPrefix
    rw [probeTextPrefix_eq_some_iff (availableTextLengths_sorted t _)]
    constructor
    · rintro ⟨hn, rfl, hrow, hmax⟩
      obtain ⟨hpos, hle, -⟩ := mem_availableTextLengths.mp hn
      obtain ⟨hm, hlen⟩ := matches_of_candidateKey ht hinj hpos hle hrow
      refine ⟨hrow, hm, hlen.symm, fun key' row' hrow' hm' => ?_⟩
      refine hmax _ (hmem hrow' hm') ?_
      rw [candidateKey_of_matches ht hrow' hm', hrow']
      rfl
    · rintro ⟨hrow, hm, rfl, hmax⟩
      refine ⟨hmem hrow hm, (candidateKey_of_matches ht hrow hm).symm, hrow,
        fun m hm' hsome => ?_⟩
      obtain ⟨row', hrow'⟩ := Option.isSome_iff_exists.mp hsome
      obtain ⟨hpos, hle, -⟩ := mem_availableTextLengths.mp hm'
      obtain ⟨hmatch, hlen⟩ := matches_of_candidateKey ht hinj hpos hle hrow'
      exact hlen ▸ hmax _ row' hrow' hmatch
  · unfold lookupLongestTextPrefix
    rw [probeTextPrefix_eq_none_iff]
    constructor
    · intro hnone key row hrow hm
      have h := hnone _ (hmem hrow hm)
      rw [candidateKey_of_matches ht hrow hm, hrow] at h
      cases h
    · intro hno m hm
      obtain ⟨hpos, hle, -⟩ := mem_availableTextLengths.mp hm
      by_contra hsome
      obtain ⟨row, hrow⟩ := Option.ne_none_iff_exists'.mp hsome
      exact hno _ row hrow (matches_of_candidateKey ht hinj hpos hle hrow).1

/-- A hash that keeps the first byte of the fingerprint and what follows the three namespace
    fields, up to 32 bytes. -/
def nestedHash (b : Bytes) : Digest :=
  ⟨(b.take 1 ++ b.drop 65 ++ List.replicate 32 0).take 32, by
    rw [List.length_take, List.length_append, List.length_replicate]
    omega⟩

/-- The namespace of the lookups below. -/
def nestedNs : KeyMeta := ⟨.fill 1, .f16, .fill 2⟩

/-- The texts `a` and `ab` in that namespace, and `abc` in another. -/
def nestedTexts : List Origin :=
  [⟨.fill 1, .f16, .fill 2, [97]⟩, ⟨.fill 1, .f16, .fill 2, [97, 98]⟩,
    ⟨.fill 3, .f16, .fill 2, [97, 98, 99]⟩]

/-- An available row for each of them. -/
def nestedTable : Table CacheKey Row :=
  nestedTexts.foldr (fun o t => t.insert (nestedHash o.preimage)
    { tier := .disk, size := 100, lastUsed := 0, refcount := 0, status := .available,
      headerBin := [], location := .disk none, tokensRef := none, hits := 0,
      textBytes := o.text.length, pinned := false }) ∅

/-- Where the rows come from. -/
def nestedOrigin (key : CacheKey) : Origin :=
  (nestedTexts.find? fun o => nestedHash o.preimage = key).getD ⟨.fill 1, .f16, .fill 2, []⟩

/-- A row of the table is the row of one of the texts. -/
theorem mem_nestedTable {key : CacheKey} {row : Row}
    (h : lookupExact nestedTable key = some row) :
    ∃ o ∈ nestedTexts, key = nestedHash o.preimage ∧ nestedOrigin key = o ∧
      row.textBytes = o.text.length := by
  obtain ⟨hlookup, -⟩ := lookupExact_eq_some_iff.mp h
  simp only [nestedTable, nestedTexts, List.foldr_cons, List.foldr_nil,
    AList.lookup_insert_ite] at hlookup
  split at hlookup
  · rename_i hkey
    cases hlookup
    subst hkey
    exact ⟨_, by simp [nestedTexts], rfl, rfl, rfl⟩
  · split at hlookup
    · rename_i hkey
      cases hlookup
      subst hkey
      exact ⟨_, by simp [nestedTexts], rfl, rfl, rfl⟩
    · split at hlookup
      · rename_i hkey
        cases hlookup
        subst hkey
        exact ⟨_, by simp [nestedTexts], rfl, rfl, rfl⟩
      · cases hlookup

/-- The rows are under their keys. -/
theorem nestedTable_keyed : TextKeyed nestedHash nestedTable nestedOrigin where
  key h := by
    obtain ⟨o, -, hkey, horigin, -⟩ := mem_nestedTable h
    rw [horigin, hkey]
  textBytes h := by
    obtain ⟨o, -, -, horigin, hlen⟩ := mem_nestedTable h
    rw [horigin, hlen]

/-- What is hashed for the rows and the probes. -/
def nestedHashed (bytes : Bytes) : List Bytes :=
  nestedTexts.map Origin.preimage ++ (List.range (bytes.length + 1)).map fun n =>
    keyPreimage (.fill 1) .f16 (.fill 2) (bytes.take n)

/-- The hash tells what is hashed here apart. -/
theorem nestedHash_injOn {bytes : Bytes}
    (h : ∀ a ∈ nestedHashed bytes, ∀ b ∈ nestedHashed bytes,
      nestedHash a = nestedHash b → a = b) :
    Set.InjOn nestedHash (hashedBytes nestedTable nestedOrigin nestedNs bytes) := by
  have hsub : ∀ b ∈ hashedBytes nestedTable nestedOrigin nestedNs bytes,
      b ∈ nestedHashed bytes := by
    rintro b (⟨k, hk, rfl⟩ | ⟨n, hn, rfl⟩)
    · obtain ⟨row, hrow⟩ := Option.isSome_iff_exists.mp hk
      obtain ⟨o, ho, -, horigin, -⟩ := mem_nestedTable hrow
      rw [horigin]
      exact List.mem_append_left _ (List.mem_map_of_mem ho)
    · exact List.mem_append_right _
        (List.mem_map.mpr ⟨n, List.mem_range.mpr (Nat.lt_succ_of_le hn), rfl⟩)
  exact fun a ha b hb heq => h a (hsub a ha) b (hsub b hb) heq

/-- The prompt `abc` finds the row of `ab`, not the shorter one and not that of the other
    namespace; the prompt `b` finds none. -/
theorem lookupLongestTextPrefix_exact_nested :
    (∃ key row, lookupLongestTextPrefix nestedHash nestedTable nestedNs [97, 98, 99] =
      some (2, key, row)) ∧
      lookupLongestTextPrefix nestedHash nestedTable nestedNs [98] = none := by
  constructor
  · refine ⟨nestedHash (keyPreimage (.fill 1) .f16 (.fill 2) [97, 98]), _,
      ((lookupLongestTextPrefix_exact nestedTable_keyed
        (nestedHash_injOn (by decide +kernel))).1 2 _ _).mpr ⟨rfl, ?_, rfl, ?_⟩⟩
    · exact ⟨rfl, rfl, rfl, by decide, [99], rfl⟩
    · intro key row hrow hm
      obtain ⟨o, ho, -, horigin, -⟩ := mem_nestedTable hrow
      rw [horigin] at hm ⊢
      simp only [nestedTexts, List.mem_cons, List.not_mem_nil, or_false] at ho
      rcases ho with rfl | rfl | rfl
      · decide
      · decide
      · exact absurd hm.fingerprint (by decide)
  · refine (lookupLongestTextPrefix_exact nestedTable_keyed
      (nestedHash_injOn (by decide +kernel))).2.mpr ?_
    intro key row hrow hm
    obtain ⟨o, ho, -, horigin, -⟩ := mem_nestedTable hrow
    rw [horigin] at hm
    simp only [nestedTexts, List.mem_cons, List.not_mem_nil, or_false] at ho
    rcases ho with rfl | rfl | rfl <;> exact absurd hm.isPrefix (by decide)

end Erllama.MetaSrv
