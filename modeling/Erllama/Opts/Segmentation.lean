import Erllama.Model.Checkpoints
import Erllama.Opts.Policy
import Mathlib.Data.List.Chain

namespace Erllama.Opts

open Model (segBoundaryOffsets policyCuts policyCuts_ascending segBoundaryOffsets_cold)

/-!
# Cutting a cold prompt

`erllama_cache_policy:cold_save_split/2` cuts a cold prompt once, at the trim boundary;
`cold_save_segments/2` cuts it there and at the points of the checkpoint ladder below it.

* `coldSaveSplit` — the single cut.
* `Segmentation` — what segments are a lawful partition of a prompt.
* `multiples_isChain` — neighbouring points of the ladder are one aligned step apart.
* `coldSaveSegments_lawful` — the segments of every policy that passes its check.
-/

/-- `cold_save_split/2`; `none` is `no_save`. -/
def coldSaveSplit (cfg : PolicyMap) (tokens : List Token) :
    Except Crash (Option (List Token × List Token)) := do
  let min ← cfg.get .coldMinTokens
  let max ← cfg.get .coldMaxTokens
  let trim ← cfg.get .boundaryTrimTokens
  let align ← cfg.get .boundaryAlignTokens
  if min.above tokens.length || max.below tokens.length then return none
  else
    match ← trimCount tokens.length trim align with
    | none   => return none
    | some n => return some (← split n tokens)

/-- The distance between points of the ladder: the interval, rounded down to the alignment. -/
def alignedStep (interval align : Nat) : Nat := max align (interval / align * align)

/-- The segments are a lawful partition of the tokens, cut where the split cuts them and at the
    ladder's points before it. -/
structure Segmentation (p : Policy) (tokens : List Token) (segs : List (List Token))
    (cut : Option (List Token × List Token)) : Prop where
  nonempty : segs ≠ []
  flatten : segs.flatten = tokens
  ascending : (segBoundaryOffsets segs).Pairwise (· < ·)
  aligned : ∀ b ∈ segBoundaryOffsets segs, 0 < b ∧ p.boundaryAlignTokens ∣ b
  cut_iff : segBoundaryOffsets segs ≠ [] ↔ cut.isSome
  last_cut : ∀ pre rest, cut = some (pre, rest) →
    pre ++ rest = tokens ∧ (segBoundaryOffsets segs).getLast? = some pre.length
  ladder_rows : (segBoundaryOffsets segs).dropLast.length ≤ p.maxLadderRows
  ladder_min : ∀ b ∈ (segBoundaryOffsets segs).dropLast, p.coldMinTokens ≤ b
  ladder_spaced : (segBoundaryOffsets segs).dropLast.IsChain fun a b =>
    b = a + alignedStep p.ladderInterval p.boundaryAlignTokens
  no_ladder : p.maxLadderRows = 0 →
    segs = (cut.map fun c => [c.1, c.2]).getD [tokens]

/-! ### The ladder -/

/-- The multiples of a step that lie in a band follow each other. -/
theorem multiples_isChain {step : Nat} (hstep : 0 < step) (m t s n : Nat) :
    (((List.range' s n).map (· * step)).filter fun b => m ≤ b && b < t).IsChain
      fun a b => b = a + step := by
  have hcons := fun (k : Nat) (ks : List Nat) =>
    @List.filter_cons _ (k * step) ks fun b => decide (m ≤ b) && decide (b < t)
  induction n generalizing s with
  | zero => exact .nil
  | succ n ih =>
    rw [List.range'_succ, List.map_cons, hcons]
    by_cases hs : (m ≤ s * step && s * step < t) = true
    case neg =>
      rw [if_neg hs]
      exact ih (s + 1)
    case pos =>
      rw [if_pos hs, List.isChain_cons]
      refine ⟨?_, ih (s + 1)⟩
      simp only [Bool.and_eq_true, decide_eq_true_eq] at hs
      have hnext : (s + 1) * step = s * step + step := Nat.succ_mul s step
      intro b hb
      cases n with
      | zero => exact nomatch hb
      | succ n =>
        rw [List.range'_succ, List.map_cons, hcons] at hb
        by_cases hlt : (s + 1) * step < t
        · -- the next multiple is still in the band
          have hband : (m ≤ (s + 1) * step && (s + 1) * step < t) = true := by
            simp only [Bool.and_eq_true, decide_eq_true_eq]
            omega
          rw [if_pos hband] at hb
          cases hb
          exact hnext
        · -- the band ends here
          rw [← hcons] at hb
          have hmem := List.mem_of_mem_head? hb
          rw [← List.map_cons (f := (· * step)), ← List.range'_succ] at hmem
          obtain ⟨hrange, hin⟩ := List.mem_filter.mp hmem
          obtain ⟨k, hk, rfl⟩ := List.mem_map.mp hrange
          have hle : s + 1 ≤ k := (List.mem_range'_1.mp hk).1
          have hmul : (s + 1) * step ≤ k * step := Nat.mul_le_mul_right step hle
          simp only [Bool.and_eq_true, decide_eq_true_eq] at hin
          omega

theorem alignedStep_pos {align : Nat} (h : 0 < align) (interval : Nat) :
    0 < alignedStep interval align := by
  unfold alignedStep
  omega

theorem dvd_alignedStep (interval align : Nat) : align ∣ alignedStep interval align := by
  unfold alignedStep
  rcases max_choice align (interval / align * align) with heq | heq
  · rw [heq]
  · rw [heq]
    exact Nat.dvd_mul_left ..

/-- Every cut of a policy is a multiple of its alignment. -/
theorem dvd_of_mem_policyCuts {p : Policy} {len b : Nat} (h : b ∈ policyCuts p len) :
    p.boundaryAlignTokens ∣ b := by
  obtain ⟨-, -, t, ht, hb⟩ := (Model.mem_policyCuts p).mp h
  rcases hb with rfl | hladder
  · unfold Erllama.trimCount at ht
    split at ht
    · exact nomatch ht
    · rw [← Option.some.inj ht]
      exact Nat.dvd_mul_left ..
  · unfold Erllama.ladderBoundaries at hladder
    obtain ⟨k, -, rfl⟩ := List.mem_map.mp (List.mem_filter.mp hladder).1
    exact Nat.dvd_mul_left_of_dvd (dvd_alignedStep ..) k

/-! ### A policy over natural numbers -/

/-- `cold_save_split/2` of a policy. -/
def policySplit (p : Policy) (tokens : List Token) : Option (List Token × List Token) :=
  if tokens.length < p.coldMinTokens ∨ p.coldMaxTokens < tokens.length then none
  else
    (Erllama.trimCount tokens.length p.boundaryTrimTokens p.boundaryAlignTokens).map tokens.splitAt

variable {cfg : PolicyMap} {p : Policy}

/-- The split is that of the policy. -/
theorem coldSaveSplit_reads (h : Reads cfg p) (tokens : List Token) :
    coldSaveSplit cfg tokens = .ok (policySplit p tokens) := by
  unfold coldSaveSplit policySplit
  rw [PolicyMap.get_eq h.coldMinTokens, PolicyMap.get_eq h.coldMaxTokens,
    PolicyMap.get_eq h.boundaryTrimTokens, PolicyMap.get_eq h.boundaryAlignTokens]
  show (if _ then _ else trimCount tokens.length _ _ >>= fun t => _) = _
  by_cases hband : tokens.length < p.coldMinTokens ∨ p.coldMaxTokens < tokens.length
  · rw [if_pos hband, if_pos (by simpa using hband)]
    rfl
  · rw [if_neg hband, if_neg (by simpa using hband), trimCount_nat _ _ p.align_pos]
    cases hcount : Erllama.trimCount tokens.length p.boundaryTrimTokens p.boundaryAlignTokens with
    | none => rfl
    | some n =>
      have hn := trimCount_le hcount
      have hsplit : split (n : Int) tokens = .ok (tokens.take n, tokens.drop n) := by
        rw [split, if_pos (by omega)]
        rfl
      show (split (n : Int) tokens >>= fun s => _) = _
      rw [hsplit]
      simp [pure, Except.pure, bind, Except.bind, List.splitAt_eq]

/-- **The segments of a policy** are a lawful partition of every prompt. -/
theorem segmentation (p : Policy) (tokens : List Token) :
    Segmentation p tokens (Erllama.coldSaveSegments p tokens) (policySplit p tokens) := by
  have hcuts := segBoundaryOffsets_cold p tokens
  have hsorted := policyCuts_ascending p tokens.length
  -- the cuts are the ladder and then the trim boundary, or there are none
  have hshape : policyCuts p tokens.length = [] ∧ policySplit p tokens = none ∧
        Erllama.coldSaveSegments p tokens = [tokens] ∨
      ∃ t, t ≤ tokens.length ∧ policyCuts p tokens.length =
          Erllama.ladderBoundaries p t p.coldMinTokens p.boundaryAlignTokens ++ [t] ∧
        policySplit p tokens = some (tokens.take t, tokens.drop t) ∧
        Erllama.coldSaveSegments p tokens = splitAtBoundaries
          (Erllama.ladderBoundaries p t p.coldMinTokens p.boundaryAlignTokens ++ [t]) 0 tokens := by
    unfold policyCuts policySplit Erllama.coldSaveSegments
    -- Outside of the band, and for prompts that leave nothing to trim, there is one segment.
    by_cases hband : tokens.length < p.coldMinTokens ∨ p.coldMaxTokens < tokens.length
    · exact .inl ⟨if_pos hband, if_pos hband, if_pos hband⟩
    · rw [if_neg hband, if_neg hband]
      dsimp only
      rw [if_neg hband]
      cases ht : Erllama.trimCount tokens.length p.boundaryTrimTokens p.boundaryAlignTokens with
      | none   => exact .inl ⟨rfl, rfl, rfl⟩
      | some t =>
        refine .inr ⟨t, trimCount_le ht, rfl, ?_, rfl⟩
        rw [Option.map_some, List.splitAt_eq]
  have hdvd : ∀ b ∈ policyCuts p tokens.length, p.boundaryAlignTokens ∣ b :=
    fun b hb => dvd_of_mem_policyCuts hb
  have hflat := coldSaveSegments_flatten p tokens
  -- First the prompts with one segment.
  rcases hshape with ⟨hnone, hsplit, hsegs⟩ | ⟨t, ht, hsome, hsplit, hsegs⟩
  · rw [hnone] at hcuts
    constructor
    · rw [hsegs]
      exact List.cons_ne_nil _ _
    · exact hflat
    · rw [hcuts]
      exact .nil
    · rw [hcuts]
      exact nofun
    · rw [hcuts, hsplit]
      simp
    · rw [hsplit]
      exact nofun
    · rw [hcuts]
      exact Nat.zero_le _
    · rw [hcuts]
      exact nofun
    · rw [hcuts]
      exact .nil
    · rw [hsplit, hsegs]
      exact fun _ => rfl
  -- Then those with cuts: the rungs of the ladder come from the policy's step.
  · have hladder := fun b hb => Model.mem_ladderBoundaries p (b := b) (t := t)
      (m := p.coldMinTokens) p.align_pos hb
    constructor
    · intro hnil
      rw [hnil] at hcuts
      rw [hsome] at hcuts
      simp [segBoundaryOffsets, Model.cumulativeLengths] at hcuts
    · exact hflat
    · rw [hcuts]
      exact hsorted.1
    · rw [hcuts]
      exact fun b hb => ⟨(hsorted.2 b hb).1, hdvd b hb⟩
    · rw [hcuts, hsome, hsplit]
      simp
    · rw [hcuts, hsome, hsplit]
      rintro _ _ ⟨⟩
      refine ⟨List.take_append_drop t tokens, ?_⟩
      rw [List.getLast?_concat, List.length_take_of_le ht]
    · rw [hcuts, hsome, List.dropLast_concat]
      have hrows := List.length_filter_le (fun b => p.coldMinTokens ≤ b && b < t)
        ((List.range' 1 p.maxLadderRows).map
          (· * alignedStep p.ladderInterval p.boundaryAlignTokens))
      rw [List.length_map, List.length_range'] at hrows
      exact hrows
    · rw [hcuts, hsome, List.dropLast_concat]
      exact fun b hb => (hladder b hb).2.1
    · rw [hcuts, hsome, List.dropLast_concat]
      -- the rungs are multiples of one step
      exact multiples_isChain (alignedStep_pos p.align_pos _) p.coldMinTokens t 1 p.maxLadderRows
    · intro hrows
      have hnil : Erllama.ladderBoundaries p t p.coldMinTokens p.boundaryAlignTokens = [] := by
        unfold Erllama.ladderBoundaries
        rw [hrows]
        rfl
      rw [hsegs, hsplit, hnil]
      rfl

/-! ### Policies that pass the check -/

/-- The policy without a chunk size, which its check and its cuts do not look at. -/
def withoutChunk (cfg : PolicyMap) : PolicyMap := fun k =>
  if k = .prefillChunkSize then none else cfg k

/-- The check passes only with all the required keys. -/
theorem keys_of_valid (h : validateConfig cfg = .ok (.ok ())) :
    ∀ k ∈ requiredKeys, ∃ l, cfg k = some l := by
  unfold validateConfig at h
  split at h
  case h_1 hnil =>
    intro k hk
    have hnot := List.filter_eq_nil_iff.mp hnil k hk
    exact Option.isSome_iff_exists.mp (by simpa [Option.isSome_iff_ne_none] using hnot)
  case h_2 => exact nomatch h

/-- A policy that passes the check is one of `Erllama.Policy`. -/
theorem reads_of_valid (h : validateConfig cfg = .ok (.ok ())) :
    ∃ p, Reads (withoutChunk cfg) p := by
  have hkey := keys_of_valid h
  obtain ⟨min, hmin⟩ := hkey .minTokens (by decide)
  obtain ⟨coldMin, hcoldMin⟩ := hkey .coldMinTokens (by decide)
  obtain ⟨coldMax, hcoldMax⟩ := hkey .coldMaxTokens (by decide)
  obtain ⟨interval, hinterval⟩ := hkey .continuedInterval (by decide)
  obtain ⟨trim, htrim⟩ := hkey .boundaryTrimTokens (by decide)
  obtain ⟨align, halign⟩ := hkey .boundaryAlignTokens (by decide)
  have hchecks := (validateConfig_ok_iff hmin hcoldMin hcoldMax hinterval htrim halign).mp h
  simp only [invariantChecks, List.forall_mem_cons, List.not_mem_nil, false_imp_iff, implies_true,
    and_true] at hchecks
  obtain ⟨hminOk, hcoldMinOk, hcoldMaxOk, hintervalOk, htrimOk, halignOk, hladderOk, hrowsOk⟩ :=
    hchecks
  obtain ⟨min, rfl, -⟩ := natFrom_nat.mp hminOk
  obtain ⟨coldMin, rfl, -⟩ := natFrom_nat.mp hcoldMinOk
  obtain ⟨coldMax, rfl, -⟩ := natFrom_nat.mp hcoldMaxOk
  obtain ⟨interval, rfl, hintervalPos⟩ := natFrom_nat.mp hintervalOk
  obtain ⟨trim, rfl, -⟩ := natFrom_nat.mp htrimOk
  obtain ⟨align, rfl, halignPos⟩ := natFrom_nat.mp halignOk
  obtain ⟨ladder, hladder, -⟩ := natFrom_nat.mp hladderOk
  obtain ⟨rows, hrows, -⟩ := natFrom_nat.mp hrowsOk
  let p : Policy :=
    { minTokens := min
      coldMinTokens := coldMin
      coldMaxTokens := coldMax
      continuedInterval := interval
      boundaryTrimTokens := trim
      boundaryAlignTokens := align
      ladderInterval := ladder
      maxLadderRows := rows
      -- neither the wait nor the chunk size takes part in the cuts
      sessionResumeWaitMs := 500
      prefillChunkSize := none
      align_pos := halignPos
      interval_pos := hintervalPos
      chunk_pos := fun _ h => by cases h }
  exact ⟨p, hmin, hcoldMin, hcoldMax, hinterval, htrim, halign, hladder, hrows, rfl⟩

/-- **Lawful cuts.** With every policy that passes its check, both functions return on every
    prompt; the segments partition it, cut at positive multiples of the alignment: at the
    split's cut, and at points of the ladder before it. -/
theorem coldSaveSegments_lawful (h : validateConfig cfg = .ok (.ok ())) (tokens : List Token) :
    ∃ p segs cut, Reads (withoutChunk cfg) p ∧ coldSaveSegments cfg tokens = .ok segs ∧
      coldSaveSplit cfg tokens = .ok cut ∧ Segmentation p tokens segs cut := by
  obtain ⟨p, hp⟩ := reads_of_valid h
  have hsegs : coldSaveSegments (withoutChunk cfg) tokens = coldSaveSegments cfg tokens := rfl
  have hsplit : coldSaveSplit (withoutChunk cfg) tokens = coldSaveSplit cfg tokens := rfl
  refine ⟨p, _, _, hp, ?_, ?_, segmentation p tokens⟩
  · rw [← hsegs, coldSaveSegments_reads hp]
  · rw [← hsplit, coldSaveSplit_reads hp]

/-- A ladder of two rows below the trim boundary of ten tokens. -/
def ladderedPolicy : PolicyMap
  | .minTokens           => some (.nat 1)
  | .coldMinTokens       => some (.nat 2)
  | .coldMaxTokens       => some (.nat 100)
  | .continuedInterval   => some (.nat 8)
  | .boundaryTrimTokens  => some (.nat 1)
  | .boundaryAlignTokens => some (.nat 2)
  | .ladderInterval      => some (.nat 3)
  | .maxLadderRows       => some (.nat 2)
  | _                    => none

/-- Its prompt is cut at two, four and eight. -/
theorem ladderedPolicy_lawful :
    coldSaveSegments ladderedPolicy [0, 1, 2, 3, 4, 5, 6, 7, 8, 9] =
        .ok [[0, 1], [2, 3], [4, 5, 6, 7], [8, 9]] ∧
      ∃ p segs cut, Reads (withoutChunk ladderedPolicy) p ∧
        coldSaveSegments ladderedPolicy [0, 1, 2, 3, 4, 5, 6, 7, 8, 9] = .ok segs ∧
        coldSaveSplit ladderedPolicy [0, 1, 2, 3, 4, 5, 6, 7, 8, 9] = .ok cut ∧
        Segmentation p [0, 1, 2, 3, 4, 5, 6, 7, 8, 9] segs cut :=
  ⟨by decide +kernel, coldSaveSegments_lawful rfl _⟩

end Erllama.Opts
