import Erllama.CachePolicy
import Erllama.Model.Tick
import Erllama.Opts.LoadConfig
import Mathlib.Data.List.TakeWhile

namespace Erllama.Opts

/-!
# The policy a model runs under

The load config accepts any natural number and `infinity` for every key of a policy;
`resolve_policy/2` merges it over the defaults, and `erllama_cache_policy:validate_config/1`,
which says what the policy functions can work with, is not called on the way.  The functions
are embedded here on the values as they are accepted, with the errors they raise.

* `Limit`, `PolicyMap` — an accepted value, and a policy before and after the merge.
* `resolvePolicy`, `validateConfig` — the merge, and the check that nothing calls.
* `Usable` — the check passes, and the policy functions raise no error on any input.
* `Reads` — the policy is one of `Erllama.Policy`, and each function is the one over it.
* `usable_iff` — an accepted policy is usable iff its values are in range.
-/

/-- An accepted value of a policy key. -/
inductive Limit where
  | nat (n : Nat)
  | infinity
deriving DecidableEq

/-- A policy map. -/
abbrev PolicyMap := PolicyKey → Option Limit

/-- The errors the policy functions raise. -/
inductive Crash where
  | badarith
  | badarg
  | functionClause
  | badkey (key : PolicyKey)
deriving DecidableEq

namespace Limit

/-- A term as a value of a policy. -/
def ofTerm : Term → Option Limit
  | .int n  => if 0 ≤ n then some (.nat n.toNat) else none
  | .atom a => if a = "infinity" then some .infinity else none
  | _       => none

/-- `N < Limit`: an atom is above every number. -/
def above (n : Int) : Limit → Bool
  | .nat m    => n < m
  | .infinity => true

/-- `N >= Limit`. -/
def atMost (n : Int) (l : Limit) : Bool := !l.above n

/-- `N > Limit`. -/
def below (n : Int) : Limit → Bool
  | .nat m    => m < n
  | .infinity => false

/-- An operand of an arithmetic operator. -/
def num : Limit → Except Crash Int
  | .nat n    => .ok n
  | .infinity => .error .badarith

end Limit

/-- `div`. -/
def quot (a b : Int) : Except Crash Int :=
  if b = 0 then .error .badarith else .ok (a.tdiv b)

/-- `maps:get/2`. -/
def PolicyMap.get (cfg : PolicyMap) (k : PolicyKey) : Except Crash Limit :=
  match cfg k with
  | some l => .ok l
  | none   => .error (.badkey k)

/-! ### The merge -/

/-- The policy of an accepted config. -/
def policyOf (c : Entries) : PolicyMap := fun k =>
  (find k.name (subMap "policy" c)).bind Limit.ofTerm

/-- What `resolve_policy/2` falls back to; `appEnv` is the application environment. -/
def policyDefaults (appEnv : PolicyMap) (nBatch : Nat) : PolicyMap
  | .minTokens           => (appEnv .minTokens).getD (.nat 512)
  | .coldMinTokens       => (appEnv .coldMinTokens).getD (.nat 512)
  | .coldMaxTokens       => (appEnv .coldMaxTokens).getD (.nat 30000)
  | .continuedInterval   => (appEnv .continuedInterval).getD (.nat 2048)
  | .boundaryTrimTokens  => (appEnv .boundaryTrimTokens).getD (.nat 32)
  | .boundaryAlignTokens => (appEnv .boundaryAlignTokens).getD (.nat 2048)
  | .sessionResumeWaitMs => (appEnv .sessionResumeWaitMs).getD (.nat 500)
  -- this one does not look at the application environment
  | .prefillChunkSize    => some (.nat (max 64 (nBatch / 4)))
  | .ladderInterval      => none
  | .maxLadderRows       => none

/-- `resolve_policy/2`. -/
def resolvePolicy (appEnv : PolicyMap) (nBatch : Nat) (policy : PolicyMap) : PolicyMap := fun k =>
  (policy k).or (policyDefaults appEnv nBatch k)

/-! ### `erllama_cache_policy` on accepted values -/

/-- `trim_count/3`. -/
def trimCount (len : Nat) (trim align : Limit) : Except Crash (Option Int) := do
  let t ← trim.num
  let afterTrim : Int := len - t
  if align.above afterTrim then return none
  else
    let a ← align.num
    let q ← quot afterTrim a
    return some (q * a)

/-- `lists:seq(1, Last)`. -/
def seqTo : Limit → Except Crash (List Int)
  | .nat n    => .ok ((List.range' 1 n).map Int.ofNat)
  | .infinity => .error .functionClause

/-- `ladder_boundaries/4`. -/
def ladderBoundaries (trimBoundary : Int) (min align : Limit) (cfg : PolicyMap) :
    Except Crash (List Int) := do
  let maxRows := (cfg .maxLadderRows).getD (.nat 0)
  let interval := (cfg .ladderInterval).getD (.nat 16384)
  let i ← interval.num
  let a ← align.num
  let q ← quot i a
  -- `max(Align, (Interval div Align) * Align)`
  let step := max a (q * a)
  let rows ← seqTo maxRows
  return (rows.map (· * step)).filter fun b => min.atMost b && b < trimBoundary

/-- `lists:split/2`. -/
def split (n : Int) (tokens : List Token) : Except Crash (List Token × List Token) :=
  if 0 ≤ n ∧ n ≤ tokens.length then .ok (tokens.take n.toNat, tokens.drop n.toNat)
  else .error .badarg

/-- `split_at/4`. -/
def splitAt : List Int → Int → List Token → List (List Token) → Except Crash (List (List Token))
  | [],      _,   rest,   acc => .ok (rest :: acc).reverse
  | b :: bs, pos, tokens, acc => do
    let (seg, rest) ← split (b - pos) tokens
    splitAt bs b rest (seg :: acc)

/-- `cold_save_segments/2`. -/
def coldSaveSegments (cfg : PolicyMap) (tokens : List Token) :
    Except Crash (List (List Token)) := do
  let min ← cfg.get .coldMinTokens
  let max ← cfg.get .coldMaxTokens
  let trim ← cfg.get .boundaryTrimTokens
  let align ← cfg.get .boundaryAlignTokens
  if min.above tokens.length || max.below tokens.length then return [tokens]
  else
    match ← trimCount tokens.length trim align with
    | none => return [tokens]
    | some trimBoundary =>
      let ladder ← ladderBoundaries trimBoundary min align cfg
      splitAt (ladder ++ [trimBoundary]) 0 tokens []

/-- `should_continued_save/3`. -/
def shouldContinuedSave (cfg : PolicyMap) (liveCount lastSavedAt : Nat) : Except Crash Bool := do
  let interval ← cfg.get .continuedInterval
  let min ← cfg.get .minTokens
  return interval.atMost (liveCount - lastSavedAt) && min.atMost liveCount

/-- `should_finish_save/2`. -/
def shouldFinishSave (cfg : PolicyMap) (liveCount : Nat) : Except Crash Bool := do
  let min ← cfg.get .minTokens
  return min.atMost liveCount

/-- `prefill_slice_cap/3`. -/
def prefillSliceCap (n remaining : Nat) : Limit → Except Crash Nat
  | .infinity => .ok (min n remaining)
  | .nat c    => if 0 < c then .ok (min n (min remaining c)) else .error .functionClause

/-- `slice_prefills/3`. -/
def slicePrefills (chunkSize : Limit) :
    List (SeqId × Op) → Nat → Except Crash (List (SeqId × Op))
  | [], _ => .ok []
  | (q, .decode ref) :: ops, remaining => do
    let rest ← slicePrefills chunkSize ops remaining
    return (q, .decode ref) :: rest
  | (q, .prefill tokens) :: ops, remaining =>
    if remaining = 0 then slicePrefills chunkSize ops 0
    else do
      let cap ← prefillSliceCap tokens.length remaining chunkSize
      let rest ← slicePrefills chunkSize ops (remaining - cap)
      return (q, .prefill (tokens.take cap)) :: rest

/-- The prefill slicing of a tick: `apply_batch_budget/2` with `remaining` rows left. -/
def tickSlices (cfg : PolicyMap) (ops : List (SeqId × Op)) (remaining : Nat) :
    Except Crash (List (SeqId × Op)) :=
  slicePrefills ((cfg .prefillChunkSize).getD .infinity) ops remaining

/-! ### `validate_config/1` -/

/-- The reasons of `validate_config/1`. -/
inductive PolicyError where
  | missingKeys (keys : List PolicyKey)
  | invalid (key : PolicyKey) (value : Limit)
  | coldMinTokensLtMinTokens
  | coldMaxTokensLtColdMinTokens

/-- `is_integer(V) andalso V >= L`. -/
def natFrom (l : Limit) : Limit → Bool
  | .nat n    => l.atMost n
  | .infinity => false

/-- The keys that must be present. -/
def requiredKeys : List PolicyKey :=
  [.minTokens, .coldMinTokens, .coldMaxTokens, .continuedInterval, .boundaryTrimTokens,
   .boundaryAlignTokens]

/-- The checks of `check_invariants/1`, each with its reason. -/
def invariantChecks (min coldMin coldMax interval trim align ladderInterval maxRows : Limit) :
    List (Bool × PolicyError) :=
  [(natFrom (.nat 0) min, .invalid .minTokens min),
   (natFrom min coldMin, .coldMinTokensLtMinTokens),
   (natFrom coldMin coldMax, .coldMaxTokensLtColdMinTokens),
   (natFrom (.nat 1) interval, .invalid .continuedInterval interval),
   (natFrom (.nat 0) trim, .invalid .boundaryTrimTokens trim),
   (natFrom (.nat 1) align, .invalid .boundaryAlignTokens align),
   (natFrom (.nat 1) ladderInterval, .invalid .ladderInterval ladderInterval),
   (natFrom (.nat 0) maxRows, .invalid .maxLadderRows maxRows)]

/-- `check_invariants/1`. -/
def checkInvariants (cfg : PolicyMap) : Except Crash (Except PolicyError Unit) := do
  let min ← cfg.get .minTokens
  let coldMin ← cfg.get .coldMinTokens
  let coldMax ← cfg.get .coldMaxTokens
  let interval ← cfg.get .continuedInterval
  let trim ← cfg.get .boundaryTrimTokens
  let align ← cfg.get .boundaryAlignTokens
  let ladderInterval := (cfg .ladderInterval).getD (.nat 16384)
  let maxRows := (cfg .maxLadderRows).getD (.nat 0)
  let checks := invariantChecks min coldMin coldMax interval trim align ladderInterval maxRows
  match checks.dropWhile Prod.fst with
  | []               => return .ok ()
  | (_, reason) :: _ => return .error reason

/-- `validate_config/1`. -/
def validateConfig (cfg : PolicyMap) : Except Crash (Except PolicyError Unit) :=
  match requiredKeys.filter fun k => (cfg k).isNone with
  | []      => checkInvariants cfg
  | missing => .ok (.error (.missingKeys missing))

/-! ### Usable policies -/

/-- The call returns. -/
def Defined {α : Type} (x : Except Crash α) : Prop := ∃ a, x = .ok a

/-- The policy passes its own module's check, and no policy function raises an error. -/
structure Usable (cfg : PolicyMap) : Prop where
  valid : validateConfig cfg = .ok (.ok ())
  segments : ∀ tokens, Defined (coldSaveSegments cfg tokens)
  continued : ∀ liveCount lastSavedAt, Defined (shouldContinuedSave cfg liveCount lastSavedAt)
  finish : ∀ liveCount, Defined (shouldFinishSave cfg liveCount)
  slices : ∀ ops remaining, Defined (tickSlices cfg ops remaining)

/-! ### A policy in range is one of `Erllama.Policy` -/

/-- An absent chunk size and `infinity` both mean no chunks. -/
def Limit.ofOption : Option Nat → Limit
  | some n => .nat n
  | none   => .infinity

/-- The map holds the values of `p`; an absent optional key has its default. -/
structure Reads (cfg : PolicyMap) (p : Policy) : Prop where
  minTokens : cfg .minTokens = some (.nat p.minTokens)
  coldMinTokens : cfg .coldMinTokens = some (.nat p.coldMinTokens)
  coldMaxTokens : cfg .coldMaxTokens = some (.nat p.coldMaxTokens)
  continuedInterval : cfg .continuedInterval = some (.nat p.continuedInterval)
  boundaryTrimTokens : cfg .boundaryTrimTokens = some (.nat p.boundaryTrimTokens)
  boundaryAlignTokens : cfg .boundaryAlignTokens = some (.nat p.boundaryAlignTokens)
  ladderInterval : (cfg .ladderInterval).getD (.nat 16384) = .nat p.ladderInterval
  maxLadderRows : (cfg .maxLadderRows).getD (.nat 0) = .nat p.maxLadderRows
  prefillChunkSize :
    (cfg .prefillChunkSize).getD .infinity = Limit.ofOption p.prefillChunkSize

variable {cfg : PolicyMap} {p : Policy}

/-- A key that is there is read. -/
theorem PolicyMap.get_eq {k : PolicyKey} {l : Limit} (h : cfg k = some l) :
    cfg.get k = .ok l := by
  rw [PolicyMap.get, h]

/-- Comparing with a number, from below. -/
@[simp] theorem Limit.above_nat (n : Int) (m : Nat) : (Limit.nat m).above n = decide (n < m) := rfl

/-- From above. -/
@[simp] theorem Limit.below_nat (n : Int) (m : Nat) : (Limit.nat m).below n = decide (m < n) := rfl

/-- From above, or equal. -/
@[simp] theorem Limit.atMost_nat (n : Int) (m : Nat) :
    (Limit.nat m).atMost n = decide ((m : Int) ≤ n) := by
  simp only [Limit.atMost, Limit.above_nat, ← decide_not, not_lt]

/-- With a positive alignment the trim is the one over natural numbers. -/
theorem trimCount_nat (len t : Nat) {a : Nat} (ha : 0 < a) :
    trimCount len (.nat t) (.nat a) = .ok ((Erllama.trimCount len t a).map Int.ofNat) := by
  show (if (Limit.nat a).above ((len : Int) - t) then _ else _) = _
  unfold Erllama.trimCount
  by_cases h : len - t < a
  · -- the trimmed length may be negative here
    have hint : (len : Int) - t < a := by omega
    rw [if_pos (by simpa using hint), if_pos h]
    rfl
  · have hint : ¬(len : Int) - t < a := by omega
    have hsub : (len : Int) - t = ((len - t : Nat) : Int) := by omega
    have hne : (a : Int) ≠ 0 := by omega
    rw [if_neg (by simpa using hint), if_neg h]
    show (quot ((len : Int) - t) a >>= fun q => _) = _
    rw [quot, if_neg hne, hsub]
    rfl

/-- The trim boundary lies within the tokens. -/
theorem trimCount_le {len t a b : Nat} (h : Erllama.trimCount len t a = some b) : b ≤ len := by
  unfold Erllama.trimCount at h
  split at h
  · exact nomatch h
  · obtain rfl := Option.some.inj h
    calc (len - t) / a * a ≤ len - t := Nat.div_mul_le_self ..
      _ ≤ len := Nat.sub_le ..

/-- The ladder is the one over natural numbers. -/
theorem ladderBoundaries_reads (h : Reads cfg p) (b min : Nat) :
    ladderBoundaries b (.nat min) (.nat p.boundaryAlignTokens) cfg =
      .ok ((Erllama.ladderBoundaries p b min p.boundaryAlignTokens).map Int.ofNat) := by
  have hne : (p.boundaryAlignTokens : Int) ≠ 0 := by
    have := p.align_pos
    omega
  unfold ladderBoundaries Erllama.ladderBoundaries
  rw [h.ladderInterval, h.maxLadderRows]
  show (quot p.ladderInterval p.boundaryAlignTokens >>= fun q => _) = _
  rw [quot, if_neg hne]
  show Except.ok (List.filter _ (List.map _ (List.map _ _))) = _
  dsimp only
  generalize hstep : max p.boundaryAlignTokens
    (p.ladderInterval / p.boundaryAlignTokens * p.boundaryAlignTokens) = step
  have hcast : max (p.boundaryAlignTokens : Int)
      ((p.ladderInterval : Int).tdiv p.boundaryAlignTokens * p.boundaryAlignTokens) = step := by
    rw [← hstep]
    push_cast
    rfl
  rw [hcast, List.map_map, List.filter_map, List.filter_map, List.map_map]
  refine congrArg Except.ok (congrArg₂ List.map ?_ (List.filter_congr fun k _ => ?_))
  · funext k
    exact (Int.natCast_mul k step).symm
  · show ((Limit.nat min).atMost ((k : Int) * step) && decide ((k : Int) * step < b)) =
      (decide (min ≤ k * step) && decide (k * step < b))
    rw [Limit.atMost_nat]
    norm_cast

/-- Cutting at ascending positions within the tokens runs through. -/
theorem splitAt_map {bs : List Nat} {pos : Nat} {tokens : List Token}
    (hsorted : (pos :: bs).Pairwise (· ≤ ·)) (hle : ∀ b ∈ bs, b ≤ pos + tokens.length)
    (acc : List (List Token)) :
    splitAt (bs.map Int.ofNat) pos tokens acc =
      .ok (acc.reverse ++ splitAtBoundaries bs pos tokens) := by
  induction bs generalizing pos tokens acc with
  | nil =>
    show Except.ok (tokens :: acc).reverse = _
    rw [List.reverse_cons]
    rfl
  | cons b bs ih =>
    obtain ⟨hpos, htail⟩ := List.pairwise_cons.mp hsorted
    have hb : pos ≤ b := hpos b (List.mem_cons_self ..)
    have hlen : b ≤ pos + tokens.length := hle b (List.mem_cons_self ..)
    have hsplit : split ((b : Int) - pos) tokens =
        .ok (tokens.take (b - pos), tokens.drop (b - pos)) := by
      have hnat : ((b : Int) - pos).toNat = b - pos := by omega
      rw [split, if_pos (by omega), hnat]
    show (split ((b : Int) - pos) tokens >>= fun x => _) = _
    rw [hsplit]
    -- the rest is as long as what is left of the bound
    have hrest : ∀ b' ∈ bs, b' ≤ b + (tokens.drop (b - pos)).length := by
      intro b' hb'
      have := hle b' (List.mem_cons_of_mem _ hb')
      rw [List.length_drop]
      omega
    refine (ih htail hrest (tokens.take (b - pos) :: acc)).trans ?_
    rw [splitAtBoundaries, List.reverse_cons, List.append_assoc]
    rfl

/-- The boundaries of a ladder ascend to the trim boundary. -/
theorem pairwise_ladderBoundaries (p : Policy) (b min align : Nat) :
    (0 :: (Erllama.ladderBoundaries p b min align ++ [b])).Pairwise (· ≤ ·) := by
  refine List.pairwise_cons.mpr ⟨fun _ _ => Nat.zero_le _, List.pairwise_append.mpr ⟨?_, ?_, ?_⟩⟩
  · unfold Erllama.ladderBoundaries
    refine List.Pairwise.filter _ (List.pairwise_map.mpr ?_)
    refine (List.pairwise_lt_range' ..).imp fun hlt => ?_
    exact Nat.mul_le_mul_right _ (Nat.le_of_lt hlt)
  · exact List.pairwise_singleton ..
  · intro x hx y hy
    obtain rfl := List.mem_singleton.mp hy
    have hbelow := (List.mem_filter.mp hx).2
    have hlt := of_decide_eq_true (Bool.and_eq_true_iff.mp hbelow).2
    exact Nat.le_of_lt hlt

/-- The segments are those of the policy, for every list of tokens. -/
theorem coldSaveSegments_reads (h : Reads cfg p) (tokens : List Token) :
    coldSaveSegments cfg tokens = .ok (Erllama.coldSaveSegments p tokens) := by
  unfold coldSaveSegments Erllama.coldSaveSegments
  rw [PolicyMap.get_eq h.coldMinTokens, PolicyMap.get_eq h.coldMaxTokens,
    PolicyMap.get_eq h.boundaryTrimTokens, PolicyMap.get_eq h.boundaryAlignTokens]
  show (if _ then _ else trimCount tokens.length _ _ >>= fun t => _) = _
  dsimp only
  by_cases hband : tokens.length < p.coldMinTokens ∨ p.coldMaxTokens < tokens.length
  · rw [if_pos hband, if_pos (by simpa using hband)]
    rfl
  · rw [if_neg hband, if_neg (by simpa using hband), trimCount_nat _ _ p.align_pos]
    cases hcount : Erllama.trimCount tokens.length p.boundaryTrimTokens p.boundaryAlignTokens with
    | none => rfl
    | some b =>
      show (ladderBoundaries b _ _ cfg >>= fun ladder => _) = _
      rw [ladderBoundaries_reads h]
      show splitAt (List.map Int.ofNat _ ++ List.map Int.ofNat [b]) ((0 : Nat) : Int) tokens [] = _
      rw [← List.map_append]
      refine splitAt_map (pairwise_ladderBoundaries p b _ _) ?_ []
      have hb := trimCount_le hcount
      intro x hx
      rw [Nat.zero_add]
      rcases List.mem_append.mp hx with hladder | hlast
      · have hbelow := (List.mem_filter.mp hladder).2
        have hlt := of_decide_eq_true (Bool.and_eq_true_iff.mp hbelow).2
        omega
      · obtain rfl := List.mem_singleton.mp hlast
        exact hb

/-- The test on the map is the test on the policy. -/
theorem shouldContinuedSave_reads (h : Reads cfg p) (liveCount lastSavedAt : Nat) :
    shouldContinuedSave cfg liveCount lastSavedAt =
      .ok (Erllama.shouldContinuedSave p liveCount lastSavedAt) := by
  unfold shouldContinuedSave Erllama.shouldContinuedSave
  rw [PolicyMap.get_eq h.continuedInterval, PolicyMap.get_eq h.minTokens]
  refine congrArg Except.ok (congrArg₂ (· && ·) ?_ ?_)
  · rw [Limit.atMost_nat]
    exact decide_eq_decide.mpr (by omega)
  · rw [Limit.atMost_nat]
    exact decide_eq_decide.mpr (by omega)

/-- So it is at the end. -/
theorem shouldFinishSave_reads (h : Reads cfg p) (liveCount : Nat) :
    shouldFinishSave cfg liveCount = .ok (Erllama.shouldFinishSave p liveCount) := by
  unfold shouldFinishSave Erllama.shouldFinishSave
  rw [PolicyMap.get_eq h.minTokens]
  refine congrArg Except.ok ?_
  rw [Limit.atMost_nat]
  exact decide_eq_decide.mpr (by omega)

/-- With a positive chunk size, or none, the cap is the one over natural numbers. -/
theorem prefillSliceCap_ofOption {chunk : Option Nat} (hchunk : ∀ n ∈ chunk, 0 < n)
    (n remaining : Nat) :
    prefillSliceCap n remaining (.ofOption chunk) =
      .ok (Model.prefillSliceCap n remaining chunk) := by
  cases chunk with
  | none   => rfl
  | some c => exact if_pos (hchunk c rfl)

/-- The slices of a tick are those of the policy, for every list of ops. -/
theorem tickSlices_reads (h : Reads cfg p) (ops : List (SeqId × Op)) (remaining : Nat) :
    tickSlices cfg ops remaining =
      .ok (Model.slicePrefills p.prefillChunkSize ops remaining) := by
  unfold tickSlices
  rw [h.prefillChunkSize]
  fun_induction Model.slicePrefills p.prefillChunkSize ops remaining with
  | case1 => rfl
  | case2 q ref ops remaining ih =>
    rw [slicePrefills, ih]
    rfl
  | case3 q tokens ops ih => rw [slicePrefills, if_pos rfl, ih]
  | case4 q tokens ops remaining hne cap ih =>
    rw [slicePrefills, if_neg hne, prefillSliceCap_ofOption p.chunk_pos]
    show (slicePrefills _ ops (remaining - cap) >>= fun rest => _) = _
    rw [ih]
    rfl

/-! ### The values an accepted policy is usable with -/

/-- The value of a key: the config's, else the application's, else the built-in one. -/
def value (appEnv policy : PolicyMap) (builtin : Nat) (k : PolicyKey) : Limit :=
  (policy k).getD ((appEnv k).getD (.nat builtin))

/-- The values are in range: the three thresholds are numbers in order, the interval, the
    alignment and the ladder interval are positive numbers, the trim and the ladder's rows are
    numbers, and a chunk size that is given is not zero. -/
structure InRange (appEnv policy : PolicyMap) : Prop where
  thresholds : ∃ min coldMin coldMax : Nat,
    value appEnv policy 512 .minTokens = .nat min ∧
    value appEnv policy 512 .coldMinTokens = .nat coldMin ∧
    value appEnv policy 30000 .coldMaxTokens = .nat coldMax ∧ min ≤ coldMin ∧ coldMin ≤ coldMax
  continuedInterval : ∃ n, value appEnv policy 2048 .continuedInterval = .nat n ∧ 0 < n
  boundaryTrimTokens : ∃ n, value appEnv policy 32 .boundaryTrimTokens = .nat n
  boundaryAlignTokens : ∃ n, value appEnv policy 2048 .boundaryAlignTokens = .nat n ∧ 0 < n
  ladderInterval : ∃ n, (policy .ladderInterval).getD (.nat 16384) = .nat n ∧ 0 < n
  maxLadderRows : ∃ n, (policy .maxLadderRows).getD (.nat 0) = .nat n
  prefillChunkSize : policy .prefillChunkSize ≠ some (.nat 0)

variable {appEnv policy : PolicyMap} {nBatch : Nat}

/-- A key with a default is merged to its value. -/
theorem resolvePolicy_value {k : PolicyKey} {builtin : Nat}
    (h : policyDefaults appEnv nBatch k = some ((appEnv k).getD (.nat builtin))) :
    resolvePolicy appEnv nBatch policy k = some (value appEnv policy builtin k) := by
  rw [resolvePolicy, h, Option.or_some, value]

/-- A key without a default is merged to what the config says. -/
theorem resolvePolicy_given {k : PolicyKey} (h : policyDefaults appEnv nBatch k = none) :
    resolvePolicy appEnv nBatch policy k = policy k := by
  rw [resolvePolicy, h, Option.or_none]

/-- The chunk size of the merged policy is not zero if the config's is not. -/
theorem resolvePolicy_chunk (h : policy .prefillChunkSize ≠ some (.nat 0)) :
    ∃ chunk : Option Nat, (∀ n ∈ chunk, 0 < n) ∧
      (resolvePolicy appEnv nBatch policy .prefillChunkSize).getD .infinity = .ofOption chunk := by
  unfold resolvePolicy
  cases hgiven : policy .prefillChunkSize with
  | none =>
    refine ⟨some (max 64 (nBatch / 4)), ?_, rfl⟩
    intro n hn
    obtain rfl := Option.some.inj hn
    omega
  | some l =>
    cases l with
    | infinity => exact ⟨none, nofun, rfl⟩
    | nat n =>
      refine ⟨some n, ?_, rfl⟩
      intro m hm
      obtain rfl := Option.some.inj hm
      refine Nat.pos_of_ne_zero fun h0 => h ?_
      rw [hgiven, h0]

/-- The limits that pass are the numbers from the bound on. -/
theorem natFrom_nat {m : Nat} {l : Limit} :
    natFrom (.nat m) l = true ↔ ∃ n, l = .nat n ∧ m ≤ n := by
  cases l with
  | infinity => exact ⟨nofun, nofun⟩
  | nat n =>
    show (Limit.nat m).atMost n = true ↔ _
    rw [Limit.atMost_nat, decide_eq_true_iff]
    exact ⟨fun h => ⟨n, rfl, by omega⟩, fun ⟨_, hn, h⟩ => by cases hn; omega⟩

/-- With the required keys present, the check is that every invariant passes. -/
theorem validateConfig_ok_iff {min coldMin coldMax interval trim align : Limit}
    (hmin : cfg .minTokens = some min) (hcoldMin : cfg .coldMinTokens = some coldMin)
    (hcoldMax : cfg .coldMaxTokens = some coldMax)
    (hinterval : cfg .continuedInterval = some interval)
    (htrim : cfg .boundaryTrimTokens = some trim)
    (halign : cfg .boundaryAlignTokens = some align) :
    validateConfig cfg = .ok (.ok ()) ↔
      ∀ check ∈ invariantChecks min coldMin coldMax interval trim align
        ((cfg .ladderInterval).getD (.nat 16384)) ((cfg .maxLadderRows).getD (.nat 0)),
        check.1 = true := by
  have hpresent : (requiredKeys.filter fun k => (cfg k).isNone) = [] := by
    simp [requiredKeys, hmin, hcoldMin, hcoldMax, hinterval, htrim, halign]
  unfold validateConfig
  rw [hpresent]
  dsimp only
  unfold checkInvariants
  rw [PolicyMap.get_eq hmin, PolicyMap.get_eq hcoldMin, PolicyMap.get_eq hcoldMax,
    PolicyMap.get_eq hinterval, PolicyMap.get_eq htrim, PolicyMap.get_eq halign,
    ← List.dropWhile_eq_nil_iff]
  dsimp only [bind, Except.bind]
  generalize invariantChecks min coldMin coldMax interval trim align
    ((cfg .ladderInterval).getD (.nat 16384)) ((cfg .maxLadderRows).getD (.nat 0)) = checks
  cases checks.dropWhile Prod.fst with
  | nil         => exact ⟨fun _ => rfl, fun _ => rfl⟩
  | cons c rest => exact ⟨nofun, nofun⟩

/-- Values in range are those of a policy, whatever the batch size. -/
theorem InRange.reads (h : InRange appEnv policy) (nBatch : Nat) :
    ∃ p, Reads (resolvePolicy appEnv nBatch policy) p := by
  obtain ⟨min, coldMin, coldMax, hmin, hcoldMin, hcoldMax, -, -⟩ := h.thresholds
  obtain ⟨interval, hinterval, hintervalPos⟩ := h.continuedInterval
  obtain ⟨trim, htrim⟩ := h.boundaryTrimTokens
  obtain ⟨align, halign, halignPos⟩ := h.boundaryAlignTokens
  obtain ⟨ladder, hladder, -⟩ := h.ladderInterval
  obtain ⟨rows, hrows⟩ := h.maxLadderRows
  obtain ⟨chunk, hchunkPos, hchunk⟩ := resolvePolicy_chunk h.prefillChunkSize
  let p : Policy :=
    { minTokens := min
      coldMinTokens := coldMin
      coldMaxTokens := coldMax
      continuedInterval := interval
      boundaryTrimTokens := trim
      boundaryAlignTokens := align
      ladderInterval := ladder
      maxLadderRows := rows
      -- no policy function reads the wait
      sessionResumeWaitMs := 500
      prefillChunkSize := chunk
      align_pos := halignPos
      interval_pos := hintervalPos
      chunk_pos := hchunkPos }
  refine ⟨p, ?_⟩
  constructor
  · rw [resolvePolicy_value rfl, hmin]
  · rw [resolvePolicy_value rfl, hcoldMin]
  · rw [resolvePolicy_value rfl, hcoldMax]
  · rw [resolvePolicy_value rfl, hinterval]
  · rw [resolvePolicy_value rfl, htrim]
  · rw [resolvePolicy_value rfl, halign]
  · rw [resolvePolicy_given rfl, hladder]
  · rw [resolvePolicy_given rfl, hrows]
  · exact hchunk

/-- The check on the merged policy says all of the range but the chunk size. -/
theorem validateConfig_resolvePolicy_iff :
    validateConfig (resolvePolicy appEnv nBatch policy) = .ok (.ok ()) ∧
      policy .prefillChunkSize ≠ some (.nat 0) ↔ InRange appEnv policy := by
  have hiff := @validateConfig_ok_iff (resolvePolicy appEnv nBatch policy) _ _ _ _ _ _
    (resolvePolicy_value (k := .minTokens) rfl) (resolvePolicy_value (k := .coldMinTokens) rfl)
    (resolvePolicy_value (k := .coldMaxTokens) rfl)
    (resolvePolicy_value (k := .continuedInterval) rfl)
    (resolvePolicy_value (k := .boundaryTrimTokens) rfl)
    (resolvePolicy_value (k := .boundaryAlignTokens) rfl)
  rw [resolvePolicy_given (k := .ladderInterval) rfl,
    resolvePolicy_given (k := .maxLadderRows) rfl] at hiff
  rw [hiff]
  simp only [invariantChecks, List.forall_mem_cons, List.not_mem_nil, false_imp_iff, implies_true,
    and_true]
  constructor
  · rintro ⟨⟨hmin, hcoldMin, hcoldMax, hinterval, htrim, halign, hladder, hrows⟩, hchunk⟩
    obtain ⟨min, hminEq, -⟩ := natFrom_nat.mp hmin
    rw [hminEq] at hcoldMin
    obtain ⟨coldMin, hcoldMinEq, hle⟩ := natFrom_nat.mp hcoldMin
    rw [hcoldMinEq] at hcoldMax
    obtain ⟨coldMax, hcoldMaxEq, hle'⟩ := natFrom_nat.mp hcoldMax
    obtain ⟨trim, htrimEq, -⟩ := natFrom_nat.mp htrim
    obtain ⟨rows, hrowsEq, -⟩ := natFrom_nat.mp hrows
    exact
      { thresholds := ⟨min, coldMin, coldMax, hminEq, hcoldMinEq, hcoldMaxEq, hle, hle'⟩
        continuedInterval := natFrom_nat.mp hinterval
        boundaryTrimTokens := ⟨trim, htrimEq⟩
        boundaryAlignTokens := natFrom_nat.mp halign
        ladderInterval := natFrom_nat.mp hladder
        maxLadderRows := ⟨rows, hrowsEq⟩
        prefillChunkSize := hchunk }
  · intro h
    obtain ⟨min, coldMin, coldMax, hmin, hcoldMin, hcoldMax, hle, hle'⟩ := h.thresholds
    obtain ⟨trim, htrim⟩ := h.boundaryTrimTokens
    obtain ⟨rows, hrows⟩ := h.maxLadderRows
    refine ⟨⟨?_, ?_, ?_, natFrom_nat.mpr h.continuedInterval, ?_,
      natFrom_nat.mpr h.boundaryAlignTokens, natFrom_nat.mpr h.ladderInterval, ?_⟩,
      h.prefillChunkSize⟩
    · exact natFrom_nat.mpr ⟨min, hmin, Nat.zero_le _⟩
    · rw [hmin]
      exact natFrom_nat.mpr ⟨coldMin, hcoldMin, hle⟩
    · rw [hcoldMin]
      exact natFrom_nat.mpr ⟨coldMax, hcoldMax, hle'⟩
    · exact natFrom_nat.mpr ⟨trim, htrim, Nat.zero_le _⟩
    · exact natFrom_nat.mpr ⟨rows, hrows, Nat.zero_le _⟩

/-- A merged policy is usable iff its values are in range. -/
theorem usable_iff : Usable (resolvePolicy appEnv nBatch policy) ↔ InRange appEnv policy := by
  constructor
  · intro h
    refine validateConfig_resolvePolicy_iff.mp ⟨h.valid, fun hzero => ?_⟩
    -- a chunk of zero has no clause, whatever the prefill
    obtain ⟨ops, hops⟩ := h.slices [(0, .prefill [0])] 1
    have hmerged : (resolvePolicy appEnv nBatch policy .prefillChunkSize).getD .infinity =
        .nat 0 := by
      rw [resolvePolicy, hzero]
      rfl
    rw [tickSlices, hmerged] at hops
    exact nomatch hops
  · intro h
    obtain ⟨p, hp⟩ := h.reads nBatch
    exact
      { valid := (validateConfig_resolvePolicy_iff.mpr h).1
        segments := fun tokens => ⟨_, coldSaveSegments_reads hp tokens⟩
        continued := fun liveCount lastSavedAt => ⟨_, shouldContinuedSave_reads hp _ _⟩
        finish := fun liveCount => ⟨_, shouldFinishSave_reads hp _⟩
        slices := fun ops remaining => ⟨_, tickSlices_reads hp ops remaining⟩ }

/-- A value that the load config accepts is read as it stands. -/
theorem accepted_ofTerm {v : Term} (h : v.nonNegInt ∨ v.isAtom "infinity") :
    ∃ l, Limit.ofTerm v = some l := by
  rcases h with h | h
  · cases v with
    | int n => exact ⟨.nat n.toNat, if_pos (of_decide_eq_true h)⟩
    | _     => exact nomatch h
  · cases v with
    | atom a => exact ⟨.infinity, if_pos (of_decide_eq_true h)⟩
    | _      => exact nomatch h

/-- **Accepted policies.** Every value of an accepted policy is read, and the policy a model
    runs under is usable iff the values are in range. -/
theorem loadConfig_usable_iff {w : World} {config : Term} {c : Entries}
    (h : loadConfig w config = .ok c) (appEnv : PolicyMap) (nBatch : Nat) :
    (∀ k v, find k.name (subMap "policy" c) = some v → ∃ l, policyOf c k = some l) ∧
      (Usable (resolvePolicy appEnv nBatch (policyOf c)) ↔ InRange appEnv (policyOf c)) := by
  refine ⟨fun k v hv => ?_, usable_iff⟩
  obtain ⟨l, hl⟩ := accepted_ofTerm ((accepted_policy h).2 k v hv)
  refine ⟨l, ?_⟩
  rw [policyOf, hv, Option.bind_some, hl]

/-- A node on which every module loads and no process is registered. -/
def stubWorld : World where
  ensureLoaded _ := true
  isRegular _ := false
  whereis _ := false
  tierOf _ := none

/-- A config of the stub backend with one policy key. -/
def stubConfig (k : PolicyKey) (v : Term) : Entries :=
  [(.atom "backend", .atom "erllama_model_stub"), (.atom "policy", .map [(.atom k.name, v)])]

/-- The policy that config runs under, with the built-in defaults. -/
def stubPolicy (k : PolicyKey) (v : Term) : PolicyMap :=
  resolvePolicy (fun _ => none) 512 (policyOf (stubConfig k v))

/-- With one policy key set in range, an accepted policy is usable. -/
theorem stubPolicy_usable : Usable (stubPolicy .prefillChunkSize (.int 128)) := by
  have haccepted : loadConfig stubWorld (.map (stubConfig .prefillChunkSize (.int 128))) =
      .ok (stubConfig .prefillChunkSize (.int 128)) := rfl
  refine (loadConfig_usable_iff haccepted (fun _ => none) 512).2.mpr ?_
  constructor
  · exact ⟨512, 512, 30000, rfl, rfl, rfl, by decide, by decide⟩
  · exact ⟨2048, rfl, by decide⟩
  · exact ⟨32, rfl⟩
  · exact ⟨2048, rfl, by decide⟩
  · exact ⟨16384, rfl, by decide⟩
  · exact ⟨0, rfl⟩
  · exact nofun

/-- Accepted policies that are not: no clause for a chunk size of zero, a division by an
    alignment of zero, arithmetic on a ladder interval of `infinity`, and a cold threshold
    below the global one. -/
theorem accepted_not_usable :
    (loadConfig stubWorld (.map (stubConfig .prefillChunkSize (.int 0))) =
        .ok (stubConfig .prefillChunkSize (.int 0)) ∧
      tickSlices (stubPolicy .prefillChunkSize (.int 0)) [(0, .prefill [1])] 512 =
        .error .functionClause ∧
      ¬Usable (stubPolicy .prefillChunkSize (.int 0))) ∧
    (loadConfig stubWorld (.map (stubConfig .boundaryAlignTokens (.int 0))) =
        .ok (stubConfig .boundaryAlignTokens (.int 0)) ∧
      coldSaveSegments (stubPolicy .boundaryAlignTokens (.int 0)) (List.replicate 512 1) =
        .error .badarith) ∧
    (loadConfig stubWorld (.map (stubConfig .ladderInterval (.atom "infinity"))) =
        .ok (stubConfig .ladderInterval (.atom "infinity")) ∧
      coldSaveSegments (stubPolicy .ladderInterval (.atom "infinity"))
        (List.replicate 2080 1) = .error .badarith) ∧
    (loadConfig stubWorld (.map (stubConfig .coldMinTokens (.int 0))) =
        .ok (stubConfig .coldMinTokens (.int 0)) ∧
      validateConfig (stubPolicy .coldMinTokens (.int 0)) =
        .ok (.error .coldMinTokensLtMinTokens)) := by
  refine ⟨⟨rfl, rfl, fun h => ?_⟩, ⟨rfl, by decide +kernel⟩, ⟨rfl, by decide +kernel⟩, rfl, rfl⟩
  obtain ⟨ops, hops⟩ := h.slices [(0, .prefill [1])] 512
  exact nomatch hops

end Erllama.Opts
