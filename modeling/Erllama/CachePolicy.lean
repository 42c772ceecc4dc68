import Erllama.Basic

namespace Erllama

/-!
# Save policy (`erllama_cache_policy`)

Pure decisions on token counts: where a cold prompt is cut for its checkpoints, when a
continued save fires, and when a finish save fires.

* `Policy` — a policy that passed `validate_config/1`: the two divisors are positive.
* `coldSaveSegments` — the prefill segments of a cold prompt.
* `shouldContinuedSave`, `shouldFinishSave` — the two counters.
-/

/-- The merged policy of a model.  A validated policy has a positive alignment, a positive
    continued interval and, if prefill is chunked, a positive chunk. -/
structure Policy where
  minTokens : Nat
  coldMinTokens : Nat
  coldMaxTokens : Nat
  continuedInterval : Nat
  boundaryTrimTokens : Nat
  boundaryAlignTokens : Nat
  ladderInterval : Nat
  maxLadderRows : Nat
  sessionResumeWaitMs : Nat
  prefillChunkSize : Option Nat
  align_pos : 0 < boundaryAlignTokens
  interval_pos : 0 < continuedInterval
  chunk_pos : ∀ n ∈ prefillChunkSize, 0 < n

variable (p : Policy)

/-- `trim_count/3`: the largest aligned length after dropping the trim tail. -/
def trimCount (len trim align : Nat) : Option Nat :=
  if len - trim < align then none else some ((len - trim) / align * align)

/-- `ladder_boundaries/4`: at most `maxLadderRows` aligned points strictly below the trim
    boundary. -/
def ladderBoundaries (trimBoundary min align : Nat) : List Nat :=
  let step := max align (p.ladderInterval / align * align)
  ((List.range' 1 p.maxLadderRows).map (· * step)).filter fun b => min ≤ b && b < trimBoundary

/-- `split_at/4`: cut the tokens at absolute positions; the remainder may be empty. -/
def splitAtBoundaries : List Nat → Nat → List Token → List (List Token)
  | [],      _,   rest   => [rest]
  | b :: bs, pos, tokens =>
    tokens.take (b - pos) :: splitAtBoundaries bs b (tokens.drop (b - pos))

/-- `cold_save_segments/2`: the segments a cold prompt is prefilled in; a cold save fires
    at each internal boundary. -/
def coldSaveSegments (tokens : List Token) : List (List Token) :=
  let len := tokens.length
  if len < p.coldMinTokens ∨ p.coldMaxTokens < len then [tokens]
  else
    match trimCount len p.boundaryTrimTokens p.boundaryAlignTokens with
    | none              => [tokens]
    | some trimBoundary =>
      let ladder := ladderBoundaries p trimBoundary p.coldMinTokens p.boundaryAlignTokens
      splitAtBoundaries (ladder ++ [trimBoundary]) 0 tokens

/-- `should_continued_save/3`: enough new tokens since the last save. -/
def shouldContinuedSave (liveCount lastSavedAt : Nat) : Bool :=
  (p.continuedInterval + lastSavedAt ≤ liveCount) && (p.minTokens ≤ liveCount)

/-- `should_finish_save/2`. -/
def shouldFinishSave (liveCount : Nat) : Bool :=
  p.minTokens ≤ liveCount

/-- Cutting loses no token. -/
theorem splitAtBoundaries_flatten (bs : List Nat) (pos : Nat) (tokens : List Token) :
    (splitAtBoundaries bs pos tokens).flatten = tokens := by
  induction bs generalizing pos tokens with
  | nil => simp [splitAtBoundaries]
  | cons b bs ih =>
    rw [splitAtBoundaries, List.flatten_cons, ih, List.take_append_drop]

/-- The segments of a cold prompt are a partition of it. -/
theorem coldSaveSegments_flatten (tokens : List Token) :
    (coldSaveSegments p tokens).flatten = tokens := by
  unfold coldSaveSegments
  dsimp only
  split
  · simp
  · split
    · simp
    · exact splitAtBoundaries_flatten _ _ _

end Erllama
