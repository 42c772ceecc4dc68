import Erllama.Model.Contract
import Erllama.Model.MapBackend

namespace Erllama.Model

open Lib

/-!
# The checkpoints of a cold prefill

A cold prompt is cut into segments, and a save is attempted as each segment but the last is in
the KV.  The scheduler feeds a segment in slices of whatever the batch has room for.

* `IsCut` — the positions where a prompt is to be saved.
* `coldAttempt` — the save that a prefill result attempts, if any.
* `ColdTrace` — the life of a cold prefill among whatever else is scheduled.
* `Cutting` — the invariant: what was attempted and what is still to come are all the cuts.
* `coldTrace_attempts` — a prefill that runs to completion attempted each cut once, in order.
* `run_coldTrace` — what a run of the process does to a cold prefill is such a life.
-/

variable {σ γ Sid : Type}

/-! ### The cuts -/

/-- A save that was attempted: its reason and its tokens. -/
abbrev Attempt := SaveReason × List Token

/-- Where a prompt of `len` tokens is saved: in the cold band, at the trim boundary and at the
    ladder's points below it; and at the static prefix, if it lies inside the prompt. -/
def IsCut (p : Policy) (len : Nat) (n : Option Nat) (b : Nat) : Prop :=
  (p.coldMinTokens ≤ len ∧ len ≤ p.coldMaxTokens ∧
      ∃ t, trimCount len p.boundaryTrimTokens p.boundaryAlignTokens = some t ∧
        (b = t ∨ b ∈ ladderBoundaries p t p.coldMinTokens p.boundaryAlignTokens)) ∨
    n = some b ∧ 0 < b ∧ b < len

/-- The attempt at a cut of a prompt. -/
def attemptAt (prompt : List Token) (n : Option Nat) (b : Nat) : Attempt :=
  (if n = some b then .agentPrefix else .cold, prompt.take b)

/-- The cuts of the policy alone. -/
def policyCuts (p : Policy) (len : Nat) : List Nat :=
  if len < p.coldMinTokens ∨ p.coldMaxTokens < len then []
  else
    match trimCount len p.boundaryTrimTokens p.boundaryAlignTokens with
    | none   => []
    | some t => ladderBoundaries p t p.coldMinTokens p.boundaryAlignTokens ++ [t]

/-- The cuts that `build_cold_ladder/3` makes. -/
def coldCuts (p : Policy) (len : Nat) (n : Option Nat) : List Nat :=
  match n with
  | some k => if 0 < k ∧ k < len then usortInsert k (policyCuts p len) else policyCuts p len
  | none   => policyCuts p len

/-- Positions to cut `len` tokens at, from `pos` on. -/
def Ascending (pos len : Nat) (bs : List Nat) : Prop :=
  bs.Pairwise (· < ·) ∧ ∀ b ∈ bs, pos < b ∧ b ≤ len

/-- The cuts behind the first one. -/
theorem Ascending.tail {pos len b : Nat} {bs : List Nat} (h : Ascending pos len (b :: bs)) :
    Ascending b len bs := by
  obtain ⟨hsorted, hmem⟩ := h
  rw [List.pairwise_cons] at hsorted
  exact ⟨hsorted.2, fun b' hb' => ⟨hsorted.1 b' hb', (hmem b' (List.mem_cons_of_mem b hb')).2⟩⟩

section Cuts

variable (p : Policy) {len t b : Nat}

/-- The trimmed length is positive and leaves the trim off. -/
theorem trimCount_bounds {trim align : Nat} (halign : 0 < align)
    (h : trimCount len trim align = some t) : 0 < t ∧ t ≤ len - trim := by
  unfold trimCount at h
  split at h
  · exact nomatch h
  case isFalse hlong =>
    cases h
    have hdiv : 0 < (len - trim) / align := Nat.div_pos (by omega) halign
    exact ⟨Nat.mul_pos hdiv halign, Nat.div_mul_le_self (len - trim) align⟩

/-- The ladder goes up. -/
theorem ladderBoundaries_sorted (t m align : Nat) (halign : 0 < align) :
    (ladderBoundaries p t m align).Pairwise (· < ·) := by
  unfold ladderBoundaries
  have hstep : 0 < max align (p.ladderInterval / align * align) := by omega
  have hrange : (List.range' 1 p.maxLadderRows).Pairwise (· < ·) := List.pairwise_lt_range'
  refine List.Pairwise.filter _ (List.pairwise_map.mpr (hrange.imp fun hlt => ?_))
  exact Nat.mul_lt_mul_of_pos_right hlt hstep

/-- Its rungs are between the minimum and the trimmed length. -/
theorem mem_ladderBoundaries {m align : Nat} (halign : 0 < align)
    (h : b ∈ ladderBoundaries p t m align) : 0 < b ∧ m ≤ b ∧ b < t := by
  unfold ladderBoundaries at h
  obtain ⟨hmem, hband⟩ := List.mem_filter.mp h
  obtain ⟨k, hk, rfl⟩ := List.mem_map.mp hmem
  obtain ⟨i, hi, rfl⟩ := List.mem_range'.mp hk
  have hstep : 0 < max align (p.ladderInterval / align * align) := by omega
  simp only [Bool.and_eq_true, decide_eq_true_eq] at hband
  exact ⟨Nat.mul_pos (by omega) hstep, hband.1, hband.2⟩

/-- The cuts of a policy go up and stay inside the prompt. -/
theorem policyCuts_ascending (len : Nat) : Ascending 0 len (policyCuts p len) := by
  unfold policyCuts
  split
  · exact ⟨.nil, nofun⟩
  · split
    · exact ⟨.nil, nofun⟩
    case h_2 t ht =>
      obtain ⟨hpos, hle⟩ := trimCount_bounds p.align_pos ht
      have hladder := fun b hb => mem_ladderBoundaries p (b := b) (t := t)
        (m := p.coldMinTokens) p.align_pos hb
      constructor
      · refine List.pairwise_append.mpr ⟨ladderBoundaries_sorted p t _ _ p.align_pos,
          List.pairwise_singleton _ _, ?_⟩
        intro b hb b' hb'
        rw [List.mem_singleton.mp hb']
        exact (hladder b hb).2.2
      · intro b hb
        rcases List.mem_append.mp hb with hb | hb
        · obtain ⟨h0, -, hlt⟩ := hladder b hb
          exact ⟨h0, by omega⟩
        · rw [List.mem_singleton.mp hb]
          exact ⟨hpos, by omega⟩

/-- The trimmed length and the rungs below it, for a prompt of a length that is saved. -/
theorem mem_policyCuts :
    b ∈ policyCuts p len ↔ p.coldMinTokens ≤ len ∧ len ≤ p.coldMaxTokens ∧
      ∃ t, trimCount len p.boundaryTrimTokens p.boundaryAlignTokens = some t ∧
        (b = t ∨ b ∈ ladderBoundaries p t p.coldMinTokens p.boundaryAlignTokens) := by
  unfold policyCuts
  split
  case isTrue hband =>
    refine iff_of_false List.not_mem_nil ?_
    rintro ⟨hmin, hmax, -⟩
    omega
  case isFalse hband =>
    split
    case h_1 hnone =>
      refine iff_of_false List.not_mem_nil ?_
      rintro ⟨-, -, t, ht, -⟩
      rw [hnone] at ht
      exact nomatch ht
    case h_2 t ht =>
      constructor
      · intro hb
        rcases List.mem_append.mp hb with hb | hb
        · exact ⟨by omega, by omega, t, ht, .inr hb⟩
        · exact ⟨by omega, by omega, t, ht, .inl (List.mem_singleton.mp hb)⟩
      · rintro ⟨-, -, t', ht', hb⟩
        rw [ht] at ht'
        cases ht'
        rcases hb with rfl | hb
        · exact List.mem_append_right _ (List.mem_singleton_self b)
        · exact List.mem_append_left _ hb

/-- Inserting a cut adds that cut. -/
theorem mem_usortInsert {k : Nat} {bs : List Nat} :
    b ∈ usortInsert k bs ↔ b = k ∨ b ∈ bs := by
  unfold usortInsert
  rw [List.mem_dedup, List.mem_insertionSort, List.mem_cons]

/-- It keeps the cuts in order. -/
theorem usortInsert_sorted (k : Nat) (bs : List Nat) :
    (usortInsert k bs).Pairwise (· < ·) := by
  unfold usortInsert
  have hsorted : ((k :: bs).insertionSort (· ≤ ·)).Pairwise (· ≤ ·) :=
    List.pairwise_insertionSort (· ≤ ·) (k :: bs)
  have hnodup := List.nodup_dedup ((k :: bs).insertionSort (· ≤ ·))
  have hle := hsorted.sublist (List.dedup_sublist _)
  exact (hle.and hnodup).imp fun ⟨h, hne⟩ => lt_of_le_of_ne h hne

/-- The cuts ascend, inside the prompt. -/
theorem coldCuts_ascending (len : Nat) (n : Option Nat) : Ascending 0 len (coldCuts p len n) := by
  have hpolicy := policyCuts_ascending p len
  unfold coldCuts
  split
  case h_2 => exact hpolicy
  case h_1 k =>
    split
    case isFalse => exact hpolicy
    case isTrue hk =>
      refine ⟨usortInsert_sorted k _, fun b hb => ?_⟩
      rcases mem_usortInsert.mp hb with rfl | hb
      · omega
      · exact hpolicy.2 b hb

variable {p} in
/-- **The code cuts where the policy and the caller say.** -/
theorem mem_coldCuts {n : Option Nat} : b ∈ coldCuts p len n ↔ IsCut p len n b := by
  unfold coldCuts IsCut
  rw [← mem_policyCuts]
  split
  case h_2 => exact ⟨.inl, fun h => h.elim id fun h => nomatch h.1⟩
  case h_1 k =>
    split
    case isTrue hk =>
      rw [mem_usortInsert]
      constructor
      · rintro (rfl | hb)
        · exact .inr ⟨rfl, hk⟩
        · exact .inl hb
      · rintro (hb | ⟨heq, -⟩)
        · exact .inr hb
        · exact .inl (Option.some.inj heq).symm
    case isFalse hk =>
      refine ⟨.inl, fun h => h.elim id ?_⟩
      rintro ⟨heq, hb⟩
      cases heq
      exact absurd hb hk

end Cuts

/-! ### The segments -/

/-- The segments of ascending cuts end at the cuts. -/
theorem cumulativeLengths_split (bs : List Nat) {pos len : Nat} (hbs : Ascending pos len bs)
    (tokens : List Token) (hlen : pos + tokens.length = len) :
    cumulativeLengths pos (splitAtBoundaries bs pos tokens) = bs ++ [len] := by
  induction bs generalizing pos tokens with
  | nil => simp [splitAtBoundaries, cumulativeLengths, hlen]
  | cons b bs ih =>
    obtain ⟨hlt, hle⟩ := hbs.2 b List.mem_cons_self
    have htake : (tokens.take (b - pos)).length = b - pos := by
      rw [List.length_take]
      omega
    have hend : pos + (tokens.take (b - pos)).length = b := by
      omega
    rw [splitAtBoundaries, cumulativeLengths, hend, ih hbs.tail]
    · rfl
    · rw [List.length_drop]
      omega

/-- The offsets of the segments of a cold prompt are the cuts of the policy. -/
theorem segBoundaryOffsets_cold (p : Policy) (tokens : List Token) :
    segBoundaryOffsets (coldSaveSegments p tokens) = policyCuts p tokens.length := by
  have hsplit := fun bs (hbs : Ascending 0 tokens.length bs) =>
    cumulativeLengths_split bs hbs tokens (Nat.zero_add _)
  have hcuts := policyCuts_ascending p tokens.length
  unfold segBoundaryOffsets coldSaveSegments
  unfold policyCuts at hcuts ⊢
  dsimp only
  by_cases hband : tokens.length < p.coldMinTokens ∨ p.coldMaxTokens < tokens.length
  · rw [if_pos hband, if_pos hband]
    rfl
  · rw [if_neg hband] at hcuts ⊢
    rw [if_neg hband]
    cases ht : trimCount tokens.length p.boundaryTrimTokens p.boundaryAlignTokens with
    | none => rfl
    | some t =>
      rw [ht] at hcuts
      show (cumulativeLengths 0 (splitAtBoundaries _ 0 tokens)).dropLast = _
      rw [hsplit _ hcuts, List.dropLast_concat]

/-- The ladder of a prompt is cut at its cuts. -/
theorem buildColdLadder_eq (p : Policy) (tokens : List Token) (n : Option Nat) :
    buildColdLadder tokens (coldSaveSegments p tokens) n =
      ((splitAtBoundaries (coldCuts p tokens.length n) 0 tokens).headD [],
        ((coldCuts p tokens.length n).map fun b => ladderReason b n).zip
          (splitAtBoundaries (coldCuts p tokens.length n) 0 tokens).tail) := by
  have hcuts := segBoundaryOffsets_cold p tokens
  unfold buildColdLadder coldCuts
  generalize segBoundaryOffsets (coldSaveSegments p tokens) = cuts at hcuts ⊢
  subst hcuts
  cases n <;> rfl

/-- What is still to be attempted: each waiting segment has the reason of the cut before it. -/
def pendingCuts : Nat → List (SaveReason × List Token) → List (SaveReason × Nat)
  | _, []                      => []
  | pos, (reason, seg) :: rest => (reason, pos) :: pendingCuts (pos + seg.length) rest

/-- The waiting segments of a ladder are due at its cuts. -/
theorem pendingCuts_zip (f : Nat → SaveReason) (b : Nat) (bs : List Nat) {len : Nat}
    (hbs : Ascending b len bs) (tokens : List Token) (hlen : b + tokens.length = len) :
    pendingCuts b (((b :: bs).map f).zip (splitAtBoundaries bs b tokens))
      = (b :: bs).map fun b => (f b, b) := by
  induction bs generalizing b tokens with
  | nil => rfl
  | cons c bs ih =>
    obtain ⟨hlt, hle⟩ := hbs.2 c List.mem_cons_self
    have hend : b + (tokens.take (c - b)).length = c := by
      rw [List.length_take]
      omega
    have hrest := ih c hbs.tail (tokens.drop (c - b)) (by rw [List.length_drop]; omega)
    rw [splitAtBoundaries]
    show (f b, b) :: pendingCuts (b + (tokens.take (c - b)).length)
      (((c :: bs).map f).zip (splitAtBoundaries bs c (tokens.drop (c - b)))) = _
    rw [hend, hrest]
    rfl

/-- Every waiting segment has tokens, unless it is the last. -/
def Proper (c : List Token) : List (SaveReason × List Token) → Prop
  | []               => True
  | (_, seg) :: rest => c ≠ [] ∧ Proper seg rest

/-- Ascending cuts leave no segment empty. -/
theorem proper_zip (f : Nat → SaveReason) (bs : List Nat) {pos len : Nat}
    (hbs : Ascending pos len bs) (tokens : List Token) (hlen : pos + tokens.length = len) :
    Proper ((splitAtBoundaries bs pos tokens).headD [])
      ((bs.map f).zip (splitAtBoundaries bs pos tokens).tail) := by
  induction bs generalizing pos tokens with
  | nil => trivial
  | cons b bs ih =>
    obtain ⟨hlt, hle⟩ := hbs.2 b List.mem_cons_self
    have hrest := ih hbs.tail (tokens.drop (b - pos)) (by rw [List.length_drop]; omega)
    have hfirst : tokens.take (b - pos) ≠ [] := by
      intro hnil
      have hlength := congrArg List.length hnil
      rw [List.length_take, List.length_nil] at hlength
      omega
    rw [splitAtBoundaries]
    cases bs with
    | nil => exact ⟨hfirst, trivial⟩
    | cons c bs => exact ⟨hfirst, hrest⟩

/-! ### A cold prefill among other requests -/

section Trace

variable (env : Env σ γ)

/-- The save that a prefill result attempts: the cursor drained, and a segment waits. -/
def coldAttempt (r : Req Sid) (slice : List Token) : Option Attempt :=
  if (r.prefillCursor.getD []).drop slice.length = [] then
    (r.coldSaveSegments.getD []).head?.map fun entry => (entry.1, r.contextTokens ++ slice)
  else none

/-- The attempt reaches the writer: the tier has one, and the tokens are enough for a cold save
    or a static prefix. -/
def Attempt.fires (a : Attempt) : Bool :=
  env.cfg.tier ≠ .ram ∧
    (a.1 = .cold ∨ a.1 = .agentPrefix → env.cfg.policy.minTokens ≤ a.2.length)

/-- What a save was of. -/
def saveAttempt (c : SaveCall σ Sid) : Attempt := (c.buildMeta.saveReason, c.buildMeta.tokens)

/-- What one step of the scheduler does to the request of a seq, with the saves it attempts and
    those it makes: a slice of its cursor is prefilled, in a batch with whatever else is in the
    table, or nothing its prefill depends on changes. -/
inductive ColdStep (q : SeqId) (r : Req Sid) :
    List Attempt → List (SaveCall σ Sid) → Req Sid → Prop
  | rest {r'} (h : SameCore r r') : ColdStep q r [] [] r'
  | prefill {d d' : Data σ γ Sid} {ops slice saves} (hkeys : KeysMatch d.reqTable)
      (hr : d.reqTable.lookup q = some r) (hops : applyBatchBudget env (allOps d) = some ops)
      (hop : (q, .prefill slice) ∈ ops)
      (hlog : (prefilledResult env d' r slice).2.log = d'.sys.log ++ saves.map .save) :
    ColdStep q r (coldAttempt r slice).toList saves (prefilledResult env d' r slice).1

/-- Any number of steps, with all attempts and all saves. -/
inductive ColdTrace (q : SeqId) (r : Req Sid) :
    List Attempt → List (SaveCall σ Sid) → Req Sid → Prop
  | refl : ColdTrace q r [] [] r
  | tail {atts saves r' atts' saves' r''} (h : ColdTrace q r atts saves r')
      (h' : ColdStep env q r' atts' saves' r'') :
    ColdTrace q r (atts ++ atts') (saves ++ saves') r''

variable {env}

/-! ### Slices -/

/-- A prefill row of the batch is a non-empty piece off the front of its cursor. -/
theorem mem_slicePrefills {chunk : Option Nat} (hchunk : ∀ n ∈ chunk, 0 < n)
    {ops : List (SeqId × Op)} {remaining : Nat} {q : SeqId} {slice : List Token}
    (h : (q, .prefill slice) ∈ slicePrefills chunk ops remaining) :
    ∃ tokens cap, (q, .prefill tokens) ∈ ops ∧ slice = tokens.take cap ∧
      (tokens ≠ [] → 0 < cap) := by
  induction ops generalizing remaining with
  | nil => exact absurd h List.not_mem_nil
  | cons op ops ih =>
    obtain ⟨q', op⟩ := op
    have hrest : ∀ {m}, (q, .prefill slice) ∈ slicePrefills chunk ops m →
        ∃ tokens cap, (q, .prefill tokens) ∈ (q', op) :: ops ∧ slice = tokens.take cap ∧
          (tokens ≠ [] → 0 < cap) := by
      intro m hm
      obtain ⟨tokens, cap, hmem, hslice, hcap⟩ := ih hm
      exact ⟨tokens, cap, List.mem_cons_of_mem _ hmem, hslice, hcap⟩
    cases op with
    | decode ref =>
      rcases List.mem_cons.mp h with heq | hmem
      · exact nomatch heq
      · exact hrest hmem
    | prefill tokens =>
      unfold slicePrefills at h
      split at h
      case isTrue => exact hrest h
      case isFalse hpos =>
        rcases List.mem_cons.mp h with heq | hmem
        · cases heq
          refine ⟨tokens, _, List.mem_cons_self, rfl, fun hne => ?_⟩
          have hlen : 0 < tokens.length := List.length_pos_of_ne_nil hne
          unfold prefillSliceCap
          cases chunk with
          | none => show 0 < min tokens.length remaining; omega
          | some c =>
            have hc := hchunk c rfl
            show 0 < min tokens.length (min remaining c)
            omega
        · exact hrest hmem

/-- A row before the cut is the one of the request of its seq. -/
theorem opOf_of_mem_allOps {d : Data σ γ Sid} (hkeys : KeysMatch d.reqTable) {q : SeqId}
    {op : Op} {r : Req Sid} (hr : d.reqTable.lookup q = some r) (h : (q, op) ∈ allOps d) :
    opOf r = some op := by
  unfold allOps at h
  have hmem : (q, op) ∈ (activeReqs d).filterMap fun r => (opOf r).map (r.seqId, ·) := by
    rcases List.mem_append.mp h with h | h <;> exact (List.mem_filter.mp h).1
  obtain ⟨r', hr', hrow⟩ := List.mem_filterMap.mp hmem
  obtain ⟨op', hop, heq⟩ := Option.map_eq_some_iff.mp hrow
  obtain ⟨hq, rfl⟩ := Prod.mk.inj heq
  have hlookup := lookup_of_mem_requests hkeys (List.mem_filter.mp hr').1
  rw [hq, hr] at hlookup
  cases hlookup
  exact hop

/-- A prefill row is for the cursor of its request. -/
theorem opOf_prefill {r : Req Sid} {tokens : List Token} (h : opOf r = some (.prefill tokens)) :
    r.prefillCursor = some tokens ∧ tokens ≠ [] := by
  unfold opOf at h
  split at h
  · exact nomatch h
  · split at h
    case h_1 =>
      obtain ⟨ref, -, hdec⟩ := Option.map_eq_some_iff.mp h
      exact nomatch hdec
    case h_2 => exact nomatch h
    case h_3 slice hne hcursor =>
      cases h
      exact ⟨hcursor, hne⟩

/-- A decode row is for a request with nothing left to prefill. -/
theorem opOf_decode {r : Req Sid} {ref : Ref} (h : opOf r = some (.decode ref)) :
    r.prefillCursor = none := by
  unfold opOf at h
  split at h
  · exact nomatch h
  · split at h
    case h_1 hcursor => exact hcursor
    case h_2 => exact nomatch h
    case h_3 => exact nomatch h

/-! ### The invariant -/

/-- The record of a cold prefill of `prompt`, of which `atts` were attempted and `bs` are all
    the cuts: the context, the cursor and the waiting segments are the prompt, and what was
    attempted and what is pending are the cuts. -/
structure Cutting (prompt : List Token) (f : Nat → SaveReason) (bs : List Nat)
    (r : Req Sid) (atts : List Attempt) : Prop where
  tokens : r.contextTokens ++ r.prefillCursor.getD [] ++
    ((r.coldSaveSegments.getD []).map Prod.snd).flatten = prompt
  cursor : r.prefillCursor ≠ some []
  proper : Proper (r.prefillCursor.getD []) (r.coldSaveSegments.getD [])
  cuts : atts ++ (pendingCuts (r.contextTokens.length + (r.prefillCursor.getD []).length)
    (r.coldSaveSegments.getD [])).map (fun c => (c.1, prompt.take c.2))
      = bs.map fun b => (f b, prompt.take b)

variable {prompt : List Token} {f : Nat → SaveReason} {bs : List Nat} {r : Req Sid}
  {atts : List Attempt}

/-- Another record with the same ladder. -/
theorem Cutting.of_core {r' : Req Sid} (h : Cutting prompt f bs r atts) (hcore : SameCore r r') :
    Cutting prompt f bs r' atts := by
  obtain ⟨htokens, hcursor, hproper, hcuts⟩ := h
  constructor
  · rw [hcore.contextTokens, hcore.prefillCursor, hcore.coldSaveSegments]
    exact htokens
  · rw [hcore.prefillCursor]
    exact hcursor
  · rw [hcore.prefillCursor, hcore.coldSaveSegments]
    exact hproper
  · rw [hcore.contextTokens, hcore.prefillCursor, hcore.coldSaveSegments]
    exact hcuts

/-- A save in the ladder changes nothing that the prefill depends on but the cursor and the
    waiting segments. -/
theorem maybeFireColdSave_ladder (d : Data σ γ Sid) (r : Req Sid) :
    (maybeFireColdSave env d r).1.contextTokens = r.contextTokens ∧
      (∀ reason seg rest, r.coldSaveSegments = some ((reason, seg) :: rest) →
        (maybeFireColdSave env d r).1.prefillCursor = cursorOf seg ∧
        (maybeFireColdSave env d r).1.coldSaveSegments = some rest) ∧
      (r.coldSaveSegments.getD [] = [] → r.prefillCursor = none →
        (maybeFireColdSave env d r).1.prefillCursor = none ∧
        (maybeFireColdSave env d r).1.coldSaveSegments.getD [] = []) := by
  unfold maybeFireColdSave
  split
  case h_1 hnone => exact ⟨rfl, fun _ _ _ h => (by rw [hnone] at h; exact nomatch h),
    fun hsegs hcursor => ⟨hcursor, hsegs⟩⟩
  case h_2 hnil => exact ⟨rfl, fun _ _ _ h => (by rw [hnil] at h; exact nomatch h),
    fun _ _ => ⟨rfl, rfl⟩⟩
  case h_3 reason next rest hsegs =>
    have hcontext : (if reason = .agentPrefix then fireAgentPrefixSave env d r.contextTokens r
        else fireSaveForTokens env d reason r.contextTokens r).1.contextTokens
        = r.contextTokens := by
      split
      · unfold fireAgentPrefixSave bumpCacheDelta
        dsimp only
        split <;> rfl
      · exact (creditSave_core r _ _).contextTokens
    refine ⟨hcontext, ?_, fun h => ?_⟩
    · intro reason' seg rest' h
      rw [hsegs] at h
      cases h
      exact ⟨rfl, rfl⟩
    · rw [hsegs] at h
      exact nomatch h

/-- **Step lemma.** A slice of the cursor moves the prefill on, past at most one cut. -/
theorem Cutting.prefill (h : Cutting prompt f bs r atts) {c : List Token}
    (hc : r.prefillCursor = some c) {cap : Nat} (d : Data σ γ Sid) :
    Cutting prompt f bs (prefilledResult env d r (c.take cap)).1
      (atts ++ (coldAttempt r (c.take cap)).toList) := by
  obtain ⟨htokens, hcursor, hproper, hcuts⟩ := h
  rw [hc, Option.getD_some] at htokens hproper hcuts
  unfold prefilledResult coldAttempt
  dsimp only
  rw [hc, Option.getD_some]
  by_cases hrest : c.drop (c.take cap).length = []
  -- Some of the cursor is left: the slice moved into the context, and no cut is near.
  case neg =>
    rw [if_neg hrest, if_neg hrest, Option.toList_none, List.append_nil]
    have hsplit : c.take cap ++ c.drop (c.take cap).length = c := by
      rcases Nat.le_total cap c.length with hle | hle
      · rw [List.length_take_of_le hle, List.take_append_drop]
      · rw [List.take_of_length_le hle, List.drop_length, List.append_nil]
    have hlength := congrArg List.length hsplit
    rw [List.length_append] at hlength
    constructor
    · show (r.contextTokens ++ c.take cap) ++ c.drop (c.take cap).length ++ _ = prompt
      rw [List.append_assoc r.contextTokens, hsplit]
      exact htokens
    · exact fun heq => hrest (Option.some.inj heq)
    · show Proper (c.drop (c.take cap).length) (r.coldSaveSegments.getD [])
      generalize r.coldSaveSegments.getD [] = segs at hproper
      cases segs with
      | nil => trivial
      | cons entry rest => exact ⟨hrest, hproper.2⟩
    · show atts ++ (pendingCuts ((r.contextTokens ++ c.take cap).length
        + (c.drop (c.take cap).length).length) _).map _ = _
      rw [List.length_append, Nat.add_assoc, hlength]
      exact hcuts
  case pos =>
    rw [if_pos hrest, if_pos hrest]
    have htake : c.take cap = c := by
      have hlength := congrArg List.length hrest
      rw [List.length_drop, List.length_nil, List.length_take] at hlength
      exact List.take_of_length_le (by omega)
    rw [htake]
    obtain ⟨hcontext, hnext, hdone⟩ := maybeFireColdSave_ladder d
      { r with contextTokens := r.contextTokens ++ c, prefillCursor := none, lastSaveAt := 0 }
    cases hsegs : r.coldSaveSegments.getD [] with
    | nil =>
      -- The last segment drained: the prompt is in the context, and no cut is left.
      obtain ⟨hcursor', hsegs'⟩ := hdone hsegs rfl
      rw [hsegs] at htokens hcuts
      rw [List.head?_nil, Option.map_none, Option.toList_none, List.append_nil]
      constructor
      · rw [hcontext, hcursor', hsegs', Option.getD_none, List.append_nil]
        exact htokens
      · rw [hcursor']
        exact nofun
      · rw [hsegs']
        trivial
      · rw [hsegs']
        exact hcuts
    | cons entry rest =>
      -- A cut is reached: its save is attempted, and the next segment rotates in.
      obtain ⟨reason, seg⟩ := entry
      have hsome : r.coldSaveSegments = some ((reason, seg) :: rest) := by
        cases hr : r.coldSaveSegments with
        | none => rw [hr] at hsegs; exact nomatch hsegs
        | some segs => rw [hr] at hsegs; exact congrArg some hsegs
      obtain ⟨hcursor', hsegs'⟩ := hnext reason seg rest hsome
      rw [hsegs] at htokens hproper hcuts
      have hseg : (cursorOf seg).getD [] = seg := by
        unfold cursorOf
        split
        case isTrue hnil => exact hnil.symm
        case isFalse => rfl
      -- the context is the prompt up to this cut
      have hprompt : prompt.take (r.contextTokens.length + c.length) = r.contextTokens ++ c := by
        rw [← htokens, ← List.length_append, List.take_left]
      constructor
      · rw [hcontext, hcursor', hsegs', hseg]
        show r.contextTokens ++ c ++ seg ++ (rest.map Prod.snd).flatten = prompt
        rw [← htokens, List.map_cons, List.flatten_cons, List.append_assoc, List.append_assoc]
      · rw [hcursor']
        unfold cursorOf
        split
        · exact nofun
        case isFalse hne => exact fun heq => hne (Option.some.inj heq)
      · rw [hcursor', hsegs', hseg]
        exact hproper.2
      · rw [hcontext, hcursor', hsegs', hseg, List.head?_cons, Option.map_some,
          Option.toList_some, ← hcuts, List.append_assoc]
        show _ ++ ([(reason, r.contextTokens ++ c)] ++ (pendingCuts
          ((r.contextTokens ++ c).length + seg.length) rest).map _) = _
        rw [List.length_append, ← hprompt]
        rfl

variable (env) in
/-- A save function that saves what it was asked to, when the attempt fires. -/
theorem fireSaveIf_log (d : Data σ γ Sid) (should : Bool) (reason : SaveReason)
    (tokens : List Token) (r : Req Sid)
    (hshould : Attempt.fires env (reason, tokens) = true ↔
      ¬ (should = false ∨ env.cfg.tier = .ram)) :
    ∃ saves : List (SaveCall σ Sid),
      (fireSaveIf env d should reason tokens r).2.log = d.sys.log ++ saves.map .save ∧
      saves.map saveAttempt = [(reason, tokens)].filter (Attempt.fires env) := by
  unfold fireSaveIf
  by_cases hfires : Attempt.fires env (reason, tokens) = true
  · rw [if_neg (hshould.mp hfires), List.filter_cons_of_pos hfires]
    exact ⟨[_], rfl, rfl⟩
  · rw [if_pos (not_not.mp fun h => hfires (hshould.mpr h)), List.filter_cons_of_neg hfires]
    exact ⟨[], (List.append_nil _).symm, rfl⟩

/-- What saving the agent's prefix attempts. -/
theorem fireAgentPrefixSave_log (d : Data σ γ Sid) (tokens : List Token) (r : Req Sid) :
    ∃ saves : List (SaveCall σ Sid),
      (fireAgentPrefixSave env d tokens r).2.log = d.sys.log ++ saves.map .save ∧
      saves.map saveAttempt = [(.agentPrefix, tokens)].filter (Attempt.fires env) := by
  obtain ⟨saves, hlog, hsaves⟩ := fireSaveIf_log env d
    (decide (env.cfg.policy.minTokens ≤ tokens.length)) .agentPrefix tokens r
    (by unfold Attempt.fires; simp [and_comm])
  refine ⟨saves, ?_, hsaves⟩
  unfold fireAgentPrefixSave
  dsimp only
  split <;> exact hlog

/-- What saving tokens attempts. -/
theorem fireSaveForTokens_log (d : Data σ γ Sid) {reason : SaveReason}
    (hne : reason ≠ .agentPrefix) (tokens : List Token) (r : Req Sid) :
    ∃ saves : List (SaveCall σ Sid),
      (fireSaveForTokens env d reason tokens r).2.log = d.sys.log ++ saves.map .save ∧
      saves.map saveAttempt = [(reason, tokens)].filter (Attempt.fires env) := by
  refine fireSaveIf_log env d _ reason tokens r ?_
  unfold Attempt.fires
  by_cases hcold : reason = .cold
  · simp [hcold, and_comm]
  · simp [hcold, hne]

/-- What a drained cursor attempts: the checkpoint at the head of the ladder, if there is one. -/
theorem maybeFireColdSave_log (d : Data σ γ Sid) (r : Req Sid) :
    ∃ saves : List (SaveCall σ Sid),
      (maybeFireColdSave env d r).2.log = d.sys.log ++ saves.map .save ∧
      saves.map saveAttempt = ((r.coldSaveSegments.getD []).head?.map fun entry =>
        (entry.1, r.contextTokens)).toList.filter (Attempt.fires env) := by
  have hnone : ∃ saves : List (SaveCall σ Sid), d.sys.log = d.sys.log ++ saves.map .save ∧
      saves.map saveAttempt = [] := ⟨[], (List.append_nil _).symm, rfl⟩
  unfold maybeFireColdSave
  cases hsegs : r.coldSaveSegments with
  | none => exact hnone
  | some segs =>
    cases segs with
    | nil => exact hnone
    | cons entry rest =>
      obtain ⟨reason, next⟩ := entry
      by_cases hprefix : reason = .agentPrefix
      · subst hprefix
        exact fireAgentPrefixSave_log d r.contextTokens r
      · obtain ⟨saves, hlog, hsaves⟩ := fireSaveForTokens_log d hprefix
          r.contextTokens r
        refine ⟨saves, ?_, hsaves⟩
        dsimp only
        rw [if_neg hprefix]
        exact hlog

variable (env) in
/-- **The saves of a prefill result are its attempt, if it fires.** -/
theorem prefilledResult_log (d : Data σ γ Sid) (r : Req Sid) (slice : List Token) :
    ∃ saves : List (SaveCall σ Sid),
      (prefilledResult env d r slice).2.log = d.sys.log ++ saves.map .save ∧
      saves.map saveAttempt = (coldAttempt r slice).toList.filter (Attempt.fires env) := by
  unfold prefilledResult coldAttempt
  dsimp only
  split
  case isFalse => exact ⟨[], (List.append_nil _).symm, rfl⟩
  case isTrue => exact maybeFireColdSave_log d _

/-- Appended lists that agree after the same list are the same. -/
theorem saves_unique {l : List (Entry σ Sid)} {saves saves' : List (SaveCall σ Sid)}
    (h : l ++ saves.map .save = l ++ saves'.map .save) : saves = saves' := by
  have hinj : Function.Injective (Entry.save : SaveCall σ Sid → Entry σ Sid) :=
    fun c c' heq => Entry.save.inj heq
  exact (List.map_injective_iff.mpr hinj) (List.append_cancel_left h)

/-! ### Whole prefills -/

/-- The first record of a cold prefill. -/
theorem cutting_setupCold (d : Data σ γ Sid) (r : Req Sid) :
    Cutting r.promptTokens (ladderReason · r.prefixCheckpointLen)
      (coldCuts env.cfg.policy r.promptTokens.length r.prefixCheckpointLen)
      (setupCold env d r).1 [] := by
  have hcuts := coldCuts_ascending env.cfg.policy r.promptTokens.length r.prefixCheckpointLen
  have hladder := buildColdLadder_eq env.cfg.policy r.promptTokens r.prefixCheckpointLen
  generalize coldCuts env.cfg.policy r.promptTokens.length r.prefixCheckpointLen = bs
    at hcuts hladder ⊢
  have hcursor : ∀ c, (cursorOf c).getD [] = c := by
    intro c
    unfold cursorOf
    split
    case isTrue hnil => exact hnil.symm
    case isFalse => rfl
  -- The segments of the ladder are proper, and make up the prompt.
  have hproper := proper_zip (ladderReason · r.prefixCheckpointLen) bs hcuts r.promptTokens
    (Nat.zero_add _)
  have hflat := splitAtBoundaries_flatten bs 0 r.promptTokens
  have hlen : ∀ (bs : List Nat) (pos : Nat) (tokens : List Token),
      (splitAtBoundaries bs pos tokens).length = bs.length + 1 := by
    intro bs
    induction bs with
    | nil => exact fun _ _ => rfl
    | cons b bs ih => exact fun _ _ => congrArg (· + 1) (ih _ _)
  unfold setupCold
  dsimp only
  rw [hladder]
  constructor
  -- the first segment is the cursor, the rest waits
  · show [] ++ (cursorOf _).getD [] ++ _ = _
    rw [hcursor, List.nil_append]
    dsimp only
    rw [Option.getD_some, List.map_snd_zip]
    · cases bs with
      | nil => exact List.append_nil _
      | cons b bs => exact hflat
    · rw [List.length_tail, hlen, List.length_map]
      omega
  · show cursorOf _ ≠ some []
    unfold cursorOf
    split
    · exact nofun
    case isFalse hne => exact fun heq => hne (Option.some.inj heq)
  -- the cuts that wait are those that were planned
  · show Proper ((cursorOf _).getD []) _
    rw [hcursor]
    exact hproper
  · show [] ++ (pendingCuts (0 + ((cursorOf _).getD []).length) _).map _ = _
    rw [hcursor, Nat.zero_add, List.nil_append]
    cases bs with
    | nil => rfl
    | cons b bs =>
      obtain ⟨hlt, hle⟩ := hcuts.2 b List.mem_cons_self
      have htake : (r.promptTokens.take (b - 0)).length = b := by
        rw [List.length_take]
        omega
      have hpending := pendingCuts_zip (ladderReason · r.prefixCheckpointLen) b bs hcuts.tail
        (r.promptTokens.drop (b - 0)) (by rw [List.length_drop]; omega)
      show (pendingCuts (r.promptTokens.take (b - 0)).length _).map _ = _
      rw [htake]
      dsimp only
      rw [Option.getD_some]
      show (pendingCuts b (((b :: bs).map _).zip
        (splitAtBoundaries bs b (r.promptTokens.drop (b - 0))))).map _ = _
      rw [hpending, List.map_map]
      rfl

/-- **Step lemma**, for whatever the scheduler does. -/
theorem Cutting.step {q : SeqId} {atts' : List Attempt} {saves : List (SaveCall σ Sid)}
    {r' : Req Sid} (h : Cutting prompt f bs r atts)
    (hstep : ColdStep env q r atts' saves r') :
    Cutting prompt f bs r' (atts ++ atts') ∧
      saves.map saveAttempt = atts'.filter (Attempt.fires env) := by
  cases hstep with
  | rest hcore =>
    rw [List.append_nil]
    exact ⟨h.of_core hcore, rfl⟩
  | @prefill d d' ops slice saves hkeys hr hops hop hlog =>
    have hbudget : ∃ n, ops = slicePrefills env.cfg.policy.prefillChunkSize (allOps d) n := by
      unfold applyBatchBudget at hops
      dsimp only at hops
      split at hops
      · exact nomatch hops
      · cases hops
        exact ⟨_, rfl⟩
    obtain ⟨n, rfl⟩ := hbudget
    obtain ⟨tokens, cap, hmem, rfl, -⟩ := mem_slicePrefills env.cfg.policy.chunk_pos hop
    obtain ⟨hcursor, -⟩ := opOf_prefill (opOf_of_mem_allOps hkeys hr hmem)
    obtain ⟨saves', hlog', hsaves⟩ := prefilledResult_log env d' r (tokens.take cap)
    obtain rfl := saves_unique (hlog.symm.trans hlog')
    exact ⟨h.prefill hcursor d', hsaves⟩

/-- A cold prefill keeps the invariant among whatever else is scheduled. -/
theorem Cutting.trace {q : SeqId} {atts : List Attempt} {saves : List (SaveCall σ Sid)}
    {r' : Req Sid} (h : Cutting prompt f bs r []) (htrace : ColdTrace env q r atts saves r') :
    Cutting prompt f bs r' atts ∧ saves.map saveAttempt = atts.filter (Attempt.fires env) := by
  induction htrace with
  | refl => exact ⟨h, rfl⟩
  | tail _ hstep ih =>
    obtain ⟨hcutting, hsaves⟩ := ih
    obtain ⟨hcutting', hsaves'⟩ := hcutting.step hstep
    refine ⟨hcutting', ?_⟩
    rw [List.map_append, List.filter_append, hsaves, hsaves']

/-- Once nothing is left to prefill, the prompt is in the context and every cut was attempted. -/
theorem Cutting.done (h : Cutting prompt f bs r atts) (hdone : r.prefillCursor = none) :
    r.contextTokens = prompt ∧ atts = bs.map fun b => (f b, prompt.take b) := by
  obtain ⟨htokens, -, hproper, hcuts⟩ := h
  rw [hdone, Option.getD_none] at htokens hproper hcuts
  -- A waiting segment would wait behind a cursor that has tokens.
  have hsegs : r.coldSaveSegments.getD [] = [] := by
    cases hr : r.coldSaveSegments.getD [] with
    | nil => rfl
    | cons entry rest =>
      rw [hr] at hproper
      exact absurd rfl hproper.1
  rw [hsegs] at htokens hcuts
  constructor
  · rw [← htokens, List.append_nil, List.map_nil, List.flatten_nil, List.append_nil]
  · rw [← hcuts]
    exact (List.append_nil atts).symm

/-- A cut at the end of the prompt is the trim cut, and nothing is trimmed. -/
theorem IsCut.at_end {p : Policy} {len : Nat} {n : Option Nat} (h : IsCut p len n len) :
    p.boundaryTrimTokens = 0 ∧ p.boundaryAlignTokens ∣ len := by
  rcases h with ⟨-, -, t, ht, hcut⟩ | ⟨-, -, hlt⟩
  case inr => exact absurd hlt (Nat.lt_irrefl len)
  obtain ⟨hpos, hle⟩ := trimCount_bounds p.align_pos ht
  rcases hcut with rfl | hladder
  case inr =>
    have hlt := (mem_ladderBoundaries p p.align_pos hladder).2.2
    omega
  refine ⟨by omega, ?_⟩
  unfold trimCount at ht
  split at ht
  · exact nomatch ht
  · exact ⟨_, (Option.some.inj ht).symm.trans (Nat.mul_comm _ _)⟩

/-- **Run theorem.** However a cold prefill is sliced and scheduled, once it is complete the
    whole prompt is in the context and a save was attempted at each cut of the prompt, once and
    in order, of the prompt up to there; the end of the prompt is a cut only where the policy
    trims nothing.  The saves made are the attempts with enough tokens to fire. -/
theorem coldTrace_attempts {q : SeqId} {d : Data σ γ Sid} {r r' : Req Sid}
    {atts : List Attempt} {saves : List (SaveCall σ Sid)}
    (htrace : ColdTrace env q (setupCold env d r).1 atts saves r')
    (hdone : r'.prefillCursor = none) :
    r'.contextTokens = r.promptTokens ∧
    (∃ bs : List Nat, bs.Pairwise (· < ·) ∧
      (∀ b, b ∈ bs ↔ IsCut env.cfg.policy r.promptTokens.length r.prefixCheckpointLen b) ∧
      (∀ b ∈ bs, 0 < b ∧ b ≤ r.promptTokens.length ∧
        (b = r.promptTokens.length → env.cfg.policy.boundaryTrimTokens = 0 ∧
          env.cfg.policy.boundaryAlignTokens ∣ r.promptTokens.length)) ∧
      atts = bs.map (attemptAt r.promptTokens r.prefixCheckpointLen)) ∧
    saves.map saveAttempt = atts.filter (Attempt.fires env) := by
  obtain ⟨hcutting, hsaves⟩ := (cutting_setupCold d r).trace htrace
  obtain ⟨hcontext, hatts⟩ := hcutting.done hdone
  obtain ⟨hsorted, hbounds⟩ := coldCuts_ascending env.cfg.policy
    r.promptTokens.length r.prefixCheckpointLen
  refine ⟨hcontext, ⟨_, hsorted, fun b => mem_coldCuts, fun b hb => ?_, hatts⟩, hsaves⟩
  obtain ⟨hpos, hle⟩ := hbounds b hb
  refine ⟨hpos, hle, ?_⟩
  rintro rfl
  exact (mem_coldCuts.mp hb).at_end

end Trace

/-- Eight tokens to prefill, with a static prefix of three. -/
def checkpointedReq : Req Nat :=
  { prefillOnlyReq (mapProc plainParams .empty 1).data 0 0 [65, 66, 67, 68, 69, 70, 71, 72]
      none with
    prefixCheckpointLen := some 3 }

/-- Prefilling `slice` of a request that is alone in the table of its process. -/
theorem ColdStep.alone (r : Req Nat) (slice : List Token) (hq : r.seqId = 0)
    (hops : applyBatchBudget (mapEnv plainParams .empty 1)
      (allOps (putReq (mapProc plainParams .empty 1).data r)) = some [(0, .prefill slice)]) :
    ∃ saves r', r' = (prefilledResult (mapEnv plainParams .empty 1)
        (mapProc plainParams .empty 1).data r slice).1 ∧
      ColdStep (mapEnv plainParams .empty 1) 0 r (coldAttempt r slice).toList saves r' := by
  have hempty : KeysMatch (mapProc plainParams .empty 1).data.reqTable := fun _ _ hr => nomatch hr
  obtain ⟨saves, hlog, -⟩ := prefilledResult_log (mapEnv plainParams .empty 1)
    (mapProc plainParams .empty 1).data r slice
  refine ⟨saves, _, rfl, .prefill (KeysMatch.putReq hempty r) ?_ hops List.mem_cons_self hlog⟩
  rw [lookup_putReq, hq, if_pos rfl]

/-- It is prefilled in two steps; nothing is trimmed, so both end at a cut. -/
theorem checkpointedReq_trace :
    ∃ saves r', ColdTrace (mapEnv plainParams .empty 1) 0
      (setupCold (mapEnv plainParams .empty 1) (mapProc plainParams .empty 1).data
        checkpointedReq).1
      [(.agentPrefix, [65, 66, 67]), (.cold, [65, 66, 67, 68, 69, 70, 71, 72])] saves r' ∧
      r'.prefillCursor = none := by
  obtain ⟨saves, r₁, rfl, hfirst⟩ := ColdStep.alone (setupCold (mapEnv plainParams .empty 1)
    (mapProc plainParams .empty 1).data checkpointedReq).1 [65, 66, 67] rfl
    (by decide +kernel)
  obtain ⟨saves', r₂, rfl, hsecond⟩ := ColdStep.alone (prefilledResult (mapEnv plainParams .empty 1)
    (mapProc plainParams .empty 1).data (setupCold (mapEnv plainParams .empty 1)
      (mapProc plainParams .empty 1).data checkpointedReq).1 [65, 66, 67]).1
    [68, 69, 70, 71, 72] rfl (by decide +kernel)
  exact ⟨_, _, .tail (.tail .refl hfirst) hsecond, by decide +kernel⟩

/-- The second save is attempted at the end of the prompt. -/
theorem checkpointedReq_atEnd :
    ¬ ∀ atts saves r', ColdTrace (mapEnv plainParams .empty 1) 0
      (setupCold (mapEnv plainParams .empty 1) (mapProc plainParams .empty 1).data
        checkpointedReq).1 atts saves r' → r'.prefillCursor = none →
      ∀ a ∈ atts, a.2.length < checkpointedReq.promptTokens.length := by
  intro h
  obtain ⟨saves, r', htrace, hdone⟩ := checkpointedReq_trace
  have hlast := h _ saves r' htrace hdone (.cold, [65, 66, 67, 68, 69, 70, 71, 72]) (by simp)
  exact absurd hlast (by decide)

/-- The cuts of eight tokens where nothing is trimmed: three and eight. -/
theorem checkpointedReq_attempts :
    ∃ saves r', ColdTrace (mapEnv plainParams .empty 1) 0
        (setupCold (mapEnv plainParams .empty 1) (mapProc plainParams .empty 1).data
          checkpointedReq).1
        [(.agentPrefix, [65, 66, 67]), (.cold, [65, 66, 67, 68, 69, 70, 71, 72])] saves r' ∧
      r'.contextTokens = [65, 66, 67, 68, 69, 70, 71, 72] ∧
      saves.map saveAttempt =
        [(.agentPrefix, [65, 66, 67]), (.cold, [65, 66, 67, 68, 69, 70, 71, 72])] := by
  obtain ⟨saves, r', htrace, hdone⟩ := checkpointedReq_trace
  obtain ⟨hcontext, -, hsaves⟩ := coldTrace_attempts htrace hdone
  exact ⟨saves, r', htrace, hcontext, hsaves.trans (by decide +kernel)⟩

/-! ### The prefills of the process -/

section Process

variable {env : Env σ γ}

/-- What is applied to a request: prefill rows are slices of its cursor, cut to the budget, and
    speculation commits tokens only behind a drained cursor. -/
def sliceGuard (env : Env σ γ) : Guard σ γ Sid :=
  { Guard.free with
    results := fun d pairs => ∃ ops, applyBatchBudget env (allOps d) = some ops ∧
      ∀ pair ∈ pairs, pair.1 ∈ ops
    commit := fun d q _ => ∀ r, d.reqTable.lookup q = some r → r.prefillCursor = none }

/-- What became of the prefilling request of a seq: it left the table, or it lived on as a cold
    prefill does. -/
def Followed (env : Env σ γ) (q : SeqId) (r : Req Sid) (d' : Data σ γ Sid) : Prop :=
  d'.reqTable.lookup q = none ∨ ∃ atts saves r', d'.reqTable.lookup q = some r' ∧
    ColdTrace env q r atts saves r'

variable {d d' : Data σ γ Sid} {q : SeqId} {r : Req Sid}

/-- A move that keeps the entry of the request. -/
theorem Followed.same (hr : d.reqTable.lookup q = some r)
    (h : d'.reqTable.lookup q = d.reqTable.lookup q) : Followed env q r d' :=
  .inr ⟨[], [], r, h.trans hr, .refl⟩

/-- One stretch of a trace after another. -/
theorem ColdTrace.trans {atts atts' : List Attempt} {saves saves' : List (SaveCall σ Sid)}
    {r' r'' : Req Sid} (h : ColdTrace env q r atts saves r')
    (h' : ColdTrace env q r' atts' saves' r'') :
    ColdTrace env q r (atts ++ atts') (saves ++ saves') r'' := by
  induction h' with
  | refl =>
    rw [List.append_nil, List.append_nil]
    exact h
  | tail _ hstep ih =>
    rw [← List.append_assoc, ← List.append_assoc]
    exact ih.tail hstep

/-- One step is a trace. -/
theorem ColdTrace.of_step {atts : List Attempt} {saves : List (SaveCall σ Sid)} {r' : Req Sid}
    (h : ColdStep env q r atts saves r') : ColdTrace env q r atts saves r' :=
  .tail .refl h

/-- Another record of some request in the table: the prefill of `q` is still followed. -/
theorem Followed.put (hr : d.reqTable.lookup q = some r) {q' : SeqId} {r₀ r₁ : Req Sid}
    (hr₀ : d.reqTable.lookup q' = some r₀) (hkeys : KeysMatch d.reqTable)
    (hident : r₁.seqId = r₀.seqId) (hcore : q' = q → SameCore r₀ r₁) :
    Followed env q r (putReq d r₁) := by
  have hseq : r₁.seqId = q' := hident.trans (hkeys q' r₀ hr₀)
  by_cases hq : q' = q
  · subst hq
    rw [hr] at hr₀
    cases hr₀
    refine .inr ⟨[], [], r₁, ?_, .of_step (.rest (hcore rfl))⟩
    rw [lookup_putReq, hseq, if_pos rfl]
  · refine .same hr ?_
    rw [lookup_putReq, hseq, if_neg fun h => hq h.symm]

variable (env) in
/-- Applying results changes the records of their seqs only. -/
theorem lookup_applyStepResults_of_notMem (pairs : List ResultPair) (d : Data σ γ Sid)
    (hkeys : KeysMatch d.reqTable) (hq : q ∉ pairs.map fun pair => pair.1.1) :
    (applyStepResults env pairs d).2.reqTable.lookup q = d.reqTable.lookup q := by
  induction pairs generalizing d with
  | nil => rfl
  | cons pair pairs ih =>
    obtain ⟨⟨q', op⟩, res⟩ := pair
    rw [List.map_cons, List.mem_cons, not_or] at hq
    unfold applyStepResults
    split
    case h_1 => rfl
    case h_2 r' hr' =>
      split
      case h_1 => rfl
      case h_2 r'' s hres =>
        have hseq : r''.seqId = q' :=
          (stepResult_applies env d r' hres).ident.seqId.trans (hkeys q' r' hr')
        rw [ih _ (KeysMatch.putReq (d := withSys d s) hkeys r'') hq.2, lookup_putReq, hseq,
          if_neg hq.1]
        rfl

/-- Where a result was applied, in some state on the way there. -/
theorem lookup_applyStepResults (pairs : List ResultPair) {d d' : Data σ γ Sid}
    (hkeys : KeysMatch d.reqTable) (hnodup : (pairs.map fun pair => pair.1.1).Nodup)
    (h : applyStepResults env pairs d = (true, d')) {op : Op} {res : StepResult}
    (hpair : ((q, op), res) ∈ pairs) (hr : d.reqTable.lookup q = some r) :
    ∃ (d₁ : Data σ γ Sid) (out : Req Sid × Sys σ γ Sid),
      stepResult env d₁ r op res = some out ∧ d'.reqTable.lookup q = some out.1 := by
  induction pairs generalizing d with
  | nil => exact absurd hpair List.not_mem_nil
  | cons pair pairs ih =>
    obtain ⟨⟨q', op'⟩, res'⟩ := pair
    rw [List.map_cons, List.nodup_cons] at hnodup
    unfold applyStepResults at h
    split at h
    case h_1 => exact nomatch congrArg Prod.fst h
    case h_2 r' hr' =>
      split at h
      case h_1 => exact nomatch congrArg Prod.fst h
      case h_2 r'' s hres =>
        have hseq : r''.seqId = q' :=
          (stepResult_applies env d r' hres).ident.seqId.trans (hkeys q' r' hr')
        have hkeys' := KeysMatch.putReq (d := withSys d s) hkeys r''
        rcases List.mem_cons.mp hpair with heq | hrest
        · cases heq
          rw [hr] at hr'
          cases hr'
          refine ⟨d, _, hres, ?_⟩
          have hkeep := lookup_applyStepResults_of_notMem env pairs
            (putReq (withSys d s) r'') hkeys' hnodup.1
          rw [h, lookup_putReq, hseq, if_pos rfl] at hkeep
          exact hkeep
        · refine ih hkeys' hnodup.2 h hrest ?_
          have hne : q ≠ q' := by
            rintro rfl
            exact hnodup.1 (List.mem_map_of_mem (f := fun pair => pair.1.1) hrest)
          rw [lookup_putReq, hseq, if_neg hne]
          exact hr

/-- A decode row of the batch is for a request with nothing left to prefill. -/
theorem drained_of_decode (hkeys : KeysMatch d.reqTable) {ops : List (SeqId × Op)}
    (hops : applyBatchBudget env (allOps d) = some ops) {ref : Ref} (hop : (q, .decode ref) ∈ ops)
    (hr : d.reqTable.lookup q = some r) : r.prefillCursor = none := by
  have hslice : ∀ (chunk : Option Nat) (ops : List (SeqId × Op)) (n : Nat),
      (q, .decode ref) ∈ slicePrefills chunk ops n → (q, .decode ref) ∈ ops := by
    intro chunk ops n h
    fun_induction slicePrefills chunk ops n with
    | case1 => exact h
    | case2 q' ref' ops n ih =>
      rcases List.mem_cons.mp h with heq | h
      · rw [heq]
        exact List.mem_cons_self
      · exact List.mem_cons_of_mem _ (ih h)
    | case3 q' tokens ops ih => exact List.mem_cons_of_mem _ (ih h)
    | case4 q' tokens ops n hn cap ih =>
      rcases List.mem_cons.mp h with heq | h
      · cases heq
      · exact List.mem_cons_of_mem _ (ih h)
  unfold applyBatchBudget at hops
  dsimp only at hops
  split at hops
  · cases hops
  cases hops
  exact opOf_decode (opOf_of_mem_allOps hkeys hr (hslice _ _ _ hop))

/-- The results of a step prefill a slice of a cursor, and go to nothing else that prefills. -/
theorem followed_results {ops : List (SeqId × Op)} {results : List (SeqId × StepResult)}
    {pairs : List ResultPair} (hkeys : KeysMatch d.reqTable) (hops : OpsFit d ops)
    (hpairs : pairOpsWithResults ops results = some pairs)
    (hG : (sliceGuard env : Guard σ γ Sid).results d pairs)
    (happ : applyStepResults env pairs d = (true, d'))
    (hr : d.reqTable.lookup q = some r) (hcursor : r.prefillCursor ≠ none) :
    Followed env q r d' := by
  obtain ⟨ops', hbudget, hsub⟩ := hG
  have hfst := (Contract.pairOpsWithResults_spec hpairs).1
  have hnodup : (pairs.map fun pair => pair.1.1).Nodup := by
    have hmap : (pairs.map fun pair => pair.1.1) = (pairs.map Prod.fst).map Prod.fst := by
      rw [List.map_map]
      rfl
    rw [hmap, hfst]
    exact hops.nodup
  by_cases hq : q ∈ pairs.map fun pair => pair.1.1
  case neg =>
    have hkeep := lookup_applyStepResults_of_notMem env pairs d hkeys hq
    rw [happ] at hkeep
    exact .same hr hkeep
  obtain ⟨⟨⟨q', op⟩, res⟩, hpair, rfl⟩ := List.mem_map.mp hq
  obtain ⟨d₁, out, hres, hlookup⟩ := lookup_applyStepResults pairs hkeys hnodup happ hpair hr
  have hop := hsub _ hpair
  cases op with
  | decode ref => exact absurd (drained_of_decode hkeys hbudget hop hr) hcursor
  | prefill slice =>
    cases res with
    | prefilled =>
      cases hres
      obtain ⟨saves, hlog, -⟩ := prefilledResult_log env d₁ r slice
      exact .inr ⟨_, _, _, hlookup, .of_step (.prefill hkeys hr hbudget hop hlog)⟩
    | _ => exact nomatch hres

variable (env) in
/-- Committed tokens are those of one request. -/
theorem lookup_applySpecCommitted_of_ne {q' : SeqId} (hne : q ≠ q') (eog : Bool)
    (tokens : List Token) (d : Data σ γ Sid) (hkeys : KeysMatch d.reqTable) :
    (applySpecCommitted env q' eog tokens d).2.reqTable.lookup q = d.reqTable.lookup q ∧
      KeysMatch (applySpecCommitted env q' eog tokens d).2.reqTable := by
  induction tokens generalizing d with
  | nil => exact ⟨rfl, hkeys⟩
  | cons tok rest ih =>
    unfold applySpecCommitted
    split
    case h_1 => exact ⟨rfl, hkeys⟩
    case h_2 r' hr' =>
      split
      · exact ⟨rfl, hkeys⟩
      · have happ := tokenResult_applies env d r' tok (if rest = [] then eog else false)
        generalize tokenResult env d r' tok (if rest = [] then eog else false) = res at happ
        have hseq : res.1.seqId = q' := happ.ident.seqId.trans (hkeys q' r' hr')
        have hrest := ih (putReq (withSys d res.2) res.1)
          (KeysMatch.putReq (d := withSys d res.2) hkeys res.1)
        rw [lookup_putReq, hseq, if_neg hne] at hrest
        exact hrest

/-- Committing speculated tokens changes the record of their seq only. -/
theorem lookup_commitSpec_of_ne {q' : SeqId} (hne : q ≠ q') {draft : List Token}
    {res : SpecResult} (hkeys : KeysMatch d.reqTable)
    (h : commitSpec env d q' draft res = .stepped d') :
    d'.reqTable.lookup q = d.reqTable.lookup q := by
  obtain ⟨hlookup, hkeys'⟩ :=
    lookup_applySpecCommitted_of_ne env hne res.eog res.committed d hkeys
  have htrim : ∀ d₁ : Data σ γ Sid, (specTrimOvershoot env d₁ q').reqTable = d₁.reqTable := by
    intro d₁
    unfold specTrimOvershoot
    split <;> rfl
  have hfeedback : ∀ d₁ : Data σ γ Sid, KeysMatch d₁.reqTable →
      (specRecordFeedback env d₁ q' draft.length res.nAcc).reqTable.lookup q
        = d₁.reqTable.lookup q := by
    intro d₁ hkeys₁
    unfold specRecordFeedback
    dsimp only
    split
    case h_1 => rfl
    case h_2 r' hr' =>
      rw [lookup_putReq, if_neg]
      · rfl
      · rwa [show Req.seqId _ = q' from hkeys₁ q' r' hr']
  unfold commitSpec at h
  dsimp only at h
  split at h
  case h_1 => exact nomatch h
  case h_2 =>
    cases h
    split
    · rw [hfeedback _ hkeys', hlookup]
    · rw [hfeedback _ (by rw [htrim]; exact hkeys'), htrim, hlookup]

variable [LinearOrder Sid]

/-- **Every move lets a prefilling request prefill, or takes it out of the table.** -/
theorem Move.followed (h : Move env (sliceGuard env) d d') (hd : Wf env d)
    (hr : d.reqTable.lookup q = some r) (hcursor : r.prefillCursor ≠ none) :
    Followed env q r d' := by
  have hkeys := hd.table.keysMatch
  -- The entries of other seqs, whether idle or at rest, come and go without this one.
  have hidle : ∀ {q' rest}, d.idleSeqIds = q' :: rest → q ≠ q' := fun {q' rest} heq =>
    (Contract.idle_apart hd (heq ▸ List.mem_cons_self : q' ∈ d.idleSeqIds)).1 q r hr
  have hfree : ∀ {q'}, d.reqTable.lookup q' = none → q ≠ q' := by
    rintro q' hnone rfl
    rw [hr] at hnone
    exact nomatch hnone
  -- An admission and a removal touch one entry, which is not this one or is gone.
  have hstart₀ : ∀ (d₀ : Data σ γ Sid) (r₀ : Req Sid) mode prompt lookup,
      d₀.reqTable = d.reqTable → q ≠ r₀.seqId →
      Followed env q r (admitOn env d₀ r₀ mode prompt lookup) := by
    intro d₀ r₀ mode prompt lookup htable hne
    have hseq := (setupAdmissionPath_admits env d₀ r₀ mode prompt lookup).same.seqId
    refine .same (d := d₀) (htable ▸ hr) ?_
    unfold admitOn
    dsimp only
    rw [lookup_putReq, hseq, if_neg hne]
    rfl
  have hremove : ∀ (s : Sys σ γ Sid) (q' : SeqId),
      Followed env q r (removeReq (withSys d s) q') := by
    intro s q'
    by_cases hq : q = q'
    · left
      rw [lookup_removeReq, if_pos hq]
    · refine .same hr ?_
      rw [lookup_removeReq, if_neg hq]
      rfl
  cases h with
  | sys h => exact .same hr rfl
  | other hG spec => exact .same hr rfl
  | @start q' rest r' lookup heq hq hfresh prompt hG =>
    exact hstart₀ _ r' .normal prompt lookup rfl (hq ▸ hidle heq)
  | @startMedia q' rest r' heq hq hfresh hG =>
    refine .same hr ?_
    rw [lookup_putReq, hq, if_neg (hidle heq)]
  | @resume sid s r' mode prompt hs hnone hq hsid hfresh hmode lookup hG =>
    exact hstart₀ _ r' mode prompt lookup rfl (hq ▸ hfree hnone)
  | @update q' r₀ r₁ h hcore hlife => exact .put hr h hkeys hcore.seqId fun _ => hcore
  | @results _ ops results x pairs hops hstep hpairs hG happ =>
    exact followed_results (d := withCtx d x) hkeys ⟨hops.nodup, hops.inTable⟩ hpairs hG happ
      hr hcursor
  | @spec _ cb sampler q' r₀ draft res x hcb h hspec hstep hG hcommit =>
    -- The speculative step is for a decoding request, and this one still prefills.
    have hne : q ≠ q' := by
      rintro rfl
      exact hcursor (hG r hr)
    exact .same hr (lookup_commitSpec_of_ne (d := withCtx d x) hne hkeys hcommit)
  | @mediaDone cb q' r₀ n x hcb h hpending hcall hG =>
    -- A media request has no cursor.
    have hmedia : r₀.prefillCursor = none := by
      have hwf := (hd.table q' r₀ h).2
      exact hwf.cursor_of_media (hwf.media_of_state (by rw [hpending]; rfl))
    refine .put (d := withCtx d x) hr h hkeys rfl ?_
    rintro rfl
    rw [hr] at h
    cases h
    exact absurd hmedia hcursor
  | @mediaFailed cb q' r₀ e x hcb h hpending hcall => exact hremove _ _
  | @finish q' r₀ h hG =>
    -- It is the one that finishes, or another one is.
    by_cases hq : q = r₀.seqId
    · left
      have hgone : (removeReq (withSys d (announceFinish env d r₀)) r₀.seqId).reqTable.lookup q
          = none := by
        rw [lookup_removeReq, if_pos hq]
      unfold finishReq releaseOrPinSeq
      split <;> exact hgone
    · exact .same hr (lookup_finishReq_of_ne d r₀ hq)
  | drop hs hnone => exact .same hr rfl
  | fork hs hnone hnew heq hcp hcopy hG => exact .same hr rfl
  | forkFailed hs heq hcp hcopy => exact .same hr rfl
  | @reset sid s hs =>
    rw [resetSessionSeq_eq hs]
    rcases failInflightForSeq_table env d s.seqId .engineReset with ⟨s', -, heq⟩ | ⟨-, heq⟩
    · rw [heq]
      exact hremove s' s.seqId
    · rw [heq]
      exact .same hr rfl
  | @evict q' r₀ h hG reason hreason =>
    unfold fireSaveForReq
    split
    · exact .same hr rfl
    · have hcore : SameCore r₀ { creditSave (fireSaveIf env d true reason r₀.contextTokens r₀).1
          r₀ r₀.contextTokens with lastSaveAt := r₀.contextTokens.length } :=
        (creditSave_core r₀ _ _).trans ⟨⟨rfl, rfl, rfl, rfl, rfl, id⟩, rfl, rfl, rfl⟩
      exact .put (d := withSys d _) hr h hkeys hcore.seqId fun _ => hcore
  | load hG => exact .same hr (by rw [(loadAdapter_step d _ _).reqTable])
  | unload hG => exact .same hr (by rw [(unloadAdapter_step d _).reqTable])
  | scale hG => exact .same hr (by rw [(setAdapterScale_step d _ _).reqTable])
  | inspect h hG => exact .same hr rfl
  | recover hlog hout hf hreset hG => exact .inl rfl

omit [LinearOrder Sid] in
/-- The guard on slices asks nothing of admissions. -/
theorem sliceGuard_open : (sliceGuard env : Guard σ γ Sid).Open :=
  ⟨fun _ => trivial, fun _ _ _ => trivial, fun _ _ => trivial, fun _ _ => trivial⟩

omit [LinearOrder Sid] in
/-- A request that speculates has nothing left to prefill. -/
theorem maybeSpecTick_drained {r : Req Sid} {draft : List Token}
    (h : (maybeSpecTick env d).1 = some (r, draft)) : r.prefillCursor = none := by
  unfold maybeSpecTick at h
  split at h
  case h_2 => exact nomatch h
  case h_1 r₀ hactive =>
    split at h
    case isFalse => exact nomatch h
    case isTrue hready =>
      unfold specDraftFor at h
      split at h
      case h_2 => exact nomatch h
      case h_1 =>
        split at h
        · exact nomatch h
        · dsimp only at h
          split at h
          · split at h
            · exact nomatch h
            · cases h
              exact hready.2.1
          · exact nomatch h

/-- The body of a tick applies slices of cursors, and commits behind drained ones. -/
theorem bodyOk_slice (hd : Wf env d) : BodyOk env (sliceGuard env) d := by
  have hwf := (honourCancellations_moves (G := sliceGuard env) hd).wf hd
  unfold BodyOk
  dsimp only
  split
  · trivial
  · obtain ⟨-, htable⟩ := maybeSpecTick_moves (G := sliceGuard env) hwf.table
    split
    case h_1 r draft hspec =>
      intro d' res hres r₀ hr₀
      have hreqs : d'.reqTable = (maybeSpecTick env (honourCancellations d)).2.reqTable := by
        unfold specResult at hres
        split at hres
        · dsimp only at hres
          split at hres
          · cases hres
            rfl
          · exact nomatch hres
        · exact nomatch hres
      rw [hreqs, (htable r draft hspec).1] at hr₀
      cases hr₀
      exact maybeSpecTick_drained hspec
    case h_2 =>
      intro d' pairs hres
      unfold stepResults at hres
      split at hres
      · exact nomatch hres
      · exact nomatch hres
      case h_3 ops hbudget hne =>
        dsimp only at hres
        split at hres
        case h_2 => exact nomatch hres
        case h_1 results hok =>
          obtain ⟨pairs', hpairs, heq⟩ := Option.map_eq_some_iff.mp hres
          cases heq
          refine ⟨ops, hne, fun pair hpair => ?_⟩
          rw [← (Contract.pairOpsWithResults_spec hpairs).1]
          exact List.mem_map_of_mem hpair

/-- Every event meets it. -/
theorem stepOk_slice {p : Proc σ γ Sid} (hp : Wf env p.data) (e : Event Sid) :
    StepOk env (sliceGuard env) p e := by
  have hopen : (sliceGuard env : Guard σ γ Sid).Open := sliceGuard_open
  intro _
  cases e with
  | request item => exact hopen.admitOk p.data item
  | «continue» frm suffix opts => exact fun _ _ => hopen.pinnedGuard _
  | tick =>
    refine fun _ _ => ⟨bodyOk_slice ((takeTick_moves (G := .free) p.data).wf hp),
      fun d' _ => ⟨.of_forall (fun _ _ => trivial) _ _, hopen.queueOk _⟩, fun _ _ _ _ => trivial⟩
  | verify => exact fun _ _ => trivial
  | embed => exact fun _ => trivial
  | embedBatch => exact fun _ => trivial
  | evict => exact fun _ _ => trivial
  | shutdown => exact fun _ _ => trivial
  | forkSession => exact fun _ _ _ _ _ _ _ => trivial
  | _ => trivial

/-- A run that does not stop is a number of moves. -/
theorem run_moves {p : Proc σ γ Sid} (hp : Wf env p.data) (events : List (Event Sid))
    (hlive : (run (step env) p events).phase ≠ .stopped) :
    Moves env (sliceGuard env) p.data (run (step env) p events).data := by
  induction events generalizing p with
  | nil => exact .refl
  | cons e events ih =>
    have hrest := ih (step_wf hp e) hlive
    have hstep := step_steps hp (stepOk_slice hp e)
    refine Relation.ReflTransGen.trans ?_ hrest
    -- A stopped process stays stopped.
    have hstay : ∀ (d : Data σ γ Sid) (events : List (Event Sid)),
        run (step env) ⟨.stopped, d⟩ events = ⟨.stopped, d⟩ := by
      intro d events
      induction events with
      | nil => rfl
      | cons e events ih =>
        show run (step env) (step env ⟨.stopped, d⟩ e) events = _
        rw [show step env ⟨.stopped, d⟩ e = ⟨.stopped, d⟩ from if_pos rfl]
        exact ih
    change (run (step env) (step env p e) events).phase ≠ .stopped at hlive
    generalize step env p e = p' at hstep hlive ⊢
    cases hstep with
    | live h => exact h
    | halted h h' =>
      rw [hstay] at hlive
      exact absurd rfl hlive

/-- **A prefill of the process is a cold prefill among others**: in a run that does not stop,
    the request of a seq lives on as one until the run ends, its cursor is drained or it leaves
    the table. -/
theorem run_coldTrace {p : Proc σ γ Sid} (hp : Wf env p.data) (events : List (Event Sid))
    (hlive : (run (step env) p events).phase ≠ .stopped)
    (hr : p.data.reqTable.lookup q = some r) :
    ∃ d₁ r₁ atts saves, Moves env (sliceGuard env) p.data d₁ ∧
      Moves env (sliceGuard env) d₁ (run (step env) p events).data ∧
      d₁.reqTable.lookup q = some r₁ ∧ ColdTrace env q r atts saves r₁ ∧
      (d₁ = (run (step env) p events).data ∨ r₁.prefillCursor = none ∨
        ∃ d₂, Move env (sliceGuard env) d₁ d₂ ∧ d₂.reqTable.lookup q = none) := by
  have hmoves := run_moves hp events hlive
  generalize (run (step env) p events).data = d' at hmoves
  induction hmoves with
  | refl => exact ⟨_, r, [], [], .refl, .refl, hr, .refl, .inl rfl⟩
  | @tail d₂ d₃ hfirst hmove ih =>
    obtain ⟨d₁, r₁, atts, saves, hbefore, hafter, hlookup, htrace, hend⟩ := ih
    have hkeep := fun h => (⟨d₁, r₁, atts, saves, hbefore, hafter.tail hmove, hlookup, htrace, h⟩ :
      ∃ d₁ r₁ atts saves, Moves env (sliceGuard env) p.data d₁ ∧
        Moves env (sliceGuard env) d₁ d₃ ∧ d₁.reqTable.lookup q = some r₁ ∧
        ColdTrace env q r atts saves r₁ ∧ (d₁ = d₃ ∨ r₁.prefillCursor = none ∨
          ∃ d₂, Move env (sliceGuard env) d₁ d₂ ∧ d₂.reqTable.lookup q = none))
    by_cases hcursor : r₁.prefillCursor = none
    · exact hkeep (.inr (.inl hcursor))
    · rcases hend with rfl | hdone | hgone
      · rcases hmove.followed (hbefore.wf hp) hlookup hcursor with hnone | ⟨a, s, r₂, hr₂, htrace'⟩
        · exact hkeep (.inr (.inr ⟨d₃, hmove, hnone⟩))
        · exact ⟨d₃, r₂, _, _, hbefore.tail hmove, .refl, hr₂, htrace.trans htrace', .inl rfl⟩
      · exact absurd hdone hcursor
      · exact hkeep (.inr (.inr hgone))

end Process

end Erllama.Model
