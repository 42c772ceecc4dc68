import Erllama.Model.Checkpoints

namespace Erllama.Model

open Lib

/-!
# The batch of a tick

`apply_batch_budget/2` keeps the decode rows whole and cuts the prefill rows, in order, to the
chunk size and to what the rows before them left of the batch.  `apply_step_results/2` advances
each cursor by the slice that was sent.

* `opTokens`, `batchTokens`, `prefillTokens` — what rows take of a batch.
* `Budgeted` — what the batch of an op list is.
* `applyBatchBudget_budgeted` — every op list whose decode rows leave room has one.
* `left`, `SliceTrace` — what a request has left to prefill, and the slices sent of it over the
  ticks, in batches with whatever else is in the table.
* `batch_budget` — the batch of a tick, and the slices of a request over a run.
-/

variable {σ γ Sid : Type}

/-- The tokens a row takes of the batch. -/
def opTokens : Op → Nat
  | .decode _       => 1
  | .prefill tokens => tokens.length

/-- The tokens of all rows. -/
def batchTokens (ops : List (SeqId × Op)) : Nat := (ops.map fun p => opTokens p.2).sum

/-- The tokens of the prefill rows. -/
def prefillTokens (ops : List (SeqId × Op)) : Nat :=
  ((ops.filter fun p => !p.2.isDecode).map fun p => opTokens p.2).sum

/-- The row is a prefill of the seq. -/
def prefillsSeq (q : SeqId) (p : SeqId × Op) : Bool := p.1 = q && !p.2.isDecode

/-- A row and what is left of it after the cut. -/
inductive CutRow : SeqId × Op → SeqId × Op → Prop
  | decode (q ref) : CutRow (q, .decode ref) (q, .decode ref)
  | prefill (q) {tokens slice : List Token} (hpre : slice <+: tokens) (hne : slice ≠ []) :
    CutRow (q, .prefill tokens) (q, .prefill slice)

/-- `out` is the batch of `ops`: the budget is kept, no decode row and no order is lost, every
    prefill row is as long as its cursor, the chunk size and the rest of the budget allow, and
    one is dropped only when the budget is used up. -/
structure Budgeted (budget : Nat) (chunkSize : Option Nat) (ops out : List (SeqId × Op)) :
    Prop where
  total : batchTokens out ≤ budget
  decodes : out.filter (fun p => p.2.isDecode) = ops.filter fun p => p.2.isDecode
  order : ∃ kept, kept.Sublist ops ∧ List.Forall₂ CutRow kept out
  once : ∀ q, out.countP (prefillsSeq q) ≤ ops.countP (prefillsSeq q)
  slices : ∀ before q slice after, out = before ++ (q, .prefill slice) :: after →
    slice ≠ [] ∧ ∃ tokens, (q, .prefill tokens) ∈ ops ∧ slice = tokens.take
      (prefillSliceCap tokens.length
        (budget - ops.countP (fun p => p.2.isDecode) - prefillTokens before) chunkSize)
  dropped : out.length < ops.length → batchTokens out = budget
  nonempty : ops ≠ [] → out ≠ []

/-! ### Cutting the rows -/

/-- A decode row prefills nothing. -/
@[simp] theorem prefillTokens_decode (q : SeqId) (ref : Ref) (ops : List (SeqId × Op)) :
    prefillTokens ((q, .decode ref) :: ops) = prefillTokens ops := rfl

/-- A prefill row counts its tokens. -/
@[simp] theorem prefillTokens_prefill (q : SeqId) (tokens : List Token)
    (ops : List (SeqId × Op)) :
    prefillTokens ((q, .prefill tokens) :: ops) = tokens.length + prefillTokens ops := rfl

/-- The rows of a batch are its decode rows, one token each, and its prefill rows. -/
theorem batchTokens_eq (ops : List (SeqId × Op)) :
    batchTokens ops = ops.countP (fun p => p.2.isDecode) + prefillTokens ops := by
  induction ops with
  | nil => rfl
  | cons p ops ih =>
    obtain ⟨q, op⟩ := p
    cases op with
    | decode ref =>
      have hsum : batchTokens ((q, .decode ref) :: ops) = 1 + batchTokens ops := rfl
      rw [hsum, ih, List.countP_cons_of_pos rfl, prefillTokens_decode]
      omega
    | prefill tokens =>
      have hsum : batchTokens ((q, .prefill tokens) :: ops) =
          tokens.length + batchTokens ops := rfl
      rw [hsum, ih, List.countP_cons_of_neg (by exact Bool.false_ne_true), prefillTokens_prefill]
      omega

/-- A slice is capped by what there is and by what the batch has left. -/
theorem prefillSliceCap_le (len remaining : Nat) (chunkSize : Option Nat) :
    prefillSliceCap len remaining chunkSize ≤ len ∧
      prefillSliceCap len remaining chunkSize ≤ remaining := by
  unfold prefillSliceCap
  cases chunkSize with
  | none => exact ⟨Nat.min_le_left _ _, Nat.min_le_right _ _⟩
  | some c =>
    show min len (min remaining c) ≤ len ∧ min len (min remaining c) ≤ remaining
    omega

/-- It is not empty if both are not. -/
theorem prefillSliceCap_pos {len remaining : Nat} {chunkSize : Option Nat} (hlen : 0 < len)
    (hrem : 0 < remaining) (hchunk : ∀ n ∈ chunkSize, 0 < n) :
    0 < prefillSliceCap len remaining chunkSize := by
  unfold prefillSliceCap
  cases chunkSize with
  | none =>
    show 0 < min len remaining
    omega
  | some c =>
    have hc := hchunk c rfl
    show 0 < min len (min remaining c)
    omega

variable {chunkSize : Option Nat} {ops : List (SeqId × Op)}

/-- The slices take no more than is there, and all of it where a row is dropped. -/
theorem slicePrefills_total (chunkSize : Option Nat) (ops : List (SeqId × Op)) (n : Nat) :
    prefillTokens (slicePrefills chunkSize ops n) ≤ n ∧
      ((slicePrefills chunkSize ops n).length < ops.length →
        prefillTokens (slicePrefills chunkSize ops n) = n) := by
  fun_induction slicePrefills chunkSize ops n with
  | case1 => exact ⟨Nat.zero_le _, fun h => absurd h (Nat.lt_irrefl _)⟩
  | case2 q ref ops n ih =>
    rw [prefillTokens_decode]
    exact ⟨ih.1, fun h => ih.2 (Nat.lt_of_succ_lt_succ h)⟩
  | case3 q tokens ops ih => exact ⟨ih.1, fun _ => Nat.le_zero.mp ih.1⟩
  | case4 q tokens ops n hn cap ih =>
    have hcap := prefillSliceCap_le tokens.length n chunkSize
    have hlen : (tokens.take cap).length = cap := List.length_take_of_le hcap.1
    have hle : cap ≤ n := hcap.2
    rw [prefillTokens_prefill, hlen]
    refine ⟨by have := ih.1; omega, fun h => ?_⟩
    have := ih.2 (Nat.lt_of_succ_lt_succ h)
    omega

/-- Slicing keeps the decode rows. -/
theorem slicePrefills_decodes (chunkSize : Option Nat) (ops : List (SeqId × Op)) (n : Nat) :
    (slicePrefills chunkSize ops n).filter (fun p => p.2.isDecode) =
      ops.filter fun p => p.2.isDecode := by
  fun_induction slicePrefills chunkSize ops n with
  | case1 => rfl
  | case2 q ref ops n ih => exact congrArg ((q, Op.decode ref) :: ·) ih
  | case3 q tokens ops ih => exact ih
  | case4 q tokens ops n hn cap ih => exact ih

/-- The rows keep their order, each as it was or cut. -/
theorem slicePrefills_order (hchunk : ∀ n ∈ chunkSize, 0 < n) (n : Nat)
    (hne : ∀ q tokens, (q, Op.prefill tokens) ∈ ops → tokens ≠ []) :
    ∃ kept, kept.Sublist ops ∧ List.Forall₂ CutRow kept (slicePrefills chunkSize ops n) := by
  fun_induction slicePrefills chunkSize ops n with
  | case1 => exact ⟨[], .slnil, .nil⟩
  | case2 q ref ops n ih =>
    obtain ⟨kept, hsub, hcut⟩ := ih fun q t h => hne q t (List.mem_cons_of_mem _ h)
    exact ⟨_, hsub.cons_cons _, .cons (.decode q ref) hcut⟩
  | case3 q tokens ops ih =>
    obtain ⟨kept, hsub, hcut⟩ := ih fun q t h => hne q t (List.mem_cons_of_mem _ h)
    exact ⟨kept, hsub.cons _, hcut⟩
  | case4 q tokens ops n hn cap ih =>
    obtain ⟨kept, hsub, hcut⟩ := ih fun q t h => hne q t (List.mem_cons_of_mem _ h)
    refine ⟨_, hsub.cons_cons (q, .prefill tokens),
      .cons (.prefill q (List.take_prefix _ _) ?_) hcut⟩
    have htokens := hne q tokens List.mem_cons_self
    have hpos : 0 < cap :=
      prefillSliceCap_pos (List.length_pos_of_ne_nil htokens) (Nat.pos_of_ne_zero hn) hchunk
    rw [ne_eq, List.take_eq_nil_iff, not_or]
    exact ⟨by omega, htokens⟩

/-- It makes no second prefill row for a seq. -/
theorem slicePrefills_once (chunkSize : Option Nat) (ops : List (SeqId × Op)) (n : Nat)
    (q : SeqId) : (slicePrefills chunkSize ops n).countP (prefillsSeq q) ≤
      ops.countP (prefillsSeq q) := by
  fun_induction slicePrefills chunkSize ops n with
  | case1 => exact Nat.le_refl _
  | case2 q' ref ops n ih =>
    rw [List.countP_cons, List.countP_cons]
    omega
  | case3 q' tokens ops ih =>
    rw [List.countP_cons]
    omega
  | case4 q' tokens ops n hn cap ih =>
    have hsame : prefillsSeq q (q', .prefill (tokens.take cap)) =
        prefillsSeq q (q', .prefill tokens) := rfl
    rw [List.countP_cons, List.countP_cons, hsame]
    omega

/-- Each slice is as long as its cursor, the chunk size and the rest of the budget allow. -/
theorem slicePrefills_slices (chunkSize : Option Nat) (ops : List (SeqId × Op)) (n : Nat) :
    ∀ before q slice after,
      slicePrefills chunkSize ops n = before ++ (q, .prefill slice) :: after →
        ∃ tokens, (q, .prefill tokens) ∈ ops ∧ slice = tokens.take
          (prefillSliceCap tokens.length (n - prefillTokens before) chunkSize) := by
  fun_induction slicePrefills chunkSize ops n with
  | case1 =>
    intro before q slice after h
    exact absurd h.symm (List.append_ne_nil_of_right_ne_nil _ (List.cons_ne_nil _ _))
  | case2 q' ref ops n ih =>
    intro before q slice after h
    cases before with
    | nil =>
      obtain ⟨hrow, -⟩ := List.cons.inj h
      cases hrow
    | cons p before =>
      obtain ⟨rfl, hrest⟩ := List.cons.inj h
      obtain ⟨tokens, hmem, hslice⟩ := ih before q slice after hrest
      exact ⟨tokens, List.mem_cons_of_mem _ hmem, hslice⟩
  | case3 q' tokens' ops ih =>
    intro before q slice after h
    obtain ⟨tokens, hmem, hslice⟩ := ih before q slice after h
    exact ⟨tokens, List.mem_cons_of_mem _ hmem, hslice⟩
  | case4 q' tokens' ops n hn cap ih =>
    intro before q slice after h
    cases before with
    | nil =>
      -- the row itself: nothing of the budget went to rows before it
      obtain ⟨hrow, -⟩ := List.cons.inj h
      cases hrow
      exact ⟨tokens', List.mem_cons_self, rfl⟩
    | cons p before =>
      obtain ⟨rfl, hrest⟩ := List.cons.inj h
      obtain ⟨tokens, hmem, hslice⟩ := ih before q slice after hrest
      have hlen : (tokens'.take cap).length = cap :=
        List.length_take_of_le (prefillSliceCap_le tokens'.length n chunkSize).1
      rw [prefillTokens_prefill, hlen, ← Nat.sub_sub]
      exact ⟨tokens, List.mem_cons_of_mem _ hmem, hslice⟩

/-- **The batch.** Where the decode rows leave room, every op list has its batch. -/
theorem applyBatchBudget_budgeted (env : Env σ γ)
    (hne : ∀ q tokens, (q, Op.prefill tokens) ∈ ops → tokens ≠ [])
    (hroom : ops.countP (fun p => p.2.isDecode) < env.cfg.totalBatchBudget) :
    ∃ out, applyBatchBudget env ops = some out ∧
      Budgeted env.cfg.totalBatchBudget env.cfg.policy.prefillChunkSize ops out := by
  refine ⟨_, if_neg (by omega), ?_⟩
  have hchunk := env.cfg.policy.chunk_pos
  obtain ⟨htotal, hdropped⟩ := slicePrefills_total env.cfg.policy.prefillChunkSize ops
    (env.cfg.totalBatchBudget - ops.countP fun p => p.2.isDecode)
  have hdecodes := slicePrefills_decodes env.cfg.policy.prefillChunkSize ops
    (env.cfg.totalBatchBudget - ops.countP fun p => p.2.isDecode)
  obtain ⟨kept, hsub, hcut⟩ := slicePrefills_order hchunk
    (env.cfg.totalBatchBudget - ops.countP fun p => p.2.isDecode) hne
  have honce := slicePrefills_once env.cfg.policy.prefillChunkSize ops
    (env.cfg.totalBatchBudget - ops.countP fun p => p.2.isDecode)
  have hslices := slicePrefills_slices env.cfg.policy.prefillChunkSize ops
    (env.cfg.totalBatchBudget - ops.countP fun p => p.2.isDecode)
  have hrows := fun q slice => @mem_slicePrefills _ hchunk ops
    (env.cfg.totalBatchBudget - ops.countP fun p => p.2.isDecode) q slice
  generalize slicePrefills env.cfg.policy.prefillChunkSize ops
    (env.cfg.totalBatchBudget - ops.countP fun p => p.2.isDecode) = out at *
  have hcount : out.countP (fun p => p.2.isDecode) = ops.countP fun p => p.2.isDecode := by
    rw [List.countP_eq_length_filter, List.countP_eq_length_filter, hdecodes]
  have hbatch := batchTokens_eq out
  constructor
  · omega
  · exact hdecodes
  · exact ⟨kept, hsub, hcut⟩
  · exact honce
  · intro before q slice after hout
    refine ⟨?_, hslices before q slice after hout⟩
    -- the row is cut from one with tokens, and takes at least one
    have hmem : (q, Op.prefill slice) ∈ out := by
      rw [hout]
      exact List.mem_append_right _ List.mem_cons_self
    obtain ⟨tokens, cap, htokens, rfl, hcap⟩ := hrows q slice hmem
    have hpos := hcap (hne q tokens htokens)
    rw [ne_eq, List.take_eq_nil_iff, not_or]
    exact ⟨by omega, hne q tokens htokens⟩
  · intro hlt
    have := hdropped hlt
    omega
  · rintro hops rfl
    -- an empty batch has dropped a row, so the budget would be zero
    have hzero := hdropped (List.length_pos_of_ne_nil hops)
    have hnone : prefillTokens [] = 0 := rfl
    omega

/-! ### Over the ticks -/

/-- What a request has left to prefill: its cursor, and the segments that wait behind it. -/
def leftToPrefill (r : Req Sid) : List Token :=
  r.prefillCursor.getD [] ++ ((r.coldSaveSegments.getD []).map Prod.snd).flatten

/-- What one step of the scheduler does to the request of a seq: the slice that its batch holds
    of it is prefilled, or nothing its prefill depends on changes. -/
inductive SliceStep (env : Env σ γ) (q : SeqId) (r : Req Sid) : List Token → Req Sid → Prop
  | rest {r'} (h : SameCore r r') : SliceStep env q r [] r'
  | sent {d d' : Data σ γ Sid} {ops slice} (hkeys : KeysMatch d.reqTable)
      (hr : d.reqTable.lookup q = some r) (hops : applyBatchBudget env (allOps d) = some ops)
      (hop : (q, .prefill slice) ∈ ops) : SliceStep env q r slice (prefilledResult env d' r slice).1

/-- Any number of steps, with all that was sent. -/
inductive SliceTrace (env : Env σ γ) (q : SeqId) (r : Req Sid) : List Token → Req Sid → Prop
  | refl : SliceTrace env q r [] r
  | tail {sent r' slice r''} (h : SliceTrace env q r sent r') (h' : SliceStep env q r' slice r'') :
    SliceTrace env q r (sent ++ slice) r''

section Trace

variable {env : Env σ γ} {q : SeqId} {r r' : Req Sid}

/-- A drained cursor is refilled from the segments that wait. -/
theorem maybeFireColdSave_left (env : Env σ γ) (d : Data σ γ Sid)
    (hcursor : r.prefillCursor = none) :
    leftToPrefill (maybeFireColdSave env d r).1 = leftToPrefill r := by
  unfold maybeFireColdSave leftToPrefill
  cases hsegs : r.coldSaveSegments with
  | none => simp [hsegs]
  | some segs =>
    cases segs with
    | nil => simp [hcursor]
    | cons entry rest =>
      obtain ⟨reason, next⟩ := entry
      rw [hcursor]
      by_cases hnext : next = []
      · simp [hnext]
      · simp [hnext]

/-- **One step.** What is sent comes off the front of what is left. -/
theorem SliceStep.left {slice : List Token} (h : SliceStep env q r slice r') :
    slice ++ leftToPrefill r' = leftToPrefill r := by
  cases h with
  | rest hcore =>
    unfold leftToPrefill
    rw [hcore.prefillCursor, hcore.coldSaveSegments]
    rfl
  | @sent d d' ops _ hkeys hr hops hop =>
    unfold applyBatchBudget at hops
    dsimp only at hops
    split at hops
    case isTrue => exact nomatch hops
    cases hops
    obtain ⟨tokens, cap, hmem, rfl, -⟩ := mem_slicePrefills env.cfg.policy.chunk_pos hop
    obtain ⟨hcursor, -⟩ := opOf_prefill (opOf_of_mem_allOps hkeys hr hmem)
    -- the cursor is advanced by the length that was sent
    have hrest : (r.prefillCursor.getD []).drop (tokens.take cap).length = tokens.drop cap := by
      rw [hcursor, Option.getD_some, List.length_take]
      rcases Nat.le_total cap tokens.length with hle | hle
      · rw [Nat.min_eq_left hle]
      · rw [Nat.min_eq_right hle, List.drop_length, List.drop_of_length_le hle]
    have hleft : leftToPrefill r = tokens.take cap ++ (tokens.drop cap ++
        ((r.coldSaveSegments.getD []).map Prod.snd).flatten) := by
      unfold leftToPrefill
      rw [hcursor, Option.getD_some, ← List.append_assoc, List.take_append_drop]
    rw [hleft, List.append_right_inj]
    unfold prefilledResult
    dsimp only
    rw [hrest]
    by_cases hdone : tokens.drop cap = []
    · rw [if_pos hdone, maybeFireColdSave_left env d' rfl, hdone]
      rfl
    · rw [if_neg hdone]
      rfl

/-- **Any number of steps.** All that was sent comes off the front of what was left. -/
theorem SliceTrace.left {sent : List Token} (h : SliceTrace env q r sent r') :
    sent ++ leftToPrefill r' = leftToPrefill r := by
  induction h with
  | refl => rfl
  | tail _ hstep ih => rw [List.append_assoc, hstep.left, ih]

/-- The steps of a prefill with its saves, without them. -/
theorem ColdTrace.sliced {atts : List Attempt} {saves : List (SaveCall σ Sid)}
    (h : ColdTrace env q r atts saves r') : ∃ sent, SliceTrace env q r sent r' := by
  induction h with
  | refl => exact ⟨[], .refl⟩
  | tail _ hstep ih =>
    obtain ⟨sent, htrace⟩ := ih
    cases hstep with
    | rest hcore => exact ⟨_, htrace.tail (.rest hcore)⟩
    | prefill hkeys hr hops hop hlog => exact ⟨_, htrace.tail (.sent hkeys hr hops hop)⟩

end Trace

/-- **Batches and slices.** Where the decode rows leave room, every op list has its batch.  In
    every run that does not stop, what the ticks send of a request is a prefix of its cursor
    and the segments behind it, until the run ends, the cursor is drained for good or the
    request leaves the table. -/
theorem batch_budget [LinearOrder Sid] (env : Env σ γ) :
    (∀ ops : List (SeqId × Op), (∀ q tokens, (q, Op.prefill tokens) ∈ ops → tokens ≠ []) →
      ops.countP (fun p => p.2.isDecode) < env.cfg.totalBatchBudget →
      ∃ out, applyBatchBudget env ops = some out ∧
        Budgeted env.cfg.totalBatchBudget env.cfg.policy.prefillChunkSize ops out) ∧
    ∀ (ctx : σ) (world : γ) (before events : List (Event Sid)) (q : SeqId) (r : Req Sid),
      (run (step env) (init env ctx world) (before ++ events)).phase ≠ .stopped →
      (run (step env) (init env ctx world) before).data.reqTable.lookup q = some r →
      ∃ d₁ r₁ sent,
        Moves env (sliceGuard env) (run (step env) (init env ctx world) before).data d₁ ∧
        Moves env (sliceGuard env) d₁
          (run (step env) (init env ctx world) (before ++ events)).data ∧
        d₁.reqTable.lookup q = some r₁ ∧ SliceTrace env q r sent r₁ ∧
        sent ++ leftToPrefill r₁ = leftToPrefill r ∧
        (d₁ = (run (step env) (init env ctx world) (before ++ events)).data ∨
          r₁.prefillCursor = none ∨
          ∃ d₂, Move env (sliceGuard env) d₁ d₂ ∧ d₂.reqTable.lookup q = none) := by
  constructor
  · exact fun ops hne hroom => applyBatchBudget_budgeted env hne hroom
  · intro ctx world before events q r hlive hr
    rw [run_append] at hlive ⊢
    obtain ⟨d₁, r₁, atts, saves, hbefore, hafter, hlookup, htrace, hend⟩ :=
      run_coldTrace (run_wf ctx world before) events hlive hr
    obtain ⟨sent, hsent⟩ := htrace.sliced
    exact ⟨d₁, r₁, sent, hbefore, hafter, hlookup, hsent, hsent.left, hend⟩

/-- Eight tokens to prefill, with a static prefix of three. -/
def prefixedPrefill : Event Nat :=
  .request (.prefillOnly 0 [65, 66, 67, 68, 69, 70, 71, 72]
    ⟨⟨some 1, [], false, none, ⟨0, []⟩⟩, none, none, some 3, none, .block⟩)

/-- A decode row and two prefill rows in a batch of sixteen: the second one is cut.  And eight
    tokens to prefill, over two ticks: what was sent and what is left are the eight. -/
theorem batch_budget_mixed :
    (∃ out, applyBatchBudget (mapEnv plainParams .empty 3)
        [(0, .decode 5), (1, .prefill (List.range 10)), (2, .prefill (List.range 10))] = some out ∧
      Budgeted (mapEnv plainParams .empty 3).cfg.totalBatchBudget
        (mapEnv plainParams .empty 3).cfg.policy.prefillChunkSize
        [(0, .decode 5), (1, .prefill (List.range 10)), (2, .prefill (List.range 10))] out) ∧
    ∃ r d₁ r₁ sent, leftToPrefill r = [65, 66, 67, 68, 69, 70, 71, 72] ∧
      Moves (mapEnv plainParams .empty 1) (sliceGuard (mapEnv plainParams .empty 1)) d₁
        (run (step (mapEnv plainParams .empty 1)) (mapProc plainParams .empty 1)
          [prefixedPrefill, .tick, .tick]).data ∧
      d₁.reqTable.lookup 0 = some r₁ ∧
      SliceTrace (mapEnv plainParams .empty 1) 0 r sent r₁ ∧
      sent ++ leftToPrefill r₁ = [65, 66, 67, 68, 69, 70, 71, 72] := by
  constructor
  · refine (@batch_budget _ _ Nat _ (mapEnv plainParams .empty 3)).1 _ ?_ (by decide)
    intro q tokens h
    simp only [List.mem_cons, Prod.mk.injEq, Op.prefill.injEq, List.not_mem_nil, or_false,
      reduceCtorEq, and_false, false_or] at h
    rcases h with ⟨-, rfl⟩ | ⟨-, rfl⟩ <;> decide
  · have hleft : ((run (step (mapEnv plainParams .empty 1)) (mapProc plainParams .empty 1)
        [prefixedPrefill]).data.reqTable.lookup 0).map leftToPrefill =
        some [65, 66, 67, 68, 69, 70, 71, 72] := by decide +kernel
    obtain ⟨r, hr, hleft⟩ := Option.map_eq_some_iff.mp hleft
    obtain ⟨d₁, r₁, sent, -, hmoves, hlookup, htrace, hsent, -⟩ :=
      (@batch_budget _ _ Nat _ (mapEnv plainParams .empty 1)).2 _ _ [prefixedPrefill]
        [.tick, .tick] 0 r (by decide +kernel) hr
    exact ⟨r, d₁, r₁, sent, hleft, hmoves, hlookup, htrace, hsent.trans hleft⟩

/-- The cursor it is admitted with is the static prefix; the second tick sends what comes
    behind. -/
theorem prefixedPrefill_rotates :
    let env := mapEnv plainParams .empty 1
    let admitted := run (step env) (mapProc plainParams .empty 1) [prefixedPrefill]
    let ticked := run (step env) admitted [.tick]
    (admitted.data.reqTable.lookup 0).bind Req.prefillCursor = some [65, 66, 67] ∧
      applyBatchBudget env (allOps admitted.data) = some [(0, .prefill [65, 66, 67])] ∧
      applyBatchBudget env (allOps ticked.data) = some [(0, .prefill [68, 69, 70, 71, 72])] ∧
      ¬ [65, 66, 67] ++ [68, 69, 70, 71, 72] <+: [65, 66, 67] := by
  refine ⟨?_, ?_, ?_, ?_⟩ <;> decide +kernel

end Erllama.Model
