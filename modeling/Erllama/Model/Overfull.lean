import Erllama.Model.Cancel
import Erllama.Model.Checkpoints
import Erllama.Model.Events
import Erllama.Model.MapBackend

namespace Erllama.Model

open Lib

/-!
# A batch that its decoders fill

`apply_batch_budget/2` raises when the decode rows reach the batch budget, also when they just
fit it.  There are at most as many rows as seqs, so with a batch of at least `n_seq_max` tokens
that happens only when every seq decodes at once and the batch has exactly one token for each.

* `Req.Decodes`, `AllDecode` — the requests with a decode row, and all seqs having one.
* `Raises`, `Crowded` — the tick raises, and what the state before such a tick looks like.
* `decodeSeqs` — the seqs of the decode rows.
* `run_raises_iff` — the runs without the error.
-/

variable {σ γ Sid : Type}

/-- The request is past its prefill and has a sampler, so it gets a decode row. -/
structure Req.Decodes (r : Req Sid) : Prop where
  unfinished : r.finishing = false
  drained : r.prefillCursor = none
  sampler : r.samplerRef.isSome
  media : r.mediaState ≠ some .pending

/-- Every seq decodes, for a request that is not cancelled. -/
def AllDecode (env : Env σ γ) (d : Data σ γ Sid) : Prop :=
  ∀ q < env.cfg.nSeqMax,
    ∃ r, d.reqTable.lookup q = some r ∧ r.cancelPending = false ∧ r.Decodes

section Ticks

variable (env : Env σ γ) (p : Proc σ γ Sid)

/-- The state at a tick once cancellations are honoured. -/
def honoured (p : Proc σ γ Sid) : Data σ γ Sid := honourCancellations (takeTick p.data)

/-- The event is a tick that steps the rows of several requests, not a media prefill or a
    speculative step. -/
def StepsRows (e : Event Sid) : Prop :=
  e = .tick ∧ p.phase = .running ∧ p.data.sys.ticks ≠ 0 ∧
    maybeMediaTick (honoured p) = none ∧ (maybeSpecTick env (honoured p)).1 = none

/-- The tick raises `n_batch_too_small_for_n_seq_max`. -/
def Raises (e : Event Sid) : Prop :=
  StepsRows env p e ∧ applyBatchBudget env (allOps (maybeSpecTick env (honoured p)).2) = none

/-- The tick finds all seqs decoding and a batch that has no token more than that. -/
def Crowded (e : Event Sid) : Prop :=
  StepsRows env p e ∧ env.cfg.totalBatchBudget = env.cfg.nSeqMax ∧ AllDecode env p.data

end Ticks

/-! ### The decode rows -/

/-- The seqs of the decode rows. -/
def decodeSeqs (d : Data σ γ Sid) : List SeqId :=
  ((allOps d).filter fun p => p.2.isDecode).map Prod.fst

/-- The budget is refused when the rows reach it. -/
theorem applyBatchBudget_eq_none {env : Env σ γ} {d : Data σ γ Sid} :
    applyBatchBudget env (allOps d) = none ↔
      env.cfg.totalBatchBudget ≤ (decodeSeqs d).length := by
  unfold applyBatchBudget decodeSeqs
  rw [List.length_map, ← List.countP_eq_length_filter]
  dsimp only
  split
  case isTrue h => exact iff_of_true rfl h
  case isFalse h => exact iff_of_false nofun h

/-- A request gets a decode row exactly when it decodes. -/
theorem opOf_isDecode_iff {r : Req Sid} :
    (∃ op, opOf r = some op ∧ op.isDecode = true) ↔
      r.prefillCursor = none ∧ r.samplerRef.isSome ∧ r.mediaState ≠ some .pending := by
  unfold opOf
  constructor
  · rintro ⟨op, hop, hdec⟩
    by_cases hmedia : r.mediaState = some .pending
    · rw [if_pos hmedia] at hop
      exact nomatch hop
    rw [if_neg hmedia] at hop
    cases hcursor : r.prefillCursor with
    | none =>
      rw [hcursor] at hop
      obtain ⟨ref, href, -⟩ := Option.map_eq_some_iff.mp hop
      exact ⟨rfl, by rw [href]; rfl, hmedia⟩
    | some tokens =>
      rw [hcursor] at hop
      cases tokens with
      | nil => exact nomatch hop
      | cons t ts =>
        cases hop
        exact nomatch hdec
  · rintro ⟨hcursor, hsampler, hmedia⟩
    obtain ⟨ref, href⟩ := Option.isSome_iff_exists.mp hsampler
    rw [if_neg hmedia, hcursor, href]
    exact ⟨.decode ref, rfl, rfl⟩

theorem mem_decodeSeqs {d : Data σ γ Sid} (hkeys : KeysMatch d.reqTable) {q : SeqId} :
    q ∈ decodeSeqs d ↔ ∃ r, d.reqTable.lookup q = some r ∧ r.Decodes := by
  unfold decodeSeqs
  constructor
  · intro h
    obtain ⟨⟨q, op⟩, hmem, rfl⟩ := List.mem_map.mp h
    obtain ⟨hops, hdec⟩ := List.mem_filter.mp hmem
    unfold allOps at hops
    have hrow : (q, op) ∈ (activeReqs d).filterMap fun r => (opOf r).map (r.seqId, ·) := by
      rcases List.mem_append.mp hops with h | h <;> exact (List.mem_filter.mp h).1
    obtain ⟨r, hr, hrow⟩ := List.mem_filterMap.mp hrow
    obtain ⟨op', hop, heq⟩ := Option.map_eq_some_iff.mp hrow
    cases heq
    obtain ⟨hreq, hactive⟩ := List.mem_filter.mp hr
    obtain ⟨hdrained, hsampler, hmedia⟩ := opOf_isDecode_iff.mp ⟨op, hop, hdec⟩
    refine ⟨r, lookup_of_mem_requests hkeys hreq, ?_, hdrained, hsampler, hmedia⟩
    simpa using hactive
  · rintro ⟨r, hr, hunfinished, hdrained, hsampler, hmedia⟩
    obtain ⟨op, hop, hdec⟩ := opOf_isDecode_iff.mpr ⟨hdrained, hsampler, hmedia⟩
    have hactive : r ∈ activeReqs d :=
      List.mem_filter.mpr ⟨mem_requests.mpr ⟨q, hr⟩, by rw [hunfinished]; rfl⟩
    have hrow : (q, op) ∈ (activeReqs d).filterMap fun r => (opOf r).map (r.seqId, ·) := by
      refine List.mem_filterMap.mpr ⟨r, hactive, ?_⟩
      rw [hop, hkeys q r hr]
      rfl
    refine List.mem_map.mpr ⟨(q, op), List.mem_filter.mpr ⟨?_, hdec⟩, rfl⟩
    exact List.mem_append_left _ (List.mem_filter.mpr ⟨hrow, hdec⟩)

/-- No seq has two decode rows. -/
theorem decodeSeqs_nodup {d : Data σ γ Sid} (hkeys : KeysMatch d.reqTable) :
    (decodeSeqs d).Nodup := by
  obtain ⟨l, hperm, hsub⟩ := map_fst_allOps d
  have hops : ((allOps d).map Prod.fst).Nodup :=
    hperm.nodup_iff.mp ((requests_seqId_nodup hkeys).sublist hsub)
  exact hops.sublist (List.filter_sublist.map Prod.fst)

/-! ### Between the state and its rows -/

/-- Honouring the cancellations takes the rows of the cancelled requests. -/
theorem honoured_decodes {p : Proc σ γ Sid} (hkeys : KeysMatch p.data.reqTable) {q : SeqId} :
    (∃ r, (honoured p).reqTable.lookup q = some r ∧ r.Decodes) ↔
      ∃ r, p.data.reqTable.lookup q = some r ∧ r.cancelPending = false ∧ r.Decodes := by
  have hlookup : (honoured p).reqTable.lookup q = (p.data.reqTable.lookup q).map fun r =>
      (if r.cancelPending then some { r with finishing := true } else none).getD r := by
    refine lookup_updateReqs_eq (d := takeTick p.data) (fun r r' h => ?_) hkeys q
    split at h
    · cases h
      rfl
    · cases h
  rw [hlookup]
  cases p.data.reqTable.lookup q with
  | none =>
    constructor
    · rintro ⟨_, h, -⟩
      cases h
    · rintro ⟨_, h, -⟩
      cases h
  | some r =>
    rw [Option.map_some]
    cases hcancel : r.cancelPending with
    | true =>
      constructor
      · rintro ⟨r', hr', hdec⟩
        cases hr'
        cases hdec.unfinished
      · rintro ⟨r', hr', hfalse, -⟩
        cases hr'
        rw [hcancel] at hfalse
        cases hfalse
    | false =>
      constructor
      · rintro ⟨r', hr', hdec⟩
        cases hr'
        exact ⟨r, rfl, hcancel, hdec⟩
      · rintro ⟨r', hr', -, hdec⟩
        cases hr'
        exact ⟨r, rfl, hdec⟩

/-- Two records with the same row. -/
structure SameRow (r r' : Req Sid) : Prop where
  finishing : r'.finishing = r.finishing
  prefillCursor : r'.prefillCursor = r.prefillCursor
  samplerRef : r'.samplerRef = r.samplerRef
  mediaState : r'.mediaState = r.mediaState

theorem SameRow.decodes_iff {r r' : Req Sid} (h : SameRow r r') : r'.Decodes ↔ r.Decodes := by
  constructor
  · rintro ⟨h1, h2, h3, h4⟩
    exact ⟨h.finishing ▸ h1, h.prefillCursor ▸ h2, h.samplerRef ▸ h3, h.mediaState ▸ h4⟩
  · rintro ⟨h1, h2, h3, h4⟩
    exact ⟨h.finishing.trans h1, h.prefillCursor.trans h2, h.samplerRef.symm ▸ h3,
      h.mediaState.symm ▸ h4⟩

/-- Replacing a record by one with the same row keeps who decodes. -/
theorem putReq_decodes {d : Data σ γ Sid} {r r' : Req Sid} (s : Sys σ γ Sid)
    (hr : d.reqTable.lookup r.seqId = some r) (hseq : r'.seqId = r.seqId) (hrow : SameRow r r')
    {q : SeqId} :
    (∃ x, (putReq (withSys d s) r').reqTable.lookup q = some x ∧ x.Decodes) ↔
      ∃ x, d.reqTable.lookup q = some x ∧ x.Decodes := by
  rw [lookup_putReq, hseq]
  by_cases hq : q = r.seqId
  · subst hq
    rw [if_pos rfl, hr]
    constructor
    · rintro ⟨x, hx, hdec⟩
      cases hx
      exact ⟨r, rfl, hrow.decodes_iff.mp hdec⟩
    · rintro ⟨x, hx, hdec⟩
      cases hx
      exact ⟨r', rfl, hrow.decodes_iff.mpr hdec⟩
  · rw [if_neg hq]
    exact Iff.rfl

/-- Asking for a draft keeps who decodes, and the keys. -/
theorem maybeSpecTick_decodes (env : Env σ γ) {d : Data σ γ Sid} (hkeys : KeysMatch d.reqTable) :
    KeysMatch (maybeSpecTick env d).2.reqTable ∧
      ∀ q, (∃ r, (maybeSpecTick env d).2.reqTable.lookup q = some r ∧ r.Decodes) ↔
        ∃ r, d.reqTable.lookup q = some r ∧ r.Decodes := by
  have hsame : KeysMatch d.reqTable ∧ ∀ q, (∃ r, d.reqTable.lookup q = some r ∧ r.Decodes) ↔
      ∃ r, d.reqTable.lookup q = some r ∧ r.Decodes := ⟨hkeys, fun _ => Iff.rfl⟩
  unfold maybeSpecTick
  split
  case h_2 => exact hsame
  case h_1 r hactive =>
    have hr : d.reqTable.lookup r.seqId = some r := by
      have hmem : r ∈ activeReqs d := by
        rw [hactive]
        exact List.mem_singleton_self r
      exact lookup_of_mem_requests hkeys (List.mem_filter.mp hmem).1
    -- each answer of the speculator puts the record back with its row unchanged
    have hput : ∀ (s : Sys σ γ Sid) (r' : Req Sid), r'.seqId = r.seqId → SameRow r r' →
        KeysMatch (putReq (withSys d s) r').reqTable ∧
          ∀ q, (∃ x, (putReq (withSys d s) r').reqTable.lookup q = some x ∧ x.Decodes) ↔
            ∃ x, d.reqTable.lookup q = some x ∧ x.Decodes := fun s r' hseq hrow =>
      ⟨KeysMatch.putReq (d := withSys d s) hkeys r',
        fun q => putReq_decodes s hr hseq hrow⟩
    split
    case isFalse => exact hsame
    case isTrue =>
      unfold specDraftFor
      split
      case h_2 => exact hsame
      case h_1 =>
        split
        · exact hsame
        · dsimp only
          split
          · split
            · exact hput _ _ rfl ⟨rfl, rfl, rfl, rfl⟩
            · exact hput _ _ rfl ⟨rfl, rfl, rfl, rfl⟩
          · exact hput _ _ rfl ⟨rfl, rfl, rfl, rfl⟩

/-- Honouring the cancellations keeps every record under its seq. -/
theorem honoured_keysMatch {p : Proc σ γ Sid} (hkeys : KeysMatch p.data.reqTable) :
    KeysMatch (honoured p).reqTable := by
  unfold honoured honourCancellations updateReqs
  generalize requests (takeTick p.data).reqTable = rs
  have hkeys' : KeysMatch (takeTick p.data).reqTable := hkeys
  generalize takeTick p.data = d at hkeys'
  induction rs generalizing d with
  | nil => exact hkeys'
  | cons r rs ih =>
    rw [List.foldl_cons]
    refine ih _ ?_
    split
    · exact hkeys'.putReq _
    · exact hkeys'

/-- The rows of a tick, read off the state before it. -/
theorem mem_decodeSeqs_tick (env : Env σ γ) {p : Proc σ γ Sid}
    (hkeys : KeysMatch p.data.reqTable) {q : SeqId} :
    q ∈ decodeSeqs (maybeSpecTick env (honoured p)).2 ↔
      ∃ r, p.data.reqTable.lookup q = some r ∧ r.cancelPending = false ∧ r.Decodes := by
  obtain ⟨hkeys', hsame⟩ := maybeSpecTick_decodes env (honoured_keysMatch hkeys)
  rw [mem_decodeSeqs hkeys', hsame, honoured_decodes hkeys]

/-! ### The error -/

section Runs

variable [LinearOrder Sid] {env : Env σ γ}

/-- A batch of at least one token for each seq is refused only when it is crowded. -/
theorem raises_iff {p : Proc σ γ Sid} (hwf : Wf env p.data)
    (hbatch : env.cfg.nSeqMax ≤ env.cfg.totalBatchBudget) (e : Event Sid) :
    Raises env p e ↔ Crowded env p e := by
  have hkeys := hwf.table.keysMatch
  have hmem : ∀ q, q ∈ decodeSeqs (maybeSpecTick env (honoured p)).2 ↔ _ :=
    fun q => mem_decodeSeqs_tick env hkeys
  have hnodup : (decodeSeqs (maybeSpecTick env (honoured p)).2).Nodup :=
    decodeSeqs_nodup (maybeSpecTick_decodes env (honoured_keysMatch hkeys)).1
  -- the rows are for seqs of the context
  have hrange : decodeSeqs (maybeSpecTick env (honoured p)).2 ⊆ List.range env.cfg.nSeqMax := by
    intro q hq
    obtain ⟨r, hr, -⟩ := (hmem q).mp hq
    refine hwf.sound.busy_mem q ?_
    rw [pool_busy_of_lookup hr]
    exact nofun
  have hsub := List.subperm_of_subset hnodup hrange
  have hlen := hsub.length_le
  rw [List.length_range] at hlen
  unfold Raises Crowded
  refine and_congr_right fun _ => applyBatchBudget_eq_none.trans ?_
  constructor
  · intro hfull
    refine ⟨by omega, fun q hq => (hmem q).mp ?_⟩
    have hperm := hsub.perm_of_length_le (by rw [List.length_range]; omega)
    exact hperm.symm.subset (List.mem_range.mpr hq)
  · rintro ⟨htight, hall⟩
    have hcover : List.range env.cfg.nSeqMax ⊆
        decodeSeqs (maybeSpecTick env (honoured p)).2 := fun q hq =>
      (hmem q).mpr (hall q (List.mem_range.mp hq))
    have hle := (List.subperm_of_subset List.nodup_range hcover).length_le
    rw [List.length_range] at hle
    omega

/-- The error stops the process. -/
theorem Raises.stops {p : Proc σ γ Sid} {e : Event Sid} (h : Raises env p e) :
    (step env p e).phase = .stopped := by
  obtain ⟨⟨rfl, hrunning, hticks, hmedia, hspec⟩, hbudget⟩ := h
  have hlive : p.phase ≠ .stopped := by
    rw [hrunning]
    exact nofun
  have hbody : tickBody env (takeTick p.data) =
      .crashed (maybeSpecTick env (honoured p)).2 := by
    unfold tickBody
    dsimp only
    rw [show maybeMediaTick (honourCancellations (takeTick p.data)) = none from hmedia]
    dsimp only
    rw [show (maybeSpecTick env (honourCancellations (takeTick p.data))).1 = none from hspec]
    dsimp only
    unfold stepTickOps
    rw [show applyBatchBudget env (allOps (maybeSpecTick env
      (honourCancellations (takeTick p.data))).2) = none from hbudget]
    rfl
  show (if p.phase = .stopped then p else handleTick env p).phase = .stopped
  rw [if_neg hlive]
  unfold handleTick
  rw [if_neg hticks, if_pos hrunning]
  unfold stepTick
  rw [hbody]

/-- **Room for the decoders.** With at least one token of the batch for each seq, a run is free
    of the error iff no tick of it is crowded; with more than one for each, every run is. -/
theorem run_raises_iff (hbatch : env.cfg.nSeqMax ≤ env.cfg.totalBatchBudget) (ctx : σ)
    (world : γ) (events : List (Event Sid)) :
    (AllSteps (step env) (fun p e => ¬ Raises env p e) (init env ctx world) events ↔
      AllSteps (step env) (fun p e => ¬ Crowded env p e) (init env ctx world) events) ∧
    (env.cfg.nSeqMax < env.cfg.totalBatchBudget →
      AllSteps (step env) (fun p e => ¬ Raises env p e) (init env ctx world) events) := by
  have hiff : AllSteps (step env) (fun p e => ¬ Raises env p e) (init env ctx world) events ↔
      AllSteps (step env) (fun p e => ¬ Crowded env p e) (init env ctx world) events :=
    allSteps_iff (I := fun p : Proc σ γ Sid => Wf env p.data) (fun p e hp _ => step_wf hp e)
      (fun p e hp => not_congr (raises_iff hp hbatch e)) (wf_init ctx world)
  refine ⟨hiff, fun hroom => hiff.mpr (.of_forall (fun p e hcrowded => ?_) _ _)⟩
  have := hcrowded.2.1
  omega

end Runs

/-- A model whose batch is as large as its number of seqs. -/
def tightEnv : Env MapCtx Unit :=
  { mapEnv plainParams .empty 1 with
    cfg := { (mapEnv plainParams .empty 1).cfg with totalBatchBudget := 1 } }

/-- A request for one token after a prompt of one. -/
def oneToken : List (Event Nat) :=
  [.request (.complete 0 [66] ⟨⟨some 1, [], false, none, ⟨0, []⟩⟩, none, none, none, none, .block⟩)]

/-- It is prefilled, and the tick that would decode it raises. -/
theorem oneToken_raises :
    tightEnv.cfg.nSeqMax = 1 ∧ tightEnv.cfg.totalBatchBudget = 1 ∧
      Raises tightEnv (run (step tightEnv) (init tightEnv .empty ()) (oneToken ++ [.tick]))
        .tick := by
  refine ⟨rfl, rfl, ⟨rfl, ?_, ?_, ?_, ?_⟩, ?_⟩
  · decide +kernel
  · decide +kernel
  · exact Option.isNone_iff_eq_none.mp (by decide +kernel)
  · exact Option.isNone_iff_eq_none.mp (by decide +kernel)
  · exact Option.isNone_iff_eq_none.mp (by decide +kernel)

/-- With room for sixteen tokens the same request is decoded. -/
theorem oneToken_decodes :
    (AllSteps (step (mapEnv plainParams .empty 1))
        (fun p e => ¬ Raises (mapEnv plainParams .empty 1) p e)
        (init (mapEnv plainParams .empty 1) .empty ()) (oneToken ++ [.tick, .tick]) ↔
      AllSteps (step (mapEnv plainParams .empty 1))
        (fun p e => ¬ Crowded (mapEnv plainParams .empty 1) p e)
        (init (mapEnv plainParams .empty 1) .empty ()) (oneToken ++ [.tick, .tick])) ∧
    ((mapEnv plainParams .empty 1).cfg.nSeqMax <
        (mapEnv plainParams .empty 1).cfg.totalBatchBudget →
      AllSteps (step (mapEnv plainParams .empty 1))
        (fun p e => ¬ Raises (mapEnv plainParams .empty 1) p e)
        (init (mapEnv plainParams .empty 1) .empty ()) (oneToken ++ [.tick, .tick])) :=
  @run_raises_iff _ _ Nat _ (mapEnv plainParams .empty 1) (by decide) .empty () _

end Erllama.Model
