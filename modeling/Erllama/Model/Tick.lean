import Erllama.Model.Results
import Erllama.Model.Sessions

namespace Erllama.Model

/-!
# The tick (`erllama_model`, `step_tick/1`)

A tick runs one of three things over the in-flight requests: a media prefill, a speculative
step, or a co-batched step of everyone's next prefill slice or decode row.  What follows the step
is in `Erllama.Model.Finish`.

* `tickBody` — the tick up to its step, with every way it can end.
-/

variable {σ γ Sid : Type}

/-! ### Walking the request table -/

/-- Fold `put_req/2` over the requests that `f` changes. -/
def updateReqs (f : Req Sid → Option (Req Sid)) (d : Data σ γ Sid) : Data σ γ Sid :=
  (requests d.reqTable).foldl
    (fun acc r => match f r with | some r' => putReq acc r' | none => acc) d

/-- `honour_cancellations/1`. -/
def honourCancellations (d : Data σ γ Sid) : Data σ γ Sid :=
  updateReqs (fun r => if r.cancelPending then some { r with finishing := true } else none) d

/-- `mark_terminal/1`: `prefill_only` finishes as soon as its prefill is done. -/
def markTerminal (d : Data σ γ Sid) : Data σ γ Sid :=
  updateReqs (fun r =>
    if r.finishing = false ∧ r.prefillCursor = none ∧ r.mode = .prefillOnly then
      some { r with finishing := true }
    else none) d

/-- The requests that are not finishing. -/
def activeReqs (d : Data σ γ Sid) : List (Req Sid) :=
  (requests d.reqTable).filter fun r => !r.finishing

/-! ### The op list -/

/-- The row of one request in `build_op_list/1`: none while its media prefill is pending, and
    none for an empty cursor. -/
def opOf (r : Req Sid) : Option Op :=
  if r.mediaState = some .pending then none
  else
    match r.prefillCursor with
    -- nothing left to prefill: a decode row, if there is a sampler
    | none       => r.samplerRef.map .decode
    -- a drained cursor has no row
    | some []    => none
    | some slice => some (.prefill slice)

/-- The rows of the active requests, decodes first. -/
def allOps (d : Data σ γ Sid) : List (SeqId × Op) :=
  let ops := (activeReqs d).filterMap fun r => (opOf r).map (r.seqId, ·)
  ops.filter (fun p => p.2.isDecode) ++ ops.filter fun p => !p.2.isDecode

/-- `prefill_slice_cap/3`. -/
def prefillSliceCap (len remaining : Nat) (chunkSize : Option Nat) : Nat :=
  match chunkSize with
  | none   => min len remaining
  | some c => min len (min remaining c)

/-- `slice_prefills/3`: decode rows stay whole, prefill rows are cut to the budget and the
    chunk size, and dropped once the budget is spent. -/
def slicePrefills (chunkSize : Option Nat) : List (SeqId × Op) → Nat → List (SeqId × Op)
  | [], _ => []
  | (q, .decode ref) :: ops, remaining => (q, .decode ref) :: slicePrefills chunkSize ops remaining
  | (q, .prefill tokens) :: ops, remaining =>
    -- no budget is left: the row waits for the next tick
    if remaining = 0 then slicePrefills chunkSize ops 0
    else
      let cap := prefillSliceCap tokens.length remaining chunkSize
      (q, .prefill (tokens.take cap)) :: slicePrefills chunkSize ops (remaining - cap)

section Tick

variable (env : Env σ γ)

/-- `apply_batch_budget/2`: `none` is the error of a batch smaller than its decode rows. -/
def applyBatchBudget (ops : List (SeqId × Op)) : Option (List (SeqId × Op)) :=
  let decodes := ops.countP fun p => p.2.isDecode
  -- `DecCount >= Budget`, also when nothing is to be prefilled
  if env.cfg.totalBatchBudget ≤ decodes then none
  else
    some (slicePrefills env.cfg.policy.prefillChunkSize ops (env.cfg.totalBatchBudget - decodes))

/-- The result of a seq: `maps:from_list/1` keeps the last of its kind. -/
def resultFor (results : List (SeqId × StepResult)) (q : SeqId) : Option StepResult :=
  (results.reverse.find? fun p => p.1 = q).map Prod.snd

/-- `pair_ops_with_results/2`: `none` when an op has no result. -/
def pairOpsWithResults (ops : List (SeqId × Op)) (results : List (SeqId × StepResult)) :
    Option (List ResultPair) :=
  -- `maps:get/2` without a default
  ops.mapM fun op => (resultFor results op.1).map (op, ·)

/-- How the body of a tick ends: on to `tick_after_step/3`, with a decode error that the
    engine recovers from, with one that it does not, or in a crash. -/
inductive TickEnd (σ γ Sid : Type) where
  | stepped (d : Data σ γ Sid)
  | recover (d : Data σ γ Sid) (e : Reason)
  | failed (d : Data σ γ Sid) (e : Reason)
  | crashed (d : Data σ γ Sid)

/-- A decode error, sorted by `is_recoverable_decode_error/1`. -/
def decodeError (d : Data σ γ Sid) (e : Reason) : TickEnd σ γ Sid :=
  if e.isRecoverable then .recover d e else .failed d e

/-- The rest of a step once the backend answered. -/
def finishStep (ops : List (SeqId × Op)) (results : List (SeqId × StepResult))
    (d : Data σ γ Sid) : TickEnd σ γ Sid :=
  match pairOpsWithResults ops results with
  | none => .crashed d
  | some pairs =>
    let applied := applyStepResults env pairs d
    if applied.1 then .stepped applied.2 else .crashed applied.2

/-- `step_tick_ops/1`. -/
def stepTickOps (d : Data σ γ Sid) : TickEnd σ γ Sid :=
  match applyBatchBudget env (allOps d) with
  -- the error `n_batch_too_small_for_n_seq_max`
  | none => .crashed d
  -- nothing to do: the tick ends without a call
  | some [] => .stepped d
  | some ops =>
    let res := env.be.step d.sys.ctx ops
    let d := withSys d { d.sys with ctx := res.2 }
    match res.1 with
    | .ok results => finishStep env ops results d
    | .error e    => decodeError d e

/-! ### Media -/

/-- `maybe_media_tick/1`: a media request runs when it is the sole active one. -/
def maybeMediaTick (d : Data σ γ Sid) : Option (Req Sid) :=
  match activeReqs d with
  -- a media prefill is never batched with others
  | [r] => if r.mediaState = some .pending then some r else none
  | _   => none

/-- Return a seq to the pool. -/
def pushIdle (d : Data σ γ Sid) (q : SeqId) : Data σ γ Sid :=
  { d with idleSeqIds := q :: d.idleSeqIds }

/-- `fail_media_req/3`, up to the tick's end: fail this request alone and free its seq. -/
def failMediaReq (d : Data σ γ Sid) (r : Req Sid) (e : Err) : Data σ γ Sid :=
  pushIdle (removeReq (withSys d (failRequest env d.sys r e)) r.seqId) r.seqId

/-- `run_media_tick/2`: the whole prompt is evaluated in one call. -/
def runMediaTick (d : Data σ γ Sid) (r : Req Sid) : TickEnd σ γ Sid :=
  match env.be.media with
  | none => .crashed d
  | some cb =>
    let res := cb.prefill d.sys.ctx r.mediaPrompt (r.media.getD []) r.seqId r.mediaAddSpecial
    let d := withSys d { d.sys with ctx := res.2 }
    match res.1 with
    | .ok (nTokens, nPos) =>
      .stepped (putReq d
        { r with mediaState := some .done, mediaNTokens := nTokens, mediaNPos := nPos })
    -- the other requests go on
    | .error e => .stepped (failMediaReq env d r (.mediaFailed e))

/-! ### Speculation -/

/-- The committed tokens the speculator has not seen, and the last one. -/
def specDelta (r : Req Sid) : List Token :=
  let k := r.specPromptLen + r.generated.length
  (r.generated.drop (r.specCursor - r.specPromptLen)).take (k - 1 - r.specCursor)

/-- The bound on a draft: the batch budget, what is left to generate after the bonus token,
    and the configured maximum. -/
def maxDraft (r : Req Sid) (cfg : SpecCfg) : Nat :=
  min env.cfg.totalBatchBudget
    (min (r.responseTarget - r.generated.length - 1) cfg.nMax)

/-- `spec_draft_for/2`: a draft, or none and the normal path; a drafting error disables
    speculation for the request. -/
def specDraftFor (d : Data σ γ Sid) (r : Req Sid) : Option (Req Sid × List Token) × Data σ γ Sid :=
  match env.be.spec, r.spec, d.spec with
  | some cb, some cfg, some (_, ref) =>
    -- the response target or the context leaves no room
    if maxDraft env r cfg = 0 then (none, d)
    else
      let k := r.specPromptLen + r.generated.length
      let res := cb.draft d.sys.ctx ref r.seqId (r.generated.getLastD 0) (specDelta r)
      let d := withSys d { d.sys with ctx := res.2 }
      match res.1 with
      | .ok draft =>
        -- the last token is told with the next draft
        let r := { r with specCursor := k - 1 }
        if draft = [] then (none, putReq d r)
        else (some (r, draft.take (maxDraft env r cfg)), putReq d r)
      -- a failed draft ends the speculation of this request
      | .error _ => (none, putReq d { r with spec := none })
  | _, _, _ => (none, d)

/-- `maybe_spec_tick/1`: the sole active request speculates when it is decoding and has
    generated a token. -/
def maybeSpecTick (d : Data σ γ Sid) : Option (Req Sid × List Token) × Data σ γ Sid :=
  match activeReqs d with
  | [r] =>
    if r.spec.isSome ∧ r.prefillCursor = none ∧ r.samplerRef.isSome ∧ r.generated ≠ [] then
      specDraftFor env d r
    else (none, d)
  | _ => (none, d)

/-- `apply_spec_committed/4`: one token at a time through the token clause, until the request
    is finishing; the number of tokens left is how far the KV overshot. -/
def applySpecCommitted (q : SeqId) (eog : Bool) :
    List Token → Data σ γ Sid → Option Nat × Data σ γ Sid
  | [], d => (some 0, d)
  | tok :: rest, d =>
    match d.reqTable.lookup q with
    | none => (none, d)
    | some r =>
      -- the rest of the committed tokens is ahead of the request
      if r.finishing then (some (rest.length + 1), d)
      else
        -- only the last one can end the generation
        let res := tokenResult env d r tok (if rest = [] then eog else false)
        applySpecCommitted q eog rest (putReq (withSys d res.2) res.1)

/-- `spec_trim_overshoot/2`: roll the KV back to the context.  The result is not looked at:
    recurrent memories are gated off speculation. -/
def specTrimOvershoot (d : Data σ γ Sid) (q : SeqId) : Data σ γ Sid :=
  match d.reqTable.lookup q with
  | none   => d
  | some r => withSys d (backendSeqRmFrom env d.sys q r.contextTokens.length).2

/-- Report to the speculator how much of its draft was accepted. -/
def specAccept (d : Data σ γ Sid) (q : SeqId) (nAcc : Nat) : Sys σ γ Sid :=
  match env.be.spec, d.spec with
  | some cb, some (_, ref) => { d.sys with ctx := cb.accept d.sys.ctx ref q nAcc }
  | _, _                   => d.sys

/-- `spec_record_feedback/4`. -/
def specRecordFeedback (d : Data σ γ Sid) (q : SeqId) (nDrafted nAcc : Nat) : Data σ γ Sid :=
  let d := withSys d (specAccept env d q nAcc)
  match d.reqTable.lookup q with
  | none => d
  | some r =>
    putReq d { r with
      specDrafted := r.specDrafted + nDrafted
      specAccepted := r.specAccepted + nAcc }

/-- The commit of a speculative step, with its trim and feedback. -/
def commitSpec (d : Data σ γ Sid) (q : SeqId) (draft : List Token) (res : SpecResult) :
    TickEnd σ γ Sid :=
  let applied := applySpecCommitted env q res.eog res.committed d
  match applied.1 with
  | none => .crashed applied.2
  | some leftover =>
    let d := if leftover = 0 then applied.2 else specTrimOvershoot env applied.2 q
    .stepped (specRecordFeedback env d q draft.length res.nAcc)

/-- `run_spec_tick/3`. -/
def runSpecTick (d : Data σ γ Sid) (r : Req Sid) (draft : List Token) : TickEnd σ γ Sid :=
  match env.be.spec, r.samplerRef with
  | some cb, some sampler =>
    let res := cb.step d.sys.ctx sampler r.seqId draft
    let d := withSys d { d.sys with ctx := res.2 }
    match res.1 with
    | .ok committed => commitSpec env d r.seqId draft committed
    | .error e      => decodeError d e
  | _, _ => .crashed d

/-- `step_tick/1` up to what follows the step. -/
def tickBody (d : Data σ γ Sid) : TickEnd σ γ Sid :=
  let d := honourCancellations d
  match maybeMediaTick d with
  | some r => runMediaTick env d r
  | none =>
    let spec := maybeSpecTick env d
    match spec.1 with
    | some (r, draft) => runSpecTick env spec.2 r draft
    | none            => stepTickOps env spec.2

end Tick

end Erllama.Model
