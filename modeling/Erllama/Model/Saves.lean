import Erllama.Model.State

namespace Erllama.Model

/-!
# Saves (`erllama_model`, "cache integration")

Every save of a model process ends in `fireSaveIf`: it describes the row, packs the seq's KV
and hands both to the writer.  What fires it:

* `fireSaveForTokens` — cold and continued saves;
* `fireAgentPrefixSave` — the static-prefix checkpoint, which is also pinned;
* `fireFinishSaveForReq` — when a request finishes;
* `fireSaveForReason` — the operator's `evict` and `shutdown`, over every in-flight request.
-/

variable {σ γ Sid : Type} (env : Env σ γ) (d : Data σ γ Sid)

/-! ### Keys -/

/-- `request_fp/2`: the fingerprint captured at admission, else the current one. -/
def requestFp (r : Req Sid) : Digest := r.requestFp.getD d.effectiveFp

/-- `make_key_bytes/3`. -/
def makeKeyBytes (bytes : Bytes) (r : Req Sid) : CacheKey :=
  makeText env.sha256 (requestFp d r) env.cfg.quantType env.cfg.ctxParamsHash bytes

/-- `make_key/3`: the key of the rendered bytes of the tokens. -/
def makeKey (tokens : List Token) (r : Req Sid) : CacheKey :=
  makeKeyBytes env d (env.be.detokenize tokens) r

/-- `erllama_cache_key:namespace/3` of a request. -/
def requestNamespace (r : Req Sid) : Digest :=
  namespaceKey env.sha256 (requestFp d r) env.cfg.quantType env.cfg.ctxParamsHash

/-- `build_meta_for/4`. -/
def buildMetaFor (reason : SaveReason) (tokens : List Token) (r : Req Sid) : BuildMeta where
  saveReason := reason
  quantBits := env.cfg.quantBits
  fingerprint := requestFp d r
  fingerprintMode := env.cfg.fingerprintMode
  quantType := env.cfg.quantType
  ctxParamsHash := env.cfg.ctxParamsHash
  tokens := tokens
  contextSize := env.cfg.contextSize
  promptText := env.be.detokenize tokens

/-! ### Firing -/

/-- A save result counts as fired when the row is in the cache. -/
def SaveResult.isFired : SaveResult → Bool
  | .saved          => true
  | .alreadyPresent => true
  | .failed         => false

/-- `erllama_cache_writer:save/5` of the seq's packed KV. -/
def issueSave (reason : SaveReason) (tokens : List Token) (r : Req Sid) : Bool × Sys σ γ Sid :=
  let payload := env.be.kvPack d.sys.ctx tokens r.seqId
  let bm := buildMetaFor env d reason tokens r
  let res := env.cache.save d.sys.world env.cfg.tier bm payload
  (res.1.isFired,
    { d.sys with world := res.2, log := d.sys.log ++ [.save ⟨r, bm, payload, d.sys.ctx⟩] })

/-- `fire_save_if/5`: nothing to save in the RAM tier, which has no persistent writer. -/
def fireSaveIf (should : Bool) (reason : SaveReason) (tokens : List Token) (r : Req Sid) :
    Bool × Sys σ γ Sid :=
  if should = false ∨ env.cfg.tier = .ram then (false, d.sys)
  else issueSave env d reason tokens r

/-- `bump_cache_delta/2`: the largest contribution above the warm prefix. -/
def bumpCacheDelta (r : Req Sid) (tokens : List Token) : Req Sid :=
  { r with cacheDeltaCreated := max r.cacheDeltaCreated (tokens.length - r.cacheHitPrefixLen) }

/-- Bump the request's delta if the save fired. -/
def creditSave (fired : Bool) (r : Req Sid) (tokens : List Token) : Req Sid :=
  if fired then bumpCacheDelta r tokens else r

/-- `fire_save_for_tokens/4`: a cold save has the `min_tokens` floor, others always fire. -/
def fireSaveForTokens (reason : SaveReason) (tokens : List Token) (r : Req Sid) :
    Req Sid × Sys σ γ Sid :=
  let should := if reason = .cold then decide (env.cfg.policy.minTokens ≤ tokens.length) else true
  let res := fireSaveIf env d should reason tokens r
  (creditSave res.1 r tokens, res.2)

/-- `fire_agent_prefix_save/3`: save and pin the static prefix. -/
def fireAgentPrefixSave (tokens : List Token) (r : Req Sid) : Req Sid × Sys σ γ Sid :=
  let should := decide (env.cfg.policy.minTokens ≤ tokens.length)
  let res := fireSaveIf env d should .agentPrefix tokens r
  if res.1 then
    let world := env.cache.pinRow res.2.world (requestNamespace env d r) (makeKey env d tokens r)
    (bumpCacheDelta r tokens, { res.2 with world := world })
  else (r, res.2)

/-- `fire_finish_save_for_req/3`: media requests bypass the cache. -/
def fireFinishSaveForReq (liveTokens : List Token) (r : Req Sid) :
    Option CacheKey × Sys σ γ Sid :=
  if r.media.isSome then (none, d.sys)
  else
    let should := shouldFinishSave env.cfg.policy liveTokens.length
    let res := fireSaveIf env d should .finish liveTokens r
    (if res.1 then some (makeKey env d liveTokens r) else none, res.2)

/-- `maybe_fire_continued_for_req/2`: media requests bypass the cache. -/
def maybeFireContinuedForReq (r : Req Sid) : Req Sid × Sys σ γ Sid :=
  if r.media.isSome then (r, d.sys)
  else
    let liveCount := r.contextTokens.length
    if shouldContinuedSave env.cfg.policy liveCount r.lastSaveAt then
      let res := fireSaveForTokens env d .continued r.contextTokens r
      ({ res.1 with lastSaveAt := liveCount }, res.2)
    else (r, d.sys)

/-- `maybe_fire_cold_save/2`: the head entry's reason is for the boundary that just drained;
    its segment rotates into the prefill cursor. -/
def maybeFireColdSave (r : Req Sid) : Req Sid × Sys σ γ Sid :=
  match r.coldSaveSegments with
  | none => (r, d.sys)
  -- the last segment: the ladder is done
  | some [] => ({ r with coldSaveSegments := none, prefillCursor := none }, d.sys)
  | some ((reason, next) :: rest) =>
    let tokens := r.contextTokens
    let res :=
      -- the caller's static prefix is saved and pinned
      if reason = .agentPrefix then fireAgentPrefixSave env d tokens r
      else fireSaveForTokens env d reason tokens r
    ({ res.1 with
        coldSaveSegments := some rest
        lastSaveAt := tokens.length
        prefillCursor := if next = [] then none else some next }, res.2)

/-- One request of `fire_save_for_reason/2`: nothing is saved for an empty context. -/
def fireSaveForReq (reason : SaveReason) (r : Req Sid) : Data σ γ Sid :=
  if r.contextTokens = [] then d
  else
    let res := fireSaveIf env d true reason r.contextTokens r
    putReq (withSys d res.2)
      { creditSave res.1 r r.contextTokens with lastSaveAt := r.contextTokens.length }

/-- `fire_save_for_reason/2`: evict and shutdown saves walk every in-flight request. -/
def fireSaveForReason (reason : SaveReason) : Data σ γ Sid :=
  (requests d.reqTable).foldl (fun acc r => fireSaveForReq env acc reason r) d

end Erllama.Model
