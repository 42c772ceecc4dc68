import Erllama.Model.Tick

namespace Erllama.Model

/-!
# The end of a tick (`erllama_model`, `tick_after_step/3`)

* `finishReq` — the finish save, the reply, and what becomes of the seq.
* `dispatchPendingAdmits` — start what waits for a seq.
* `tickAfterStep` — finish, dispatch, then re-arm or go idle.
* `recoverInPlace` — fail everyone and start over on a fresh context.
-/

variable {σ γ Sid : Type}

/-! ### Results of a finished request -/

/-- The finish reason `finish_marked_reqs/2` gives. -/
def finishReasonOf (r : Req Sid) : FinishReason :=
  if r.cancelPending then .cancelled
  else if r.matchedStop.isSome then .stop
  else if r.responseTarget ≤ r.generated.length then .length
  else .stop

/-- `maybe_add_speculative/2`. -/
def speculativeOf (r : Req Sid) : Option (Nat × Nat) :=
  r.spec.map fun _ => (r.specDrafted, r.specAccepted)

/-- `maybe_add_media/2`. -/
def mediaOf (r : Req Sid) : Option (Nat × Nat × Nat) :=
  r.media.map fun items => (items.length, r.mediaNTokens, r.mediaNPos)

/-- `cache_delta_for/1`: tokens read from the warm prefix, tokens added beyond it. -/
def cacheDeltaFor (r : Req Sid) : Nat × Nat := (r.cacheHitPrefixLen, r.cacheDeltaCreated)

/-- `build_stats_for_req/4`, without the timings. -/
def buildStatsForReq (reason : FinishReason) (finishKey : Option CacheKey) (r : Req Sid) :
    Stats where
  promptTokens := r.promptTokens.length
  completionTokens := r.generated.length
  generated := r.generated
  cacheHitKind := r.cacheHitKind
  finishReason := reason
  cancelled := r.cancelPending
  finishKey := finishKey
  committedTokens := r.contextTokens.length
  cacheDelta := cacheDeltaFor r
  speculative := speculativeOf r
  media := mediaOf r
  stopSequence := r.matchedStop

/-- `trim_at_match/2`: cut the reply at the matched stop string. -/
def trimAtMatch (reply : Bytes) (matched : Option Bytes) : Bytes :=
  match matched.bind fun stop => binaryMatch [stop] reply with
  | some (pos, _) => reply.take pos
  | none          => reply

section Finish

variable (env : Env σ γ)

/-- The result of a `complete` call. -/
def completionResult (reason : FinishReason) (finishKey : Option CacheKey) (stats : Stats)
    (r : Req Sid) : CompletionResult where
  -- the text is rendered once, at the end
  reply := trimAtMatch (env.be.detokenize r.generated) r.matchedStop
  generated := r.generated
  contextTokens := r.contextTokens
  committedTokens := r.contextTokens.length
  finishKey := finishKey
  cacheHitKind := r.cacheHitKind
  finishReason := reason
  cacheDelta := cacheDeltaFor r
  stats := stats
  stopSequence := r.matchedStop
  speculative := speculativeOf r
  media := mediaOf r
  logprobs := r.logprobsAcc.reverse

/-- The result of a `prefill_only` call. -/
def prefillResult (finishKey : Option CacheKey) (r : Req Sid) : PrefillResult where
  contextTokens := r.contextTokens
  committedTokens := r.contextTokens.length
  finishKey := finishKey
  cacheHitKind := r.cacheHitKind
  cacheDelta := cacheDeltaFor r

/-- Reply to a synchronous caller. -/
def replyTo (s : Sys σ γ Sid) (r : Req Sid) (reply : Reply) : Sys σ γ Sid :=
  match r.caller with
  | some frm => s.emit (.reply frm reply)
  | none     => s

/-- `flush_pending_text/1` and `send_done_for_req/2`. -/
def sendDoneForReq (s : Sys σ γ Sid) (r : Req Sid) (stats : Stats) : Sys σ γ Sid :=
  match r.stream with
  | some (pid, ref) =>
    let s := if r.pendingText = [] then s else s.emit (.send pid ref (.token r.pendingText))
    (s.emit (.unregister ref)).emit (.send pid ref (.done stats))
  | none => s

/-- `finish_action/5`.  An error that was already surfaced is not followed by a `done`. -/
def finishAction (s : Sys σ γ Sid) (r : Req Sid) (reason : FinishReason)
    (finishKey : Option CacheKey) (stats : Stats) : Sys σ γ Sid :=
  match r.mode with
  | .standard => replyTo s r (.completion (completionResult env reason finishKey stats r))
  | .streaming => if r.thinkingNotEnabled then s else sendDoneForReq s r stats
  | .prefillOnly => replyTo s r (.prefilled (prefillResult finishKey r))

variable [LinearOrder Sid]

/-- `release_or_pin_seq/2`: without a session the seq is cleared and goes back to the pool; with
    one it stays live and the session's entry is overwritten with it. -/
def releaseOrPinSeq (d : Data σ γ Sid) (r : Req Sid) : Data σ γ Sid :=
  match r.sessionId with
  | none     => pushIdle (withSys d (releaseSeq env d.sys r.seqId)) r.seqId
  | some sid => pin env d sid r.seqId r.contextTokens

/-- The finish save of `finish_req/4`: its key is protected as the next resume target. -/
def finishSave (d : Data σ γ Sid) (r : Req Sid) :
    Option CacheKey × Req Sid × Sys σ γ Sid :=
  let saved := fireFinishSaveForReq env d r.contextTokens r
  match saved.1 with
  | none => (none, r, saved.2)
  | some key =>
    (some key, bumpCacheDelta r r.contextTokens,
      { saved.2 with world := env.cache.setLiveKey saved.2.world key })

/-- The reply or the last events of a request after its finish save, and the end of its
    sampler. -/
def announceFinish (d : Data σ γ Sid) (r : Req Sid) : Sys σ γ Sid :=
  let saved := finishSave env d r
  let stats := buildStatsForReq (finishReasonOf r) saved.1 saved.2.1
  let s := finishAction env saved.2.2 saved.2.1 (finishReasonOf r) saved.1 stats
  releaseSampler env s saved.2.1

/-- `finish_req/4`. -/
def finishReq (d : Data σ γ Sid) (r : Req Sid) : Data σ γ Sid :=
  releaseOrPinSeq env (removeReq (withSys d (announceFinish env d r)) r.seqId)
    (finishSave env d r).2.1

/-- The requests `finish_marked_reqs/2` walks. -/
def finishers (d : Data σ γ Sid) : List (Req Sid) :=
  (requests d.reqTable).filter fun r => r.finishing

/-- `finish_marked_reqs/2`. -/
def finishMarkedReqs (d : Data σ γ Sid) : Data σ γ Sid :=
  (finishers d).foldl (finishReq env) d

/-! ### Queued requests -/

/-- One queued request, started on a free or reclaimed seq as a fresh admission.  A rejected
    one gives its seq back and its caller the error. -/
def startQueued (d : Data σ γ Sid) (item : Item Sid) (q : SeqId) : Data σ γ Sid :=
  let started := startRequest env d item q .normal
  match started.1 with
  | none   => started.2
  | some e => emit (pushIdle started.2 q) (.reply item.frm (.error e))

/-- `dispatch_pending_admits/2`, along the queue. -/
def dispatchAdmits : List (Item Sid) → Data σ γ Sid → Data σ γ Sid
  | [], d => d
  | item :: rest, d =>
    match allocSeq env d none with
    | none => d
    | some (q, d) => dispatchAdmits rest (startQueued env { d with pending := rest } item q)

/-- `dispatch_pending_admits/2`: nothing is reclaimed when nothing waits. -/
def dispatchPendingAdmits (d : Data σ γ Sid) : Data σ γ Sid := dispatchAdmits env d.pending d

/-! ### After the step -/

/-- `tick_after_step/3`. -/
def tickAfterStep (d : Data σ γ Sid) : Proc σ γ Sid :=
  let d := dispatchPendingAdmits env (finishMarkedReqs env (markTerminal d))
  if d.reqTable.entries = [] then ⟨.idle, d⟩ else ⟨.running, scheduleTick d⟩

/-- The process goes on with what the queue left, and casts a tick if requests are in flight. -/
theorem tickAfterStep_cases (d : Data σ γ Sid) :
    (tickAfterStep env d =
        ⟨.idle, dispatchPendingAdmits env (finishMarkedReqs env (markTerminal d))⟩ ∧
      (dispatchPendingAdmits env (finishMarkedReqs env (markTerminal d))).reqTable.entries = []) ∨
    tickAfterStep env d =
      ⟨.running,
        scheduleTick (dispatchPendingAdmits env (finishMarkedReqs env (markTerminal d)))⟩ := by
  unfold tickAfterStep
  dsimp only
  split
  case isTrue hempty => exact .inl ⟨rfl, hempty⟩
  case isFalse => exact .inr rfl

theorem tickAfterStep_phase (d : Data σ γ Sid) : (tickAfterStep env d).phase ≠ .stopped := by
  rcases tickAfterStep_cases env d with ⟨heq, -⟩ | heq
  · rw [heq]
    exact nofun
  · rw [heq]
    exact nofun

/-- `fail_all_requests/2`. -/
def failAllRequests (d : Data σ γ Sid) (e : Err) : Data σ γ Sid :=
  withSys d ((requests d.reqTable).foldl (fun s r => failRequest env s r e) d.sys)

/-- `fail_pending_admits/2`. -/
def failPendingAdmits (d : Data σ γ Sid) (e : Err) : Data σ γ Sid :=
  d.pending.foldl (fun acc item => emit acc (.reply item.frm (.error e))) d

/-- `reset_after_recovery/2`: every seq is idle again, every session forgotten. -/
def resetAfterRecovery (d : Data σ γ Sid) : Data σ γ Sid :=
  { d with
    reqTable := ∅
    sessionSeq := ∅
    idleSeqIds := List.range env.cfg.nSeqMax
    pending := [] }

/-- `recover_in_place/2`: fall back to a stop when the backend cannot open a fresh context.  The
    requests get the error tuple of the step as their reason. -/
def recoverInPlace (d : Data σ γ Sid) (e : Reason) : Proc σ γ Sid :=
  -- everyone is told before the context is replaced
  let d := failPendingAdmits (failAllRequests env d (.nested (.backend e))) (.backend e)
  match env.be.resetContext with
  | none => ⟨.stopped, d⟩
  | some resetContext =>
    let res := resetContext d.sys.ctx
    let d := withSys d { d.sys with ctx := res.2 }
    match res.1 with
    | .ok _    => ⟨.idle, resetAfterRecovery env d⟩
    -- without a context the process stops
    | .error _ => ⟨.stopped, d⟩

/-- `step_tick/1`.  An error that cannot be recovered from fails every request and stops the
    process, and so does a crash, without the failing. -/
def stepTick (d : Data σ γ Sid) : Proc σ γ Sid :=
  match tickBody env d with
  | .stepped d   => tickAfterStep env d
  | .recover d e => recoverInPlace env d e
  | .failed d e  => ⟨.stopped, failAllRequests env d (.nested (.backend e))⟩
  | .crashed d   => ⟨.stopped, d⟩

end Finish

end Erllama.Model
