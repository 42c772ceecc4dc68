import Erllama.Model.Lookup

namespace Erllama.Model

/-!
# Admission of a request onto a seq (`erllama_model`)

`start_request/4` builds a `#req{}`, decides how the seq's KV becomes a prefix of the prompt,
and installs the request.  A rejected request leaves the process state as it was.

* `setupCold`, `setupWarm`, `setupLookup`, `setupAdmissionPath` — the admission modes.
* `setupSpec` — the speculator of a speculative request.
* `prepareRequest`, `prepareContinue` — the record of a request, its sampler and reference.
* `startRequest`, `startContinue` — the two together.
-/

variable {σ γ Sid : Type}

/-! ### The checkpoint ladder of a cold prompt -/

/-- `cumulative_lengths/1`, from a start offset. -/
def cumulativeLengths : Nat → List (List Token) → List Nat
  | _,   []          => []
  | pos, seg :: segs => (pos + seg.length) :: cumulativeLengths (pos + seg.length) segs

/-- `seg_boundary_offsets/1`: the segment ends but the last. -/
def segBoundaryOffsets (segs : List (List Token)) : List Nat :=
  (cumulativeLengths 0 segs).dropLast

/-- `lists:usort([N | Offsets])`. -/
def usortInsert (n : Nat) (offsets : List Nat) : List Nat :=
  ((n :: offsets).insertionSort (· ≤ ·)).dedup

/-- `ladder_reason/2`. -/
def ladderReason (offset : Nat) (n : Option Nat) : SaveReason :=
  if n = some offset then .agentPrefix else .cold

/-- `build_cold_ladder/3`: the first segment and the tagged rest, with a boundary injected at
    the caller's static prefix when it lies inside the prompt.  (`split_tokens_at_offsets/2`
    is the cut the policy makes, `splitAtBoundaries`.) -/
def buildColdLadder (tokens : List Token) (plainSegs : List (List Token)) (n : Option Nat) :
    List Token × List (SaveReason × List Token) :=
  let existing := segBoundaryOffsets plainSegs
  let offsets :=
    match n with
    | some k => if 0 < k ∧ k < tokens.length then usortInsert k existing else existing
    | none   => existing
  let chunks := splitAtBoundaries offsets 0 tokens
  (chunks.headD [], (offsets.map fun off => ladderReason off n).zip chunks.tail)

section Setup

variable (env : Env σ γ) (d : Data σ γ Sid) (r : Req Sid)

/-- An empty cursor is `undefined`. -/
def cursorOf (tokens : List Token) : Option (List Token) :=
  if tokens = [] then none else some tokens

/-- `setup_cold/2`: wipe the seq and prefill the prompt segment by segment. -/
def setupCold : Req Sid × Sys σ γ Sid :=
  -- the ladder of the policy, with the caller's checkpoint put in
  let plainSegs := coldSaveSegments env.cfg.policy r.promptTokens
  let ladder := buildColdLadder r.promptTokens plainSegs r.prefixCheckpointLen
  ({ r with
      prefillCursor := cursorOf ladder.1
      coldSaveSegments := some ladder.2
      contextTokens := []
      cacheHitKind := .cold
      cacheHitPrefixLen := 0 },
    backendSeqClear env d.sys r.seqId)

/-- The request resumes on `context`, with `cursor` left to prefill. -/
def resumeOn (context : List Token) (cursor : Option (List Token)) (kind : HitKind)
    (prefixLen : Nat) : Req Sid :=
  { r with
    prefillCursor := cursor
    contextTokens := context
    cacheHitKind := kind
    cacheHitPrefixLen := prefixLen }

/-- The primer of a full hit: drop the last cell and prefill its token again, or fall back to
    cold when the partial removal is refused (`restore_failed_fallback/2`). -/
def resumeFull (context : List Token) (kind : HitKind) : Req Sid × Sys σ γ Sid :=
  let trimmed := warmRestorePrimer env d.sys r.seqId context
  match trimmed.1 with
  | .ok _ =>
    (resumeOn r context.dropLast (some (context.drop (context.length - 1))) kind context.length,
      trimmed.2)
  | .error _ => setupCold env (withSys d trimmed.2) r

/-- `setup_warm/5`: over a freshly restored row. -/
def setupWarm (w : Warm) : Req Sid × Sys σ γ Sid :=
  if w.suffix = [] ∧ w.context ≠ [] then resumeFull env d r w.context w.kind
  else (resumeOn r w.context (some w.suffix) w.kind w.context.length, d.sys)

/-- `setup_lookup/3`. -/
def setupLookup (parentKey : Option CacheKey) : Req Sid × Sys σ γ Sid :=
  let found := lookupOrResume env d r r.promptTokens parentKey
  let d := withSys d found.2
  match found.1 with
  | some w => setupWarm env d r w
  | none   => setupCold env d r

/-- The admission modes: a fresh seq, or the pinned seq of a session whose stored tokens the
    prompt extends, shares a prefix with, or is appended to. -/
inductive AdmitMode where
  | normal
  | sticky (stored : List Token)
  | stickyPartial (len : Nat)
  | continue (stored : List Token)
deriving DecidableEq

/-- The part of the options the admission path reads. -/
structure LookupOpts where
  parentKey : Option CacheKey
  prefixCheckpointLen : Option Nat
deriving DecidableEq

/-- `setup_admission_path/5`.  A partial sticky resume trims the stale tail; a removal that is
    refused falls back to cold. -/
def setupAdmissionPath (mode : AdmitMode) (prompt : List Token) (opts : LookupOpts) :
    Req Sid × Sys σ γ Sid :=
  match mode with
  | .normal =>
    setupLookup env d { r with prefixCheckpointLen := opts.prefixCheckpointLen } opts.parentKey
  | .sticky stored =>
    (resumeOn r stored (cursorOf (prompt.drop stored.length)) .sticky stored.length, d.sys)
  | .continue stored =>
    (resumeOn r stored (cursorOf prompt) .continuation stored.length, d.sys)
  -- the pinned tokens and the prompt part ways after `len` tokens
  | .stickyPartial len =>
    let keep := prompt.take len
    -- the whole prompt is cached: only the primer is prefilled again
    if prompt.drop len = [] then resumeFull env d r keep .partialHit
    else
      let trimmed := backendSeqRmFrom env d.sys r.seqId len
      match trimmed.1 with
      | .ok _ => (resumeOn r keep (some (prompt.drop len)) .partialHit len, trimmed.2)
      -- a backend that cannot trim starts cold
      | .error _ => setupCold env (withSys d trimmed.2) r

end Setup

/-! ### What the options say -/

/-- `stop_sequences_from/1`: empty strings are dropped. -/
def stopSequencesFrom (gen : GenOpts) : List Bytes :=
  gen.stopSequences.filter (· ≠ [])

/-- The longest stop string. -/
def stopMaxLenOf (stops : List Bytes) : Nat :=
  (stops.map List.length).foldl max 0

/-- `thinking_budget_from/1`: a budget that is not positive is no cap. -/
def thinkingBudgetFrom (gen : GenOpts) : Option Nat :=
  gen.thinkingBudgetTokens.filter (0 < ·)

/-- The `#req{}` of a generating request, before its admission path. -/
def generatingReq (d : Data σ γ Sid) (q : SeqId) (mode : Mode) (gen : GenOpts)
    (promptTokens : List Token) (sampler : Option Ref) : Req Sid where
  seqId := q
  mode := mode
  promptTokens := promptTokens
  responseTarget := gen.responseTokens.getD defaultResponseTokens
  requestFp := some d.effectiveFp
  samplerRef := sampler
  lastSamplerCfg := some gen.sampler
  stopSequences := stopSequencesFrom gen
  stopMaxLen := stopMaxLenOf (stopSequencesFrom gen)
  thinking := gen.thinking
  thinkingBudget := thinkingBudgetFrom gen

/-- The `#req{}` of a `prefill_only` request. -/
def prefillOnlyReq (d : Data σ γ Sid) (q : SeqId) (frm : From) (tokens : List Token)
    (sessionId : Option Sid) : Req Sid where
  seqId := q
  mode := .prefillOnly
  caller := some frm
  promptTokens := tokens
  responseTarget := 0
  requestFp := some d.effectiveFp
  samplerRef := none
  lastSamplerCfg := none
  sessionId := sessionId

section Start

variable (env : Env σ γ) (d : Data σ γ Sid)

/-- `sampler_for/2`: a backend without samplers gives none. -/
def samplerFor (s : Sys σ γ Sid) (gen : GenOpts) : Except Err (Option Ref) × Sys σ γ Sid :=
  match env.be.samplerNew with
  | some samplerNew =>
    match samplerNew s.ctx gen.sampler with
    | (.ok ref, ctx)   => (.ok (some ref), { s with ctx := ctx })
    | (.error e, ctx)  => (.error (.backend e), { s with ctx := ctx })
  | none => (.ok none, s)

/-- A fresh request reference, registered as in flight and handed to the caller. -/
def newRequestRef (s : Sys σ γ Sid) (frm : From) : Ref × Sys σ γ Sid :=
  (s.nextRef,
    { s with
      nextRef := s.nextRef + 1
      out := s.out ++ [.register s.nextRef, .reply frm (.started s.nextRef)] })

/-! ### Speculation -/

/-- `spec_gates_ok/2`: the gates that silently disable speculation. -/
def specGatesOk (r : Req Sid) : Bool :=
  match env.be.spec with
  | some cb =>
    cb.supported d.sys.ctx && !(env.cfg.recurrent || env.cfg.hybrid) && !r.thinking &&
      (r.lastSamplerCfg.all fun cfg => cfg.logprobs == 0)
  | none => false

/-- `new_spec_resource/2`. -/
def newSpecResource (cb : SpecCallbacks σ) (cfg : SpecCfg) : Option Ref × Data σ γ Sid :=
  match cb.new d.sys.ctx cfg env.cfg.nSeqMax with
  | (.ok ref, ctx) =>
    (some ref, { withSys d { d.sys with ctx := ctx } with spec := some (cfg, ref) })
  | (.error _, ctx) => (none, withSys d { d.sys with ctx := ctx })

/-- `ensure_spec_resource/2`: the speculator of another configuration is replaced only when no
    speculative request is in flight; if that fails the old entry stays. -/
def ensureSpecResource (cb : SpecCallbacks σ) (cfg : SpecCfg) : Option Ref × Data σ γ Sid :=
  match d.spec with
  | none => newSpecResource env d cb cfg
  | some (other, ref) =>
    if other = cfg then (some ref, d)
    else if (requests d.reqTable).any fun r => r.spec.isSome then (none, d)
    else newSpecResource env (withSys d { d.sys with ctx := cb.free d.sys.ctx ref }) cb cfg

/-- `setup_spec/3`. -/
def setupSpec (r : Req Sid) (opt : Option SpecOpt) : Req Sid × Data σ γ Sid :=
  match env.be.spec, opt with
  | some cb, some opt =>
    -- the gates fail silently: the request runs without speculation
    if specGatesOk env d r then
      let cfg := opt.normalize
      let res := ensureSpecResource env d cb cfg
      let d := res.2
      match res.1 with
      | some ref =>
        let begun := cb.begin d.sys.ctx ref r.seqId r.promptTokens
        let d := withSys d { d.sys with ctx := begun.2 }
        match begun.1 with
        | .ok _ =>
          ({ r with
              spec := some cfg
              specPromptLen := r.promptTokens.length
              specCursor := r.promptTokens.length }, d)
        | .error _ => (r, d)
      | none => (r, d)
    else (r, d)
  | _, _ => (r, d)

/-! ### Installing a request -/

/-- Set the request's speculation and admission path up and put it in the table. -/
def installReq (r : Req Sid) (mode : AdmitMode) (prompt : List Token) (spec : Option SpecOpt)
    (lookup : LookupOpts) : Data σ γ Sid :=
  let withSpec := setupSpec env d r spec
  let d := withSpec.2
  let admitted := setupAdmissionPath env d withSpec.1 mode prompt lookup
  putReq (withSys d admitted.2) admitted.1

/-- The lookup options of a text request. -/
def Opts.lookup (o : Opts Sid) : LookupOpts := ⟨o.parentKey, o.prefixCheckpointLen⟩

/-- `media_cap_ok/2`. -/
def mediaCapOk (caps : MediaCaps) : MediaType → Bool
  | .image => caps.vision
  | .audio => caps.audio

/-- `media_gates/2`: the projector must cover every item. -/
def mediaGates (opts : MediaOpts) : Except Err Unit :=
  match env.be.media with
  -- no multimodal backend, or none that was loaded
  | none => .error .noMmproj
  | some cb =>
    match cb.caps d.sys.ctx with
    | none => .error .noMmproj
    | some caps =>
      match (opts.media.map Prod.fst).filter fun t => !mediaCapOk caps t with
      | []     => .ok ()
      -- the first item that the projector cannot take
      | t :: _ => .error (.unsupportedMedia t)

/-- `start_media_request2/7`, up to the mode's own fields. -/
def mediaReq (q : SeqId) (mode : Mode) (prompt : Bytes) (opts : MediaOpts)
    (sampler : Option Ref) : Req Sid :=
  { generatingReq d q mode opts.gen [] sampler with
    media := some opts.media
    mediaPrompt := prompt
    mediaAddSpecial := opts.mediaAddSpecial
    mediaState := some .pending }

/-- A request record ready to be installed: a text request with what its admission path reads,
    or a media request. -/
inductive Prepared (Sid : Type) where
  | text (r : Req Sid) (prompt : List Token) (spec : Option SpecOpt) (lookup : LookupOpts)
  | media (r : Req Sid)
deriving DecidableEq

/-- The caller and reference of a streaming request. -/
def streamingReq (r : Req Sid) (pid : Pid) (ref : Ref) : Req Sid :=
  { r with callerPid := some pid, requestRef := some ref }

/-- `start_media_request/5`: the gates, then the sampler.  With a caller process the request
    streams to it. -/
def prepareMedia (q : SeqId) (frm : From) (callerPid : Option Pid) (prompt : Bytes)
    (opts : MediaOpts) : Except Err (Prepared Sid) × Data σ γ Sid :=
  match mediaGates env d opts with
  | .error e => (.error e, d)
  | .ok _ =>
    let sampler := samplerFor env d.sys opts.gen
    let d := withSys d sampler.2
    match sampler.1 with
    | .error e => (.error e, d)
    | .ok ref =>
      match callerPid with
      -- a stream gets a reference, a call is replied to
      | some pid =>
        let fresh := newRequestRef d.sys frm
        let r := streamingReq (mediaReq d q .streaming prompt opts ref) pid fresh.1
        (.ok (.media r), withSys d fresh.2)
      | none =>
        (.ok (.media { mediaReq d q .standard prompt opts ref with caller := some frm }), d)

/-- `start_request/4` on the items that flow through `admit/2`, up to the admission path: the
    sampler, the reference and the record, or the error of a rejected request. -/
def prepareRequest (item : Item Sid) (q : SeqId) : Except Err (Prepared Sid) × Data σ γ Sid :=
  match item with
  -- media requests: the gates, then a sampler
  | .completeMedia frm prompt opts => prepareMedia env d q frm none prompt opts
  | .inferMedia frm prompt opts pid => prepareMedia env d q frm (some pid) prompt opts
  | .complete frm prompt opts =>
    let sampler := samplerFor env d.sys opts.gen
    let d := withSys d sampler.2
    match sampler.1 with
    | .error e => (.error e, d)
    | .ok ref =>
      -- only `complete/3` gives a text to be tokenised
      let tokens := env.be.tokenize prompt
      let r := { generatingReq d q .standard opts.gen tokens ref with
        caller := some frm, sessionId := opts.sessionId }
      (.ok (.text r tokens opts.speculative opts.lookup), d)
  -- a prefill generates nothing: no sampler, no reference
  | .prefillOnly frm tokens opts =>
    (.ok (.text (prefillOnlyReq d q frm tokens opts.sessionId) tokens none opts.lookup), d)
  | .infer frm tokens opts pid =>
    let sampler := samplerFor env d.sys opts.gen
    let d := withSys d sampler.2
    match sampler.1 with
    | .error e => (.error e, d)
    | .ok ref =>
      let fresh := newRequestRef d.sys frm
      let r := { generatingReq d q .streaming opts.gen tokens ref with
        sessionId := opts.sessionId }
      (.ok (.text (streamingReq r pid fresh.1) tokens opts.speculative opts.lookup),
        withSys d fresh.2)

/-- The options of `continue/3`. -/
structure ContinueOpts (Sid : Type) where
  gen : GenOpts
  sessionId : Option Sid
  expectCommitted : Option (List Token)
  callerPid : Pid
  speculative : Option SpecOpt
deriving DecidableEq

/-- `start_request/4` on a continuation, up to the admission path: the reported prompt is the
    stored context and the new tail, the prefill is the tail alone. -/
def prepareContinue (frm : From) (suffix : List Token) (opts : ContinueOpts Sid) (q : SeqId)
    (stored : List Token) : Except Err (Prepared Sid) × Data σ γ Sid :=
  let sampler := samplerFor env d.sys opts.gen
  let d := withSys d sampler.2
  match sampler.1 with
  | .error e => (.error e, d)
  | .ok ref =>
    let fresh := newRequestRef d.sys frm
    let r := { generatingReq d q .streaming opts.gen (stored ++ suffix) ref with
      sessionId := opts.sessionId }
    (.ok (.text (streamingReq r opts.callerPid fresh.1) suffix opts.speculative ⟨none, none⟩),
      withSys d fresh.2)

/-- The rest of `start_request/4`: an error, or the request in the table. -/
def startPrepared (mode : AdmitMode) (prepared : Except Err (Prepared Sid) × Data σ γ Sid) :
    Option Err × Data σ γ Sid :=
  match prepared.1 with
  | .error e => (some e, prepared.2)
  | .ok (.text r prompt spec lookup) =>
    (none, installReq env prepared.2 r mode prompt spec lookup)
  | .ok (.media r) => (none, putReq prepared.2 r)

/-- `start_request/4` on an item. -/
def startRequest (item : Item Sid) (q : SeqId) (mode : AdmitMode) : Option Err × Data σ γ Sid :=
  startPrepared env mode (prepareRequest env d item q)

/-- `start_request/4` on a continuation. -/
def startContinue (frm : From) (suffix : List Token) (opts : ContinueOpts Sid) (q : SeqId)
    (stored : List Token) : Option Err × Data σ γ Sid :=
  startPrepared env (.continue stored) (prepareContinue env d frm suffix opts q stored)

end Start

end Erllama.Model
