import Erllama.Backend
import Erllama.CacheKey
import Erllama.CachePolicy
import Erllama.Lib.Table

namespace Erllama.Model

open Lib

/-!
# State of a model process (`erllama_model`)

The records of `erllama_model.erl` and the two things outside it that it acts on: the
native context behind the backend, and the cache servers.

* `Opts`, `MediaOpts`, `Item` — a request as the caller sends it.
* `Req` — `#req{}`, one in-flight request.
* `Data` — `#data{}`, split into the part that changes and the constant `Config`.
* `CacheClient` — the calls into the cache servers, over an outside world `γ`.
* `Sys` — context, world and the record of what the process did to them.

A session id is any term with Erlang's term order, the type `Sid`.
-/

/-- The caller of a `gen_statem:call`. -/
abbrev From := Nat

/-- `?DEFAULT_RESPONSE_TOKENS`. -/
def defaultResponseTokens : Nat := 64

/-! ### Requests -/

/-- `on_full`: wait for a seq, or fail fast. -/
inductive OnFull where
  | block | error
deriving DecidableEq

/-- The `speculative` option as a map: missing keys take the defaults. -/
structure SpecOpt where
  nMatch : Option Nat
  nMax : Option Nat
  nMin : Option Nat
deriving DecidableEq

/-- `normalize_spec_opt/1` on a map. -/
def SpecOpt.normalize (o : SpecOpt) : SpecCfg where
  nMatch := o.nMatch.getD 24
  nMax := o.nMax.getD 64
  nMin := o.nMin.getD 48

/-- What the sampler, the stop scanner and the thinking track read from the options. -/
structure GenOpts where
  responseTokens : Option Nat
  stopSequences : List Bytes
  thinking : Bool
  thinkingBudgetTokens : Option Nat
  sampler : SamplerCfg
deriving DecidableEq

/-- The options of a text request. -/
structure Opts (Sid : Type) where
  gen : GenOpts
  sessionId : Option Sid
  parentKey : Option CacheKey
  prefixCheckpointLen : Option Nat
  speculative : Option SpecOpt
  onFull : OnFull
deriving DecidableEq

/-- The options of a media request.  Session ids, parent keys, speculation and prefix
    checkpoints are rejected together with media before the request is sent. -/
structure MediaOpts where
  gen : GenOpts
  media : List (MediaType × Bytes)
  mediaAddSpecial : Bool
  onFull : OnFull
deriving DecidableEq

/-- A request that flows through `admit/2` (`pending_request()`). -/
inductive Item (Sid : Type) where
  | complete (frm : From) (prompt : Bytes) (opts : Opts Sid)
  | completeMedia (frm : From) (prompt : Bytes) (opts : MediaOpts)
  | prefillOnly (frm : From) (tokens : List Token) (opts : Opts Sid)
  | infer (frm : From) (tokens : List Token) (opts : Opts Sid) (callerPid : Pid)
  | inferMedia (frm : From) (prompt : Bytes) (opts : MediaOpts) (callerPid : Pid)
deriving DecidableEq

/-- The request mode. -/
inductive Mode where
  | standard | streaming | prefillOnly
deriving DecidableEq

/-- `cache_hit_kind()`. -/
inductive HitKind where
  | cold | exact | partialHit | sticky | continuation
deriving DecidableEq

/-- `erllama_cache_kvc:save_reason()`. -/
inductive SaveReason where
  | cold | agentPrefix | continued | finish | evict | shutdown
deriving DecidableEq

/-- The progress of a media prefill. -/
inductive MediaState where
  | pending | done
deriving DecidableEq

/-- One logprobs map delivered to the caller. -/
structure LpMap where
  tokenId : Token
  logprob : ℚ
  top : List (Token × ℚ)
deriving DecidableEq

/-- `#req{}`, without the two timestamps of the statistics. -/
structure Req (Sid : Type) where
  seqId : SeqId
  mode : Mode
  caller : Option From := none
  callerPid : Option Pid := none
  requestRef : Option Ref := none
  cancelPending : Bool := false
  promptTokens : List Token
  contextTokens : List Token := []
  responseTarget : Nat
  generated : List Token := []
  lastSaveAt : Nat := 0
  prefillCursor : Option (List Token) := none
  requestFp : Option Digest
  cacheHitKind : HitKind := .cold
  cacheHitPrefixLen : Nat := 0
  samplerRef : Option Ref
  lastSamplerCfg : Option SamplerCfg
  coldSaveSegments : Option (List (SaveReason × List Token)) := none
  finishing : Bool := false
  stopSequences : List Bytes := []
  stopMaxLen : Nat := 0
  pendingText : Bytes := []
  matchedStop : Option Bytes := none
  logprobsAcc : List LpMap := []
  thinking : Bool := false
  thinkingBytes : Bytes := []
  thinkingNotEnabled : Bool := false
  cacheDeltaCreated : Nat := 0
  sessionId : Option Sid := none
  thinkingBudget : Option Nat := none
  thinkingCount : Nat := 0
  prefixCheckpointLen : Option Nat := none
  thinkingCapped : Bool := false
  spec : Option SpecCfg := none
  specPromptLen : Nat := 0
  specCursor : Nat := 0
  specDrafted : Nat := 0
  specAccepted : Nat := 0
  media : Option (List (MediaType × Bytes)) := none
  mediaPrompt : Bytes := []
  mediaAddSpecial : Bool := true
  mediaState : Option MediaState := none
  mediaNTokens : Nat := 0
  mediaNPos : Nat := 0
deriving DecidableEq

/-- The caller and the reference of a streaming request: the guard
    `mode = streaming, is_pid(Pid), is_reference(Ref)`. -/
def Req.stream {Sid : Type} (r : Req Sid) : Option (Pid × Ref) :=
  match r.mode, r.callerPid, r.requestRef with
  | .streaming, some pid, some ref => some (pid, ref)
  | _, _, _                        => none

/-! ### What the process answers -/

/-- The error terms of replies; `nested` is an error tuple inside an error tuple. -/
inductive Err where
  | seqCapacity | stickyBusy | noSession | sessionExists | notSupported | notFound | busy
  | noMmproj | engineReset | thinkingNotEnabled
  | unsupportedMedia (t : MediaType)
  | mediaFailed (r : Reason)
  | transcriptMismatch (storedLen expectedLen divergeAt : Nat)
  | backend (r : Reason)
  | file
  | nested (e : Err)
deriving DecidableEq

/-- `finish_reason()`. -/
inductive FinishReason where
  | cancelled | stop | length
deriving DecidableEq

/-- The stats of a finished request, without its timings. -/
structure Stats where
  promptTokens : Nat
  completionTokens : Nat
  generated : List Token
  cacheHitKind : HitKind
  finishReason : FinishReason
  cancelled : Bool
  finishKey : Option CacheKey
  committedTokens : Nat
  cacheDelta : Nat × Nat
  speculative : Option (Nat × Nat)
  media : Option (Nat × Nat × Nat)
  stopSequence : Option Bytes
deriving DecidableEq

/-- `completion_result()`. -/
structure CompletionResult where
  reply : Bytes
  generated : List Token
  contextTokens : List Token
  committedTokens : Nat
  finishKey : Option CacheKey
  cacheHitKind : HitKind
  finishReason : FinishReason
  cacheDelta : Nat × Nat
  stats : Stats
  stopSequence : Option Bytes
  speculative : Option (Nat × Nat)
  media : Option (Nat × Nat × Nat)
  logprobs : List LpMap
deriving DecidableEq

/-- `prefill_result()`. -/
structure PrefillResult where
  contextTokens : List Token
  committedTokens : Nat
  finishKey : Option CacheKey
  cacheHitKind : HitKind
  cacheDelta : Nat × Nat
deriving DecidableEq

/-- The reply to a call. -/
inductive Reply where
  | ok
  | started (ref : Ref)
  | completion (r : CompletionResult)
  | prefilled (r : PrefillResult)
  | recovered
  | sessionNotFound
  | verified (accepted : Nat) (next : Option Token)
  | embedding (vs : List (List ℚ))
  | adapter (handle : Ref)
  | error (e : Err)
deriving DecidableEq

/-- A streaming event, `{erllama, Ref, _}`. -/
inductive StreamEvent where
  | token (text : Bytes)
  | tokenId (t : Token)
  | thinking (text : Bytes)
  | thinkingEnd (sig : Bytes)
  | logprobs (m : LpMap)
  | done (stats : Stats)
  | error (e : Err)
deriving DecidableEq

/-- An observable effect of the process. -/
inductive Out where
  | reply (frm : From) (r : Reply)
  | send (pid : Pid) (ref : Ref) (ev : StreamEvent)
  | register (ref : Ref)
  | unregister (ref : Ref)
deriving DecidableEq

/-! ### The cache servers -/

/-- `erllama_cache_kvc:build_meta()`: what a checkpoint is written with. -/
structure BuildMeta where
  saveReason : SaveReason
  quantBits : Nat
  fingerprint : Digest
  fingerprintMode : Nat
  quantType : QuantType
  ctxParamsHash : Digest
  tokens : List Token
  contextSize : Nat
  promptText : Bytes
deriving DecidableEq

/-- The stored token section of a row, a whole number of 32-bit words. -/
structure TokensBin where
  bytes : Bytes
  aligned : (decodeTokens bytes).isSome

/-- `decode_tokens/1` on a well-formed section. -/
def TokensBin.decode (t : TokensBin) : List Token := (decodeTokens t.bytes).get t.aligned

/-- What `checkout/2` answers: the row is claimed, being written, or missing. -/
inductive CheckoutResult where
  | claimed (holder : Ref) (tier : Tier) (tokensBin : Option TokensBin)
  | busy
  | miss

/-- What `erllama_cache_writer:save/5` answers. -/
inductive SaveResult where
  | saved | alreadyPresent | failed
deriving DecidableEq

/-- The calls into the cache servers and the clock.  Each may change the outside world, and
    other processes act on it between any two. -/
structure CacheClient (γ : Type) where
  checkout : γ → CacheKey → CheckoutResult × γ
  checkin : γ → Ref → γ
  lookupExactOrWait : γ → CacheKey → Nat → Bool × γ
  availableTextLengths : γ → Nat → List Nat × γ
  lookupExact : γ → CacheKey → Bool × γ
  ramLoad : γ → CacheKey → Option Bytes × γ
  diskLoad : γ → CacheKey → Option Bytes × γ
  save : γ → Tier → BuildMeta → Bytes → SaveResult × γ
  pinRow : γ → Digest → CacheKey → γ
  setLiveKey : γ → CacheKey → γ
  monotonicTime : γ → Int × γ

/-- Load a payload from the tier that holds it. -/
def CacheClient.load {γ : Type} (c : CacheClient γ) (w : γ) (key : CacheKey) :
    Tier → Option Bytes × γ
  | .ram     => c.ramLoad w key
  | .ramFile => c.diskLoad w key
  | .disk    => c.diskLoad w key

/-- A save handed to the writer: the request it is for, what is written, and the native
    context the payload was packed from. -/
structure SaveCall (σ Sid : Type) where
  req : Req Sid
  buildMeta : BuildMeta
  payload : Bytes
  ctx : σ

/-- A seq pinned to a session: the tokens stored with it, and the native context then. -/
structure PinCall (σ : Type) where
  seqId : SeqId
  tokens : List Token
  ctx : σ

/-- What the process takes a seq's KV to be: in a row it saves, or for a session's next turn. -/
inductive Entry (σ Sid : Type) where
  | save (c : SaveCall σ Sid)
  | pin (c : PinCall σ)

/-- The native context, the outside world, fresh references, the tick casts in the mailbox,
    and the record of what the process did: its messages, its saves and pins, and the rows it
    restored into a seq. -/
structure Sys (σ γ Sid : Type) where
  ctx : σ
  world : γ
  nextRef : Ref
  ticks : Nat
  out : List Out
  log : List (Entry σ Sid)
  restored : List (SeqId × CacheKey)

/-- Record a message. -/
def Sys.emit {σ γ Sid : Type} (s : Sys σ γ Sid) (o : Out) : Sys σ γ Sid :=
  { s with out := s.out ++ [o] }

/-! ### The process state -/

/-- An attached LoRA adapter: `#{handle, sha, scale}`. -/
structure Adapter where
  handle : Ref
  sha : Digest
  scale : ℚ
deriving DecidableEq

/-- A pinned session: `{SeqId, StoredTokens, LastUsed}`. -/
structure Session where
  seqId : SeqId
  tokens : List Token
  lastUsed : Int
deriving DecidableEq

/-- The fields of `#data{}` that never change after `init/1`. -/
structure Config where
  tier : Tier
  fingerprint : Digest
  fingerprintMode : Nat
  quantType : QuantType
  quantBits : Nat
  ctxParamsHash : Digest
  contextSize : Nat
  policy : Policy
  recurrent : Bool
  hybrid : Bool
  nSeqMax : Nat
  totalBatchBudget : Nat

/-- The fields of `#data{}` that change, and the system behind the process. -/
structure Data (σ γ Sid : Type) where
  adapters : List Adapter
  effectiveFp : Digest
  reqTable : Table SeqId (Req Sid)
  idleSeqIds : List SeqId
  pending : List (Item Sid)
  sessionSeq : Table Sid Session
  spec : Option (SpecCfg × Ref)
  sys : Sys σ γ Sid

/-- Everything a model process is built from: the backend module, the cache servers, the
    hash, and the load configuration. -/
structure Env (σ γ : Type) where
  be : Backend σ
  cache : CacheClient γ
  sha256 : Bytes → Digest
  cfg : Config

/-- `maps:values/1` of the request table: a small Erlang map lists its keys in order. -/
def requests {Sid : Type} (t : Table SeqId (Req Sid)) : List (Req Sid) :=
  ((t.entries.insertionSort fun a b => a.1 ≤ b.1)).map Sigma.snd

section Updates

variable {σ γ Sid : Type} (d : Data σ γ Sid)

/-- `put_req/2`. -/
def putReq (r : Req Sid) : Data σ γ Sid :=
  { d with reqTable := d.reqTable.insert r.seqId r }

/-- `remove_req/2`. -/
def removeReq (q : SeqId) : Data σ γ Sid :=
  { d with reqTable := d.reqTable.erase q }

/-- The seq has an in-flight request (`maps:is_key(SeqId, ReqTable)`). -/
def inFlight (q : SeqId) : Bool := (d.reqTable.lookup q).isSome

/-- Replace the system behind the process. -/
def withSys (s : Sys σ γ Sid) : Data σ γ Sid := { d with sys := s }

/-- Record a message. -/
def emit (o : Out) : Data σ γ Sid := withSys d (d.sys.emit o)

/-- `schedule_tick/0`. -/
def scheduleTick : Data σ γ Sid := withSys d { d.sys with ticks := d.sys.ticks + 1 }

end Updates

end Erllama.Model
