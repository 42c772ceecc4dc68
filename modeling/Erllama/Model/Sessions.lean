import Erllama.Model.Admission
import Mathlib.Data.Prod.Lex

namespace Erllama.Model

/-!
# Seqs and sessions (`erllama_model`)

A seq is idle, owned by an in-flight request, or pinned by a session that keeps its KV for the
next turn.  This file moves seqs between the three.

* `dropSession`, `reclaimLruIdleSeq`, `forkSession`, `resetSessionSeq` — session operations.
* `resolveAdmissionSeq` — whether a request continues its session's pinned seq.
* `admitRequest`, `admitContinue` — the entry points of `complete`, `prefill_only`, `infer` and
  `continue`.
-/

variable {σ γ Sid : Type}

/-! ### Letting go of a request -/

section Release

variable (env : Env σ γ) (s : Sys σ γ Sid) (r : Req Sid)

/-- `notify_failure/2`: a streaming caller gets an error event, a synchronous one a reply. -/
def notifyFailure (e : Err) : Sys σ γ Sid :=
  match r.stream with
  | some (pid, ref) => (s.emit (.unregister ref)).emit (.send pid ref (.error e))
  | none =>
    match r.caller with
    | some frm => s.emit (.reply frm (.error e))
    | none     => s

/-- `notify_caller_error/2`, clause for clause the same. -/
def notifyCallerError (e : Err) : Sys σ γ Sid := notifyFailure s r e

/-- `release_sampler/2`. -/
def releaseSampler : Sys σ γ Sid :=
  match env.be.samplerFree, r.samplerRef with
  | some samplerFree, some ref => { s with ctx := samplerFree s.ctx ref }
  | _, _ => s

/-- `fail_request/3`. -/
def failRequest (e : Err) : Sys σ γ Sid :=
  releaseSeq env (releaseSampler env (notifyFailure s r e) r) r.seqId

end Release

variable [LinearOrder Sid] (env : Env σ γ) (d : Data σ γ Sid)

/-! ### Session operations -/

/-- Forget the session and return its seq to the pool. -/
def unpin (sid : Sid) (q : SeqId) : Data σ γ Sid :=
  { d with sessionSeq := d.sessionSeq.erase sid, idleSeqIds := q :: d.idleSeqIds }

/-- Pin the seq to the session, stamped with the monotonic time. -/
def pin (sid : Sid) (q : SeqId) (tokens : List Token) : Data σ γ Sid :=
  let now := env.cache.monotonicTime d.sys.world
  { withSys d { d.sys with world := now.2, log := d.sys.log ++ [.pin ⟨q, tokens, d.sys.ctx⟩] } with
    sessionSeq := d.sessionSeq.insert sid ⟨q, tokens, now.1⟩ }

/-- `drop_session/2`: an unknown session and a seq in flight are both no-ops. -/
def dropSession (sid : Sid) : Data σ γ Sid :=
  match d.sessionSeq.lookup sid with
  | none => d
  | some s =>
    if inFlight d s.seqId then d
    else unpin (withSys d (releaseSeq env d.sys s.seqId)) sid s.seqId

/-- The sessions whose seq has no request in flight, except one, by time of last use. -/
def idlePins (except : Option Sid) : List (Int ×ₗ Sid) :=
  (d.sessionSeq.entries.filter fun p =>
    except ≠ some p.1 ∧ ¬ inFlight d p.2.seqId).map fun p => toLex (p.2.lastUsed, p.1)

/-- `reclaim_lru_idle_seq_except/2`: free the least recently used idle pin. -/
def reclaimLruIdleSeqExcept (except : Option Sid) : Option (Data σ γ Sid) :=
  match (idlePins d except).insertionSort (· ≤ ·) with
  | oldest :: _ => some (dropSession env d (ofLex oldest).2)
  | []          => none

/-- `reclaim_lru_idle_seq/1`. -/
def reclaimLruIdleSeq : Option (Data σ γ Sid) := reclaimLruIdleSeqExcept env d none

/-- Pop a seq from the pool. -/
def popIdle : Option (SeqId × Data σ γ Sid) :=
  match d.idleSeqIds with
  | q :: rest => some (q, { d with idleSeqIds := rest })
  | []        => none

/-- Take a seq: from the pool, else from the pool after one reclamation.  This is how
    `admit_normal/2`, `dispatch_pending_admits/2` and `fork_alloc_seq/2` get one. -/
def allocSeq (except : Option Sid) : Option (SeqId × Data σ γ Sid) :=
  match popIdle d with
  | some taken => some taken
  | none       => (reclaimLruIdleSeqExcept env d except).bind popIdle

/-- `fork_copy/5`: register the copy, or return the seq when the copy failed. -/
def forkCopy (newSid : Sid) (srcSeq dstSeq : SeqId) (stored : List Token) :
    Reply × Data σ γ Sid :=
  match env.be.seqCp with
  | none => (.error .notSupported, { d with idleSeqIds := dstSeq :: d.idleSeqIds })
  | some seqCp =>
    let res := seqCp d.sys.ctx srcSeq dstSeq
    let d := withSys d { d.sys with ctx := res.2 }
    match res.1 with
    -- the copy is pinned with the tokens of its source
    | .ok _    => (.ok, pin env d newSid dstSeq stored)
    -- the seq goes back to the pool
    | .error e => (.error (.backend e), { d with idleSeqIds := dstSeq :: d.idleSeqIds })

/-- `do_fork_session/3`: never queues. -/
def forkSession (srcSid newSid : Sid) : Reply × Data σ γ Sid :=
  match d.sessionSeq.lookup srcSid with
  | none => (.error .noSession, d)
  | some src =>
    if inFlight d src.seqId then (.error .stickyBusy, d)
    else if (d.sessionSeq.lookup newSid).isSome then (.error .sessionExists, d)
    else
      -- the source's own pin may not be dropped for it
      match allocSeq env d (some srcSid) with
      | some (dstSeq, d) => forkCopy env d newSid src.seqId dstSeq src.tokens
      | none             => (.error .seqCapacity, d)

/-- `fail_inflight_for_seq/3`. -/
def failInflightForSeq (q : SeqId) (e : Err) : Data σ γ Sid :=
  match d.reqTable.lookup q with
  | none   => d
  | some r => removeReq (withSys d (releaseSampler env (notifyCallerError d.sys r e) r)) q

/-- `reset_session_seq/2`: fail whatever is in flight on the session's seq and free it. -/
def resetSessionSeq (sid : Sid) : Reply × Data σ γ Sid :=
  match d.sessionSeq.lookup sid with
  | none => (.sessionNotFound, d)
  | some s =>
    let d := failInflightForSeq env d s.seqId .engineReset
    (.recovered, unpin (withSys d (releaseSeq env d.sys s.seqId)) sid s.seqId)

/-! ### Admission -/

/-- `caller_from_of/1`. -/
def Item.frm : Item Sid → From
  | .complete frm _ _      => frm
  | .completeMedia frm _ _ => frm
  | .prefillOnly frm _ _   => frm
  | .infer frm _ _ _       => frm
  | .inferMedia frm _ _ _  => frm

/-- `session_id_of/1`. -/
def Item.sessionId : Item Sid → Option Sid
  | .complete _ _ opts    => opts.sessionId
  | .completeMedia _ _ _  => none
  | .prefillOnly _ _ opts => opts.sessionId
  | .infer _ _ opts _     => opts.sessionId
  | .inferMedia _ _ _ _   => none

/-- `on_full_of/1`. -/
def Item.onFull : Item Sid → OnFull
  | .complete _ _ opts      => opts.onFull
  | .completeMedia _ _ opts => opts.onFull
  | .prefillOnly _ _ opts   => opts.onFull
  | .infer _ _ opts _       => opts.onFull
  | .inferMedia _ _ opts _  => opts.onFull

/-- `prompt_tokens_of/2`. -/
def promptTokensOf : Item Sid → List Token
  | .complete _ prompt _      => env.be.tokenize prompt
  | .completeMedia _ prompt _ => env.be.tokenize prompt
  | .prefillOnly _ tokens _   => tokens
  | .infer _ tokens _ _       => tokens
  | .inferMedia _ prompt _ _  => env.be.tokenize prompt

/-- `longest_common_prefix_len/2`, and the index `first_divergence/3` reports. -/
def commonPrefixLen : List Token → List Token → Nat
  | x :: xs, y :: ys => if x = y then commonPrefixLen xs ys + 1 else 0
  | _,       _       => 0

/-- What `resolve_admission_seq/2` decides. -/
inductive Resolved (σ γ Sid : Type) where
  | pinned (q : SeqId) (mode : AdmitMode)
  | normal (d : Data σ γ Sid)
  | stickyBusy

/-- `resolve_sticky_continuation/5`: extend the pinned tokens, or keep their common prefix with
    the prompt if it is long enough, else release the seq and admit cold. -/
def resolveStickyContinuation (sid : Sid) (q : SeqId) (stored : List Token) (item : Item Sid) :
    Resolved σ γ Sid :=
  let prompt := promptTokensOf env item
  if stored <+: prompt then .pinned q (.sticky stored)
  else
    let len := commonPrefixLen stored prompt
    if max 1 env.cfg.policy.minTokens ≤ len then .pinned q (.stickyPartial len)
    else .normal (unpin (withSys d (releaseSeq env d.sys q)) sid q)

/-- `resolve_admission_seq/2`. -/
def resolveAdmissionSeq (item : Item Sid) : Resolved σ γ Sid :=
  match item.sessionId with
  | none => .normal d
  | some sid =>
    match d.sessionSeq.lookup sid with
    | none => .normal d
    | some s =>
      if inFlight d s.seqId then .stickyBusy
      else resolveStickyContinuation env d sid s.seqId s.tokens item

/-- `enqueue/2`. -/
def enqueue (item : Item Sid) : Data σ γ Sid := { d with pending := d.pending ++ [item] }

/-- The states of the `gen_statem`, and the one it is in after it stopped or crashed. -/
inductive Phase where
  | idle | running | stopped
deriving DecidableEq

/-- The model process. -/
structure Proc (σ γ Sid : Type) where
  phase : Phase
  data : Data σ γ Sid

/-- Reply and keep the state. -/
def Proc.reply (p : Proc σ γ Sid) (frm : From) (r : Reply) : Proc σ γ Sid :=
  { p with data := emit p.data (.reply frm r) }

/-- The outcome of a start: the process runs and ticks, or the caller gets the error. -/
def startAdmission (phase : Phase) (frm : From) (started : Option Err × Data σ γ Sid)
    (onError : Data σ γ Sid → Data σ γ Sid) : Proc σ γ Sid :=
  match started.1 with
  | none   => ⟨.running, scheduleTick started.2⟩
  | some e => ⟨phase, emit (onError started.2) (.reply frm (.error e))⟩

/-- `admit_normal/2`: take a seq and start on it; with none to take, queue or fail fast. -/
def admitNormal (phase : Phase) (item : Item Sid) : Proc σ γ Sid :=
  match allocSeq env d none with
  | some (q, d) =>
    startAdmission phase item.frm (startRequest env d item q .normal)
      fun d => { d with idleSeqIds := q :: d.idleSeqIds }
  | none =>
    match item.onFull with
    | .error => ⟨phase, emit d (.reply item.frm (.error .seqCapacity))⟩
    | .block => ⟨if d.reqTable.entries = [] then .idle else phase, enqueue d item⟩

/-- `admit/2`.  A pinned seq stays its session's when the start fails. -/
def admitRequest (phase : Phase) (item : Item Sid) : Proc σ γ Sid :=
  match resolveAdmissionSeq env d item with
  | .pinned q mode => startAdmission phase item.frm (startRequest env d item q mode) id
  | .normal d      => admitNormal env d phase item
  | .stickyBusy    => ⟨phase, emit d (.reply item.frm (.error .stickyBusy))⟩

/-- `verify_committed/2`: the caller's transcript, when given, must be the stored one. -/
def verifyCommitted (expected : Option (List Token)) (stored : List Token) : Option Err :=
  match expected with
  | none => none
  | some tokens =>
    if tokens = stored then none
    else some (.transcriptMismatch stored.length tokens.length (commonPrefixLen tokens stored))

/-- `admit_continue/2` and `admit_continue_pinned/4`: a continuation needs a known session whose
    seq is not in flight. -/
def admitContinue (phase : Phase) (frm : From) (suffix : List Token) (opts : ContinueOpts Sid) :
    Proc σ γ Sid :=
  match opts.sessionId.bind d.sessionSeq.lookup with
  -- a session that is not pinned cannot be continued
  | none => ⟨phase, emit d (.reply frm (.error .noSession))⟩
  | some s =>
    -- a request of the session is in flight
    if inFlight d s.seqId then ⟨phase, emit d (.reply frm (.error .stickyBusy))⟩
    else
      match verifyCommitted opts.expectCommitted s.tokens with
      -- the caller's idea of what is committed is out of date
      | some e => ⟨phase, emit d (.reply frm (.error e))⟩
      | none =>
        startAdmission phase frm (startContinue env d frm suffix opts s.seqId s.tokens) id

end Erllama.Model
