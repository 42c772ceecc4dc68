import Erllama.Model.Life

namespace Erllama.Model

/-!
# Which backend calls a function makes

The functions between two steps of the process call the backend in a few ways only.  These
relations say which, so that a law about the calls becomes a law about the functions.

* `Silent` — sampler and speculator calls, which touch no KV.
* `SeqOps q` — removals and restores on the seq `q`.
* `Quiet`, `OnSeq q` — a function of the process that makes only such calls and saves nothing.
* `setupAdmissionPath_admits` — an admission works on the seq of its request alone.
-/

variable {σ γ Sid : Type}

/-- Sampler and speculator calls. -/
inductive Silent (be : Backend σ) : σ → σ → Prop
  | refl (x : σ) : Silent be x x
  | samplerNew {f} (h : be.samplerNew = some f) (x : σ) (cfg : SamplerCfg) :
    Silent be x (f x cfg).2
  | samplerFree {f} (h : be.samplerFree = some f) (x : σ) (ref : Ref) : Silent be x (f x ref)
  | specNew {cb} (h : be.spec = some cb) (x : σ) (cfg : SpecCfg) (n : Nat) :
    Silent be x (cb.new x cfg n).2
  | specBegin {cb} (h : be.spec = some cb) (x : σ) (ref : Ref) (q : SeqId) (ts : List Token) :
    Silent be x (cb.begin x ref q ts).2
  | specDraft {cb} (h : be.spec = some cb) (x : σ) (ref : Ref) (q : SeqId) (t : Token)
      (ts : List Token) : Silent be x (cb.draft x ref q t ts).2
  | specAccept {cb} (h : be.spec = some cb) (x : σ) (ref : Ref) (q : SeqId) (n : Nat) :
    Silent be x (cb.accept x ref q n)
  | specFree {cb} (h : be.spec = some cb) (x : σ) (ref : Ref) : Silent be x (cb.free x ref)
  | trans {x y z : σ} (h : Silent be x y) (h' : Silent be y z) : Silent be x z

/-- Removals and restores on one seq.  The calls that take no seq stand in for a backend
    without the calls that do. -/
inductive SeqOps (be : Backend σ) (q : SeqId) : σ → σ → Prop
  | refl (x : σ) : SeqOps be q x x
  | rm {f} (h : be.seqRm = some f) (x : σ) : SeqOps be q x (f x q)
  | clear {f} (hrm : be.seqRm = none) (h : be.seqClear = some f) (x : σ) : SeqOps be q x (f x)
  | rmLast {f} (h : be.seqRmLast = some f) (x : σ) (n : Nat) : SeqOps be q x (f x q n).2
  | rmLastSeq0 {f} (hrm : be.seqRmLast = none) (h : be.seqRmLastSeq0 = some f) (x : σ) (n : Nat) :
    SeqOps be q x (f x n).2
  | unpack (x : σ) (bin : Bytes) : SeqOps be q x (be.kvUnpack x bin q).2
  | trans {x y z : σ} (h : SeqOps be q x y) (h' : SeqOps be q y z) : SeqOps be q x z

/-- The function calls no KV operation, saves nothing and takes no message back. -/
structure Quiet (env : Env σ γ) (s s' : Sys σ γ Sid) : Prop where
  ctx : Silent env.be s.ctx s'.ctx
  log : s'.log = s.log
  out : s.out <+: s'.out

/-- The function works on the seq `q` alone, saves nothing and takes no message back. -/
structure OnSeq (env : Env σ γ) (q : SeqId) (s s' : Sys σ γ Sid) : Prop where
  ctx : SeqOps env.be q s.ctx s'.ctx
  log : s'.log = s.log
  out : s.out <+: s'.out

section Rules

variable {env : Env σ γ} {q : SeqId} {s s' s'' : Sys σ γ Sid}

/-- Nothing happened. -/
theorem Quiet.refl (s : Sys σ γ Sid) : Quiet env s s := ⟨.refl _, rfl, List.prefix_refl _⟩

/-- One quiet function after another. -/
theorem Quiet.trans (h : Quiet env s s') (h' : Quiet env s' s'') : Quiet env s s'' :=
  ⟨h.ctx.trans h'.ctx, h'.log.trans h.log, h.out.trans h'.out⟩

/-- A function that only sends messages is quiet. -/
theorem Mute.quiet (h : Mute s s') : Quiet env s s' :=
  ⟨h.ctx ▸ .refl _, h.log, h.out⟩

/-- Nothing happened to the seq. -/
theorem OnSeq.refl (s : Sys σ γ Sid) : OnSeq env q s s := ⟨.refl _, rfl, List.prefix_refl _⟩

/-- One function on the seq after another. -/
theorem OnSeq.trans (h : OnSeq env q s s') (h' : OnSeq env q s' s'') : OnSeq env q s s'' :=
  ⟨h.ctx.trans h'.ctx, h'.log.trans h.log, h.out.trans h'.out⟩

/-- A function that only sends messages touches no seq. -/
theorem Mute.onSeq (h : Mute s s') : OnSeq env q s s' :=
  ⟨h.ctx ▸ .refl _, h.log, h.out⟩

/-- A call that touches no KV. -/
theorem Silent.quiet {x : σ} (h : Silent env.be s.ctx x) : Quiet env s { s with ctx := x } :=
  ⟨h, rfl, List.prefix_refl _⟩

/-- Calls on one seq. -/
theorem SeqOps.onSeq {x : σ} (h : SeqOps env.be q s.ctx x) : OnSeq env q s { s with ctx := x } :=
  ⟨h, rfl, List.prefix_refl _⟩

end Rules

/-! ### Quiet functions -/

section QuietFunctions

variable (env : Env σ γ) (d : Data σ γ Sid) (s : Sys σ γ Sid) (r : Req Sid)

/-- Making a sampler. -/
theorem samplerFor_quiet (gen : GenOpts) : Quiet env s (samplerFor env s gen).2 := by
  unfold samplerFor
  split
  case h_1 f hf =>
    have hcall := Silent.samplerNew hf s.ctx gen.sampler
    split
    case h_1 ref ctx heq => rw [heq] at hcall; exact hcall.quiet
    case h_2 e ctx heq => rw [heq] at hcall; exact hcall.quiet
  case h_2 => exact .refl s

/-- Making a reference. -/
theorem newRequestRef_quiet (frm : From) : Quiet env s (newRequestRef s frm).2 :=
  ⟨.refl _, rfl, List.prefix_append _ _⟩

/-- Telling a caller of a failure. -/
theorem notifyFailure_mute (e : Err) : Mute s (notifyFailure s r e) := by
  unfold notifyFailure
  split
  · exact (mute_emit s _).trans (mute_emit _ _)
  · split
    · exact mute_emit s _
    · exact .refl s

/-- Releasing a sampler. -/
theorem releaseSampler_quiet : Quiet env s (releaseSampler env s r) := by
  unfold releaseSampler
  split
  case h_1 f ref hf _ => exact (Silent.samplerFree hf s.ctx ref).quiet
  case h_2 => exact .refl s

/-- A function that changes at most the speculator and calls nothing but silent callbacks. -/
structure QuietData (env : Env σ γ) (d d' : Data σ γ Sid) : Prop where
  quiet : Quiet env d.sys d'.sys
  eq : ∃ spec, d' = { withSys d d'.sys with spec := spec }

variable {env d} in
/-- Nothing happened. -/
theorem QuietData.refl : QuietData env d d := ⟨.refl _, d.spec, rfl⟩

variable {env d} in
/-- One quiet function after another. -/
theorem QuietData.trans {d' d'' : Data σ γ Sid} (h : QuietData env d d')
    (h' : QuietData env d' d'') : QuietData env d d'' := by
  obtain ⟨hq, spec, heq⟩ := h
  obtain ⟨hq', spec', heq'⟩ := h'
  refine ⟨hq.trans hq', spec', ?_⟩
  rw [heq', heq]
  rfl

variable {env d} in
/-- Replace the context by the outcome of a silent call. -/
theorem QuietData.ctx {x : σ} (h : Silent env.be d.sys.ctx x) :
    QuietData env d (withSys d { d.sys with ctx := x }) :=
  ⟨h.quiet, d.spec, rfl⟩

/-- Making a speculator. -/
theorem newSpecResource_quiet {cb : SpecCallbacks σ} (hcb : env.be.spec = some cb)
    (cfg : SpecCfg) : QuietData env d (newSpecResource env d cb cfg).2 := by
  have hcall := Silent.specNew hcb d.sys.ctx cfg env.cfg.nSeqMax
  unfold newSpecResource
  split
  case h_1 ref ctx heq => rw [heq] at hcall; exact ⟨hcall.quiet, some (cfg, ref), rfl⟩
  case h_2 e ctx heq => rw [heq] at hcall; exact .ctx hcall

/-- Finding one. -/
theorem ensureSpecResource_quiet {cb : SpecCallbacks σ} (hcb : env.be.spec = some cb)
    (cfg : SpecCfg) : QuietData env d (ensureSpecResource env d cb cfg).2 := by
  unfold ensureSpecResource
  split
  · exact newSpecResource_quiet env d hcb cfg
  case h_2 other ref _ =>
    split
    · exact .refl
    · split
      · exact .refl
      · have hfree : QuietData env d
            (withSys d { d.sys with ctx := cb.free d.sys.ctx ref }) :=
          .ctx (.specFree hcb d.sys.ctx ref)
        exact hfree.trans (newSpecResource_quiet env _ hcb cfg)

/-- The gates a speculative request passed. -/
theorem specGatesOk_cfg {r : Req Sid} (h : specGatesOk env d r = true) :
    env.cfg.recurrent = false ∧ env.cfg.hybrid = false := by
  unfold specGatesOk at h
  split at h
  · simp only [Bool.and_eq_true, Bool.not_eq_true', Bool.or_eq_false_iff] at h
    exact h.1.1.2
  · exact nomatch h

/-- What speculation may change about a request. -/
structure SameButSpec (env : Env σ γ) (r r' : Req Sid) : Prop where
  seqId : r'.seqId = r.seqId
  sessionId : r'.sessionId = r.sessionId
  media : r'.media = r.media
  mediaState : r'.mediaState = r.mediaState
  requestFp : r'.requestFp = r.requestFp
  promptTokens : r'.promptTokens = r.promptTokens
  scan : r'.scan = r.scan
  coldSaveSegments : r'.coldSaveSegments = r.coldSaveSegments
  gates : r'.spec.isSome → r.spec.isSome ∨ env.cfg.recurrent = false ∧ env.cfg.hybrid = false

/-- Setting up the speculation touches what speculates of the record, and no seq. -/
theorem setupSpec_quiet (opt : Option SpecOpt) :
    QuietData env d (setupSpec env d r opt).2 ∧ SameButSpec env r (setupSpec env d r opt).1 := by
  have hsame : SameButSpec env r r :=
    ⟨rfl, rfl, rfl, rfl, rfl, rfl, rfl, rfl, .inl⟩
  unfold setupSpec
  split
  case h_2 => exact ⟨.refl, hsame⟩
  case h_1 cb opt hcb =>
    split
    case isFalse => exact ⟨.refl, hsame⟩
    case isTrue hgates =>
      have hcfg := specGatesOk_cfg env d hgates
      have hens := ensureSpecResource_quiet env d hcb opt.normalize
      dsimp only
      split
      case h_2 => exact ⟨hens, hsame⟩
      case h_1 ref _ =>
        have hbegin := hens.trans (.ctx (.specBegin hcb
          (ensureSpecResource env d cb opt.normalize).2.sys.ctx ref r.seqId r.promptTokens))
        split
        · exact ⟨hbegin, rfl, rfl, rfl, rfl, rfl, rfl, rfl, rfl, fun _ => .inr hcfg⟩
        · exact ⟨hbegin, hsame⟩

/-- Telling the speculator what was accepted. -/
theorem specAccept_quiet (q : SeqId) (nAcc : Nat) :
    Quiet env d.sys (specAccept env d q nAcc) := by
  unfold specAccept
  split
  case h_1 cb cfg ref hcb _ => exact (Silent.specAccept hcb d.sys.ctx ref q nAcc).quiet
  case h_2 => exact .refl d.sys

end QuietFunctions

/-! ### Functions on one seq -/

section OnSeqFunctions

variable (env : Env σ γ) (d : Data σ γ Sid) (s : Sys σ γ Sid) (r : Req Sid) (q : SeqId)

/-- Releasing a seq. -/
theorem releaseSeq_onSeq : OnSeq env q s (releaseSeq env s q) := by
  unfold releaseSeq
  split
  case h_1 f hf => exact (SeqOps.rm hf s.ctx).onSeq
  case h_2 => exact .refl s

/-- Clearing it. -/
theorem backendSeqClear_onSeq : OnSeq env q s (backendSeqClear env s q) := by
  unfold backendSeqClear
  split
  case h_1 f hf => exact (SeqOps.rm hf s.ctx).onSeq
  case h_2 hrm =>
    split
    case h_1 f hf => exact (SeqOps.clear hrm hf s.ctx).onSeq
    case h_2 => exact .refl s

/-- Trimming it. -/
theorem backendSeqRmFrom_onSeq (pos : Nat) :
    OnSeq env q s (backendSeqRmFrom env s q pos).2 := by
  unfold backendSeqRmFrom
  split
  case h_1 f hf => exact (SeqOps.rmLast hf s.ctx (pos + 1)).onSeq
  case h_2 hrm =>
    split
    case h_1 f hf =>
      split
      · exact (SeqOps.rmLastSeq0 hrm hf s.ctx (pos + 1)).onSeq
      · exact .refl s
    case h_2 => exact .refl s

/-- Making room for the primer. -/
theorem warmRestorePrimer_onSeq (tokens : List Token) :
    OnSeq env q s (warmRestorePrimer env s q tokens).2 := by
  unfold warmRestorePrimer
  split
  · exact .refl s
  · exact backendSeqRmFrom_onSeq env s q _

/-- Unpacking a row into it. -/
theorem unpackRow_onSeq (key : CacheKey) (bin : Bytes) (tokensBin : Option TokensBin) :
    OnSeq env q s (unpackRow env s q key bin tokensBin).2 := by
  have hcall : SeqOps env.be q s.ctx (env.be.kvUnpack s.ctx bin q).2 := .unpack s.ctx bin
  unfold unpackRow
  split
  case h_1 ctx heq => rw [heq] at hcall; exact ⟨hcall, rfl, List.prefix_refl _⟩
  case h_2 e ctx heq =>
    rw [heq] at hcall
    have hunpack : OnSeq env q s { s with ctx := ctx } := hcall.onSeq
    exact hunpack.trans (backendSeqClear_onSeq env _ q)

/-- Loading one into it. -/
theorem pinAndLoad_onSeq (key : CacheKey) : OnSeq env q s (pinAndLoad env s q key).2 := by
  unfold pinAndLoad
  split
  case h_1 holder tier tokensBin world heq =>
    have hload : Mute s (loadPayload env { s with world := world } tier key).2 :=
      mute_world s _
    dsimp only
    split
    case h_1 bin _ =>
      have hrow := hload.onSeq.trans (unpackRow_onSeq env _ q key bin tokensBin)
      exact hrow.trans (mute_world _ _).onSeq
    case h_2 => exact hload.onSeq.trans (mute_world _ _).onSeq
  case h_2 => exact (mute_world s _).onSeq
  case h_3 => exact (mute_world s _).onSeq

/-- Pinning a prefix again touches no seq. -/
theorem maybeRepinPrefix_mute (key : CacheKey) (n : Nat) :
    Mute d.sys (maybeRepinPrefix env d r key n) := by
  unfold maybeRepinPrefix
  split
  · split
    · exact mute_world d.sys _
    · exact .refl _
  · exact .refl _

/-- Resuming at a prefix. -/
theorem resumeAtPrefix_onSeq (key : CacheKey) (n : Nat) (tokens : List Token) (bytes : Bytes) :
    OnSeq env r.seqId d.sys (resumeAtPrefix env d r key n tokens bytes).2 := by
  have hload := pinAndLoad_onSeq env d.sys r.seqId key
  unfold resumeAtPrefix
  dsimp only
  split
  · exact hload.trans (maybeRepinPrefix_mute env (withSys d _) r key n).onSeq
  · exact hload

/-- The longest prefix. -/
theorem tryLongestPrefix_onSeq (tokens : List Token) (bytes : Bytes) :
    OnSeq env r.seqId d.sys (tryLongestPrefix env d r tokens bytes).2 := by
  unfold tryLongestPrefix
  dsimp only
  split
  · exact (mute_world d.sys _).onSeq.trans (resumeAtPrefix_onSeq env (withSys d _) r _ _ _ _)
  · exact (mute_world d.sys _).onSeq

/-- Resuming on a parent, or falling through to the longest prefix. -/
theorem resumeSessionOrFallthrough_onSeq (tokens : List Token) (bytes : Bytes)
    (parent : List Token) :
    OnSeq env r.seqId d.sys (resumeSessionOrFallthrough env d r tokens bytes parent).2 := by
  unfold resumeSessionOrFallthrough
  dsimp only
  split
  · exact .refl _
  · exact tryLongestPrefix_onSeq env d r tokens bytes

/-- The lookup of the parent. -/
theorem trySessionResume_onSeq (tokens : List Token) (bytes : Bytes) (key : CacheKey) :
    OnSeq env r.seqId d.sys (trySessionResume env d r tokens bytes key).2 := by
  unfold trySessionResume
  dsimp only
  split
  · have hload : OnSeq env r.seqId d.sys
        (pinAndLoad env
          { d.sys with
            world := (env.cache.lookupExactOrWait d.sys.world key
              env.cfg.policy.sessionResumeWaitMs).2 } r.seqId key).2 :=
      (mute_world d.sys _).onSeq.trans (pinAndLoad_onSeq env _ r.seqId key)
    split
    · exact hload.trans (resumeSessionOrFallthrough_onSeq env (withSys d _) r tokens bytes _)
    · exact hload.trans (tryLongestPrefix_onSeq env (withSys d _) r tokens bytes)
  · exact (mute_world d.sys _).onSeq.trans (tryLongestPrefix_onSeq env (withSys d _) r tokens bytes)

/-- The whole lookup touches the seq of its request alone. -/
theorem lookupOrResume_onSeq (tokens : List Token) (parentKey : Option CacheKey) :
    OnSeq env r.seqId d.sys (lookupOrResume env d r tokens parentKey).2 := by
  have hload := fun key => pinAndLoad_onSeq env d.sys r.seqId key
  unfold lookupOrResume
  dsimp only
  split
  · exact hload _
  · split
    · exact (hload _).trans (trySessionResume_onSeq env (withSys d _) r tokens _ _)
    · exact (hload _).trans (tryLongestPrefix_onSeq env (withSys d _) r tokens _)

/-! ### Admission -/

/-- What an admission path keeps of its request. -/
structure SameRequest (r r' : Req Sid) : Prop where
  seqId : r'.seqId = r.seqId
  sessionId : r'.sessionId = r.sessionId
  media : r'.media = r.media
  mediaState : r'.mediaState = r.mediaState
  requestFp : r'.requestFp = r.requestFp
  spec : r'.spec = r.spec

/-- One change of a record after another. -/
theorem SameRequest.trans {r r' r'' : Req Sid} (h : SameRequest r r') (h' : SameRequest r' r'') :
    SameRequest r r'' :=
  ⟨h'.seqId.trans h.seqId, h'.sessionId.trans h.sessionId, h'.media.trans h.media,
    h'.mediaState.trans h.mediaState, h'.requestFp.trans h.requestFp, h'.spec.trans h.spec⟩

/-- What an admission path does: it works on the request's seq alone. -/
structure Admits (env : Env σ γ) (r : Req Sid) (s : Sys σ γ Sid)
    (res : Req Sid × Sys σ γ Sid) : Prop where
  same : SameRequest r res.1
  onSeq : OnSeq env r.seqId s res.2

/-- The cold path. -/
theorem setupCold_admits : Admits env r d.sys (setupCold env d r) :=
  ⟨⟨rfl, rfl, rfl, rfl, rfl, rfl⟩, backendSeqClear_onSeq env d.sys r.seqId⟩

/-- After work on the seq, an admission path from there is one from the start. -/
theorem Admits.after {s : Sys σ γ Sid} {res : Req Sid × Sys σ γ Sid}
    (h : OnSeq env r.seqId d.sys s) (h' : Admits env r s res) : Admits env r d.sys res :=
  ⟨h'.same, h.trans h'.onSeq⟩

/-- The path of a full hit. -/
theorem resumeFull_admits (context : List Token) (kind : HitKind) :
    Admits env r d.sys (resumeFull env d r context kind) := by
  have htrim := warmRestorePrimer_onSeq env d.sys r.seqId context
  unfold resumeFull
  dsimp only
  split
  · exact ⟨⟨rfl, rfl, rfl, rfl, rfl, rfl⟩, htrim⟩
  · exact .after env d r htrim (setupCold_admits env (withSys d _) r)

/-- The path of a warm hit. -/
theorem setupWarm_admits (w : Warm) : Admits env r d.sys (setupWarm env d r w) := by
  unfold setupWarm
  split
  · exact resumeFull_admits env d r w.context w.kind
  · exact ⟨⟨rfl, rfl, rfl, rfl, rfl, rfl⟩, .refl _⟩

/-- The path of a lookup. -/
theorem setupLookup_admits (parentKey : Option CacheKey) :
    Admits env r d.sys (setupLookup env d r parentKey) := by
  have hlookup := lookupOrResume_onSeq env d r r.promptTokens parentKey
  unfold setupLookup
  dsimp only
  split
  · exact .after env d r hlookup (setupWarm_admits env (withSys d _) r _)
  · exact .after env d r hlookup (setupCold_admits env (withSys d _) r)

/-- **An admission works on its own seq alone.** -/
theorem setupAdmissionPath_admits (mode : AdmitMode) (prompt : List Token) (opts : LookupOpts) :
    Admits env r d.sys (setupAdmissionPath env d r mode prompt opts) := by
  unfold setupAdmissionPath
  split
  case h_1 =>
    have h := setupLookup_admits env d
      { r with prefixCheckpointLen := opts.prefixCheckpointLen } opts.parentKey
    have hsame : SameRequest r { r with prefixCheckpointLen := opts.prefixCheckpointLen } :=
      ⟨rfl, rfl, rfl, rfl, rfl, rfl⟩
    exact ⟨hsame.trans h.same, h.onSeq⟩
  case h_2 stored => exact ⟨⟨rfl, rfl, rfl, rfl, rfl, rfl⟩, .refl _⟩
  case h_3 stored => exact ⟨⟨rfl, rfl, rfl, rfl, rfl, rfl⟩, .refl _⟩
  case h_4 len =>
    dsimp only
    split
    · exact resumeFull_admits env d r _ _
    · have htrim := backendSeqRmFrom_onSeq env d.sys r.seqId len
      split
      · exact ⟨⟨rfl, rfl, rfl, rfl, rfl, rfl⟩, htrim⟩
      · exact .after env d r htrim (setupCold_admits env (withSys d _) r)

end OnSeqFunctions

end Erllama.Model
