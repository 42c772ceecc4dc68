import Erllama.Model.Context

namespace Erllama.Model

open Lib

/-!
# The moves of the process

Everything the process does to its table, its pool, its sessions and its saves is one of the
moves below; what it does besides is silent.  An invariant of the process is an invariant of
the moves, proved once for each of them.

* `Guard` — side conditions on the moves, for the results that hold of some runs only.
* `Move`, `Moves` — one move, and any number.
* `Halt` — what happens between the last move and a stop.
-/

variable {σ γ Sid : Type}

/-- Side conditions on moves. -/
structure Guard (σ γ Sid : Type) where
  /-- Keeping a request queued. -/
  enqueue : Item Sid → Prop
  /-- Starting a text request on a fresh seq. -/
  start : Data σ γ Sid → Req Sid → LookupOpts → Prop
  /-- Starting a media request. -/
  startMedia : Data σ γ Sid → Req Sid → Prop
  /-- Starting a request on its session's pinned seq. -/
  resume : Data σ γ Sid → Req Sid → Prop
  /-- Applying the results of a step. -/
  results : Data σ γ Sid → List ResultPair → Prop
  /-- Committing the result of a speculative step. -/
  commit : Data σ γ Sid → SeqId → SpecResult → Prop
  /-- Prefilling a media request. -/
  prefill : Data σ γ Sid → Req Sid → Prop
  /-- Finishing a request. -/
  finish : Data σ γ Sid → Req Sid → Prop
  /-- Saving a request on the operator's behalf. -/
  evict : Req Sid → Prop
  /-- Recovering on a fresh context with the given adapters attached. -/
  recover : List Adapter → Prop
  /-- A verify or embed call on the live context. -/
  inspect : Data σ γ Sid → Prop
  /-- Copying a seq of the context into another. -/
  fork : σ → SeqId → SeqId → Prop
  /-- Loading, unloading and scaling an adapter. -/
  load : Data σ γ Sid → Path → Option Bytes → Prop
  unload : Data σ γ Sid → Ref → Prop
  scale : Data σ γ Sid → Ref → ℚ → Prop

/-- No side conditions. -/
def Guard.free : Guard σ γ Sid where
  enqueue := fun _ => True
  start := fun _ _ _ => True
  startMedia := fun _ _ => True
  resume := fun _ _ => True
  results := fun _ _ => True
  commit := fun _ _ _ => True
  prefill := fun _ _ => True
  finish := fun _ _ => True
  evict := fun _ => True
  recover := fun _ => True
  inspect := fun _ => True
  fork := fun _ _ _ => True
  load := fun _ _ _ => True
  unload := fun _ _ => True
  scale := fun _ _ _ => True

/-- A text request as it is before its admission path. -/
structure FreshReq (env : Env σ γ) (d : Data σ γ Sid) (r : Req Sid) : Prop where
  media : r.media = none
  mediaState : r.mediaState = none
  requestFp : r.requestFp = some d.effectiveFp
  gates : r.spec.isSome → env.cfg.recurrent = false ∧ env.cfg.hybrid = false
  unbegun : r.Unbegun

/-- A media request as it is admitted. -/
structure FreshMedia (d : Data σ γ Sid) (r : Req Sid) : Prop where
  media : r.media.isSome
  sessionId : r.sessionId = none
  coldSaveSegments : r.coldSaveSegments = none
  prefillCursor : r.prefillCursor = none
  contextTokens : r.contextTokens = []
  spec : r.spec = none
  requestFp : r.requestFp = some d.effectiveFp
  unbegun : r.Unbegun

/-- The mode resumes a pinned seq that holds `stored`. -/
def ResumesOn (stored prompt : List Token) : AdmitMode → Prop
  | .normal            => False
  | .sticky tokens     => tokens = stored
  | .continue tokens   => tokens = stored
  | .stickyPartial len => len = commonPrefixLen stored prompt ∧ 0 < len

/-- The rows of a step are for different in-flight requests. -/
structure OpsFit (d : Data σ γ Sid) (ops : List (SeqId × Op)) : Prop where
  nodup : (ops.map Prod.fst).Nodup
  inTable : ∀ p ∈ ops, ∃ r, d.reqTable.lookup p.1 = some r

/-- Verify and embed calls. -/
inductive Inspects (be : Backend σ) : σ → σ → Prop
  | verify {f} (h : be.verify = some f) (x : σ) (pre cands : List Token) (k : Nat) :
    Inspects be x (f x pre cands k).2
  | embed {f} (h : be.embed = some f) (x : σ) (tokens : List Token) : Inspects be x (f x tokens).2

/-- Run the admission path of a request and put it in the table. -/
def admitOn (env : Env σ γ) (d : Data σ γ Sid) (r : Req Sid) (mode : AdmitMode)
    (prompt : List Token) (lookup : LookupOpts) : Data σ γ Sid :=
  let res := setupAdmissionPath env d r mode prompt lookup
  putReq (withSys d res.2) res.1

/-- The system after a call that returned the context `x`. -/
def withCtx (d : Data σ γ Sid) (x : σ) : Data σ γ Sid := withSys d { d.sys with ctx := x }

variable [LinearOrder Sid]

/-- **The moves.** -/
inductive Move (env : Env σ γ) (G : Guard σ γ Sid) : Data σ γ Sid → Data σ γ Sid → Prop
  | sys {d s} (h : Quiet env d.sys s) : Move env G d (withSys d s)
  | other {d : Data σ γ Sid} {pending : List (Item Sid)}
      (hG : ∀ item ∈ pending, item ∈ d.pending ∨ G.enqueue item)
      (spec : Option (SpecCfg × Ref)) : Move env G d { d with pending := pending, spec := spec }
  | start {d : Data σ γ Sid} {q rest r lookup} (hidle : d.idleSeqIds = q :: rest)
      (hq : r.seqId = q) (hr : FreshReq env d r) (prompt : List Token)
      (hG : G.start { d with idleSeqIds := rest } r lookup) :
    Move env G d (admitOn env { d with idleSeqIds := rest } r .normal prompt lookup)
  | startMedia {d : Data σ γ Sid} {q rest r} (hidle : d.idleSeqIds = q :: rest)
      (hq : r.seqId = q) (hr : FreshMedia d r)
      (hG : G.startMedia { d with idleSeqIds := rest } r) :
    Move env G d (putReq { d with idleSeqIds := rest } r)
  | resume {d sid s r mode prompt} (hs : d.sessionSeq.lookup sid = some s)
      (hfree : d.reqTable.lookup s.seqId = none) (hq : r.seqId = s.seqId)
      (hsid : r.sessionId = some sid) (hr : FreshReq env d r)
      (hmode : ResumesOn s.tokens prompt mode) (lookup : LookupOpts) (hG : G.resume d r) :
    Move env G d (admitOn env d r mode prompt lookup)
  | update {d q r₀ r} (h : d.reqTable.lookup q = some r₀) (hcore : SameCore r₀ r)
      (hlife : LifeStep env r₀ .start r) : Move env G d (putReq d r)
  | results {d d' ops results x pairs} (hops : OpsFit d ops)
      (hstep : env.be.step d.sys.ctx ops = (.ok results, x))
      (hpairs : pairOpsWithResults ops results = some pairs)
      (hG : G.results (withCtx d x) pairs)
      (happ : applyStepResults env pairs (withCtx d x) = (true, d')) : Move env G d d'
  | spec {d d' cb sampler q r draft res x} (hcb : env.be.spec = some cb)
      (h : d.reqTable.lookup q = some r) (hspec : r.spec.isSome)
      (hstep : cb.step d.sys.ctx sampler q draft = (.ok res, x))
      (hG : G.commit (withCtx d x) q res)
      (hcommit : commitSpec env (withCtx d x) q draft res = .stepped d') : Move env G d d'
  | mediaDone {d cb q r n x} (hcb : env.be.media = some cb) (h : d.reqTable.lookup q = some r)
      (hpending : r.mediaState = some .pending)
      (hcall : cb.prefill d.sys.ctx r.mediaPrompt (r.media.getD []) q r.mediaAddSpecial
        = (.ok n, x)) (hG : G.prefill d r) :
    Move env G d (putReq (withCtx d x)
      { r with mediaState := some .done, mediaNTokens := n.1, mediaNPos := n.2 })
  | mediaFailed {d cb q r e x} (hcb : env.be.media = some cb)
      (h : d.reqTable.lookup q = some r) (hpending : r.mediaState = some .pending)
      (hcall : cb.prefill d.sys.ctx r.mediaPrompt (r.media.getD []) q r.mediaAddSpecial
        = (.error e, x)) :
    Move env G d (failMediaReq env (withCtx d x) r (.mediaFailed e))
  | finish {d q r} (h : d.reqTable.lookup q = some r) (hG : G.finish d r) :
    Move env G d (finishReq env d r)
  | drop {d sid s} (hs : d.sessionSeq.lookup sid = some s)
      (hfree : d.reqTable.lookup s.seqId = none) :
    Move env G d (unpin (withSys d (releaseSeq env d.sys s.seqId)) sid s.seqId)
  | fork {d : Data σ γ Sid} {src new s q rest seqCp x} (hs : d.sessionSeq.lookup src = some s)
      (hfree : d.reqTable.lookup s.seqId = none) (hnew : d.sessionSeq.lookup new = none)
      (hidle : d.idleSeqIds = q :: rest) (hcp : env.be.seqCp = some seqCp)
      (hcopy : seqCp d.sys.ctx s.seqId q = (.ok (), x)) (hG : G.fork d.sys.ctx s.seqId q) :
    Move env G d (pin env { withCtx d x with idleSeqIds := rest } new q s.tokens)
  | forkFailed {d : Data σ γ Sid} {src s q rest seqCp e x}
      (hs : d.sessionSeq.lookup src = some s) (hidle : d.idleSeqIds = q :: rest)
      (hcp : env.be.seqCp = some seqCp)
      (hcopy : seqCp d.sys.ctx s.seqId q = (.error e, x)) : Move env G d (withCtx d x)
  | reset {d sid s} (hs : d.sessionSeq.lookup sid = some s) :
    Move env G d (resetSessionSeq env d sid).2
  | evict {d q r} (h : d.reqTable.lookup q = some r) (hG : G.evict r) {reason}
      (hreason : reason = .evict ∨ reason = .shutdown) :
    Move env G d (fireSaveForReq env d reason r)
  | load {d path file} (hG : G.load d path file) : Move env G d (loadAdapter env d path file).2
  | unload {d handle} (hG : G.unload d handle) : Move env G d (unloadAdapter env d handle).2
  | scale {d handle scale} (hG : G.scale d handle scale) :
    Move env G d (setAdapterScale env d handle scale).2
  | inspect {d x} (h : Inspects env.be d.sys.ctx x) (hG : G.inspect d) :
    Move env G d (withCtx d x)
  | recover {d : Data σ γ Sid} {s : Sys σ γ Sid} {f y} (hlog : s.log = d.sys.log)
      (hout : d.sys.out <+: s.out) (hf : env.be.resetContext = some f)
      (hreset : f y = (.ok (), s.ctx)) (hG : G.recover d.adapters) :
    Move env G d (resetAfterRecovery env (withSys d s))

/-- Any number of moves. -/
abbrev Moves (env : Env σ γ) (G : Guard σ γ Sid) : Data σ γ Sid → Data σ γ Sid → Prop :=
  Relation.ReflTransGen (Move env G)

/-- What a stopping process did after its last move: at most apply results, then nothing that
    saves. -/
inductive Halt (env : Env σ γ) (G : Guard σ γ Sid) : Data σ γ Sid → Data σ γ Sid → Prop
  | sys {d s} (h : s.log = d.sys.log) : Halt env G d (withSys d s)
  | results {d d' ops results x pairs} (hops : OpsFit d ops)
      (hstep : env.be.step d.sys.ctx ops = (.ok results, x))
      (hpairs : pairOpsWithResults ops results = some pairs)
      (hG : G.results (withCtx d x) pairs)
      (happ : applyStepResults env pairs (withCtx d x) = (false, d')) : Halt env G d d'

/-- One event of the process in terms of moves. -/
inductive Steps (env : Env σ γ) (G : Guard σ γ Sid) (p : Proc σ γ Sid) : Proc σ γ Sid → Prop
  | live {p'} (h : Moves env G p.data p'.data) : Steps env G p p'
  | halted {d d'} (h : Moves env G p.data d) (h' : Halt env G d d') :
    Steps env G p ⟨.stopped, d'⟩

end Erllama.Model
