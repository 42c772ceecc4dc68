import Erllama.Model.Wellformed

namespace Erllama.Model

open Lib

/-!
# Moves and adapters

What is installed on the context is changed by the three adapter operations and by a recovery,
which opens a fresh context.  Every other move leaves it alone, and the process's adapter list
with it.

* `CtxView` — something of the context that the other callbacks leave alone.
* `SameView` — it and the process's record of the adapters are as before.
* `AdapterMove` — what a move does to the adapters (`Move.adapterMove`).
-/

variable {σ γ Sid : Type}

/-- Something of a context that no call changes but the adapter calls and those that open a
    fresh context. -/
structure CtxView (be : Backend σ) (α : Type) where
  view : σ → α
  silent : ∀ {x y}, Silent be x y → view y = view x
  seqOps : ∀ {q x y}, SeqOps be q x y → view y = view x
  seqCp : ∀ {f}, be.seqCp = some f → ∀ x src dst, view (f x src dst).2 = view x
  step : ∀ x ops, view (be.step x ops).2 = view x
  specStep : ∀ {cb}, be.spec = some cb → ∀ x sampler q draft,
    view (cb.step x sampler q draft).2 = view x
  prefill : ∀ {cb}, be.media = some cb → ∀ x prompt items q special,
    view (cb.prefill x prompt items q special).2 = view x
  inspect : ∀ {x y}, Inspects be x y → view y = view x

variable {env : Env σ γ} {α : Type}

/-- Neither what is seen of the context nor the process's record of its adapters changed. -/
structure SameView (V : CtxView env.be α) (d d' : Data σ γ Sid) : Prop where
  view : V.view d'.sys.ctx = V.view d.sys.ctx
  effectiveFp : d'.effectiveFp = d.effectiveFp
  adapters : d'.adapters = d.adapters

/-- One function after another. -/
theorem SameView.trans {V : CtxView env.be α} {d d' d'' : Data σ γ Sid}
    (h : SameView V d d') (h' : SameView V d' d'') : SameView V d d'' :=
  ⟨h'.view.trans h.view, h'.effectiveFp.trans h.effectiveFp, h'.adapters.trans h.adapters⟩

variable (V : CtxView env.be α)

/-- A quiet function leaves the view. -/
theorem Quiet.view {s s' : Sys σ γ Sid} (h : Quiet env s s') : V.view s'.ctx = V.view s.ctx :=
  V.silent h.ctx

/-- So does a function on one seq. -/
theorem OnSeq.view {q : SeqId} {s s' : Sys σ γ Sid} (h : OnSeq env q s s') :
    V.view s'.ctx = V.view s.ctx :=
  V.seqOps h.ctx

/-- So does failing a request. -/
theorem failRequest_view (s : Sys σ γ Sid) (r : Req Sid) (e : Err) :
    V.view (failRequest env s r e).ctx = V.view s.ctx := by
  have hmute : Quiet env s (notifyFailure s r e) := (notifyFailure_mute s r e).quiet
  have hsampler := releaseSampler_quiet env (notifyFailure s r e) r
  have hseq := releaseSeq_onSeq env (releaseSampler env (notifyFailure s r e) r) r.seqId
  exact (hseq.view V).trans ((hsampler.view V).trans (hmute.view V))

variable (env) in
/-- Results change neither context nor adapters. -/
theorem applyStepResults_same (pairs : List ResultPair) (d : Data σ γ Sid) :
    (applyStepResults env pairs d).2.sys.ctx = d.sys.ctx ∧
      (applyStepResults env pairs d).2.effectiveFp = d.effectiveFp ∧
      (applyStepResults env pairs d).2.adapters = d.adapters := by
  induction pairs generalizing d with
  | nil => exact ⟨rfl, rfl, rfl⟩
  | cons pair pairs ih =>
    obtain ⟨⟨q, op⟩, res⟩ := pair
    unfold applyStepResults
    split
    case h_1 => exact ⟨rfl, rfl, rfl⟩
    case h_2 r hr =>
      split
      case h_1 => exact ⟨rfl, rfl, rfl⟩
      case h_2 r' s hres =>
        obtain ⟨hctx, hfp, hadapters⟩ := ih (putReq (withSys d s) r')
        have happ := stepResult_applies env d r hres
        exact ⟨hctx.trans happ.fires.ctx, hfp, hadapters⟩

variable (env) in
/-- Nor do committed tokens. -/
theorem applySpecCommitted_same (q : SeqId) (eog : Bool) (tokens : List Token)
    (d : Data σ γ Sid) :
    (applySpecCommitted env q eog tokens d).2.sys.ctx = d.sys.ctx ∧
      (applySpecCommitted env q eog tokens d).2.effectiveFp = d.effectiveFp ∧
      (applySpecCommitted env q eog tokens d).2.adapters = d.adapters := by
  induction tokens generalizing d with
  | nil => exact ⟨rfl, rfl, rfl⟩
  | cons tok rest ih =>
    unfold applySpecCommitted
    split
    case h_1 => exact ⟨rfl, rfl, rfl⟩
    case h_2 r hr =>
      split
      · exact ⟨rfl, rfl, rfl⟩
      · have happ := tokenResult_applies env d r tok (if rest = [] then eog else false)
        obtain ⟨hctx, hfp, hadapters⟩ := ih _
        exact ⟨hctx.trans happ.fires.ctx, hfp, hadapters⟩

/-- Nor does counting drafts. -/
theorem specRecordFeedback_sameView (d : Data σ γ Sid) (q : SeqId) (n m : Nat) :
    SameView V d (specRecordFeedback env d q n m) := by
  have hquiet := specAccept_quiet env d q m
  unfold specRecordFeedback
  dsimp only
  split <;> exact ⟨hquiet.view V, rfl, rfl⟩

/-- Trimming the overshoot leaves the view. -/
theorem specTrimOvershoot_sameView (d : Data σ γ Sid) (q : SeqId) :
    SameView V d (specTrimOvershoot env d q) := by
  unfold specTrimOvershoot
  split
  · exact ⟨rfl, rfl, rfl⟩
  · exact ⟨(backendSeqRmFrom_onSeq env d.sys q _).view V, rfl, rfl⟩

/-- So does the result of a speculative step. -/
theorem commitSpec_sameView {d d' : Data σ γ Sid} {q : SeqId} {draft : List Token}
    {res : SpecResult} (h : commitSpec env d q draft res = .stepped d') :
    SameView V d d' := by
  obtain ⟨hctx, hfp, hadapters⟩ := applySpecCommitted_same env q res.eog res.committed d
  have hcommit : SameView V d (applySpecCommitted env q res.eog res.committed d).2 :=
    ⟨by rw [hctx], hfp, hadapters⟩
  unfold commitSpec at h
  dsimp only at h
  split at h
  case h_1 => exact nomatch h
  case h_2 leftover _ =>
    cases h
    refine hcommit.trans ?_
    split
    · exact specRecordFeedback_sameView V _ q _ _
    · exact (specTrimOvershoot_sameView V _ q).trans
        (specRecordFeedback_sameView V _ q _ _)

variable [LinearOrder Sid]

/-- So does finishing a request. -/
theorem finishReq_sameView (d : Data σ γ Sid) (r : Req Sid) :
    SameView V d (finishReq env d r) := by
  have hsave := (finishSave_fires env d r).2.1.ctx
  have hannounce : V.view (announceFinish env d r).ctx = V.view d.sys.ctx := by
    rw [(announceFinish_quiet d r).view V, hsave]
  unfold finishReq releaseOrPinSeq
  split
  · exact ⟨((releaseSeq_onSeq env _ _).view V).trans hannounce, rfl, rfl⟩
  · exact ⟨hannounce, rfl, rfl⟩

/-- What a move does to the adapters. -/
inductive AdapterMove (env : Env σ γ) (G : Guard σ γ Sid) (V : CtxView env.be α)
    (d : Data σ γ Sid) : Data σ γ Sid → Prop
  | same {d'} (h : SameView V d d') : AdapterMove env G V d d'
  | load {path file} (hG : G.load d path file) :
    AdapterMove env G V d (loadAdapter env d path file).2
  | unload {handle} (hG : G.unload d handle) :
    AdapterMove env G V d (unloadAdapter env d handle).2
  | scale {handle scale} (hG : G.scale d handle scale) :
    AdapterMove env G V d (setAdapterScale env d handle scale).2
  | recover {s : Sys σ γ Sid} {f y} (hf : env.be.resetContext = some f)
      (hreset : f y = (.ok (), s.ctx)) (hG : G.recover d.adapters) :
    AdapterMove env G V d (resetAfterRecovery env (withSys d s))

/-- **Every move** changes the adapters through an adapter operation or a recovery, if at all. -/
theorem Move.adapterMove (V : CtxView env.be α) {G : Guard σ γ Sid} {d d' : Data σ γ Sid}
    (h : Move env G d d') : AdapterMove env G V d d' := by
  cases h with
  | sys h => exact .same ⟨h.view V, rfl, rfl⟩
  | start hidle hq hr prompt hG =>
    exact .same ⟨(setupAdmissionPath_admits env _ _ _ _ _).onSeq.view V, rfl, rfl⟩
  | resume hs hfree hq hsid hr hmode lookup hG =>
    exact .same ⟨(setupAdmissionPath_admits env _ _ _ _ _).onSeq.view V, rfl, rfl⟩
  -- The callbacks that touch no adapter.
  | @results _ ops results x pairs hops hstep hpairs hG happ =>
    obtain ⟨hctx, hfp, hadapters⟩ := applyStepResults_same env pairs (withCtx d x)
    rw [happ] at hctx hfp hadapters
    have hview := V.step d.sys.ctx ops
    rw [hstep] at hview
    exact .same ⟨by rw [hctx]; exact hview, hfp, hadapters⟩
  | @spec _ cb sampler q r draft res x hcb h hspec hstep hG hcommit =>
    have hview := V.specStep hcb d.sys.ctx sampler q draft
    rw [hstep] at hview
    have hcall : SameView V d (withCtx d x) := ⟨hview, rfl, rfl⟩
    exact .same (hcall.trans (commitSpec_sameView V hcommit))
  | @mediaDone cb q r n x hcb h hpending hcall hG =>
    have hview := V.prefill hcb d.sys.ctx r.mediaPrompt (r.media.getD []) q r.mediaAddSpecial
    rw [hcall] at hview
    exact .same ⟨hview, rfl, rfl⟩
  | @mediaFailed cb q r e x hcb h hpending hcall =>
    have hview := V.prefill hcb d.sys.ctx r.mediaPrompt (r.media.getD []) q r.mediaAddSpecial
    rw [hcall] at hview
    exact .same ⟨(failRequest_view V (withCtx d x).sys r (.mediaFailed e)).trans hview, rfl, rfl⟩
  | @finish q r h hG => exact .same (finishReq_sameView V d r)
  | drop hs hfree => exact .same ⟨(releaseSeq_onSeq env _ _).view V, rfl, rfl⟩
  | @fork src new s q rest seqCp x hs hfree hnew hidle hcp hcopy =>
    have hview := V.seqCp hcp d.sys.ctx s.seqId q
    rw [hcopy] at hview
    exact .same ⟨hview, rfl, rfl⟩
  | @forkFailed src s q rest seqCp e x hs hidle hcp hcopy =>
    have hview := V.seqCp hcp d.sys.ctx s.seqId q
    rw [hcopy] at hview
    exact .same ⟨hview, rfl, rfl⟩
  -- The KV goes, and the adapters stay.
  | @reset sid s hs =>
    rw [resetSessionSeq_eq hs]
    rcases failInflightForSeq_table env d s.seqId .engineReset with ⟨s', hquiet, heq⟩ | ⟨-, heq⟩
    · rw [heq]
      exact .same ⟨((releaseSeq_onSeq env _ _).view V).trans (hquiet.view V), rfl, rfl⟩
    · rw [heq]
      exact .same ⟨(releaseSeq_onSeq env _ _).view V, rfl, rfl⟩
  | @evict q r h hG reason hreason =>
    unfold fireSaveForReq
    split
    · exact .same ⟨rfl, rfl, rfl⟩
    · have hctx := (fireSaveIf_fires env d r true reason r.contextTokens).ctx
      refine .same ⟨?_, rfl, rfl⟩
      show V.view (fireSaveIf env d true reason r.contextTokens r).2.ctx = _
      rw [hctx]
  -- The four that may touch an adapter.
  | load hG => exact .load hG
  | unload hG => exact .unload hG
  | scale hG => exact .scale hG
  | inspect h hG => exact .same ⟨V.inspect h, rfl, rfl⟩
  | recover hlog hout hf hreset hG => exact .recover hf hreset hG
  | _ => exact .same ⟨rfl, rfl, rfl⟩

end Erllama.Model
