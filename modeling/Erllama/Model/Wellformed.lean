import Erllama.Model.Moves

namespace Erllama.Model

open Lib

/-!
# Well-formed processes

* `Wf` — every request sits under its own seq and is well formed, and the pool is sound.
* `Move.pool` — a move is a number of pool steps, or a recovery, which frees every seq.
* `Moves.wf` — the moves keep `Wf`.
-/

variable {σ γ Sid : Type} {env : Env σ γ} {G : Guard σ γ Sid}

/-- Every request sits under its own seq and is well formed. -/
def TableWf (env : Env σ γ) (d : Data σ γ Sid) : Prop :=
  ∀ q r, d.reqTable.lookup q = some r → r.seqId = q ∧ ReqWf env r

/-- A well-formed record is under its seq. -/
theorem TableWf.keysMatch {d : Data σ γ Sid} (h : TableWf env d) : KeysMatch d.reqTable :=
  fun q r hr => (h q r hr).1

/-- A well-formed record may be put in. -/
theorem TableWf.putReq {d : Data σ γ Sid} (h : TableWf env d) {r : Req Sid}
    (hr : ReqWf env r) : TableWf env (putReq d r) := by
  intro q r' hr'
  rw [lookup_putReq] at hr'
  split at hr'
  case isTrue heq =>
    cases hr'
    exact ⟨heq.symm, hr⟩
  case isFalse => exact h q r' hr'

/-- Any record may be taken out. -/
theorem TableWf.removeReq {d : Data σ γ Sid} (h : TableWf env d) (q : SeqId) :
    TableWf env (removeReq d q) := by
  intro q' r hr
  rw [lookup_removeReq] at hr
  split at hr
  · exact nomatch hr
  · exact h q' r hr

/-! ### Requests that enter the table -/

/-- A fresh text request is well formed whatever its admission path made of its context. -/
theorem FreshReq.wf {d : Data σ γ Sid} {r r' : Req Sid} (h : FreshReq env d r)
    (hs : SameRequest r r') : ReqWf env r' := by
  have hmedia : r'.media = none := hs.media.trans h.media
  have hstate : r'.mediaState = none := hs.mediaState.trans h.mediaState
  have hno : ∀ {P : Prop}, r'.media.isSome → P := by
    intro P hm
    rw [hmedia] at hm
    exact nomatch hm
  refine ⟨?_, hno, hno, hno, hno, ?_⟩
  · intro hsome
    rw [hstate] at hsome
    exact nomatch hsome
  · intro hspec
    rw [hs.spec] at hspec
    exact h.gates hspec

/-- A fresh media request is well formed. -/
theorem FreshMedia.wf {d : Data σ γ Sid} {r : Req Sid} (h : FreshMedia d r) : ReqWf env r where
  media_of_state := fun _ => h.media
  sessionId_of_media := fun _ => h.sessionId
  ladder_of_media := fun _ => h.coldSaveSegments
  cursor_of_media := fun _ => h.prefillCursor
  spec_of_media := fun _ => h.spec
  gates_of_spec := fun hs => by rw [h.spec] at hs; exact nomatch hs

/-- A result keeps its request well formed. -/
theorem Applies.wf {d : Data σ γ Sid} {r : Req Sid} {tokens : List Token}
    {res : Req Sid × Sys σ γ Sid} (h : Applies env d r tokens res) (hr : ReqWf env r) :
    ReqWf env res.1 :=
  h.ident.wf hr fun hm => by
    have hm' : r.media.isSome := h.ident.media ▸ hm
    exact h.cursor (hr.ladder_of_media hm') (hr.cursor_of_media hm')

/-- The table after the record of a request was replaced by a well-formed one with its seq and
    session. -/
structure Refreshes (env : Env σ γ) [DecidableEq Sid] (d d' : Data σ γ Sid) : Prop where
  table : TableWf env d'
  pool : pool d' = pool d
  pending : d'.pending = d.pending

/-- Nothing was replaced. -/
theorem Refreshes.refl [DecidableEq Sid] {d : Data σ γ Sid} (h : TableWf env d) :
    Refreshes env d d := ⟨h, rfl, rfl⟩

/-- One replacement after another. -/
theorem Refreshes.trans [DecidableEq Sid] {d d' d'' : Data σ γ Sid} (h : Refreshes env d d')
    (h' : Refreshes env d' d'') : Refreshes env d d'' :=
  ⟨h'.table, h'.pool.trans h.pool, h'.pending.trans h.pending⟩

/-- The record of a request is replaced. -/
theorem refreshes_putReq [DecidableEq Sid] {d : Data σ γ Sid} {q : SeqId} {r₀ r : Req Sid}
    (hd : TableWf env d) (h : d.reqTable.lookup q = some r₀) (hident : SameIdent r₀ r)
    (hr : ReqWf env r) (s : Sys σ γ Sid) : Refreshes env d (putReq (withSys d s) r) := by
  have hwf : TableWf env (withSys d s) := hd
  refine ⟨hwf.putReq hr, ?_, rfl⟩
  have hq : r.seqId = q := hident.seqId.trans (hd q r₀ h).1
  exact pool_putReq_of_same (d := withSys d s) h hq hident.sessionId

/-! ### Applying results -/

variable (env) in
/-- Results replace the records of their requests. -/
theorem applyStepResults_refreshes [DecidableEq Sid] (pairs : List ResultPair)
    {d : Data σ γ Sid} (hd : TableWf env d) :
    Refreshes env d (applyStepResults env pairs d).2 := by
  induction pairs generalizing d with
  | nil => exact .refl hd
  | cons pair pairs ih =>
    obtain ⟨⟨q, op⟩, res⟩ := pair
    unfold applyStepResults
    split
    case h_1 => exact .refl hd
    case h_2 r hr =>
      split
      case h_1 => exact .refl hd
      case h_2 r' s hres =>
        have happ := stepResult_applies env d r hres
        have hput := refreshes_putReq hd hr happ.ident (happ.wf (hd q r hr).2) s
        exact hput.trans (ih hput.table)

variable (env) in
/-- So do committed tokens. -/
theorem applySpecCommitted_refreshes [DecidableEq Sid] (q : SeqId) (eog : Bool)
    (tokens : List Token) {d : Data σ γ Sid} (hd : TableWf env d) :
    Refreshes env d (applySpecCommitted env q eog tokens d).2 := by
  induction tokens generalizing d with
  | nil => exact .refl hd
  | cons tok rest ih =>
    unfold applySpecCommitted
    split
    case h_1 => exact .refl hd
    case h_2 r hr =>
      split
      · exact .refl hd
      · have happ := tokenResult_applies env d r tok (if rest = [] then eog else false)
        have hput := refreshes_putReq hd hr happ.ident (happ.wf (hd q r hr).2)
          (tokenResult env d r tok (if rest = [] then eog else false)).2
        exact hput.trans (ih hput.table)

/-- So does counting drafts. -/
theorem specRecordFeedback_refreshes [DecidableEq Sid] {d : Data σ γ Sid} (hd : TableWf env d)
    (q : SeqId) (n m : Nat) : Refreshes env d (specRecordFeedback env d q n m) := by
  unfold specRecordFeedback
  dsimp only
  split
  case h_1 => exact ⟨hd, rfl, rfl⟩
  case h_2 r hr =>
    have hcore : SameCore r { r with
        specDrafted := r.specDrafted + n, specAccepted := r.specAccepted + m } :=
      ⟨⟨rfl, rfl, rfl, rfl, rfl, id⟩, rfl, rfl, rfl⟩
    exact refreshes_putReq hd hr hcore.toSameIdent (hcore.wf (hd q r hr).2) _

/-- Trimming the overshoot replaces nothing. -/
theorem specTrimOvershoot_refreshes [DecidableEq Sid] {d : Data σ γ Sid} (hd : TableWf env d)
    (q : SeqId) : Refreshes env d (specTrimOvershoot env d q) := by
  unfold specTrimOvershoot
  split
  · exact .refl hd
  · exact ⟨hd, rfl, rfl⟩

/-- So does the result of a speculative step. -/
theorem commitSpec_refreshes [DecidableEq Sid] {d d' : Data σ γ Sid} (hd : TableWf env d)
    {q : SeqId} {draft : List Token} {res : SpecResult}
    (h : commitSpec env d q draft res = .stepped d') : Refreshes env d d' := by
  have happ := applySpecCommitted_refreshes env q res.eog res.committed hd
  unfold commitSpec at h
  dsimp only at h
  split at h
  case h_1 => exact nomatch h
  case h_2 leftover _ =>
    cases h
    split
    · exact happ.trans (specRecordFeedback_refreshes happ.table q _ _)
    · have htrim := happ.trans (specTrimOvershoot_refreshes happ.table q)
      exact htrim.trans (specRecordFeedback_refreshes htrim.table q _ _)

/-- So does a save on the operator's behalf. -/
theorem fireSaveForReq_refreshes [DecidableEq Sid] {d : Data σ γ Sid} (hd : TableWf env d)
    {q : SeqId} {r : Req Sid} (h : d.reqTable.lookup q = some r) (reason : SaveReason) :
    Refreshes env d (fireSaveForReq env d reason r) := by
  unfold fireSaveForReq
  split
  · exact .refl hd
  · have hcore : SameCore r { creditSave (fireSaveIf env d true reason r.contextTokens r).1 r
        r.contextTokens with lastSaveAt := r.contextTokens.length } :=
      (creditSave_core r _ _).trans ⟨⟨rfl, rfl, rfl, rfl, rfl, id⟩, rfl, rfl, rfl⟩
    exact refreshes_putReq hd h hcore.toSameIdent (hcore.wf (hd q r h).2) _

/-! ### Finishing -/

variable (env) in
/-- The save at the end is of the request's context, and none for media. -/
theorem finishSave_fires (d : Data σ γ Sid) (r : Req Sid) :
    SameCore r (finishSave env d r).2.1 ∧
      Fires env d r r.contextTokens (finishSave env d r).2.2 ∧
      (r.media.isSome → (finishSave env d r).2.2.log = d.sys.log) := by
  have hfires := fireSaveIf_fires env d r (shouldFinishSave env.cfg.policy r.contextTokens.length)
    .finish r.contextTokens
  unfold finishSave fireFinishSaveForReq
  dsimp only
  split
  case h_1 =>
    refine ⟨.refl r, ?_, ?_⟩
    · split
      · exact .of_eq rfl rfl
      · exact hfires
    · intro hm
      rw [if_pos hm]
  case h_2 key hkey =>
    refine ⟨bumpCacheDelta_core r _, ?_, ?_⟩
    · split
      · exact .of_eq rfl rfl
      · exact hfires.congr rfl rfl
    · intro hm
      rw [if_pos hm] at hkey
      exact nomatch hkey

/-- A reply saves nothing. -/
theorem replyTo_mute (s : Sys σ γ Sid) (r : Req Sid) (reply : Reply) :
    Mute s (replyTo s r reply) := by
  unfold replyTo
  split
  · exact mute_emit s _
  · exact .refl s

/-- Nor does the end of a stream. -/
theorem sendDoneForReq_mute (s : Sys σ γ Sid) (r : Req Sid) (stats : Stats) :
    Mute s (sendDoneForReq s r stats) := by
  unfold sendDoneForReq
  split
  · dsimp only
    split
    · exact (mute_emit s _).trans (mute_emit _ _)
    · exact ((mute_emit s _).trans (mute_emit _ _)).trans (mute_emit _ _)
  · exact .refl s

/-- Nor does the answer of a finished request. -/
theorem finishAction_mute (s : Sys σ γ Sid) (r : Req Sid) (reason : FinishReason)
    (key : Option CacheKey) (stats : Stats) : Mute s (finishAction env s r reason key stats) := by
  unfold finishAction
  split
  · exact replyTo_mute s r _
  · split
    · exact .refl s
    · exact sendDoneForReq_mute s r stats
  · exact replyTo_mute s r _

variable [LinearOrder Sid]

omit [LinearOrder Sid] in
/-- After the finish save come messages and the end of the sampler. -/
theorem announceFinish_quiet (d : Data σ γ Sid) (r : Req Sid) :
    Quiet env (finishSave env d r).2.2 (announceFinish env d r) :=
  (finishAction_mute _ _ _ _ _).quiet.trans (releaseSampler_quiet env _ _)

/-! ### The pool after a move -/

/-- Pinning a seq, in the pool. -/
theorem pool_pin (d : Data σ γ Sid) (sid : Sid) (q : SeqId) (tokens : List Token) :
    pool (pin env d sid q tokens)
      = { pool d with pinned := Function.update (pool d).pinned sid (some q) } := by
  unfold pool pin
  congr 1
  funext sid'
  rw [AList.lookup_insert_ite, Function.update_apply]
  split <;> simp

/-- Unpinning one, in the pool. -/
theorem pool_unpin (d : Data σ γ Sid) (sid : Sid) (q : SeqId) :
    pool (unpin d sid q)
      = { pool d with
          idle := q :: d.idleSeqIds
          pinned := Function.update (pool d).pinned sid none } := by
  unfold pool unpin
  congr 1
  funext sid'
  rw [AList.lookup_erase_ite, Function.update_apply]
  split <;> simp

/-- Giving one back, in the pool. -/
theorem pool_pushIdle (d : Data σ γ Sid) (q : SeqId) :
    pool (pushIdle d q) = { pool d with idle := q :: d.idleSeqIds } := rfl

/-- Admitting a request, in the pool. -/
theorem pool_admitOn (d : Data σ γ Sid) (r : Req Sid) (mode : AdmitMode) (prompt : List Token)
    (lookup : LookupOpts) :
    pool (admitOn env d r mode prompt lookup)
      = { pool d with busy := Function.update (pool d).busy r.seqId (some r.sessionId) } := by
  have hsame := (setupAdmissionPath_admits env d r mode prompt lookup).same
  unfold admitOn
  rw [pool_putReq, hsame.seqId, hsame.sessionId]
  rfl

/-- Finishing a request gives its seq back, or pins it for its session. -/
theorem pool_finishReq (d : Data σ γ Sid) (r : Req Sid) :
    pool (finishReq env d r)
      = match r.sessionId with
        | none => { pool d with
            idle := r.seqId :: d.idleSeqIds
            busy := Function.update (pool d).busy r.seqId none }
        | some sid => { pool d with
            busy := Function.update (pool d).busy r.seqId none
            pinned := Function.update (pool d).pinned sid (some r.seqId) } := by
  obtain ⟨hcore, -, -⟩ := finishSave_fires env d r
  unfold finishReq releaseOrPinSeq
  rw [hcore.sessionId]
  cases r.sessionId with
  | none =>
    dsimp only
    rw [pool_pushIdle, pool_withSys, pool_removeReq, hcore.seqId]
    rfl
  | some sid =>
    dsimp only
    rw [pool_pin, pool_removeReq, hcore.seqId]
    rfl

/-- An adapter operation moves no seq, saves nothing and sends nothing. -/
structure AdapterStep (d d' : Data σ γ Sid) : Prop where
  reqTable : d'.reqTable = d.reqTable
  idleSeqIds : d'.idleSeqIds = d.idleSeqIds
  sessionSeq : d'.sessionSeq = d.sessionSeq
  pending : d'.pending = d.pending
  log : d'.sys.log = d.sys.log
  out : d'.sys.out = d.sys.out

variable (env) in
omit [LinearOrder Sid] in
/-- Replacing the adapters of the context. -/
theorem changeAdapters_step (d : Data σ γ Sid) (adapters : List Adapter) (reply : Reply) :
    AdapterStep d (changeAdapters env d adapters reply).2 := by
  unfold changeAdapters applyAndRecompute
  dsimp only
  split
  case h_1 heq =>
    split
    · exact ⟨rfl, rfl, rfl, rfl, rfl, rfl⟩
    · split
      · exact ⟨rfl, rfl, rfl, rfl, rfl, rfl⟩
      · exact ⟨rfl, rfl, rfl, rfl, rfl, rfl⟩
  case h_2 e heq =>
    split
    · exact ⟨rfl, rfl, rfl, rfl, rfl, rfl⟩
    · split
      · exact ⟨rfl, rfl, rfl, rfl, rfl, rfl⟩
      · exact ⟨rfl, rfl, rfl, rfl, rfl, rfl⟩

omit [LinearOrder Sid] in
/-- Loading an adapter. -/
theorem loadAdapter_step (d : Data σ γ Sid) (path : Path) (file : Option Bytes) :
    AdapterStep d (loadAdapter env d path file).2 := by
  unfold loadAdapter
  split
  · exact ⟨rfl, rfl, rfl, rfl, rfl, rfl⟩
  · split
    · exact ⟨rfl, rfl, rfl, rfl, rfl, rfl⟩
    · dsimp only
      split
      · obtain ⟨h1, h2, h3, h4, h5, h6⟩ := changeAdapters_step env
          (withSys d _) _ _
        exact ⟨h1, h2, h3, h4, h5, h6⟩
      · exact ⟨rfl, rfl, rfl, rfl, rfl, rfl⟩

omit [LinearOrder Sid] in
/-- Unloading one. -/
theorem unloadAdapter_step (d : Data σ γ Sid) (handle : Ref) :
    AdapterStep d (unloadAdapter env d handle).2 := by
  unfold unloadAdapter
  split
  · exact ⟨rfl, rfl, rfl, rfl, rfl, rfl⟩
  · split
    · exact ⟨rfl, rfl, rfl, rfl, rfl, rfl⟩
    · dsimp only
      split
      · obtain ⟨h1, h2, h3, h4, h5, h6⟩ := changeAdapters_step env
          (withSys d _) _ _
        exact ⟨h1, h2, h3, h4, h5, h6⟩
      · exact ⟨rfl, rfl, rfl, rfl, rfl, rfl⟩

omit [LinearOrder Sid] in
/-- Scaling one. -/
theorem setAdapterScale_step (d : Data σ γ Sid) (handle : Ref) (scale : ℚ) :
    AdapterStep d (setAdapterScale env d handle scale).2 := by
  unfold setAdapterScale
  split
  · exact ⟨rfl, rfl, rfl, rfl, rfl, rfl⟩
  · exact changeAdapters_step env d _ _

/-- An adapter operation keeps the pool. -/
theorem AdapterStep.pool {d d' : Data σ γ Sid} (h : AdapterStep d d') :
    pool d' = pool d := by
  unfold Model.pool
  rw [h.reqTable, h.idleSeqIds, h.sessionSeq]

omit [LinearOrder Sid] in
/-- It keeps the table well formed. -/
theorem AdapterStep.table {d d' : Data σ γ Sid} (h : AdapterStep d d') (hd : TableWf env d) :
    TableWf env d' := by
  intro q r hr
  rw [h.reqTable] at hr
  exact hd q r hr

/-! ### Every move -/

variable (env) in
omit [LinearOrder Sid] in
/-- Failing what is in flight on a seq takes its request out of the table. -/
theorem failInflightForSeq_table (d : Data σ γ Sid) (q : SeqId) (e : Err) :
    (∃ s, Quiet env d.sys s ∧ failInflightForSeq env d q e = removeReq (withSys d s) q) ∨
      d.reqTable.lookup q = none ∧ failInflightForSeq env d q e = d := by
  unfold failInflightForSeq
  cases h : d.reqTable.lookup q with
  | none => exact .inr ⟨rfl, rfl⟩
  | some r =>
    have hquiet := (notifyFailure_mute d.sys r e).quiet.trans
      (releaseSampler_quiet env (notifyFailure d.sys r e) r)
    exact .inl ⟨_, hquiet, rfl⟩

/-- The state after a session was reset: its seq is out of the table, unpinned and idle. -/
theorem resetSessionSeq_eq {d : Data σ γ Sid} {sid : Sid} {s : Session}
    (hs : d.sessionSeq.lookup sid = some s) :
    (resetSessionSeq env d sid).2
      = unpin (withSys (failInflightForSeq env d s.seqId .engineReset)
          (releaseSeq env (failInflightForSeq env d s.seqId .engineReset).sys s.seqId))
          sid s.seqId := by
  unfold resetSessionSeq
  rw [hs]

omit [LinearOrder Sid] in
/-- A fresh request enters the table well formed. -/
theorem TableWf.admitOn {d : Data σ γ Sid} (hd : TableWf env d) {r : Req Sid}
    (hr : FreshReq env d r) (mode : AdmitMode) (prompt : List Token) (lookup : LookupOpts) :
    TableWf env (admitOn env d r mode prompt lookup) := by
  have hadmits := setupAdmissionPath_admits env d r mode prompt lookup
  have hwf : TableWf env (withSys d (setupAdmissionPath env d r mode prompt lookup).2) := hd
  exact hwf.putReq (hr.wf hadmits.same)

/-- Every move keeps the table well formed. -/
theorem Move.table {d d' : Data σ γ Sid} (h : Move env G d d') (hd : TableWf env d) :
    TableWf env d' := by
  cases h with
  | sys h => exact hd
  | other hG spec => exact hd
  | @start q rest r lookup hidle hq hr prompt hG =>
    have hd' : TableWf env { d with idleSeqIds := rest } := hd
    exact hd'.admitOn ⟨hr.media, hr.mediaState, hr.requestFp, hr.gates, hr.unbegun⟩ .normal prompt
      lookup
  | @startMedia q rest r hidle hq hr hG =>
    have hd' : TableWf env { d with idleSeqIds := rest } := hd
    exact hd'.putReq hr.wf
  | resume hs hfree hq hsid hr hmode lookup hG => exact hd.admitOn hr _ _ lookup
  | update h hcore hlife => exact TableWf.putReq hd (hcore.wf (hd _ _ h).2)
  | @results _ ops results x pairs hops hstep hpairs hG happ =>
    have hres := applyStepResults_refreshes env pairs (d := withCtx d x) hd
    rw [happ] at hres
    exact hres.table
  | @spec _ cb sampler q r draft res x hcb h hspec hstep hG hcommit =>
    exact (commitSpec_refreshes (d := withCtx d x) hd hcommit).table
  | @mediaDone cb q r n x hcb h hpending hcall hG =>
    have hr := (hd q r h).2
    refine TableWf.putReq (d := withCtx d x) hd (SameIdent.wf (r := r) ?_ hr ?_)
    · refine ⟨rfl, rfl, rfl, ?_, rfl, id⟩
      rw [hpending]
      rfl
    · exact fun hm => ⟨hr.ladder_of_media hm, hr.cursor_of_media hm⟩
  | mediaFailed hcb h hpending hcall => exact TableWf.removeReq (d := withSys _ _) hd _
  | @finish q r h hG =>
    have hremoved := TableWf.removeReq (d := withSys d (announceFinish env d r)) hd r.seqId
    unfold finishReq releaseOrPinSeq
    split <;> exact hremoved
  | drop hs hfree => exact hd
  | fork hs hfree hnew hidle hcp hcopy hG => exact hd
  | forkFailed hs hidle hcp hcopy => exact hd
  | reset hs =>
    rw [resetSessionSeq_eq hs]
    rcases failInflightForSeq_table env d _ .engineReset with ⟨s, -, heq⟩ | ⟨-, heq⟩
    · rw [heq]
      exact TableWf.removeReq (d := withSys d s) hd _
    · rw [heq]
      exact hd
  | evict h hG hreason => exact (fireSaveForReq_refreshes hd h _).table
  | load hG => exact (loadAdapter_step d _ _).table hd
  | unload hG => exact (unloadAdapter_step d _).table hd
  | scale hG => exact (setAdapterScale_step d _ _).table hd
  | inspect h hG => exact hd
  | recover hlog hout hf hreset hG => exact fun _ _ hr => nomatch hr

/-- What a move queues was queued before or meets the guard. -/
theorem Move.pending {d d' : Data σ γ Sid} (h : Move env G d d') (hd : TableWf env d) :
    ∀ item ∈ d'.pending, item ∈ d.pending ∨ G.enqueue item := by
  have hsame : d'.pending = d.pending → ∀ item ∈ d'.pending, item ∈ d.pending ∨ G.enqueue item :=
    fun heq item hitem => .inl (heq ▸ hitem)
  cases h with
  | other hG spec => exact hG
  | @results _ ops results x pairs hops hstep hpairs hG happ =>
    have hres := applyStepResults_refreshes env pairs (d := withCtx d x) hd
    rw [happ] at hres
    exact hsame hres.pending
  | @spec _ cb sampler q r draft res x hcb h hspec hstep hG hcommit =>
    exact hsame (commitSpec_refreshes (d := withCtx d x) hd hcommit).pending
  | @finish q r h hG =>
    refine hsame ?_
    unfold finishReq releaseOrPinSeq
    split <;> rfl
  | @reset sid s hs =>
    refine hsame ?_
    rw [resetSessionSeq_eq hs]
    rcases failInflightForSeq_table env d s.seqId .engineReset with ⟨s, -, heq⟩ | ⟨-, heq⟩ <;>
      rw [heq] <;> rfl
  | evict h hG hreason => exact hsame (fireSaveForReq_refreshes hd h _).pending
  | load hG => exact hsame (loadAdapter_step d _ _).pending
  | unload hG => exact hsame (unloadAdapter_step d _).pending
  | scale hG => exact hsame (setAdapterScale_step d _ _).pending
  | recover hlog hout hf hreset hG => exact fun _ hitem => nomatch hitem
  | _ => exact hsame rfl

/-- **Moves are pool steps.** A move takes the pool through a number of its steps, or it is a
    recovery, which frees every seq. -/
theorem Move.pool {C : Pool SeqId Sid → Sid → SeqId → Prop} {d d' : Data σ γ Sid}
    (h : Move env G d d') (hd : TableWf env d)
    (hC : ∀ d r sid, G.finish d r → r.sessionId = some sid → C (pool d) sid r.seqId) :
    Pool.Steps C (Model.pool d) (Model.pool d') ∨
      G.recover d.adapters ∧ Model.pool d' = Pool.full (List.range env.cfg.nSeqMax) := by
  have hsame : ∀ {d d' : Data σ γ Sid}, Model.pool d' = Model.pool d →
      Pool.Steps C (Model.pool d) (Model.pool d') := by
    intro d d' heq
    rw [heq]
  cases h with
  | sys h => exact .inl (hsame rfl)
  | other hG spec => exact .inl (hsame rfl)
  | @start q rest r lookup hidle hq hr prompt hG =>
    left
    rw [pool_admitOn, hq]
    exact .single (.take _ hidle)
  | @startMedia q rest r hidle hq hr hG =>
    left
    rw [pool_putReq, hq]
    exact .single (.take _ hidle)
  | @resume sid s r mode prompt hs hfree hq hsid hr hmode lookup hG =>
    left
    rw [pool_admitOn, hq, hsid]
    exact .single (.resume (pool_pinned_of_lookup hs) ((pool_busy_eq_none d s.seqId).mpr hfree))
  | update h hcore hlife =>
    exact .inl (hsame (pool_putReq_of_same h
      (hcore.seqId.trans (hd _ _ h).1) hcore.sessionId))
  | @results _ ops results x pairs hops hstep hpairs hG happ =>
    have hres := applyStepResults_refreshes env pairs (d := withCtx d x) hd
    rw [happ] at hres
    exact .inl (hsame hres.pool)
  | @spec _ cb sampler q r draft res x hcb h hspec hstep hG hcommit =>
    exact .inl (hsame (commitSpec_refreshes (d := withCtx d x) hd hcommit).pool)
  | @mediaDone cb q r n x hcb h hpending hcall hG =>
    exact .inl (hsame (pool_putReq_of_same (d := withCtx d x) h (hd q r h).1 rfl))
  | @mediaFailed cb q r e x hcb h hpending hcall =>
    left
    have hr := hd q r h
    have hnone := hr.2.sessionId_of_media (hr.2.media_of_state (by rw [hpending]; rfl))
    have hbusy := pool_busy_of_lookup h
    rw [hnone] at hbusy
    unfold failMediaReq
    rw [pool_pushIdle, pool_removeReq, hr.1]
    exact .single (.release hbusy)
  | @finish q r h hG =>
    left
    have hq := (hd q r h).1
    have hbusy := pool_busy_of_lookup h
    rw [pool_finishReq]
    cases hsid : r.sessionId with
    | none =>
      rw [hsid] at hbusy
      rw [hq]
      exact .single (.release hbusy)
    | some sid =>
      rw [hsid] at hbusy
      have hpin := hC d r sid hG hsid
      rw [hq] at hpin ⊢
      exact .single (.pin hbusy hpin)
  | @drop sid s hs hfree =>
    left
    have hbusy := (pool_busy_eq_none d s.seqId).mpr hfree
    have hstep := Pool.Step.unpin (C := C) (pool_pinned_of_lookup hs)
    rw [← hbusy, Function.update_eq_self] at hstep
    rw [pool_unpin]
    exact .single hstep
  | @fork src new s q rest seqCp x hs hfree hnew hidle hcp hcopy =>
    left
    rw [pool_pin]
    refine .single (.pinIdle hidle ?_)
    show (d.sessionSeq.lookup new).map Session.seqId = none
    rw [hnew]
    rfl
  | forkFailed hs hidle hcp hcopy => exact .inl (hsame rfl)
  | @reset sid s hs =>
    left
    have hstep := Pool.Step.unpin (C := C) (pool_pinned_of_lookup hs)
    rw [resetSessionSeq_eq hs, pool_unpin]
    rcases failInflightForSeq_table env d s.seqId .engineReset
      with ⟨s', -, heq⟩ | ⟨hfree, heq⟩
    · rw [heq, pool_withSys, pool_removeReq]
      exact .single hstep
    · rw [heq]
      rw [← (pool_busy_eq_none d s.seqId).mpr hfree, Function.update_eq_self] at hstep
      exact .single hstep
  | evict h hG hreason => exact .inl (hsame (fireSaveForReq_refreshes hd h _).pool)
  | load hG => exact .inl (hsame (loadAdapter_step d _ _).pool)
  | unload hG => exact .inl (hsame (unloadAdapter_step d _).pool)
  | scale hG => exact .inl (hsame (setAdapterScale_step d _ _).pool)
  | inspect h hG => exact .inl (hsame rfl)
  | recover hlog hout hf hreset hG => exact .inr ⟨hG, rfl⟩

/-- Well-formed processes: the table is, and the pool is sound. -/
structure Wf (env : Env σ γ) (d : Data σ γ Sid) : Prop where
  table : TableWf env d
  sound : (pool d).Sound (List.range env.cfg.nSeqMax)

/-- **Every move keeps the process well formed.**. -/
theorem Move.wf {d d' : Data σ γ Sid} (h : Move env G d d') (hd : Wf env d) : Wf env d' where
  table := h.table hd.table
  sound := by
    rcases h.pool (C := fun _ _ _ => True) hd.table (fun _ _ _ _ _ => trivial)
      with hsteps | ⟨-, hfull⟩
    · exact hsteps.sound hd.sound
    · rw [hfull]
      exact Pool.sound_full List.nodup_range

/-- **The moves keep the process well formed.** -/
theorem Moves.wf {d d' : Data σ γ Sid} (h : Moves env G d d') (hd : Wf env d) : Wf env d' := by
  induction h with
  | refl => exact hd
  | tail _ hmove ih => exact hmove.wf ih

/-- A process starts well formed. -/
theorem wf_init (ctx : σ) (world : γ) : Wf env (init env ctx world : Proc σ γ Sid).data where
  table := fun _ _ hr => nomatch hr
  sound := Pool.sound_full List.nodup_range

/-- Well-formedness depends on the configuration alone. -/
theorem Wf.congr {env' : Env σ γ} {d : Data σ γ Sid} (hcfg : env'.cfg = env.cfg)
    (h : Wf env d) : Wf env' d := by
  refine ⟨fun q r hr => ?_, hcfg ▸ h.sound⟩
  obtain ⟨hq, h1, h2, h3, h4, h5, h6⟩ := h.table q r hr
  exact ⟨hq, h1, h2, h3, h4, h5, fun hspec => hcfg ▸ h6 hspec⟩

end Erllama.Model
