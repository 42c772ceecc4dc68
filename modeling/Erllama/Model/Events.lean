import Erllama.Model.Walk

namespace Erllama.Model

open Lib

/-!
# Ticks and events as moves

* `tickBody_ends` — the body of a tick ends after moves; what a failed or crashed step leaves
  behind is no move, and the process recovers or stops.
* `EventOk`, `StepOk` — the side conditions of a guard at each guarded move of one event.
* `step_steps` — an event whose side conditions hold is a run of moves that meet the guard.
* `run_wf` — every reachable process is well formed.
-/

variable {σ γ Sid : Type}

/-! ### The rows of a step -/

/-- Cutting the prefill rows keeps each row's seq, or drops the row. -/
theorem map_fst_slicePrefills (chunkSize : Option Nat) (ops : List (SeqId × Op)) (n : Nat) :
    ((slicePrefills chunkSize ops n).map Prod.fst).Sublist (ops.map Prod.fst) := by
  fun_induction slicePrefills chunkSize ops n with
  | case1 => exact .slnil
  | case2 q ref ops n ih => exact ih.cons_cons q
  | case3 q tokens ops ih => exact ih.cons q
  | case4 q tokens ops n hn cap ih => exact ih.cons_cons q

/-- The rows before the cut are for different requests of the table. -/
theorem map_fst_allOps (d : Data σ γ Sid) :
    ((allOps d).map Prod.fst).Subperm ((requests d.reqTable).map Req.seqId) := by
  have hperm := (List.filter_append_perm (fun p : SeqId × Op => p.2.isDecode)
    ((activeReqs d).filterMap fun r => (opOf r).map (r.seqId, ·))).map Prod.fst
  have hops : ∀ rs : List (Req Sid),
      ((rs.filterMap fun r => (opOf r).map (r.seqId, ·)).map Prod.fst).Sublist
        (rs.map Req.seqId) := by
    intro rs
    induction rs with
    | nil => exact .slnil
    | cons r rs ih =>
      rw [List.filterMap_cons]
      cases opOf r with
      | none    => exact ih.cons r.seqId
      | some op => exact ih.cons_cons r.seqId
  have hactive : ((activeReqs d).map Req.seqId).Sublist ((requests d.reqTable).map Req.seqId) :=
    List.filter_sublist.map Req.seqId
  exact hperm.subperm.trans ((hops (activeReqs d)).trans hactive).subperm

/-- The rows of a tick's step fit the table. -/
theorem opsFit_of_budget {env : Env σ γ} {d : Data σ γ Sid} (hd : TableWf env d)
    {ops : List (SeqId × Op)} (h : applyBatchBudget env (allOps d) = some ops) : OpsFit d ops := by
  have hsub : (ops.map Prod.fst).Subperm ((requests d.reqTable).map Req.seqId) := by
    unfold applyBatchBudget at h
    dsimp only at h
    split at h
    · exact nomatch h
    · cases h
      exact (map_fst_slicePrefills _ _ _).subperm.trans (map_fst_allOps d)
  refine ⟨?_, ?_⟩
  · obtain ⟨l, hperm, hsublist⟩ := hsub
    exact hperm.nodup_iff.mp ((requests_seqId_nodup hd.keysMatch).sublist hsublist)
  · intro p hp
    obtain ⟨r, hr, heq⟩ := List.mem_map.mp (hsub.subset (List.mem_map_of_mem hp))
    exact ⟨r, heq ▸ lookup_of_mem_requests hd.keysMatch hr⟩

/-! ### The speculative tick -/

/-- A request that is the sole active one is in the table. -/
theorem lookup_of_active {env : Env σ γ} {d : Data σ γ Sid} (hd : TableWf env d) {r : Req Sid}
    (h : activeReqs d = [r]) : d.reqTable.lookup r.seqId = some r := by
  have hmem : r ∈ activeReqs d := by
    rw [h]
    exact List.mem_singleton_self r
  exact lookup_of_mem_requests hd.keysMatch (List.mem_filter.mp hmem).1

/-- Committing to a request in the table never misses it. -/
theorem applySpecCommitted_isSome (env : Env σ γ) (q : SeqId) (eog : Bool) (tokens : List Token)
    {d : Data σ γ Sid} {r : Req Sid} (h : d.reqTable.lookup q = some r) (hq : r.seqId = q) :
    (applySpecCommitted env q eog tokens d).1.isSome := by
  induction tokens generalizing d r with
  | nil => rfl
  | cons tok rest ih =>
    unfold applySpecCommitted
    rw [h]
    dsimp only
    split
    · rfl
    · have happ := tokenResult_applies env d r tok (if rest = [] then eog else false)
      have hq' := happ.ident.seqId.trans hq
      refine ih ?_ hq'
      rw [lookup_putReq, if_pos hq'.symm]

variable [LinearOrder Sid] {env : Env σ γ} {G : Guard σ γ Sid}

omit [LinearOrder Sid] in
/-- Nothing is not something. -/
theorem none_elim {α : Type*} {P : Prop} {x : α} (h : none = some x) : P := nomatch h

/-- A draft is asked for by moves; a request that speculates is in the table afterwards. -/
theorem specDraftFor_moves {d : Data σ γ Sid} {r : Req Sid}
    (h : d.reqTable.lookup r.seqId = some r) :
    Moves env G d (specDraftFor env d r).2 ∧
      ∀ r' draft, (specDraftFor env d r).1 = some (r', draft) →
        (specDraftFor env d r).2.reqTable.lookup r'.seqId = some r' ∧ r'.spec.isSome := by
  unfold specDraftFor
  split
  case h_2 => exact ⟨.refl, fun _ _ => none_elim⟩
  case h_1 cb cfg cfg' ref hcb hspec hres =>
    split
    · exact ⟨.refl, fun _ _ => none_elim⟩
    · have hdraft : Moves env G d (withCtx d (cb.draft d.sys.ctx ref r.seqId
          (r.generated.getLastD 0) (specDelta r)).2) :=
        .single (.sys (Silent.specDraft hcb _ _ _ _ _).quiet)
      have hput : ∀ {x : σ} {r' : Req Sid}, SameCore r r' → LifeStep env r .start r' →
          Move env G (withCtx d x) (putReq (withCtx d x) r') :=
        fun hcore hlife => .update (d := withCtx d _) h hcore hlife
      dsimp only
      split
      · split
        · exact ⟨hdraft.tail (hput ⟨⟨rfl, rfl, rfl, rfl, rfl, id⟩, rfl, rfl, rfl⟩ (.rest rfl id)),
            fun _ _ => none_elim⟩
        · refine ⟨hdraft.tail
            (hput ⟨⟨rfl, rfl, rfl, rfl, rfl, id⟩, rfl, rfl, rfl⟩ (.rest rfl id)), ?_⟩
          intro r' draft heq
          obtain ⟨rfl, rfl⟩ := Prod.mk.inj (Option.some.inj heq)
          refine ⟨?_, by rw [hspec]; rfl⟩
          rw [lookup_putReq, if_pos rfl]
      · exact ⟨hdraft.tail (hput ⟨⟨rfl, rfl, rfl, rfl, rfl, nofun⟩, rfl, rfl, rfl⟩ (.rest rfl id)),
          fun _ _ => none_elim⟩

/-- A tick may ask for a draft of one request. -/
theorem maybeSpecTick_moves {d : Data σ γ Sid} (hd : TableWf env d) :
    Moves env G d (maybeSpecTick env d).2 ∧
      ∀ r' draft, (maybeSpecTick env d).1 = some (r', draft) →
        (maybeSpecTick env d).2.reqTable.lookup r'.seqId = some r' ∧ r'.spec.isSome := by
  unfold maybeSpecTick
  split
  case h_1 r hactive =>
    split
    · exact specDraftFor_moves (lookup_of_active hd hactive)
    · exact ⟨.refl, fun _ _ => none_elim⟩
  case h_2 => exact ⟨.refl, fun _ _ => none_elim⟩

/-! ### The body of a tick -/

/-- How the body of a tick ends, in terms of moves: a step that failed returned some context. -/
def Ends (env : Env σ γ) (G : Guard σ γ Sid) (d : Data σ γ Sid) : TickEnd σ γ Sid → Prop
  | .stepped d'   => Moves env G d d'
  | .recover d' _ => ∃ d₀ x, Moves env G d d₀ ∧ d' = withCtx d₀ x
  | .failed d' _  => ∃ d₀ x, Moves env G d d₀ ∧ d' = withCtx d₀ x
  | .crashed d'   => ∃ d₀, Moves env G d d₀ ∧ Halt env G d₀ d'

/-- The end of a tick after some moves. -/
theorem Ends.after {d d₀ : Data σ γ Sid} (h : Moves env G d d₀) {e : TickEnd σ γ Sid}
    (he : Ends env G d₀ e) : Ends env G d e := by
  cases e with
  | stepped d' => exact h.trans he
  | recover d' e =>
    obtain ⟨d₁, x, hmoves, heq⟩ := he
    exact ⟨d₁, x, h.trans hmoves, heq⟩
  | failed d' e =>
    obtain ⟨d₁, x, hmoves, heq⟩ := he
    exact ⟨d₁, x, h.trans hmoves, heq⟩
  | crashed d' =>
    obtain ⟨d₁, hmoves, hhalt⟩ := he
    exact ⟨d₁, h.trans hmoves, hhalt⟩

/-- A failed step ends the tick without another move. -/
theorem decodeError_ends (d : Data σ γ Sid) (x : σ) (e : Reason) :
    Ends env G d (decodeError (withCtx d x) e) := by
  unfold decodeError
  split <;> exact ⟨d, x, .refl, rfl⟩

/-- A crash without results. -/
theorem crashed_ends (d : Data σ γ Sid) (x : σ) : Ends env G d (.crashed (withCtx d x)) :=
  ⟨d, .refl, .sys rfl⟩

/-- A tick that prefills a media request. -/
theorem runMediaTick_ends {d : Data σ γ Sid} {r : Req Sid}
    (h : d.reqTable.lookup r.seqId = some r) (hpending : r.mediaState = some .pending)
    (hG : G.prefill d r) : Ends env G d (runMediaTick env d r) := by
  unfold runMediaTick
  split
  case h_1 => exact crashed_ends d d.sys.ctx
  case h_2 cb hcb =>
    dsimp only
    split
    case h_1 nTokens nPos hok =>
      exact .single (.mediaDone (n := (nTokens, nPos)) hcb h hpending (Prod.ext hok rfl) hG)
    case h_2 e herr => exact .single (.mediaFailed hcb h hpending (Prod.ext herr rfl))

/-- The result a speculative step from `d` commits, and the state it commits it in. -/
def specResult (env : Env σ γ) (d : Data σ γ Sid) (r : Req Sid) (draft : List Token) :
    Option (Data σ γ Sid × SpecResult) :=
  match env.be.spec, r.samplerRef with
  | some cb, some sampler =>
    let res := cb.step d.sys.ctx sampler r.seqId draft
    match res.1 with
    | .ok committed => some (withCtx d res.2, committed)
    | .error _      => none
  | _, _ => none

/-- A tick that speculates. -/
theorem runSpecTick_ends {d : Data σ γ Sid} (hd : TableWf env d) {r : Req Sid}
    (h : d.reqTable.lookup r.seqId = some r) (hspec : r.spec.isSome) (draft : List Token)
    (hG : ∀ d' res, specResult env d r draft = some (d', res) → G.commit d' r.seqId res) :
    Ends env G d (runSpecTick env d r draft) := by
  unfold specResult at hG
  unfold runSpecTick
  split
  case h_2 => exact crashed_ends d d.sys.ctx
  case h_1 cb sampler hcb hsampler =>
    rw [hcb, hsampler] at hG
    dsimp only at hG ⊢
    split
    case h_2 e herr => exact decodeError_ends d _ e
    case h_1 res hok =>
      rw [hok] at hG
      have hsome := applySpecCommitted_isSome env r.seqId res.eog res.committed
        (d := withCtx d (cb.step d.sys.ctx sampler r.seqId draft).2) h (hd _ r h).1
      have hcommit : ∃ d', commitSpec env
          (withCtx d (cb.step d.sys.ctx sampler r.seqId draft).2) r.seqId draft res
            = .stepped d' := by
        unfold commitSpec
        dsimp only
        split
        case h_1 hnone =>
          rw [hnone] at hsome
          exact nomatch hsome
        case h_2 => exact ⟨_, rfl⟩
      obtain ⟨d', hd'⟩ := hcommit
      show Ends env G d (commitSpec env
        (withCtx d (cb.step d.sys.ctx sampler r.seqId draft).2) r.seqId draft res)
      rw [hd']
      exact .single (.spec hcb h hspec (Prod.ext hok rfl) (hG _ res rfl) hd')

/-- The results a co-batched step from `d` applies, and the state it applies them in. -/
def stepResults (env : Env σ γ) (d : Data σ γ Sid) : Option (Data σ γ Sid × List ResultPair) :=
  match applyBatchBudget env (allOps d) with
  | none     => none
  | some []  => none
  | some ops =>
    let res := env.be.step d.sys.ctx ops
    match res.1 with
    | .ok results => (pairOpsWithResults ops results).map (withCtx d res.2, ·)
    | .error _    => none

/-- A tick that steps a batch. -/
theorem stepTickOps_ends {d : Data σ γ Sid} (hd : TableWf env d)
    (hG : ∀ d' pairs, stepResults env d = some (d', pairs) → G.results d' pairs) :
    Ends env G d (stepTickOps env d) := by
  unfold stepTickOps
  unfold stepResults at hG
  cases hbudget : applyBatchBudget env (allOps d) with
  | none => exact crashed_ends d d.sys.ctx
  | some ops =>
    rw [hbudget] at hG
    have hfit := opsFit_of_budget hd hbudget
    cases ops with
    | nil => exact .refl
    | cons op ops =>
      dsimp only at hG ⊢
      cases hstep : (env.be.step d.sys.ctx (op :: ops)).1 with
      | error e => exact decodeError_ends d _ e
      | ok results =>
        rw [hstep] at hG
        dsimp only at hG ⊢
        unfold finishStep
        cases hpairs : pairOpsWithResults (op :: ops) results with
        | none => exact crashed_ends d _
        | some pairs =>
          rw [hpairs] at hG
          have hguard := hG _ pairs rfl
          dsimp only
          split
          case isTrue hok =>
            exact .single (.results hfit (Prod.ext hstep rfl) hpairs hguard (Prod.ext hok rfl))
          case isFalse hcrash =>
            exact ⟨d, .refl, .results hfit (Prod.ext hstep rfl) hpairs hguard
              (Prod.ext (Bool.eq_false_iff.mpr hcrash) rfl)⟩

/-- The guard on what the body of a tick does: a media prefill, the commit of a speculative
    step, or the results of a co-batched one. -/
def BodyOk (env : Env σ γ) (G : Guard σ γ Sid) (d : Data σ γ Sid) : Prop :=
  let d := honourCancellations d
  match maybeMediaTick d with
  | some r => G.prefill d r
  | none =>
    let spec := maybeSpecTick env d
    match spec.1 with
    | some (r, draft) =>
      ∀ d' res, specResult env spec.2 r draft = some (d', res) → G.commit d' r.seqId res
    | none => ∀ d' pairs, stepResults env spec.2 = some (d', pairs) → G.results d' pairs

/-- **The body of a tick is a run of moves.** -/
theorem tickBody_ends {d : Data σ γ Sid} (hd : Wf env d) (hG : BodyOk env G d) :
    Ends env G d (tickBody env d) := by
  have hcancel := honourCancellations_moves (G := G) hd
  have hwf := hcancel.wf hd
  refine .after hcancel ?_
  unfold BodyOk at hG
  unfold tickBody
  dsimp only at hG ⊢
  cases hmedia : maybeMediaTick (honourCancellations d) with
  | some r =>
    -- The request of a media tick is the sole active one.
    have hactive : activeReqs (honourCancellations d) = [r] ∧ r.mediaState = some .pending := by
      unfold maybeMediaTick at hmedia
      split at hmedia
      case h_1 r' hactive =>
        split at hmedia
        case isTrue hpending =>
          cases hmedia
          exact ⟨hactive, hpending⟩
        case isFalse => exact nomatch hmedia
      case h_2 => exact nomatch hmedia
    rw [hmedia] at hG
    exact runMediaTick_ends (lookup_of_active hwf.table hactive.1) hactive.2 hG
  | none =>
    rw [hmedia] at hG
    obtain ⟨hdraft, htable⟩ := maybeSpecTick_moves (G := G) hwf.table
    have hwf' := hdraft.wf hwf
    refine .after hdraft ?_
    dsimp only at hG ⊢
    cases hspec : (maybeSpecTick env (honourCancellations d)).1 with
    | some rd =>
      rw [hspec] at hG
      obtain ⟨hr, hsome⟩ := htable rd.1 rd.2 hspec
      exact runSpecTick_ends hwf'.table hr hsome rd.2 hG
    | none =>
      rw [hspec] at hG
      exact stepTickOps_ends hwf'.table hG

/-! ### After the body -/

/-- The guards on the queue. -/
def QueueOk (env : Env σ γ) (G : Guard σ γ Sid) (d : Data σ γ Sid) : Prop :=
  (∀ item ∈ d.pending, G.enqueue item) ∧ DispatchOk env G d.pending d

/-- The guards on what follows a step: the finishing requests, then the queue. -/
def AfterStepOk (env : Env σ γ) (G : Guard σ γ Sid) (d : Data σ γ Sid) : Prop :=
  AllSteps (finishReq env) G.finish (markTerminal d) (finishers (markTerminal d)) ∧
    QueueOk env G (finishMarkedReqs env (markTerminal d))

/-- What follows the step: the marked requests finish, and the queue is dispatched. -/
theorem tickAfterStep_moves {d : Data σ γ Sid} (hd : Wf env d) (hG : AfterStepOk env G d) :
    Moves env G d (tickAfterStep env d).data := by
  have hmark := markTerminal_moves (G := G) hd
  have hfinish := finishMarkedReqs_moves (hmark.wf hd) hG.1
  have hqueue := dispatchAdmits_moves _ hG.2.1 hG.2.2
  have hall := (hmark.trans hfinish).trans hqueue
  rcases tickAfterStep_cases env d with ⟨heq, -⟩ | heq
  · rw [heq]
    exact hall
  · rw [heq]
    exact hall.trans (scheduleTick_moves _)

omit [LinearOrder Sid] in
/-- Failing a request saves nothing and takes no message back. -/
theorem failRequest_extends (s : Sys σ γ Sid) (r : Req Sid) (e : Err) :
    (failRequest env s r e).log = s.log ∧ s.out <+: (failRequest env s r e).out := by
  have hmute := notifyFailure_mute s r e
  have hquiet := releaseSampler_quiet env (notifyFailure s r e) r
  unfold failRequest
  have hseq := releaseSeq_onSeq env (releaseSampler env (notifyFailure s r e) r) r.seqId
  exact ⟨hseq.log.trans (hquiet.log.trans hmute.log), hmute.out.trans (hquiet.out.trans hseq.out)⟩

variable (env) in
omit [LinearOrder Sid] in
/-- Failing every request touches nothing but the system, and saves nothing. -/
theorem failAllRequests_eq (d : Data σ γ Sid) (e : Err) :
    ∃ s, failAllRequests env d e = withSys d s ∧ s.log = d.sys.log ∧ d.sys.out <+: s.out := by
  refine ⟨_, rfl, ?_⟩
  have hall : ∀ (rs : List (Req Sid)) (s : Sys σ γ Sid),
      (rs.foldl (fun s r => failRequest env s r e) s).log = s.log ∧
        s.out <+: (rs.foldl (fun s r => failRequest env s r e) s).out := by
    intro rs
    induction rs with
    | nil => exact fun s => ⟨rfl, List.prefix_refl _⟩
    | cons r rs ih =>
      intro s
      obtain ⟨hlog, hout⟩ := failRequest_extends s r e
      exact ⟨(ih _).1.trans hlog, hout.trans (ih _).2⟩
  exact hall _ d.sys

omit [LinearOrder Sid] in
/-- Failing what is queued only sends messages. -/
theorem failPendingAdmits_eq (d : Data σ γ Sid) (e : Err) :
    ∃ s, failPendingAdmits d e = withSys d s ∧ s.log = d.sys.log ∧ d.sys.out <+: s.out := by
  have hall : ∀ (items : List (Item Sid)) (d : Data σ γ Sid),
      ∃ s, items.foldl (fun acc item => emit acc (.reply item.frm (.error e))) d = withSys d s ∧
        s.log = d.sys.log ∧ d.sys.out <+: s.out := by
    intro items
    induction items with
    | nil => exact fun d => ⟨d.sys, rfl, rfl, List.prefix_refl _⟩
    | cons item items ih =>
      intro d
      obtain ⟨s, heq, hlog, hout⟩ := ih (emit d (.reply item.frm (.error e)))
      exact ⟨s, heq, hlog, (List.prefix_append _ _).trans hout⟩
  exact hall d.pending d

/-- The guard on a recovery that finds a fresh context. -/
def RecoverOk (env : Env σ γ) (G : Guard σ γ Sid) (d : Data σ γ Sid) (e : Reason) : Prop :=
  (recoverInPlace env d e).phase = .idle → G.recover d.adapters

/-- After a failed step the context is reset, or the process stops. -/
theorem recoverInPlace_steps {p : Proc σ γ Sid} {d : Data σ γ Sid} {x : σ}
    (hd : Moves env G p.data d) (e : Reason) (hG : RecoverOk env G (withCtx d x) e) :
    Steps env G p (recoverInPlace env (withCtx d x) e) := by
  obtain ⟨s₁, heq₁, hlog₁, hout₁⟩ :=
    failAllRequests_eq env (withCtx d x) (.nested (.backend e))
  obtain ⟨s₂, heq₂, hlog₂, hout₂⟩ := failPendingAdmits_eq (withSys d s₁) (.backend e)
  have hfailed : failPendingAdmits (failAllRequests env (withCtx d x) (.nested (.backend e)))
      (.backend e) = withSys d s₂ := by
    rw [heq₁]
    exact heq₂
  have hlog : s₂.log = d.sys.log := hlog₂.trans hlog₁
  have hout : d.sys.out <+: s₂.out := List.IsPrefix.trans hout₁ hout₂
  unfold RecoverOk recoverInPlace at hG
  unfold recoverInPlace
  rw [hfailed] at hG ⊢
  dsimp only at hG ⊢
  split
  case h_1 => exact .halted hd (.sys hlog)
  case h_2 f hf =>
    rw [hf] at hG
    dsimp only at hG
    split
    case h_1 hok =>
      rw [hok] at hG
      exact .live (hd.tail (.recover hlog hout hf (Prod.ext hok rfl) (hG rfl)))
    case h_2 => exact .halted hd (.sys hlog)

/-- The guards on a tick. -/
structure TickOk (env : Env σ γ) (G : Guard σ γ Sid) (d : Data σ γ Sid) : Prop where
  body : BodyOk env G d
  after : ∀ d', tickBody env d = .stepped d' → AfterStepOk env G d'
  recover : ∀ d' e, tickBody env d = .recover d' e → RecoverOk env G d' e

/-- One tick. -/
theorem stepTick_steps {p : Proc σ γ Sid} {d : Data σ γ Sid} (hp : Moves env G p.data d)
    (hd : Wf env d) (hG : TickOk env G d) : Steps env G p (stepTick env d) := by
  have hends := tickBody_ends hd hG.body
  unfold stepTick
  cases hbody : tickBody env d with
  | stepped d' =>
    rw [hbody] at hends
    exact .live ((hp.trans hends).trans
      (tickAfterStep_moves (Moves.wf hends hd) (hG.after d' hbody)))
  | recover d' e =>
    rw [hbody] at hends
    obtain ⟨d₀, x, hmoves, rfl⟩ := hends
    exact recoverInPlace_steps (hp.trans hmoves) e (hG.recover _ e hbody)
  | failed d' e =>
    rw [hbody] at hends
    obtain ⟨d₀, x, hmoves, rfl⟩ := hends
    obtain ⟨s, heq, hlog, -⟩ :=
      failAllRequests_eq env (withCtx d₀ x) (.nested (.backend e))
    dsimp only
    rw [heq]
    exact .halted (hp.trans hmoves) (.sys (d := d₀) hlog)
  | crashed d' =>
    rw [hbody] at hends
    obtain ⟨d₀, hmoves, hhalt⟩ := hends
    exact .halted (hp.trans hmoves) hhalt

/-! ### The events -/

/-- A cancel marks its request. -/
theorem handleCancel_moves {d : Data σ γ Sid} (hd : TableWf env d) (ref : Ref) :
    Moves env G d (handleCancel d ref) := by
  unfold handleCancel
  split
  case h_1 r hfind =>
    have hr := lookup_of_mem_requests hd.keysMatch (List.mem_of_find?_eq_some hfind)
    exact .single (.update hr ⟨⟨rfl, rfl, rfl, rfl, rfl, id⟩, rfl, rfl, rfl⟩
      (.rest rfl fun _ => rfl))
  case h_2 => exact .refl

/-- The guard on verify and embed calls: it speaks of the table and the sessions, whatever the
    calls before this one left in the context. -/
def InspectOk (G : Guard σ γ Sid) (d : Data σ γ Sid) : Prop := ∀ x, G.inspect (withCtx d x)

/-- A verify call. -/
theorem runVerify_moves (d : Data σ γ Sid) (pre cands : List Token) (k : Nat)
    (hG : InspectOk G d) : Moves env G d (runVerify env d pre cands k).2 := by
  unfold runVerify
  split
  case h_1 => exact .refl
  case h_2 f hf =>
    have hcall : Moves env G d (withCtx d (f d.sys.ctx pre cands k).2) :=
      .single (.inspect (.verify hf _ _ _ _) (hG d.sys.ctx))
    dsimp only
    split <;> exact hcall

/-- An embed call for each list. -/
theorem embedEach_moves (lists : List (List Token)) (acc : List (List ℚ)) {d : Data σ γ Sid}
    (hG : InspectOk G d) : Moves env G d (embedEach env acc lists d).2 := by
  induction lists generalizing acc d with
  | nil => exact .refl
  | cons tokens rest ih =>
    unfold embedEach
    split
    case h_1 => exact .refl
    case h_2 f hf =>
      have hcall : Moves env G d (withCtx d (f d.sys.ctx tokens).2) :=
        .single (.inspect (.embed hf _ _) (hG d.sys.ctx))
      dsimp only
      split
      · exact hcall.trans (ih _ (d := withCtx d (f d.sys.ctx tokens).2) hG)
      · exact hcall

/-- The guards on an event of a live process. -/
def EventOk (env : Env σ γ) (G : Guard σ γ Sid) (p : Proc σ γ Sid) : Event Sid → Prop
  | .request item         => AdmitOk env G p.data item
  | .continue frm suffix opts => ContinueOk env G p.data frm suffix opts
  | .verify _ _ _ _       => p.phase = .idle → InspectOk G p.data
  | .embed _ _            => InspectOk G p.data
  | .embedBatch _ _       => InspectOk G p.data
  | .evict _              => ∀ r ∈ requests p.data.reqTable, G.evict r
  | .shutdown _           => ∀ r ∈ requests p.data.reqTable, G.evict r
  | .tick => p.data.sys.ticks ≠ 0 → p.phase = .running → TickOk env G (takeTick p.data)
  | .endSession _ _       => True
  | .forkSession _ src new => ForkOk env G p.data src new
  | .resetSession _ _     => True
  | .loadAdapter _ path file => G.load p.data path file
  | .unloadAdapter _ handle  => G.unload p.data handle
  | .setAdapterScale _ handle scale => G.scale p.data handle scale
  | .cancel _             => True

/-- The guards on an event: a stopped process handles none. -/
def StepOk (env : Env σ γ) (G : Guard σ γ Sid) (p : Proc σ γ Sid) (e : Event Sid) : Prop :=
  p.phase ≠ .stopped → EventOk env G p e

/-- A reply after moves. -/
theorem replyWith_steps {p : Proc σ γ Sid} {frm : From} {res : Reply × Data σ γ Sid}
    (h : Moves env G p.data res.2) : Steps env G p (replyWith p frm res) :=
  .live (h.trans (emit_moves res.2 _))

/-- Taking a tick out of the mailbox. -/
theorem takeTick_moves (d : Data σ γ Sid) : Moves env G d (takeTick d) :=
  .single (.sys ⟨.refl _, rfl, List.prefix_refl _⟩)

/-- A tick of a running process, or of one that waits. -/
theorem handleTick_steps {p : Proc σ γ Sid} (hp : Wf env p.data)
    (hG : p.data.sys.ticks ≠ 0 → p.phase = .running → TickOk env G (takeTick p.data)) :
    Steps env G p (handleTick env p) := by
  unfold handleTick
  split
  case isTrue => exact .live .refl
  case isFalse hticks =>
    split
    case isTrue hrunning =>
      exact stepTick_steps (takeTick_moves p.data) ⟨hp.table, hp.sound⟩ (hG hticks hrunning)
    case isFalse => exact .live (takeTick_moves p.data)

/-- **Every event is a run of moves**, or a stop after some. -/
theorem step_steps {p : Proc σ γ Sid} {e : Event Sid} (hp : Wf env p.data)
    (hG : StepOk env G p e) : Steps env G p (step env p e) := by
  unfold step
  split
  case isTrue => exact .live .refl
  case isFalse hlive =>
    have hev := hG hlive
    cases e with
    | request item => exact .live (admitRequest_moves p.data p.phase item hev)
    | «continue» frm suffix opts =>
      exact .live (admitContinue_moves p.data p.phase frm suffix opts hev)
    | endSession frm sid => exact replyWith_steps (dropSession_moves p.data sid)
    | forkSession frm src new => exact replyWith_steps (forkSession_moves p.data src new hev)
    | resetSession frm sid => exact replyWith_steps (resetSessionSeq_moves p.data sid)
    | verify frm pre cands k =>
      show Steps env G p (if p.phase = .idle then _ else _)
      split
      case isTrue hidle => exact replyWith_steps (runVerify_moves p.data pre cands k (hev hidle))
      case isFalse => exact replyWith_steps .refl
    | embed frm tokens => exact replyWith_steps (embedEach_moves [tokens] [] hev)
    | embedBatch frm lists => exact replyWith_steps (embedEach_moves lists [] hev)
    | evict frm => exact replyWith_steps (fireSaveForReason_moves hp (.inl rfl) hev)
    | shutdown frm => exact replyWith_steps (fireSaveForReason_moves hp (.inr rfl) hev)
    | loadAdapter frm path file => exact replyWith_steps (.single (.load hev))
    | unloadAdapter frm handle => exact replyWith_steps (.single (.unload hev))
    | setAdapterScale frm handle scale => exact replyWith_steps (.single (.scale hev))
    | cancel ref => exact .live (handleCancel_moves hp.table ref)
    | tick => exact handleTick_steps hp hev

/-! ### Runs -/

/-- What a stopping process did last moves no seq and keeps the table well formed. -/
theorem Halt.refreshes {d d' : Data σ γ Sid} (h : Halt env G d d') (hd : TableWf env d) :
    Refreshes env d d' := by
  cases h with
  | sys h => exact ⟨hd, rfl, rfl⟩
  | @results _ ops results x pairs hops hstep hpairs hG happ =>
    have hres := applyStepResults_refreshes env pairs (d := withCtx d x) hd
    rw [happ] at hres
    exact ⟨hres.table, hres.pool, hres.pending⟩

/-- An event keeps the process well formed. -/
theorem Steps.wf {p p' : Proc σ γ Sid} (h : Steps env G p p') (hp : Wf env p.data) :
    Wf env p'.data := by
  cases h with
  | live h => exact h.wf hp
  | @halted d d' h h' =>
    have hd := h.wf hp
    have hhalt := h'.refreshes hd.table
    refine ⟨hhalt.table, ?_⟩
    rw [hhalt.pool]
    exact hd.sound

/-! ### Guards that stand in no way -/

/-- The guard lets every request start and wait. -/
structure Guard.Open (G : Guard σ γ Sid) : Prop where
  enqueue : ∀ item, G.enqueue item
  start : ∀ d r lookup, G.start d r lookup
  startMedia : ∀ d r, G.startMedia d r
  resume : ∀ d r, G.resume d r

omit [LinearOrder Sid] in
/-- An open guard lets every text request start. -/
theorem Guard.Open.startOk (h : G.Open) (d : Data σ γ Sid) (item : Item Sid) (q : SeqId) :
    StartOk env G d item q := by
  unfold StartOk PreparedGuard
  split
  · exact h.start _ _ _
  · exact h.startMedia _ _
  · trivial

omit [LinearOrder Sid] in
/-- It lets every request resume. -/
theorem Guard.Open.pinnedGuard (h : G.Open)
    (prepared : Except Err (Prepared Sid) × Data σ γ Sid) : PinnedGuard env G prepared := by
  unfold PinnedGuard
  split
  · exact h.resume _ _
  · trivial
  · trivial

/-- It lets every request wait. -/
theorem Guard.Open.queueOk (h : G.Open) (d : Data σ γ Sid) : QueueOk env G d := by
  refine ⟨fun item _ => h.enqueue item, ?_⟩
  generalize d.pending = items
  induction items generalizing d with
  | nil => trivial
  | cons item rest ih =>
    unfold DispatchOk
    split
    · trivial
    · exact ⟨h.startOk _ _ _, ih _⟩

/-- It lets every request in. -/
theorem Guard.Open.admitOk (h : G.Open) (d : Data σ γ Sid) (item : Item Sid) :
    AdmitOk env G d item := by
  unfold AdmitOk
  split
  · exact h.pinnedGuard _
  · split
    · exact h.startOk _ _ _
    · exact h.enqueue item
  · trivial

omit [LinearOrder Sid] in
/-- No side conditions is an open guard. -/
theorem Guard.open_free : (Guard.free : Guard σ γ Sid).Open :=
  ⟨fun _ => trivial, fun _ _ _ => trivial, fun _ _ => trivial, fun _ _ => trivial⟩

omit [LinearOrder Sid] in
/-- A guard with no conditions on the body of a tick. -/
theorem bodyOk_of (hprefill : ∀ d r, G.prefill d r) (hcommit : ∀ d q res, G.commit d q res)
    (hresults : ∀ d pairs, G.results d pairs) (d : Data σ γ Sid) : BodyOk env G d := by
  unfold BodyOk
  dsimp only
  split
  · exact hprefill _ _
  · split
    · exact fun _ _ _ => hcommit _ _ _
    · exact fun _ _ _ => hresults _ _

/-- The free guard stands in no event's way. -/
theorem stepOk_free (p : Proc σ γ Sid) (e : Event Sid) : StepOk env .free p e := by
  have hopen : (Guard.free : Guard σ γ Sid).Open := Guard.open_free
  intro _
  cases e with
  | request item => exact hopen.admitOk p.data item
  | «continue» frm suffix opts => exact fun _ _ => hopen.pinnedGuard _
  | tick =>
    refine fun _ _ => ⟨?_, fun d' _ => ⟨?_, hopen.queueOk _⟩, fun _ _ _ _ => trivial⟩
    · exact bodyOk_of (fun _ _ => trivial) (fun _ _ _ => trivial) (fun _ _ => trivial) _
    · exact .of_forall (fun _ _ => trivial) _ _
  | verify => exact fun _ _ => trivial
  | embed => exact fun _ => trivial
  | embedBatch => exact fun _ => trivial
  | evict => exact fun _ _ => trivial
  | shutdown => exact fun _ _ => trivial
  | forkSession => exact fun _ _ _ _ _ _ _ => trivial
  | _ => trivial

/-- **Every event keeps the process well formed**. -/
theorem step_wf {p : Proc σ γ Sid} (hp : Wf env p.data) (e : Event Sid) :
    Wf env (step env p e).data :=
  (step_steps hp (stepOk_free p e)).wf hp

/-- **Every reachable process is well formed.** -/
theorem run_wf (ctx : σ) (world : γ) (events : List (Event Sid)) :
    Wf env (run (step env) (init env ctx world) events).data := by
  have hstep : ∀ (p : Proc σ γ Sid) (e : Event Sid), Wf env p.data → True →
      Wf env (step env p e).data := fun p e hp _ => step_wf hp e
  exact AllSteps.invariant hstep (wf_init ctx world) (.of_forall (fun _ _ => trivial) _ _)

end Erllama.Model
