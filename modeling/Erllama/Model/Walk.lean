import Erllama.Model.Wellformed

namespace Erllama.Model

open Lib

/-!
# The functions of the process are runs of moves

The functions that a tick, an admission and a call are made of are runs of moves; the events
themselves are in `Erllama.Model.Events`.

* `ForkOk`, `StartOk`, `AdmitOk`, `ContinueOk` — the side conditions of a guard, at each guarded
  move.
* `forkSession_moves`, `dispatchAdmits_moves`, `admitRequest_moves`, `admitContinue_moves` — under
  these a function takes the process through moves that meet the guard.
-/

variable {σ γ Sid : Type} [LinearOrder Sid] {env : Env σ γ} {G : Guard σ γ Sid}

/-! ### Walking the table -/

/-- **Fold rule.** A pass over the requests of the table that changes each one's own entry only
    is a run of moves if each step is. -/
theorem foldl_moves {g : Data σ γ Sid → Req Sid → Data σ γ Sid}
    {P : Data σ γ Sid → Req Sid → Prop}
    (hg : ∀ d r, Wf env d → P d r → d.reqTable.lookup r.seqId = some r → Moves env G d (g d r))
    (hframe : ∀ d r q, Wf env d → d.reqTable.lookup r.seqId = some r → q ≠ r.seqId →
      (g d r).reqTable.lookup q = d.reqTable.lookup q)
    {rs : List (Req Sid)} (hnodup : (rs.map Req.seqId).Nodup) {d : Data σ γ Sid} (hd : Wf env d)
    (hmem : ∀ r ∈ rs, d.reqTable.lookup r.seqId = some r) (hP : AllSteps g P d rs) :
    Moves env G d (rs.foldl g d) := by
  induction rs generalizing d with
  | nil => exact .refl
  | cons r rs ih =>
    rw [List.map_cons, List.nodup_cons] at hnodup
    have hr := hmem r List.mem_cons_self
    have hfirst := hg d r hd hP.1 hr
    refine hfirst.trans (ih hnodup.2 (hfirst.wf hd) ?_ hP.2)
    intro r' hr'
    have hne : r'.seqId ≠ r.seqId := by
      intro heq
      exact hnodup.1 (heq ▸ List.mem_map_of_mem hr')
    rw [hframe d r r'.seqId hd hr hne]
    exact hmem r' (List.mem_cons_of_mem r hr')

variable (env) in
/-- A pass over some requests of the table. -/
theorem foldl_requests_moves {g : Data σ γ Sid → Req Sid → Data σ γ Sid}
    {P : Data σ γ Sid → Req Sid → Prop}
    (hg : ∀ d r, Wf env d → P d r → d.reqTable.lookup r.seqId = some r → Moves env G d (g d r))
    (hframe : ∀ d r q, Wf env d → d.reqTable.lookup r.seqId = some r → q ≠ r.seqId →
      (g d r).reqTable.lookup q = d.reqTable.lookup q)
    {d : Data σ γ Sid} (hd : Wf env d) (sel : Req Sid → Bool)
    (hP : AllSteps g P d ((requests d.reqTable).filter sel)) :
    Moves env G d (((requests d.reqTable).filter sel).foldl g d) := by
  have hsub : ((requests d.reqTable).filter sel).Sublist (requests d.reqTable) :=
    List.filter_sublist
  refine foldl_moves hg hframe ?_ hd ?_ hP
  · exact (requests_seqId_nodup hd.table.keysMatch).sublist (hsub.map Req.seqId)
  · exact fun r hr => lookup_of_mem_requests hd.table.keysMatch (hsub.subset hr)

/-- A pass over the table that changes records. -/
theorem updateReqs_moves {f : Req Sid → Option (Req Sid)}
    (hf : ∀ r r', f r = some r' → SameCore r r' ∧ LifeStep env r .start r') {d : Data σ γ Sid}
    (hd : Wf env d) : Moves env G d (updateReqs f d) := by
  have hall : (requests d.reqTable).filter (fun _ => true) = requests d.reqTable :=
    List.filter_true _
  unfold updateReqs
  rw [← hall]
  refine foldl_requests_moves env (G := G) (P := fun _ _ => True) ?_ ?_ hd
    (fun _ => true) (.of_forall (fun _ _ => trivial) _ _)
  · intro d r _ _ hr
    split
    case h_1 r' hr' => exact .single (.update hr (hf r r' hr').1 (hf r r' hr').2)
    case h_2 => exact .refl
  · intro d r q _ _ hq
    split
    case h_1 r' hr' =>
      rw [lookup_putReq, if_neg]
      rwa [(hf r r' hr').1.seqId]
    case h_2 => rfl

/-- Marking cancelled requests to finish. -/
theorem honourCancellations_moves {d : Data σ γ Sid} (hd : Wf env d) :
    Moves env G d (honourCancellations d) := by
  refine updateReqs_moves ?_ hd
  intro r r' h
  split at h
  case isTrue hcancel =>
    cases h
    exact ⟨⟨⟨rfl, rfl, rfl, rfl, rfl, id⟩, rfl, rfl, rfl⟩, .stopped (.inl hcancel)⟩
  case isFalse => exact nomatch h

/-- Marking those that only prefill. -/
theorem markTerminal_moves {d : Data σ γ Sid} (hd : Wf env d) :
    Moves env G d (markTerminal d) := by
  refine updateReqs_moves ?_ hd
  intro r r' h
  split at h
  case isTrue hdone =>
    cases h
    exact ⟨⟨⟨rfl, rfl, rfl, rfl, rfl, id⟩, rfl, rfl, rfl⟩, .stopped (.inr hdone.2.2)⟩
  case isFalse => exact nomatch h

/-- Finishing a request changes no other entry of the table. -/
theorem lookup_finishReq_of_ne (d : Data σ γ Sid) (r : Req Sid) {q : SeqId} (h : q ≠ r.seqId) :
    (finishReq env d r).reqTable.lookup q = d.reqTable.lookup q := by
  have hremoved : (removeReq (withSys d (announceFinish env d r)) r.seqId).reqTable.lookup q
      = d.reqTable.lookup q := by
    rw [lookup_removeReq, if_neg h]
    rfl
  unfold finishReq releaseOrPinSeq
  split <;> exact hremoved

/-- Finishing every marked request. -/
theorem finishMarkedReqs_moves {d : Data σ γ Sid} (hd : Wf env d)
    (hG : AllSteps (finishReq env) G.finish d (finishers d)) :
    Moves env G d (finishMarkedReqs env d) :=
  foldl_requests_moves env (fun _ _ _ hP hr => .single (.finish hr hP))
    (fun d r _ _ _ hq => lookup_finishReq_of_ne d r hq) hd _ hG

/-- The table stays well formed until the queue is served. -/
theorem finishMarkedReqs_wf {d : Data σ γ Sid} (hd : Wf env d) :
    Wf env (finishMarkedReqs env (markTerminal d)) := by
  have hmark : Wf env (markTerminal d) := Moves.wf (markTerminal_moves (G := .free) hd) hd
  exact Moves.wf (finishMarkedReqs_moves (G := .free) hmark (.of_forall (fun _ _ => trivial) _ _))
    hmark

/-- Saving every request on the operator's behalf. -/
theorem fireSaveForReason_moves {d : Data σ γ Sid} (hd : Wf env d) {reason : SaveReason}
    (hreason : reason = .evict ∨ reason = .shutdown) (hG : ∀ r ∈ requests d.reqTable, G.evict r) :
    Moves env G d (fireSaveForReason env d reason) := by
  have hpass := foldl_requests_moves env (G := G) (P := fun _ r => G.evict r)
    (g := fun acc r => fireSaveForReq env acc reason r)
    (fun _ _ _ hP hr => .single (.evict hr hP hreason)) ?_ hd (fun _ => true) ?_
  · rwa [List.filter_true] at hpass
  · intro d r q hd hr hq
    unfold fireSaveForReq
    split
    · rfl
    · rw [lookup_putReq, if_neg]
      · rfl
      · rwa [show Req.seqId _ = r.seqId from (creditSave_core r _ r.contextTokens).seqId]
  · rw [List.filter_true]
    have hall : ∀ (rs : List (Req Sid)) (d : Data σ γ Sid), (∀ r ∈ rs, G.evict r) →
        AllSteps (fun acc r => fireSaveForReq env acc reason r) (fun _ r => G.evict r) d rs := by
      intro rs
      induction rs with
      | nil => exact fun _ _ => trivial
      | cons r rs ih =>
        intro d h
        exact ⟨h r List.mem_cons_self, ih _ fun r' hr' => h r' (List.mem_cons_of_mem r hr')⟩
    exact hall _ d hG

/-! ### Sessions and seqs -/

/-- Dropping a session. -/
theorem dropSession_moves (d : Data σ γ Sid) (sid : Sid) :
    Moves env G d (dropSession env d sid) := by
  unfold dropSession
  split
  case h_1 => exact .refl
  case h_2 s hs =>
    split
    case isTrue => exact .refl
    case isFalse hbusy =>
      have hfree := (inFlight_eq_false_iff d s.seqId).mp (Bool.eq_false_iff.mpr hbusy)
      exact .single (.drop hs hfree)

/-- Reclaiming the least recent session. -/
theorem reclaim_moves {d d' : Data σ γ Sid} {except : Option Sid}
    (h : reclaimLruIdleSeqExcept env d except = some d') : Moves env G d d' := by
  unfold reclaimLruIdleSeqExcept at h
  split at h
  · cases h
    exact dropSession_moves d _
  · exact nomatch h

variable (env) in
/-- Dropping a session leaves the table and the other sessions alone. -/
theorem dropSession_frame (d : Data σ γ Sid) (sid : Sid) :
    (dropSession env d sid).reqTable = d.reqTable ∧
      (∀ sid', sid' ≠ sid →
        (dropSession env d sid).sessionSeq.lookup sid' = d.sessionSeq.lookup sid') ∧
      ∀ sid', d.sessionSeq.lookup sid' = none →
        (dropSession env d sid).sessionSeq.lookup sid' = none := by
  unfold dropSession
  split
  case h_1 => exact ⟨rfl, fun _ _ => rfl, fun _ h => h⟩
  case h_2 s hs =>
    split
    · exact ⟨rfl, fun _ _ => rfl, fun _ h => h⟩
    · refine ⟨rfl, ?_, ?_⟩
      · intro sid' hne
        show (d.sessionSeq.erase sid).lookup sid' = _
        rw [AList.lookup_erase_ite, if_neg hne]
      · intro sid' hnone
        show (d.sessionSeq.erase sid).lookup sid' = none
        rw [AList.lookup_erase_ite]
        split
        · rfl
        · exact hnone

/-- A reclamation leaves the table and the excepted session alone, and adds no session. -/
theorem reclaim_frame {d d' : Data σ γ Sid} {except : Option Sid}
    (h : reclaimLruIdleSeqExcept env d except = some d') :
    d'.reqTable = d.reqTable ∧
      (∀ sid, except = some sid → d'.sessionSeq.lookup sid = d.sessionSeq.lookup sid) ∧
      ∀ sid, d.sessionSeq.lookup sid = none → d'.sessionSeq.lookup sid = none := by
  unfold reclaimLruIdleSeqExcept at h
  split at h
  case h_2 => exact nomatch h
  case h_1 oldest rest hsort =>
    cases h
    obtain ⟨htable, hother, hnone⟩ := dropSession_frame env d (ofLex oldest).2
    refine ⟨htable, ?_, hnone⟩
    intro sid hsid
    refine hother sid ?_
    -- The victim is one of the idle pins, so it is not the excepted session.
    have hmem : oldest ∈ idlePins d except := by
      rw [← List.mem_insertionSort (fun a b => a ≤ b), hsort]
      exact List.mem_cons_self
    obtain ⟨p, hp, rfl⟩ := List.mem_map.mp hmem
    rintro rfl
    have hsel := (List.mem_filter.mp hp).2
    rw [hsid] at hsel
    simp at hsel

/-- A seq that was taken came from the head of the pool, perhaps after a reclamation. -/
theorem allocSeq_moves {d d' : Data σ γ Sid} {except : Option Sid} {q : SeqId}
    (h : allocSeq env d except = some (q, d')) :
    ∃ d₀ rest, Moves env G d d₀ ∧ d₀.idleSeqIds = q :: rest ∧
      d' = { d₀ with idleSeqIds := rest } ∧ d₀.reqTable = d.reqTable ∧
      (∀ sid, except = some sid → d₀.sessionSeq.lookup sid = d.sessionSeq.lookup sid) ∧
      ∀ sid, d.sessionSeq.lookup sid = none → d₀.sessionSeq.lookup sid = none := by
  have hpop : ∀ {d₀ : Data σ γ Sid}, popIdle d₀ = some (q, d') →
      ∃ rest, d₀.idleSeqIds = q :: rest ∧ d' = { d₀ with idleSeqIds := rest } := by
    intro d₀ h
    unfold popIdle at h
    split at h
    case h_1 q' rest hidle =>
      cases h
      exact ⟨rest, hidle, rfl⟩
    case h_2 => exact nomatch h
  unfold allocSeq at h
  split at h
  case h_1 taken htaken =>
    cases h
    obtain ⟨rest, hidle, heq⟩ := hpop htaken
    exact ⟨d, rest, .refl, hidle, heq, rfl, fun _ _ => rfl, fun _ h => h⟩
  case h_2 =>
    obtain ⟨d₀, hreclaim, htaken⟩ := Option.bind_eq_some_iff.mp h
    obtain ⟨rest, hidle, heq⟩ := hpop htaken
    exact ⟨d₀, rest, reclaim_moves hreclaim, hidle, heq, reclaim_frame hreclaim⟩

/-- The guard on a fork that comes to a copy: it speaks of the context after the seq was taken. -/
def ForkOk (env : Env σ γ) (G : Guard σ γ Sid) (d : Data σ γ Sid) (src new : Sid) : Prop :=
  ∀ s q d', d.sessionSeq.lookup src = some s → d.reqTable.lookup s.seqId = none →
    d.sessionSeq.lookup new = none → allocSeq env d (some src) = some (q, d') →
      G.fork d'.sys.ctx s.seqId q

/-- Forking a session. -/
theorem forkSession_moves (d : Data σ γ Sid) (src new : Sid) (hG : ForkOk env G d src new) :
    Moves env G d (forkSession env d src new).2 := by
  unfold forkSession
  split
  case h_1 => exact .refl
  case h_2 s hs =>
    split
    case isTrue => exact .refl
    case isFalse hbusy =>
      split
      case isTrue => exact .refl
      case isFalse hnew =>
        split
        case h_2 => exact .refl
        case h_1 q d' halloc =>
          have hrest : d.reqTable.lookup s.seqId = none :=
            (inFlight_eq_false_iff d s.seqId).mp (Bool.eq_false_iff.mpr hbusy)
          have hunknown : d.sessionSeq.lookup new = none := Option.not_isSome_iff_eq_none.mp hnew
          have hguard := hG s q d' hs hrest hunknown halloc
          obtain ⟨d₀, rest, hmoves, hidle, rfl, htable, hkeep, hnone⟩ :=
            allocSeq_moves (G := G) halloc
          refine hmoves.trans ?_
          have hsrc : d₀.sessionSeq.lookup src = some s := (hkeep src rfl).trans hs
          have hfree : d₀.reqTable.lookup s.seqId = none := by
            rw [htable]
            exact hrest
          have hnew' : d₀.sessionSeq.lookup new = none := hnone new hunknown
          -- A failed copy returns the seq to the head it was taken from.
          have hback : ∀ x, { withCtx { d₀ with idleSeqIds := rest } x with
              idleSeqIds := q :: rest } = withCtx d₀ x := by
            intro x
            rw [← hidle]
            rfl
          unfold forkCopy
          split
          case h_1 =>
            have hsame := hback d₀.sys.ctx
            show Moves env G d₀ { withCtx { d₀ with idleSeqIds := rest } d₀.sys.ctx with
              idleSeqIds := q :: rest }
            rw [hsame]
            exact .refl
          case h_2 seqCp hcp =>
            dsimp only
            split
            case h_1 hok =>
              exact .single (.fork hsrc hfree hnew' hidle hcp (Prod.ext hok rfl) hguard)
            case h_2 e herr =>
              show Moves env G d₀ { withCtx { d₀ with idleSeqIds := rest } _ with
                idleSeqIds := q :: rest }
              rw [hback]
              exact .single (.forkFailed hsrc hidle hcp (Prod.ext herr rfl))

/-- Resetting a session. -/
theorem resetSessionSeq_moves (d : Data σ γ Sid) (sid : Sid) :
    Moves env G d (resetSessionSeq env d sid).2 := by
  cases hs : d.sessionSeq.lookup sid with
  | none =>
    have heq : resetSessionSeq env d sid = (.sessionNotFound, d) := by
      unfold resetSessionSeq
      rw [hs]
    rw [heq]
  | some s => exact .single (.reset hs)

/-! ### Starting a request -/

/-- What a prepared request is: a fresh record for the seq. -/
def PreparedAs (env : Env σ γ) (d : Data σ γ Sid) (q : SeqId) (sid : Option Sid)
    (prompt : List Token) : Except Err (Prepared Sid) → Prop
  | .error _ => True
  | .ok (.text r prompt' _ _) =>
    FreshReq env d r ∧ r.seqId = q ∧ r.sessionId = sid ∧ prompt' = prompt
  | .ok (.media r) => FreshMedia d r ∧ r.seqId = q ∧ sid = none

/-- A request was prepared with quiet calls. -/
structure PreparedOk (env : Env σ γ) (d : Data σ γ Sid) (q : SeqId) (sid : Option Sid)
    (prompt : List Token) (res : Except Err (Prepared Sid) × Data σ γ Sid) : Prop where
  quiet : Quiet env d.sys res.2.sys
  eq : res.2 = withSys d res.2.sys
  content : PreparedAs env d q sid prompt res.1

omit [LinearOrder Sid] in
/-- A media request is prepared as a fresh record. -/
theorem prepareMedia_ok (d : Data σ γ Sid) (q : SeqId) (frm : From) (pid : Option Pid)
    (prompt : Bytes) (opts : MediaOpts) (tokens : List Token) :
    PreparedOk env d q none tokens (prepareMedia env d q frm pid prompt opts) := by
  have hsampler := samplerFor_quiet env d.sys opts.gen
  unfold prepareMedia
  split
  case h_1 => exact ⟨.refl _, rfl, trivial⟩
  case h_2 =>
    dsimp only
    split
    case h_1 => exact ⟨hsampler, rfl, trivial⟩
    case h_2 ref _ =>
      split
      case h_1 pid =>
        exact ⟨hsampler.trans (newRequestRef_quiet env _ frm), rfl,
          ⟨rfl, rfl, rfl, rfl, rfl, rfl, rfl, ⟨opts.gen, rfl⟩, rfl⟩, rfl, rfl⟩
      case h_2 =>
        exact ⟨hsampler, rfl, ⟨rfl, rfl, rfl, rfl, rfl, rfl, rfl, ⟨opts.gen, rfl⟩, rfl⟩, rfl, rfl⟩

omit [LinearOrder Sid] in
/-- A record without speculation has no gates to pass. -/
theorem freshReq_of_spec_none {d : Data σ γ Sid} {r : Req Sid} (hmedia : r.media = none)
    (hstate : r.mediaState = none) (hfp : r.requestFp = some d.effectiveFp)
    (hspec : r.spec = none) (hunbegun : r.Unbegun) : FreshReq env d r :=
  ⟨hmedia, hstate, hfp, fun h => by simp [hspec] at h, hunbegun⟩

variable (env) in
omit [LinearOrder Sid] in
/-- So is a queued request. -/
theorem prepareRequest_ok (d : Data σ γ Sid) (item : Item Sid) (q : SeqId) :
    PreparedOk env d q item.sessionId (promptTokensOf env item) (prepareRequest env d item q) := by
  unfold prepareRequest
  split
  case h_1 frm prompt opts => exact prepareMedia_ok d q frm none prompt opts _
  case h_2 frm prompt opts pid => exact prepareMedia_ok d q frm (some pid) prompt opts _
  case h_3 frm prompt opts =>
    have hsampler := samplerFor_quiet env d.sys opts.gen
    dsimp only
    split
    case h_1 => exact ⟨hsampler, rfl, trivial⟩
    case h_2 ref _ =>
      refine ⟨hsampler, rfl, ?_, rfl, rfl, rfl⟩
      exact freshReq_of_spec_none rfl rfl rfl rfl ⟨⟨opts.gen, rfl⟩, rfl⟩
  case h_4 frm tokens opts =>
    -- a prefill asks for no token and has no stop string
    have hunbegun : (prefillOnlyReq d q frm tokens opts.sessionId).Unbegun :=
      ⟨⟨⟨some 0, [], false, none, ⟨0, []⟩⟩, rfl⟩, rfl⟩
    exact ⟨.refl _, rfl, freshReq_of_spec_none rfl rfl rfl rfl hunbegun, rfl, rfl, rfl⟩
  case h_5 frm tokens opts pid =>
    have hsampler := samplerFor_quiet env d.sys opts.gen
    dsimp only
    split
    case h_1 => exact ⟨hsampler, rfl, trivial⟩
    case h_2 ref _ =>
      exact ⟨hsampler.trans (newRequestRef_quiet env _ frm), rfl,
        freshReq_of_spec_none rfl rfl rfl rfl ⟨⟨opts.gen, rfl⟩, rfl⟩, rfl, rfl, rfl⟩

variable (env) in
omit [LinearOrder Sid] in
/-- So is a continuation. -/
theorem prepareContinue_ok (d : Data σ γ Sid) (frm : From) (suffix : List Token)
    (opts : ContinueOpts Sid) (q : SeqId) (stored : List Token) :
    PreparedOk env d q opts.sessionId suffix (prepareContinue env d frm suffix opts q stored) := by
  have hsampler := samplerFor_quiet env d.sys opts.gen
  unfold prepareContinue
  dsimp only
  split
  case h_1 => exact ⟨hsampler, rfl, trivial⟩
  case h_2 ref _ =>
    exact ⟨hsampler.trans (newRequestRef_quiet env _ frm), rfl,
      freshReq_of_spec_none rfl rfl rfl rfl ⟨⟨opts.gen, rfl⟩, rfl⟩, rfl, rfl, rfl⟩

/-- The guard on the admission of a prepared request on a fresh seq. -/
def PreparedGuard (env : Env σ γ) (G : Guard σ γ Sid)
    (prepared : Except Err (Prepared Sid) × Data σ γ Sid) : Prop :=
  match prepared.1 with
  | .ok (.text r _ spec lookup) =>
    G.start (setupSpec env prepared.2 r spec).2 (setupSpec env prepared.2 r spec).1 lookup
  | .ok (.media r) => G.startMedia prepared.2 r
  | .error _ => True

/-- The guard on the admission of a prepared request on its session's seq. -/
def PinnedGuard (env : Env σ γ) (G : Guard σ γ Sid)
    (prepared : Except Err (Prepared Sid) × Data σ γ Sid) : Prop :=
  match prepared.1 with
  | .ok (.text r _ spec _) =>
    G.resume (setupSpec env prepared.2 r spec).2 (setupSpec env prepared.2 r spec).1
  | .ok (.media _) => True
  | .error _ => True

omit [LinearOrder Sid] in
/-- Setting speculation up keeps a fresh request fresh. -/
theorem FreshReq.setupSpec {d : Data σ γ Sid} {r : Req Sid} (h : FreshReq env d r)
    (s : Sys σ γ Sid) (opt : Option SpecOpt) :
    FreshReq env d (setupSpec env (withSys d s) r opt).1 ∧
      (setupSpec env (withSys d s) r opt).1.seqId = r.seqId ∧
      (setupSpec env (withSys d s) r opt).1.sessionId = r.sessionId := by
  obtain ⟨-, hsame⟩ := setupSpec_quiet env (withSys d s) r opt
  refine ⟨⟨hsame.media.trans h.media, hsame.mediaState.trans h.mediaState,
    hsame.requestFp.trans h.requestFp, ?_, h.unbegun.of_scan hsame.scan hsame.coldSaveSegments⟩,
    hsame.seqId, hsame.sessionId⟩
  intro hspec
  rcases hsame.gates hspec with hold | hcfg
  · exact h.gates hold
  · exact hcfg

/-- Moves that end in an admission may first make quiet calls and change the speculator. -/
theorem QuietData.moves {d d' : Data σ γ Sid} (h : QuietData env d d') : Moves env G d d' := by
  obtain ⟨hquiet, spec, heq⟩ := h
  rw [heq]
  exact .tail (.single (.sys hquiet)) (.other (fun _ => .inl) spec)

/-- Starting a prepared request on a seq just taken from the pool.  On an error the seq goes
    back to the pool. -/
theorem startPrepared_moves {d₀ : Data σ γ Sid} {q : SeqId} {rest : List SeqId}
    (hidle : d₀.idleSeqIds = q :: rest) {sid : Option Sid} {prompt : List Token}
    {prepared : Except Err (Prepared Sid) × Data σ γ Sid}
    (hprep : PreparedOk env { d₀ with idleSeqIds := rest } q sid prompt prepared)
    (hG : PreparedGuard env G prepared) :
    (∀ e, (startPrepared env .normal prepared).1 = some e →
      Moves env G d₀
        { (startPrepared env .normal prepared).2 with idleSeqIds := q :: rest } ∧
      (startPrepared env .normal prepared).2.idleSeqIds = rest) ∧
    ((startPrepared env .normal prepared).1 = none →
      Moves env G d₀ (startPrepared env .normal prepared).2) := by
  obtain ⟨hquiet, heq, hcontent⟩ := hprep
  unfold startPrepared
  unfold PreparedGuard at hG
  split
  -- The seq goes back to the pool; only the sampler was made for nothing.
  case h_1 e he =>
    refine ⟨fun e' _ => ⟨?_, by rw [heq]; rfl⟩, nofun⟩
    have hmove : Moves env G d₀ (withSys d₀ prepared.2.sys) := .single (.sys hquiet)
    have hsame : ({ prepared.2 with idleSeqIds := q :: rest } : Data σ γ Sid)
        = withSys d₀ prepared.2.sys := by
      rw [heq, ← hidle]
      rfl
    rwa [hsame]
  -- A text request: the quiet setup, and then one start.
  case h_2 r prompt' spec lookup hr =>
    refine ⟨nofun, fun _ => ?_⟩
    rw [hr] at hG hcontent
    obtain ⟨hfresh, hq, -, -⟩ := hcontent
    dsimp only at hG
    obtain ⟨hfresh', hq', -⟩ := hfresh.setupSpec prepared.2.sys spec
    obtain ⟨hspecQuiet, spec', hspecEq⟩ := (setupSpec_quiet env prepared.2 r spec).1
    rw [← heq] at hfresh' hq'
    have hx : (setupSpec env prepared.2 r spec).2
        = { ({ withSys d₀ (setupSpec env prepared.2 r spec).2.sys with spec := spec' } :
            Data σ γ Sid) with idleSeqIds := rest } := by
      rw [hspecEq, heq]
      rfl
    generalize (setupSpec env prepared.2 r spec).2.sys = s' at hspecQuiet hx
    have hsetup : QuietData env d₀ { withSys d₀ s' with spec := spec' } :=
      ⟨hquiet.trans hspecQuiet, spec', rfl⟩
    refine .tail hsetup.moves ?_
    show Move env G _ (admitOn env (setupSpec env prepared.2 r spec).2
      (setupSpec env prepared.2 r spec).1 .normal prompt' lookup)
    rw [hx] at hG ⊢
    exact .start (d := { withSys d₀ s' with spec := spec' })
      hidle (hq'.trans hq)
      ⟨hfresh'.media, hfresh'.mediaState, hfresh'.requestFp, hfresh'.gates,
        hfresh'.unbegun⟩ prompt' hG
  -- A media request: one start as well.
  case h_3 r hr =>
    refine ⟨nofun, fun _ => ?_⟩
    rw [hr] at hG hcontent
    obtain ⟨hfresh, hq, -⟩ := hcontent
    refine .tail (.single (.sys hquiet)) ?_
    rw [heq] at hG ⊢
    exact .startMedia (d := withSys d₀ prepared.2.sys) hidle hq
      ⟨hfresh.media, hfresh.sessionId, hfresh.coldSaveSegments, hfresh.prefillCursor,
        hfresh.contextTokens, hfresh.spec, hfresh.requestFp, hfresh.unbegun⟩ hG

/-- Starting a prepared request on its session's pinned seq. -/
theorem startPrepared_pinned_moves {d : Data σ γ Sid} {sid : Sid} {s : Session}
    (hs : d.sessionSeq.lookup sid = some s) (hfree : d.reqTable.lookup s.seqId = none)
    {prompt : List Token} {mode : AdmitMode} (hmode : ResumesOn s.tokens prompt mode)
    {prepared : Except Err (Prepared Sid) × Data σ γ Sid}
    (hprep : PreparedOk env d s.seqId (some sid) prompt prepared)
    (hG : PinnedGuard env G prepared) :
    Moves env G d (startPrepared env mode prepared).2 := by
  obtain ⟨hquiet, heq, hcontent⟩ := hprep
  unfold startPrepared
  split
  case h_1 e he =>
    rw [heq]
    exact .single (.sys hquiet)
  case h_2 r prompt' spec lookup hr =>
    unfold PinnedGuard at hG
    rw [hr] at hcontent hG
    obtain ⟨hfresh, hq, hsid, hprompt⟩ := hcontent
    dsimp only at hG
    obtain ⟨hfresh', hq', hsid'⟩ := hfresh.setupSpec prepared.2.sys spec
    obtain ⟨hspecQuiet, spec', hspecEq⟩ := (setupSpec_quiet env prepared.2 r spec).1
    rw [← heq] at hfresh' hq' hsid'
    have hx : (setupSpec env prepared.2 r spec).2
        = { withSys d (setupSpec env prepared.2 r spec).2.sys with spec := spec' } := by
      rw [hspecEq, heq]
      rfl
    generalize (setupSpec env prepared.2 r spec).2.sys = s' at hspecQuiet hx
    have hsetup : QuietData env d { withSys d s' with spec := spec' } :=
      ⟨hquiet.trans hspecQuiet, spec', rfl⟩
    refine .tail hsetup.moves ?_
    show Move env G _ (admitOn env (setupSpec env prepared.2 r spec).2
      (setupSpec env prepared.2 r spec).1 mode prompt' lookup)
    rw [hx] at hG ⊢
    exact .resume (d := { withSys d s' with spec := spec' })
      hs hfree (hq'.trans hq) (hsid'.trans hsid)
      ⟨hfresh'.media, hfresh'.mediaState, hfresh'.requestFp, hfresh'.gates,
        hfresh'.unbegun⟩
      (hprompt ▸ hmode) lookup hG
  case h_3 r hr =>
    rw [hr] at hcontent
    exact nomatch hcontent.2.2

/-- The guard on starting an item on a seq just taken. -/
def StartOk (env : Env σ γ) (G : Guard σ γ Sid) (d : Data σ γ Sid) (item : Item Sid)
    (q : SeqId) : Prop :=
  PreparedGuard env G (prepareRequest env d item q)

/-- Sending a message. -/
theorem emit_moves (d : Data σ γ Sid) (o : Out) : Moves env G d (emit d o) :=
  .single (.sys (mute_emit d.sys o).quiet)

/-- Casting a tick. -/
theorem scheduleTick_moves (d : Data σ γ Sid) : Moves env G d (scheduleTick d) :=
  .single (.sys ⟨.refl _, rfl, List.prefix_refl _⟩)

/-- Starting a queued request on an idle seq. -/
theorem startQueued_moves (d₀ : Data σ γ Sid) {q : SeqId} {rest : List SeqId}
    (hidle : d₀.idleSeqIds = q :: rest) {item : Item Sid}
    (hG : StartOk env G { d₀ with idleSeqIds := rest } item q) :
    Moves env G d₀ (startQueued env { d₀ with idleSeqIds := rest } item q) := by
  have hstart := startPrepared_moves (G := G) hidle
    (prepareRequest_ok env { d₀ with idleSeqIds := rest } item q) hG
  unfold startQueued startRequest
  dsimp only
  split
  case h_1 hok => exact hstart.2 hok
  case h_2 e herr =>
    obtain ⟨hmoves, hrest⟩ := hstart.1 e herr
    refine .trans ?_ (emit_moves _ _)
    unfold pushIdle
    rwa [hrest]

/-- The guards along the queue. -/
def DispatchOk (env : Env σ γ) (G : Guard σ γ Sid) : List (Item Sid) → Data σ γ Sid → Prop
  | [], _ => True
  | item :: rest, d =>
    match allocSeq env d none with
    | none => True
    | some (q, d) =>
      StartOk env G { d with pending := rest } item q ∧
        DispatchOk env G rest (startQueued env { d with pending := rest } item q)

/-- Dispatching the queue. -/
theorem dispatchAdmits_moves (items : List (Item Sid)) {d : Data σ γ Sid}
    (hitems : ∀ item ∈ items, G.enqueue item) (hG : DispatchOk env G items d) :
    Moves env G d (dispatchAdmits env items d) := by
  induction items generalizing d with
  | nil => exact .refl
  | cons item rest ih =>
    unfold dispatchAdmits
    unfold DispatchOk at hG
    split
    case h_1 => exact .refl
    case h_2 q d' halloc =>
      rw [halloc] at hG
      obtain ⟨d₀, ids, hmoves, hidle, rfl, -⟩ := allocSeq_moves (G := G) halloc
      have hidle' : ({ d₀ with pending := rest } : Data σ γ Sid).idleSeqIds = q :: ids := hidle
      have hstart := startQueued_moves (G := G) _ hidle' hG.1
      have hqueue : Moves env G d₀ { d₀ with pending := rest } :=
        .single (.other (fun other h => .inr (hitems other (List.mem_cons_of_mem item h))) d₀.spec)
      have hrest := ih (fun other h => hitems other (List.mem_cons_of_mem item h)) hG.2
      exact (hmoves.trans hqueue).trans (hstart.trans hrest)

/-! ### Admission -/

/-- The guard on an admission. -/
def AdmitOk (env : Env σ γ) (G : Guard σ γ Sid) (d : Data σ γ Sid) (item : Item Sid) : Prop :=
  match resolveAdmissionSeq env d item with
  | .pinned q _ => PinnedGuard env G (prepareRequest env d item q)
  | .normal d =>
    match allocSeq env d none with
    | some (q, d) => StartOk env G d item q
    | none        => G.enqueue item
  | .stickyBusy => True

/-- The guard on a continuation. -/
def ContinueOk (env : Env σ γ) (G : Guard σ γ Sid) (d : Data σ γ Sid) (frm : From)
    (suffix : List Token) (opts : ContinueOpts Sid) : Prop :=
  ∀ s, opts.sessionId.bind d.sessionSeq.lookup = some s →
    PinnedGuard env G (prepareContinue env d frm suffix opts s.seqId s.tokens)

variable (env) in
/-- What the resolution of a request's session says about the session. -/
theorem resolveAdmissionSeq_spec (d : Data σ γ Sid) (item : Item Sid) :
    match resolveAdmissionSeq env d item with
    | .pinned q mode => ∃ sid s, item.sessionId = some sid ∧ d.sessionSeq.lookup sid = some s ∧
        d.reqTable.lookup s.seqId = none ∧ q = s.seqId ∧
        ResumesOn s.tokens (promptTokensOf env item) mode
    | .normal d' => Moves env G d d'
    | .stickyBusy => True := by
  unfold resolveAdmissionSeq
  cases hsid : item.sessionId with
  | none => exact .refl
  | some sid =>
    dsimp only
    cases hs : d.sessionSeq.lookup sid with
    | none => exact .refl
    | some s =>
      dsimp only
      by_cases hbusy : inFlight d s.seqId = true
      · rw [if_pos hbusy]
        trivial
      · have hfree := (inFlight_eq_false_iff d s.seqId).mp (Bool.eq_false_iff.mpr hbusy)
        rw [if_neg hbusy]
        unfold resolveStickyContinuation
        dsimp only
        by_cases hpre : s.tokens <+: promptTokensOf env item
        · rw [if_pos hpre]
          exact ⟨sid, s, rfl, hs, hfree, rfl, rfl⟩
        · rw [if_neg hpre]
          by_cases hlen : max 1 env.cfg.policy.minTokens
              ≤ commonPrefixLen s.tokens (promptTokensOf env item)
          · rw [if_pos hlen]
            exact ⟨sid, s, rfl, hs, hfree, rfl, rfl, by omega⟩
          · rw [if_neg hlen]
            exact .single (.drop hs hfree)

/-- The start of an admission, or its error. -/
theorem startAdmission_moves {d : Data σ γ Sid} {phase : Phase} {frm : From}
    {started : Option Err × Data σ γ Sid} {onError : Data σ γ Sid → Data σ γ Sid}
    (hok : started.1 = none → Moves env G d started.2)
    (herr : ∀ e, started.1 = some e → Moves env G d (onError started.2)) :
    Moves env G d (startAdmission phase frm started onError).data := by
  unfold startAdmission
  split
  case h_1 h => exact (hok h).trans (scheduleTick_moves _)
  case h_2 e h => exact (herr e h).trans (emit_moves _ _)

/-- A text request starts, or it waits. -/
theorem admitNormal_moves (d : Data σ γ Sid) (phase : Phase) (item : Item Sid)
    (hG : ∀ q d', allocSeq env d none = some (q, d') → StartOk env G d' item q)
    (hqueue : allocSeq env d none = none → G.enqueue item) :
    Moves env G d (admitNormal env d phase item).data := by
  unfold admitNormal
  split
  case h_1 q d' halloc =>
    obtain ⟨d₀, rest, hmoves, hidle, rfl, -⟩ := allocSeq_moves (G := G) halloc
    have hstart := startPrepared_moves (G := G) hidle
      (prepareRequest_ok env { d₀ with idleSeqIds := rest } item q) (hG q _ halloc)
    refine hmoves.trans (startAdmission_moves hstart.2 ?_)
    intro e herr
    obtain ⟨hback, hrest⟩ := hstart.1 e herr
    unfold startRequest
    rw [hrest]
    exact hback
  case h_2 hnone =>
    split
    · exact emit_moves d _
    · refine .single (.other ?_ d.spec)
      intro other hother
      rcases List.mem_append.mp hother with hold | hnew
      · exact .inl hold
      · rw [List.mem_singleton.mp hnew]
        exact .inr (hqueue hnone)

/-- An arriving request is admitted, resumed or queued. -/
theorem admitRequest_moves (d : Data σ γ Sid) (phase : Phase) (item : Item Sid)
    (hG : AdmitOk env G d item) : Moves env G d (admitRequest env d phase item).data := by
  have hspec := resolveAdmissionSeq_spec env (G := G) d item
  unfold admitRequest
  unfold AdmitOk at hG
  split
  case h_1 q mode hres =>
    rw [hres] at hspec hG
    obtain ⟨sid, s, hsid, hs, hfree, rfl, hmode⟩ := hspec
    have hprep := prepareRequest_ok env d item s.seqId
    rw [hsid] at hprep
    have hstart := startPrepared_pinned_moves (G := G) hs hfree hmode hprep hG
    exact startAdmission_moves (fun _ => hstart) (fun _ _ => hstart)
  case h_2 d' hres =>
    rw [hres] at hspec hG
    dsimp only at hG
    refine hspec.trans (admitNormal_moves d' phase item ?_ ?_)
    · intro q d'' halloc
      rw [halloc] at hG
      exact hG
    · intro hnone
      rw [hnone] at hG
      exact hG
  case h_3 => exact emit_moves d _

/-- A continuation is resumed, or refused. -/
theorem admitContinue_moves (d : Data σ γ Sid) (phase : Phase) (frm : From)
    (suffix : List Token) (opts : ContinueOpts Sid) (hG : ContinueOk env G d frm suffix opts) :
    Moves env G d (admitContinue env d phase frm suffix opts).data := by
  unfold admitContinue
  split
  case h_1 => exact emit_moves d _
  case h_2 s hs =>
    have hguard := hG s hs
    obtain ⟨sid, hsid, hs⟩ := Option.bind_eq_some_iff.mp hs
    split
    case isTrue => exact emit_moves d _
    case isFalse hbusy =>
      have hfree := (inFlight_eq_false_iff d s.seqId).mp (Bool.eq_false_iff.mpr hbusy)
      split
      case h_1 => exact emit_moves d _
      case h_2 =>
        have hprep := prepareContinue_ok env d frm suffix opts s.seqId s.tokens
        rw [hsid] at hprep
        have hmode : ResumesOn s.tokens suffix (.continue s.tokens) := rfl
        have hstart := startPrepared_pinned_moves (G := G) hs hfree hmode hprep hguard
        exact startAdmission_moves (fun _ => hstart) (fun _ _ => hstart)

end Erllama.Model
