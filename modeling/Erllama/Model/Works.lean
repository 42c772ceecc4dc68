import Erllama.Model.Checkpoints
import Erllama.Model.Queue

namespace Erllama.Model

/-!
# What the body of a tick leaves alone

A tick works on the requests that are not finishing: it changes their records, and what it sends
goes to them.  The others, and with them the cancelled ones, stay as they are until the tick
finishes them.

* `Works` — requests keep their terms, finishing ones their record, and only the others are
  spoken to.
* `tickBody_works` — the body of a tick, however it ends.
* `AdmitsWith` — what requests are admitted with and their terms decide.
-/

variable {σ γ Sid : Type} {env : Env σ γ}

/-- The system after messages of which only those to `stream` are events. -/
def Voices (stream : Option (Pid × Ref)) (s s' : Sys σ γ Sid) : Prop :=
  ∃ new : List Out, s'.out = s.out ++ new ∧
    ∀ pid ref ev, Out.send pid ref ev ∈ new → stream = some (pid, ref)

/-- A function that sends nothing. -/
theorem SameMail.voices {s s' : Sys σ γ Sid} (h : SameMail s s') (stream : Option (Pid × Ref)) :
    Voices stream s s' :=
  ⟨[], by rw [h.out, List.append_nil], fun _ _ _ hmem => absurd hmem List.not_mem_nil⟩

/-- Messages to the caller's own stream. -/
theorem Sends.voices {stream : Option (Pid × Ref)} {s s' : Sys σ γ Sid}
    (h : Sends stream s s') : Voices stream s s' := by
  obtain ⟨evs, -, hout⟩ := h.out
  refine ⟨noticesTo stream evs, hout, fun pid ref ev hmem => ?_⟩
  unfold noticesTo at hmem
  split at hmem
  case h_1 pid' ref' =>
    obtain ⟨ev', -, heq⟩ := List.mem_map.mp hmem
    cases heq
    rfl
  case h_2 => exact absurd hmem List.not_mem_nil

/-- A request that is told an error, and its stream with it. -/
theorem voices_error {s : Sys σ γ Sid} {pid : Pid} {ref : Ref} (e : Err) :
    Voices (some (pid, ref)) s ((s.emit (.unregister ref)).emit (.send pid ref (.error e))) := by
  refine ⟨[.unregister ref, .send pid ref (.error e)], ?_, fun pid' ref' ev hmem => ?_⟩
  · exact List.append_assoc s.out _ _
  · rcases List.mem_cons.mp hmem with heq | hmem
    · exact nomatch heq
    · cases List.mem_singleton.mp hmem
      rfl

/-- A request that fails tells its own caller. -/
theorem notifyFailure_voices (s : Sys σ γ Sid) (r : Req Sid) (e : Err) :
    Voices r.stream s (notifyFailure s r e) := by
  unfold notifyFailure
  split
  case h_1 pid ref hstream => exact hstream ▸ voices_error e
  case h_2 =>
    split
    case h_1 frm _ =>
      refine ⟨[.reply frm (.error e)], rfl, fun pid ref ev hmem => ?_⟩
      exact nomatch List.mem_singleton.mp hmem
    case h_2 => exact (SameMail.refl s).voices _

/-- The result of a request is sent to its own stream. -/
theorem Progress.voices {r : Req Sid} {s : Sys σ γ Sid} {res : Req Sid × Sys σ γ Sid}
    (h : Progress r s res) : Voices r.stream s res.2 := by
  cases h with
  | sends h => exact h.sends.voices
  | refuses terms flag mark eq =>
    rw [eq]
    unfold failThinkingDisabled
    split
    case h_1 pid ref hstream => exact hstream ▸ voices_error _
    case h_2 => exact (SameMail.refl s).voices _

/-- A result keeps the terms of its request. -/
theorem Progress.terms_eq {r : Req Sid} {s : Sys σ γ Sid} {res : Req Sid × Sys σ γ Sid}
    (h : Progress r s res) : res.1.terms = r.terms := by
  cases h with
  | sends h => exact h.terms
  | refuses terms flag mark eq => exact terms

/-- Work on the requests that are not finishing. -/
structure Works (d d' : Data σ γ Sid) : Prop where
  comes : ∀ q r', d'.reqTable.lookup q = some r' →
    ∃ r, d.reqTable.lookup q = some r ∧ r'.terms = r.terms
  stays : ∀ q r, d.reqTable.lookup q = some r → r.finishing = true →
    d'.reqTable.lookup q = some r
  voices : ∃ new : List Out, d'.sys.out = d.sys.out ++ new ∧
    ∀ pid ref ev, Out.send pid ref ev ∈ new →
      ∃ q r, d.reqTable.lookup q = some r ∧ r.finishing = false ∧ r.stream = some (pid, ref)

/-- Nothing happened to the table, and nothing was sent. -/
theorem Works.of_table {d d' : Data σ γ Sid} (htable : d'.reqTable = d.reqTable)
    (hout : d'.sys.out = d.sys.out) : Works d d' where
  comes := fun q r' hr' => ⟨r', htable ▸ hr', rfl⟩
  stays := fun q r hr _ => htable ▸ hr
  voices := ⟨[], by rw [hout, List.append_nil], fun _ _ _ hmem => absurd hmem List.not_mem_nil⟩

/-- Nothing was worked on. -/
theorem Works.refl (d : Data σ γ Sid) : Works d d := .of_table rfl rfl

/-- One piece of work after another. -/
theorem Works.trans {d d' d'' : Data σ γ Sid} (h : Works d d') (h' : Works d' d'') :
    Works d d'' where
  comes := fun q r'' hr'' => by
    obtain ⟨r', hr', heq'⟩ := h'.comes q r'' hr''
    obtain ⟨r, hr, heq⟩ := h.comes q r' hr'
    exact ⟨r, hr, heq'.trans heq⟩
  stays := fun q r hr hfin => h'.stays q r (h.stays q r hr hfin) hfin
  voices := by
    obtain ⟨new, hout, hnew⟩ := h.voices
    obtain ⟨new', hout', hnew'⟩ := h'.voices
    refine ⟨new ++ new', by rw [hout', hout, List.append_assoc], fun pid ref ev hmem => ?_⟩
    rcases List.mem_append.mp hmem with hmem | hmem
    · exact hnew pid ref ev hmem
    · obtain ⟨q, r', hr', hfin', hstream'⟩ := hnew' pid ref ev hmem
      obtain ⟨r, hr, hterms⟩ := h.comes q r' hr'
      refine ⟨q, r, hr, Bool.eq_false_iff.mpr fun hfin => ?_, stream_of_terms hterms ▸ hstream'⟩
      -- A finishing request would still be there.
      rw [h.stays q r hr hfin] at hr'
      cases hr'
      rw [hfin] at hfin'
      exact nomatch hfin'

/-- Another record of an unfinished request, after something was sent to it. -/
theorem Works.put {d : Data σ γ Sid} {q : SeqId} {r r' : Req Sid} {s : Sys σ γ Sid}
    (hkeys : KeysMatch d.reqTable) (hr : d.reqTable.lookup q = some r)
    (hfin : r.finishing = false) (hterms : r'.terms = r.terms)
    (hvoices : Voices r.stream d.sys s) : Works d (putReq (withSys d s) r') := by
  have hq : r'.seqId = q := (seqId_of_terms hterms).trans (hkeys q r hr)
  constructor
  · intro q' r'' hr''
    rw [lookup_putReq, hq] at hr''
    split at hr''
    case isTrue heq =>
      cases hr''
      exact ⟨r, heq ▸ hr, hterms⟩
    case isFalse => exact ⟨r'', hr'', rfl⟩
  · intro q' r₀ hr₀ hfin₀
    rw [lookup_putReq, hq, if_neg]
    · exact hr₀
    · rintro rfl
      rw [hr] at hr₀
      cases hr₀
      rw [hfin] at hfin₀
      exact nomatch hfin₀
  · obtain ⟨new, hout, hnew⟩ := hvoices
    exact ⟨new, hout, fun pid ref ev hmem => ⟨q, r, hr, hfin, hnew pid ref ev hmem⟩⟩

/-- An unfinished request leaves the table, after something was sent to it. -/
theorem Works.remove {d : Data σ γ Sid} {q : SeqId} {r : Req Sid} {s : Sys σ γ Sid}
    (hr : d.reqTable.lookup q = some r) (hfin : r.finishing = false)
    (hvoices : Voices r.stream d.sys s) : Works d (removeReq (withSys d s) q) := by
  constructor
  · intro q' r' hr'
    rw [lookup_removeReq] at hr'
    split at hr'
    · cases hr'
    · exact ⟨r', hr', rfl⟩
  · intro q' r₀ hr₀ hfin₀
    rw [lookup_removeReq, if_neg]
    · exact hr₀
    · rintro rfl
      rw [hr] at hr₀
      cases hr₀
      rw [hfin] at hfin₀
      cases hfin₀
  · obtain ⟨new, hout, hnew⟩ := hvoices
    exact ⟨new, hout, fun pid ref ev hmem => ⟨q, r, hr, hfin, hnew pid ref ev hmem⟩⟩

/-- The same for a request that may have become finishing since. -/
theorem Works.put_after {d d' : Data σ γ Sid} (h : Works d d') {q : SeqId} {r r' r'' : Req Sid}
    {s : Sys σ γ Sid} (hr : d.reqTable.lookup q = some r) (hfin : r.finishing = false)
    (hr' : d'.reqTable.lookup q = some r') (hseq : r''.seqId = q)
    (hterms : r''.terms = r'.terms) (hout : s.out = d'.sys.out) :
    Works d (putReq (withSys d' s) r'') := by
  constructor
  · intro q' r₁ hr₁
    rw [lookup_putReq, hseq] at hr₁
    split at hr₁
    case isTrue heq =>
      cases hr₁
      obtain ⟨r₀, hr₀, heq₀⟩ := h.comes q r' hr'
      exact ⟨r₀, heq ▸ hr₀, hterms.trans heq₀⟩
    case isFalse => exact h.comes q' r₁ hr₁
  · intro q' r₀ hr₀ hfin₀
    rw [lookup_putReq, hseq, if_neg]
    · exact h.stays q' r₀ hr₀ hfin₀
    · rintro rfl
      rw [hr] at hr₀
      cases hr₀
      rw [hfin] at hfin₀
      exact nomatch hfin₀
  · obtain ⟨new, hnew, hvoices⟩ := h.voices
    exact ⟨new, hout.trans hnew, hvoices⟩

/-! ### The body of a tick -/

/-- An active request is in the table and not finishing. -/
theorem active_unfinished {d : Data σ γ Sid} (hkeys : KeysMatch d.reqTable) {r : Req Sid}
    (h : r ∈ activeReqs d) : d.reqTable.lookup r.seqId = some r ∧ r.finishing = false := by
  obtain ⟨hmem, hfin⟩ := List.mem_filter.mp h
  exact ⟨lookup_of_mem_requests hkeys hmem, by simpa using hfin⟩

/-- The rows of a step are those of active requests. -/
theorem active_of_budget {d : Data σ γ Sid} {ops : List (SeqId × Op)}
    (h : applyBatchBudget env (allOps d) = some ops) {op : SeqId × Op} (hop : op ∈ ops) :
    ∃ r ∈ activeReqs d, r.seqId = op.1 := by
  have hsub : ((slicePrefills env.cfg.policy.prefillChunkSize (allOps d)
      (env.cfg.totalBatchBudget - (allOps d).countP fun p => p.2.isDecode)).map Prod.fst).Sublist
      ((allOps d).map Prod.fst) := map_fst_slicePrefills _ _ _
  unfold applyBatchBudget at h
  dsimp only at h
  split at h
  · exact nomatch h
  cases h
  obtain ⟨row, hrow, heq⟩ := List.mem_map.mp (hsub.subset (List.mem_map_of_mem hop))
  have hmem : row ∈ (activeReqs d).filterMap fun r => (opOf r).map (r.seqId, ·) := by
    rcases List.mem_append.mp hrow with h | h <;> exact (List.mem_filter.mp h).1
  obtain ⟨r, hr, hmap⟩ := List.mem_filterMap.mp hmem
  obtain ⟨op', -, rfl⟩ := Option.map_eq_some_iff.mp hmap
  exact ⟨r, hr, heq⟩

/-- Every row is that of a request that goes on. -/
theorem rows_unfinished {d : Data σ γ Sid} (hkeys : KeysMatch d.reqTable)
    {ops : List (SeqId × Op)} (h : applyBatchBudget env (allOps d) = some ops) {op : SeqId × Op}
    (hop : op ∈ ops) {r : Req Sid} (hr : d.reqTable.lookup op.1 = some r) :
    r.finishing = false := by
  obtain ⟨r', hr', hseq⟩ := active_of_budget h hop
  obtain ⟨hlookup, hfin⟩ := active_unfinished hkeys hr'
  rw [hseq, hr] at hlookup
  cases hlookup
  exact hfin

/-- Results are work on requests that go on. -/
theorem applyStepResults_works {pairs : List ResultPair}
    (hnodup : (pairs.map fun pair => pair.1.1).Nodup) {d : Data σ γ Sid}
    (hkeys : KeysMatch d.reqTable)
    (hfin : ∀ pair ∈ pairs, ∀ r, d.reqTable.lookup pair.1.1 = some r → r.finishing = false) :
    Works d (applyStepResults env pairs d).2 := by
  induction pairs generalizing d with
  | nil => exact .refl d
  | cons pair pairs ih =>
    obtain ⟨⟨q, op⟩, res⟩ := pair
    rw [List.map_cons, List.nodup_cons] at hnodup
    unfold applyStepResults
    split
    case h_1 => exact .refl d
    case h_2 r hr =>
      split
      case h_1 => exact .refl d
      case h_2 r' s hres =>
        have hprog := stepResult_progress env d r hres
        have hseq := seqId_of_terms hprog.terms_eq
        have hfirst : Works d (putReq (withSys d s) r') :=
          .put hkeys hr (hfin _ List.mem_cons_self r hr) hprog.terms_eq hprog.voices
        refine hfirst.trans (ih hnodup.2 (KeysMatch.putReq (d := withSys d s) hkeys r') ?_)
        intro pair hpair r'' hr''
        rw [lookup_putReq, if_neg] at hr''
        · exact hfin pair (List.mem_cons_of_mem _ hpair) r'' hr''
        · rw [hseq, hkeys q r hr]
          rintro rfl
          exact hnodup.1 (List.mem_map_of_mem (f := fun pair => pair.1.1) hpair)

variable (env) in
/-- So are committed tokens. -/
theorem applySpecCommitted_works (q : SeqId) (eog : Bool) (tokens : List Token)
    {d : Data σ γ Sid} (hkeys : KeysMatch d.reqTable) :
    Works d (applySpecCommitted env q eog tokens d).2 := by
  induction tokens generalizing d with
  | nil => exact .refl d
  | cons tok rest ih =>
    unfold applySpecCommitted
    split
    case h_1 => exact .refl d
    case h_2 r hr =>
      split
      case isTrue => exact .refl d
      case isFalse hfin =>
        have hspeaks := tokenResult_speaks env d r tok (if rest = [] then eog else false)
        have hfirst := Works.put hkeys hr (Bool.eq_false_iff.mpr hfin) hspeaks.terms
          hspeaks.sends.voices
        exact hfirst.trans (ih (KeysMatch.putReq (d := withSys d _) hkeys _))

/-- The commit of a speculative step, for an unfinished request. -/
theorem commitSpec_works {d : Data σ γ Sid} (hkeys : KeysMatch d.reqTable) {q : SeqId}
    {r : Req Sid} (hr : d.reqTable.lookup q = some r) (hfin : r.finishing = false)
    (draft : List Token) (res : SpecResult) : Works d (commitSpec env d q draft res).data := by
  have happ := applySpecCommitted_works env q res.eog res.committed hkeys
  have htrim : Works d (specTrimOvershoot env
      (applySpecCommitted env q res.eog res.committed d).2 q) := by
    refine happ.trans ?_
    unfold specTrimOvershoot
    split
    · exact .refl _
    · exact .of_table rfl (backendSeqRmFrom_mail env _ q _).out
  have hfeedback : ∀ d' : Data σ γ Sid, Works d d' → KeysMatch d'.reqTable →
      Works d (specRecordFeedback env d' q draft.length res.nAcc) := by
    intro d' h hkeys'
    have hout : (specAccept env d' q res.nAcc).out = d'.sys.out := by
      unfold specAccept
      split <;> rfl
    unfold specRecordFeedback
    dsimp only
    split
    case h_1 => exact h.trans (.of_table rfl hout)
    case h_2 r' hr' => exact h.put_after hr hfin hr' (hkeys' q r' hr') rfl hout
  have hkeys' : KeysMatch (applySpecCommitted env q res.eog res.committed d).2.reqTable := by
    have hother : ∀ (tokens : List Token) (d : Data σ γ Sid), KeysMatch d.reqTable →
        KeysMatch (applySpecCommitted env q res.eog tokens d).2.reqTable := by
      intro tokens
      induction tokens with
      | nil => exact fun d h => h
      | cons tok rest ih =>
        intro d h
        unfold applySpecCommitted
        split
        · exact h
        · split
          · exact h
          · exact ih _ (KeysMatch.putReq (d := withSys d _) h _)
    exact hother res.committed d hkeys
  unfold commitSpec
  dsimp only
  split
  case h_1 => exact happ
  case h_2 =>
    split
    · exact hfeedback _ happ hkeys'
    · refine hfeedback _ htrim ?_
      unfold specTrimOvershoot
      split <;> exact hkeys'

/-- A failed step is no work. -/
theorem decodeError_works (d : Data σ γ Sid) (x : σ) (e : Reason) :
    Works d (decodeError (withCtx d x) e).data := by
  unfold decodeError
  split <;> exact .of_table rfl rfl

/-- A tick that prefills a media request works on it. -/
theorem runMediaTick_works {d : Data σ γ Sid} (hkeys : KeysMatch d.reqTable) {r : Req Sid}
    (h : r ∈ activeReqs d) : Works d (runMediaTick env d r).data := by
  obtain ⟨hr, hfin⟩ := active_unfinished hkeys h
  unfold runMediaTick
  split
  case h_1 => exact .refl d
  case h_2 cb _ =>
    dsimp only
    split
    case h_1 => exact .put hkeys hr hfin rfl ((mail_ctx d.sys _).voices _)
    case h_2 e _ =>
      generalize (cb.prefill d.sys.ctx r.mediaPrompt (r.media.getD []) r.seqId
        r.mediaAddSpecial).2 = x
      obtain ⟨new, hout, hnew⟩ :=
        notifyFailure_voices (withCtx d x).sys r (.mediaFailed e)
      have hfail : Voices r.stream d.sys (failRequest env (withCtx d x).sys r (.mediaFailed e)) :=
        ⟨new, (failRequest_mail env _ _).out.trans hout, hnew⟩
      have hgone := Works.remove hr hfin hfail
      exact ⟨hgone.comes, hgone.stays, hgone.voices⟩

/-- A tick that speculates works on its request. -/
theorem runSpecTick_works {d : Data σ γ Sid} (hkeys : KeysMatch d.reqTable) {r : Req Sid}
    (hr : d.reqTable.lookup r.seqId = some r) (hfin : r.finishing = false) (draft : List Token) :
    Works d (runSpecTick env d r draft).data := by
  unfold runSpecTick
  split
  case h_2 => exact .refl d
  case h_1 cb sampler _ _ =>
    dsimp only
    split
    case h_1 res _ =>
      generalize (cb.step d.sys.ctx sampler r.seqId draft).2 = x
      have hctx : Works d (withCtx d x) := .of_table rfl rfl
      exact hctx.trans (commitSpec_works (d := withCtx d x) hkeys hr hfin draft res)
    case h_2 e _ => exact decodeError_works d _ e

/-- A tick that steps a batch works on the requests of its rows. -/
theorem stepTickOps_works {d : Data σ γ Sid} (hd : TableWf env d) :
    Works d (stepTickOps env d).data := by
  unfold stepTickOps
  split
  · exact .refl d
  · exact .refl d
  case h_3 ops _ hbudget =>
    have hfit := opsFit_of_budget hd hbudget
    dsimp only
    split
    case h_2 e _ => exact decodeError_works d _ e
    case h_1 results _ =>
      have hctx : Works d (withCtx d (env.be.step d.sys.ctx ops).2) := .of_table rfl rfl
      unfold finishStep
      split
      case h_1 => exact hctx
      case h_2 pairs hpairs =>
        have hfst := (Contract.pairOpsWithResults_spec hpairs).1
        have hseqs : (pairs.map fun pair => pair.1.1) = ops.map Prod.fst := by
          rw [← hfst, List.map_map]
          rfl
        have happ : Works (withCtx d (env.be.step d.sys.ctx ops).2)
            (applyStepResults env pairs (withCtx d (env.be.step d.sys.ctx ops).2)).2 := by
          refine applyStepResults_works (hseqs ▸ hfit.nodup) hd.keysMatch ?_
          intro pair hpair r hr
          exact rows_unfinished hd.keysMatch hbudget (hfst ▸ List.mem_map_of_mem hpair) hr
        dsimp only
        split
        · exact hctx.trans happ
        · exact hctx.trans happ

/-- The request that speculates is an active one with its cursor moved. -/
theorem specDraft_of_ready {d : Data σ γ Sid} {r : Req Sid} {draft : List Token}
    (h : (maybeSpecTick env d).1 = some (r, draft)) :
    ∃ r₀ ∈ activeReqs d, r.seqId = r₀.seqId ∧ r.finishing = r₀.finishing := by
  unfold maybeSpecTick at h
  split at h
  case h_2 => exact nomatch h
  case h_1 r₀ hactive =>
    have hmem : r₀ ∈ activeReqs d := hactive ▸ List.mem_singleton_self r₀
    split at h
    case isFalse => exact nomatch h
    case isTrue =>
      unfold specDraftFor at h
      split at h
      case h_2 => exact nomatch h
      case h_1 =>
        split at h
        · exact nomatch h
        · dsimp only at h
          split at h
          · split at h
            · exact nomatch h
            · cases h
              exact ⟨r₀, hmem, rfl, rfl⟩
          · exact nomatch h

variable (env) in
/-- Asking for a draft is no work. -/
theorem maybeSpecTick_works {d : Data σ γ Sid} (hkeys : KeysMatch d.reqTable) :
    Works d (maybeSpecTick env d).2 := by
  unfold maybeSpecTick
  split
  case h_2 => exact .refl d
  case h_1 r hactive =>
    obtain ⟨hr, hfin⟩ := active_unfinished hkeys (hactive ▸ List.mem_singleton_self r)
    have hput : ∀ (x : σ) {r' : Req Sid}, r'.terms = r.terms →
        Works d (putReq (withCtx d x) r') := fun x r' hterms =>
      .put hkeys hr hfin hterms ((mail_ctx d.sys x).voices _)
    split
    case isFalse => exact .refl d
    case isTrue =>
      unfold specDraftFor
      split
      case h_2 => exact .refl d
      case h_1 cb cfg cfg' ref _ _ _ =>
        split
        · exact .refl d
        · dsimp only
          split
          · split
            · exact hput _ rfl
            · exact hput _ rfl
          · exact hput _ rfl

variable [LinearOrder Sid]

/-- **The body of a tick**, however it ends, works on the unfinished requests. -/
theorem tickBody_works {d : Data σ γ Sid} (hd : Wf env d) :
    Works (honourCancellations d) (tickBody env d).data := by
  have hwf := Moves.wf (honourCancellations_moves (G := .free) hd) hd
  unfold tickBody
  dsimp only
  split
  case h_1 r hmedia =>
    refine runMediaTick_works hwf.table.keysMatch ?_
    unfold maybeMediaTick at hmedia
    split at hmedia
    case h_1 r' hactive =>
      split at hmedia
      case isTrue =>
        cases hmedia
        rw [hactive]
        exact List.mem_singleton_self r
      case isFalse => cases hmedia
    case h_2 => cases hmedia
  case h_2 =>
    have hspec := maybeSpecTick_works env hwf.table.keysMatch
    obtain ⟨hdraft, htable⟩ := maybeSpecTick_moves (G := .free) hwf.table
    have hwf' := Moves.wf hdraft hwf
    refine hspec.trans ?_
    split
    case h_1 r draft hready =>
      obtain ⟨hr, -⟩ := htable r draft hready
      refine runSpecTick_works hwf'.table.keysMatch hr ?_ draft
      -- A finishing request would have stayed as it was, and was not active.
      refine Bool.eq_false_iff.mpr fun hfin => ?_
      obtain ⟨r₀, hactive, hsame⟩ := specDraft_of_ready hready
      obtain ⟨hr₀, hfin₀⟩ := active_unfinished hwf.table.keysMatch hactive
      rw [hsame.2, hfin₀] at hfin
      cases hfin
    case h_2 => exact stepTickOps_works hwf'.table

/-! ### Requests that join -/

/-- Only streaming requests have a reference. -/
def Req.Addressed (r : Req Sid) : Prop := r.mode ≠ .streaming → r.requestRef = none

omit [LinearOrder Sid] in
/-- A request with a reference has a stream. -/
theorem Req.Addressed.stream {r : Req Sid} (h : r.Addressed) (hstream : r.HasStream) {ref : Ref}
    (href : r.requestRef = some ref) : ∃ pid, r.stream = some (pid, ref) := by
  have hmode : r.mode = .streaming := by
    by_contra hne
    rw [h hne] at href
    exact nomatch href
  obtain ⟨⟨pid, ref'⟩, hp⟩ := Option.isSome_iff_exists.mp (hstream hmode)
  have hp' := hp
  unfold Req.stream at hp'
  split at hp'
  case h_1 href' =>
    cases hp'
    rw [href] at href'
    cases href'
    exact ⟨pid, hp⟩
  case h_2 => exact nomatch hp'

/-- What holds of the record of a prepared request. -/
def PreparedAll (P : Req Sid → Prop) (res : Except Err (Prepared Sid)) : Prop :=
  match res with
  | .error _            => True
  | .ok (.text r _ _ _) => P r
  | .ok (.media r)      => P r

/-- Requests are admitted with the property, and their terms but the cancel mark decide it. -/
structure AdmitsWith (env : Env σ γ) (P : Req Sid → Prop) : Prop where
  congr : ∀ {r r' : Req Sid}, r'.terms = { r.terms with cancelPending := r'.cancelPending } →
    P r → P r'
  request : ∀ (d : Data σ γ Sid) item q, PreparedAll P (prepareRequest env d item q).1
  continuation : ∀ (d : Data σ γ Sid) frm suffix opts q stored,
    PreparedAll P (prepareContinue env d frm suffix opts q stored).1

variable {P : Req Sid → Prop}

omit [LinearOrder Sid] in
/-- What holds at admission is a matter of the terms. -/
theorem AdmitsWith.of_terms (h : AdmitsWith env P) {r r' : Req Sid} (hterms : r'.terms = r.terms)
    (hr : P r) : P r' := by
  have hcancel : r'.cancelPending = r.cancelPending := congrArg Terms.cancelPending hterms
  refine h.congr ?_ hr
  rw [hterms, hcancel]
  rfl

section Prepare

variable (env)

omit [LinearOrder Sid] in
/-- A media request is prepared with its caller's address. -/
theorem prepareMedia_addressed (d : Data σ γ Sid) (q : SeqId) (frm : From) (pid : Option Pid)
    (prompt : Bytes) (opts : MediaOpts) :
    PreparedAll Req.Addressed (prepareMedia env d q frm pid prompt opts).1 := by
  unfold prepareMedia
  generalize mediaGates env d opts = gates
  generalize samplerFor env d.sys opts.gen = made
  obtain ⟨made, s⟩ := made
  cases gates with
  | error e => trivial
  | ok u =>
    cases made with
    | error e => trivial
    | ok ref =>
      cases pid with
      | none => exact fun _ => rfl
      | some pid => exact fun h => absurd rfl h

omit [LinearOrder Sid] in
/-- So is a queued request. -/
theorem prepareRequest_addressed (d : Data σ γ Sid) (item : Item Sid) (q : SeqId) :
    PreparedAll Req.Addressed (prepareRequest env d item q).1 := by
  unfold prepareRequest
  split
  case h_1 frm prompt opts => exact prepareMedia_addressed env d q frm none prompt opts
  case h_2 frm prompt opts pid => exact prepareMedia_addressed env d q frm (some pid) prompt opts
  case h_3 frm prompt opts =>
    dsimp only
    split
    · trivial
    · exact fun _ => rfl
  case h_4 => exact fun _ => rfl
  case h_5 frm tokens opts pid =>
    dsimp only
    split
    · trivial
    · exact fun h => absurd rfl h

omit [LinearOrder Sid] in
/-- So is a continuation. -/
theorem prepareContinue_addressed (d : Data σ γ Sid) (frm : From) (suffix : List Token)
    (opts : ContinueOpts Sid) (q : SeqId) (stored : List Token) :
    PreparedAll Req.Addressed (prepareContinue env d frm suffix opts q stored).1 := by
  unfold prepareContinue
  dsimp only
  split
  · trivial
  · exact fun h => absurd rfl h

omit [LinearOrder Sid] in
/-- Every admitted request is addressed. -/
theorem admitsWith_addressed : AdmitsWith env (Req.Addressed : Req Sid → Prop) where
  congr := by
    intro r r' hterms hr
    have hmode : r'.mode = r.mode := congrArg Terms.mode hterms
    have href : r'.requestRef = r.requestRef := congrArg Terms.requestRef hterms
    unfold Req.Addressed
    rw [hmode, href]
    exact hr
  request := prepareRequest_addressed env
  continuation := prepareContinue_addressed env

end Prepare

/-- The requests of the table stay as they are, and new ones have the property. -/
structure Joins (P : Req Sid → Prop) (d d' : Data σ γ Sid) : Prop where
  stays : ∀ q r, d.reqTable.lookup q = some r → d'.reqTable.lookup q = some r
  comes : ∀ q r, d'.reqTable.lookup q = some r → d.reqTable.lookup q = some r ∨ P r

omit [LinearOrder Sid] in
/-- A function that keeps the table. -/
theorem Joins.of_table {d d' : Data σ γ Sid} (h : d'.reqTable = d.reqTable) : Joins P d d' :=
  ⟨fun _ _ hr => h ▸ hr, fun _ _ hr => .inl (h ▸ hr)⟩

omit [LinearOrder Sid] in
/-- One admission after another. -/
theorem Joins.trans {d d' d'' : Data σ γ Sid} (h : Joins P d d') (h' : Joins P d' d'') :
    Joins P d d'' where
  stays := fun q r hr => h'.stays q r (h.stays q r hr)
  comes := fun q r hr => (h'.comes q r hr).elim (h.comes q r) .inr

omit [LinearOrder Sid] in
/-- A request joins on a free seq. -/
theorem Joins.put {d : Data σ γ Sid} {r : Req Sid} (hfree : d.reqTable.lookup r.seqId = none)
    (hr : P r) : Joins P d (putReq d r) := by
  constructor
  · intro q r₀ hr₀
    rw [lookup_putReq, if_neg]
    · exact hr₀
    · rintro rfl
      rw [hfree] at hr₀
      cases hr₀
  · intro q r₀ hr₀
    rw [lookup_putReq] at hr₀
    split at hr₀
    · cases hr₀
      exact .inr hr
    · exact .inl hr₀

omit [LinearOrder Sid] in
/-- A prepared request on a free seq joins. -/
theorem startPrepared_joins {d : Data σ γ Sid} {q : SeqId} {sid : Option Sid}
    {prompt : List Token} {prepared : Except Err (Prepared Sid) × Data σ γ Sid}
    (hfree : d.reqTable.lookup q = none) (hprep : PreparedOk env d q sid prompt prepared)
    (hP : AdmitsWith env P) (hall : PreparedAll P prepared.1) (mode : AdmitMode) :
    Joins P d (startPrepared env mode prepared).2 := by
  have hcontent := hprep.content
  have htable : prepared.2.reqTable = d.reqTable := by
    rw [hprep.eq]
    rfl
  unfold PreparedAll at hall
  unfold startPrepared
  split
  case h_1 => exact .of_table htable
  case h_2 r prompt' spec lookup hr =>
    rw [hr] at hcontent hall
    obtain ⟨-, hq, -⟩ := hcontent
    have hterms := ((setupSpec_frame env prepared.2 r spec).1.trans
      (setupAdmissionPath_frame env (setupSpec env prepared.2 r spec).2
        (setupSpec env prepared.2 r spec).1 mode prompt' lookup).standing).terms
    obtain ⟨-, spec', hspecEq⟩ := (setupSpec_quiet env prepared.2 r spec).1
    have htable' : (setupSpec env prepared.2 r spec).2.reqTable = d.reqTable := by
      rw [hspecEq]
      exact htable
    unfold installReq
    dsimp only
    generalize setupAdmissionPath env (setupSpec env prepared.2 r spec).2
      (setupSpec env prepared.2 r spec).1 mode prompt' lookup = res at hterms ⊢
    have hjoins : Joins P _ (withSys (setupSpec env prepared.2 r spec).2 res.2) :=
      .of_table htable'
    refine hjoins.trans (.put ?_ (hP.of_terms hterms hall))
    rw [seqId_of_terms hterms, hq]
    exact htable' ▸ hfree
  case h_3 r hr =>
    rw [hr] at hcontent hall
    obtain ⟨-, hq, -⟩ := hcontent
    refine (Joins.of_table htable).trans (.put ?_ hall)
    rw [hq]
    exact htable ▸ hfree

omit [LinearOrder Sid] in
/-- The start of an admission, or its error. -/
theorem startAdmission_joins {phase : Phase} {frm : From} {d : Data σ γ Sid}
    {started : Option Err × Data σ γ Sid} {onError : Data σ γ Sid → Data σ γ Sid}
    (h : Joins P d started.2) (herror : ∀ d, (onError d).reqTable = d.reqTable) :
    Joins P d (startAdmission phase frm started onError).data := by
  unfold startAdmission
  split
  · exact h.trans (.of_table rfl)
  · exact h.trans (.of_table (herror _))

/-- An arriving request joins, or waits. -/
theorem admitRequest_joins (hP : AdmitsWith env P) {d : Data σ γ Sid} (hd : Wf env d)
    (phase : Phase) (item : Item Sid) :
    Joins P d (admitRequest env d phase item).data := by
  have hspec := resolveAdmissionSeq_spec env (G := .free) d item
  unfold admitRequest
  split
  case h_1 q mode hres =>
    rw [hres] at hspec
    obtain ⟨sid, s, -, -, hfree, rfl, -⟩ := hspec
    exact startAdmission_joins (startPrepared_joins hfree (prepareRequest_ok env d item s.seqId)
      hP (hP.request d item s.seqId) mode) fun _ => rfl
  case h_2 d' hres =>
    rw [hres] at hspec
    have hwf := Moves.wf hspec hd
    refine (Joins.of_table (resolveAdmissionSeq_frees hres).table).trans ?_
    unfold admitNormal
    split
    case h_1 q d₁ halloc =>
      obtain ⟨-, htable, -⟩ := allocSeq_turn env halloc
      exact (Joins.of_table htable).trans (startAdmission_joins
        (startPrepared_joins (allocSeq_free hwf halloc) (prepareRequest_ok env d₁ item q)
          hP (hP.request d₁ item q) .normal) fun _ => rfl)
    case h_2 =>
      split
      · exact .of_table rfl
      · exact .of_table rfl
  case h_3 => exact .of_table rfl

/-- A continuation joins. -/
theorem admitContinue_joins (hP : AdmitsWith env P) (d : Data σ γ Sid) (phase : Phase) (frm : From)
    (suffix : List Token) (opts : ContinueOpts Sid) :
    Joins P d (admitContinue env d phase frm suffix opts).data := by
  unfold admitContinue
  split
  case h_1 => exact .of_table rfl
  case h_2 s _ =>
    split
    case isTrue => exact .of_table rfl
    case isFalse hbusy =>
      have hfree := (inFlight_eq_false_iff d s.seqId).mp (Bool.eq_false_iff.mpr hbusy)
      split
      · exact .of_table rfl
      · exact startAdmission_joins (startPrepared_joins hfree
          (prepareContinue_ok env d frm suffix opts s.seqId s.tokens)
          hP (hP.continuation d frm suffix opts s.seqId s.tokens) _) fun _ => rfl

/-- **Dispatch rule.** What a start from the queue does, the dispatch does. -/
theorem dispatchAdmits_rule {R : Data σ γ Sid → Data σ γ Sid → Prop} (hrefl : ∀ d, R d d)
    (htrans : ∀ {d d' d''}, R d d' → R d' d'' → R d d'')
    (hstart : ∀ {d d' : Data σ γ Sid} {q : SeqId} (item : Item Sid) (rest : List (Item Sid)),
      Wf env d → allocSeq env d none = some (q, d') →
        R d (startQueued env { d' with pending := rest } item q))
    (items : List (Item Sid)) {d : Data σ γ Sid} (hd : Wf env d) :
    R d (dispatchAdmits env items d) := by
  induction items generalizing d with
  | nil => exact hrefl d
  | cons item rest ih =>
    unfold dispatchAdmits
    split
    case h_1 => exact hrefl d
    case h_2 q d' halloc =>
      have hfirst := hstart item rest hd halloc
      have hwf' := startQueued_wf hd halloc item rest
      exact htrans hfirst (ih hwf')

/-- Queued requests join in turn. -/
theorem dispatchAdmits_joins (hP : AdmitsWith env P) (items : List (Item Sid))
    {d : Data σ γ Sid} (hd : Wf env d) :
    Joins P d (dispatchAdmits env items d) := by
  refine dispatchAdmits_rule (R := Joins P) (fun d => .of_table rfl) Joins.trans ?_ items hd
  intro d d' q item rest hd halloc
  obtain ⟨-, htable, -⟩ := allocSeq_turn env halloc
  have hfree := allocSeq_free hd halloc
  have hprep := startPrepared_joins (d := { d' with pending := rest }) hfree
    (prepareRequest_ok env _ item q) hP (hP.request _ item q) .normal
  have halloc' : Joins P d ({ d' with pending := rest } : Data σ γ Sid) := .of_table htable
  refine halloc'.trans ?_
  unfold startQueued startRequest
  dsimp only
  split
  · exact hprep
  · exact hprep.trans (.of_table rfl)

end Erllama.Model
