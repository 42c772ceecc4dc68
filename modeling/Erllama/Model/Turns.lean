import Erllama.Model.Talk

namespace Erllama.Model

open Lib

/-!
# Every function answers whom it owes

One lemma for each function of a tick and of the session operations that talks to a caller.

* `failRequest_turns`, `finishReq_talks` — requests that end.
* `applyStepResults_talks`, `commitSpec_talks` — the results of a step.
* `tickBody_talks` — a tick up to what follows its step.
-/

variable {σ γ Sid : Type} (env : Env σ γ)

/-! ### Requests that fail -/

section Fail

variable (items : List (Item Sid)) (rs : List (Req Sid)) (s : Sys σ γ Sid) {r : Req Sid}

/-- A request that fails is answered once, by its stream or by its reply. -/
theorem notifyFailure_turns (hstream : r.HasStream) (hflag : r.thinkingNotEnabled = false)
    (e : Err) :
    Account.Steps (accountOf items (r :: rs) s) (accountOf items rs (notifyFailure s r e)) := by
  unfold notifyFailure
  cases hs : r.stream with
  | some p => exact close_turns items rs s r hs hflag (.error e) rfl
  | none =>
    have hparty : r.party = none := by
      unfold Req.party
      rw [hs, ite_self]
    -- Without a stream the request is a synchronous one.
    have hmode : r.mode ≠ .streaming := by
      intro hmode
      have hsome := hstream hmode
      rw [hs] at hsome
      exact nomatch hsome
    dsimp only
    cases hcaller : r.caller with
    | none =>
      have hdue : r.due = none := by
        unfold Req.due
        rw [hcaller]
        cases r.mode <;> rfl
      rw [accountOf_cons_none hdue hparty]
    | some f =>
      cases hm : r.mode with
      | streaming => exact absurd hm hmode
      | standard =>
        have hdue : r.due = some (f, .completion) := by
          unfold Req.due
          rw [hm, hcaller]
          rfl
        exact answer_turns items rs s r hdue rfl
      | prefillOnly =>
        have hdue : r.due = some (f, .prefill) := by
          unfold Req.due
          rw [hm, hcaller]
          rfl
        exact answer_turns items rs s r hdue rfl

/-- It casts no tick. -/
theorem notifyFailure_ticks (e : Err) : (notifyFailure s r e).ticks = s.ticks := by
  unfold notifyFailure
  split
  · rfl
  · split <;> rfl

/-- The backend's cleanup sends nothing. -/
theorem failRequest_mail (e : Err) : SameMail (notifyFailure s r e) (failRequest env s r e) :=
  (releaseSampler_mail env (notifyFailure s r e) r).trans (releaseSeq_mail env _ r.seqId)

/-- Failing a request answers it. -/
theorem failRequest_turns (hstream : r.HasStream) (hflag : r.thinkingNotEnabled = false)
    (e : Err) :
    Account.Steps (accountOf items (r :: rs) s) (accountOf items rs (failRequest env s r e)) := by
  rw [accountOf_mail (failRequest_mail env s e)]
  exact notifyFailure_turns items rs s hstream hflag e

/-- It casts no tick. -/
theorem failRequest_ticks (e : Err) : (failRequest env s r e).ticks = s.ticks :=
  (failRequest_mail env s e).ticks.trans (notifyFailure_ticks s e)

/-- Failing all requests closes their accounts. -/
theorem failAll_turns (items : List (Item Sid)) {rs : List (Req Sid)} (e : Err) (s : Sys σ γ Sid)
    (hrs : ∀ r ∈ rs, r.HasStream ∧ r.thinkingNotEnabled = false) :
    Account.Steps (accountOf items rs s)
        (accountOf items [] (rs.foldl (fun s r => failRequest env s r e) s)) ∧
      (rs.foldl (fun s r => failRequest env s r e) s).ticks = s.ticks := by
  induction rs generalizing s with
  | nil => exact ⟨.refl, rfl⟩
  | cons r rs ih =>
    obtain ⟨hstream, hflag⟩ := hrs r List.mem_cons_self
    obtain ⟨hrest, hticks⟩ := ih (failRequest env s r e)
      fun r' hr' => hrs r' (List.mem_cons_of_mem r hr')
    exact ⟨(failRequest_turns env items rs s hstream hflag e).trans hrest,
      hticks.trans (failRequest_ticks env s e)⟩

/-- Failing the queue answers everyone in it. -/
theorem failPending_turns (items : List (Item Sid)) (e : Err) (d : Data σ γ Sid) :
    Account.Steps (accountOf items [] d.sys)
        (accountOf ([] : List (Item Sid)) []
          (items.foldl (fun acc item => emit acc (.reply item.frm (.error e))) d).sys) ∧
      (items.foldl (fun acc item => emit acc (.reply item.frm (.error e))) d).sys.ticks
        = d.sys.ticks := by
  induction items generalizing d with
  | nil => exact ⟨.refl, rfl⟩
  | cons item items ih =>
    obtain ⟨hrest, hticks⟩ := ih (emit d (.reply item.frm (.error e)))
    refine ⟨.head ?_ hrest, hticks⟩
    have howed : (accountOf (item :: items) [] d.sys).owed
        = (item.frm, item.kind) ::ₘ (accountOf items [] d.sys).owed := by
      rw [accountOf_cons_item]
      rfl
    have hfits : Reply.fits item.kind (.error e) = true := by cases item <;> rfl
    exact Account.Step.answer howed (.error e) hfits

end Fail

section Sessions

variable {env}

variable (env) in
/-- Failing whatever is in flight on a seq. -/
theorem failInflightForSeq_turn {d : Data σ γ Sid} (hd : TableAll Req.Underway d.reqTable)
    (q : SeqId) (e : Err) : Turn d (failInflightForSeq env d q e) := by
  unfold failInflightForSeq
  split
  case h_1 => exact .refl d
  case h_2 r hr =>
    have hr' := hd q r hr
    refine ⟨⟨?_, ?_⟩, fun h => TableAll.removeReq (d := withSys d _) h q⟩
    · rw [account_of_lookup hr]
      show Account.Steps _ (accountOf d.pending (d.reqTable.erase q).values
        (releaseSampler env (notifyFailure d.sys r e) r))
      rw [accountOf_mail (releaseSampler_mail env _ r)]
      exact notifyFailure_turns d.pending _ d.sys hr'.stream hr'.flag e
    · exact (releaseSampler_mail env _ r).ticks.trans (notifyFailure_ticks d.sys e)

variable [LinearOrder Sid]

variable (env) in
/-- Dropping a session owes nobody. -/
theorem dropSession_turn (d : Data σ γ Sid) (sid : Sid) : Turn d (dropSession env d sid) := by
  unfold dropSession
  split
  · exact .refl d
  · split
    · exact .refl d
    · exact .of_mail rfl rfl (releaseSeq_mail env d.sys _)

variable (env) in
/-- Nor does reclaiming the least recent one. -/
theorem reclaim_turn {d d' : Data σ γ Sid} {except : Option Sid}
    (h : reclaimLruIdleSeqExcept env d except = some d') : Turn d d' := by
  unfold reclaimLruIdleSeqExcept at h
  split at h
  · cases h
    exact dropSession_turn env d _
  · exact nomatch h

/-- It keeps the queue. -/
theorem dropSession_pending (d : Data σ γ Sid) (sid : Sid) :
    (dropSession env d sid).pending = d.pending := by
  unfold dropSession
  split
  · rfl
  · split <;> rfl

variable (env) in
/-- A seq that was taken: the queue and the table are as before. -/
theorem allocSeq_turn {d d' : Data σ γ Sid} {except : Option Sid} {q : SeqId}
    (h : allocSeq env d except = some (q, d')) :
    Turn d d' ∧ d'.reqTable = d.reqTable ∧ d'.pending = d.pending := by
  have hpop : ∀ {d₀ : Data σ γ Sid}, popIdle d₀ = some (q, d') →
      Turn d₀ d' ∧ d'.reqTable = d₀.reqTable ∧ d'.pending = d₀.pending := by
    intro d₀ h
    unfold popIdle at h
    split at h
    · cases h
      exact ⟨.of_mail rfl rfl (.refl _), rfl, rfl⟩
    · exact nomatch h
  unfold allocSeq at h
  split at h
  case h_1 taken htaken =>
    cases h
    exact hpop htaken
  case h_2 =>
    obtain ⟨d₀, hreclaim, htaken⟩ := Option.bind_eq_some_iff.mp h
    obtain ⟨hturn, htable, hpending⟩ := hpop htaken
    have hreclaimed : d₀.pending = d.pending := by
      unfold reclaimLruIdleSeqExcept at hreclaim
      split at hreclaim
      · cases hreclaim
        exact dropSession_pending d _
      · exact nomatch hreclaim
    exact ⟨(reclaim_turn env hreclaim).trans hturn,
      htable.trans (reclaim_frame hreclaim).1, hpending.trans hreclaimed⟩

variable (env) in
/-- A fork answers its caller. -/
theorem forkSession_turn (d : Data σ γ Sid) (src new : Sid) :
    Turn d (forkSession env d src new).2 := by
  unfold forkSession
  split
  · exact .refl d
  · split
    · exact .refl d
    · split
      · exact .refl d
      · split
        case h_2 => exact .refl d
        case h_1 q d' halloc =>
          refine (allocSeq_turn env halloc).1.trans ?_
          unfold forkCopy
          split
          · exact .of_mail rfl rfl (.refl _)
          · dsimp only
            split <;> exact .of_mail rfl rfl ⟨rfl, rfl, rfl⟩

/-- A reset answers its caller and fails the request on the seq. -/
theorem resetSessionSeq_turn {d : Data σ γ Sid} (hd : TableAll Req.Underway d.reqTable)
    (sid : Sid) : Turn d (resetSessionSeq env d sid).2 := by
  unfold resetSessionSeq
  split
  · exact .refl d
  · exact (failInflightForSeq_turn env hd _ _).trans
      (.of_mail rfl rfl (releaseSeq_mail env _ _))

end Sessions

/-! ### Requests that finish -/

section Finish

variable (items : List (Item Sid)) (rs : List (Req Sid)) (s : Sys σ γ Sid) {r : Req Sid}

/-- Between marks the flag comes with the mark. -/
structure Req.Sane (r : Req Sid) : Prop where
  stream : r.HasStream
  marked : r.thinkingNotEnabled = true → r.finishing = true

/-- A request that goes on is no contradiction. -/
theorem Req.Underway.sane (h : r.Underway) : r.Sane :=
  ⟨h.stream, fun hflag => by rw [h.flag] at hflag; exact nomatch hflag⟩

/-- One that is not finishing goes on. -/
theorem Req.Sane.underway (h : r.Sane) (hfin : r.finishing = false) : r.Underway := by
  refine ⟨h.stream, hfin, Bool.eq_false_iff.mpr fun hflag => ?_⟩
  rw [h.marked hflag] at hfin
  exact nomatch hfin

/-- A reply answers the caller of a request without a stream. -/
theorem replyTo_turns {k : CallKind} (hdue : r.due = r.caller.map (·, k))
    (hparty : r.party = none) {rep : Reply} (hfits : rep.fits k = true) :
    Account.Steps (accountOf items (r :: rs) s) (accountOf items rs (replyTo s r rep)) := by
  unfold replyTo
  cases hcaller : r.caller with
  | none =>
    rw [hcaller] at hdue
    rw [accountOf_cons_none hdue hparty]
  | some f =>
    rw [hcaller] at hdue
    exact answer_turns items rs s r hdue hfits

/-- A request without a stream of its own is no party. -/
theorem party_of_mode (h : r.mode ≠ .streaming) : r.party = none := by
  unfold Req.party
  split
  · rfl
  · cases hstream : r.stream with
    | none => rfl
    | some p => exact absurd (mode_of_stream hstream) h

/-- The end of a stream closes it. -/
theorem sendDoneForReq_turns (hflag : r.thinkingNotEnabled = false) (stats : Stats)
    (hstream : r.stream.isSome) :
    Account.Steps (accountOf items (r :: rs) s)
      (accountOf items rs (sendDoneForReq s r stats)) := by
  obtain ⟨p, hp⟩ := Option.isSome_iff_exists.mp hstream
  unfold sendDoneForReq
  rw [hp]
  dsimp only
  split
  · exact close_turns items rs s r hp hflag (.done stats) rfl
  · -- The text that was held back goes first.
    have hsends : Sends r.stream s (s.emit (.send p.1 p.2 (.token r.pendingText))) := by
      refine ⟨⟨[.token r.pendingText], by simp [StreamEvent.isFinal], ?_⟩, rfl, rfl⟩
      rw [hp]
      rfl
    exact (sends_turns items rs hflag hsends).trans
      (close_turns items rs _ r hp hflag (.done stats) rfl)

/-- A finished request is answered once, by its stream or by its reply. -/
theorem finishAction_turns (hstream : r.HasStream) (reason : FinishReason)
    (key : Option CacheKey) (stats : Stats) :
    Account.Steps (accountOf items (r :: rs) s)
      (accountOf items rs (finishAction env s r reason key stats)) := by
  unfold finishAction
  cases hmode : r.mode with
  | standard =>
    have hdue : r.due = r.caller.map (·, .completion) := by
      unfold Req.due
      rw [hmode]
    exact replyTo_turns items rs s hdue (party_of_mode (by rw [hmode]; exact nofun)) rfl
  | prefillOnly =>
    have hdue : r.due = r.caller.map (·, .prefill) := by
      unfold Req.due
      rw [hmode]
    exact replyTo_turns items rs s hdue (party_of_mode (by rw [hmode]; exact nofun)) rfl
  | streaming =>
    dsimp only
    split
    case isTrue hflag =>
      -- The error was surfaced already, and the stream closed with it.
      have hdue : r.due = none := by
        unfold Req.due
        rw [hmode]
      have hparty : r.party = none := by
        unfold Req.party
        rw [if_pos hflag]
      rw [accountOf_cons_none hdue hparty]
    case isFalse hflag =>
      exact sendDoneForReq_turns items rs s (Bool.eq_false_iff.mpr hflag) stats (hstream hmode)

/-- It casts no tick. -/
theorem finishAction_ticks (reason : FinishReason) (key : Option CacheKey) (stats : Stats) :
    (finishAction env s r reason key stats).ticks = s.ticks := by
  unfold finishAction replyTo sendDoneForReq
  split
  · split <;> rfl
  · split
    · rfl
    · split
      · dsimp only
        split <;> rfl
      · rfl
  · split <;> rfl

variable [LinearOrder Sid]

variable {env} in
/-- Finishing a request answers it and takes it out of the table. -/
theorem finishReq_talks {d : Data σ γ Sid} (hkeys : KeysMatch d.reqTable) {q : SeqId}
    (hr : d.reqTable.lookup q = some r) (hstream : r.HasStream) : Talks d (finishReq env d r) := by
  obtain ⟨hsave, hstanding⟩ := finishSave_mail env d r
  have hq : r.seqId = q := hkeys q r hr
  have hquiet := releaseSampler_mail env (finishAction env (finishSave env d r).2.2
    (finishSave env d r).2.1 (finishReasonOf r) (finishSave env d r).1
    (buildStatsForReq (finishReasonOf r) (finishSave env d r).1 (finishSave env d r).2.1))
    (finishSave env d r).2.1
  have hticks : (announceFinish env d r).ticks = d.sys.ticks :=
    hquiet.ticks.trans ((finishAction_ticks env _ _ _ _).trans hsave.ticks)
  have hend : Account.Steps (account d)
      (accountOf d.pending (d.reqTable.erase q).values (announceFinish env d r)) := by
    show Account.Steps _ (accountOf d.pending (d.reqTable.erase q).values (releaseSampler env _ _))
    rw [accountOf_mail hquiet, account_of_lookup hr, ← accountOf_mail hsave]
    -- The record after the save is owed the same.
    have hsame : accountOf d.pending (r :: (d.reqTable.erase q).values) (finishSave env d r).2.2
        = accountOf d.pending ((finishSave env d r).2.1 :: (d.reqTable.erase q).values)
            (finishSave env d r).2.2 := by
      rw [accountOf_cons, accountOf_cons, due_of_terms hstanding.terms,
        party_of_terms hstanding.terms hstanding.thinkingNotEnabled]
    rw [hsame]
    exact finishAction_turns env d.pending _ _ (hasStream_of_terms hstanding.terms hstream) _ _ _
  unfold finishReq releaseOrPinSeq
  rw [hq]
  split
  · refine ⟨?_, (releaseSeq_mail env _ _).ticks.trans hticks⟩
    show Account.Steps _ (accountOf d.pending (d.reqTable.erase q).values (releaseSeq env _ _))
    rw [accountOf_mail (releaseSeq_mail env _ _)]
    exact hend
  · exact ⟨hend, hticks⟩

/-- The rest of the table stays. -/
theorem lookup_finishReq (d : Data σ γ Sid) (r : Req Sid) (q : SeqId) :
    (finishReq env d r).reqTable.lookup q = if q = r.seqId then none else d.reqTable.lookup q := by
  have hremoved : (removeReq (withSys d (announceFinish env d r)) r.seqId).reqTable.lookup q
      = if q = r.seqId then none else d.reqTable.lookup q := by
    rw [lookup_removeReq]
    rfl
  unfold finishReq releaseOrPinSeq
  split <;> exact hremoved

/-- A pass of finishing requests leaves the other entries of the table. -/
theorem lookup_foldl_finishReq (rs : List (Req Sid)) (d : Data σ γ Sid) (q : SeqId) :
    (rs.foldl (finishReq env) d).reqTable.lookup q
      = if q ∈ rs.map Req.seqId then none else d.reqTable.lookup q := by
  induction rs generalizing d with
  | nil => rfl
  | cons r rs ih =>
    rw [List.foldl_cons, ih, lookup_finishReq, List.map_cons]
    by_cases hq : q = r.seqId
    · simp [hq]
    · by_cases hrest : q ∈ rs.map Req.seqId <;> simp [hq, hrest]

/-- What is left after the finishing requests was there before, and is not finishing. -/
theorem lookup_finishMarkedReqs {d : Data σ γ Sid} (hkeys : KeysMatch d.reqTable) {q : SeqId}
    (h : (finishMarkedReqs env d).reqTable.lookup q = some r) :
    d.reqTable.lookup q = some r ∧ r.finishing = false := by
  unfold finishMarkedReqs at h
  rw [lookup_foldl_finishReq] at h
  split at h
  case isTrue => cases h
  case isFalse hq =>
    refine ⟨h, Bool.eq_false_iff.mpr fun hfin => hq ?_⟩
    have hmem : r ∈ finishers d := List.mem_filter.mpr ⟨mem_requests.mpr ⟨q, h⟩, hfin⟩
    rw [← hkeys q r h]
    exact List.mem_map_of_mem hmem

omit [LinearOrder Sid] in
/-- **Fold rule.** A pass over different requests of the table, each with its own entry. -/
theorem foldl_talks {I : Data σ γ Sid → Prop} {g : Data σ γ Sid → Req Sid → Data σ γ Sid}
    (hg : ∀ d r, I d → d.reqTable.lookup r.seqId = some r → Talks d (g d r) ∧ I (g d r))
    (hframe : ∀ d r q, I d → d.reqTable.lookup r.seqId = some r → q ≠ r.seqId →
      (g d r).reqTable.lookup q = d.reqTable.lookup q)
    {rs : List (Req Sid)} (hnodup : (rs.map Req.seqId).Nodup) {d : Data σ γ Sid} (hd : I d)
    (hmem : ∀ r ∈ rs, d.reqTable.lookup r.seqId = some r) :
    Talks d (rs.foldl g d) ∧ I (rs.foldl g d) := by
  induction rs generalizing d with
  | nil => exact ⟨.refl d, hd⟩
  | cons r rs ih =>
    rw [List.map_cons, List.nodup_cons] at hnodup
    have hr := hmem r List.mem_cons_self
    obtain ⟨hfirst, hd'⟩ := hg d r hd hr
    have hrest := ih hnodup.2 hd' fun r' hr' => by
      have hne : r'.seqId ≠ r.seqId := fun heq => hnodup.1 (heq ▸ List.mem_map_of_mem hr')
      rw [hframe d r r'.seqId hd hr hne]
      exact hmem r' (List.mem_cons_of_mem r hr')
    exact ⟨hfirst.trans hrest.1, hrest.2⟩

/-- After the marked requests are finished, those that are left go on. -/
theorem finishMarkedReqs_talks {d : Data σ γ Sid} (hkeys : KeysMatch d.reqTable)
    (hd : TableAll Req.Sane d.reqTable) :
    Talks d (finishMarkedReqs env d) ∧
      TableAll Req.Underway (finishMarkedReqs env d).reqTable := by
  have hsub : (finishers d).Sublist (requests d.reqTable) := List.filter_sublist
  refine ⟨?_, ?_⟩
  · refine (foldl_talks (I := fun d => KeysMatch d.reqTable ∧ TableAll Req.Sane d.reqTable)
      ?_ (fun d r q _ _ hq => lookup_finishReq_of_ne d r hq)
      ((requests_seqId_nodup hkeys).sublist (hsub.map Req.seqId)) ⟨hkeys, hd⟩
      fun r hr => lookup_of_mem_requests hkeys (hsub.subset hr)).1
    intro d r hI hr
    refine ⟨finishReq_talks hI.1 hr (hI.2 _ r hr).stream, ?_, ?_⟩
    all_goals
      intro q r' hr'
      rw [lookup_finishReq] at hr'
      split at hr'
      · cases hr'
      · first | exact hI.1 q r' hr' | exact hI.2 q r' hr'
  · intro q r hr
    obtain ⟨hold, hfin⟩ := lookup_finishMarkedReqs env hkeys hr
    exact (hd q r hold).underway hfin

end Finish

/-! ### The results of a step -/

section Results

variable {env}

/-- Before the results of a step no error was surfaced on a request of the table. -/
structure Req.Unflagged (r : Req Sid) : Prop where
  stream : r.HasStream
  flag : r.thinkingNotEnabled = false

/-- A request that was not refused is no contradiction. -/
theorem Req.Unflagged.sane {r : Req Sid} (h : r.Unflagged) : r.Sane :=
  ⟨h.stream, fun hflag => by rw [h.flag] at hflag; exact nomatch hflag⟩

/-- Messages refuse nothing. -/
theorem Speaks.unflagged {r : Req Sid} {s : Sys σ γ Sid} {res : Req Sid × Sys σ γ Sid}
    (h : Speaks r s res) (hr : r.Unflagged) : res.1.Unflagged :=
  ⟨hasStream_of_terms h.terms hr.stream, h.flag.trans hr.flag⟩

/-- Put the record of a request that spoke back. -/
theorem Speaks.talks {d : Data σ γ Sid} {q : SeqId} {r : Req Sid}
    (hkeys : KeysMatch d.reqTable) (hr : d.reqTable.lookup q = some r) (hflag : r.Unflagged)
    {res : Req Sid × Sys σ γ Sid} (h : Speaks r d.sys res) :
    Talks d (putReq (withSys d res.2) res.1) := by
  refine ⟨?_, h.sends.ticks⟩
  have hq : res.1.seqId = q := (seqId_of_terms h.terms).trans (hkeys q r hr)
  have hsame : account (putReq (withSys d res.2) res.1) = account (withSys d res.2) :=
    account_putReq_of_same (d := withSys d res.2) hr hq (due_of_terms h.terms)
      (party_of_terms h.terms h.flag)
  rw [hsame, account_of_lookup hr, account_of_lookup (d := withSys d res.2) hr]
  exact sends_turns d.pending _ hflag.flag h.sends

/-- The result of one request, in the table. -/
theorem Progress.talks {d : Data σ γ Sid} {q : SeqId} {r : Req Sid}
    (hkeys : KeysMatch d.reqTable) (hr : d.reqTable.lookup q = some r) (hflag : r.Unflagged)
    {res : Req Sid × Sys σ γ Sid} (h : Progress r d.sys res) :
    Talks d (putReq (withSys d res.2) res.1) := by
  cases h with
  | sends h => exact h.talks hkeys hr hflag
  | refuses hterms hmarked hfin heq =>
    have hq : res.1.seqId = q := (seqId_of_terms hterms).trans (hkeys q r hr)
    have hparty : res.1.party = none := by
      unfold Req.party
      rw [if_pos hmarked]
    -- Whatever its call, the request is no stream any more.
    have hafter : account (putReq (withSys d res.2) res.1)
        = accountOf d.pending (res.1 :: (d.reqTable.erase q).values) res.2 := by
      rw [account_putReq, hq]
      rfl
    rw [heq] at hafter ⊢
    unfold failThinkingDisabled at hafter ⊢
    cases hstream : r.stream with
    | some p =>
      have hdue : res.1.due = none := by
        rw [due_of_terms hterms]
        unfold Req.due
        rw [mode_of_stream hstream]
      rw [hstream] at hafter
      refine ⟨?_, rfl⟩
      rw [hafter, accountOf_cons_none hdue hparty, account_of_lookup hr]
      exact close_turns d.pending _ d.sys r hstream hflag.flag _ rfl
    | none =>
      have hold : r.party = none := by
        unfold Req.party
        rw [hstream, ite_self]
      rw [hstream] at hafter
      refine ⟨?_, rfl⟩
      rw [hafter, account_of_lookup hr, accountOf_cons, accountOf_cons, hparty, hold,
        due_of_terms hterms]

/-- It leaves a sane record. -/
theorem Progress.sane {r : Req Sid} {s : Sys σ γ Sid} {res : Req Sid × Sys σ γ Sid}
    (h : Progress r s res) (hr : r.Unflagged) : res.1.Sane := by
  cases h with
  | sends h => exact (h.unflagged hr).sane
  | refuses hterms hmarked hfin heq => exact ⟨hasStream_of_terms hterms hr.stream, fun _ => hfin⟩

variable (env) in
/-- Applying the results of different seqs, none of which had its error surfaced. -/
theorem applyStepResults_talks {pairs : List ResultPair}
    (hnodup : (pairs.map fun pair => pair.1.1).Nodup) {d : Data σ γ Sid}
    (hkeys : KeysMatch d.reqTable)
    (hflag : ∀ pair ∈ pairs, ∀ r, d.reqTable.lookup pair.1.1 = some r → r.Unflagged)
    (hsane : TableAll Req.Sane d.reqTable) :
    Talks d (applyStepResults env pairs d).2 ∧
      TableAll Req.Sane (applyStepResults env pairs d).2.reqTable := by
  induction pairs generalizing d with
  | nil => exact ⟨.refl d, hsane⟩
  | cons pair pairs ih =>
    obtain ⟨⟨q, op⟩, res⟩ := pair
    rw [List.map_cons, List.nodup_cons] at hnodup
    unfold applyStepResults
    split
    case h_1 => exact ⟨.refl d, hsane⟩
    case h_2 r hr =>
      split
      case h_1 => exact ⟨.refl d, hsane⟩
      case h_2 r' s hres =>
        have hprog := stepResult_progress env d r hres
        have hr' := hflag _ List.mem_cons_self r hr
        have hq : r'.seqId = q :=
          (stepResult_applies env d r hres).ident.seqId.trans (hkeys q r hr)
        have hkeys' : KeysMatch (putReq (withSys d s) r').reqTable :=
          KeysMatch.putReq (d := withSys d s) hkeys r'
        have hrest := ih (d := putReq (withSys d s) r') hnodup.2 hkeys' ?_
          (TableAll.putReq (d := withSys d s) hsane (hprog.sane hr'))
        · exact ⟨(hprog.talks hkeys hr hr').trans hrest.1, hrest.2⟩
        · intro pair hpair r'' hr''
          rw [lookup_putReq, if_neg] at hr''
          · exact hflag pair (List.mem_cons_of_mem _ hpair) r'' hr''
          · rw [hq]
            intro heq
            exact hnodup.1 (List.mem_map.mpr ⟨pair, hpair, heq⟩)

end Results

/-! ### The body of a tick -/

section Body

variable {env}

/-- A pass that updates requests in place keeps the account, if each update does. -/
theorem updateReqs_talks {P : Req Sid → Prop} {f : Req Sid → Option (Req Sid)}
    (hf : ∀ r r', f r = some r' → r'.terms = r.terms ∧
      r'.thinkingNotEnabled = r.thinkingNotEnabled ∧ (P r → P r'))
    {d : Data σ γ Sid} (hkeys : KeysMatch d.reqTable) (hd : TableAll P d.reqTable) :
    Talks d (updateReqs f d) ∧ TableAll P (updateReqs f d).reqTable := by
  suffices hpass : Talks d (updateReqs f d) ∧
      KeysMatch (updateReqs f d).reqTable ∧ TableAll P (updateReqs f d).reqTable from
    ⟨hpass.1, hpass.2.2⟩
  unfold updateReqs
  refine foldl_talks
    (I := fun d : Data σ γ Sid => KeysMatch d.reqTable ∧ TableAll P d.reqTable)
    ?_ ?_ (requests_seqId_nodup hkeys) ⟨hkeys, hd⟩ fun r hr => lookup_of_mem_requests hkeys hr
  · intro d r hI hr
    split
    case h_1 r' hr' =>
      obtain ⟨hterms, hflag, hP⟩ := hf r r' hr'
      have hsame := account_putReq_of_same (d := d) hr (seqId_of_terms hterms)
        (due_of_terms hterms) (party_of_terms hterms hflag)
      refine ⟨⟨by rw [hsame], rfl⟩, ?_, hI.2.putReq (hP (hI.2 _ r hr))⟩
      intro q r'' hr''
      rw [lookup_putReq] at hr''
      split at hr''
      case isTrue heq =>
        cases hr''
        exact heq.symm
      case isFalse => exact hI.1 q r'' hr''
    case h_2 => exact ⟨.refl d, hI⟩
  · intro d r q _ _ hq
    split
    case h_1 r' hr' =>
      rw [lookup_putReq, if_neg]
      rwa [seqId_of_terms (hf r r' hr').1]
    case h_2 => rfl

/-- Marking cancelled requests sends nothing. -/
theorem honourCancellations_talks {d : Data σ γ Sid} (hkeys : KeysMatch d.reqTable)
    (hd : TableAll Req.Unflagged d.reqTable) :
    Talks d (honourCancellations d) ∧ TableAll Req.Unflagged (honourCancellations d).reqTable := by
  refine updateReqs_talks (fun r r' h => ?_) hkeys hd
  split at h
  · cases h
    exact ⟨rfl, rfl, fun hr => ⟨hr.stream, hr.flag⟩⟩
  · cases h

/-- Nor does marking those that only prefill. -/
theorem markTerminal_talks {d : Data σ γ Sid} (hkeys : KeysMatch d.reqTable)
    (hd : TableAll Req.Sane d.reqTable) :
    Talks d (markTerminal d) ∧ TableAll Req.Sane (markTerminal d).reqTable := by
  refine updateReqs_talks (fun r r' h => ?_) hkeys hd
  split at h
  · cases h
    exact ⟨rfl, rfl, fun hr => ⟨hr.stream, fun _ => rfl⟩⟩
  · cases h

/-- Replace the record of a request by one of the same standing. -/
theorem SameStanding.talks {d : Data σ γ Sid} {s : Sys σ γ Sid} {q : SeqId} {r r' : Req Sid}
    (hkeys : KeysMatch d.reqTable) (hr : d.reqTable.lookup q = some r) (h : SameStanding r r')
    (hs : SameMail d.sys s) : Talks d (putReq (withSys d s) r') := by
  refine ⟨?_, hs.ticks⟩
  have hsame := account_putReq_of_same (d := withSys d s) hr
    ((seqId_of_terms h.terms).trans (hkeys q r hr)) (due_of_terms h.terms)
    (party_of_terms h.terms h.thinkingNotEnabled)
  rw [hsame]
  have hmail : Turn d (withSys d s) := .of_mail rfl rfl hs
  exact hmail.steps

/-- Nor does asking for a draft. -/
theorem specDraftFor_talks {d : Data σ γ Sid} {r : Req Sid} (hkeys : KeysMatch d.reqTable)
    (hd : TableAll Req.Unflagged d.reqTable) (hr : d.reqTable.lookup r.seqId = some r) :
    Talks d (specDraftFor env d r).2 ∧
      TableAll Req.Unflagged (specDraftFor env d r).2.reqTable := by
  have hr' := hd _ r hr
  have hput : ∀ (s : Sys σ γ Sid) (r' : Req Sid), SameMail d.sys s → SameStanding r r' →
      Talks d (putReq (withSys d s) r') ∧
        TableAll Req.Unflagged (putReq (withSys d s) r').reqTable := by
    intro s r' hs hsame
    refine ⟨hsame.talks hkeys hr hs, TableAll.putReq (d := withSys d s) hd ?_⟩
    exact ⟨hasStream_of_terms hsame.terms hr'.stream, hsame.thinkingNotEnabled.trans hr'.flag⟩
  unfold specDraftFor
  split
  case h_2 => exact ⟨.refl d, hd⟩
  case h_1 =>
    split
    · exact ⟨.refl d, hd⟩
    · dsimp only
      split
      · split
        · exact hput _ _ (mail_ctx d.sys _) ⟨rfl, rfl⟩
        · exact hput _ _ (mail_ctx d.sys _) ⟨rfl, rfl⟩
      · exact hput _ _ (mail_ctx d.sys _) ⟨rfl, rfl⟩

variable (env) in
/-- Committed tokens are streamed one by one. -/
theorem applySpecCommitted_talks (q : SeqId) (eog : Bool) (tokens : List Token)
    {d : Data σ γ Sid} (hd : TableWf env d) (hflag : TableAll Req.Unflagged d.reqTable) :
    Talks d (applySpecCommitted env q eog tokens d).2 ∧
      TableAll Req.Unflagged (applySpecCommitted env q eog tokens d).2.reqTable := by
  induction tokens generalizing d with
  | nil => exact ⟨.refl d, hflag⟩
  | cons tok rest ih =>
    unfold applySpecCommitted
    split
    case h_1 => exact ⟨.refl d, hflag⟩
    case h_2 r hr =>
      split
      · exact ⟨.refl d, hflag⟩
      · have hspeaks := tokenResult_speaks env d r tok (if rest = [] then eog else false)
        have happ := tokenResult_applies env d r tok (if rest = [] then eog else false)
        have hwf : TableWf env (putReq (withSys d
            (tokenResult env d r tok (if rest = [] then eog else false)).2)
            (tokenResult env d r tok (if rest = [] then eog else false)).1) :=
          TableWf.putReq (d := withSys d _) hd (happ.wf (hd q r hr).2)
        have hrest := ih hwf (TableAll.putReq (d := withSys d
          (tokenResult env d r tok (if rest = [] then eog else false)).2) hflag
          (hspeaks.unflagged (hflag q r hr)))
        exact ⟨(hspeaks.talks hd.keysMatch hr (hflag q r hr)).trans hrest.1, hrest.2⟩

/-- Committing the result of a speculative step. -/
theorem commitSpec_talks [DecidableEq Sid] {d d' : Data σ γ Sid} (hd : TableWf env d)
    (hflag : TableAll Req.Unflagged d.reqTable) {q : SeqId} {draft : List Token}
    {res : SpecResult} (h : commitSpec env d q draft res = .stepped d') :
    Talks d d' ∧ TableAll Req.Unflagged d'.reqTable := by
  obtain ⟨happlied, hflag'⟩ := applySpecCommitted_talks env q res.eog res.committed hd hflag
  have hkeys := (applySpecCommitted_refreshes env q res.eog res.committed hd).table.keysMatch
  have hfeedback : ∀ {d : Data σ γ Sid}, KeysMatch d.reqTable →
      TableAll Req.Unflagged d.reqTable → ∀ n m,
      Talks d (specRecordFeedback env d q n m) ∧
        TableAll Req.Unflagged (specRecordFeedback env d q n m).reqTable := by
    intro d hkeys hd n m
    have hacc := specAccept_mail env d q m
    unfold specRecordFeedback
    dsimp only
    split
    case h_1 =>
      have hmail : Turn d (withSys d (specAccept env d q m)) := .of_mail rfl rfl hacc
      exact ⟨hmail.toTalks, hd⟩
    case h_2 r hr =>
      exact ⟨SameStanding.talks hkeys hr ⟨rfl, rfl⟩ hacc,
        TableAll.putReq (d := withSys d _) hd ⟨(hd q r hr).stream, (hd q r hr).flag⟩⟩
  unfold commitSpec at h
  dsimp only at h
  split at h
  case h_1 => exact nomatch h
  case h_2 leftover _ =>
    cases h
    split
    · obtain ⟨hend, hd'⟩ := hfeedback hkeys hflag' draft.length res.nAcc
      exact ⟨happlied.trans hend, hd'⟩
    · -- The rollback sends nothing.
      have htrim : Turn (applySpecCommitted env q res.eog res.committed d).2
          (specTrimOvershoot env (applySpecCommitted env q res.eog res.committed d).2 q) := by
        unfold specTrimOvershoot
        split
        · exact .refl _
        · exact .of_mail rfl rfl (backendSeqRmFrom_mail env _ q _)
      have htable : (specTrimOvershoot env (applySpecCommitted env q res.eog res.committed d).2
          q).reqTable = (applySpecCommitted env q res.eog res.committed d).2.reqTable := by
        unfold specTrimOvershoot
        split <;> rfl
      obtain ⟨hend, hd'⟩ := hfeedback (htable ▸ hkeys) (htable ▸ hflag') draft.length res.nAcc
      exact ⟨(happlied.trans htrim.toTalks).trans hend, hd'⟩

/-- A media request that fails is answered. -/
theorem failMediaReq_talks {d : Data σ γ Sid} {r : Req Sid}
    (hd : TableAll Req.Unflagged d.reqTable) (hr : d.reqTable.lookup r.seqId = some r) (e : Err) :
    Talks d (failMediaReq env d r e) ∧
      TableAll Req.Unflagged (failMediaReq env d r e).reqTable := by
  have hr' := hd _ r hr
  refine ⟨⟨?_, failRequest_ticks env d.sys e⟩,
    TableAll.removeReq (d := withSys d (failRequest env d.sys r e)) hd r.seqId⟩
  rw [account_of_lookup hr]
  exact failRequest_turns env d.pending _ d.sys hr'.stream hr'.flag e

/-- How the body of a tick leaves the account. -/
def BodyTalks (d : Data σ γ Sid) : TickEnd σ γ Sid → Prop
  | .stepped d'   => Talks d d' ∧ TableAll Req.Sane d'.reqTable
  | .recover d' _ => Talks d d' ∧ TableAll Req.Unflagged d'.reqTable
  | .failed _ _   => True
  | .crashed _    => True

/-- A table without a refused request is sane. -/
theorem TableAll.sane {t : Table SeqId (Req Sid)} (h : TableAll Req.Unflagged t) :
    TableAll Req.Sane t := fun q r hr => (h q r hr).sane

/-- A tick's body after something that talks. -/
theorem BodyTalks.after {d d₀ : Data σ γ Sid} (h : Talks d d₀) {e : TickEnd σ γ Sid}
    (he : BodyTalks d₀ e) : BodyTalks d e := by
  cases e with
  | stepped d'   => exact ⟨h.trans he.1, he.2⟩
  | recover d' e => exact ⟨h.trans he.1, he.2⟩
  | failed d' e  => trivial
  | crashed d'   => trivial

/-- A call to the backend sends nothing. -/
theorem withCtx_talks (d : Data σ γ Sid) (x : σ) : Talks d (withCtx d x) := by
  have hmail : Turn d (withCtx d x) := .of_mail rfl rfl (mail_ctx d.sys x)
  exact hmail.toTalks

/-- A failed step leaves the requests to the recovery. -/
theorem decodeError_talks {d : Data σ γ Sid} (hd : TableAll Req.Unflagged d.reqTable) (x : σ)
    (e : Reason) : BodyTalks d (decodeError (withCtx d x) e) := by
  unfold decodeError
  split
  · exact ⟨withCtx_talks d x, hd⟩
  · trivial

/-- A tick that prefills a media request. -/
theorem runMediaTick_talks {d : Data σ γ Sid} {r : Req Sid} (hkeys : KeysMatch d.reqTable)
    (hd : TableAll Req.Unflagged d.reqTable) (hr : d.reqTable.lookup r.seqId = some r) :
    BodyTalks d (runMediaTick env d r) := by
  unfold runMediaTick
  split
  case h_1 => trivial
  case h_2 cb _ =>
    dsimp only
    split
    case h_1 =>
      refine ⟨SameStanding.talks hkeys hr ⟨rfl, rfl⟩ (mail_ctx d.sys _), TableAll.sane ?_⟩
      exact TableAll.putReq (d := withCtx d _) hd ⟨(hd _ r hr).stream, (hd _ r hr).flag⟩
    case h_2 e _ =>
      obtain ⟨htalks, hd'⟩ := failMediaReq_talks (r := r) (d := withCtx d (cb.prefill d.sys.ctx
        r.mediaPrompt (r.media.getD []) r.seqId r.mediaAddSpecial).2) hd hr (.mediaFailed e)
      exact ⟨(withCtx_talks d _).trans htalks, hd'.sane⟩

/-- A tick that speculates. -/
theorem runSpecTick_talks [DecidableEq Sid] {d : Data σ γ Sid} {r : Req Sid} (hd : TableWf env d)
    (hflag : TableAll Req.Unflagged d.reqTable) (draft : List Token) :
    BodyTalks d (runSpecTick env d r draft) := by
  unfold runSpecTick
  split
  case h_2 => trivial
  case h_1 cb sampler _ _ =>
    dsimp only
    split
    case h_2 => exact decodeError_talks hflag _ _
    case h_1 res _ =>
      cases hcommit : commitSpec env (withSys d { d.sys with
          ctx := (cb.step d.sys.ctx sampler r.seqId draft).2 }) r.seqId draft res with
      | stepped d' =>
        obtain ⟨htalks, hd'⟩ := commitSpec_talks
          (d := withCtx d (cb.step d.sys.ctx sampler r.seqId draft).2) hd hflag hcommit
        exact ⟨(withCtx_talks d _).trans htalks, hd'.sane⟩
      | recover d' e =>
        unfold commitSpec at hcommit
        dsimp only at hcommit
        split at hcommit <;> cases hcommit
      | failed d' e => trivial
      | crashed d' => trivial

/-- A tick that steps a batch. -/
theorem stepTickOps_talks {d : Data σ γ Sid} (hd : TableWf env d)
    (hflag : TableAll Req.Unflagged d.reqTable) : BodyTalks d (stepTickOps env d) := by
  unfold stepTickOps
  split
  · trivial
  · exact ⟨.refl d, hflag.sane⟩
  case h_3 ops _ hbudget =>
    have hfit := opsFit_of_budget hd hbudget
    dsimp only
    split
    case h_2 => exact decodeError_talks hflag _ _
    case h_1 results _ =>
      unfold finishStep
      split
      · trivial
      case h_2 pairs hpairs =>
        dsimp only
        split
        case isFalse => trivial
        case isTrue =>
          have hseqs : (pairs.map fun pair => pair.1.1) = ops.map Prod.fst := by
            rw [← (Contract.pairOpsWithResults_spec hpairs).1, List.map_map]
            rfl
          obtain ⟨htalks, hd'⟩ := applyStepResults_talks env (hseqs ▸ hfit.nodup)
            (d := withCtx d (env.be.step d.sys.ctx ops).2) hd.keysMatch
            (fun _ _ r hr => hflag _ r hr) hflag.sane
          exact ⟨(withCtx_talks d _).trans htalks, hd'⟩

variable [LinearOrder Sid]

/-- **The body of a tick.** -/
theorem tickBody_talks {d : Data σ γ Sid} (hd : Wf env d)
    (hflag : TableAll Req.Underway d.reqTable) : BodyTalks d (tickBody env d) := by
  obtain ⟨hcancel, hflag'⟩ := honourCancellations_talks hd.table.keysMatch
    (fun q r hr => ⟨(hflag q r hr).stream, (hflag q r hr).flag⟩ :
      TableAll Req.Unflagged d.reqTable)
  have hwf := Moves.wf (honourCancellations_moves (G := .free) hd) hd
  refine .after hcancel ?_
  unfold tickBody
  dsimp only
  split
  case h_1 r hmedia =>
    have hactive : activeReqs (honourCancellations d) = [r] := by
      unfold maybeMediaTick at hmedia
      split at hmedia
      case h_1 r' hactive =>
        split at hmedia
        · cases hmedia
          exact hactive
        · cases hmedia
      case h_2 => cases hmedia
    exact runMediaTick_talks hwf.table.keysMatch hflag' (lookup_of_active hwf.table hactive)
  case h_2 =>
    have hspec : Talks (honourCancellations d) (maybeSpecTick env (honourCancellations d)).2 ∧
        TableAll Req.Unflagged (maybeSpecTick env (honourCancellations d)).2.reqTable := by
      unfold maybeSpecTick
      split
      case h_1 r hactive =>
        split
        · exact specDraftFor_talks hwf.table.keysMatch hflag'
            (lookup_of_active hwf.table hactive)
        · exact ⟨.refl _, hflag'⟩
      case h_2 => exact ⟨.refl _, hflag'⟩
    have hwf' := Moves.wf (maybeSpecTick_moves (G := .free) hwf.table).1 hwf
    refine .after hspec.1 ?_
    split
    · exact runSpecTick_talks hwf'.table hspec.2 _
    · exact stepTickOps_talks hwf'.table hspec.2

end Body

end Erllama.Model
