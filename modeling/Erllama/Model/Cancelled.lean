import Erllama.Model.Cancel

namespace Erllama.Model

open Lib

/-!
# Cancelled streams end as cancelled

* `Stands` — what an event other than a tick, a cancel or a reset does to the table.
* `Lively` — what holds of a process as long as it lives.
* `OnCourse` — a cancelled stream waits for its end, or had it.
* `stepTick_cancelled` — a tick that fails no cancelled request finishes them all.
* `race_step` — a gentle step keeps cancelled streams on their course.
* `run_cancelled` — so they end as cancelled in every gentle run.
-/

variable {σ γ Sid : Type} {env : Env σ γ}

/-- Requests of the table keep their terms, and new ones have the property. -/
structure Stands (P : Req Sid → Prop) (d d' : Data σ γ Sid) : Prop where
  stays : ∀ q r, d.reqTable.lookup q = some r →
    ∃ r', d'.reqTable.lookup q = some r' ∧ r'.terms = r.terms
  comes : ∀ q r', d'.reqTable.lookup q = some r' →
    (∃ r, d.reqTable.lookup q = some r ∧ r'.terms = r.terms) ∨ P r'

variable {P : Req Sid → Prop}

/-- Whoever joins is admitted. -/
theorem Joins.stands {d d' : Data σ γ Sid} (h : Joins P d d') : Stands P d d' :=
  ⟨fun q r hr => ⟨r, h.stays q r hr, rfl⟩,
    fun q r hr => (h.comes q r hr).imp_left fun hr => ⟨r, hr, rfl⟩⟩

/-- A function that keeps the table. -/
theorem Stands.of_table {d d' : Data σ γ Sid} (h : d'.reqTable = d.reqTable) : Stands P d d' :=
  (Joins.of_table h).stands

/-- One function after another. -/
theorem Stands.trans (hP : AdmitsWith env P) {d d' d'' : Data σ γ Sid} (h : Stands P d d')
    (h' : Stands P d' d'') : Stands P d d'' where
  stays := fun q r hr => by
    obtain ⟨r', hr', heq⟩ := h.stays q r hr
    obtain ⟨r'', hr'', heq'⟩ := h'.stays q r' hr'
    exact ⟨r'', hr'', heq'.trans heq⟩
  comes := fun q r'' hr'' => by
    rcases h'.comes q r'' hr'' with ⟨r', hr', heq'⟩ | hnew
    · rcases h.comes q r' hr' with ⟨r, hr, heq⟩ | hnew
      · exact .inl ⟨r, hr, heq'.trans heq⟩
      · exact .inr (hP.of_terms heq' hnew)
    · exact .inr hnew

/-- Another record of a request with its terms. -/
theorem Stands.put {d : Data σ γ Sid} (hkeys : KeysMatch d.reqTable) {q : SeqId} {r r' : Req Sid}
    (hr : d.reqTable.lookup q = some r) (hterms : r'.terms = r.terms) (s : Sys σ γ Sid) :
    Stands P d (putReq (withSys d s) r') := by
  have hq : r'.seqId = q := (seqId_of_terms hterms).trans (hkeys q r hr)
  constructor
  · intro q' r₀ hr₀
    rw [lookup_putReq, hq]
    split
    case isTrue heq =>
      subst heq
      rw [hr] at hr₀
      cases hr₀
      exact ⟨r', rfl, hterms⟩
    case isFalse => exact ⟨r₀, hr₀, rfl⟩
  · intro q' r₀ hr₀
    rw [lookup_putReq, hq] at hr₀
    split at hr₀
    case isTrue heq =>
      cases hr₀
      exact .inl ⟨r, heq ▸ hr, hterms⟩
    case isFalse => exact .inl ⟨r₀, hr₀, rfl⟩

/-- An embed call keeps the table. -/
theorem embedEach_table (lists : List (List Token)) (acc : List (List ℚ)) (d : Data σ γ Sid) :
    (embedEach env acc lists d).2.reqTable = d.reqTable := by
  induction lists generalizing acc d with
  | nil => rfl
  | cons tokens rest ih =>
    unfold embedEach
    split
    · rfl
    · dsimp only
      split
      · exact ih _ _
      · rfl

/-- So does a verify call. -/
theorem runVerify_table (d : Data σ γ Sid) (pre cands : List Token) (k : Nat) :
    (runVerify env d pre cands k).2.reqTable = d.reqTable := by
  unfold runVerify
  split
  · rfl
  · dsimp only
    split <;> rfl

variable [LinearOrder Sid]

omit [LinearOrder Sid] in
/-- Saving every request keeps their terms. -/
theorem fireSaveForReason_stands (hP : AdmitsWith env P) {d : Data σ γ Sid}
    (hkeys : KeysMatch d.reqTable) (reason : SaveReason) :
    Stands P d (fireSaveForReason env d reason) := by
  have hfold : ∀ (rs : List (Req Sid)) (d : Data σ γ Sid), KeysMatch d.reqTable →
      (rs.map Req.seqId).Nodup → (∀ r ∈ rs, d.reqTable.lookup r.seqId = some r) →
      Stands P d (rs.foldl (fun acc r => fireSaveForReq env acc reason r) d) := by
    intro rs
    induction rs with
    | nil => exact fun d _ _ _ => .of_table rfl
    | cons r rs ih =>
      intro d hkeys hnodup hmem
      rw [List.map_cons, List.nodup_cons] at hnodup
      have hr := hmem r List.mem_cons_self
      rw [List.foldl_cons]
      unfold fireSaveForReq
      split
      · exact ih d hkeys hnodup.2 fun r' hr' => hmem r' (List.mem_cons_of_mem r hr')
      · have hterms := (creditSave_standing r
          (fireSaveIf env d true reason r.contextTokens r).1 r.contextTokens).terms
        have hfirst := Stands.put (P := P) hkeys hr
          (show ({ creditSave
            (fireSaveIf env d true reason r.contextTokens r).1 r r.contextTokens with
              lastSaveAt := r.contextTokens.length } : Req Sid).terms = r.terms from hterms)
          (fireSaveIf env d true reason r.contextTokens r).2
        refine hfirst.trans hP (ih _ (KeysMatch.putReq (d := withSys d _) hkeys _) hnodup.2 ?_)
        intro r' hr'
        rw [lookup_putReq, if_neg]
        · exact hmem r' (List.mem_cons_of_mem r hr')
        · rw [show Req.seqId _ = r.seqId from seqId_of_terms hterms]
          exact fun heq => hnodup.1 (heq ▸ List.mem_map_of_mem hr')
  exact hfold _ d hkeys (requests_seqId_nodup hkeys) fun r hr => lookup_of_mem_requests hkeys hr

/-- A fork keeps the table. -/
theorem forkSession_table (d : Data σ γ Sid) (src new : Sid) :
    (forkSession env d src new).2.reqTable = d.reqTable := by
  unfold forkSession
  split
  · rfl
  · split
    · rfl
    · split
      · rfl
      · split
        case h_1 q d' halloc =>
          obtain ⟨-, htable, -⟩ := allocSeq_turn env halloc
          rw [← htable]
          unfold forkCopy
          split
          · rfl
          · dsimp only
            split <;> rfl
        case h_2 => rfl

/-- **Calls leave the requests in flight as they are**, but for a reset. -/
theorem handleEvent_stands (hP : AdmitsWith env P) {p : Proc σ γ Sid} (hp : Wf env p.data)
    {e : Event Sid} (hcast : e.isCast = false) (hreset : ∀ frm sid, e ≠ .resetSession frm sid) :
    Stands P p.data (handleEvent env p e).data := by
  cases e with
  | request item => exact (admitRequest_joins hP hp p.phase item).stands
  | «continue» frm suffix opts =>
    exact (admitContinue_joins hP p.data p.phase frm suffix opts).stands
  | endSession frm sid => exact .of_table (dropSession_frame env p.data sid).1
  | forkSession frm src new => exact .of_table (forkSession_table p.data src new)
  | resetSession frm sid => exact absurd rfl (hreset frm sid)
  | verify frm pre cands k =>
    unfold handleEvent
    dsimp only
    split
    · exact .of_table (runVerify_table p.data pre cands k)
    · exact .of_table rfl
  | embed frm tokens => exact .of_table (embedEach_table [tokens] [] p.data)
  | embedBatch frm lists => exact .of_table (embedEach_table lists [] p.data)
  | evict frm =>
    exact (fireSaveForReason_stands hP hp.table.keysMatch .evict).trans hP (.of_table rfl)
  | shutdown frm =>
    exact (fireSaveForReason_stands hP hp.table.keysMatch .shutdown).trans hP (.of_table rfl)
  | loadAdapter frm path file => exact .of_table (loadAdapter_step p.data path file).reqTable
  | unloadAdapter frm handle => exact .of_table (unloadAdapter_step p.data handle).reqTable
  | setAdapterScale frm handle scale =>
    exact .of_table (setAdapterScale_step p.data handle scale).reqTable
  | cancel ref => exact nomatch hcast
  | tick => exact nomatch hcast

/-- A reset takes at most the request of its session's seq. -/
theorem resetSessionSeq_table (d : Data σ γ Sid) (sid : Sid) {q : SeqId} :
    (resetSessionSeq env d sid).2.reqTable.lookup q = d.reqTable.lookup q ∨
      ∃ entry, d.sessionSeq.lookup sid = some entry ∧ entry.seqId = q ∧
        (resetSessionSeq env d sid).2.reqTable.lookup q = none := by
  cases hs : d.sessionSeq.lookup sid with
  | none =>
    left
    unfold resetSessionSeq
    rw [hs]
  | some entry =>
    rw [resetSessionSeq_eq hs]
    rcases failInflightForSeq_table env d entry.seqId .engineReset with ⟨s, -, heq⟩ | ⟨-, heq⟩
    · rw [heq]
      by_cases hq : q = entry.seqId
      · refine .inr ⟨entry, rfl, hq.symm, ?_⟩
        show (removeReq (withSys d s) entry.seqId).reqTable.lookup q = none
        rw [lookup_removeReq, if_pos hq]
      · left
        show (removeReq (withSys d s) entry.seqId).reqTable.lookup q = _
        rw [lookup_removeReq, if_neg hq]
        rfl
    · rw [heq]
      exact .inl rfl

/-! ### Requests keep what they are admitted with -/

omit [LinearOrder Sid] in
/-- Marking requests keeps their terms. -/
theorem markTerminal_admits (hP : AdmitsWith env P) {d : Data σ γ Sid}
    (hkeys : KeysMatch d.reqTable) (h : TableAll P d.reqTable) :
    TableAll P (markTerminal d).reqTable := by
  refine (updateReqs_talks (fun r r' heq => ?_) hkeys h).2
  split at heq
  · cases heq
    exact ⟨rfl, rfl, hP.of_terms rfl⟩
  · cases heq

/-- A tick leaves admitted requests. -/
theorem stepTick_admits (hP : AdmitsWith env P) {d : Data σ γ Sid} (hd : Wf env d)
    (h : TableAll P d.reqTable) (hlive : (stepTick env d).phase ≠ .stopped) :
    TableAll P (stepTick env d).data.reqTable := by
  -- Honouring the cancellations finishes requests, and keeps who they are for.
  have hcancel : TableAll P (honourCancellations d).reqTable := by
    refine (updateReqs_talks (fun r r' heq => ?_) hd.table.keysMatch h).2
    split at heq
    · cases heq
      exact ⟨rfl, rfl, hP.of_terms rfl⟩
    · cases heq
  have hworks := tickBody_works hd
  have hends := tickBody_ends (G := .free) hd
    (bodyOk_of (fun _ _ => trivial) (fun _ _ _ => trivial) (fun _ _ => trivial) d)
  unfold stepTick at hlive ⊢
  cases hbody : tickBody env d with
  -- The body's results, the marks of the end, and what the queue lets in.
  | stepped d' =>
    rw [hbody] at hworks hends
    have hwf : Wf env d' := Moves.wf hends hd
    have hstep : TableAll P d'.reqTable := by
      intro q r' hr'
      obtain ⟨r, hr, hterms⟩ := hworks.comes q r' hr'
      exact hP.of_terms hterms (hcancel q r hr)
    have hmark := markTerminal_admits hP hwf.table.keysMatch hstep
    have hwf' := Moves.wf (markTerminal_moves (G := .free) hwf) hwf
    have hqueue := dispatchAdmits_joins hP (finishMarkedReqs env (markTerminal d')).pending
      (finishMarkedReqs_wf hwf)
    have hall : TableAll P (dispatchPendingAdmits env
        (finishMarkedReqs env (markTerminal d'))).reqTable := by
      intro q r hr
      rcases hqueue.comes q r hr with hr | hnew
      · exact hmark q r (lookup_finishMarkedReqs env hwf'.table.keysMatch hr).1
      · exact hnew
    dsimp only
    rcases tickAfterStep_cases env d' with ⟨heq, -⟩ | heq
    · rw [heq]
      exact hall
    · rw [heq]
      exact hall
  -- A recovery leaves no request; a tick that stops the process is excluded.
  | recover d' e =>
    rw [hbody] at hlive
    dsimp only at hlive ⊢
    unfold recoverInPlace at hlive ⊢
    dsimp only at hlive ⊢
    split
    case h_1 hnone =>
      rw [hnone] at hlive
      exact absurd rfl hlive
    case h_2 f hf =>
      rw [hf] at hlive
      dsimp only at hlive ⊢
      split
      case h_1 => exact fun q r hr => by cases hr
      case h_2 hfail =>
        rw [hfail] at hlive
        exact absurd rfl hlive
  | failed d' e =>
    rw [hbody] at hlive
    exact absurd rfl hlive
  | crashed d' =>
    rw [hbody] at hlive
    exact absurd rfl hlive

/-- **Step lemma.** While the process lives, what requests are admitted with stays. -/
theorem step_admits (hP : AdmitsWith env P) {p : Proc σ γ Sid} (hp : Wf env p.data)
    (h : TableAll P p.data.reqTable) (e : Event Sid)
    (hlive : (step env p e).phase ≠ .stopped) :
    TableAll P (step env p e).data.reqTable := by
  have hstart : p.phase ≠ .stopped := by
    intro hstopped
    rw [show step env p e = p from if_pos hstopped] at hlive
    exact hlive hstopped
  rw [show step env p e = handleEvent env p e from if_neg hstart] at hlive ⊢
  have hof : (∀ frm sid, e ≠ .resetSession frm sid) → e.isCast = false →
      TableAll P (handleEvent env p e).data.reqTable := by
    intro hreset hcast q r hr
    rcases (handleEvent_stands hP hp hcast hreset).comes q r hr with ⟨r₀, hr₀, hterms⟩ | hnew
    · exact hP.of_terms hterms (h q r₀ hr₀)
    · exact hnew
  cases e with
  | resetSession frm sid =>
    intro q r hr
    replace hr : (resetSessionSeq env p.data sid).2.reqTable.lookup q = some r := hr
    rcases resetSessionSeq_table p.data sid (q := q) with heq | ⟨_, -, -, hnone⟩
    · exact h q r (heq ▸ hr)
    · rw [hnone] at hr
      cases hr
  | cancel ref =>
    show TableAll P (handleCancel p.data ref).reqTable
    unfold handleCancel
    split
    case h_1 r hfind =>
      have hr := lookup_of_mem_requests hp.table.keysMatch (List.mem_of_find?_eq_some hfind)
      exact h.putReq (hP.congr (r := r) rfl (h _ r hr))
    case h_2 => exact h
  | tick =>
    replace hlive : (handleTick env p).phase ≠ .stopped := hlive
    show TableAll P (handleTick env p).data.reqTable
    unfold handleTick at hlive ⊢
    split
    case isTrue => exact h
    case isFalse hticks =>
      rw [if_neg hticks] at hlive
      split
      case isTrue hrunning =>
        rw [if_pos hrunning] at hlive
        exact stepTick_admits hP (d := takeTick p.data) ⟨hp.table, hp.sound⟩ h hlive
      case isFalse => exact h
  | _ => exact hof (by rintro _ _ ⟨⟩) rfl

/-! ### What holds as long as the process lives -/

/-- The process, which lives, is in order. -/
structure Lively (env : Env σ γ) (p : Proc σ γ Sid) : Prop where
  wf : Wf env p.data
  underway : TableAll Req.Underway p.data.reqTable
  sound : ∃ asked, (account p.data).Sound asked
  addressed : TableAll Req.Addressed p.data.reqTable
  tended : 0 < env.cfg.nSeqMax → Tended env p

/-- Every event keeps a live process lively. -/
theorem step_lively {p : Proc σ γ Sid} (h : Lively env p) (e : Event Sid)
    (hlive : (step env p e).phase ≠ .stopped) : Lively env (step env p e) := by
  have hhandles := step_handles h.wf h.underway e hlive
  obtain ⟨asked, hsound⟩ := h.sound
  exact ⟨step_wf h.wf e, hhandles.underway, ⟨_, hhandles.steps.sound (hsound.hears e.due)⟩,
    step_admits (admitsWith_addressed env) h.wf h.addressed e hlive,
    fun hn => step_tended hn p e (h.tended hn)⟩

/-- The same configuration. -/
theorem Lively.congr {env' : Env σ γ} {p : Proc σ γ Sid} (hcfg : env'.cfg = env.cfg)
    (h : Lively env p) : Lively env' p where
  wf := h.wf.congr hcfg
  underway := h.underway
  sound := h.sound
  addressed := h.addressed
  tended := fun hn => by
    obtain ⟨-, hstocked, hunderway, hsettled⟩ := h.tended (hcfg ▸ hn)
    exact ⟨h.wf.congr hcfg, hstocked, hunderway, hsettled⟩

omit [LinearOrder Sid] in
/-- The flags of a tick are no part of the configuration. -/
theorem tickEnv_cfg (aborted : σ → σ) (fires : Bool) (raised : List Ref) :
    (tickEnv env aborted fires raised).cfg = env.cfg := by
  unfold tickEnv
  split <;> rfl

/-! ### What is sent on a stream -/

omit [LinearOrder Sid] in
/-- The stream of a request is open. -/
theorem live_of_stream {d : Data σ γ Sid} {q : SeqId} {r : Req Sid}
    (hr : d.reqTable.lookup q = some r) (hflag : r.thinkingNotEnabled = false) {pid : Pid}
    {ref : Ref} (hstream : r.stream = some (pid, ref)) : (pid, ref) ∈ (account d).live := by
  have hparty : r.party = some (pid, ref) := by
    unfold Req.party
    rw [hflag]
    exact hstream
  rw [account_of_lookup hr, accountOf_cons, hparty]
  exact Multiset.mem_add.mpr (.inl (Multiset.mem_singleton_self _))

omit [LinearOrder Sid] in
/-- A stream is one request's. -/
theorem stream_unique {d : Data σ γ Sid} {asked : Multiset (From × CallKind)}
    (hsound : (account d).Sound asked) (hflags : TableAll Req.Unflagged d.reqTable)
    {q q' : SeqId} {r r' : Req Sid} (hr : d.reqTable.lookup q = some r)
    (hr' : d.reqTable.lookup q' = some r') {pid pid' : Pid} {ref : Ref}
    (hstream : r.stream = some (pid, ref)) (hstream' : r'.stream = some (pid', ref)) : q = q' := by
  by_contra hne
  have hparty : ∀ {r : Req Sid} {pid : Pid}, r.thinkingNotEnabled = false →
      r.stream = some (pid, ref) → r.party = some (pid, ref) := by
    intro r pid hflag hstream
    unfold Req.party
    rw [hflag]
    exact hstream
  have hlive : (account d).live = (pid, ref) ::ₘ
      (((d.reqTable.erase q).values.filterMap Req.party : List (Pid × Ref)) :
        Multiset (Pid × Ref)) := by
    rw [account_of_lookup hr, accountOf_cons, hparty (hflags q r hr).flag hstream]
    exact Multiset.singleton_add _ _
  refine hsound.live_unique hlive pid' (Multiset.mem_coe.mpr ?_)
  refine List.mem_filterMap.mpr ⟨r', ?_, hparty (hflags q' r' hr').flag hstream'⟩
  have herase : (d.reqTable.erase q).lookup q' = some r' := by
    rw [AList.lookup_erase_ne (Ne.symm hne)]
    exact hr'
  exact AList.mem_values_iff.mpr ⟨q', herase⟩

/-- An open stream had no final event. -/
theorem Account.Sound.not_final {asked : Multiset (From × CallKind)} {a : Account}
    (ha : a.Sound asked) {pid pid' : Pid} {ref : Ref} (hlive : (pid, ref) ∈ a.live)
    {ev : StreamEvent} (hmem : Out.send pid' ref ev ∈ a.out) : ev.isFinal = false := by
  obtain ⟨f, evs, hevs, heq⟩ := ha.ongoing pid ref hlive
  have hshown : Out.send pid' ref ev ∈ transcript ref a.out :=
    List.mem_filter.mpr ⟨hmem, decide_eq_true rfl⟩
  rw [heq] at hshown
  simp only [List.mem_cons, List.mem_map, reduceCtorEq, false_or, Out.send.injEq] at hshown
  obtain ⟨ev', hev', -, -, rfl⟩ := hshown
  exact hevs ev' hev'

/-- A stream has one final event. -/
theorem Account.Sound.final_unique {asked : Multiset (From × CallKind)} {a : Account}
    (ha : a.Sound asked) {pid pid' : Pid} {ref : Ref} {ev ev' : StreamEvent}
    (hmem : Out.send pid ref ev ∈ a.out) (hfinal : ev.isFinal = true)
    (hmem' : Out.send pid' ref ev' ∈ a.out) (hfinal' : ev'.isFinal = true) : ev' = ev := by
  have hshown : ∀ {pid ev}, Out.send pid ref ev ∈ a.out →
      Out.send pid ref ev ∈ transcript ref a.out := fun hmem =>
    List.mem_filter.mpr ⟨hmem, decide_eq_true rfl⟩
  have hlt : ref < a.nextRef := by
    by_contra hle
    have hnone := hshown hmem
    rw [ha.fresh ref (Nat.le_of_not_lt hle)] at hnone
    exact absurd hnone List.not_mem_nil
  have hdead : ∀ pid', (pid', ref) ∉ a.live := fun pid' hlive => by
    rw [ha.not_final hlive hmem] at hfinal
    exact nomatch hfinal
  obtain ⟨pid₀, f, evs, last, hevs, -, heq⟩ := ha.ended ref hlt hdead
  have hlast : ∀ {pid ev}, Out.send pid ref ev ∈ a.out → ev.isFinal = true → ev = last := by
    intro pid ev hmem hfinal
    have hmem := hshown hmem
    rw [heq] at hmem
    simp only [List.mem_cons, List.mem_append, List.mem_map, reduceCtorEq, false_or,
      Out.send.injEq, List.not_mem_nil, or_false] at hmem
    rcases hmem with ⟨ev', hev', -, -, rfl⟩ | ⟨-, -, rfl⟩
    · rw [hevs ev' hev'] at hfinal
      exact nomatch hfinal
    · rfl
  exact (hlast hmem' hfinal').trans (hlast hmem hfinal).symm

/-! ### The course of a cancelled stream -/

/-- A request of the stream is in the table, cancelled. -/
def Cancelling (ref : Ref) (d : Data σ γ Sid) : Prop :=
  ∃ q r pid, d.reqTable.lookup q = some r ∧ r.stream = some (pid, ref) ∧ r.cancelPending = true

/-- A cancelled stream waits for its end or had it. -/
def OnCourse (ref : Ref) (d : Data σ γ Sid) : Prop :=
  Cancelling ref d ∨ DoneCancelled ref d.sys.out

/-- A stream that ended as cancelled has no request. -/
theorem DoneCancelled.closed {asked : Multiset (From × CallKind)} {a : Account}
    (ha : a.Sound asked) {ref : Ref} (h : DoneCancelled ref a.out) (pid : Pid) :
    (pid, ref) ∉ a.live := by
  obtain ⟨pid', stats, hmem, -⟩ := h
  intro hlive
  exact nomatch ha.not_final hlive hmem

omit [LinearOrder Sid] in
/-- A request on its course to a cancelled end has had none before. -/
theorem OnCourse.endsCancelled {d : Data σ γ Sid} {asked : Multiset (From × CallKind)}
    (hsound : (account d).Sound asked) (hunder : TableAll Req.Underway d.reqTable) {ref : Ref}
    (h : OnCourse ref d) : EndsCancelled ref d.sys.out := by
  intro pid ev hmem hfinal
  rcases h with ⟨q, r, pid', hr, hstream, -⟩ | ⟨pid', stats, hdone, hstats⟩
  · have hlive := live_of_stream hr (hunder q r hr).flag hstream
    rw [hsound.not_final hlive hmem] at hfinal
    exact nomatch hfinal
  · exact ⟨stats, hsound.final_unique hdone rfl hmem hfinal, hstats⟩

/-- The body of a tick sends nothing on a cancelled stream. -/
theorem tickBody_silent {d : Data σ γ Sid} (hd : Wf env d)
    (hunder : TableAll Req.Underway d.reqTable) {asked : Multiset (From × CallKind)}
    (hsound : (account d).Sound asked) {ref : Ref} (h : OnCourse ref d) :
    ∃ new : List Out, (tickBody env d).data.sys.out = d.sys.out ++ new ∧
      ∀ pid ev, Out.send pid ref ev ∉ new := by
  obtain ⟨new, hout, hnew⟩ := (tickBody_works hd).voices
  rw [show (honourCancellations d).sys = d.sys from updateReqs_sys _ d] at hout
  refine ⟨new, hout, fun pid ev hmem => ?_⟩
  obtain ⟨q, r, hr, hfin, hstream⟩ := hnew pid ref ev hmem
  obtain ⟨htalks, hflags⟩ := honourCancellations_talks hd.table.keysMatch
    fun q r hr => ⟨(hunder q r hr).stream, (hunder q r hr).flag⟩
  have hsound' := htalks.steps.sound hsound
  rcases h with ⟨q₀, r₀, pid₀, hr₀, hstream₀, hcancel⟩ | hdone
  · -- The cancelled request is finishing by now, so the event was not for it.
    have hmarked : (honourCancellations d).reqTable.lookup q₀
        = some { r₀ with finishing := true } := lookup_honourCancellations hd hr₀ hcancel
    have hq := stream_unique hsound' hflags hr hmarked hstream
      (show ({ r₀ with finishing := true } : Req Sid).stream = _ from hstream₀)
    rw [hq, hmarked] at hr
    cases hr
    exact nomatch hfin
  · exact (hdone.mono htalks.steps.out).closed hsound' pid
      (live_of_stream hr (hflags q r hr).flag hstream)

omit [LinearOrder Sid] in
/-- A request whose stream is `ref` has the reference. -/
theorem requestRef_of_stream {r : Req Sid} {pid : Pid} {ref : Ref}
    (h : r.stream = some (pid, ref)) : r.requestRef = some ref := by
  unfold Req.stream at h
  split at h
  case h_1 pid' ref' _ _ href =>
    cases h
    exact href
  case h_2 => exact nomatch h

/-- A tick that fails everyone but the requests of a stream finds it done already. -/
theorem done_of_spared {d d' : Data σ γ Sid} (hd : Wf env d) {ref : Ref} (h : OnCourse ref d)
    (hspared : ∀ r ∈ failedBy env d, r.requestRef ≠ some ref) {e : Reason}
    (hbody : tickBody env d = .recover d' e ∨ tickBody env d = .failed d' e) :
    DoneCancelled ref d.sys.out := by
  rcases h with ⟨q, r, pid, hr, hstream, hcancel⟩ | hdone
  · have hkept := (tickBody_works hd).stays q _
      (lookup_honourCancellations hd hr hcancel) rfl
    rw [show (tickBody env d).data = d' by rcases hbody with h | h <;> rw [h] <;> rfl] at hkept
    rw [failedBy_of_failed hbody] at hspared
    exact absurd (requestRef_of_stream hstream)
      (hspared { r with finishing := true } (mem_requests.mpr ⟨q, hkept⟩))
  · exact hdone

/-- Failing everyone but the requests of a stream sends nothing on it. -/
theorem failAllRequests_silent {d d' : Data σ γ Sid} (hd : Wf env d)
    (hunder : TableAll Req.Underway d.reqTable) {asked : Multiset (From × CallKind)}
    (hsound : (account d).Sound asked) {ref : Ref} (h : OnCourse ref d)
    (hspared : ∀ r ∈ failedBy env d, r.requestRef ≠ some ref) {e : Reason}
    (hbody : tickBody env d = .recover d' e ∨ tickBody env d = .failed d' e) (err : Err) :
    ∃ new : List Out, (failAllRequests env d' err).sys.out = d.sys.out ++ new ∧
      ∀ pid ev, Out.send pid ref ev ∉ new := by
  obtain ⟨new, hout, hnew⟩ := tickBody_silent hd hunder hsound h
  rw [show (tickBody env d).data = d' by rcases hbody with h | h <;> rw [h] <;> rfl] at hout
  rw [failedBy_of_failed hbody] at hspared
  obtain ⟨errs, herrs, hto⟩ := failAll_voices (requests d'.reqTable) d'.sys err
  refine ⟨new ++ errs, ?_, fun pid ev hmem => ?_⟩
  · rw [← List.append_assoc, ← hout]
    exact herrs
  · rcases List.mem_append.mp hmem with hmem | hmem
    · exact hnew pid ev hmem
    · obtain ⟨r, hr, hstream⟩ := hto pid ref ev hmem
      exact hspared r hr (requestRef_of_stream hstream)

/-- A tick that stops the process, but fails no request of a stream, sends nothing on it. -/
theorem stepTick_silent {d : Data σ γ Sid} (hd : Wf env d)
    (hunder : TableAll Req.Underway d.reqTable) {asked : Multiset (From × CallKind)}
    (hsound : (account d).Sound asked) {ref : Ref} (h : OnCourse ref d)
    (hspared : ∀ r ∈ failedBy env d, r.requestRef ≠ some ref)
    (hstopped : (stepTick env d).phase = .stopped) :
    ∃ new : List Out, (stepTick env d).data.sys.out = d.sys.out ++ new ∧
      ∀ pid ev, Out.send pid ref ev ∉ new := by
  unfold stepTick at hstopped ⊢
  cases hbody : tickBody env d with
  | stepped d' =>
    rw [hbody] at hstopped
    exact absurd hstopped (tickAfterStep_phase env d')
  | recover d' e =>
    obtain ⟨new, hout, hnew⟩ := failAllRequests_silent hd hunder hsound h hspared (.inl hbody)
      (.nested (.backend e))
    obtain ⟨new', hout', hnew'⟩ := failPending_voices
      (failAllRequests env d' (.nested (.backend e))).pending
      (failAllRequests env d' (.nested (.backend e))) (.backend e)
    have hall : (failPendingAdmits (failAllRequests env d' (.nested (.backend e)))
        (.backend e)).sys.out = d.sys.out ++ (new ++ new') := by
      rw [← List.append_assoc, ← hout]
      exact hout'
    refine ⟨new ++ new', ?_, fun pid ev hmem => ?_⟩
    · rw [← hall]
      dsimp only
      unfold recoverInPlace
      dsimp only
      split
      · rfl
      · split <;> rfl
    · rcases List.mem_append.mp hmem with hmem | hmem
      · exact hnew pid ev hmem
      · exact hnew' pid ref ev hmem
  | failed d' e =>
    exact failAllRequests_silent hd hunder hsound h hspared (.inr hbody) (.nested (.backend e))
  | crashed d' =>
    have hbefore := tickBody_silent hd hunder hsound h
    rw [hbody] at hbefore
    exact hbefore

/-- **A tick whose decode fails no cancelled request.**  If the process lives on, the cancelled
    stream is done, and else no other event ended it. -/
theorem stepTick_cancelled {d : Data σ γ Sid} (hd : Wf env d)
    (hunder : TableAll Req.Underway d.reqTable) {asked : Multiset (From × CallKind)}
    (hsound : (account d).Sound asked) {ref : Ref} (h : OnCourse ref d)
    (hspared : ∀ r ∈ failedBy env d, r.requestRef ≠ some ref) :
    ((stepTick env d).phase ≠ .stopped → DoneCancelled ref (stepTick env d).data.sys.out) ∧
      EndsCancelled ref (stepTick env d).data.sys.out := by
  have hlives : (stepTick env d).phase ≠ .stopped →
      DoneCancelled ref (stepTick env d).data.sys.out := by
    intro hlive
    have hout := (stepTick_handles hd hunder hlive).steps.out
    have hmono : DoneCancelled ref d.sys.out →
        DoneCancelled ref (stepTick env d).data.sys.out := fun hdone => hdone.mono hout
    cases hbody : tickBody env d with
    | stepped d' =>
      rcases h with ⟨q, r, pid, hr, hstream, hcancel⟩ | hdone
      · have hdone := tickAfterStep_cancelled hd hunder hbody hr hstream hcancel
        unfold stepTick
        rw [hbody]
        exact hdone
      · exact hmono hdone
    | recover d' e => exact hmono (done_of_spared hd h hspared (.inl hbody))
    | failed d' e => exact hmono (done_of_spared hd h hspared (.inr hbody))
    | crashed d' =>
      refine absurd ?_ hlive
      unfold stepTick
      rw [hbody]
  refine ⟨hlives, ?_⟩
  by_cases hstopped : (stepTick env d).phase = .stopped
  · obtain ⟨new, hout, hnew⟩ := stepTick_silent hd hunder hsound h hspared hstopped
    rw [hout]
    intro pid ev hmem hfinal
    rcases List.mem_append.mp hmem with hmem | hmem
    · exact h.endsCancelled hsound hunder pid ev hmem hfinal
    · exact absurd hmem (hnew pid ev)
  · have hhandles := stepTick_handles hd hunder hstopped
    exact OnCourse.endsCancelled (hhandles.steps.sound hsound) hhandles.underway
      (.inr (hlives hstopped))

/-! ### A gentle step -/

/-- What a gentle run keeps. -/
structure Tracked (env : Env σ γ) (s : Race σ γ Sid) : Prop where
  lively : s.proc.phase ≠ .stopped → Lively env s.proc
  onCourse : s.proc.phase ≠ .stopped → ∀ ref ∈ s.noted, OnCourse ref s.proc.data
  final : ∀ ref ∈ s.noted, EndsCancelled ref s.proc.data.sys.out
  armed : s.decoding = true → s.proc.phase = .running ∧ s.proc.data.sys.ticks ≠ 0

/-- A process that lives, with its cancelled streams on their course. -/
theorem Tracked.of_live {s : Race σ γ Sid} (hlive : Lively env s.proc)
    (h : ∀ ref ∈ s.noted, OnCourse ref s.proc.data)
    (harmed : s.decoding = true → s.proc.phase = .running ∧ s.proc.data.sys.ticks ≠ 0) :
    Tracked env s where
  lively := fun _ => hlive
  onCourse := fun _ => h
  final := fun ref href => by
    obtain ⟨asked, hsound⟩ := hlive.sound
    exact (h ref href).endsCancelled hsound hlive.underway
  armed := harmed

/-- A cancelled request waits for a tick. -/
theorem Cancelling.awaits {p : Proc σ γ Sid} (hp : Lively env p) (hlive : p.phase ≠ .stopped)
    {ref : Ref} (h : Cancelling ref p.data) : Awaits ref p := by
  obtain ⟨q, r, pid, hr, hstream, hcancel⟩ := h
  have hn : 0 < env.cfg.nSeqMax := by
    have hbusy : (pool p.data).busy q ≠ none := by
      rw [pool_busy_of_lookup hr]
      exact Option.some_ne_none _
    exact Nat.zero_lt_of_lt (List.mem_range.mp (hp.wf.sound.busy_mem q hbusy))
  have hsettled := (hp.tended hn).settled
  have hrunning : p.phase = .running := by
    cases hphase : p.phase with
    | running => rfl
    | stopped => exact absurd hphase hlive
    | idle =>
      have hempty := (hsettled.idle hphase).1
      have hmem := AList.mem_entries_iff.mpr hr
      rw [hempty] at hmem
      exact absurd hmem List.not_mem_nil
  exact ⟨hrunning, hsettled.running hrunning, r, mem_requests.mpr ⟨q, hr⟩, ⟨pid, hstream⟩,
    hcancel⟩

/-- What is tracked ends cancelled. -/
theorem Tracked.cancelledEnds {s : Race σ γ Sid} (h : Tracked env s) : CancelledEnds s where
  final := h.final
  ends := fun hlive ref href =>
    (h.onCourse hlive ref href).imp_left fun hc => hc.awaits (h.lively hlive) hlive

/-- A step after which the process still lives was one of a process that lived. -/
theorem step_started {p : Proc σ γ Sid} {e : Event Sid}
    (h : (step env p e).phase ≠ .stopped) : p.phase ≠ .stopped := by
  intro hstopped
  rw [show step env p e = p from if_pos hstopped] at h
  exact h hstopped

/-- A call keeps cancelled streams on their course, if it resets none of their sessions. -/
theorem OnCourse.handled {p : Proc σ γ Sid} (hp : Lively env p) {e : Event Sid}
    (hcast : e.isCast = false) (hlive : (step env p e).phase ≠ .stopped) {ref : Ref}
    (hreset : ∀ frm sid, e = .resetSession frm sid → ∀ entry r,
      p.data.sessionSeq.lookup sid = some entry →
      p.data.reqTable.lookup entry.seqId = some r → r.requestRef ≠ some ref)
    (h : OnCourse ref p.data) : OnCourse ref (step env p e).data := by
  have hout := (step_handles hp.wf hp.underway e hlive).steps.out
  have heq : step env p e = handleEvent env p e := if_neg (step_started hlive)
  rcases h with ⟨q, r, pid, hr, hstream, hcancel⟩ | hdone
  · left
    by_cases hsid : ∃ frm sid, e = .resetSession frm sid
    · obtain ⟨frm, sid, rfl⟩ := hsid
      refine ⟨q, r, pid, ?_, hstream, hcancel⟩
      rw [heq]
      show (resetSessionSeq env p.data sid).2.reqTable.lookup q = some r
      rcases resetSessionSeq_table p.data sid (q := q) with hsame | ⟨entry, hs, rfl, -⟩
      · rw [hsame, hr]
      · exact absurd (requestRef_of_stream hstream) (hreset frm sid rfl entry r hs hr)
    · obtain ⟨r', hr', hterms⟩ := (handleEvent_stands (admitsWith_addressed env) hp.wf hcast
        fun frm sid he => hsid ⟨frm, sid, he⟩).stays q r hr
      refine ⟨q, r', pid, ?_, (stream_of_terms hterms).trans hstream,
        (congrArg Terms.cancelPending hterms).trans hcancel⟩
      rw [heq]
      exact hr'
  · right
    refine hdone.mono ?_
    cases hdue : e.due <;> rw [hdue] at hout <;> exact hout

omit [LinearOrder Sid] in
/-- The cancel cast leaves cancelled streams on their course, and puts its request there. -/
theorem handleCancel_onCourse {d : Data σ γ Sid} (hkeys : KeysMatch d.reqTable) {ref : Ref}
    (ref' : Ref) (h : OnCourse ref d) : OnCourse ref (handleCancel d ref') := by
  unfold handleCancel
  split
  case h_2 => exact h
  case h_1 r' hfind =>
    rcases h with ⟨q, r, pid, hr, hstream, hcancel⟩ | hdone
    · have hr' := lookup_of_mem_requests hkeys (List.mem_of_find?_eq_some hfind)
      left
      by_cases hq : q = r'.seqId
      · rw [← hq, hr] at hr'
        cases hr'
        refine ⟨q, { r' with cancelPending := true }, pid, ?_, hstream, rfl⟩
        rw [lookup_putReq, if_pos hq]
      · refine ⟨q, r, pid, ?_, hstream, hcancel⟩
        rw [lookup_putReq, if_neg hq]
        exact hr
    · exact .inr hdone

omit [LinearOrder Sid] in
/-- A cancel puts its request on that course. -/
theorem handleCancel_cancelling {d : Data σ γ Sid} (hkeys : KeysMatch d.reqTable)
    (hunder : TableAll Req.Underway d.reqTable) (haddress : TableAll Req.Addressed d.reqTable)
    {ref : Ref} (h : InFlight d ref) : Cancelling ref (handleCancel d ref) := by
  obtain ⟨r₀, hr₀, href₀⟩ := h
  unfold handleCancel
  split
  case h_1 r hfind =>
    have hr := lookup_of_mem_requests hkeys (List.mem_of_find?_eq_some hfind)
    have href : r.requestRef = some ref := by
      have hsome := List.find?_some hfind
      exact of_decide_eq_true hsome
    obtain ⟨pid, hstream⟩ := (haddress _ r hr).stream (hunder _ r hr).stream href
    refine ⟨r.seqId, { r with cancelPending := true }, pid, ?_, hstream, rfl⟩
    rw [lookup_putReq]
    exact if_pos rfl
  case h_2 hfind =>
    have hnone := List.find?_eq_none.mp hfind r₀ hr₀
    exact absurd (decide_eq_true href₀) hnone

/-- Only a tick stops the process. -/
theorem step_lives {p : Proc σ γ Sid} (hp : Wf env p.data) (hlive : p.phase ≠ .stopped)
    {e : Event Sid} (hcast : e.isCast = false) : (step env p e).phase ≠ .stopped := by
  have hadmission : ∀ {p' : Proc σ γ Sid}, Admission p.phase p.data p' →
      p'.phase ≠ .stopped := by
    intro p' h
    cases h with
    | started => exact nofun
    | refused => exact hlive
  rw [show step env p e = handleEvent env p e from if_neg hlive]
  cases e with
  | request item =>
    have harrival := admitRequest_arrival hp p.phase item
    generalize heq : handleEvent env p (.request item) = p'
    rw [show admitRequest env p.data p.phase item = p' from heq] at harrival
    cases harrival with
    | decided h => exact hadmission h
    | queued =>
      dsimp only
      split
      · exact nofun
      · exact hlive
  | «continue» frm suffix opts =>
    exact hadmission (admitContinue_outcome env p.phase frm suffix opts)
  | verify frm pre cands k =>
    unfold handleEvent
    dsimp only
    split
    · exact hlive
    · exact hlive
  | cancel ref => exact nomatch hcast
  | tick => exact nomatch hcast
  | _ => exact hlive

/-- A tick cast to a running process is a tick. -/
theorem step_tick {p : Proc σ γ Sid} (hrunning : p.phase = .running)
    (hticks : p.data.sys.ticks ≠ 0) : step env p .tick = stepTick env (takeTick p.data) := by
  have hlive : p.phase ≠ .stopped := by
    rw [hrunning]
    exact nofun
  rw [show step env p .tick = handleTick env p from if_neg hlive]
  unfold handleTick
  rw [if_neg hticks, if_pos hrunning]

/-- A decode that fails no cancelled request finishes them all. -/
theorem finish_cancelled {p : Proc σ γ Sid} (hp : Lively env p) (hrunning : p.phase = .running)
    (hticks : p.data.sys.ticks ≠ 0) {ref : Ref} (h : OnCourse ref p.data)
    (hspared : ∀ r ∈ failedBy env (takeTick p.data), r.requestRef ≠ some ref) :
    ((step env p .tick).phase ≠ .stopped → DoneCancelled ref (step env p .tick).data.sys.out) ∧
      EndsCancelled ref (step env p .tick).data.sys.out := by
  obtain ⟨asked, hsound⟩ := hp.sound
  rw [step_tick hrunning hticks]
  exact stepTick_cancelled (d := takeTick p.data) ⟨hp.wf.table, hp.wf.sound⟩ hp.underway
    hsound h hspared

/-- **A gentle step keeps the cancelled streams on their course.** -/
theorem race_step {aborted : σ → σ} (s : Race σ γ Sid) (a : Act Sid) (h : Tracked env s)
    (hgentle : Gentle env aborted s a) : Tracked env (race env aborted s a) := by
  cases a with
  | cancel ref =>
    dsimp only [race]
    -- Only a stream in flight gets an interrupt flag and a cast.
    split
    · exact ⟨h.lively, h.onCourse, h.final, h.armed⟩
    · exact h
  | arm =>
    dsimp only [race]
    split
    case isTrue hready =>
      exact ⟨h.lively, h.onCourse, h.final, fun _ => ⟨hready.1, hready.2.1⟩⟩
    case isFalse => exact h
  | handle e =>
    dsimp only [race]
    -- An event waits while the decode runs or a cast is ahead of it.
    split
    case isTrue => exact h
    case isFalse hguard =>
      obtain ⟨hdecoding, hcast⟩ := not_or.mp hguard
      rw [Bool.not_eq_true] at hcast
      -- A stopped process takes nothing in.
      by_cases hstart : s.proc.phase = .stopped
      · rw [show step env s.proc e = s.proc from if_pos hstart]
        exact h
      · have hlively := h.lively hstart
        have hlives := step_lives hlively.wf hstart hcast
        refine .of_live (step_lively hlively e hlives) (fun ref href => ?_)
          fun hdec => absurd hdec hdecoding
        refine (h.onCourse hstart ref href).handled hlively hcast hlives ?_
        rintro frm sid rfl entry r hs hr hrefr
        exact hgentle entry r ref hs hr hrefr href
  | deliver =>
    dsimp only [race]
    split
    case h_1 => exact h
    case h_2 ref rest hcasts =>
      split
      case isTrue => exact h
      case isFalse hdecoding =>
        by_cases hstart : s.proc.phase = .stopped
        · rw [show step env s.proc (.cancel ref) = s.proc from if_pos hstart,
            if_neg fun hand => hand.1 hstart, List.append_nil]
          exact ⟨h.lively, h.onCourse, h.final, h.armed⟩
        · have hstep : step env s.proc (.cancel ref)
              = { s.proc with data := handleCancel s.proc.data ref } := if_neg hstart
          have hlive := h.lively hstart
          have hkeys := hlive.wf.table.keysMatch
          have hlively := step_lively hlive (.cancel ref) (by rw [hstep]; exact hstart)
          refine .of_live hlively (fun ref' href' => ?_) fun hdec => absurd hdec hdecoding
          rw [hstep]
          -- What was noted before stays noted; the stream of this cast is marked now.
          rcases List.mem_append.mp href' with hold | hnew
          · exact handleCancel_onCourse hkeys ref (h.onCourse hstart ref' hold)
          · split at hnew
            case isTrue hflight =>
              rw [List.mem_singleton.mp hnew]
              exact .inl (handleCancel_cancelling hkeys hlive.underway hlive.addressed hflight.2)
            case isFalse => exact absurd hnew List.not_mem_nil
  | finish fires =>
    dsimp only [race]
    -- The decode ends: an interrupt that fired fails the batch.
    split
    case isFalse => exact h
    case isTrue hdecoding =>
      obtain ⟨hrunning, hticks⟩ := h.armed hdecoding
      have hstart : s.proc.phase ≠ .stopped := by
        rw [hrunning]
        exact nofun
      generalize henv : tickEnv env aborted fires s.raised = env'
      have hcfg : env'.cfg = env.cfg := henv ▸ tickEnv_cfg aborted fires s.raised
      replace hgentle := hgentle hdecoding
      rw [henv] at hgentle
      -- The interrupt took effect on no request of a stream that was cancelled.
      have hnone : (if fires = true then s.raised.filter (· ∈
          (failedBy env' (takeTick s.proc.data)).filterMap Req.requestRef) else []) = [] := by
        split
        case isTrue hfires =>
          refine List.filter_eq_nil_iff.mpr fun ref href hmem => ?_
          obtain ⟨r, hr, hrefr⟩ := List.mem_filterMap.mp (of_decide_eq_true hmem)
          exact (hgentle r hr ref hrefr).2 hfires href
        case isFalse => rfl
      have hlively := (h.lively hstart).congr hcfg
      have hcourse : ∀ ref ∈ s.noted, _ := fun ref href =>
        finish_cancelled hlively hrunning hticks (h.onCourse hstart ref href)
          fun r hr hrefr => (hgentle r hr ref hrefr).1 href
      rw [hnone, List.append_nil]
      -- The tick may have stopped the process.
      by_cases hlives : (step env' s.proc .tick).phase = .stopped
      · exact ⟨fun hlive => absurd hlives hlive, fun hlive => absurd hlives hlive,
          fun ref href => (hcourse ref href).2, nofun⟩
      · exact .of_live ((step_lively hlively .tick hlives).congr hcfg.symm)
          (fun ref href => .inr ((hcourse ref href).1 hlives)) nofun

/-! ### Runs -/

/-- The race before anything happened. -/
def Race.init (env : Env σ γ) (ctx : σ) (world : γ) : Race σ γ Sid where
  proc := Model.init env ctx world

/-- The decode that finishes leaves no cancelled stream waiting. -/
def FinishesCancelled (env : Env σ γ) (aborted : σ → σ) (s : Race σ γ Sid) (a : Act Sid) : Prop :=
  ∀ fires, a = .finish fires → s.decoding = true →
    (race env aborted s a).proc.phase ≠ .stopped → ∀ ref ∈ s.noted,
      DoneCancelled ref (race env aborted s a).proc.data.sys.out

/-- At the start nothing is cancelled. -/
theorem tracked_init (ctx : σ) (world : γ) :
    Tracked env (Race.init env ctx world : Race σ γ Sid) := by
  refine .of_live ⟨wf_init ctx world, fun q r hr => (nomatch hr), ⟨0, Account.sound_zero⟩,
    fun q r hr => (nomatch hr), fun hn => run_tended hn ctx world []⟩ ?_ nofun
  exact fun ref href => absurd href List.not_mem_nil

/-- **Run theorem.** In a run in which no decode fails under a cancelled request, and no session
    of one is reset, every cancelled stream ends as cancelled, at the next decode that finishes. -/
theorem run_cancelled (aborted : σ → σ) (ctx : σ) (world : γ) (acts : List (Act Sid))
    (h : AllSteps (race env aborted) (Gentle env aborted) (Race.init env ctx world) acts) :
    (∀ pre, pre <+: acts →
      CancelledEnds (run (race env aborted) (Race.init env ctx world) pre)) ∧
    AllSteps (race env aborted) (FinishesCancelled env aborted) (Race.init env ctx world) acts := by
  have hinit : Tracked env (Race.init env ctx world : Race σ γ Sid) := tracked_init ctx world
  constructor
  · rintro pre ⟨rest, rfl⟩
    exact (AllSteps.invariant race_step hinit h.of_append).cancelledEnds
  · refine AllSteps.imp_of_invariant race_step (fun s a htracked hgentle => ?_) hinit h
    rintro fires rfl hdecoding hlives ref href
    obtain ⟨hrunning, hticks⟩ := htracked.armed hdecoding
    have hstart : s.proc.phase ≠ .stopped := by
      rw [hrunning]
      exact nofun
    dsimp only [race] at hlives ⊢
    rw [if_pos hdecoding] at hlives ⊢
    have hlively : Lively (tickEnv env aborted fires s.raised) s.proc :=
      (htracked.lively hstart).congr (tickEnv_cfg aborted fires s.raised)
    exact (finish_cancelled hlively hrunning hticks (htracked.onCourse hstart ref href)
      fun r hr hrefr => (hgentle hdecoding r hr ref hrefr).1 href).1 hlives

/-- A decode that fails nobody is gentle. -/
theorem gentle_finish {aborted : σ → σ} {s : Race σ γ Sid} {fires : Bool}
    (h : (failedBy (tickEnv env aborted fires s.raised) (takeTick s.proc.data)).length = 0) :
    Gentle env aborted s (.finish fires) := by
  intro _ r hr
  rw [List.eq_nil_of_length_eq_zero h] at hr
  exact absurd hr List.not_mem_nil

/-- A stream of up to four tokens. -/
def longStream : Event Nat :=
  .request (.infer 0 [1] ⟨⟨some 4, [], false, none, ⟨0, []⟩⟩, none, none, none, none, .block⟩ 7)

/-- A stream that is cancelled between two ticks. -/
def cancelledBetween : List (Act Nat) :=
  [.handle longStream, .arm, .finish false, .cancel 0, .deliver, .arm, .finish false]

/-- A cancel whose flag is raised in one tick and whose message comes before the next. -/
theorem cancelledBetween_ends :
    CancelledEnds (run (race (mapEnv plainParams .empty 1) id)
      (Race.init (mapEnv plainParams .empty 1) .empty ()) cancelledBetween) := by
  have hgentle : AllSteps (race (mapEnv plainParams .empty 1) id)
      (Gentle (mapEnv plainParams .empty 1) id) (Race.init (mapEnv plainParams .empty 1) .empty ())
      cancelledBetween := by
    refine ⟨trivial, trivial, gentle_finish ?_, trivial, trivial, trivial, gentle_finish ?_,
      trivial⟩
    · decide +kernel
    · decide +kernel
  exact (@run_cancelled MapCtx Unit Nat (mapEnv plainParams .empty 1) _ id .empty ()
    cancelledBetween hgentle).1 cancelledBetween (List.prefix_refl _)

/-- A stream that is cancelled while its decode runs, and the interrupt fires. -/
def cancelledWithin : List (Act Nat) := [.handle longStream, .arm, .cancel 0, .finish true]

/-- Its cancellation is what makes it end with an error. -/
theorem cancelledWithin_errs :
    ¬ CancelledEnds (run (race (mapEnv plainParams .empty 1) id)
      (Race.init (mapEnv plainParams .empty 1) .empty ()) cancelledWithin) := by
  intro h
  have hnoted : (run (race (mapEnv plainParams .empty 1) id)
      (Race.init (mapEnv plainParams .empty 1) .empty ()) cancelledWithin).noted = [0] := by
    decide +kernel
  have hsent : Out.send 7 0 (.error (.nested (.backend .decodeAborted))) ∈
      (run (race (mapEnv plainParams .empty 1) id)
        (Race.init (mapEnv plainParams .empty 1) .empty ()) cancelledWithin).proc.data.sys.out := by
    decide +kernel
  obtain ⟨stats, heq, -⟩ := h.final 0 (hnoted ▸ List.mem_singleton_self 0) 7 _ hsent rfl
  exact nomatch heq

end Erllama.Model
