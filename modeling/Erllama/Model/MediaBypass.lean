import Erllama.Model.MapBackend

namespace Erllama.Model

open Lib

/-!
# Media requests and the cache

The saves of a tick bypass media requests, each by its own guard; the saves of an operator's
evict and shutdown walk every request in flight.

* `SavesText` — an entry of the log that saves no media request.
* `Move.logsText` — every move but such a save logs only those.
* `run_savesText_iff` — a run saves no media request iff no evict or shutdown finds one with a
  context.
-/

variable {σ γ Sid : Type}

/-- An entry of the log that saves no media request. -/
def SavesText : Entry σ Sid → Prop
  | .save c => c.req.media = none
  | .pin _  => True

/-- The log gains no save of a media request. -/
def LogsText (s s' : Sys σ γ Sid) : Prop := ∀ e ∈ s'.log, e ∈ s.log ∨ SavesText e

/-- A function that saves nothing. -/
theorem LogsText.of_log {s s' : Sys σ γ Sid} (h : s'.log = s.log) : LogsText s s' :=
  fun _ he => .inl (h ▸ he)

/-- One function after another. -/
theorem LogsText.trans {s s' s'' : Sys σ γ Sid} (h : LogsText s s') (h' : LogsText s' s'') :
    LogsText s s'' := by
  intro e he
  rcases h' e he with hold | hnew
  · exact h e hold
  · exact .inr hnew

variable {env : Env σ γ}

/-- A save for a text request. -/
theorem Fires.logsText {d : Data σ γ Sid} {r : Req Sid} {tokens : List Token} {s : Sys σ γ Sid}
    (h : Fires env d r tokens s) (hmedia : r.media = none) : LogsText d.sys s := by
  rcases h.log with hsame | ⟨c, ⟨reason, r₀, hident, rfl⟩, hone⟩
  · exact .of_log hsame
  · intro e he
    rw [hone, List.mem_append, List.mem_singleton] at he
    rcases he with hold | rfl
    · exact .inl hold
    · exact .inr (hident.media.trans hmedia)

/-- One result: media requests are mute. -/
theorem Applies.logsText {d : Data σ γ Sid} {r : Req Sid} {tokens : List Token}
    {res : Req Sid × Sys σ γ Sid} (h : Applies env d r tokens res) (hr : ReqWf env r) :
    LogsText d.sys res.2 := by
  cases hmedia : r.media with
  | none => exact h.fires.logsText hmedia
  | some items =>
    have hsome : r.media.isSome := by rw [hmedia]; rfl
    exact .of_log (h.mediaMute hsome (hr.ladder_of_media hsome)).log

variable (env) in
/-- Results save text requests alone. -/
theorem applyStepResults_logsText [DecidableEq Sid] (pairs : List ResultPair)
    {d : Data σ γ Sid} (hd : TableWf env d) :
    LogsText d.sys (applyStepResults env pairs d).2.sys := by
  induction pairs generalizing d with
  | nil => exact .of_log rfl
  | cons pair pairs ih =>
    obtain ⟨⟨q, op⟩, res⟩ := pair
    unfold applyStepResults
    split
    case h_1 => exact .of_log rfl
    case h_2 r hr =>
      split
      case h_1 => exact .of_log rfl
      case h_2 r' s hres =>
        have happ := stepResult_applies env d r hres
        have hwf := (hd q r hr).2
        have hput := refreshes_putReq hd hr happ.ident (happ.wf hwf) s
        exact (happ.logsText hwf).trans (ih hput.table)

variable (env) in
/-- So do committed tokens. -/
theorem applySpecCommitted_logsText [DecidableEq Sid] (q : SeqId) (eog : Bool)
    (tokens : List Token) {d : Data σ γ Sid} (hd : TableWf env d) :
    LogsText d.sys (applySpecCommitted env q eog tokens d).2.sys := by
  induction tokens generalizing d with
  | nil => exact .of_log rfl
  | cons tok rest ih =>
    unfold applySpecCommitted
    split
    case h_1 => exact .of_log rfl
    case h_2 r hr =>
      split
      · exact .of_log rfl
      · have happ := tokenResult_applies env d r tok (if rest = [] then eog else false)
        have hwf := (hd q r hr).2
        have hput := refreshes_putReq hd hr happ.ident (happ.wf hwf)
          (tokenResult env d r tok (if rest = [] then eog else false)).2
        exact (happ.logsText hwf).trans (ih hput.table)

variable (env) in
/-- Counting drafts saves nothing. -/
theorem specRecordFeedback_log (d : Data σ γ Sid) (q : SeqId) (n m : Nat) :
    (specRecordFeedback env d q n m).sys.log = d.sys.log := by
  have hquiet := specAccept_quiet env d q m
  unfold specRecordFeedback
  dsimp only
  split <;> exact hquiet.log

/-- So does the result of a speculative step. -/
theorem commitSpec_logsText [DecidableEq Sid] {d d' : Data σ γ Sid} (hd : TableWf env d)
    {q : SeqId} {draft : List Token} {res : SpecResult}
    (h : commitSpec env d q draft res = .stepped d') : LogsText d.sys d'.sys := by
  have happ := applySpecCommitted_logsText env q res.eog res.committed hd
  unfold commitSpec at h
  dsimp only at h
  split at h
  case h_1 => exact nomatch h
  case h_2 leftover _ =>
    cases h
    refine happ.trans (.of_log ?_)
    rw [specRecordFeedback_log]
    split
    · rfl
    · unfold specTrimOvershoot
      split
      · rfl
      · exact (backendSeqRmFrom_onSeq env _ q _).log

/-! ### The moves -/

/-- The guard of a run that saves no media request: the operator finds none with a context, or
    the tier has no persistent writer. -/
def bypassGuard (env : Env σ γ) : Guard σ γ Sid :=
  { Guard.free with
    evict := fun r => r.media.isSome → r.contextTokens = [] ∨ env.cfg.tier = .ram }

/-- So does a save on the operator's behalf that passes over media. -/
theorem fireSaveForReq_logsText {d : Data σ γ Sid} {r : Req Sid} (reason : SaveReason)
    (h : (bypassGuard env).evict r) : LogsText d.sys (fireSaveForReq env d reason r).sys := by
  unfold fireSaveForReq
  split
  case isTrue => exact .of_log rfl
  case isFalse hne =>
    cases hmedia : r.media with
    | none => exact (fireSaveIf_fires env d r true reason r.contextTokens).logsText hmedia
    | some items =>
      rcases h (by rw [hmedia]; rfl) with hempty | hram
      · exact absurd hempty hne
      · refine .of_log ?_
        show (fireSaveIf env d true reason r.contextTokens r).2.log = d.sys.log
        unfold fireSaveIf
        rw [if_pos (.inr hram)]

variable [LinearOrder Sid]

variable (env) in
/-- A finished request is saved unless it is a media request, and then perhaps pinned. -/
theorem finishReq_logsText (d : Data σ γ Sid) (r : Req Sid) :
    LogsText d.sys (finishReq env d r).sys := by
  obtain ⟨-, hfires, hmute⟩ := finishSave_fires env d r
  have hsave : LogsText d.sys (announceFinish env d r) := by
    refine LogsText.trans ?_ (.of_log (announceFinish_quiet d r).log)
    cases hmedia : r.media with
    | none => exact hfires.logsText hmedia
    | some items => exact .of_log (hmute (by rw [hmedia]; rfl))
  refine hsave.trans ?_
  unfold finishReq releaseOrPinSeq
  split
  · exact .of_log (releaseSeq_onSeq env _ _).log
  · intro e he
    rcases List.mem_append.mp he with hold | hpin
    · exact .inl hold
    · rw [List.mem_singleton.mp hpin]
      exact .inr trivial

/-- **Step lemma.** Every move logs saves of text requests only. -/
theorem Move.logsText {d d' : Data σ γ Sid} (h : Move env (bypassGuard env) d d')
    (hd : TableWf env d) : LogsText d.sys d'.sys := by
  have hsame : d'.sys.log = d.sys.log → LogsText d.sys d'.sys := .of_log
  cases h with
  | sys h => exact hsame h.log
  | start hidle hq hr prompt hG => exact hsame (setupAdmissionPath_admits env _ _ _ _ _).onSeq.log
  | resume hs hfree hq hsid hr hmode lookup hG =>
    exact hsame (setupAdmissionPath_admits env _ _ _ _ _).onSeq.log
  | @results _ ops results x pairs hops hstep hpairs hG happ =>
    have hlogs := applyStepResults_logsText env pairs (d := withCtx d x) hd
    rwa [happ] at hlogs
  | @spec _ cb sampler q r draft res x hcb h hspec hstep hG hcommit =>
    exact commitSpec_logsText (d := withCtx d x) hd hcommit
  | mediaFailed hcb h hpending hcall => exact hsame (failRequest_extends _ _ _).1
  | @finish q r h hG => exact finishReq_logsText env d r
  | drop hs hfree => exact hsame (releaseSeq_onSeq env _ _).log
  | fork hs hfree hnew hidle hcp hcopy hG =>
    intro e he
    rcases List.mem_append.mp he with hold | hpin
    · exact .inl hold
    · rw [List.mem_singleton.mp hpin]
      exact .inr trivial
  | @reset sid s hs =>
    refine hsame ?_
    rw [resetSessionSeq_eq hs]
    refine (releaseSeq_onSeq env _ _).log.trans ?_
    rcases failInflightForSeq_table env d s.seqId .engineReset with ⟨s', hquiet, heq⟩ | ⟨-, heq⟩
    · rw [heq]
      exact hquiet.log
    · rw [heq]
  | evict h hG hreason => exact fireSaveForReq_logsText _ hG
  | load hG => exact hsame (loadAdapter_step d _ _).log
  | unload hG => exact hsame (unloadAdapter_step d _).log
  | scale hG => exact hsame (setAdapterScale_step d _ _).log
  | recover hlog hout hf hreset hG => exact hsame hlog
  | _ => exact hsame rfl

/-- Any number of moves. -/
theorem Moves.logsText {d d' : Data σ γ Sid} (h : Moves env (bypassGuard env) d d')
    (hd : Wf env d) : LogsText d.sys d'.sys := by
  induction h with
  | refl => exact .of_log rfl
  | tail hmoves hmove ih => exact ih.trans (hmove.logsText (Moves.wf hmoves hd).table)

/-! ### The operator's saves -/

variable (env) in
omit [LinearOrder Sid] in
/-- A save of one request keeps the log, and saves the request if it has a context and the tier
    has a writer. -/
theorem fireSaveForReq_log (d : Data σ γ Sid) (reason : SaveReason) (r : Req Sid) :
    d.sys.log <+: (fireSaveForReq env d reason r).sys.log ∧
      (r.contextTokens ≠ [] → env.cfg.tier ≠ .ram →
        ∃ c, c.req = r ∧ Entry.save c ∈ (fireSaveForReq env d reason r).sys.log) := by
  unfold fireSaveForReq
  split
  case isTrue hempty => exact ⟨List.prefix_refl _, fun hne => absurd hempty hne⟩
  case isFalse =>
    show d.sys.log <+: (fireSaveIf env d true reason r.contextTokens r).2.log ∧
      (_ → _ → ∃ c, c.req = r ∧
        Entry.save c ∈ (fireSaveIf env d true reason r.contextTokens r).2.log)
    unfold fireSaveIf
    by_cases hram : env.cfg.tier = .ram
    · rw [if_pos (.inr hram)]
      exact ⟨List.prefix_refl _, fun _ hne => absurd hram hne⟩
    · rw [if_neg (by simp [hram])]
      refine ⟨List.prefix_append _ _, fun _ _ => ?_⟩
      let bm := buildMetaFor env d reason r.contextTokens r
      let payload := env.be.kvPack d.sys.ctx r.contextTokens r.seqId
      exact ⟨⟨r, bm, payload, d.sys.ctx⟩, rfl, List.mem_append_right _ List.mem_cons_self⟩

omit [LinearOrder Sid] in
/-- A pass over the requests saves each of them. -/
theorem foldl_fireSaveForReq_log (reason : SaveReason) (rs : List (Req Sid))
    (d : Data σ γ Sid) :
    d.sys.log <+: (rs.foldl (fun acc r => fireSaveForReq env acc reason r) d).sys.log ∧
      ∀ r ∈ rs, r.contextTokens ≠ [] → env.cfg.tier ≠ .ram → ∃ c, c.req = r ∧
        Entry.save c ∈ (rs.foldl (fun acc r => fireSaveForReq env acc reason r) d).sys.log := by
  induction rs generalizing d with
  | nil => exact ⟨List.prefix_refl _, fun _ h => nomatch h⟩
  | cons r rs ih =>
    obtain ⟨hpre, hsaves⟩ := fireSaveForReq_log env d reason r
    obtain ⟨hpre', hsaves'⟩ := ih (fireSaveForReq env d reason r)
    refine ⟨hpre.trans hpre', ?_⟩
    intro r' hr' hne htier
    rcases List.mem_cons.mp hr' with rfl | hrest
    · obtain ⟨c, hc, hmem⟩ := hsaves hne htier
      exact ⟨c, hc, hpre'.subset hmem⟩
    · exact hsaves' r' hrest hne htier

omit [LinearOrder Sid] in
/-- Requests whose saves are all of text requests have no context where they are for media. -/
theorem bypass_of_savesText {reason : SaveReason} {d : Data σ γ Sid}
    (h : ∀ e ∈ (fireSaveForReason env d reason).sys.log, SavesText e) :
    ∀ r ∈ requests d.reqTable, (bypassGuard env).evict r := by
  intro r hr hmedia
  by_contra hnot
  push Not at hnot
  obtain ⟨c, rfl, hmem⟩ := (foldl_fireSaveForReq_log reason _ d).2 r hr hnot.1 hnot.2
  have htext : c.req.media = none := h _ hmem
  rw [htext] at hmedia
  cases hmedia

/-! ### Runs -/

/-- An evict or shutdown call that a live process handles finds no media request with a context,
    or the tier has no persistent writer. -/
def SkipsMedia (env : Env σ γ) (p : Proc σ γ Sid) : Event Sid → Prop
  | .evict _    => p.phase ≠ .stopped →
      ∀ r ∈ requests p.data.reqTable, r.media.isSome → r.contextTokens = [] ∨ env.cfg.tier = .ram
  | .shutdown _ => p.phase ≠ .stopped →
      ∀ r ∈ requests p.data.reqTable, r.media.isSome → r.contextTokens = [] ∨ env.cfg.tier = .ram
  | _ => True

/-- A run that passes over media meets the guard. -/
theorem SkipsMedia.stepOk {p : Proc σ γ Sid} {e : Event Sid} (h : SkipsMedia env p e) :
    StepOk env (bypassGuard env) p e := by
  have hopen : (bypassGuard env : Guard σ γ Sid).Open :=
    ⟨fun _ => trivial, fun _ _ _ => trivial, fun _ _ => trivial, fun _ _ => trivial⟩
  intro hlive
  cases e with
  | request item => exact hopen.admitOk p.data item
  | «continue» frm suffix opts => exact fun _ _ => hopen.pinnedGuard _
  | tick =>
    refine fun _ _ => ⟨?_, fun d' _ => ⟨?_, hopen.queueOk _⟩, fun _ _ _ _ => trivial⟩
    · exact bodyOk_of (fun _ _ => trivial) (fun _ _ _ => trivial) (fun _ _ => trivial) _
    · exact .of_forall (fun _ _ => trivial) _ _
  | verify => exact fun _ _ => trivial
  | embed => exact fun _ => trivial
  | embedBatch => exact fun _ => trivial
  | evict => exact h hlive
  | shutdown => exact h hlive
  | forkSession => exact fun _ _ _ _ _ _ _ => trivial
  | _ => trivial

/-- Every event. -/
theorem Steps.logsText {p p' : Proc σ γ Sid} (h : Steps env (bypassGuard env) p p')
    (hp : Wf env p.data) : LogsText p.data.sys p'.data.sys := by
  cases h with
  | live hmoves => exact Moves.logsText hmoves hp
  | halted hmoves hhalt =>
    refine (Moves.logsText hmoves hp).trans ?_
    cases hhalt with
    | sys h => exact .of_log h
    | @results _ ops results x pairs hops hstep hpairs hG happ =>
      have hlogs := applyStepResults_logsText env pairs (d := withCtx _ x)
        (Moves.wf hmoves hp).table
      rwa [happ] at hlogs

/-- **One event** saves no media request iff it is no evict or shutdown that finds one. -/
theorem step_savesText_iff {p : Proc σ γ Sid} (hp : Wf env p.data)
    (hlog : ∀ e ∈ p.data.sys.log, SavesText e) (e : Event Sid) :
    (∀ e' ∈ (step env p e).data.sys.log, SavesText e') ↔ SkipsMedia env p e := by
  constructor
  · intro h
    cases e with
    | evict frm =>
      intro hlive
      rw [show step env p (.evict frm) = _ from if_neg hlive] at h
      exact bypass_of_savesText h
    | shutdown frm =>
      intro hlive
      rw [show step env p (.shutdown frm) = _ from if_neg hlive] at h
      exact bypass_of_savesText h
    | _ => trivial
  · intro h e' he'
    exact ((step_steps hp h.stepOk).logsText hp e' he').elim (hlog e') id

/-- **Media requests never enter the cache** in a run iff its evict and shutdown calls find none
    with a context. -/
theorem run_savesText_iff (ctx : σ) (world : γ) (events : List (Event Sid)) :
    (∀ pre, pre <+: events →
        ∀ e ∈ (run (step env) (init env ctx world) pre).data.sys.log, SavesText e) ↔
      AllSteps (step env) (SkipsMedia env) (init env ctx world) events := by
  have hinit : ∀ e ∈ (init env ctx world : Proc σ γ Sid).data.sys.log, SavesText e :=
    fun _ he => nomatch he
  rw [forall_prefix_iff (I := fun p : Proc σ γ Sid => ∀ e ∈ p.data.sys.log, SavesText e),
    and_iff_right hinit]
  have hkeep : ∀ (p : Proc σ γ Sid) (e : Event Sid),
      Wf env p.data ∧ (∀ e' ∈ p.data.sys.log, SavesText e') →
      (∀ e' ∈ (step env p e).data.sys.log, SavesText e') →
      Wf env (step env p e).data ∧ ∀ e' ∈ (step env p e).data.sys.log, SavesText e' :=
    fun p e hp h => ⟨step_wf hp.1 e, h⟩
  exact allSteps_iff hkeep (fun p e hp => step_savesText_iff hp.1 hp.2 e)
    ⟨wf_init ctx world, hinit⟩

/-! ### An evict during a media request -/

instance : DecidablePred (SavesText : Entry σ Sid → Prop)
  | .save c => decidable_of_iff (c.req.media.isNone) Option.isNone_iff_eq_none
  | .pin _  => .isTrue trivial

/-- A request over an image, for two tokens. -/
def imageRequest : Item Nat :=
  .completeMedia 0 [65] ⟨⟨some 2, [], false, none, ⟨0, []⟩⟩, [(.image, [1])], true, .block⟩

/-- It is admitted, prefilled and decoded once; then the operator evicts. -/
def evictedImage : List (Event Nat) := [.request imageRequest, .tick, .tick, .evict 1]

/-- The evict saves the image request under the one token it generated. -/
theorem evictedImage_saved :
    ¬ ∀ e ∈ (run (step (mapEnv plainParams .empty 1)) (mapProc plainParams .empty 1)
      evictedImage).data.sys.log, SavesText e := by
  decide

end Erllama.Model
