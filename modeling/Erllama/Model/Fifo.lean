import Erllama.Model.Attended

namespace Erllama.Model

open Lib

/-!
# The order of admissions

A call that finds no seq waits in the queue, which a tick serves from its front.  But a request
that arrives takes a seq as soon as one can be had, and `reset_session` frees a seq without
serving the queue.

* `FifoStep` — one event serves the queue in order, and nobody overtakes it.
* `fifoStep_iff` — when that is so, of the state before the event.
* `run_fifo` — runs, and runs in which no reset frees a seq while calls wait.
-/

variable {σ γ Sid : Type} [LinearOrder Sid] {env : Env σ γ}

variable (env) in
/-- The request resumes no pinned seq and is not turned away for its session: it needs a seq of
    its own. -/
def NeedsFresh (d : Data σ γ Sid) (item : Item Sid) : Prop :=
  ∃ d', resolveAdmissionSeq env d item = .normal d'

variable (env) in
/-- One event, first in first out. -/
structure FifoStep (p : Proc σ γ Sid) (e : Event Sid) : Prop where
  /-- Calls leave the queue from its front and join it at its end. -/
  order : (step env p e).data.pending <:+ p.data.pending ∨
    ∃ item, e = .request item ∧ (step env p e).data.pending = p.data.pending ++ [item]
  /-- While calls wait, a request that needs a seq of its own is not admitted. -/
  waits : ∀ item, e = .request item → p.data.pending ≠ [] → NeedsFresh env p.data item →
    (step env p e).data.reqTable = p.data.reqTable

variable (env) in
/-- The backend refuses the request: it has no projector for its media, or makes no sampler. -/
def Refused (d : Data σ γ Sid) (item : Item Sid) : Prop :=
  ∃ d' q d'' e, resolveAdmissionSeq env d item = .normal d' ∧
    allocSeq env d' none = some (q, d'') ∧ (prepareRequest env d'' item q).1 = .error e

variable (env) in
/-- A request that needs a seq of its own and arrives while calls wait finds all seqs held, or
    is refused. -/
def FifoWhen (p : Proc σ γ Sid) (e : Event Sid) : Prop :=
  p.phase ≠ .stopped → ∀ item, e = .request item → p.data.pending ≠ [] →
    NeedsFresh env p.data item → AllHeld p.data ∨ Refused env p.data item

section Order

variable {d : Data σ γ Sid}

/-- A tick only serves the queue. -/
theorem stepTick_suffix (hd : Wf env d) : (stepTick env d).data.pending <:+ d.pending := by
  have hbody := tickBody_pending hd
  have hreconsiders := stepTick_reconsiders hd
  unfold stepTick at hreconsiders ⊢
  cases hend : tickBody env d with
  | stepped d' =>
    rw [hend] at hreconsiders
    exact (hreconsiders.resolve_left (tickAfterStep_phase env d')).1
  | recover d' e =>
    rw [hend] at hbody
    obtain ⟨s, heq, -⟩ := failAllRequests_eq env d' (.nested (.backend e))
    obtain ⟨s', heq', -⟩ := failPendingAdmits_eq (withSys d' s) (.backend e)
    have hsame : d'.pending = d.pending := hbody
    dsimp only
    unfold recoverInPlace
    rw [heq, heq']
    dsimp only
    split
    · exact hsame ▸ List.suffix_refl _
    · split
      · exact List.nil_suffix
      · exact hsame ▸ List.suffix_refl _
  | failed d' e =>
    rw [hend] at hbody
    have hsame : d'.pending = d.pending := hbody
    exact hsame ▸ List.suffix_refl _
  | crashed d' =>
    rw [hend] at hbody
    have hsame : d'.pending = d.pending := hbody
    exact hsame ▸ List.suffix_refl _

/-- **Calls leave the queue from its front and join it at its end.** -/
theorem step_order {p : Proc σ γ Sid} (hp : Wf env p.data)
    (hd : p.phase ≠ .stopped → TableAll Req.Underway p.data.reqTable) (e : Event Sid) :
    (step env p e).data.pending <:+ p.data.pending ∨
      ∃ item, e = .request item ∧ (step env p e).data.pending = p.data.pending ++ [item] := by
  have hsame : ∀ {d' : Data σ γ Sid}, d'.pending = p.data.pending →
      d'.pending <:+ p.data.pending ∨
        ∃ item, e = .request item ∧ d'.pending = p.data.pending ++ [item] :=
    fun heq => .inl (heq ▸ List.suffix_refl _)
  have houtcome : ∀ {p' : Proc σ γ Sid}, Admission p.phase p.data p' →
      p'.data.pending = p.data.pending := by
    intro p' h
    cases h with
    | started hpending => exact hpending
    | refused hpending => exact hpending
  unfold step
  split
  case isTrue => exact hsame rfl
  case isFalse hlive =>
    have hu := hd hlive
    cases e with
    -- A request is appended, or the queue is as it was.
    | request item =>
      have harrival := admitRequest_arrival hp p.phase item
      rw [show handleEvent env p (.request item) = admitRequest env p.data p.phase item from rfl]
      generalize admitRequest env p.data p.phase item = p' at harrival
      cases harrival with
      | decided h => exact hsame (houtcome h)
      | queued hheld hpending =>
        refine .inr ⟨item, rfl, ?_⟩
        show _ ++ [item] = _
        rw [hpending]
    | «continue» frm suffix opts =>
      exact hsame (houtcome (admitContinue_outcome env p.phase frm suffix opts))
    | endSession frm sid => exact hsame (dropSession_sameQueue env p.data sid).pending
    | forkSession frm src new => exact hsame (forkSession_sameQueue p.data src new).pending
    | resetSession frm sid => exact hsame (resetSessionSeq_sameQueue p.data sid hu).pending
    | verify frm pre cands k =>
      unfold handleEvent
      dsimp only
      split
      · exact hsame (runVerify_sameQueue pre cands k).pending
      · exact hsame rfl
    | embed frm tokens => exact hsame (embedEach_sameQueue [tokens] [] p.data).pending
    | embedBatch frm lists => exact hsame (embedEach_sameQueue lists [] p.data).pending
    | evict frm => exact hsame (fireSaveForReason_sameQueue hp.table hu .evict).pending
    | shutdown frm => exact hsame (fireSaveForReason_sameQueue hp.table hu .shutdown).pending
    | loadAdapter frm path file => exact hsame (loadAdapter_step p.data path file).pending
    | unloadAdapter frm handle => exact hsame (unloadAdapter_step p.data handle).pending
    | setAdapterScale frm handle scale =>
      exact hsame (setAdapterScale_step p.data handle scale).pending
    | cancel ref => exact hsame (handleCancel_sameQueue p.data ref).pending
    | tick =>
      -- Only a tick takes from the queue, and from its head.
      rw [show handleEvent env p .tick = handleTick env p from rfl]
      unfold handleTick
      split
      case isTrue => exact hsame rfl
      case isFalse =>
        split
        case isTrue => exact .inl (stepTick_suffix (d := takeTick p.data) ⟨hp.table, hp.sound⟩)
        case isFalse => exact hsame rfl

end Order

/-! ### Overtaking -/

section Overtaking

variable {d : Data σ γ Sid} {item : Item Sid}

/-- Resolving a request that needs a seq of its own changes nothing when all seqs are held, and
    frees one when it changes anything. -/
theorem resolve_needsFresh {d' : Data σ γ Sid}
    (h : resolveAdmissionSeq env d item = .normal d') :
    d' = d ∨ ¬ AllHeld d ∧ ¬ AllHeld d' := by
  unfold resolveAdmissionSeq resolveStickyContinuation at h
  split at h
  · cases h
    exact .inl rfl
  case h_2 sid _ =>
    split at h
    · cases h
      exact .inl rfl
    case h_2 s hs =>
      split at h
      · cases h
      case isFalse hbusy =>
        dsimp only at h
        split at h
        · cases h
        · split at h
          · cases h
          · cases h
            refine .inr ⟨fun hheld => hbusy (hheld.2 sid s hs), fun hheld => ?_⟩
            exact absurd hheld.1 (List.cons_ne_nil _ _)

/-- Resolving a request that needs a seq of its own does not change whether all seqs are held. -/
theorem allHeld_resolved {d' : Data σ γ Sid} (h : resolveAdmissionSeq env d item = .normal d') :
    AllHeld d' ↔ AllHeld d := by
  rcases resolve_needsFresh h with rfl | ⟨hnot, hnot'⟩
  · exact Iff.rfl
  · exact iff_of_false hnot' hnot

/-- A request whose preparation fails is not admitted. -/
theorem admitNormal_table_of_error {d' : Data σ γ Sid} {q : SeqId} {e : Err} (phase : Phase)
    (halloc : allocSeq env d none = some (q, d'))
    (hprep : (prepareRequest env d' item q).1 = .error e) :
    (admitNormal env d phase item).data.reqTable = d.reqTable := by
  obtain ⟨-, htable, -⟩ := allocSeq_turn env halloc
  have hquiet := prepareRequest_ok env d' item q
  unfold admitNormal startAdmission startRequest startPrepared
  rw [halloc]
  dsimp only
  rw [hprep]
  show (prepareRequest env d' item q).2.reqTable = _
  rw [hquiet.eq]
  exact htable

/-- A request that is prepared has an entry under the seq that was free before. -/
theorem admitNormal_table_of_ok {d' : Data σ γ Sid} {q : SeqId} {prepared : Prepared Sid}
    (hd : Wf env d) (phase : Phase) (halloc : allocSeq env d none = some (q, d'))
    (hprep : (prepareRequest env d' item q).1 = .ok prepared) :
    (admitNormal env d phase item).data.reqTable ≠ d.reqTable := by
  have hstarted : (startRequest env d' item q .normal).1 = none := by
    unfold startRequest startPrepared
    rw [hprep]
    cases prepared <;> rfl
  have hdata : (admitNormal env d phase item).data
      = scheduleTick (startRequest env d' item q .normal).2 := by
    unfold admitNormal startAdmission
    rw [halloc]
    dsimp only
    rw [hstarted]
  have hin := startPrepared_inTable (prepareRequest_ok env d' item q) .normal hstarted
  obtain ⟨-, htable, -⟩ := allocSeq_turn env halloc
  rw [hdata]
  intro heq
  refine hin ?_
  show (scheduleTick (startRequest env d' item q .normal).2).reqTable.lookup q = none
  rw [heq, ← htable]
  exact allocSeq_free hd halloc

/-- A request that gets a seq is admitted unless its preparation fails. -/
theorem admitNormal_table_iff {d' : Data σ γ Sid} {q : SeqId} (hd : Wf env d) (phase : Phase)
    (halloc : allocSeq env d none = some (q, d')) :
    (admitNormal env d phase item).data.reqTable = d.reqTable ↔
      ∃ e, (prepareRequest env d' item q).1 = .error e := by
  cases hprep : (prepareRequest env d' item q).1 with
  | error e => exact iff_of_true (admitNormal_table_of_error phase halloc hprep) ⟨e, rfl⟩
  | ok prepared =>
    refine iff_of_false (admitNormal_table_of_ok hd phase halloc hprep) ?_
    rintro ⟨e, ⟨⟩⟩

/-- A request that needs a seq of its own is admitted unless all seqs are held or it is
    refused. -/
theorem admitRequest_table_iff (hd : Wf env d) (phase : Phase) (hfresh : NeedsFresh env d item) :
    (admitRequest env d phase item).data.reqTable = d.reqTable ↔
      AllHeld d ∨ Refused env d item := by
  obtain ⟨d', hres⟩ := hfresh
  have hfrees := resolveAdmissionSeq_frees hres
  have hspec := resolveAdmissionSeq_spec env (G := .free) d item
  rw [hres] at hspec
  have hwf := Moves.wf hspec hd
  have hnormal : admitRequest env d phase item = admitNormal env d' phase item := by
    unfold admitRequest
    rw [hres]
  rw [hnormal, ← hfrees.table]
  cases halloc : allocSeq env d' none with
  | none =>
    have hkeep : (admitNormal env d' phase item).data.reqTable = d'.reqTable := by
      unfold admitNormal
      rw [halloc]
      dsimp only
      split <;> rfl
    exact iff_of_true hkeep
      (.inl ((allHeld_resolved hres).mp (allocSeq_eq_none_iff.mp halloc)))
  | some taken =>
    obtain ⟨q, d''⟩ := taken
    have hnot : ¬ AllHeld d := by
      intro h
      rw [allocSeq_eq_none_iff.mpr ((allHeld_resolved hres).mpr h)] at halloc
      cases halloc
    rw [admitNormal_table_iff hwf phase halloc]
    constructor
    · rintro ⟨e, he⟩
      exact .inr ⟨d', q, d'', e, hres, halloc, he⟩
    · rintro (h | ⟨d₁, q₁, d₂, e, hres', halloc', he⟩)
      · exact absurd h hnot
      · rw [hres] at hres'
        cases hres'
        rw [halloc] at halloc'
        cases halloc'
        exact ⟨e, he⟩

/-- **When one event is first in first out.** -/
theorem fifoStep_iff {p : Proc σ γ Sid} (hp : Wf env p.data)
    (hd : p.phase ≠ .stopped → TableAll Req.Underway p.data.reqTable) (e : Event Sid) :
    FifoStep env p e ↔ FifoWhen env p e := by
  constructor
  · rintro ⟨-, hwaits⟩ hlive item rfl hpending hfresh
    have htable := hwaits item rfl hpending hfresh
    rw [show step env p (.request item) = handleEvent env p (.request item) from if_neg hlive]
      at htable
    exact (admitRequest_table_iff hp p.phase hfresh).mp htable
  · intro h
    refine ⟨step_order hp hd e, ?_⟩
    rintro item rfl hpending hfresh
    by_cases hstopped : p.phase = .stopped
    · rw [show step env p (.request item) = p from if_pos hstopped]
    · rw [show step env p (.request item) = handleEvent env p (.request item) from
        if_neg hstopped]
      exact (admitRequest_table_iff hp p.phase hfresh).mpr
        (h hstopped item rfl hpending hfresh)

end Overtaking

/-! ### Resets -/

section Resets

/-- No reset fails a request in flight while calls wait. -/
def GentleReset (p : Proc σ γ Sid) (e : Event Sid) : Prop :=
  ∀ frm sid s, e = .resetSession frm sid → p.data.sessionSeq.lookup sid = some s →
    inFlight p.data s.seqId = true → p.data.pending = []

/-- While calls wait all seqs are held. -/
def HeldWhileWaiting (p : Proc σ γ Sid) : Prop :=
  p.phase ≠ .stopped → p.data.pending ≠ [] → AllHeld p.data

/-- Whether all seqs are held can be read off the pool. -/
theorem allHeld_iff_pool {d : Data σ γ Sid} :
    AllHeld d ↔ (pool d).idle = [] ∧ ∀ sid q, (pool d).pinned sid = some q →
      (pool d).busy q ≠ none := by
  have hbusy : ∀ q, (pool d).busy q ≠ none ↔ inFlight d q = true := by
    intro q
    rw [ne_eq, pool_busy_eq_none, ← inFlight_eq_false_iff, Bool.not_eq_false]
  unfold AllHeld
  refine and_congr Iff.rfl ⟨fun h sid q hq => ?_, fun h sid s hs => ?_⟩
  · replace hq : (d.sessionSeq.lookup sid).map Session.seqId = some q := hq
    obtain ⟨s, hs, rfl⟩ := Option.map_eq_some_iff.mp hq
    exact (hbusy s.seqId).mpr (h sid s hs)
  · exact (hbusy s.seqId).mp (h sid s.seqId (pool_pinned_of_lookup hs))

/-- Whether every slot is held is a matter of the pool. -/
theorem allHeld_of_pool {d d' : Data σ γ Sid} (h : pool d' = pool d) (hd : AllHeld d) :
    AllHeld d' := by
  rw [allHeld_iff_pool, h]
  exact allHeld_iff_pool.mp hd

/-- With all seqs held the operations on sessions find nothing to free. -/
theorem AllHeld.session {d : Data σ γ Sid} (hd : AllHeld d) {sid : Sid} {s : Session}
    (hs : d.sessionSeq.lookup sid = some s) : inFlight d s.seqId = true := hd.2 sid s hs

/-- Nothing is dropped of a session whose seq is in flight. -/
theorem dropSession_of_allHeld {d : Data σ γ Sid} (hd : AllHeld d) (sid : Sid) :
    dropSession env d sid = d := by
  unfold dropSession
  split
  case h_1 => rfl
  case h_2 s hs => rw [if_pos (hd.session hs)]

/-- Nothing is forked without a free slot. -/
theorem forkSession_of_allHeld {d : Data σ γ Sid} (hd : AllHeld d) (src new : Sid) :
    (forkSession env d src new).2 = d := by
  unfold forkSession
  split
  case h_1 => rfl
  case h_2 s hs => rw [if_pos (hd.session hs)]

/-- An embed call keeps the pool. -/
theorem embedEach_pool (lists : List (List Token)) (acc : List (List ℚ)) (d : Data σ γ Sid) :
    pool (embedEach env acc lists d).2 = pool d := by
  induction lists generalizing acc d with
  | nil => rfl
  | cons tokens rest ih =>
    unfold embedEach
    split
    · rfl
    case h_2 f _ =>
      dsimp only
      split
      · exact ih _ (withCtx d (f d.sys.ctx tokens).2)
      · rfl

/-- So does a verify call. -/
theorem runVerify_pool (pre cands : List Token) (k : Nat) (d : Data σ γ Sid) :
    pool (runVerify env d pre cands k).2 = pool d := by
  unfold runVerify
  split
  · rfl
  · dsimp only
    split <;> rfl

/-- So does a cancel. -/
theorem handleCancel_pool {d : Data σ γ Sid} (hd : Wf env d) (ref : Ref) :
    pool (handleCancel d ref) = pool d := by
  unfold handleCancel
  split
  case h_2 => rfl
  case h_1 r hfind =>
    have hr := lookup_of_mem_requests hd.table.keysMatch (List.mem_of_find?_eq_some hfind)
    exact pool_putReq_of_same hr rfl rfl

section Held

variable {p p' : Proc σ γ Sid}

/-- Nobody joins the queue, and seqs that are all held stay so. -/
theorem HeldWhileWaiting.of_keeps (hheld : p.data.pending ≠ [] → AllHeld p.data)
    (hpending : p'.data.pending = p.data.pending) (hkeep : AllHeld p.data → AllHeld p'.data) :
    HeldWhileWaiting p' := by
  intro _ hwait
  rw [hpending] at hwait
  exact hkeep (hheld hwait)

/-- Nobody joins the queue, and the pool stays. -/
theorem HeldWhileWaiting.of_pool (hheld : p.data.pending ≠ [] → AllHeld p.data)
    (hpending : p'.data.pending = p.data.pending) (hpool : pool p'.data = pool p.data) :
    HeldWhileWaiting p' :=
  .of_keeps hheld hpending (allHeld_of_pool hpool)

/-- With all seqs held a request is refused or waits. -/
theorem admitRequest_of_allHeld {d : Data σ γ Sid} (hd : AllHeld d) (phase : Phase)
    (item : Item Sid) : AllHeld (admitRequest env d phase item).data := by
  have hspec := resolveAdmissionSeq_spec env (G := .free) d item
  unfold admitRequest
  split
  case h_1 q mode hres =>
    rw [hres] at hspec
    obtain ⟨sid, s, -, hs, hfree, -⟩ := hspec
    have hbusy := hd.session hs
    rw [(inFlight_eq_false_iff d s.seqId).mpr hfree] at hbusy
    cases hbusy
  case h_2 d' hres =>
    obtain rfl : d' = d := by
      rcases resolve_needsFresh hres with heq | ⟨hnot, -⟩
      · exact heq
      · exact absurd hd hnot
    unfold admitNormal
    rw [allocSeq_eq_none_iff.mpr hd]
    dsimp only
    split <;> exact hd
  case h_3 => exact hd

/-- A request joins the queue only when all seqs are held. -/
theorem admitRequest_heldWhileWaiting (hp : Wf env p.data)
    (hheld : p.data.pending ≠ [] → AllHeld p.data) (item : Item Sid) :
    HeldWhileWaiting (admitRequest env p.data p.phase item) := by
  by_cases hwait : p.data.pending = []
  · have harrival := admitRequest_arrival hp p.phase item
    generalize admitRequest env p.data p.phase item = p' at harrival
    cases harrival with
    | decided h =>
      have hpending : p'.data.pending = [] := by
        cases h with
        | started hpending => exact hpending.trans hwait
        | refused hpending => exact hpending.trans hwait
      exact fun _ hne => absurd hpending hne
    | queued hnone => exact fun _ _ => hnone
  · exact fun _ _ => admitRequest_of_allHeld (hheld hwait) p.phase item

/-- A continued session takes the seq that is its own. -/
theorem admitContinue_heldWhileWaiting (hheld : p.data.pending ≠ [] → AllHeld p.data)
    (frm : From) (suffix : List Token) (opts : ContinueOpts Sid) :
    HeldWhileWaiting (admitContinue env p.data p.phase frm suffix opts) := by
  refine .of_keeps (p := p) hheld ?_ fun hall => ?_
  · have houtcome : Admission p.phase p.data (admitContinue env p.data p.phase frm suffix opts) :=
      admitContinue_outcome env p.phase frm suffix opts
    generalize admitContinue env p.data p.phase frm suffix opts = p' at houtcome
    cases houtcome with
    | started hpending => exact hpending
    | refused hpending => exact hpending
  · unfold admitContinue
    split
    case h_1 => exact hall
    case h_2 s hs =>
      obtain ⟨sid, -, hs⟩ := Option.bind_eq_some_iff.mp hs
      rw [if_pos (hall.session hs)]
      exact hall

/-- A reset behind which calls wait finds no session it knows. -/
theorem resetSession_heldWhileWaiting (hu : TableAll Req.Underway p.data.reqTable)
    (hheld : p.data.pending ≠ [] → AllHeld p.data) {frm : From} {sid : Sid}
    (hgentle : GentleReset p (.resetSession frm sid)) :
    HeldWhileWaiting (handleEvent env p (.resetSession frm sid)) := by
  have hqueue : (resetSessionSeq env p.data sid).2.pending = p.data.pending :=
    (resetSessionSeq_sameQueue p.data sid hu).pending
  by_cases hwait : p.data.pending = []
  · exact fun _ hne => absurd (hqueue.trans hwait) hne
  · refine .of_keeps hheld hqueue fun hall => ?_
    show AllHeld (resetSessionSeq env p.data sid).2
    unfold resetSessionSeq
    split
    case h_1 => exact hall
    case h_2 s hs =>
      -- its request is in flight, so the reset would fail it
      exact absurd (hgentle frm sid s rfl hs (hall.session hs)) hwait

/-- A tick serves the queue until it is empty or all seqs are held. -/
theorem handleTick_heldWhileWaiting (hp : Wf env p.data) (hheld : HeldWhileWaiting p) :
    HeldWhileWaiting (handleTick env p) := by
  unfold handleTick
  split
  case isTrue => exact hheld
  case isFalse =>
    split
    case isFalse => exact hheld
    case isTrue =>
      intro hlive hwait
      have hreconsiders := stepTick_reconsiders (d := takeTick p.data) ⟨hp.table, hp.sound⟩
      exact ((hreconsiders.resolve_left hlive).2).resolve_left hwait

end Held

/-- **Step lemma.** Without such a reset, all seqs are held while calls wait. -/
theorem step_heldWhileWaiting {p : Proc σ γ Sid} (hp : Wf env p.data)
    (hd : p.phase ≠ .stopped → TableAll Req.Underway p.data.reqTable) {e : Event Sid}
    (hgentle : GentleReset p e) (hheld : HeldWhileWaiting p) :
    HeldWhileWaiting (step env p e) := by
  by_cases hstopped : p.phase = .stopped
  · rw [show step env p e = p from if_pos hstopped]
    exact hheld
  have hu := hd hstopped
  have hall := hheld hstopped
  rw [show step env p e = handleEvent env p e from if_neg hstopped]
  cases e with
  | request item              => exact admitRequest_heldWhileWaiting hp hall item
  -- A continuation takes no seq from the pool.
  | «continue» frm suffix opts => exact admitContinue_heldWhileWaiting hall frm suffix opts
  | endSession frm sid =>
    refine .of_keeps hall (dropSession_sameQueue env p.data sid).pending fun hall => ?_
    show AllHeld (dropSession env p.data sid)
    rw [dropSession_of_allHeld hall]
    exact hall
  | forkSession frm src new =>
    refine .of_keeps hall (forkSession_sameQueue p.data src new).pending fun hall => ?_
    show AllHeld (forkSession env p.data src new).2
    rw [forkSession_of_allHeld hall]
    exact hall
  -- The reset is where the hypothesis is used.
  | resetSession frm sid      => exact resetSession_heldWhileWaiting hu hall hgentle
  | verify frm pre cands k =>
    unfold handleEvent
    dsimp only
    split
    · exact .of_pool hall (runVerify_sameQueue pre cands k).pending
        (runVerify_pool pre cands k p.data)
    · exact .of_pool hall rfl rfl
  | embed frm tokens =>
    exact .of_pool hall (embedEach_sameQueue [tokens] [] p.data).pending
      (embedEach_pool [tokens] [] p.data)
  | embedBatch frm lists =>
    exact .of_pool hall (embedEach_sameQueue lists [] p.data).pending
      (embedEach_pool lists [] p.data)
  | evict frm =>
    exact .of_pool hall (fireSaveForReason_sameQueue hp.table hu .evict).pending
      (fireSaveForReason_turn hp.table hu .evict).2
  | shutdown frm =>
    exact .of_pool hall (fireSaveForReason_sameQueue hp.table hu .shutdown).pending
      (fireSaveForReason_turn hp.table hu .shutdown).2
  | loadAdapter frm path file =>
    exact .of_pool hall (loadAdapter_step p.data path file).pending
      (loadAdapter_step p.data path file).pool
  | unloadAdapter frm handle =>
    exact .of_pool hall (unloadAdapter_step p.data handle).pending
      (unloadAdapter_step p.data handle).pool
  | setAdapterScale frm handle scale =>
    exact .of_pool hall (setAdapterScale_step p.data handle scale).pending
      (setAdapterScale_step p.data handle scale).pool
  | cancel ref =>
    exact .of_pool hall (handleCancel_sameQueue p.data ref).pending (handleCancel_pool hp ref)
  | tick => exact handleTick_heldWhileWaiting hp hheld

end Resets

/-! ### Runs -/

/-- What every run keeps. -/
theorem step_inOrder (p : Proc σ γ Sid) (e : Event Sid)
    (h : Wf env p.data ∧ (p.phase ≠ .stopped → TableAll Req.Underway p.data.reqTable)) :
    Wf env (step env p e).data ∧
      ((step env p e).phase ≠ .stopped → TableAll Req.Underway (step env p e).data.reqTable) := by
  refine ⟨step_wf h.1 e, fun hlive => ?_⟩
  have hlive' : p.phase ≠ .stopped := fun hstopped => by
    rw [show step env p e = p from if_pos hstopped] at hlive
    exact hlive hstopped
  exact (step_handles h.1 (h.2 hlive') e hlive).underway

/-- **Run theorem.** A run is first in first out iff every request that needs a seq of its own
    and arrives while calls wait finds all seqs held, or is refused; and it is when no reset
    fails a request in flight while calls wait. -/
theorem run_fifo (ctx : σ) (world : γ) (events : List (Event Sid)) :
    (AllSteps (step env) (FifoStep env) (init env ctx world) events ↔
      AllSteps (step env) (FifoWhen env) (init env ctx world) events) ∧
    (AllSteps (step env) GentleReset (init env ctx world) events →
      AllSteps (step env) (FifoStep env) (init env ctx world) events) := by
  have hinit : Wf env (init env ctx world : Proc σ γ Sid).data ∧
      ((init env ctx world : Proc σ γ Sid).phase ≠ .stopped →
        TableAll Req.Underway (init env ctx world : Proc σ γ Sid).data.reqTable) :=
    ⟨wf_init ctx world, fun _ q r hr => nomatch hr⟩
  constructor
  · exact allSteps_iff (fun p e h _ => step_inOrder p e h)
      (fun p e h => fifoStep_iff h.1 h.2 e) hinit
  · intro hgentle
    refine AllSteps.imp_of_invariant (I := fun p : Proc σ γ Sid => (Wf env p.data ∧
      (p.phase ≠ .stopped → TableAll Req.Underway p.data.reqTable)) ∧ HeldWhileWaiting p)
      ?_ ?_ ⟨hinit, fun _ hne => absurd rfl hne⟩ hgentle
    · rintro p e ⟨h, hheld⟩ he
      exact ⟨step_inOrder p e h, step_heldWhileWaiting h.1 h.2 he hheld⟩
    · rintro p e ⟨h, hheld⟩ -
      refine (fifoStep_iff h.1 h.2 e).mpr fun hlive item _ hwait _ => ?_
      exact .inl (hheld hlive hwait)

/-- A request for one token after the prompt "B", in no session. -/
def plainRequest (frm : From) : Item Nat :=
  .complete frm [66] ⟨⟨some 1, [], false, none, ⟨0, []⟩⟩, none, none, none, none, .block⟩

/-- One seq.  The second turn of session 0 is in flight and call 2 waits; the session is reset,
    and call 4 takes the seq. -/
def overtakenRequest : List (Event Nat) :=
  [.request (shortRequest 0), .tick, .tick, .request (shortRequest 1),
    .request (plainRequest 2), .resetSession 3 0, .request (plainRequest 4)]

/-- Call 4 is admitted, and call 2 still waits. -/
theorem overtakenRequest_overtaken :
    ¬ AllSteps (step (mapEnv plainParams .empty 1)) (FifoStep (mapEnv plainParams .empty 1))
      (mapProc plainParams .empty 1) overtakenRequest := by
  rintro ⟨-, -, -, -, -, -, hlast, -⟩
  have htable := hlast.waits (plainRequest 4) rfl (by decide +kernel) ⟨_, rfl⟩
  have hlength := congrArg (fun t : Table SeqId (Req Nat) => t.entries.length) htable
  revert hlength
  decide +kernel

end Erllama.Model
