import Erllama.Model.Queue
import Erllama.Model.Slots

namespace Erllama.Model

open Lib

/-!
# Nothing is stranded

* `Attended` — an idle process has no request and no queue, a running one has a tick coming, and
  whoever waits is reconsidered at that tick.
* `step_settled` — every event keeps the first two.
* `run_attended` — so the third holds in every reachable state.
-/

variable {σ γ Sid : Type} {env : Env σ γ}

/-- An idle process has nothing to do, and a running one has a tick coming. -/
structure Settled (p : Proc σ γ Sid) : Prop where
  idle : p.phase = .idle → p.data.reqTable.entries = [] ∧ p.data.pending = []
  running : p.phase = .running → 0 < p.data.sys.ticks

/-- The next state stopped, or served the queue from its front until nobody waits or all seqs
    are held by requests in flight. -/
def Reconsiders [DecidableEq Sid] (d : Data σ γ Sid) (p' : Proc σ γ Sid) : Prop :=
  p'.phase = .stopped ∨
    (p'.data.pending <:+ d.pending ∧ (p'.data.pending = [] ∨ AllHeld p'.data))

/-- Nobody who waits is left without a tick that reconsiders the queue. -/
structure Attended [LinearOrder Sid] (env : Env σ γ) (p : Proc σ γ Sid) : Prop
    extends Settled p where
  queued : p.phase ≠ .stopped → p.data.pending ≠ [] →
    p.phase = .running ∧ 0 < p.data.sys.ticks ∧ Reconsiders p.data (step env p .tick)

/-- A function that keeps the queue. -/
theorem SameQueue.settled {p : Proc σ γ Sid} {d' : Data σ γ Sid} (h : SameQueue p.data d')
    (hp : Settled p) : Settled ⟨p.phase, d'⟩ := by
  refine ⟨fun hidle => ?_, fun hrunning => ?_⟩
  · obtain ⟨hempty, hpending⟩ := hp.idle hidle
    exact ⟨h.empty hempty, h.pending.trans hpending⟩
  · show 0 < d'.sys.ticks
    rw [h.ticks]
    exact hp.running hrunning

/-- A reply neither serves nor extends the queue. -/
theorem replyWith_settled {p : Proc σ γ Sid} {frm : From} {res : Reply × Data σ γ Sid}
    (h : SameQueue p.data res.2) (hp : Settled p) : Settled (replyWith p frm res) :=
  (h.trans (.of_table rfl rfl rfl : SameQueue res.2 (emit res.2 (.reply frm res.1)))).settled hp

/-- An admission. -/
theorem Admission.settled {p p' : Proc σ γ Sid} (h : Admission p.phase p.data p')
    (hp : Settled p) : Settled p' := by
  cases h with
  | started hpending hticks hfree hheld =>
    exact ⟨nofun, fun _ => Nat.lt_of_le_of_lt (Nat.zero_le _) hticks⟩
  | refused hpending htable hticks =>
    exact (SameQueue.of_table hpending htable hticks).settled hp

variable [LinearOrder Sid]

/-- Whoever has to wait does so behind a request in flight. -/
theorem Arrival.settled (env : Env σ γ) {p p' : Proc σ γ Sid} {item : Item Sid}
    (h : Arrival p.phase p.data item p') (hstocked : Stocked p'.data) (hp : Settled p) :
    Settled p' := by
  cases h with
  | decided h => exact h.settled hp
  | @queued d' hheld hpending htable hticks =>
    have hbusy : p.data.reqTable.entries ≠ [] := by
      intro hempty
      have hstocked' : Stocked d' := hstocked
      refine allocSeq_of_empty env hstocked' ?_ (allocSeq_eq_none_iff.mpr hheld)
      rw [htable]
      exact hempty
    rw [if_neg hbusy]
    refine ⟨fun hidle => absurd (hp.idle hidle).1 hbusy, fun hrunning => ?_⟩
    show 0 < d'.sys.ticks
    rw [hticks]
    exact hp.running hrunning

/-- What follows the step, if a slot can be freed. -/
theorem tickAfterStep_settled {d : Data σ γ Sid} (hd : Wf env d)
    (hstocked : Stocked (tickAfterStep env d).data) : Settled (tickAfterStep env d) := by
  obtain ⟨-, hend⟩ := tickAfterStep_reconsiders hd
  rcases tickAfterStep_cases env d with ⟨hidle, hempty⟩ | hrunning
  · rw [hidle] at hend hstocked ⊢
    refine ⟨fun _ => ⟨hempty, ?_⟩, nofun⟩
    rcases hend with hnil | hheld
    · exact hnil
    · -- With an empty table a seq could be taken.
      exact absurd (allocSeq_eq_none_iff.mpr hheld)
        (allocSeq_of_empty env hstocked hempty)
  · rw [hrunning]
    exact ⟨nofun, fun _ => Nat.succ_pos _⟩

/-- A tick. -/
theorem stepTick_settled {d : Data σ γ Sid} (hd : Wf env d)
    (hstocked : Stocked (stepTick env d).data) : Settled (stepTick env d) := by
  have hends := tickBody_ends (G := .free) hd
    (bodyOk_of (fun _ _ => trivial) (fun _ _ _ => trivial) (fun _ _ => trivial) d)
  have hstopped : ∀ d : Data σ γ Sid, Settled (⟨.stopped, d⟩ : Proc σ γ Sid) :=
    fun d => ⟨nofun, nofun⟩
  unfold stepTick at hstocked ⊢
  cases hbody : tickBody env d with
  | stepped d' =>
    rw [hbody] at hends hstocked
    exact tickAfterStep_settled (Moves.wf hends hd) hstocked
  | recover d' e =>
    unfold recoverInPlace
    dsimp only
    split
    · exact hstopped _
    · split
      · exact ⟨fun _ => ⟨rfl, rfl⟩, nofun⟩
      · exact hstopped _
  | failed d' e => exact hstopped _
  | crashed d' => exact hstopped _

/-- **Step lemma.** Every event leaves an idle process with nothing to do and a running one with
    a tick coming. -/
theorem step_settled {p : Proc σ γ Sid} (hp : Wf env p.data)
    (hd : TableAll Req.Underway p.data.reqTable) (e : Event Sid)
    (hstocked : Stocked (step env p e).data) (hsettled : Settled p) :
    Settled (step env p e) := by
  unfold step at hstocked ⊢
  split
  case isTrue => exact hsettled
  case isFalse hlive =>
    rw [if_neg hlive] at hstocked
    cases e with
    -- Only an admission and a tick change what waits.
    | request item =>
      exact (admitRequest_arrival hp p.phase item).settled env hstocked hsettled
    | «continue» frm suffix opts =>
      exact (admitContinue_outcome env p.phase frm suffix opts).settled hsettled
    | endSession frm sid =>
      exact replyWith_settled (dropSession_sameQueue env p.data sid) hsettled
    | forkSession frm src new =>
      exact replyWith_settled (forkSession_sameQueue p.data src new) hsettled
    | resetSession frm sid =>
      exact replyWith_settled (resetSessionSeq_sameQueue p.data sid hd) hsettled
    | verify frm pre cands k =>
      unfold handleEvent
      dsimp only
      split
      · exact replyWith_settled (runVerify_sameQueue pre cands k) hsettled
      · exact replyWith_settled (.refl p.data) hsettled
    | embed frm tokens => exact replyWith_settled (embedEach_sameQueue [tokens] [] p.data) hsettled
    | embedBatch frm lists => exact replyWith_settled (embedEach_sameQueue lists [] p.data) hsettled
    | evict frm => exact replyWith_settled (fireSaveForReason_sameQueue hp.table hd .evict) hsettled
    | shutdown frm =>
      exact replyWith_settled (fireSaveForReason_sameQueue hp.table hd .shutdown) hsettled
    | loadAdapter frm path file =>
      exact replyWith_settled ((loadAdapter_step p.data path file).sameQueue
        (loadAdapter_turn env p.data path file).1) hsettled
    | unloadAdapter frm handle =>
      exact replyWith_settled ((unloadAdapter_step p.data handle).sameQueue
        (unloadAdapter_turn env p.data handle).1) hsettled
    | setAdapterScale frm handle scale =>
      exact replyWith_settled ((setAdapterScale_step p.data handle scale).sameQueue
        (setAdapterScale_turn env p.data handle scale).1) hsettled
    | cancel ref => exact (handleCancel_sameQueue p.data ref).settled hsettled
    -- After a tick, whoever waits does so behind a request that is in flight.
    | tick =>
      replace hstocked : Stocked (handleTick env p).data := hstocked
      show Settled (handleTick env p)
      unfold handleTick at hstocked ⊢
      split
      case isTrue => exact hsettled
      case isFalse hticks =>
        rw [if_neg hticks] at hstocked
        split
        case isTrue hrunning =>
          rw [if_pos hrunning] at hstocked
          exact stepTick_settled ⟨hp.table, hp.sound⟩ hstocked
        case isFalse hidle =>
          exact ⟨hsettled.idle, fun h => absurd h hidle⟩

/-- In a settled process whoever waits is reconsidered at the tick that is coming. -/
theorem Settled.attended {p : Proc σ γ Sid} (hp : Wf env p.data) (h : Settled p) :
    Attended env p := by
  refine ⟨h, fun hlive hpending => ?_⟩
  have hrunning : p.phase = .running := by
    cases hphase : p.phase with
    | running => rfl
    | idle => exact absurd (h.idle hphase).2 hpending
    | stopped => exact absurd hphase hlive
  have hticks := h.running hrunning
  refine ⟨hrunning, hticks, ?_⟩
  have hstep : step env p .tick = stepTick env (takeTick p.data) := by
    unfold step
    rw [if_neg hlive]
    show handleTick env p = _
    unfold handleTick
    rw [if_neg (by omega), if_pos hrunning]
  unfold Reconsiders
  rw [hstep]
  exact stepTick_reconsiders (d := takeTick p.data) ⟨hp.table, hp.sound⟩

/-- What the run keeps: the requests in flight are underway as long as the process lives. -/
structure Tended [DecidableEq Sid] (env : Env σ γ) (p : Proc σ γ Sid) : Prop where
  wf : Wf env p.data
  stocked : Stocked p.data
  underway : p.phase ≠ .stopped → TableAll Req.Underway p.data.reqTable
  settled : Settled p

/-- **Every event leaves the queue tended**. -/
theorem step_tended (hn : 0 < env.cfg.nSeqMax) (p : Proc σ γ Sid) (e : Event Sid)
    (h : Tended env p) : Tended env (step env p e) := by
  have hstocked := step_stocked hn h.wf h.stocked e
  by_cases hlive : p.phase = .stopped
  · rw [show step env p e = p from if_pos hlive]
    exact h
  · exact ⟨step_wf h.wf e, hstocked, fun hlive' =>
      (step_handles h.wf (h.underway hlive) e hlive').underway,
      step_settled h.wf (h.underway hlive) e hstocked h.settled⟩

/-- So does every run. -/
theorem run_tended (hn : 0 < env.cfg.nSeqMax) (ctx : σ) (world : γ) (events : List (Event Sid)) :
    Tended env (run (step env) (init env ctx world) events) := by
  have hinit : Tended env (init env ctx world : Proc σ γ Sid) := by
    refine ⟨wf_init ctx world, ?_, fun _ q r hr => (nomatch hr), fun _ => ⟨rfl, rfl⟩, nofun⟩
    refine .inl fun hnil => ?_
    replace hnil : List.range env.cfg.nSeqMax = [] := hnil
    rw [List.range_eq_nil] at hnil
    omega
  have hstep : ∀ (p : Proc σ γ Sid) (e : Event Sid), Tended env p → True →
      Tended env (step env p e) := fun p e hp _ => step_tended hn p e hp
  exact AllSteps.invariant hstep hinit (.of_forall (fun _ _ => trivial) _ _)

/-- **Nothing is stranded**, in any reachable state. -/
theorem run_attended (hn : 0 < env.cfg.nSeqMax) (ctx : σ) (world : γ)
    (events : List (Event Sid)) :
    Attended env (run (step env) (init env ctx world) events) :=
  have htended := run_tended hn ctx world events
  htended.settled.attended htended.wf

/-- Two requests in a process with one seq: the second waits, and a tick is coming. -/
theorem queuedRequest_attended :
    Attended (mapEnv plainParams .empty 1)
      (run (step (mapEnv plainParams .empty 1)) (mapProc plainParams .empty 1)
        [.request (shortRequest 0), .request (shortRequest 1)]) :=
  @run_attended MapCtx Unit Nat (mapEnv plainParams .empty 1) _ (by decide) .empty () _

end Erllama.Model
