import Erllama.Model.MapBackend

namespace Erllama.Model

open Lib

/-!
# No seq is lost

Every seq of the context is idle, in flight, or pinned to one session.  The one function that
can lose a seq is `releaseOrPinSeq`: it overwrites the session's entry, and when that entry
named another seq with no request in flight, nothing names that seq any more.

* `SlotsConserved` — every seq is accounted for exactly once.
* `PinsSafely` — the finishing requests of a tick overwrite no such entry.
* `run_slotsConserved_iff` — seqs are conserved along a run iff its steps pin safely.
-/

variable {σ γ Sid : Type} [LinearOrder Sid]

/-- Every seq is accounted for exactly once: idle and nowhere else, or not idle and in flight,
    or pinned to exactly one session (and in flight or not). -/
def SlotsConserved (env : Env σ γ) (d : Data σ γ Sid) : Prop :=
  ∀ q < env.cfg.nSeqMax,
    (d.idleSeqIds.count q = 1 ∧ d.reqTable.lookup q = none ∧
        ∀ sid s, d.sessionSeq.lookup sid = some s → s.seqId ≠ q) ∨
      (q ∉ d.idleSeqIds ∧
        ((d.reqTable.lookup q ≠ none ∧ ∀ sid s, d.sessionSeq.lookup sid = some s → s.seqId ≠ q) ∨
          ∃! sid, ∃ s, d.sessionSeq.lookup sid = some s ∧ s.seqId = q))

/-- Pinning the request's seq overwrites no entry of its session that names another seq with no
    request in flight. -/
def PinsFreshly (d : Data σ γ Sid) (r : Req Sid) : Prop :=
  ∀ sid s, r.sessionId = some sid → d.sessionSeq.lookup sid = some s →
    s.seqId = r.seqId ∨ d.reqTable.lookup s.seqId ≠ none

/-- The requests that finish after a step pin freshly, one after the other. -/
def FinishesSafely (env : Env σ γ) (d : Data σ γ Sid) : Prop :=
  AllSteps (finishReq env) PinsFreshly (markTerminal d) (finishers (markTerminal d))

/-- A tick that a running process handles finishes safely. -/
def PinsSafely (env : Env σ γ) (p : Proc σ γ Sid) : Event Sid → Prop
  | .tick => p.data.sys.ticks ≠ 0 → p.phase = .running →
      ∀ d, tickBody env (takeTick p.data) = .stepped d → FinishesSafely env d
  | _ => True

/-! ### In terms of the pool -/

/-- What is pinned, in terms of the sessions. -/
theorem pool_pinned_iff (d : Data σ γ Sid) (sid : Sid) (q : SeqId) :
    (pool d).pinned sid = some q ↔ ∃ s, d.sessionSeq.lookup sid = some s ∧ s.seqId = q :=
  Option.map_eq_some_iff

/-- What is not. -/
theorem pool_unpinned_iff (d : Data σ γ Sid) (q : SeqId) :
    (∀ sid, (pool d).pinned sid ≠ some q) ↔
      ∀ sid s, d.sessionSeq.lookup sid = some s → s.seqId ≠ q := by
  constructor
  · intro h sid s hs hq
    exact h sid ((pool_pinned_iff d sid q).mpr ⟨s, hs, hq⟩)
  · intro h sid hsid
    obtain ⟨s, hs, hq⟩ := (pool_pinned_iff d sid q).mp hsid
    exact h sid s hs hq

/-- Slots are conserved iff the pool is. -/
theorem slotsConserved_iff (env : Env σ γ) (d : Data σ γ Sid) :
    SlotsConserved env d ↔ (pool d).Conserved (List.range env.cfg.nSeqMax) := by
  unfold SlotsConserved Pool.Conserved
  refine forall_congr' fun q => ?_
  simp only [← pool_unpinned_iff, ← pool_pinned_iff, List.mem_range]
  simp only [ne_eq, ← pool_busy_eq_none]
  exact Iff.rfl

/-- A pin is fresh iff it is safe in the pool. -/
theorem pinsFreshly_iff (d : Data σ γ Sid) (r : Req Sid) :
    PinsFreshly d r ↔ ∀ sid, r.sessionId = some sid → (pool d).PinSafe sid r.seqId := by
  constructor
  · intro h sid hsid q hq
    obtain ⟨s, hs, rfl⟩ := (pool_pinned_iff d sid q).mp hq
    rw [ne_eq, pool_busy_eq_none]
    exact h sid s hsid hs
  · intro h sid s hsid hs
    have hsafe := h sid hsid s.seqId (pool_pinned_of_lookup hs)
    rwa [ne_eq, pool_busy_eq_none] at hsafe

/-- In a well-formed process the only way not to be conserved is to lose a seq. -/
theorem Wf.slotsConserved_iff {env : Env σ γ} {d : Data σ γ Sid} (hd : Wf env d) :
    SlotsConserved env d ↔ ∀ q < env.cfg.nSeqMax, ¬ (pool d).Lost q := by
  rw [Model.slotsConserved_iff, hd.sound.conserved_iff]
  simp only [List.mem_range]

/-! ### Moves that lose nothing, and moves that give nothing back -/

variable {env : Env σ γ}

/-- The guard of a run that loses no seq. -/
def pinGuard : Guard σ γ Sid := { Guard.free with finish := PinsFreshly }

/-- The guard of moves other than a recovery. -/
def noRecovery : Guard σ γ Sid := { Guard.free with recover := fun _ => False }

/-- Moves that pin freshly lose no seq. -/
theorem Moves.not_lost {d d' : Data σ γ Sid} (h : Moves env pinGuard d d') (hd : Wf env d)
    {q : SeqId} (hq : q < env.cfg.nSeqMax) (hkept : ¬ (pool d).Lost q) : ¬ (pool d').Lost q := by
  induction h with
  | refl => exact hkept
  | tail hmoves hmove ih =>
    have hpool := hmove.pool (Moves.wf hmoves hd).table fun d r sid hG hsid =>
      (pinsFreshly_iff d r).mp hG sid hsid
    rcases hpool with hsteps | ⟨-, hfull⟩
    · exact hsteps.not_lost ih
    · rw [hfull]
      exact Pool.not_lost_full (List.mem_range.mpr hq)

/-- A lost seq stays lost until a recovery. -/
theorem Moves.lost {d d' : Data σ γ Sid} (h : Moves env noRecovery d d') (hd : Wf env d)
    {q : SeqId} (hlost : (pool d).Lost q) : (pool d').Lost q := by
  induction h with
  | refl => exact hlost
  | tail hmoves hmove ih =>
    have hpool := hmove.pool (C := fun _ _ _ => True) (Moves.wf hmoves hd).table
      fun _ _ _ _ _ => trivial
    rcases hpool with hsteps | ⟨hno, -⟩
    · exact hsteps.lost ih
    · exact hno.elim

/-! ### The finishing requests of a tick -/

/-- Finishing a request that does not pin freshly loses the seq its session's entry named. -/
theorem finishReq_lost {d : Data σ γ Sid} (hd : Wf env d) {r : Req Sid}
    (h : ¬ PinsFreshly d r) :
    ∃ q < env.cfg.nSeqMax, (pool (finishReq env d r)).Lost q := by
  unfold PinsFreshly at h
  push Not at h
  obtain ⟨sid, s, hsid, hs, hne, hfree⟩ := h
  have hpinned := pool_pinned_of_lookup hs
  refine ⟨s.seqId, List.mem_range.mp (hd.sound.pinned_mem sid s.seqId hpinned), ?_⟩
  rw [pool_finishReq, hsid]
  exact hd.sound.lost_of_pin hpinned hne ((pool_busy_eq_none d s.seqId).mpr hfree)

/-- If some request of a pass does not pin freshly, a seq is lost after the pass. -/
theorem foldl_finishReq_lost {rs : List (Req Sid)} (hnodup : (rs.map Req.seqId).Nodup)
    {d : Data σ γ Sid} (hd : Wf env d) (hmem : ∀ r ∈ rs, d.reqTable.lookup r.seqId = some r)
    (h : ¬ AllSteps (finishReq env) PinsFreshly d rs) :
    ∃ q < env.cfg.nSeqMax, (pool (rs.foldl (finishReq env) d)).Lost q := by
  induction rs generalizing d with
  | nil => exact absurd trivial h
  | cons r rs ih =>
    rw [List.map_cons, List.nodup_cons] at hnodup
    have hmove : Move env noRecovery d (finishReq env d r) :=
      .finish (hmem r List.mem_cons_self) trivial
    have hd' := hmove.wf hd
    have hmem' : ∀ r' ∈ rs, (finishReq env d r).reqTable.lookup r'.seqId = some r' := by
      intro r' hr'
      have hne : r'.seqId ≠ r.seqId := by
        intro heq
        exact hnodup.1 (heq ▸ List.mem_map_of_mem hr')
      rw [lookup_finishReq_of_ne d r hne]
      exact hmem r' (List.mem_cons_of_mem r hr')
    by_cases hfresh : PinsFreshly d r
    · -- The fault is later in the pass.
      exact ih hnodup.2 hd' hmem' fun hrest => h ⟨hfresh, hrest⟩
    · -- The seq is lost here, and the rest of the pass does not find it.
      obtain ⟨q, hq, hlost⟩ := finishReq_lost hd hfresh
      have hrest : Moves env noRecovery (finishReq env d r)
          (rs.foldl (finishReq env) (finishReq env d r)) :=
        foldl_moves (P := fun _ _ => True) (fun _ _ _ _ hr => .single (.finish hr trivial))
          (fun d r _ _ _ hne => lookup_finishReq_of_ne d r hne) hnodup.2 hd' hmem'
          (.of_forall (fun _ _ => trivial) _ _)
      exact ⟨q, hq, hrest.lost hd' hlost⟩

/-- A tick that finishes unsafely loses a slot. -/
theorem tickAfterStep_lost {d : Data σ γ Sid} (hd : Wf env d) (h : ¬ FinishesSafely env d) :
    ∃ q < env.cfg.nSeqMax, (pool (tickAfterStep env d).data).Lost q := by
  have hopen : (noRecovery : Guard σ γ Sid).Open :=
    ⟨fun _ => trivial, fun _ _ _ => trivial, fun _ _ => trivial, fun _ _ => trivial⟩
  have hmark : Wf env (markTerminal d) := (markTerminal_moves (G := noRecovery) hd).wf hd
  have hkeys := hmark.table.keysMatch
  have hsub : (finishers (markTerminal d)).Sublist (requests (markTerminal d).reqTable) :=
    List.filter_sublist
  obtain ⟨q, hq, hlost⟩ := foldl_finishReq_lost
    ((requests_seqId_nodup hkeys).sublist (hsub.map Req.seqId)) hmark
    (fun r hr => lookup_of_mem_requests hkeys (hsub.subset hr)) h
  -- What follows the finishing requests is no recovery.
  have hqueue : QueueOk env noRecovery (finishMarkedReqs env (markTerminal d)) := hopen.queueOk _
  have hdispatch := dispatchAdmits_moves _ hqueue.1 hqueue.2
  refine ⟨q, hq, ?_⟩
  have hend := Moves.lost hdispatch (finishMarkedReqs_wf hd) hlost
  rcases tickAfterStep_cases env d with ⟨heq, -⟩ | heq
  · rw [heq]
    exact hend
  · rw [heq]
    exact hend

/-! ### One event, and runs -/

/-- A step whose finishing requests pin freshly meets the guard. -/
theorem PinsSafely.stepOk {p : Proc σ γ Sid} {e : Event Sid} (h : PinsSafely env p e) :
    StepOk env pinGuard p e := by
  have hopen : (pinGuard : Guard σ γ Sid).Open :=
    ⟨fun _ => trivial, fun _ _ _ => trivial, fun _ _ => trivial, fun _ _ => trivial⟩
  intro _
  cases e with
  | request item => exact hopen.admitOk p.data item
  | «continue» frm suffix opts => exact fun _ _ => hopen.pinnedGuard _
  | tick =>
    intro hticks hrunning
    refine ⟨bodyOk_of (fun _ _ => trivial) (fun _ _ _ => trivial) (fun _ _ => trivial) _, ?_,
      fun _ _ _ _ => trivial⟩
    exact fun d hbody => ⟨h hticks hrunning d hbody, hopen.queueOk _⟩
  | verify => exact fun _ _ => trivial
  | embed => exact fun _ => trivial
  | embedBatch => exact fun _ => trivial
  | evict => exact fun _ _ => trivial
  | shutdown => exact fun _ _ => trivial
  | forkSession => exact fun _ _ _ _ _ _ _ => trivial
  | _ => trivial

/-- **One event** keeps the seqs conserved iff its finishing requests pin freshly. -/
theorem step_slotsConserved_iff {p : Proc σ γ Sid} (hp : Wf env p.data)
    (hc : SlotsConserved env p.data) (e : Event Sid) :
    SlotsConserved env (step env p e).data ↔ PinsSafely env p e := by
  have hp' := step_wf hp e
  rw [hp.slotsConserved_iff] at hc
  rw [hp'.slotsConserved_iff]
  constructor
  · intro h
    cases e with
    | tick =>
      intro hticks hrunning d hbody
      by_contra hunsafe
      have hends := tickBody_ends (G := .free)
        (Moves.wf (takeTick_moves (G := .free) p.data) hp)
        (bodyOk_of (fun _ _ => trivial) (fun _ _ _ => trivial) (fun _ _ => trivial) _)
      rw [hbody] at hends
      have hd : Wf env d := Moves.wf hends ⟨hp.table, hp.sound⟩
      obtain ⟨q, hq, hlost⟩ := tickAfterStep_lost hd hunsafe
      have hstep : step env p .tick = tickAfterStep env d := by
        show (if p.phase = .stopped then p else handleTick env p) = _
        rw [if_neg (by rw [hrunning]; exact nofun)]
        unfold handleTick stepTick
        rw [if_neg hticks, if_pos hrunning, hbody]
      rw [hstep] at h
      exact h q hq hlost
    | _ => trivial
  · intro h q hq
    have hsteps := step_steps hp h.stepOk
    generalize step env p e = p' at hsteps
    cases hsteps with
    | live hmoves => exact Moves.not_lost hmoves hp hq (hc q hq)
    | halted hmoves hhalt =>
      have hpool := (hhalt.refreshes (Moves.wf hmoves hp).table).pool
      show ¬ (pool _).Lost q
      rw [hpool]
      exact Moves.not_lost hmoves hp hq (hc q hq)

/-- At the start every slot is idle. -/
theorem slotsConserved_init (ctx : σ) (world : γ) :
    SlotsConserved env (init env ctx world : Proc σ γ Sid).data := by
  rw [(wf_init ctx world).slotsConserved_iff]
  exact fun q hq => Pool.not_lost_full (List.mem_range.mpr hq)

/-- **Seq conservation.** Every seq is accounted for exactly once in every state a run reaches
    iff the finishing requests of its ticks overwrite no idle pin of another seq. -/
theorem run_slotsConserved_iff (ctx : σ) (world : γ) (events : List (Event Sid)) :
    (∀ pre, pre <+: events →
        SlotsConserved env (run (step env) (init env ctx world) pre).data) ↔
      AllSteps (step env) (PinsSafely env) (init env ctx world) events := by
  rw [forall_prefix_iff (I := fun p : Proc σ γ Sid => SlotsConserved env p.data),
    and_iff_right (slotsConserved_init ctx world)]
  have hkeep : ∀ (p : Proc σ γ Sid) (e : Event Sid),
      Wf env p.data ∧ SlotsConserved env p.data → SlotsConserved env (step env p e).data →
      Wf env (step env p e).data ∧ SlotsConserved env (step env p e).data :=
    fun p e hp h => ⟨step_wf hp.1 e, h⟩
  exact allSteps_iff hkeep (fun p e hp => step_slotsConserved_iff hp.1 hp.2 e)
    ⟨wf_init ctx world, slotsConserved_init ctx world⟩

/-! ### Two requests of one new session -/

/-- A request for one token after the prompt "A", in session 0. -/
def shortRequest (frm : From) : Item Nat :=
  .complete frm [65]
    ⟨⟨some 1, [], false, none, ⟨0, []⟩⟩, some 0, none, none, none, .block⟩

/-- Both are admitted before either finishes: neither finds an entry of the session. -/
def overlappingRequests : List (Event Nat) :=
  [.request (shortRequest 0), .request (shortRequest 1), .tick, .tick]

/-- Both pin their seqs to the session, and the seq of the first is named nowhere. -/
theorem overlappingRequests_lose :
    ¬ SlotsConserved (mapEnv plainParams .empty 2)
      (run (step (mapEnv plainParams .empty 2)) (mapProc plainParams .empty 2)
        overlappingRequests).data := by
  generalize hd : (run (step (mapEnv plainParams .empty 2)) (mapProc plainParams .empty 2)
    overlappingRequests).data = d
  have hidle : d.idleSeqIds = [] := by rw [← hd]; decide
  have hbusy : d.reqTable.lookup 0 = none := by rw [← hd]; decide
  have hpins : d.sessionSeq.entries.map (fun e => (e.1, e.2.seqId)) = [(0, 1)] := by
    rw [← hd]; decide
  intro h
  rcases h 0 (by decide) with ⟨hcount, -⟩ | ⟨-, ⟨hbusy', -⟩ | ⟨sid, ⟨s, hs, hq⟩, -⟩⟩
  · rw [hidle] at hcount
    exact absurd hcount (by decide)
  · exact hbusy' hbusy
  · have hmem := List.mem_map_of_mem (f := fun e => (e.1, e.2.seqId)) (AList.mem_lookup_iff.mp hs)
    rw [hpins, List.mem_singleton] at hmem
    exact absurd (hq.symm.trans (Prod.mk.inj hmem).2) (by decide)

end Erllama.Model
