import Erllama.Model.Terminal

namespace Erllama.Model

open Lib

/-!
# The queue of admissions

* `AllHeld` — no seq can be taken: none is idle, and none is pinned by a session at rest.
* `allocSeq_eq_none_iff` — a seq is refused exactly then.
* `SameQueue` — functions that neither serve nor extend the queue.
* `dispatchAdmits_reconsiders` — a dispatch serves the queue from its front until it is empty
  or all seqs are held.
* `admitRequest_arrival` — what an arriving request does to the queue.
-/

variable {σ γ Sid : Type} {env : Env σ γ}

/-! ### Taking a seq -/

/-- Every seq that a request could take is held by a request in flight. -/
def AllHeld [DecidableEq Sid] (d : Data σ γ Sid) : Prop :=
  d.idleSeqIds = [] ∧ ∀ sid s, d.sessionSeq.lookup sid = some s → inFlight d s.seqId = true

/-- Some seq is idle, in flight or pinned. -/
def Stocked [DecidableEq Sid] (d : Data σ γ Sid) : Prop := (pool d).Stocked

section Alloc

variable [LinearOrder Sid] {d : Data σ γ Sid}

/-- The candidates for reclaiming: the other sessions with nothing in flight. -/
theorem mem_idlePins {except : Option Sid} {p : Int ×ₗ Sid} :
    p ∈ idlePins d except ↔ ∃ sid s, d.sessionSeq.lookup sid = some s ∧
      except ≠ some sid ∧ inFlight d s.seqId = false ∧ p = toLex (s.lastUsed, sid) := by
  unfold idlePins
  constructor
  · intro h
    obtain ⟨⟨sid, s⟩, hmem, rfl⟩ := List.mem_map.mp h
    obtain ⟨hentry, hsel⟩ := List.mem_filter.mp hmem
    have hsel' : except ≠ some sid ∧ ¬ inFlight d s.seqId = true := of_decide_eq_true hsel
    exact ⟨sid, s, AList.mem_lookup_iff.mpr hentry, hsel'.1, Bool.eq_false_iff.mpr hsel'.2, rfl⟩
  · rintro ⟨sid, s, hs, hne, hfree, rfl⟩
    refine List.mem_map.mpr ⟨⟨sid, s⟩, List.mem_filter.mpr ⟨AList.mem_lookup_iff.mp hs, ?_⟩, rfl⟩
    exact decide_eq_true ⟨hne, by rw [hfree]; exact nofun⟩

variable (env) in
/-- A session at rest that is dropped leaves its seq idle. -/
theorem dropSession_idle {sid : Sid} {s : Session} (hs : d.sessionSeq.lookup sid = some s)
    (hfree : inFlight d s.seqId = false) :
    (dropSession env d sid).idleSeqIds = s.seqId :: d.idleSeqIds := by
  unfold dropSession
  rw [hs]
  dsimp only
  rw [if_neg (by rw [hfree]; exact nofun)]
  rfl

/-- **A seq is refused iff all are held.** -/
theorem allocSeq_eq_none_iff : allocSeq env d none = none ↔ AllHeld d := by
  unfold allocSeq popIdle AllHeld
  cases hidle : d.idleSeqIds with
  | cons q rest => exact ⟨nofun, fun h => absurd h.1 (List.cons_ne_nil q rest)⟩
  | nil =>
    dsimp only
    have hpins : (idlePins d none).insertionSort (· ≤ ·) = [] ↔
        ∀ sid s, d.sessionSeq.lookup sid = some s → inFlight d s.seqId = true := by
      rw [← List.length_eq_zero_iff, List.length_insertionSort, List.length_eq_zero_iff,
        List.eq_nil_iff_forall_not_mem]
      constructor
      · intro h sid s hs
        by_contra hfree
        exact h _ (mem_idlePins.mpr ⟨sid, s, hs, nofun, Bool.eq_false_iff.mpr hfree, rfl⟩)
      · intro h p hp
        obtain ⟨sid, s, hs, -, hfree, -⟩ := mem_idlePins.mp hp
        rw [h sid s hs] at hfree
        exact nomatch hfree
    rw [← hpins]
    unfold reclaimLruIdleSeqExcept
    cases hsort : (idlePins d none).insertionSort (· ≤ ·) with
    | nil => exact ⟨fun _ => ⟨rfl, rfl⟩, fun _ => rfl⟩
    | cons oldest rest =>
      -- The least recently used pin is at rest, so its seq can be had.
      have hmem : oldest ∈ idlePins d none := by
        rw [← List.mem_insertionSort (fun a b => a ≤ b), hsort]
        exact List.mem_cons_self
      obtain ⟨sid, s, hs, -, hfree, rfl⟩ := mem_idlePins.mp hmem
      have hdrop := dropSession_idle env hs hfree
      constructor
      · intro h
        rw [Option.bind_some] at h
        have hsid : (ofLex (toLex (s.lastUsed, sid))).2 = sid := rfl
        rw [hsid, hdrop] at h
        exact nomatch h
      · exact fun h => absurd h.2 (List.cons_ne_nil _ rest)

variable (env) in
/-- With a seq in some place and no request in flight, one can be taken. -/
theorem allocSeq_of_empty (hstocked : Stocked d) (hempty : d.reqTable.entries = []) :
    allocSeq env d none ≠ none := by
  have hlookup : ∀ q, d.reqTable.lookup q = none := by
    intro q
    cases hq : d.reqTable.lookup q with
    | none => rfl
    | some r =>
      have hmem := AList.mem_lookup_iff.mp hq
      rw [hempty] at hmem
      exact nomatch hmem
  rw [ne_eq, allocSeq_eq_none_iff]
  rintro ⟨hidle, hpins⟩
  rcases hstocked with hne | ⟨q, hbusy⟩ | ⟨sid, hpin⟩
  · exact hne hidle
  · exact hbusy ((pool_busy_eq_none d q).mpr (hlookup q))
  · obtain ⟨q, hq⟩ := Option.ne_none_iff_exists'.mp hpin
    replace hq : (d.sessionSeq.lookup sid).map Session.seqId = some q := hq
    obtain ⟨s, hs, rfl⟩ := Option.map_eq_some_iff.mp hq
    have hbusy := hpins sid s hs
    rw [(inFlight_eq_false_iff d s.seqId).mpr (hlookup s.seqId)] at hbusy
    exact nomatch hbusy

/-- Every move leaves a seq that is idle, busy or pinned. -/
theorem Move.stocked {G : Guard σ γ Sid} (hn : 0 < env.cfg.nSeqMax) {d' : Data σ γ Sid}
    (h : Move env G d d') (hd : Wf env d) (hstocked : Stocked d) : Stocked d' := by
  rcases h.pool (C := fun _ _ _ => True) hd.table (fun _ _ _ _ _ => trivial)
    with hsteps | ⟨-, hfull⟩
  · exact hsteps.stocked hstocked
  · unfold Stocked
    rw [hfull]
    refine Pool.stocked_full fun hnil => ?_
    rw [List.range_eq_nil] at hnil
    omega

/-- So does any number of moves. -/
theorem Moves.stocked {G : Guard σ γ Sid} (hn : 0 < env.cfg.nSeqMax) {d' : Data σ γ Sid}
    (h : Moves env G d d') (hd : Wf env d) (hstocked : Stocked d) : Stocked d' := by
  induction h with
  | refl => exact hstocked
  | tail hmoves hmove ih => exact hmove.stocked hn (Moves.wf hmoves hd) ih

/-- **Some seq is always in some place.** -/
theorem step_stocked (hn : 0 < env.cfg.nSeqMax) {p : Proc σ γ Sid} (hp : Wf env p.data)
    (hstocked : Stocked p.data) (e : Event Sid) : Stocked (step env p e).data := by
  have hsteps := step_steps hp (stepOk_free p e)
  generalize step env p e = p' at hsteps ⊢
  cases hsteps with
  | live h => exact h.stocked hn hp hstocked
  | halted h h' =>
    have hsame := h'.refreshes (h.wf hp).table
    unfold Stocked
    rw [hsame.pool]
    exact h.stocked hn hp hstocked

end Alloc

/-! ### Functions that leave the queue alone -/

/-- The queue is the same, an empty table stays empty, and no tick was cast. -/
structure SameQueue (d d' : Data σ γ Sid) : Prop where
  pending : d'.pending = d.pending
  empty : d.reqTable.entries = [] → d'.reqTable.entries = []
  ticks : d'.sys.ticks = d.sys.ticks

/-- Nothing was queued. -/
theorem SameQueue.refl (d : Data σ γ Sid) : SameQueue d d := ⟨rfl, id, rfl⟩

/-- Nor by one function after another. -/
theorem SameQueue.trans {d d' d'' : Data σ γ Sid} (h : SameQueue d d') (h' : SameQueue d' d'') :
    SameQueue d d'' :=
  ⟨h'.pending.trans h.pending, fun hd => h'.empty (h.empty hd), h'.ticks.trans h.ticks⟩

/-- A function that keeps the queue, the table and the ticks. -/
theorem SameQueue.of_table {d d' : Data σ γ Sid} (hpending : d'.pending = d.pending)
    (htable : d'.reqTable = d.reqTable) (hticks : d'.sys.ticks = d.sys.ticks) : SameQueue d d' :=
  ⟨hpending, fun h => by rw [htable]; exact h, hticks⟩

/-- An adapter operation. -/
theorem AdapterStep.sameQueue {d d' : Data σ γ Sid} (h : AdapterStep d d') (h' : Turn d d') :
    SameQueue d d' :=
  .of_table h.pending h.reqTable h'.ticks

/-- An empty table has no request. -/
theorem lookup_of_empty {t : Table SeqId (Req Sid)} (h : t.entries = []) (q : SeqId) :
    t.lookup q = none := by
  cases hq : t.lookup q with
  | none => rfl
  | some r =>
    have hmem := AList.mem_lookup_iff.mp hq
    rw [h] at hmem
    exact absurd hmem List.not_mem_nil

/-- An empty table has no requests. -/
theorem requests_of_empty {t : Table SeqId (Req Sid)} (h : t.entries = []) : requests t = [] := by
  refine List.eq_nil_iff_forall_not_mem.mpr fun r hr => ?_
  obtain ⟨q, hq⟩ := mem_requests.mp hr
  rw [lookup_of_empty h] at hq
  cases hq

section Frames

variable {d : Data σ γ Sid}

/-- A verify call. -/
theorem runVerify_sameQueue (pre cands : List Token) (k : Nat) :
    SameQueue d (runVerify env d pre cands k).2 := by
  unfold runVerify
  split
  · exact .refl d
  · dsimp only
    split <;> exact .of_table rfl rfl rfl

/-- An embed call. -/
theorem embedEach_sameQueue (lists : List (List Token)) (acc : List (List ℚ))
    (d : Data σ γ Sid) : SameQueue d (embedEach env acc lists d).2 := by
  induction lists generalizing acc d with
  | nil => exact .refl d
  | cons tokens rest ih =>
    unfold embedEach
    split
    · exact .refl d
    case h_2 f _ =>
      have hcall : SameQueue d (withCtx d (f d.sys.ctx tokens).2) := .of_table rfl rfl rfl
      dsimp only
      split
      · exact hcall.trans (ih _ (withCtx d (f d.sys.ctx tokens).2))
      · exact hcall

/-- A save keeps the queue. -/
theorem fireSaveForReq_pending (d : Data σ γ Sid) (reason : SaveReason) (r : Req Sid) :
    (fireSaveForReq env d reason r).pending = d.pending := by
  unfold fireSaveForReq
  split <;> rfl

/-- A cancel. -/
theorem handleCancel_sameQueue (d : Data σ γ Sid) (ref : Ref) :
    SameQueue d (handleCancel d ref) := by
  unfold handleCancel
  split
  case h_2 => exact .refl d
  case h_1 r hfind =>
    refine ⟨rfl, fun hempty => ?_, rfl⟩
    have hmem := List.mem_of_find?_eq_some hfind
    rw [requests_of_empty hempty] at hmem
    exact absurd hmem List.not_mem_nil

/-- Failing what is in flight on a seq. -/
theorem failInflightForSeq_sameQueue (d : Data σ γ Sid) (q : SeqId) (e : Err)
    (hd : TableAll Req.Underway d.reqTable) :
    SameQueue d (failInflightForSeq env d q e) := by
  have hticks := (failInflightForSeq_turn env hd q e).ticks
  unfold failInflightForSeq at hticks ⊢
  split
  · exact .refl d
  case h_2 r hr =>
    rw [hr] at hticks
    refine ⟨rfl, fun hempty => ?_, hticks⟩
    rw [lookup_of_empty hempty] at hr
    cases hr

variable [LinearOrder Sid]

/-- Saving every request. -/
theorem fireSaveForReason_sameQueue (hwf : TableWf env d)
    (hd : TableAll Req.Underway d.reqTable) (reason : SaveReason) :
    SameQueue d (fireSaveForReason env d reason) := by
  have hpending : ∀ (rs : List (Req Sid)) (d : Data σ γ Sid),
      (rs.foldl (fun acc r => fireSaveForReq env acc reason r) d).pending = d.pending := by
    intro rs
    induction rs with
    | nil => exact fun d => rfl
    | cons r rs ih => exact fun d => (ih _).trans (fireSaveForReq_pending d reason r)
  refine ⟨hpending _ d, fun hempty => ?_, (fireSaveForReason_turn hwf hd reason).1.ticks⟩
  unfold fireSaveForReason
  rw [requests_of_empty hempty]
  exact hempty

variable (env) in
/-- Dropping a session. -/
theorem dropSession_sameQueue (d : Data σ γ Sid) (sid : Sid) :
    SameQueue d (dropSession env d sid) :=
  .of_table (dropSession_pending d sid) (dropSession_frame env d sid).1
    (dropSession_turn env d sid).ticks

/-- Forking a session. -/
theorem forkSession_sameQueue (d : Data σ γ Sid) (src new : Sid) :
    SameQueue d (forkSession env d src new).2 := by
  unfold forkSession
  split
  · exact .refl d
  · split
    · exact .refl d
    · split
      · exact .refl d
      · split
        case h_2 => exact .refl d
        case h_1 q d' halloc =>
          obtain ⟨hturn, htable, hpending⟩ := allocSeq_turn env halloc
          refine (SameQueue.of_table hpending htable hturn.ticks).trans ?_
          unfold forkCopy
          split
          · exact .of_table rfl rfl rfl
          · dsimp only
            split <;> exact .of_table rfl rfl rfl

/-- Resetting a session. -/
theorem resetSessionSeq_sameQueue (d : Data σ γ Sid) (sid : Sid)
    (hd : TableAll Req.Underway d.reqTable) :
    SameQueue d (resetSessionSeq env d sid).2 := by
  unfold resetSessionSeq
  split
  · exact .refl d
  case h_2 s _ =>
    exact (failInflightForSeq_sameQueue d s.seqId .engineReset hd).trans
      (.of_table rfl rfl (releaseSeq_mail env _ s.seqId).ticks)

end Frames

/-! ### The body of a tick -/

/-- The process at the end of the body. -/
def TickEnd.data : TickEnd σ γ Sid → Data σ γ Sid
  | .stepped d   => d
  | .recover d _ => d
  | .failed d _  => d
  | .crashed d   => d

section Body

/-- A pass over the table keeps the queue. -/
theorem updateReqs_pending (f : Req Sid → Option (Req Sid)) (d : Data σ γ Sid) :
    (updateReqs f d).pending = d.pending := by
  unfold updateReqs
  generalize requests d.reqTable = rs
  induction rs generalizing d with
  | nil => rfl
  | cons r rs ih =>
    rw [List.foldl_cons, ih]
    split <;> rfl

/-- A failed step keeps the queue. -/
theorem decodeError_pending (d : Data σ γ Sid) (e : Reason) :
    (decodeError d e).data.pending = d.pending := by
  unfold decodeError
  split <;> rfl

/-- So does a tick that prefills a media request. -/
theorem runMediaTick_pending (d : Data σ γ Sid) (r : Req Sid) :
    (runMediaTick env d r).data.pending = d.pending := by
  unfold runMediaTick
  split
  · rfl
  · dsimp only
    split <;> rfl

variable (env) in
/-- So does asking for a draft. -/
theorem maybeSpecTick_pending (d : Data σ γ Sid) :
    (maybeSpecTick env d).2.pending = d.pending := by
  unfold maybeSpecTick
  split
  · split
    · unfold specDraftFor
      split
      · split
        · rfl
        · dsimp only
          split
          · split <;> rfl
          · rfl
      · rfl
    · rfl
  · rfl

variable [DecidableEq Sid]

/-- So does committing the result of a speculative step. -/
theorem commitSpec_pending {d : Data σ γ Sid} (hd : TableWf env d) (q : SeqId)
    (draft : List Token) (res : SpecResult) :
    (commitSpec env d q draft res).data.pending = d.pending := by
  have happ := applySpecCommitted_refreshes env q res.eog res.committed hd
  cases hcommit : commitSpec env d q draft res with
  | stepped d' => exact (commitSpec_refreshes hd hcommit).pending
  | recover d' e =>
    unfold commitSpec at hcommit
    dsimp only at hcommit
    split at hcommit <;> cases hcommit
  | failed d' e =>
    unfold commitSpec at hcommit
    dsimp only at hcommit
    split at hcommit <;> cases hcommit
  | crashed d' =>
    unfold commitSpec at hcommit
    dsimp only at hcommit
    split at hcommit <;> cases hcommit
    exact happ.pending

/-- So does a tick that speculates. -/
theorem runSpecTick_pending {d : Data σ γ Sid} (hd : TableWf env d) (r : Req Sid)
    (draft : List Token) : (runSpecTick env d r draft).data.pending = d.pending := by
  unfold runSpecTick
  split
  case h_2 => rfl
  case h_1 cb sampler _ _ =>
    dsimp only
    split
    · exact commitSpec_pending (d := withCtx d (cb.step d.sys.ctx sampler r.seqId draft).2) hd
        r.seqId draft _
    · exact decodeError_pending _ _

/-- So does a tick that steps a batch. -/
theorem stepTickOps_pending {d : Data σ γ Sid} (hd : TableWf env d) :
    (stepTickOps env d).data.pending = d.pending := by
  unfold stepTickOps
  split
  · rfl
  · rfl
  case h_3 ops _ _ =>
    dsimp only
    split
    case h_2 => exact decodeError_pending _ _
    case h_1 results _ =>
      unfold finishStep
      split
      · rfl
      case h_2 pairs _ =>
        have hpending := (applyStepResults_refreshes env pairs
          (d := withCtx d (env.be.step d.sys.ctx ops).2) hd).pending
        dsimp only
        split <;> exact hpending

end Body

variable [LinearOrder Sid]

/-- **The body of a tick leaves the queue alone.** -/
theorem tickBody_pending {d : Data σ γ Sid} (hd : Wf env d) :
    (tickBody env d).data.pending = d.pending := by
  have hwf := Moves.wf (honourCancellations_moves (G := .free) hd) hd
  have hcancel : (honourCancellations d).pending = d.pending := updateReqs_pending _ d
  unfold tickBody
  dsimp only
  split
  · exact (runMediaTick_pending _ _).trans hcancel
  · have hwf' := Moves.wf (maybeSpecTick_moves (G := .free) hwf.table).1 hwf
    have hspec := (maybeSpecTick_pending env (honourCancellations d)).trans hcancel
    split
    · exact (runSpecTick_pending hwf'.table _ _).trans hspec
    · exact (stepTickOps_pending hwf'.table).trans hspec

/-! ### Serving the queue -/

section Serve

variable {d : Data σ γ Sid}

/-- **A dispatch reconsiders the queue**: it serves it from the front until nobody waits or all
    seqs are held. -/
theorem dispatchAdmits_reconsiders (items : List (Item Sid)) (hd : Wf env d)
    (hpending : d.pending = items) :
    (dispatchAdmits env items d).pending <:+ items ∧
      ((dispatchAdmits env items d).pending = [] ∨ AllHeld (dispatchAdmits env items d)) := by
  induction items generalizing d with
  | nil =>
    have hnil : d.pending <:+ [] := by rw [hpending]
    exact ⟨hnil, .inl hpending⟩
  | cons item rest ih =>
    unfold dispatchAdmits
    split
    case h_1 hnone => exact ⟨hpending ▸ List.suffix_refl _, .inr (allocSeq_eq_none_iff.mp hnone)⟩
    case h_2 q d' halloc =>
      obtain ⟨-, -, hsame⟩ := allocSeq_turn env halloc
      obtain ⟨-, hrest⟩ := startQueued_turn (hsame.trans hpending)
        (allocSeq_free hd halloc)
      have hwf' := startQueued_wf hd halloc item rest
      obtain ⟨hsuffix, hend⟩ := ih hwf' hrest
      exact ⟨hsuffix.trans (List.suffix_cons item rest), hend⟩

/-- What follows a step reconsiders the queue. -/
theorem tickAfterStep_reconsiders (hd : Wf env d) :
    (tickAfterStep env d).data.pending <:+ d.pending ∧
      ((tickAfterStep env d).data.pending = [] ∨ AllHeld (tickAfterStep env d).data) := by
  have hfinish : ∀ (rs : List (Req Sid)) (d : Data σ γ Sid),
      (rs.foldl (finishReq env) d).pending = d.pending := by
    intro rs
    induction rs with
    | nil => exact fun d => rfl
    | cons r rs ih =>
      intro d
      rw [List.foldl_cons, ih]
      unfold finishReq releaseOrPinSeq
      split <;> rfl
  have hpending : (finishMarkedReqs env (markTerminal d)).pending = d.pending :=
    (hfinish _ _).trans (updateReqs_pending _ d)
  obtain ⟨hsuffix, hend⟩ := dispatchAdmits_reconsiders _ (finishMarkedReqs_wf hd) hpending
  rw [← hpending] at hsuffix hend
  rw [← hpending]
  rcases tickAfterStep_cases env d with ⟨heq, -⟩ | heq
  · rw [heq]
    exact ⟨hsuffix, hend⟩
  · rw [heq]
    exact ⟨hsuffix, hend⟩

/-- A tick stops the process, or empties the queue on a fresh context, or reconsiders it. -/
theorem stepTick_reconsiders (hd : Wf env d) :
    (stepTick env d).phase = .stopped ∨
      ((stepTick env d).data.pending <:+ d.pending ∧
        ((stepTick env d).data.pending = [] ∨ AllHeld (stepTick env d).data)) := by
  have hpending := tickBody_pending hd
  have hends := tickBody_ends (G := .free) hd
    (bodyOk_of (fun _ _ => trivial) (fun _ _ _ => trivial) (fun _ _ => trivial) d)
  unfold stepTick
  cases hbody : tickBody env d with
  | stepped d' =>
    rw [hbody] at hpending hends
    replace hpending : d'.pending = d.pending := hpending
    obtain ⟨hsuffix, hend⟩ := tickAfterStep_reconsiders (Moves.wf hends hd)
    exact .inr ⟨hpending ▸ hsuffix, hend⟩
  | recover d' e =>
    unfold recoverInPlace
    dsimp only
    split
    · exact .inl rfl
    · split
      · exact .inr ⟨List.nil_suffix, .inl rfl⟩
      · exact .inl rfl
  | failed d' e => exact .inl rfl
  | crashed d' => exact .inl rfl

/-- What an admission does to the phase, the queue and the table. -/
inductive Admission (phase : Phase) (d : Data σ γ Sid) : Proc σ γ Sid → Prop
  | started {d' : Data σ γ Sid} {q} (hpending : d'.pending = d.pending)
      (hticks : d.sys.ticks < d'.sys.ticks) (hfree : d.reqTable.lookup q = none)
      (hheld : d'.reqTable.lookup q ≠ none) : Admission phase d ⟨.running, d'⟩
  | refused {d' : Data σ γ Sid} (hpending : d'.pending = d.pending)
      (htable : d'.reqTable = d.reqTable) (hticks : d'.sys.ticks = d.sys.ticks) :
    Admission phase d ⟨phase, d'⟩

omit [LinearOrder Sid] in
/-- A prepared request that started is in the table. -/
theorem startPrepared_inTable {q : SeqId} {sid : Option Sid} {prompt : List Token}
    {prepared : Except Err (Prepared Sid) × Data σ γ Sid}
    (hprep : PreparedOk env d q sid prompt prepared) (mode : AdmitMode)
    (hok : (startPrepared env mode prepared).1 = none) :
    (startPrepared env mode prepared).2.reqTable.lookup q ≠ none := by
  have hcontent := hprep.content
  unfold startPrepared at hok ⊢
  split
  case h_1 e he =>
    rw [he] at hok
    exact nomatch hok
  case h_2 r prompt' spec lookup hr =>
    rw [hr] at hcontent
    obtain ⟨-, hq, -⟩ := hcontent
    have hseq : (setupAdmissionPath env (setupSpec env prepared.2 r spec).2
        (setupSpec env prepared.2 r spec).1 mode prompt' lookup).1.seqId = q :=
      (seqId_of_terms ((setupSpec_frame env prepared.2 r spec).1.trans
        (setupAdmissionPath_frame env _ _ mode prompt' lookup).standing).terms).trans hq
    unfold installReq
    dsimp only
    rw [lookup_putReq, if_pos hseq.symm]
    exact nofun
  case h_3 r hr =>
    rw [hr] at hcontent
    obtain ⟨-, hq, -⟩ := hcontent
    rw [lookup_putReq, if_pos hq.symm]
    exact nofun

omit [LinearOrder Sid] in
/-- The two outcomes of a start. -/
theorem startAdmission_outcome (phase : Phase) (frm : From) {due : From × CallKind} {q : SeqId}
    {sid : Option Sid} {prompt : List Token}
    {prepared : Except Err (Prepared Sid) × Data σ γ Sid} (hfree : d.reqTable.lookup q = none)
    (hprep : PreparedOk env d q sid prompt prepared) (hhands : HandsOver due d prepared)
    (mode : AdmitMode) (onError : Data σ γ Sid → Data σ γ Sid)
    (herror : ∀ d, (onError d).pending = d.pending ∧ (onError d).reqTable = d.reqTable ∧
      (onError d).sys.ticks = d.sys.ticks) :
    Admission phase d (startAdmission phase frm (startPrepared env mode prepared) onError) := by
  obtain ⟨herr, hok⟩ := startPrepared_asked hfree mode (hprep.prepares hhands)
  unfold startAdmission
  split
  case h_1 h =>
    obtain ⟨hasked, hpending⟩ := hok h
    exact .started hpending (Nat.lt_succ_of_le (Nat.le_of_eq hasked.ticks.symm)) hfree
      (startPrepared_inTable hprep mode h)
  case h_2 e h =>
    obtain ⟨hturn, htable, hpending⟩ := herr e h
    obtain ⟨hp, ht, hticks⟩ := herror (startPrepared env mode prepared).2
    exact .refused (hp.trans hpending) (ht.trans htable) (hticks.trans hturn.ticks)

/-- What an arriving request does: it is admitted or refused, or it waits because all seqs are
    held. -/
inductive Arrival (phase : Phase) (d : Data σ γ Sid) (item : Item Sid) : Proc σ γ Sid → Prop
  | decided {p' : Proc σ γ Sid} (h : Admission phase d p') : Arrival phase d item p'
  | queued {d' : Data σ γ Sid} (hheld : AllHeld d') (hpending : d'.pending = d.pending)
      (htable : d'.reqTable = d.reqTable) (hticks : d'.sys.ticks = d.sys.ticks) :
    Arrival phase d item
      ⟨if d.reqTable.entries = [] then .idle else phase, enqueue d' item⟩

/-- Functions that only free seqs. -/
structure Frees (d d' : Data σ γ Sid) : Prop where
  pending : d'.pending = d.pending
  table : d'.reqTable = d.reqTable
  ticks : d'.sys.ticks = d.sys.ticks

omit [LinearOrder Sid] in
/-- An admission after a seq was freed. -/
theorem Admission.after {phase : Phase} {d d' : Data σ γ Sid} {p : Proc σ γ Sid}
    (h : Frees d d') (hp : Admission phase d' p) : Admission phase d p := by
  cases hp with
  | started hpending hticks hfree hheld =>
    exact .started (hpending.trans h.pending) (h.ticks ▸ hticks) (h.table ▸ hfree) hheld
  | refused hpending htable hticks =>
    exact .refused (hpending.trans h.pending) (htable.trans h.table) (hticks.trans h.ticks)

/-- An arrival after a seq was freed. -/
theorem Arrival.after {phase : Phase} {d d' : Data σ γ Sid} {item : Item Sid}
    {p : Proc σ γ Sid} (h : Frees d d') (hp : Arrival phase d' item p) :
    Arrival phase d item p := by
  cases hp with
  | decided hp => exact .decided (hp.after h)
  | queued hheld hpending htable hticks =>
    rw [h.table]
    exact .queued hheld (hpending.trans h.pending) (htable.trans h.table)
      (hticks.trans h.ticks)

/-- Finding a seq for an admission only frees others. -/
theorem resolveAdmissionSeq_frees {d d' : Data σ γ Sid} {item : Item Sid}
    (hres : resolveAdmissionSeq env d item = .normal d') : Frees d d' := by
  unfold resolveAdmissionSeq resolveStickyContinuation at hres
  split at hres
  · cases hres
    exact ⟨rfl, rfl, rfl⟩
  · split at hres
    · cases hres
      exact ⟨rfl, rfl, rfl⟩
    · split at hres
      · exact nomatch hres
      · dsimp only at hres
        split at hres
        · exact nomatch hres
        · split at hres
          · exact nomatch hres
          · cases hres
            exact ⟨rfl, rfl, (releaseSeq_mail env d.sys _).ticks⟩

/-- A request that needs a seq gets the one that can be taken. -/
theorem admitNormal_taken (hd : Wf env d) (phase : Phase) (item : Item Sid) {q : SeqId}
    {d' : Data σ γ Sid} (halloc : allocSeq env d none = some (q, d')) :
    Admission phase d (admitNormal env d phase item) := by
  obtain ⟨hturn, htable, hpending⟩ := allocSeq_turn env halloc
  unfold admitNormal
  rw [halloc]
  have houtcome := startAdmission_outcome phase item.frm (allocSeq_free hd halloc)
    (prepareRequest_ok env d' item q)
    (prepareRequest_hands env d' item q) .normal
    (fun d => { d with idleSeqIds := q :: d.idleSeqIds }) fun d => ⟨rfl, rfl, rfl⟩
  exact houtcome.after ⟨hpending, htable, hturn.ticks⟩

/-- A text request arrives: it starts, or it waits. -/
theorem admitNormal_arrival (hd : Wf env d) (phase : Phase) (item : Item Sid) :
    Arrival phase d item (admitNormal env d phase item) := by
  cases halloc : allocSeq env d none with
  | some taken => exact .decided (admitNormal_taken hd phase item halloc)
  | none =>
    unfold admitNormal
    rw [halloc]
    dsimp only
    split
    · exact .decided (.refused rfl rfl rfl)
    · exact .queued (allocSeq_eq_none_iff.mp halloc) rfl rfl rfl

/-- **A request that arrives at the queue.** -/
theorem admitRequest_arrival (hd : Wf env d) (phase : Phase) (item : Item Sid) :
    Arrival phase d item (admitRequest env d phase item) := by
  have hspec := resolveAdmissionSeq_spec env (G := .free) d item
  unfold admitRequest
  split
  case h_1 q mode hres =>
    rw [hres] at hspec
    obtain ⟨sid, s, -, -, hfree, rfl, -⟩ := hspec
    exact .decided (startAdmission_outcome _ _ hfree (prepareRequest_ok env d item s.seqId)
      (prepareRequest_hands env d item s.seqId) mode _ fun d => ⟨rfl, rfl, rfl⟩)
  case h_2 d' hres =>
    rw [hres] at hspec
    exact (admitNormal_arrival (Moves.wf hspec hd) phase item).after
      (resolveAdmissionSeq_frees hres)
  case h_3 => exact .decided (.refused rfl rfl rfl)

variable (env) in
/-- A continuation never waits. -/
theorem admitContinue_outcome (phase : Phase) (frm : From) (suffix : List Token)
    (opts : ContinueOpts Sid) :
    Admission phase d (admitContinue env d phase frm suffix opts) := by
  unfold admitContinue
  split
  case h_1 => exact .refused rfl rfl rfl
  case h_2 s hs =>
    split
    case isTrue => exact .refused rfl rfl rfl
    case isFalse hbusy =>
      have hfree := (inFlight_eq_false_iff d s.seqId).mp (Bool.eq_false_iff.mpr hbusy)
      split
      case h_1 => exact .refused rfl rfl rfl
      case h_2 =>
        exact startAdmission_outcome _ _ hfree
          (prepareContinue_ok env d frm suffix opts s.seqId s.tokens)
          (prepareContinue_hands env d frm suffix opts s.seqId s.tokens) (.continue s.tokens)
          _ fun d => ⟨rfl, rfl, rfl⟩

end Serve

end Erllama.Model
