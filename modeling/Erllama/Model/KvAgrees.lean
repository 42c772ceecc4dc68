import Erllama.Model.MapBackend

namespace Erllama.Model

open Lib

/-!
# The KV and the bookkeeping agree

Runs of text requests with no thinking results and no verify or embed calls.  Between any two
events, the KV of a request in flight is its context, and the KV of a session at rest is its
tokens, however the request was admitted and however far its last tick got.

* `PlainStep` — the steps of such runs.
* `run_kvAgrees` — the agreement, where only recurrent and hybrid memories refuse partial
  removals.
-/

variable {σ γ Sid : Type}

/-- A text request. -/
def Item.IsText : Item Sid → Prop
  | .complete _ _ _      => True
  | .prefillOnly _ _ _   => True
  | .infer _ _ _ _       => True
  | .completeMedia _ _ _ => False
  | .inferMedia _ _ _ _  => False

/-- A result of the thinking track. -/
def IsThinking : StepResult → Prop
  | .thinkingToken _ => True
  | .thinkingEnd     => True
  | .token _ _ _     => False
  | .prefilled       => False

/-- The guard of plain runs. -/
def plainGuard : Guard σ γ Sid :=
  { Guard.free with
    enqueue := Item.IsText
    startMedia := fun _ _ => False
    results := fun _ pairs => ∀ pair ∈ pairs, ¬ IsThinking pair.2
    inspect := fun _ => False }

variable [LinearOrder Sid] {env : Env σ γ}

/-- The steps of a plain run: requests are for text, no verify or embed call is made, and a tick
    brings no result of the thinking track. -/
def PlainStep (env : Env σ γ) (p : Proc σ γ Sid) : Event Sid → Prop
  | .request item    => item.IsText
  | .verify _ _ _ _  => False
  | .embed _ _       => False
  | .embedBatch _ _  => False
  | .tick => p.data.sys.ticks ≠ 0 → p.phase = .running →
      BodyOk env plainGuard (takeTick p.data)
  | _ => True

/-! ### The guard of plain runs is met -/

omit [LinearOrder Sid] in
/-- A text request is never prepared as a media request. -/
theorem prepareRequest_text {item : Item Sid} (h : item.IsText) (d : Data σ γ Sid) (q : SeqId)
    (r : Req Sid) : (prepareRequest env d item q).1 ≠ .ok (.media r) := by
  unfold prepareRequest
  cases item with
  | completeMedia frm prompt opts => exact h.elim
  | inferMedia frm prompt opts pid => exact h.elim
  | prefillOnly frm tokens opts => nofun
  | complete frm prompt opts =>
    dsimp only
    split <;> nofun
  | infer frm tokens opts pid =>
    dsimp only
    split <;> nofun

omit [LinearOrder Sid] in
/-- A text request may start. -/
theorem plain_startOk {item : Item Sid} (h : item.IsText) (d : Data σ γ Sid) (q : SeqId) :
    StartOk env plainGuard d item q := by
  unfold StartOk PreparedGuard
  split
  case h_1 => trivial
  case h_2 r hr => exact absurd hr (prepareRequest_text h d q r)
  case h_3 => trivial

omit [LinearOrder Sid] in
/-- Every request may resume. -/
theorem plain_pinnedGuard (prepared : Except Err (Prepared Sid) × Data σ γ Sid) :
    PinnedGuard env plainGuard prepared := by
  unfold PinnedGuard
  split <;> trivial

/-- A queue of text requests may be dispatched. -/
theorem plain_dispatchOk {items : List (Item Sid)} (h : ∀ item ∈ items, item.IsText)
    (d : Data σ γ Sid) : DispatchOk env plainGuard items d := by
  induction items generalizing d with
  | nil => trivial
  | cons item rest ih =>
    unfold DispatchOk
    split
    · trivial
    · exact ⟨plain_startOk (h item List.mem_cons_self) _ _,
        ih (fun item' h' => h item' (List.mem_cons_of_mem item h')) _⟩

/-- A text request may come in. -/
theorem plain_admitOk {item : Item Sid} (h : item.IsText) (d : Data σ γ Sid) :
    AdmitOk env plainGuard d item := by
  unfold AdmitOk
  split
  · exact plain_pinnedGuard _
  · split
    · exact plain_startOk h _ _
    · exact h
  · trivial

/-- Every queued request is for text. -/
def QueuesText (d : Data σ γ Sid) : Prop := ∀ item ∈ d.pending, item.IsText

/-- Moves of a plain run queue text requests only. -/
theorem Moves.queuesText {d d' : Data σ γ Sid} (h : Moves env plainGuard d d') (hd : Wf env d)
    (hq : QueuesText d) : QueuesText d' := by
  induction h with
  | refl => exact hq
  | tail hmoves hmove ih =>
    intro item hitem
    exact (hmove.pending (Moves.wf hmoves hd).table item hitem).elim (ih item) id

/-- A step of a plain run meets the guard. -/
theorem PlainStep.stepOk {p : Proc σ γ Sid} {e : Event Sid} (hp : Wf env p.data)
    (hq : QueuesText p.data) (h : PlainStep env p e) : StepOk env plainGuard p e := by
  intro _
  cases e with
  | request item => exact plain_admitOk h p.data
  | «continue» frm suffix opts => exact fun _ _ => plain_pinnedGuard _
  | tick =>
    intro hticks hrunning
    refine ⟨h hticks hrunning, fun d' hbody => ⟨.of_forall (fun _ _ => trivial) _ _, ?_⟩,
      fun _ _ _ _ => trivial⟩
    -- The queue holds what it held before the tick.
    have htake : Moves env plainGuard p.data (takeTick p.data) := takeTick_moves p.data
    have hbodyMoves := tickBody_ends (Moves.wf htake hp) (h hticks hrunning)
    rw [hbody] at hbodyMoves
    have hmoves : Moves env plainGuard p.data d' := htake.trans hbodyMoves
    have hmark : Moves env plainGuard p.data (markTerminal d') :=
      hmoves.trans (markTerminal_moves (Moves.wf hmoves hp))
    have hall : Moves env plainGuard p.data (finishMarkedReqs env (markTerminal d')) :=
      hmark.trans (finishMarkedReqs_moves (Moves.wf hmark hp)
        (.of_forall (fun _ _ => trivial) _ _))
    have htext := Moves.queuesText hall hp hq
    exact ⟨htext, plain_dispatchOk htext _⟩
  | verify => exact h.elim
  | embed => exact h.elim
  | embedBatch => exact h.elim
  | evict => exact fun _ _ => trivial
  | shutdown => exact fun _ _ => trivial
  | forkSession => exact fun _ _ _ _ _ _ _ => trivial
  | _ => trivial

/-- The queue stays one of text requests. -/
theorem Steps.queuesText {p p' : Proc σ γ Sid} (h : Steps env plainGuard p p')
    (hp : Wf env p.data) (hq : QueuesText p.data) : QueuesText p'.data := by
  cases h with
  | live hmoves => exact Moves.queuesText hmoves hp hq
  | halted hmoves hhalt =>
    have htext := Moves.queuesText hmoves hp hq
    unfold QueuesText
    rw [(hhalt.refreshes (Moves.wf hmoves hp).table).pending]
    exact htext

/-- A plain run meets the guard at every step. -/
theorem plainRun_stepOk {ctx : σ} {world : γ} {events : List (Event Sid)}
    (h : AllSteps (step env) (PlainStep env) (init env ctx world) events) :
    AllSteps (step env) (StepOk env plainGuard) (init env ctx world) events := by
  have hinit : Wf env (init env ctx world : Proc σ γ Sid).data ∧
      QueuesText (init env ctx world : Proc σ γ Sid).data :=
    ⟨wf_init ctx world, fun _ hitem => nomatch hitem⟩
  have hstep : ∀ (p : Proc σ γ Sid) (e : Event Sid), Wf env p.data ∧ QueuesText p.data →
      PlainStep env p e → Wf env (step env p e).data ∧ QueuesText (step env p e).data :=
    fun p e hp he =>
      ⟨step_wf hp.1 e, (step_steps hp.1 (he.stepOk hp.1 hp.2)).queuesText hp.1 hp.2⟩
  exact AllSteps.imp_of_invariant hstep (fun p e hp he => he.stepOk hp.1 hp.2) hinit h

/-! ### No media request is in flight -/

omit [LinearOrder Sid] in
/-- A commit keeps its request. -/
theorem commitSpec_ident {d d' : Data σ γ Sid} {q : SeqId} {draft : List Token}
    {res : SpecResult} {r : Req Sid} (hr : d.reqTable.lookup q = some r) (hq : r.seqId = q)
    (h : commitSpec env d q draft res = .stepped d') :
    ∀ r', d'.reqTable.lookup q = some r' → SameIdent r r' := by
  have hcommitted : Committed env q r res.committed d
      (applySpecCommitted env q res.eog res.committed d) := applySpecCommitted_committed hr hq
  obtain ⟨-, leftover, r₁, hleft, hr₁, hident, -⟩ := hcommitted
  have hfeedback : ∀ {d₁ : Data σ γ Sid}, d₁.reqTable.lookup q = some r₁ → ∀ r',
      (specRecordFeedback env d₁ q draft.length res.nAcc).reqTable.lookup q = some r' →
        SameIdent r r' := by
    intro d₁ hd₁ r' hr'
    unfold specRecordFeedback at hr'
    dsimp only at hr'
    rw [show (withSys d₁ (specAccept env d₁ q res.nAcc)).reqTable.lookup q = some r₁ from hd₁]
      at hr'
    dsimp only at hr'
    rw [lookup_putReq, if_pos (hident.seqId.trans hq).symm] at hr'
    cases hr'
    exact hident.trans ⟨rfl, rfl, rfl, rfl, rfl, id⟩
  unfold commitSpec at h
  dsimp only at h
  rw [hleft] at h
  cases h
  split
  · exact hfeedback hr₁
  · refine hfeedback ?_
    unfold specTrimOvershoot
    rw [hr₁]
    exact hr₁

/-- The contract that no media request is in flight. -/
def noMediaContract {κ : Type} (M : KvModel env.be κ) :
    Contract env (plainGuard : Guard σ γ Sid) M where
  side := fun _ _ _ => True
  inFlight := fun r _ => r.media = none
  stored := fun _ _ => True
  entry := fun _ => True
  clean := False
  side_move := fun _ _ => trivial
  core := fun hcore hmedia => hcore.media.trans hmedia
  start := fun {d r lookup} _ hfresh _ prompt =>
    (setupAdmissionPath_admits env d r .normal prompt lookup).same.media.trans hfresh.media
  startMedia := fun _ _ hG => hG.elim
  resume := fun {d r _ prompt mode} _ hfresh _ _ _ lookup =>
    (setupAdmissionPath_admits env d r mode prompt lookup).same.media.trans hfresh.media
  results := by
    intro d ops results x pairs _ _ _ _ q op res r _ _ _ _ _ _ hmedia d' out _ hout
    have hident := (stepResult_applies env d' r hout).ident
    exact ⟨hident.media.trans hmedia, fun _ _ => .inr trivial⟩
  commit := by
    intro d d' cb sampler q r draft res x _ _ hr hq _ _ _ _ hcommit hmedia
    refine ⟨fun r' hr' => ?_, fun _ _ => .inr trivial⟩
    have hident := commitSpec_ident (d := withCtx d x) hr hq hcommit r' hr'
    exact hident.media.trans hmedia
  prefill := fun _ _ _ _ _ hmedia => hmedia
  save := fun _ _ _ => trivial
  evict := fun _ _ _ _ _ => trivial
  keep := fun _ _ => trivial
  pin := fun _ => trivial
  inspect := fun _ _ hG => hG.elim
  inspect_clean := fun _ hG => hG.elim
  fork := fun _ _ _ _ _ _ => trivial

/-! ### The agreement -/

/-- Some copy may leave cells of its target beside those of its source. -/
def CopiesAdd {κ : Type} (M : KvModel env.be κ) : Prop := ∃ x src dst, M.kept x src dst ≠ []

/-- What a plain run owes the token contract.  With no verify or embed call nothing is decoded
    on an idle seq, so that copies into one find it empty. -/
theorem plain_tokenGuard (M : TokenModel env.be) :
    TokenGuard M (plainGuard : Guard σ γ Sid) (fun _ : Entry σ Sid => True)
      (CopiesAdd M.toKvModel) where
  results := by
    intro d pairs h pair hpair r _ _
    have hnot := h pair hpair
    generalize pair.2 = res at hnot
    cases res with
    | token tok eog lp => trivial
    | prefilled => trivial
    | thinkingToken tok => exact absurd trivial hnot
    | thinkingEnd => exact absurd trivial hnot
  commit := fun _ => .inl fun _ => trivial
  evict := fun _ _ => .inl fun _ => trivial
  inspect := fun h => h.elim
  inspect_clean := fun _ h => h.elim
  fork := fun {x src dst} _ hclean => by
    by_contra hkept
    exact hkept (M.kept_of_empty (hclean ⟨x, src, dst, hkept⟩))

/-- What the bookkeeping of a live process says about its KV. -/
structure KvAgrees (M : TokenModel env.be) (d : Data σ γ Sid) : Prop where
  requests : ∀ q r, d.reqTable.lookup q = some r → M.cells d.sys.ctx q = r.contextTokens
  sessions : ∀ sid s, d.sessionSeq.lookup sid = some s → d.reqTable.lookup s.seqId = none →
    M.cells d.sys.ctx s.seqId = s.tokens

/-- **The KV agrees with the bookkeeping** throughout a plain run, from a fresh context where
    copies may add to their target. -/
theorem run_kvAgrees (M : TokenModel env.be) (hrows : RowsCarryTokens M)
    (htrim : TrimsUnlessRecurrent env) (ctx : σ)
    (hctx : CopiesAdd M.toKvModel → ∀ q, M.cells ctx q = []) (world : γ)
    (events : List (Event Sid))
    (h : AllSteps (step env) (PlainStep env) (init env ctx world) events)
    (hlive : (run (step env) (init env ctx world) events).phase ≠ .stopped) :
    KvAgrees M (run (step env) (init env ctx world) events).data := by
  have hok := plainRun_stepOk h
  have htokens := (Contract.run_holds
    (C := tokenContract M hrows htrim (fun _ _ => trivial) (plain_tokenGuard M)) trivial hctx
    hok).live hlive
  have htext := (Contract.run_holds (C := noMediaContract M.toKvModel) trivial False.elim
    hok).live hlive
  exact ⟨fun q r hr => htokens.requests q r hr (htext.requests q r hr), htokens.sessions⟩

/-! ### Small runs -/

omit [LinearOrder Sid] in
/-- A step of the map backend that samples no thinking results brings none, and a commit is the
    one it always commits. -/
theorem mapEnv_bodyOk {p : MapParams} {G : Guard MapCtx Unit Sid}
    (hsample : ∀ tokens, ¬ IsThinking (p.sample tokens)) (hprefill : ∀ d r, G.prefill d r)
    (hcommit : ∀ d q, G.commit d q p.commit)
    (hresults : ∀ d pairs, (∀ pair ∈ pairs, ¬ IsThinking pair.2) → G.results d pairs)
    (c : MapCache) (n : Nat) (d : Data MapCtx Unit Sid) : BodyOk (mapEnv p c n) G d := by
  have hrow : ∀ (x : MapCtx) (q : SeqId) (op : Op), ¬ IsThinking (rowResult p x q op) := by
    intro x q op
    cases op with
    | prefill slice => exact id
    | decode ref => exact hsample _
  unfold BodyOk
  dsimp only
  split
  case h_1 => exact hprefill _ _
  case h_2 =>
    split
    case h_1 r draft _ =>
      intro d' res hspec
      unfold specResult at hspec
      split at hspec
      case h_2 => exact nomatch hspec
      case h_1 cb sampler hcb _ =>
        cases hcb
        obtain ⟨rfl, rfl⟩ := Prod.mk.inj (Option.some.inj hspec)
        exact hcommit _ _
    case h_2 =>
      intro d' pairs hpairs
      refine hresults d' pairs fun pair hpair => ?_
      unfold stepResults at hpairs
      split at hpairs
      case h_1 => exact nomatch hpairs
      case h_2 => exact nomatch hpairs
      case h_3 ops _ _ =>
        dsimp only at hpairs
        split at hpairs
        case h_2 => exact nomatch hpairs
        case h_1 results hstep =>
          obtain ⟨pairs', hspec, heq⟩ := Option.map_eq_some_iff.mp hpairs
          obtain ⟨-, rfl⟩ := Prod.mk.inj heq
          have hresult := (Contract.pairOpsWithResults_spec hspec).2 pair hpair
          replace hstep : (mapStep p _ ops).1 = .ok results := hstep
          unfold mapStep at hstep
          split at hstep
          case isTrue => exact nomatch hstep
          case isFalse =>
            cases hstep
            obtain ⟨op, -, hop⟩ := List.mem_map.mp hresult
            rw [← (Prod.mk.inj hop).2]
            exact hrow _ op.1 op.2

/-- A request in session 0, with speculation, that stops at the byte 8. -/
def stoppingRequest : Item Nat :=
  .complete 0 [65] ⟨⟨some 8, [[8]], false, none, ⟨0, []⟩⟩, some 0, none, none,
    some ⟨none, none, none⟩, .block⟩

/-- It prefills, decodes one token, and speculates once. -/
def stoppingRun : List (Event Nat) := [.request stoppingRequest, .tick, .tick, .tick]

/-- Requests for text and ticks of such a backend make a plain run. -/
theorem mapRun_plain {p : MapParams} (hsample : ∀ tokens, ¬ IsThinking (p.sample tokens))
    {c : MapCache} {n : Nat} {events : List (Event Sid)}
    (h : ∀ e ∈ events, e = .tick ∨ ∃ item, e = .request item ∧ item.IsText)
    (proc : Proc MapCtx Unit Sid) :
    AllSteps (step (mapEnv p c n)) (PlainStep (mapEnv p c n)) proc events := by
  induction events generalizing proc with
  | nil => trivial
  | cons e events ih =>
    refine ⟨?_, ih (fun e' he' => h e' (List.mem_cons_of_mem e he')) _⟩
    rcases h e List.mem_cons_self with rfl | ⟨item, rfl, htext⟩
    · exact fun _ _ => mapEnv_bodyOk hsample (fun _ _ => trivial) (fun _ _ => trivial)
        (fun _ _ => id) c n _
    · exact htext

/-- The events of the run. -/
theorem stoppingRun_events :
    ∀ e ∈ stoppingRun, e = .tick ∨ ∃ item, e = .request item ∧ item.IsText := by
  intro e he
  rcases List.mem_cons.mp he with rfl | hticks
  · exact .inr ⟨_, rfl, trivial⟩
  · exact .inl (List.eq_of_mem_replicate (n := 3) hticks)

/-- The tokens of a model process over the map backend. -/
def mapEnvModel (p : MapParams) (c : MapCache) (n : Nat) : TokenModel (mapEnv p c n).be :=
  mapTokenModel p

/-- An empty cache has no row without tokens. -/
theorem empty_rowsCarryTokens (p : MapParams) (n : Nat) :
    RowsCarryTokens (mapEnvModel p .empty n) := by
  intro w key holder tier tokensBin w' hclaimed
  obtain ⟨tokens, hrow, -⟩ := mapCache_claimed (c := .empty) hclaimed
  exact nomatch hrow

/-- A speculative step commits `[8, 9]`, and the stop matches at its first token. -/
def overshootParams : MapParams :=
  { plainParams with
    draft := [8, 9]
    commit := ⟨[8, 9], false, 2⟩ }

/-- Where removals succeed, the overshoot is rolled back and the session rests on `[65, 7, 8]`. -/
theorem run_kvAgrees_overshoot :
    KvAgrees (mapEnvModel overshootParams .empty 1)
      (run (step (mapEnv overshootParams .empty 1)) (mapProc overshootParams .empty 1)
        stoppingRun).data :=
  run_kvAgrees (mapEnvModel overshootParams .empty 1) (empty_rowsCarryTokens _ _)
    (fun _ _ _ hf _ _ _ => by cases hf; rfl) .empty (fun _ _ => rfl) () stoppingRun
    (mapRun_plain (fun _ => id) stoppingRun_events _) (by decide)

/-- The same backend when it refuses partial removals. -/
def refusingParams : MapParams := { overshootParams with trims := false }

/-- A refused removal leaves the session's KV one token longer than its tokens. -/
theorem refusedTrim_disagrees :
    AllSteps (step (mapEnv refusingParams .empty 1)) (PlainStep (mapEnv refusingParams .empty 1))
        (mapProc refusingParams .empty 1) stoppingRun ∧
      RowsCarryTokens (mapEnvModel refusingParams .empty 1) ∧
      ¬ KvAgrees (mapEnvModel refusingParams .empty 1)
        (run (step (mapEnv refusingParams .empty 1)) (mapProc refusingParams .empty 1)
          stoppingRun).data := by
  refine ⟨mapRun_plain (fun _ => id) stoppingRun_events _, empty_rowsCarryTokens _ _, fun h => ?_⟩
  have hsession := h.sessions 0 ⟨0, [65, 7, 8], 0⟩ rfl rfl
  exact absurd hsession (by decide)

end Erllama.Model
