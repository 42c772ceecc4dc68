import Erllama.Model.Cancelled
import Erllama.Model.Life
import Erllama.Model.StopScan
import Erllama.Model.Unarmed

namespace Erllama.Model

open Lib

/-!
# What leaves the speculator alone

Few functions call the speculator.  The others are functions of a process whose backend does not
speculate, and what they do to a request is to let it generate.

* `Env.plain` — the process with such a backend.
* `Carries` — the record of a request later on, with no other prompt and maybe more tokens.
* `Req.Bounded` — no more is generated than was asked for.
* `SpecView`, `Leaves` — what of the context the speculator's calls alone change, and that a
  function does not.
* `handleEvent_leaves` — the events that are neither admissions nor ticks.
-/

variable {σ γ Sid : Type}

/-- The same with a backend that does not speculate. -/
def Env.plain (env : Env σ γ) : Env σ γ := { env with be := { env.be with spec := none } }

section Frame

variable (env : Env σ γ)

/-- The probe of the cache does not speculate. -/
theorem probeTextPrefix_plain (fp : Digest) (qt : QuantType) (ctxHash : Digest) (bytes : Bytes)
    (lens : List Nat) (w : γ) :
    probeTextPrefix env.plain fp qt ctxHash bytes lens w
      = probeTextPrefix env fp qt ctxHash bytes lens w := by
  induction lens generalizing w with
  | nil => rfl
  | cons len lens ih =>
    unfold probeTextPrefix
    dsimp only
    rw [ih]
    rfl

/-- Nor does the search for the suffix. -/
theorem resumeSuffix_plain (tokens : List Token) (bytes : Bytes) (n : Nat) :
    resumeSuffix env.plain tokens bytes n = resumeSuffix env tokens bytes n := by
  with_unfolding_all rfl

/-- Nor does any admission path. -/
theorem setupAdmissionPath_plain (d : Data σ γ Sid) (r : Req Sid) (mode : AdmitMode)
    (prompt : List Token) (opts : LookupOpts) :
    setupAdmissionPath env.plain d r mode prompt opts
      = setupAdmissionPath env d r mode prompt opts := by
  unfold setupAdmissionPath setupLookup lookupOrResume trySessionResume
    resumeSessionOrFallthrough tryLongestPrefix lookupLongestTextPrefix resumeAtPrefix
  simp only [probeTextPrefix_plain, resumeSuffix_plain]
  rfl

end Frame

/-! ### What a request brings to the speculator -/

/-- The prompt of a request, its speculation, and how much of it the speculator has seen. -/
structure Speculation where
  seqId : SeqId
  promptTokens : List Token
  spec : Option SpecCfg
  promptLen : Nat
  cursor : Nat

/-- The speculation of a record. -/
def Req.speculation (r : Req Sid) : Speculation where
  seqId := r.seqId
  promptTokens := r.promptTokens
  spec := r.spec
  promptLen := r.specPromptLen
  cursor := r.specCursor

/-- No more is generated than was asked for, and less while the request goes on. -/
def Req.Bounded (r : Req Sid) : Prop :=
  0 < r.responseTarget → r.generated.length ≤ r.responseTarget ∧
    (r.finishing = false → r.generated.length < r.responseTarget)

/-- Another record of a request, which may have generated more. -/
structure Carries (r r' : Req Sid) : Prop where
  speculation : r'.speculation = r.speculation
  generated : r.generated <+: r'.generated
  bounded : r.Bounded → r'.Bounded

/-- Nothing happened. -/
theorem Carries.refl (r : Req Sid) : Carries r r := ⟨rfl, List.prefix_refl _, id⟩

/-- A record with no new token, and no earlier end. -/
theorem carries_of_scan {r r' : Req Sid} {f c n : Bool} (hspec : r'.speculation = r.speculation)
    (hscan : r'.scan = { r.scan with finishing := f, cancelled := c, refused := n })
    (hf : r.finishing = true → f = true) : Carries r r' := by
  have hgen : r'.generated = r.generated := congrArg Scan.generated hscan
  have htarget : r'.responseTarget = r.responseTarget := congrArg Scan.target hscan
  have hfin : r'.finishing = f := congrArg Scan.finishing hscan
  refine ⟨hspec, hgen ▸ List.prefix_refl _, fun hr hpos => ?_⟩
  rw [hgen, htarget, hfin]
  obtain ⟨hle, hlt⟩ := hr (htarget ▸ hpos)
  refine ⟨hle, fun hgoes => hlt (Bool.eq_false_iff.mpr fun hdone => ?_)⟩
  rw [hf hdone] at hgoes
  exact nomatch hgoes

/-- One more token on a request that goes on: at its target it ends. -/
theorem carries_of_token {r r' : Req Sid} {tok : Token} (hspec : r'.speculation = r.speculation)
    (hgoes : r.finishing = false) (hgen : r'.generated = r.generated ++ [tok])
    (htarget : r'.responseTarget = r.responseTarget)
    (hfin : r.responseTarget ≤ (r.generated ++ [tok]).length → r'.finishing = true) :
    Carries r r' := by
  refine ⟨hspec, hgen ▸ List.prefix_append _ _, fun hr hpos => ?_⟩
  rw [htarget] at hpos
  have hlt := (hr hpos).2 hgoes
  rw [hgen, htarget]
  rw [List.length_append, List.length_singleton] at hfin ⊢
  refine ⟨hlt, fun hnot => ?_⟩
  by_contra hge
  rw [hfin (not_lt.mp hge)] at hnot
  exact nomatch hnot

/-! ### New records -/

/-- A record that neither speculates nor has generated anything. -/
structure Req.New (r : Req Sid) : Prop where
  spec : r.spec = none
  generated : r.generated = []

/-- A new record has generated nothing yet. -/
theorem Req.New.bounded {r : Req Sid} (h : r.New) : r.Bounded := by
  intro hpos
  rw [h.generated]
  exact ⟨Nat.zero_le _, fun _ => hpos⟩

/-- The record of a prepared request. -/
def Prepared.record : Prepared Sid → Req Sid
  | .text r _ _ _ => r
  | .media r      => r

section New

variable (env : Env σ γ) {d : Data σ γ Sid} {q : SeqId} {prepared : Prepared Sid}

/-- What a media request is prepared to is new. -/
theorem prepareMedia_new {frm : From} {pid : Option Pid} {prompt : Bytes} {opts : MediaOpts}
    (h : (prepareMedia env d q frm pid prompt opts).1 = .ok prepared) : prepared.record.New := by
  unfold prepareMedia at h
  split at h
  · exact nomatch h
  · dsimp only at h
    split at h
    · exact nomatch h
    · split at h
      all_goals
        cases h
        exact ⟨rfl, rfl⟩

/-- So is what a queued request is prepared to. -/
theorem prepareRequest_new {item : Item Sid}
    (h : (prepareRequest env d item q).1 = .ok prepared) : prepared.record.New := by
  unfold prepareRequest at h
  split at h
  case h_1 | h_2 => exact prepareMedia_new env h
  case h_3 | h_5 =>
    dsimp only at h
    split at h
    · exact nomatch h
    · cases h
      exact ⟨rfl, rfl⟩
  case h_4 =>
    cases h
    exact ⟨rfl, rfl⟩

/-- So is what a continuation is prepared to. -/
theorem prepareContinue_new {frm : From} {suffix stored : List Token} {opts : ContinueOpts Sid}
    (h : (prepareContinue env d frm suffix opts q stored).1 = .ok prepared) :
    prepared.record.New := by
  unfold prepareContinue at h
  dsimp only at h
  split at h
  · exact nomatch h
  · cases h
    exact ⟨rfl, rfl⟩

/-- The admission path sets the context of a request and its prefill up. -/
theorem Begins.carries {r r' : Req Sid} (h : Begins env r r') : Carries r r' := by
  cases h with
  | cold      => exact ⟨rfl, List.prefix_refl _, id⟩
  | resumed n => exact ⟨rfl, List.prefix_refl _, id⟩

end New

section Results

variable (env : Env σ γ) (d : Data σ γ Sid) (s : Sys σ γ Sid) (r : Req Sid)

/-- A save is no matter of the speculation. -/
theorem creditSave_speculation (fired : Bool) (tokens : List Token) :
    (creditSave fired r tokens).speculation = r.speculation := by
  cases fired <;> rfl

/-- Nor is a prefilled slice. -/
theorem prefilledResult_speculation (slice : List Token) :
    (prefilledResult env d r slice).1.speculation = r.speculation := by
  unfold prefilledResult
  dsimp only
  split
  · unfold maybeFireColdSave
    split
    · rfl
    · rfl
    · dsimp only
      split
      · unfold fireAgentPrefixSave
        dsimp only
        split <;> rfl
      · exact creditSave_speculation _ _ _
  · rfl

/-- Nor is what is streamed. -/
theorem reqStreamEmit_speculation (tok : Token) :
    (reqStreamEmit env s r tok).1.speculation = r.speculation := by
  unfold reqStreamEmit
  dsimp only
  split
  · rfl
  · split
    · rfl
    · split <;> rfl

/-- Nor is a token. -/
theorem tokenResult_speculation (tok : Token) (eog : Bool) :
    (tokenResult env d r tok eog).1.speculation = r.speculation := by
  have hemit := reqStreamEmit_speculation env d.sys (reqAppendToken r tok) tok
  unfold tokenResult
  dsimp only
  split
  · exact hemit
  · unfold maybeFireContinuedForReq
    split
    · exact hemit
    · dsimp only
      split
      · exact (creditSave_speculation _ _ _).trans hemit
      · exact hemit

/-- Nor is a thinking token. -/
theorem reqThinkingEmit_speculation (tok : Token) :
    (reqThinkingEmit env s r tok).1.speculation = r.speculation := by
  unfold reqThinkingEmit
  split
  · rfl
  · split
    · dsimp only
      split
      · rfl
      · unfold maybeCapThinking
        split
        · rfl
        · split <;> rfl
    · rfl

variable {d r}

/-- A token is one more, and the last one when the target is reached. -/
theorem tokenResult_carries (hgoes : r.finishing = false) (tok : Token) (eog : Bool) :
    Carries r (tokenResult env d r tok eog).1 := by
  obtain ⟨out, matched, pending, f, hscan, -, -, -, hfin⟩ := tokenResult_takes env d tok eog hgoes
  refine carries_of_token (tokenResult_speculation env d r tok eog) hgoes
    (congrArg Scan.generated hscan) (congrArg Scan.target hscan) fun hfull => ?_
  rw [show (tokenResult env d r tok eog).1.finishing = f from congrArg Scan.finishing hscan]
  exact hfin.mpr (.inr (.inl hfull))

/-- **One result of a step** on a request that goes on. -/
theorem stepResult_carries (hgoes : r.finishing = false) {op : Op} {res : StepResult}
    {after : Req Sid × Sys σ γ Sid} (h : stepResult env d r op res = some after) :
    Carries r after.1 := by
  unfold stepResult at h
  split at h
  case h_1 slice =>
    cases h
    exact carries_of_scan (prefilledResult_speculation env d r slice)
      (prefilledResult_scan env d r slice) id
  case h_2 tok eog lp =>
    cases h
    cases lp with
    | none => exact tokenResult_carries env hgoes tok eog
    | some p =>
      obtain ⟨logprobs, -, hrec, -⟩ := reqLogprobs_delivers d.sys r tok p
      unfold tokenLpResult
      dsimp only
      rw [hrec]
      -- the payload goes to the accumulator or the stream, and the token its way
      obtain ⟨hspec, hgen, hbound⟩ := tokenResult_carries env
        (d := withSys d (reqLogprobs d.sys r ⟨tok, p.sampled, p.top⟩).2)
        (r := { r with logprobsAcc := logprobs }) hgoes tok eog
      exact ⟨hspec, hgen, hbound⟩
  case h_3 tok =>
    split at h
    · cases h
      exact tokenResult_carries env hgoes tok false
    · cases h
      have hspec := reqThinkingEmit_speculation env d.sys r tok
      rcases (reqThinkingEmit_scan env d.sys r tok).1 with hscan | hscan
      · exact carries_of_scan hspec hscan id
      · exact carries_of_scan hspec hscan fun _ => rfl
  case h_4 =>
    cases h
    refine carries_of_scan ?_ (reqThinkingEnd_scan env d.sys r).1 id
    unfold reqThinkingEnd
    split <;> rfl
  case h_5 => exact nomatch h

end Results

/-! ### Functions that leave the speculator alone -/

/-- Something of the context that only the calls to make, to begin, to draft with and to free a
    speculator change. -/
structure SpecView (env : Env σ γ) (α : Type) extends CtxView env.plain.be α where
  verifyDraft : ∀ {cb}, env.be.spec = some cb → ∀ x sampler q draft,
    view (cb.step x sampler q draft).2 = view x
  accept : ∀ {cb}, env.be.spec = some cb → ∀ x ref q n, view (cb.accept x ref q n) = view x
  load : ∀ {f}, env.be.loadAdapter = some f → ∀ x path content,
    view (f x path content).2 = view x
  unload : ∀ {f}, env.be.unloadAdapter = some f → ∀ x ref, view (f x ref).2 = view x
  apply : ∀ {f}, env.be.applyAdapters = some f → ∀ x adapters, view (f x adapters).2 = view x
  reset : ∀ {f}, env.be.resetContext = some f → ∀ x, view (f x).2 = view x

variable {env : Env σ γ} {α : Type}

/-- Nothing that is seen of the context changed, the process has the same speculator, and what
    held of every request still does. -/
structure Leaves (V : SpecView env α) (P : Req Sid → Prop) (d d' : Data σ γ Sid) : Prop where
  view : V.view d'.sys.ctx = V.view d.sys.ctx
  spec : d'.spec = d.spec
  table : TableAll P d.reqTable → TableAll P d'.reqTable

section Leaves

variable {V : SpecView env α} {P : Req Sid → Prop} {d d' d'' : Data σ γ Sid}

/-- Doing nothing. -/
theorem Leaves.refl (d : Data σ γ Sid) : Leaves V P d d := ⟨rfl, rfl, id⟩

/-- One function after another. -/
theorem Leaves.trans (h : Leaves V P d d') (h' : Leaves V P d' d'') : Leaves V P d d'' :=
  ⟨h'.view.trans h.view, h'.spec.trans h.spec, h'.table ∘ h.table⟩

/-- A function that keeps the table. -/
theorem Leaves.of_table (hview : V.view d'.sys.ctx = V.view d.sys.ctx) (hspec : d'.spec = d.spec)
    (htable : d'.reqTable = d.reqTable) : Leaves V P d d' :=
  ⟨hview, hspec, fun h => htable ▸ h⟩

/-- Other requests are left. -/
theorem TableAll.sub {t t' : Table SeqId (Req Sid)} (h : TableAll P t)
    (hsub : ∀ q r, t'.lookup q = some r → t.lookup q = some r) : TableAll P t' :=
  fun q r hr => h q r (hsub q r hr)

variable (V) (hP : ∀ {r r'}, Carries r r' → P r → P r')

/-- **Fold rule.** A pass over the requests of the table. -/
theorem foldl_leaves {g : Data σ γ Sid → Req Sid → Data σ γ Sid}
    (hview : ∀ acc r, V.view (g acc r).sys.ctx = V.view acc.sys.ctx)
    (hspec : ∀ acc r, (g acc r).spec = acc.spec)
    (htable : ∀ acc r, P r → TableAll P acc.reqTable → TableAll P (g acc r).reqTable)
    (d : Data σ γ Sid) : Leaves V P d ((requests d.reqTable).foldl g d) := by
  have hfold : ∀ (rs : List (Req Sid)) (acc : Data σ γ Sid),
      V.view (rs.foldl g acc).sys.ctx = V.view acc.sys.ctx ∧ (rs.foldl g acc).spec = acc.spec ∧
        ((∀ r ∈ rs, P r) → TableAll P acc.reqTable → TableAll P (rs.foldl g acc).reqTable) := by
    intro rs
    induction rs with
    | nil => exact fun _ => ⟨rfl, rfl, fun _ => id⟩
    | cons r rs ih =>
      intro acc
      obtain ⟨hview', hspec', htable'⟩ := ih (g acc r)
      refine ⟨hview'.trans (hview acc r), hspec'.trans (hspec acc r), fun hmem hacc => ?_⟩
      exact htable' (fun r' hr' => hmem r' (List.mem_cons_of_mem r hr'))
        (htable acc r (hmem r List.mem_cons_self) hacc)
  obtain ⟨hview', hspec', htable'⟩ := hfold (requests d.reqTable) d
  refine ⟨hview', hspec', fun hall => htable' (fun r hr => ?_) hall⟩
  obtain ⟨q, hq⟩ := mem_requests.mp hr
  exact hall q r hq

include hP in
/-- A pass over the table that changes records for later ones. -/
theorem updateReqs_leaves {f : Req Sid → Option (Req Sid)}
    (hf : ∀ r r', f r = some r' → Carries r r') (d : Data σ γ Sid) :
    Leaves V P d (updateReqs f d) := by
  refine foldl_leaves V (fun acc r => ?_) (fun acc r => ?_) (fun acc r hr hacc => ?_) d
  · split <;> rfl
  · split <;> rfl
  · split
    case h_1 r' hr' => exact hacc.putReq (hP (hf r r' hr') hr)
    case h_2 => exact hacc

/-- A request that is marked as finishing. -/
theorem carries_finishing (r : Req Sid) : Carries r { r with finishing := true } :=
  carries_of_scan (f := true) rfl rfl fun _ => rfl

include hP in
/-- Cancelled requests are marked to finish. -/
theorem honourCancellations_leaves (d : Data σ γ Sid) : Leaves V P d (honourCancellations d) := by
  refine updateReqs_leaves V hP (fun r r' h => ?_) d
  split at h
  · cases h
    exact carries_finishing r
  · cases h

include hP in
/-- So are requests that only prefill. -/
theorem markTerminal_leaves (d : Data σ γ Sid) : Leaves V P d (markTerminal d) := by
  refine updateReqs_leaves V hP (fun r r' h => ?_) d
  split at h
  · cases h
    exact carries_finishing r
  · cases h

/-! ### The body of a tick -/

include hP in
/-- The results of a step are for requests that go on. -/
theorem applyStepResults_leaves {pairs : List ResultPair}
    (hnodup : (pairs.map fun pair => pair.1.1).Nodup) {d : Data σ γ Sid}
    (hkeys : KeysMatch d.reqTable)
    (hgoes : ∀ pair ∈ pairs, ∀ r, d.reqTable.lookup pair.1.1 = some r → r.finishing = false) :
    Leaves V P d (applyStepResults env pairs d).2 := by
  induction pairs generalizing d with
  | nil => exact .refl d
  | cons pair pairs ih =>
    obtain ⟨⟨q, op⟩, res⟩ := pair
    rw [List.map_cons, List.nodup_cons] at hnodup
    unfold applyStepResults
    split
    case h_1 => exact .refl d
    case h_2 r hr =>
      split
      case h_1 => exact .refl d
      case h_2 r' s hres =>
        have hcarries := stepResult_carries env (hgoes _ List.mem_cons_self r hr) hres
        have hctx : s.ctx = d.sys.ctx := (stepResult_applies env d r hres).fires.ctx
        have hfirst : Leaves V P d (putReq (withSys d s) r') :=
          ⟨congrArg V.view hctx, rfl, fun hall =>
            TableAll.putReq (d := withSys d s) hall (hP hcarries (hall q r hr))⟩
        have hseq : r'.seqId = q :=
          (congrArg Speculation.seqId hcarries.speculation).trans (hkeys q r hr)
        refine hfirst.trans (ih hnodup.2 (KeysMatch.putReq (d := withSys d s) hkeys r') ?_)
        intro pair hpair r'' hr''
        rw [lookup_putReq, hseq, if_neg] at hr''
        · exact hgoes pair (List.mem_cons_of_mem _ hpair) r'' hr''
        · rintro rfl
          exact hnodup.1 (List.mem_map_of_mem (f := fun pair => pair.1.1) hpair)

include hP in
/-- Committing tokens one by one. -/
theorem applySpecCommitted_leaves (q : SeqId) (eog : Bool) (tokens : List Token)
    (d : Data σ γ Sid) : Leaves V P d (applySpecCommitted env q eog tokens d).2 := by
  induction tokens generalizing d with
  | nil => exact .refl d
  | cons tok rest ih =>
    unfold applySpecCommitted
    split
    case h_1 => exact .refl d
    case h_2 r hr =>
      split
      case isTrue => exact .refl d
      case isFalse hfin =>
        have hcarries := tokenResult_carries env (d := d) (Bool.eq_false_iff.mpr hfin) tok
          (if rest = [] then eog else false)
        have hctx := (tokenResult_applies env d r tok (if rest = [] then eog else false)).fires.ctx
        have hfirst : Leaves V P d (putReq (withSys d
            (tokenResult env d r tok (if rest = [] then eog else false)).2)
            (tokenResult env d r tok (if rest = [] then eog else false)).1) :=
          ⟨congrArg V.view hctx, rfl, fun hall =>
            TableAll.putReq (d := withSys d _) hall (hP hcarries (hall q r hr))⟩
        exact hfirst.trans (ih _)

/-- Trimming what the speculator was ahead. -/
theorem specTrimOvershoot_leaves (d : Data σ γ Sid) (q : SeqId) :
    Leaves V P d (specTrimOvershoot env d q) := by
  unfold specTrimOvershoot
  split
  · exact .refl d
  · exact .of_table ((backendSeqRmFrom_onSeq env.plain d.sys q _).view V.toCtxView) rfl rfl

include hP in
/-- Counting what was drafted and accepted. -/
theorem specRecordFeedback_leaves (d : Data σ γ Sid) (q : SeqId) (n m : Nat) :
    Leaves V P d (specRecordFeedback env d q n m) := by
  have haccept : V.view (specAccept env d q m).ctx = V.view d.sys.ctx := by
    unfold specAccept
    split
    case h_1 cb cfg ref hcb _ => exact V.accept hcb _ _ _ _
    case h_2 => rfl
  unfold specRecordFeedback
  dsimp only
  split
  case h_1 => exact .of_table haccept rfl rfl
  case h_2 r hr =>
    refine ⟨haccept, rfl, fun hall => TableAll.putReq (d := withSys d _) hall ?_⟩
    exact hP (carries_of_scan (r := r) (f := r.finishing) rfl rfl id) (hall q r hr)

include hP in
/-- Committing the result of a speculative step. -/
theorem commitSpec_leaves (d : Data σ γ Sid) (q : SeqId) (draft : List Token) (res : SpecResult) :
    Leaves V P d (commitSpec env d q draft res).data := by
  have happ := applySpecCommitted_leaves V hP q res.eog res.committed d
  unfold commitSpec
  dsimp only
  split
  case h_1 => exact happ
  case h_2 =>
    split
    · exact happ.trans (specRecordFeedback_leaves V hP _ q _ _)
    · exact (happ.trans (specTrimOvershoot_leaves V _ q)).trans
        (specRecordFeedback_leaves V hP _ q _ _)

/-- A failed step, if the speculator's part of the context is as before. -/
theorem decodeError_leaves (d : Data σ γ Sid) {x : σ} (hx : V.view x = V.view d.sys.ctx)
    (e : Reason) : Leaves V P d (decodeError (withCtx d x) e).data := by
  unfold decodeError
  split <;> exact .of_table hx rfl rfl

include hP in
/-- A tick that speculates. -/
theorem runSpecTick_leaves (d : Data σ γ Sid) (r : Req Sid) (draft : List Token) :
    Leaves V P d (runSpecTick env d r draft).data := by
  unfold runSpecTick
  split
  case h_2 => exact .refl d
  case h_1 cb sampler hcb _ =>
    have hview := V.verifyDraft hcb d.sys.ctx sampler r.seqId draft
    dsimp only
    split
    case h_1 res _ =>
      have hctx : Leaves V P d (withCtx d (cb.step d.sys.ctx sampler r.seqId draft).2) :=
        .of_table hview rfl rfl
      exact hctx.trans (commitSpec_leaves V hP _ r.seqId draft res)
    case h_2 e _ => exact decodeError_leaves V d hview e

include hP in
/-- A tick that steps a batch. -/
theorem stepTickOps_leaves {d : Data σ γ Sid} (hd : TableWf env d) :
    Leaves V P d (stepTickOps env d).data := by
  unfold stepTickOps
  split
  · exact .refl d
  · exact .refl d
  case h_3 ops _ hbudget =>
    have hfit := opsFit_of_budget hd hbudget
    have hview := V.step d.sys.ctx ops
    have hctx : Leaves V P d (withCtx d (env.be.step d.sys.ctx ops).2) := .of_table hview rfl rfl
    dsimp only
    split
    case h_2 e _ => exact decodeError_leaves V d hview e
    case h_1 results _ =>
      unfold finishStep
      split
      case h_1 => exact hctx
      case h_2 pairs hpairs =>
        have hfst := (Contract.pairOpsWithResults_spec hpairs).1
        have hseqs : (pairs.map fun pair => pair.1.1) = ops.map Prod.fst := by
          rw [← hfst, List.map_map]
          rfl
        have happ : Leaves V P (withCtx d (env.be.step d.sys.ctx ops).2)
            (applyStepResults env pairs (withCtx d (env.be.step d.sys.ctx ops).2)).2 := by
          refine applyStepResults_leaves V hP (hseqs ▸ hfit.nodup) hd.keysMatch ?_
          intro pair hpair r hr
          exact rows_unfinished hd.keysMatch hbudget (hfst ▸ List.mem_map_of_mem hpair) hr
        dsimp only
        split
        · exact hctx.trans happ
        · exact hctx.trans happ

include hP in
/-- A tick that prefills a media request. -/
theorem runMediaTick_leaves (d : Data σ γ Sid) {q : SeqId} {r : Req Sid}
    (hr : d.reqTable.lookup q = some r) : Leaves V P d (runMediaTick env d r).data := by
  unfold runMediaTick
  split
  case h_1 => exact .refl d
  case h_2 cb hcb =>
    have hview := V.prefill hcb d.sys.ctx r.mediaPrompt (r.media.getD []) r.seqId r.mediaAddSpecial
    dsimp only
    split
    case h_1 =>
      refine ⟨hview, rfl, fun hall => TableAll.putReq (d := withCtx d _) hall ?_⟩
      exact hP (carries_of_scan (r := r) (f := r.finishing) rfl rfl id) (hall q r hr)
    case h_2 e _ =>
      refine ⟨(failRequest_view V.toCtxView (withCtx d _).sys r (.mediaFailed e)).trans hview, rfl,
        fun hall => ?_⟩
      exact TableAll.removeReq (d := withSys d _) hall r.seqId

end Leaves

/-! ### The other functions -/

section Calls

variable (V : SpecView env α) {P : Req Sid → Prop}

/-- The callers of all requests are told, and their samplers and seqs are released. -/
theorem failAllRequests_leaves (d : Data σ γ Sid) (e : Err) :
    Leaves V P d (failAllRequests env d e) := by
  have hfold : ∀ (rs : List (Req Sid)) (s : Sys σ γ Sid),
      V.view (rs.foldl (fun s r => failRequest env s r e) s).ctx = V.view s.ctx := by
    intro rs
    induction rs with
    | nil => exact fun _ => rfl
    | cons r rs ih =>
      intro s
      exact (ih _).trans (failRequest_view V.toCtxView s r e)
  exact .of_table (hfold _ d.sys) rfl rfl

/-- Failing what is queued. -/
theorem failPendingAdmits_leaves (d : Data σ γ Sid) (e : Err) :
    Leaves V P d (failPendingAdmits d e) := by
  have hfold : ∀ (items : List (Item Sid)) (acc : Data σ γ Sid), Leaves V P acc
      (items.foldl (fun acc item => emit acc (.reply item.frm (.error e))) acc) := by
    intro items
    induction items with
    | nil => exact .refl
    | cons item items ih =>
      intro acc
      have hemit : Leaves V P acc (emit acc (.reply item.frm (.error e))) := .of_table rfl rfl rfl
      exact hemit.trans (ih _)
  exact hfold d.pending d

/-- After a recovery no request is left. -/
theorem recoverInPlace_leaves (d : Data σ γ Sid) (e : Reason) :
    Leaves V P d (recoverInPlace env d e).data := by
  have hfail := (failAllRequests_leaves V (P := P) d (.nested (.backend e))).trans
    (failPendingAdmits_leaves V _ (.backend e))
  unfold recoverInPlace
  dsimp only
  split
  case h_1 => exact hfail
  case h_2 f hf =>
    have hreset := fun x => V.reset hf x
    split
    · exact ⟨(hreset _).trans hfail.view, hfail.spec, fun _ q r hr => nomatch hr⟩
    · exact ⟨(hreset _).trans hfail.view, hfail.spec, hfail.table⟩

/-- An embedding is a call on the context alone. -/
theorem embedEach_leaves (lists : List (List Token)) (acc : List (List ℚ)) (d : Data σ γ Sid) :
    Leaves V P d (embedEach env acc lists d).2 := by
  induction lists generalizing acc d with
  | nil => exact .refl d
  | cons tokens rest ih =>
    unfold embedEach
    split
    case h_1 => exact .refl d
    case h_2 f hf =>
      have hplain : env.plain.be.embed = some f := hf
      have hcall : Leaves V P d (withCtx d (f d.sys.ctx tokens).2) :=
        .of_table (V.inspect (.embed hplain _ _)) rfl rfl
      dsimp only
      split
      · exact hcall.trans (ih _ _)
      · exact hcall

/-- A verify call. -/
theorem runVerify_leaves (d : Data σ γ Sid) (pre cands : List Token) (k : Nat) :
    Leaves V P d (runVerify env d pre cands k).2 := by
  unfold runVerify
  split
  case h_1 => exact .refl d
  case h_2 f hf =>
    have hplain : env.plain.be.verify = some f := hf
    dsimp only
    split <;> exact .of_table (V.inspect (.verify hplain _ _ _ _)) rfl rfl

/-- Saving every request on the operator's behalf. -/
theorem fireSaveForReason_leaves (hP : ∀ {r r'}, Carries r r' → P r → P r') (d : Data σ γ Sid)
    (reason : SaveReason) : Leaves V P d (fireSaveForReason env d reason) := by
  refine foldl_leaves V (fun acc r => ?_) (fun acc r => ?_) (fun acc r hr hacc => ?_) d
  all_goals unfold fireSaveForReq
  · split
    · rfl
    · exact congrArg V.view (fireSaveIf_fires env acc r true reason r.contextTokens).ctx
  · split <;> rfl
  · split
    · exact hacc
    · refine TableAll.putReq (d := withSys acc _) hacc ?_
      refine hP (r := r) (carries_of_scan (f := r.finishing) (c := r.cancelPending)
        (n := r.thinkingNotEnabled) ?_ ?_ id) hr
      · exact creditSave_speculation r _ _
      · exact creditSave_scan r _ _

/-- Replacing the adapters of the context. -/
theorem changeAdapters_leaves (d : Data σ γ Sid) (adapters : List Adapter) (onOk : Reply) :
    Leaves V P d (changeAdapters env d adapters onOk).2 := by
  unfold changeAdapters applyAndRecompute
  cases hf : env.be.applyAdapters with
  | none => exact .of_table rfl rfl rfl
  | some f =>
    have hview := V.apply hf d.sys.ctx (adapters.map fun a => (a.handle, a.scale))
    dsimp only
    cases (f d.sys.ctx (adapters.map fun a => (a.handle, a.scale))).1 with
    | ok u => exact .of_table hview rfl rfl
    | error e => exact .of_table hview rfl rfl

/-- Loading an adapter. -/
theorem loadAdapter_leaves (d : Data σ γ Sid) (path : Path) (file : Option Bytes) :
    Leaves V P d (loadAdapter env d path file).2 := by
  unfold loadAdapter
  split
  case h_1 => exact .refl d
  case h_2 f hf =>
    split
    · exact .refl d
    case h_2 content =>
      have hcall : Leaves V P d (withCtx d (f d.sys.ctx path content).2) :=
        .of_table (V.load hf _ _ _) rfl rfl
      dsimp only
      split
      · exact hcall.trans (changeAdapters_leaves V _ _ _)
      · exact hcall

/-- Unloading one. -/
theorem unloadAdapter_leaves (d : Data σ γ Sid) (handle : Ref) :
    Leaves V P d (unloadAdapter env d handle).2 := by
  unfold unloadAdapter
  split
  · exact .refl d
  case h_2 rest _ =>
    split
    case h_1 => exact .refl d
    case h_2 f hf =>
      have hcall : Leaves V P d (withCtx d (f d.sys.ctx handle).2) :=
        .of_table (V.unload hf _ _) rfl rfl
      dsimp only
      split
      · exact hcall.trans (changeAdapters_leaves V _ _ _)
      · exact hcall

/-- Scaling one. -/
theorem setAdapterScale_leaves (d : Data σ γ Sid) (handle : Ref) (scale : ℚ) :
    Leaves V P d (setAdapterScale env d handle scale).2 := by
  unfold setAdapterScale
  split
  · exact .refl d
  · exact changeAdapters_leaves V d _ _

/-- A cancel marks one record. -/
theorem handleCancel_leaves (hP : ∀ {r r'}, Carries r r' → P r → P r') (d : Data σ γ Sid)
    (ref : Ref) : Leaves V P d (handleCancel d ref) := by
  unfold handleCancel
  split
  case h_1 r hfind =>
    refine ⟨rfl, rfl, fun hall => hall.putReq ?_⟩
    obtain ⟨q, hq⟩ := mem_requests.mp (List.mem_of_find?_eq_some hfind)
    exact hP (r := r) (carries_of_scan (f := r.finishing) (c := true) rfl rfl id) (hall q r hq)
  case h_2 => exact .refl d

variable [LinearOrder Sid]

omit [LinearOrder Sid] in
/-- Releasing a seq. -/
theorem releaseSeq_leaves (d : Data σ γ Sid) (q : SeqId) :
    Leaves V P d (withSys d (releaseSeq env d.sys q)) :=
  .of_table ((releaseSeq_onSeq env.plain d.sys q).view V.toCtxView) rfl rfl

/-- Finishing one request. -/
theorem finishReq_leaves (d : Data σ γ Sid) (r : Req Sid) : Leaves V P d (finishReq env d r) := by
  refine ⟨(finishReq_sameView V.toCtxView d r).view, ?_, fun hall => hall.sub fun q r' hr' => ?_⟩
  · unfold finishReq releaseOrPinSeq
    split <;> rfl
  · have hlookup := lookup_finishReq env d r q
    rw [hlookup] at hr'
    split at hr'
    · cases hr'
    · exact hr'

/-- Finishing every marked request. -/
theorem finishMarkedReqs_leaves (d : Data σ γ Sid) : Leaves V P d (finishMarkedReqs env d) := by
  have hfold : ∀ (rs : List (Req Sid)) (acc : Data σ γ Sid),
      Leaves V P acc (rs.foldl (finishReq env) acc) := by
    intro rs
    induction rs with
    | nil => exact .refl
    | cons r rs ih => exact fun acc => (finishReq_leaves V acc r).trans (ih _)
  exact hfold (finishers d) d

/-- Dropping a session. -/
theorem dropSession_leaves (d : Data σ γ Sid) (sid : Sid) :
    Leaves V P d (dropSession env d sid) := by
  unfold dropSession
  split
  case h_1 => exact .refl d
  case h_2 s _ =>
    split
    · exact .refl d
    · exact (releaseSeq_leaves V d s.seqId).trans (.of_table rfl rfl rfl)

/-- Taking a seq, also from a session that is reclaimed. -/
theorem allocSeq_leaves {d d' : Data σ γ Sid} {except : Option Sid} {q : SeqId}
    (h : allocSeq env d except = some (q, d')) : Leaves V P d d' := by
  have hpop : ∀ {d₀ : Data σ γ Sid}, popIdle d₀ = some (q, d') → Leaves V P d₀ d' := by
    intro d₀ h
    unfold popIdle at h
    split at h
    · cases h
      exact .of_table rfl rfl rfl
    · exact nomatch h
  unfold allocSeq at h
  split at h
  case h_1 taken htaken =>
    cases h
    exact hpop htaken
  case h_2 =>
    obtain ⟨d₀, hreclaim, htaken⟩ := Option.bind_eq_some_iff.mp h
    refine Leaves.trans ?_ (hpop htaken)
    unfold reclaimLruIdleSeqExcept at hreclaim
    split at hreclaim
    · cases hreclaim
      exact dropSession_leaves V d _
    · exact nomatch hreclaim

/-- Finding the seq of an admission. -/
theorem resolveAdmissionSeq_leaves {d d' : Data σ γ Sid} {item : Item Sid}
    (h : resolveAdmissionSeq env d item = .normal d') : Leaves V P d d' := by
  unfold resolveAdmissionSeq resolveStickyContinuation at h
  split at h
  · cases h
    exact .refl d
  · split at h
    · cases h
      exact .refl d
    · split at h
      · exact nomatch h
      · dsimp only at h
        split at h
        · exact nomatch h
        · split at h
          · exact nomatch h
          · cases h
            exact (releaseSeq_leaves V d _).trans (.of_table rfl rfl rfl)

/-- Forking a session. -/
theorem forkSession_leaves (d : Data σ γ Sid) (src new : Sid) :
    Leaves V P d (forkSession env d src new).2 := by
  unfold forkSession
  split
  · exact .refl d
  · split
    · exact .refl d
    · split
      · exact .refl d
      · split
        case h_2 => exact .refl d
        case h_1 s _ _ _ q d' halloc =>
          refine (allocSeq_leaves V halloc).trans ?_
          unfold forkCopy
          split
          case h_1 => exact .of_table rfl rfl rfl
          case h_2 f hf =>
            dsimp only
            split <;> exact .of_table (V.seqCp hf _ _ _) rfl rfl

/-- Resetting a session. -/
theorem resetSessionSeq_leaves (d : Data σ γ Sid) (sid : Sid) :
    Leaves V P d (resetSessionSeq env d sid).2 := by
  unfold resetSessionSeq
  split
  case h_1 => exact .refl d
  case h_2 s _ =>
    have hfail : Leaves V P d (failInflightForSeq env d s.seqId .engineReset) := by
      unfold failInflightForSeq
      split
      case h_1 => exact .refl d
      case h_2 r _ =>
        have hquiet : Quiet env.plain d.sys (releaseSampler env
            (notifyFailure d.sys r .engineReset) r) :=
          (notifyFailure_mute d.sys r .engineReset).quiet.trans
            (releaseSampler_quiet env.plain _ r)
        exact ⟨hquiet.view V.toCtxView, rfl, fun hall =>
          TableAll.removeReq (d := withSys d _) hall s.seqId⟩
    exact (hfail.trans (releaseSeq_leaves V _ s.seqId)).trans (.of_table rfl rfl rfl)

/-- The events that may call the speculator: admissions and ticks. -/
def Event.speaks : Event Sid → Bool
  | .request _ | .continue _ _ _ | .tick => true
  | _ => false

/-- **The other events** leave the speculator alone. -/
theorem handleEvent_leaves (hP : ∀ {r r'}, Carries r r' → P r → P r') (p : Proc σ γ Sid)
    {e : Event Sid} (h : e.speaks = false) : Leaves V P p.data (handleEvent env p e).data := by
  have hreply : ∀ {frm : From} (reply : Reply) {d' : Data σ γ Sid}, Leaves V P p.data d' →
      Leaves V P p.data (replyWith p frm (reply, d')).data :=
    fun _ _ hres => hres.trans (.of_table rfl rfl rfl)
  cases e with
  | request | «continue» | tick => exact nomatch h
  | endSession frm sid => exact hreply .ok (dropSession_leaves V p.data sid)
  | forkSession frm src new => exact hreply _ (forkSession_leaves V p.data src new)
  | resetSession frm sid => exact hreply _ (resetSessionSeq_leaves V p.data sid)
  | verify frm pre cands k =>
    unfold handleEvent
    dsimp only
    split
    · exact hreply _ (runVerify_leaves V p.data pre cands k)
    · exact hreply _ (.refl p.data)
  | embed frm tokens => exact hreply _ (embedEach_leaves V [tokens] [] p.data)
  | embedBatch frm lists => exact hreply _ (embedEach_leaves V lists [] p.data)
  | evict frm => exact hreply .ok (fireSaveForReason_leaves V hP p.data .evict)
  | shutdown frm => exact hreply .ok (fireSaveForReason_leaves V hP p.data .shutdown)
  | loadAdapter frm path file => exact hreply _ (loadAdapter_leaves V p.data path file)
  | unloadAdapter frm handle => exact hreply _ (unloadAdapter_leaves V p.data handle)
  | setAdapterScale frm handle scale =>
    exact hreply _ (setAdapterScale_leaves V p.data handle scale)
  | cancel ref => exact handleCancel_leaves V hP p.data ref

end Calls

end Erllama.Model
