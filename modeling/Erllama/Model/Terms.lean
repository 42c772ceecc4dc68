import Erllama.Model.Walk

namespace Erllama.Model

/-!
# What a request is admitted on, and what is said about it

Most functions of the process neither send a message nor change what a request was admitted
on.  The two frames below say so, one lemma for each function.

* `Terms` — the fields of a request that are fixed when it is admitted, and its cancel mark;
  `SameStanding` — they and the two marks of the end are as before.
* `SameMail` — the outbox, the mailbox and the reference counter are as before.
* `setupAdmissionPath_frame`, `setupSpec_frame` — the two for an admission.
-/

variable {σ γ Sid : Type}

/-- The fields of a request that are fixed when it is admitted, and its cancel mark, which only
    a cancel sets. -/
structure Terms (Sid : Type) where
  seqId : SeqId
  mode : Mode
  caller : Option From
  callerPid : Option Pid
  requestRef : Option Ref
  cancelPending : Bool
  promptTokens : List Token
  responseTarget : Nat
  requestFp : Option Digest
  samplerRef : Option Ref
  stopSequences : List Bytes
  thinking : Bool
  sessionId : Option Sid
  media : Option (List (MediaType × Bytes))

/-- The terms of a request. -/
def Req.terms (r : Req Sid) : Terms Sid where
  seqId := r.seqId
  mode := r.mode
  caller := r.caller
  callerPid := r.callerPid
  requestRef := r.requestRef
  cancelPending := r.cancelPending
  promptTokens := r.promptTokens
  responseTarget := r.responseTarget
  requestFp := r.requestFp
  samplerRef := r.samplerRef
  stopSequences := r.stopSequences
  thinking := r.thinking
  sessionId := r.sessionId
  media := r.media

/-- The marks of the end: the request is done, and its error was already surfaced. -/
def Req.marks (r : Req Sid) : Bool × Bool := (r.finishing, r.thinkingNotEnabled)

/-- The same terms, and as far from its end. -/
structure SameStanding (r r' : Req Sid) : Prop where
  terms : r'.terms = r.terms
  marks : r'.marks = r.marks

/-- A record has its own standing. -/
theorem SameStanding.refl (r : Req Sid) : SameStanding r r := ⟨rfl, rfl⟩

/-- One change after another. -/
theorem SameStanding.trans {r r' r'' : Req Sid} (h : SameStanding r r')
    (h' : SameStanding r' r'') : SameStanding r r'' :=
  ⟨h'.terms.trans h.terms, h'.marks.trans h.marks⟩

/-- The same standing, as near to the end. -/
theorem SameStanding.finishing {r r' : Req Sid} (h : SameStanding r r') :
    r'.finishing = r.finishing := congrArg Prod.fst h.marks

/-- The same standing, refused or not. -/
theorem SameStanding.thinkingNotEnabled {r r' : Req Sid} (h : SameStanding r r') :
    r'.thinkingNotEnabled = r.thinkingNotEnabled := congrArg Prod.snd h.marks

section Fields

variable {r r' : Req Sid} (h : r'.terms = r.terms)

include h

/-- The seq is among the terms. -/
theorem seqId_of_terms : r'.seqId = r.seqId := congrArg Terms.seqId h
/-- So is the mode. -/
theorem mode_of_terms : r'.mode = r.mode := congrArg Terms.mode h
/-- So is the caller. -/
theorem caller_of_terms : r'.caller = r.caller := congrArg Terms.caller h

/-- Where the events of a request go is among its terms. -/
theorem stream_of_terms : r'.stream = r.stream := by
  have hpid : r'.callerPid = r.callerPid := congrArg Terms.callerPid h
  have href : r'.requestRef = r.requestRef := congrArg Terms.requestRef h
  unfold Req.stream
  rw [mode_of_terms h, hpid, href]

end Fields

/-- The system after calls that send nothing, cast no tick and make no reference. -/
structure SameMail (s s' : Sys σ γ Sid) : Prop where
  out : s'.out = s.out
  ticks : s'.ticks = s.ticks
  nextRef : s'.nextRef = s.nextRef

/-- Nothing was sent. -/
theorem SameMail.refl (s : Sys σ γ Sid) : SameMail s s := ⟨rfl, rfl, rfl⟩

/-- Nor by one function after another. -/
theorem SameMail.trans {s s' s'' : Sys σ γ Sid} (h : SameMail s s') (h' : SameMail s' s'') :
    SameMail s s'' :=
  ⟨h'.out.trans h.out, h'.ticks.trans h.ticks, h'.nextRef.trans h.nextRef⟩

/-- Another outside world. -/
theorem mail_world (s : Sys σ γ Sid) (w : γ) : SameMail s { s with world := w } :=
  ⟨rfl, rfl, rfl⟩

/-- Another context. -/
theorem mail_ctx (s : Sys σ γ Sid) (x : σ) : SameMail s { s with ctx := x } := ⟨rfl, rfl, rfl⟩

variable (env : Env σ γ) (d : Data σ γ Sid) (s : Sys σ γ Sid) (r : Req Sid)

/-! ### Saves -/

/-- A save sends nothing. -/
theorem fireSaveIf_mail (should : Bool) (reason : SaveReason) (tokens : List Token) :
    SameMail d.sys (fireSaveIf env d should reason tokens r).2 := by
  unfold fireSaveIf
  split <;> exact ⟨rfl, rfl, rfl⟩

/-- Crediting a save keeps the standing. -/
theorem creditSave_standing (fired : Bool) (tokens : List Token) :
    SameStanding r (creditSave fired r tokens) := by
  cases fired <;> exact ⟨rfl, rfl⟩

/-- Saving the agent's prefix sends nothing. -/
theorem fireAgentPrefixSave_mail (tokens : List Token) :
    SameMail d.sys (fireAgentPrefixSave env d tokens r).2 ∧
      SameStanding r (fireAgentPrefixSave env d tokens r).1 := by
  have hsave := fireSaveIf_mail env d r (decide (env.cfg.policy.minTokens ≤ tokens.length))
    .agentPrefix tokens
  unfold fireAgentPrefixSave
  dsimp only
  split
  · exact ⟨hsave.trans (mail_world _ _), rfl, rfl⟩
  · exact ⟨hsave, .refl r⟩

/-- Nor does saving tokens. -/
theorem fireSaveForTokens_mail (reason : SaveReason) (tokens : List Token) :
    SameMail d.sys (fireSaveForTokens env d reason tokens r).2 ∧
      SameStanding r (fireSaveForTokens env d reason tokens r).1 :=
  ⟨fireSaveIf_mail env d r _ reason tokens, creditSave_standing r _ tokens⟩

/-- Nor does the continued save. -/
theorem maybeFireContinuedForReq_mail :
    SameMail d.sys (maybeFireContinuedForReq env d r).2 ∧
      SameStanding r (maybeFireContinuedForReq env d r).1 := by
  have hsave := fireSaveForTokens_mail env d r .continued r.contextTokens
  unfold maybeFireContinuedForReq
  dsimp only
  split
  · exact ⟨.refl _, .refl r⟩
  · split
    · exact ⟨hsave.1, hsave.2.trans ⟨rfl, rfl⟩⟩
    · exact ⟨.refl _, .refl r⟩

/-- Nor does the cold save. -/
theorem maybeFireColdSave_mail :
    SameMail d.sys (maybeFireColdSave env d r).2 ∧
      SameStanding r (maybeFireColdSave env d r).1 := by
  unfold maybeFireColdSave
  split
  · exact ⟨.refl _, .refl r⟩
  · exact ⟨.refl _, rfl, rfl⟩
  case h_3 reason next rest _ =>
    have hsave : SameMail d.sys (if reason = .agentPrefix
          then fireAgentPrefixSave env d r.contextTokens r
          else fireSaveForTokens env d reason r.contextTokens r).2 ∧
        SameStanding r (if reason = .agentPrefix
          then fireAgentPrefixSave env d r.contextTokens r
          else fireSaveForTokens env d reason r.contextTokens r).1 := by
      split
      · exact fireAgentPrefixSave_mail env d r r.contextTokens
      · exact fireSaveForTokens_mail env d r reason r.contextTokens
    exact ⟨hsave.1, hsave.2.trans ⟨rfl, rfl⟩⟩

/-- Nor does the save at the end. -/
theorem finishSave_mail :
    SameMail d.sys (finishSave env d r).2.2 ∧ SameStanding r (finishSave env d r).2.1 := by
  have hsave := fireSaveIf_mail env d r
    (shouldFinishSave env.cfg.policy r.contextTokens.length) .finish r.contextTokens
  have hfire : SameMail d.sys (fireFinishSaveForReq env d r.contextTokens r).2 := by
    unfold fireFinishSaveForReq
    split
    · exact .refl _
    · exact hsave
  unfold finishSave
  dsimp only
  split
  · exact ⟨hfire, .refl r⟩
  · exact ⟨hfire.trans (mail_world _ _), rfl, rfl⟩

/-! ### Removals and restores -/

section Restores

variable (q : SeqId)

/-- Releasing a seq sends nothing. -/
theorem releaseSeq_mail : SameMail s (releaseSeq env s q) := by
  unfold releaseSeq
  split <;> exact ⟨rfl, rfl, rfl⟩

/-- Nor does clearing it. -/
theorem backendSeqClear_mail : SameMail s (backendSeqClear env s q) := by
  unfold backendSeqClear
  split
  · exact mail_ctx s _
  · split <;> exact ⟨rfl, rfl, rfl⟩

/-- Nor does trimming it. -/
theorem backendSeqRmFrom_mail (pos : Nat) : SameMail s (backendSeqRmFrom env s q pos).2 := by
  unfold backendSeqRmFrom
  split
  · exact mail_ctx s _
  · split
    · split <;> exact ⟨rfl, rfl, rfl⟩
    · exact .refl s

/-- Nor does making room for the primer. -/
theorem warmRestorePrimer_mail (tokens : List Token) :
    SameMail s (warmRestorePrimer env s q tokens).2 := by
  unfold warmRestorePrimer
  split
  · exact .refl s
  · exact backendSeqRmFrom_mail env s q _

/-- Nor does unpacking a row. -/
theorem unpackRow_mail (key : CacheKey) (bin : Bytes) (tokensBin : Option TokensBin) :
    SameMail s (unpackRow env s q key bin tokensBin).2 := by
  unfold unpackRow
  split
  · exact ⟨rfl, rfl, rfl⟩
  · exact (mail_ctx s _).trans (backendSeqClear_mail env _ q)

/-- Nor does loading one. -/
theorem pinAndLoad_mail (key : CacheKey) : SameMail s (pinAndLoad env s q key).2 := by
  unfold pinAndLoad
  split
  case h_1 holder tier tokensBin world _ =>
    have hload : SameMail s (loadPayload env { s with world := world } tier key).2 :=
      ⟨rfl, rfl, rfl⟩
    dsimp only
    split
    · exact (hload.trans (unpackRow_mail env _ q key _ tokensBin)).trans (mail_world _ _)
    · exact hload.trans (mail_world _ _)
  · exact mail_world s _
  · exact mail_world s _

end Restores

/-- Nor does pinning a prefix again. -/
theorem maybeRepinPrefix_mail (key : CacheKey) (n : Nat) :
    SameMail d.sys (maybeRepinPrefix env d r key n) := by
  unfold maybeRepinPrefix
  split
  · split <;> exact ⟨rfl, rfl, rfl⟩
  · exact .refl _

/-- Nor does resuming at a prefix. -/
theorem resumeAtPrefix_mail (key : CacheKey) (n : Nat) (tokens : List Token) (bytes : Bytes) :
    SameMail d.sys (resumeAtPrefix env d r key n tokens bytes).2 := by
  have hload := pinAndLoad_mail env d.sys r.seqId key
  unfold resumeAtPrefix
  dsimp only
  split
  · exact hload.trans (maybeRepinPrefix_mail env (withSys d _) r key n)
  · exact hload

/-- Nor does the longest prefix. -/
theorem tryLongestPrefix_mail (tokens : List Token) (bytes : Bytes) :
    SameMail d.sys (tryLongestPrefix env d r tokens bytes).2 := by
  unfold tryLongestPrefix
  dsimp only
  split
  · exact (mail_world d.sys _).trans (resumeAtPrefix_mail env (withSys d _) r _ _ _ _)
  · exact mail_world d.sys _

/-- Nor does resuming on a parent. -/
theorem resumeSessionOrFallthrough_mail (tokens : List Token) (bytes : Bytes)
    (parent : List Token) :
    SameMail d.sys (resumeSessionOrFallthrough env d r tokens bytes parent).2 := by
  unfold resumeSessionOrFallthrough
  dsimp only
  split
  · exact .refl _
  · exact tryLongestPrefix_mail env d r tokens bytes

/-- Nor does the lookup of the parent. -/
theorem trySessionResume_mail (tokens : List Token) (bytes : Bytes) (key : CacheKey) :
    SameMail d.sys (trySessionResume env d r tokens bytes key).2 := by
  unfold trySessionResume
  dsimp only
  split
  · have hload : SameMail d.sys
        (pinAndLoad env
          { d.sys with
            world := (env.cache.lookupExactOrWait d.sys.world key
              env.cfg.policy.sessionResumeWaitMs).2 } r.seqId key).2 :=
      (mail_world d.sys _).trans (pinAndLoad_mail env _ r.seqId key)
    split
    · exact hload.trans (resumeSessionOrFallthrough_mail env (withSys d _) r tokens bytes _)
    · exact hload.trans (tryLongestPrefix_mail env (withSys d _) r tokens bytes)
  · exact (mail_world d.sys _).trans (tryLongestPrefix_mail env (withSys d _) r tokens bytes)

/-- The whole lookup sends nothing. -/
theorem lookupOrResume_mail (tokens : List Token) (parentKey : Option CacheKey) :
    SameMail d.sys (lookupOrResume env d r tokens parentKey).2 := by
  have hload := fun key => pinAndLoad_mail env d.sys r.seqId key
  unfold lookupOrResume
  dsimp only
  split
  · exact hload _
  · split
    · exact (hload _).trans (trySessionResume_mail env (withSys d _) r tokens _ _)
    · exact (hload _).trans (tryLongestPrefix_mail env (withSys d _) r tokens _)

/-! ### Admission -/

/-- The admission path keeps the standing and sends nothing. -/
structure PathFrame (r : Req Sid) (s : Sys σ γ Sid) (res : Req Sid × Sys σ γ Sid) : Prop where
  standing : SameStanding r res.1
  mail : SameMail s res.2

/-- The cold path. -/
theorem setupCold_frame : PathFrame r d.sys (setupCold env d r) :=
  ⟨⟨rfl, rfl⟩, backendSeqClear_mail env d.sys r.seqId⟩

/-- A path after calls that send nothing. -/
theorem PathFrame.after {r : Req Sid} {s s' : Sys σ γ Sid} {res : Req Sid × Sys σ γ Sid}
    (h : SameMail s s') (h' : PathFrame r s' res) : PathFrame r s res :=
  ⟨h'.standing, h.trans h'.mail⟩

/-- The path of a full hit. -/
theorem resumeFull_frame (context : List Token) (kind : HitKind) :
    PathFrame r d.sys (resumeFull env d r context kind) := by
  have htrim := warmRestorePrimer_mail env d.sys r.seqId context
  unfold resumeFull
  dsimp only
  split
  · exact ⟨⟨rfl, rfl⟩, htrim⟩
  · exact .after htrim (setupCold_frame env (withSys d _) r)

/-- The path of a lookup. -/
theorem setupLookup_frame (parentKey : Option CacheKey) :
    PathFrame r d.sys (setupLookup env d r parentKey) := by
  have hlookup := lookupOrResume_mail env d r r.promptTokens parentKey
  unfold setupLookup
  dsimp only
  split
  · refine .after hlookup ?_
    unfold setupWarm
    split
    · exact resumeFull_frame env (withSys d _) r _ _
    · exact ⟨⟨rfl, rfl⟩, .refl _⟩
  · exact .after hlookup (setupCold_frame env (withSys d _) r)

/-- Every admission path. -/
theorem setupAdmissionPath_frame (mode : AdmitMode) (prompt : List Token) (opts : LookupOpts) :
    PathFrame r d.sys (setupAdmissionPath env d r mode prompt opts) := by
  unfold setupAdmissionPath
  split
  · have h := setupLookup_frame env d
      { r with prefixCheckpointLen := opts.prefixCheckpointLen } opts.parentKey
    exact ⟨⟨h.standing.terms, h.standing.marks⟩, h.mail⟩
  · exact ⟨⟨rfl, rfl⟩, .refl _⟩
  · exact ⟨⟨rfl, rfl⟩, .refl _⟩
  · dsimp only
    split
    · exact resumeFull_frame env d r _ _
    · have htrim := backendSeqRmFrom_mail env d.sys r.seqId
      split
      · exact ⟨⟨rfl, rfl⟩, htrim _⟩
      · exact .after (htrim _) (setupCold_frame env (withSys d _) r)

/-- Making a sampler sends nothing. -/
theorem samplerFor_mail (gen : GenOpts) : SameMail s (samplerFor env s gen).2 := by
  unfold samplerFor
  split
  · split <;> exact ⟨rfl, rfl, rfl⟩
  · exact .refl s

/-- Nor does releasing it. -/
theorem releaseSampler_mail : SameMail s (releaseSampler env s r) := by
  unfold releaseSampler
  split
  · exact mail_ctx s _
  · exact .refl s

/-- Nor does making a speculator. -/
theorem newSpecResource_mail (cb : SpecCallbacks σ) (cfg : SpecCfg) :
    SameMail d.sys (newSpecResource env d cb cfg).2.sys := by
  unfold newSpecResource
  split <;> exact ⟨rfl, rfl, rfl⟩

/-- Nor does finding one. -/
theorem ensureSpecResource_mail (cb : SpecCallbacks σ) (cfg : SpecCfg) :
    SameMail d.sys (ensureSpecResource env d cb cfg).2.sys := by
  unfold ensureSpecResource
  split
  · exact newSpecResource_mail env d cb cfg
  · split
    · exact .refl _
    · split
      · exact .refl _
      · exact (mail_ctx d.sys _).trans (newSpecResource_mail env (withSys d _) cb cfg)

/-- Setting up the speculation keeps the standing and sends nothing. -/
theorem setupSpec_frame (opt : Option SpecOpt) :
    SameStanding r (setupSpec env d r opt).1 ∧
      SameMail d.sys (setupSpec env d r opt).2.sys := by
  unfold setupSpec
  split
  · split
    · dsimp only
      have hres := fun cb cfg => ensureSpecResource_mail env d cb cfg
      split
      · split
        · exact ⟨⟨rfl, rfl⟩, (hres _ _).trans (mail_ctx _ _)⟩
        · exact ⟨⟨rfl, rfl⟩, (hres _ _).trans (mail_ctx _ _)⟩
      · exact ⟨.refl r, hres _ _⟩
    · exact ⟨.refl r, .refl _⟩
  · exact ⟨.refl r, .refl _⟩

/-- Telling the speculator what was accepted sends nothing. -/
theorem specAccept_mail (q : SeqId) (nAcc : Nat) : SameMail d.sys (specAccept env d q nAcc) := by
  unfold specAccept
  split
  · exact mail_ctx d.sys _
  · exact .refl _

end Erllama.Model
