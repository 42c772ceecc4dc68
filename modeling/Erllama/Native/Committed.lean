import Erllama.Native.Speculator

namespace Erllama.Native

open Lib Model

/-!
# The speculator sees the committed text

The process brings the tokens of a request to the shim in pieces, as far as its cursor says, and
only with its draft calls; tokens are committed by speculative ticks and by the others.

* `Seen` — the vector of a seq holds what is committed of its request up to the cursor.
* `Advances` — what calls no drafter keeps that of every request.
* `specDraftFor_drafts` — a draft call brings the vector up to the last token.
* `run_committed` — so it is in every run.
-/

variable {υ σ γ Sid : Type}

/-! ### What the speculator was told -/

/-- The speculator has seen what is committed of a request up to its cursor: the prompt, and
    none of the last token. -/
structure Seen (vector : Ref → SeqId → Option (List Token)) (ref : Ref) (r : Req Sid) : Prop where
  vector : vector ref r.seqId = some ((r.promptTokens ++ r.generated).take r.specCursor)
  promptLen : r.specPromptLen = r.promptTokens.length
  fromPrompt : r.promptTokens.length ≤ r.specCursor
  beforeLast : r.specCursor ≤ r.promptTokens.length + (r.generated.length - 1)

/-- The request is within its bound, and if it speculates, the process's speculator has seen
    what its cursor says. -/
structure Told (x : Sight) (spec : Option (SpecCfg × Ref)) (r : Req Sid) : Prop where
  bounded : r.Bounded
  seen : r.spec.isSome → ∃ cfg ref, spec = some (cfg, ref) ∧ Seen x.vector ref r

/-- Every request of the table. -/
def AllTold (d : Data (σ × Specs υ) γ Sid) : Prop := TableAll (Told (sightOf d) d.spec) d.reqTable

/-- More tokens are generated behind the cursor. -/
theorem Told.carries {x : Sight} {spec : Option (SpecCfg × Ref)} {r r' : Req Sid}
    (h : Carries r r') (hr : Told x spec r) : Told x spec r' := by
  refine ⟨h.bounded hr.bounded, fun hsome => ?_⟩
  have hseq : r'.seqId = r.seqId := congrArg Speculation.seqId h.speculation
  have hprompt : r'.promptTokens = r.promptTokens := congrArg Speculation.promptTokens h.speculation
  have hspec : r'.spec = r.spec := congrArg Speculation.spec h.speculation
  have hlen : r'.specPromptLen = r.specPromptLen := congrArg Speculation.promptLen h.speculation
  have hcursor : r'.specCursor = r.specCursor := congrArg Speculation.cursor h.speculation
  obtain ⟨cfg, ref, heq, hvector, hpromptLen, hfrom, hbefore⟩ := hr.seen (hspec ▸ hsome)
  obtain ⟨more, hmore⟩ := h.generated
  refine ⟨cfg, ref, heq, ?_, ?_, ?_, ?_⟩
  · have htake : ((r.promptTokens ++ r.generated) ++ more).take r.specCursor =
        (r.promptTokens ++ r.generated).take r.specCursor := by
      apply List.take_append_of_le_length
      rw [List.length_append]
      omega
    rw [hseq, hprompt, hcursor, hvector, ← hmore, ← List.append_assoc, htake]
  · rw [hlen, hprompt, hpromptLen]
  · rw [hcursor, hprompt]
    exact hfrom
  · rw [hcursor, hprompt, ← hmore, List.length_append]
    omega

/-- What the process did called no drafter, and the speculator is as up to date as before. -/
structure Advances (d d' : Data (σ × Specs υ) γ Sid) : Prop where
  calls : (sightOf d').calls = (sightOf d).calls
  told : AllTold d → AllTold d'

section Advances

variable {up : Upstream υ} {env : Env σ γ} {d d' d'' : Data (σ × Specs υ) γ Sid}

/-- Nothing happened. -/
theorem Advances.refl (d : Data (σ × Specs υ) γ Sid) : Advances d d := ⟨rfl, id⟩

/-- One function after another. -/
theorem Advances.trans (h : Advances d d') (h' : Advances d' d'') : Advances d d'' :=
  ⟨h'.calls.trans h.calls, h'.told ∘ h.told⟩

/-- Functions that leave the speculator alone. -/
theorem Advances.of_leaves
    (h : Leaves (specView up env) (Told (sightOf d) d.spec) d d') : Advances d d' := by
  have hsight : sightOf d' = sightOf d := h.view
  refine ⟨congrArg Sight.calls hsight, fun hd => ?_⟩
  unfold AllTold
  rw [hsight, h.spec]
  exact h.table hd

/-- A function that keeps the context, the speculator and the table. -/
theorem Advances.of_same (hctx : d'.sys.ctx = d.sys.ctx) (hspec : d'.spec = d.spec)
    (htable : d'.reqTable = d.reqTable) : Advances d d' := by
  have hsight : sightOf d' = sightOf d := congrArg (fun x => Specs.sight (Prod.snd x)) hctx
  refine ⟨congrArg Sight.calls hsight, fun hd => ?_⟩
  unfold AllTold
  rw [hsight, hspec, htable]
  exact hd

end Advances

/-! ### A draft -/

/-- The draft call for a request: it was given the last token, and the vector was the prompt and
    the tokens before, or a token was no `int`. -/
def DraftsFor (r : Req Sid) (c : DraftCall) : Prop :=
  ∃ init, r.generated = init ++ [c.idLast] ∧
    (c.vector = some (r.promptTokens ++ init) ∨
      c.vector = none ∧ ∃ t ∈ r.generated, fitsInt t = false)

/-- The draft call is one for a request of the table that goes on and speculates. -/
def Drafted (t : Table SeqId (Req Sid)) (c : DraftCall) : Prop :=
  ∃ r, t.lookup c.seq = some r ∧ r.finishing = false ∧ r.spec.isSome ∧ DraftsFor r c

/-- The draft calls on the way are for requests of the table, and the speculator is as up to
    date as the cursors say. -/
structure Drafts (d d' : Data (σ × Specs υ) γ Sid) : Prop where
  told : AllTold d'
  calls : ∃ new, (sightOf d').calls = (sightOf d).calls ++ new ∧ ∀ c ∈ new, Drafted d.reqTable c

/-- Without a draft call. -/
theorem Advances.drafts {d d' : Data (σ × Specs υ) γ Sid} (h : Advances d d') (hd : AllTold d) :
    Drafts d d' :=
  ⟨h.told hd, [], h.calls.trans (List.append_nil _).symm, List.forall_mem_nil _⟩

/-- A draft, and what follows it. -/
theorem Drafts.trans {d d' d'' : Data (σ × Specs υ) γ Sid} (h : Drafts d d')
    (h' : Advances d' d'') : Drafts d d'' := by
  obtain ⟨new, hcalls, hnew⟩ := h.calls
  exact ⟨h'.told h.told, new, h'.calls.trans hcalls, hnew⟩

/-- The requests that go on are in both tables. -/
theorem Drafts.after {d d' d'' : Data (σ × Specs υ) γ Sid} (h : Advances d d')
    (hgoes : ∀ q r, d'.reqTable.lookup q = some r → r.finishing = false →
      d.reqTable.lookup q = some r) (h' : Drafts d' d'') : Drafts d d'' := by
  obtain ⟨new, hcalls, hnew⟩ := h'.calls
  rw [h.calls] at hcalls
  refine ⟨h'.told, new, hcalls, fun c hc => ?_⟩
  obtain ⟨r, hr, hfin, hdrafts⟩ := hnew c hc
  exact ⟨r, hgoes _ r hr hfin, hfin, hdrafts⟩

/-- The delta brings the vector up to the last token. -/
theorem Seen.append_specDelta {vector : Ref → SeqId → Option (List Token)} {ref : Ref}
    {r : Req Sid} (h : Seen vector ref r) :
    (r.promptTokens ++ r.generated).take r.specCursor ++ specDelta r =
      r.promptTokens ++ r.generated.dropLast := by
  obtain ⟨-, hlen, hfrom, hbefore⟩ := h
  unfold specDelta
  rw [hlen, List.take_append, List.take_of_length_le hfrom, List.append_assoc, ← List.take_add,
    List.dropLast_eq_take]
  congr 2
  omega

/-- After the draft the cursor is at the last token. -/
theorem Seen.draft {vector vector' : Ref → SeqId → Option (List Token)} {ref : Ref} {r : Req Sid}
    (h : Seen vector ref r) (hgen : r.generated ≠ [])
    (hvec : vector' ref r.seqId = some (r.promptTokens ++ r.generated.dropLast)) :
    Seen vector' ref { r with specCursor := r.specPromptLen + r.generated.length - 1 } := by
  have hpos : 0 < r.generated.length := List.length_pos_iff.mpr hgen
  have hcursor : r.specPromptLen + r.generated.length - 1 =
      r.promptTokens.length + (r.generated.length - 1) := by
    rw [h.promptLen]
    omega
  rw [hcursor]
  refine ⟨?_, h.promptLen, ?_, ?_⟩
  · dsimp only
    rw [hvec, List.take_length_add_append, List.dropLast_eq_take]
  · dsimp only
    omega
  · exact le_refl _

section Draft

variable {up : Upstream υ} {env : Env σ γ} {d : Data (σ × Specs υ) γ Sid} {r : Req Sid}

/-- Only the vector of its own seq matters to a request. -/
theorem Told.of_vector {x x' : Sight} {spec : Option (SpecCfg × Ref)}
    (h : ∀ ref, x'.vector ref r.seqId = x.vector ref r.seqId) (hr : Told x spec r) :
    Told x' spec r := by
  refine ⟨hr.bounded, fun hsome => ?_⟩
  obtain ⟨cfg, ref, heq, hvector, hlen, hfrom, hbefore⟩ := hr.seen hsome
  exact ⟨cfg, ref, heq, (h ref).trans hvector, hlen, hfrom, hbefore⟩

/-- A request is put back after a call that changed the vector of its seq at most. -/
theorem AllTold.putReq {x : σ × Specs υ} (hkeys : KeysMatch d.reqTable)
    (hothers : ∀ ref q, q ≠ r.seqId → x.2.vector ref q = d.sys.ctx.2.vector ref q)
    (hr : Told x.2.sight d.spec r) (hd : AllTold d) : AllTold (putReq (withCtx d x) r) := by
  intro q r' hr'
  rw [lookup_putReq] at hr'
  split at hr'
  · cases hr'
    exact hr
  case isFalse hne =>
    apply (hd q r' hr').of_vector
    intro ref
    exact hothers ref _ (hkeys q r' hr' ▸ hne)

/-- The last token of a request that has generated one. -/
theorem generated_eq_dropLast (hgen : r.generated ≠ []) :
    r.generated = r.generated.dropLast ++ [r.generated.getLastD 0] := by
  rw [List.getLastD_eq_getLast?, List.getLast?_eq_some_getLast hgen, Option.getD_some]
  exact (List.dropLast_append_getLast hgen).symm

variable (up env)

/-- **A draft** is asked for with all that is committed, and the cursor follows. -/
theorem specDraftFor_drafts (hkeys : KeysMatch d.reqTable)
    (hr : d.reqTable.lookup r.seqId = some r) (hgoes : r.finishing = false)
    (hgen : r.generated ≠ []) (hd : AllTold d) :
    Drafts d (specDraftFor (speculating up env) d r).2 := by
  have hnothing : Drafts d d := (Advances.refl d).drafts hd
  unfold specDraftFor
  split
  case h_2 => exact hnothing
  case h_1 cb cfg cfg' ref hcb hspec hres =>
    obtain ⟨cb, -, rfl⟩ := Option.map_eq_some_iff.mp hcb
    split
    · exact hnothing
    -- The request speculates: its generated tokens were told up to the cursor.
    · have hsome : r.spec.isSome := by
        rw [hspec]
        rfl
      obtain ⟨hbounded, hseen⟩ := hd _ r hr
      obtain ⟨cfg'', ref', heq, hseen⟩ := hseen hsome
      rw [hres] at heq
      cases heq
      have hlast := generated_eq_dropLast hgen
      obtain ⟨vector, hcalls, hothers, hvector⟩ := nifSpecDraft_spec up
        hseen.vector (r.generated.getLastD 0) (specDelta r)
      rw [hseen.append_specDelta] at hvector
      -- The vector ends with the last token, or has one that cannot be drafted for.
      have hdrafts : DraftsFor r ⟨r.seqId, r.generated.getLastD 0, vector⟩ := by
        refine ⟨r.generated.dropLast, hlast, ?_⟩
        rcases hvector with ⟨hvec, -⟩ | ⟨hvec, ⟨t, ht, hbad⟩, -⟩
        · exact .inl hvec
        · refine .inr ⟨hvec, t, ?_, hbad⟩
          rcases List.mem_cons.mp ht with rfl | ht
          · rw [hlast]
            simp
          · exact List.mem_of_mem_drop (List.mem_of_mem_take ht)
      unfold specCallbacks
      dsimp only
      generalize hdraft : nifSpecDraft up d.sys.ctx.2 ref r.seqId (r.generated.getLastD 0)
        (specDelta r) = res at hcalls hothers hvector ⊢
      have hput : ∀ {r' : Req Sid}, r'.seqId = r.seqId → Told res.2.sight d.spec r' →
          AllTold (putReq (withCtx d (d.sys.ctx.1, res.2)) r') := by
        intro r' hseq hr'
        refine AllTold.putReq hkeys (fun ref' q hne => ?_) hr' hd
        exact hothers ref' q fun heq => hne (heq.2.trans hseq.symm)
      have hnew : ∃ new, res.2.calls = d.sys.ctx.2.calls ++ new ∧
          ∀ c ∈ new, Drafted d.reqTable c := by
        refine ⟨_, hcalls, fun c hc => ?_⟩
        rw [List.mem_singleton] at hc
        rw [hc]
        exact ⟨r, hr, hgoes, hsome, hdrafts⟩
      -- A refused draft moves no cursor.
      cases hanswer : res.1 with
      | error e => exact ⟨hput rfl ⟨hbounded, nofun⟩, hnew⟩
      | ok draft =>
        -- the cursor is at the last token, which the vector stops before
        have htold : Told res.2.sight d.spec
            { r with specCursor := r.specPromptLen + r.generated.length - 1 } := by
          refine ⟨hbounded, fun _ => ⟨_, ref, hres, ?_⟩⟩
          rcases hvector with ⟨-, hvec⟩ | ⟨-, -, e, he⟩
          · exact hseen.draft hgen hvec
          · rw [he] at hanswer
            exact nomatch hanswer
        dsimp only [Except.mapError]
        split
        · exact ⟨hput rfl htold, hnew⟩
        · exact ⟨hput rfl htold, hnew⟩

/-- **The speculation of a tick**: at most one draft call, for the sole active request. -/
theorem maybeSpecTick_drafts (hkeys : KeysMatch d.reqTable) (hd : AllTold d) :
    Drafts d (maybeSpecTick (speculating up env) d).2 := by
  have hnothing : Drafts d d := (Advances.refl d).drafts hd
  unfold maybeSpecTick
  split
  case h_2 => exact hnothing
  case h_1 r hactive =>
    split
    case isFalse => exact hnothing
    case isTrue hdecodes =>
      obtain ⟨-, -, -, hgen⟩ := hdecodes
      obtain ⟨hr, hgoes⟩ := active_unfinished hkeys (hactive ▸ List.mem_singleton_self r)
      exact specDraftFor_drafts up env hkeys hr hgoes hgen hd

end Draft

/-! ### An admission -/

section Admission

variable {up : Upstream υ} {env : Env σ γ} {d : Data (σ × Specs υ) γ Sid}

/-- Where no request speculates it does not matter what the speculators saw. -/
theorem AllTold.of_unspoken {d' : Data (σ × Specs υ) γ Sid} (hd : AllTold d)
    (hnone : TableAll (fun r => r.spec.isSome = false) d.reqTable)
    (htable : d'.reqTable = d.reqTable) : AllTold d' := by
  intro q r hr
  rw [htable] at hr
  refine ⟨(hd q r hr).bounded, fun hsome => ?_⟩
  rw [hnone q r hr] at hsome
  exact nomatch hsome

variable (up env)

/-- The speculator of a configuration, if there is one: its making called no drafter. -/
structure Provides (cfg : SpecCfg) (d : Data (σ × Specs υ) γ Sid)
    (res : Option Ref × Data (σ × Specs υ) γ Sid) : Prop where
  advances : Advances d res.2
  table : res.2.reqTable = d.reqTable
  spec : ∀ ref, res.1 = some ref → res.2.spec = some (cfg, ref)

/-- A new speculator knows nothing yet. -/
theorem newSpecResource_provides (cb : SpecCallbacks σ) (cfg : SpecCfg)
    (hnone : AllTold d → TableAll (fun r => r.spec.isSome = false) d.reqTable) :
    Provides cfg d (newSpecResource (speculating up env) d (specCallbacks up cb) cfg) := by
  have hcalls := nifSpecNew_calls up d.sys.ctx.2 cfg env.cfg.nSeqMax
  unfold newSpecResource
  split
  case h_1 ref ctx h =>
    have hctx : ctx.2.calls = (nifSpecNew up d.sys.ctx.2 cfg env.cfg.nSeqMax).2.calls :=
      congrArg (fun x => x.2.2.calls) h.symm
    refine ⟨⟨hctx.trans hcalls, fun hd => hd.of_unspoken (hnone hd) rfl⟩, rfl, ?_⟩
    intro ref' heq
    cases heq
    rfl
  case h_2 e ctx h =>
    have hctx : ctx.2.calls = (nifSpecNew up d.sys.ctx.2 cfg env.cfg.nSeqMax).2.calls :=
      congrArg (fun x => x.2.2.calls) h.symm
    exact ⟨⟨hctx.trans hcalls, fun hd => hd.of_unspoken (hnone hd) rfl⟩, rfl, nofun⟩

/-- A speculator is replaced while no request uses it. -/
theorem ensureSpecResource_provides (d : Data (σ × Specs υ) γ Sid) (cb : SpecCallbacks σ)
    (cfg : SpecCfg) :
    Provides cfg d (ensureSpecResource (speculating up env) d (specCallbacks up cb) cfg) := by
  unfold ensureSpecResource
  split
  case h_1 hspec =>
    refine newSpecResource_provides up env cb cfg fun hd q r hr =>
      Bool.eq_false_iff.mpr fun hsome => ?_
    obtain ⟨cfg', ref, heq, -⟩ := (hd q r hr).seen hsome
    rw [hspec] at heq
    exact nomatch heq
  case h_2 other ref hspec =>
    split
    case isTrue hsame =>
      refine ⟨.refl d, rfl, fun ref' heq => ?_⟩
      cases heq
      rw [hspec, hsame]
    case isFalse =>
      split
      case isTrue => exact ⟨.refl d, rfl, nofun⟩
      case isFalse hidle =>
        have hnone : TableAll (fun r => r.spec.isSome = false) d.reqTable := by
          refine fun q r hr => Bool.eq_false_iff.mpr fun hsome => hidle ?_
          exact List.any_eq_true.mpr ⟨r, mem_requests.mpr ⟨q, hr⟩, hsome⟩
        have hfree : Advances d
            (withCtx d (d.sys.ctx.1, (nifSpecFree d.sys.ctx.2 ref).2)) :=
          ⟨nifSpecFree_calls _ ref, fun hd => hd.of_unspoken hnone rfl⟩
        obtain ⟨hadvances, htable, href⟩ := newSpecResource_provides up env
          (d := withCtx d (d.sys.ctx.1, (nifSpecFree d.sys.ctx.2 ref).2)) cb cfg fun _ => hnone
        exact ⟨hfree.trans hadvances, htable, href⟩

/-- **The speculation of a new request** begins with its prompt. -/
theorem setupSpec_told {r : Req Sid} (hr : r.New) (hkeys : KeysMatch d.reqTable)
    (hfree : d.reqTable.lookup r.seqId = none) (opt : Option SpecOpt) :
    Advances d (setupSpec (speculating up env) d r opt).2 ∧
      (setupSpec (speculating up env) d r opt).2.reqTable = d.reqTable ∧
      Told (sightOf (setupSpec (speculating up env) d r opt).2)
        (setupSpec (speculating up env) d r opt).2.spec
        (setupSpec (speculating up env) d r opt).1 := by
  have hsilent : ∀ {x : Sight} {spec : Option (SpecCfg × Ref)}, Told x spec r := by
    refine ⟨hr.bounded, fun hsome => ?_⟩
    rw [hr.spec] at hsome
    cases hsome
  unfold setupSpec
  split
  case h_2 => exact ⟨.refl d, rfl, hsilent⟩
  case h_1 cb opt hcb =>
    obtain ⟨cb, -, rfl⟩ := Option.map_eq_some_iff.mp hcb
    split
    case isFalse => exact ⟨.refl d, rfl, hsilent⟩
    case isTrue =>
      have hprovides := ensureSpecResource_provides up env d cb opt.normalize
      dsimp only
      generalize ensureSpecResource (speculating up env) d (specCallbacks up cb)
        opt.normalize = res at hprovides ⊢
      obtain ⟨hadvances, htable, hspec⟩ := hprovides
      split
      case h_2 => exact ⟨hadvances, htable, hsilent⟩
      case h_1 ref href =>
        obtain ⟨hcalls, hothers, hvector⟩ := nifSpecBegin_spec up res.2.sys.ctx.2 ref r.seqId
          r.promptTokens
        unfold specCallbacks
        dsimp only
        generalize nifSpecBegin up res.2.sys.ctx.2 ref r.seqId r.promptTokens = begun
          at hcalls hothers hvector ⊢
        have hbegun : Advances res.2 (withCtx res.2 (res.2.sys.ctx.1, begun.2)) := by
          refine ⟨hcalls, fun hd q r' hr' => (hd q r' hr').of_vector fun ref' => ?_⟩
          apply hothers
          rintro ⟨-, heq⟩
          have hr'' : d.reqTable.lookup q = some r' := htable ▸ hr'
          rw [← hkeys q r' hr'', heq, hfree] at hr''
          cases hr''
        cases hanswer : begun.1 with
        | error e => exact ⟨hadvances.trans hbegun, htable, hsilent⟩
        | ok u =>
          have htake : (r.promptTokens ++ r.generated).take r.promptTokens.length
              = r.promptTokens := by
            rw [hr.generated, List.append_nil, List.take_length]
          refine ⟨hadvances.trans hbegun, htable, hr.bounded, fun _ => ?_⟩
          refine ⟨_, ref, hspec ref href, ?_, rfl, le_refl _, Nat.le_add_right _ _⟩
          exact (hvector hanswer).trans (congrArg some htake.symm)

variable {up env}

/-- Nothing that is seen of the speculators changed, nor any request. -/
theorem Advances.of_view {d' : Data (σ × Specs υ) γ Sid}
    (hview : (specView up env).view d'.sys.ctx = (specView up env).view d.sys.ctx)
    (hspec : d'.spec = d.spec) (htable : d'.reqTable = d.reqTable) : Advances d d' :=
  have hleaves : Leaves (specView up env) (Told (sightOf d) d.spec) d d' :=
    .of_table hview hspec htable
  .of_leaves hleaves

/-- **A prepared request on a free seq** comes with its speculator told. -/
theorem startPrepared_advances {q : SeqId} {sid : Option Sid} {prompt : List Token}
    {prepared : Except Err (Prepared Sid) × Data (σ × Specs υ) γ Sid}
    (hkeys : KeysMatch d.reqTable) (hfree : d.reqTable.lookup q = none)
    (hprep : PreparedOk (speculating up env).plain d q sid prompt prepared)
    (hnew : ∀ p, prepared.1 = .ok p → p.record.New) (mode : AdmitMode) :
    Advances d (startPrepared (speculating up env) mode prepared).2 := by
  have hcontent := hprep.content
  have htable : prepared.2.reqTable = d.reqTable := by
    rw [hprep.eq]
    rfl
  have hspec : prepared.2.spec = d.spec := by
    rw [hprep.eq]
    rfl
  have hquiet : Advances d prepared.2 :=
    .of_view (hprep.quiet.view (specView up env).toCtxView) hspec htable
  unfold startPrepared
  split
  case h_1 => exact hquiet
  case h_2 r prompt' spec lookup hr =>
    have hrec : r.New := hnew _ hr
    rw [hr] at hcontent
    obtain ⟨-, hq, -⟩ := hcontent
    obtain ⟨hsetup, hsame, htold⟩ := setupSpec_told up env (d := prepared.2) hrec
      (htable ▸ hkeys) (by rw [hq, htable, hfree]) spec
    unfold installReq
    dsimp only
    generalize setupSpec (speculating up env) prepared.2 r spec = withSpec at hsetup hsame htold ⊢
    have hpath := setupAdmissionPath_begins (speculating up env) withSpec.2 withSpec.1 mode
      prompt' lookup
    have hadmits := setupAdmissionPath_admits (speculating up env).plain withSpec.2 withSpec.1
      mode prompt' lookup
    rw [setupAdmissionPath_plain] at hadmits
    generalize setupAdmissionPath (speculating up env) withSpec.2 withSpec.1 mode prompt'
      lookup = admitted at hpath hadmits ⊢
    have hview : Advances withSpec.2 (withSys withSpec.2 admitted.2) :=
      .of_view (hadmits.onSeq.view (specView up env).toCtxView) rfl rfl
    have hsight : sightOf (withSys withSpec.2 admitted.2) = sightOf withSpec.2 :=
      hadmits.onSeq.view (specView up env).toCtxView
    refine ((hquiet.trans hsetup).trans hview).trans ⟨rfl, fun hd => ?_⟩
    refine TableAll.putReq (d := withSys withSpec.2 admitted.2) hd ?_
    show Told (sightOf (withSys withSpec.2 admitted.2)) withSpec.2.spec admitted.1
    rw [hsight]
    exact htold.carries hpath.carries
  case h_3 r hr =>
    have hrec : r.New := hnew _ hr
    refine hquiet.trans ⟨rfl, fun hd => TableAll.putReq hd ⟨hrec.bounded, fun hsome => ?_⟩⟩
    rw [hrec.spec] at hsome
    cases hsome

/-- The start of an admission, or its error. -/
theorem startAdmission_advances {phase : Phase} {frm : From}
    {started : Option Err × Data (σ × Specs υ) γ Sid}
    {onError : Data (σ × Specs υ) γ Sid → Data (σ × Specs υ) γ Sid}
    (h : Advances d started.2) (herror : ∀ d, Advances d (onError d)) :
    Advances d (startAdmission phase frm started onError).data := by
  unfold startAdmission
  split
  · exact h.trans (.of_same rfl rfl rfl)
  · exact (h.trans (herror _)).trans (.of_same rfl rfl rfl)

variable [LinearOrder Sid]

omit [LinearOrder Sid] in
variable (up env) in
/-- `start_request/4` on a free seq. -/
theorem startRequest_advances (hkeys : KeysMatch d.reqTable) {q : SeqId}
    (hfree : d.reqTable.lookup q = none) (item : Item Sid) (mode : AdmitMode) :
    Advances d (startRequest (speculating up env) d item q mode).2 :=
  startPrepared_advances hkeys hfree (prepareRequest_ok (speculating up env).plain d item q)
    (fun _ => prepareRequest_new (speculating up env)) mode

/-- A request arrives. -/
theorem admitRequest_advances (hd : Wf (speculating up env) d) (phase : Phase)
    (item : Item Sid) : Advances d (admitRequest (speculating up env) d phase item).data := by
  have hspec := resolveAdmissionSeq_spec (speculating up env) (G := .free) d item
  unfold admitRequest
  split
  case h_1 q mode hres =>
    rw [hres] at hspec
    obtain ⟨sid, s, -, -, hfree, rfl, -⟩ := hspec
    exact startAdmission_advances
      (startRequest_advances up env hd.table.keysMatch hfree item mode) .refl
  case h_2 d' hres =>
    rw [hres] at hspec
    have hwf := Moves.wf hspec hd
    refine (Advances.of_leaves (resolveAdmissionSeq_leaves (specView up env) hres)).trans ?_
    unfold admitNormal
    split
    case h_1 q d₁ halloc =>
      obtain ⟨-, htable, -⟩ := allocSeq_turn (speculating up env) halloc
      refine (Advances.of_leaves (allocSeq_leaves (specView up env) halloc)).trans ?_
      exact startAdmission_advances
        (startRequest_advances up env (htable ▸ hwf.table.keysMatch) (allocSeq_free hwf halloc) item
          .normal) fun _ => .of_same rfl rfl rfl
    case h_2 => split <;> exact .of_same rfl rfl rfl
  case h_3 => exact .of_same rfl rfl rfl

/-- A continuation arrives. -/
theorem admitContinue_advances (hkeys : KeysMatch d.reqTable) (phase : Phase) (frm : From)
    (suffix : List Token) (opts : ContinueOpts Sid) :
    Advances d (admitContinue (speculating up env) d phase frm suffix opts).data := by
  unfold admitContinue
  split
  case h_1 => exact .of_same rfl rfl rfl
  case h_2 s _ =>
    split
    case isTrue => exact .of_same rfl rfl rfl
    case isFalse hbusy =>
      have hfree := (inFlight_eq_false_iff d s.seqId).mp (Bool.eq_false_iff.mpr hbusy)
      split
      · exact .of_same rfl rfl rfl
      · exact startAdmission_advances (startPrepared_advances hkeys hfree
          (prepareContinue_ok (speculating up env).plain d frm suffix opts s.seqId s.tokens)
          (fun _ => prepareContinue_new (speculating up env)) _) .refl

/-- The queue is dispatched. -/
theorem dispatchAdmits_advances (items : List (Item Sid)) (hd : Wf (speculating up env) d) :
    Advances d (dispatchAdmits (speculating up env) items d) := by
  refine dispatchAdmits_rule (R := Advances) .refl Advances.trans ?_ items hd
  intro d d' q item rest hd halloc
  obtain ⟨-, htable, -⟩ := allocSeq_turn (speculating up env) halloc
  have hfree := allocSeq_free hd halloc
  have halloc' : Advances d { d' with pending := rest } :=
    (Advances.of_leaves (allocSeq_leaves (specView up env) halloc)).trans (.of_same rfl rfl rfl)
  have hstart := startRequest_advances up env
    (d := { d' with pending := rest }) (htable ▸ hd.table.keysMatch) hfree item .normal
  refine halloc'.trans ?_
  unfold startQueued
  dsimp only
  split
  · exact hstart
  · exact hstart.trans (.of_same rfl rfl rfl)

end Admission

/-! ### A tick -/

section Tick

variable [LinearOrder Sid] {up : Upstream υ} {env : Env σ γ} {d : Data (σ × Specs υ) γ Sid}

omit [LinearOrder Sid] in
/-- A cancelled request is marked, the others stay. -/
theorem lookup_of_honourCancellations (hkeys : KeysMatch d.reqTable) (q : SeqId) (r : Req Sid)
    (hr : (honourCancellations d).reqTable.lookup q = some r) (hgoes : r.finishing = false) :
    d.reqTable.lookup q = some r := by
  unfold honourCancellations at hr
  rw [lookup_updateReqs_eq (fun r r' h => ?_) hkeys] at hr
  · obtain ⟨r₀, hr₀, hsame⟩ := Option.map_eq_some_iff.mp hr
    by_cases hcancel : r₀.cancelPending = true
    · rw [if_pos hcancel, Option.getD_some] at hsame
      rw [← hsame] at hgoes
      cases hgoes
    · rw [if_neg hcancel, Option.getD_none] at hsame
      rw [← hsame]
      exact hr₀
  · split at h
    · cases h
      rfl
    · cases h

/-- **The body of a tick.** -/
theorem tickBody_drafts (hwf : Wf (speculating up env) d) (hd : AllTold d) :
    Drafts d (tickBody (speculating up env) d).data := by
  have hcancel : Advances d (honourCancellations d) :=
    .of_leaves (honourCancellations_leaves (specView up env) Told.carries d)
  have hwf' := (honourCancellations_moves (G := .free) hwf).wf hwf
  refine .after hcancel (lookup_of_honourCancellations hwf.table.keysMatch) ?_
  have hd' := hcancel.told hd
  unfold tickBody
  dsimp only
  cases hmedia : maybeMediaTick (honourCancellations d) with
  | some r =>
    have hactive : activeReqs (honourCancellations d) = [r] := by
      unfold maybeMediaTick at hmedia
      split at hmedia
      case h_1 r' hactive =>
        split at hmedia
        · cases hmedia
          exact hactive
        · cases hmedia
      case h_2 => cases hmedia
    have hmediaTick : Advances (honourCancellations d)
        (runMediaTick (speculating up env) (honourCancellations d) r).data :=
      .of_leaves (runMediaTick_leaves (specView up env) Told.carries _
        (lookup_of_active hwf'.table hactive))
    exact hmediaTick.drafts hd'
  | none =>
    have hspec := maybeSpecTick_drafts up env hwf'.table.keysMatch hd'
    have hwf'' := (maybeSpecTick_moves (G := .free) hwf'.table).1.wf hwf'
    dsimp only
    cases (maybeSpecTick (speculating up env) (honourCancellations d)).1 with
    | some draft =>
      exact hspec.trans (.of_leaves
        (runSpecTick_leaves (specView up env) Told.carries _ draft.1 draft.2))
    | none =>
      exact hspec.trans (.of_leaves
        (stepTickOps_leaves (specView up env) Told.carries hwf''.table))

/-- What follows the step. -/
theorem tickAfterStep_advances (hd : Wf (speculating up env) d) :
    Advances d (tickAfterStep (speculating up env) d).data := by
  have hmark : Advances d (markTerminal d) :=
    .of_leaves (markTerminal_leaves (specView up env) Told.carries d)
  have hfinish : Advances (markTerminal d)
      (finishMarkedReqs (speculating up env) (markTerminal d)) :=
    .of_leaves (finishMarkedReqs_leaves (specView up env) (markTerminal d))
  have hqueue : Advances _ (dispatchPendingAdmits (speculating up env)
      (finishMarkedReqs (speculating up env) (markTerminal d))) :=
    dispatchAdmits_advances _ (finishMarkedReqs_wf hd)
  have hall := (hmark.trans hfinish).trans hqueue
  rcases tickAfterStep_cases (speculating up env) d with ⟨heq, -⟩ | heq
  · rw [heq]
    exact hall
  · rw [heq]
    exact hall.trans (.of_same rfl rfl rfl)

/-- **A tick.** -/
theorem stepTick_drafts (hwf : Wf (speculating up env) d) (hd : AllTold d) :
    Drafts d (stepTick (speculating up env) d).data := by
  have hbody := tickBody_drafts hwf hd
  have hends := tickBody_ends (G := .free) hwf
    (bodyOk_of (fun _ _ => trivial) (fun _ _ _ => trivial) (fun _ _ => trivial) _)
  unfold stepTick
  cases hend : tickBody (speculating up env) d with
  | stepped d' =>
    rw [hend] at hbody hends
    exact hbody.trans (tickAfterStep_advances (Moves.wf hends hwf))
  | recover d' e =>
    rw [hend] at hbody
    exact hbody.trans (.of_leaves (recoverInPlace_leaves (specView up env) d' e))
  | failed d' e =>
    rw [hend] at hbody
    exact hbody.trans (.of_leaves (failAllRequests_leaves (specView up env) d' _))
  | crashed d' =>
    rw [hend] at hbody
    exact hbody

end Tick

/-! ### A run -/

section Run

variable [LinearOrder Sid] {up : Upstream υ} {env : Env σ γ}

/-- **One event.** -/
theorem step_drafts {p : Proc (σ × Specs υ) γ Sid} (hwf : Wf (speculating up env) p.data)
    (hd : AllTold p.data) (e : Event Sid) :
    Drafts p.data (step (speculating up env) p e).data := by
  have hstay : Drafts p.data p.data := (Advances.refl p.data).drafts hd
  unfold step
  split
  · exact hstay
  · by_cases hspeaks : e.speaks = false
    · have hleaves : Advances p.data (handleEvent (speculating up env) p e).data :=
        .of_leaves (handleEvent_leaves (specView up env) Told.carries p hspeaks)
      exact hleaves.drafts hd
    · cases e with
      | request item => exact (admitRequest_advances hwf p.phase item).drafts hd
      | «continue» frm suffix opts =>
        exact (admitContinue_advances hwf.table.keysMatch p.phase frm suffix opts).drafts hd
      | tick =>
        have htake : Advances p.data (takeTick p.data) := .of_same rfl rfl rfl
        show Drafts p.data (handleTick (speculating up env) p).data
        unfold handleTick
        split
        · exact hstay
        · split
          · have hwf' := (takeTick_moves (G := .free) p.data).wf hwf
            exact .after htake (fun _ _ hr _ => hr) (stepTick_drafts hwf' (htake.told hd))
          · exact htake.drafts hd
      | _ => exact absurd rfl hspeaks

omit [LinearOrder Sid] in
/-- No request has more than it asked for. -/
theorem AllTold.bounded {d : Data (σ × Specs υ) γ Sid} (h : AllTold d) :
    TableAll Req.Bounded d.reqTable :=
  fun q r hr => (h q r hr).bounded

/-- What an event has the speculator see, and how much there is of a request: after the event,
    and at the end of the body of a tick, before finished requests leave the table. -/
structure SeesCommitted (env : Env (σ × Specs υ) γ) (p : Proc (σ × Specs υ) γ Sid)
    (e : Event Sid) : Prop where
  drafts : ∃ new, (step env p e).data.sys.ctx.2.calls = p.data.sys.ctx.2.calls ++ new ∧
    ∀ c ∈ new, Drafted p.data.reqTable c
  bounded : TableAll Req.Bounded (step env p e).data.reqTable
  boundedBody : e = .tick → p.phase = .running → p.data.sys.ticks ≠ 0 →
    TableAll Req.Bounded (tickBody env (takeTick p.data)).data.reqTable

variable (up env)

/-- **The speculator sees the committed text.**  In every run, whatever the backend drafts and
    commits, a draft call is given the last token of its request, and the vector at hand is the
    prompt with all tokens before; and no request generates more than it asked for. -/
theorem run_committed (ctx : σ) (specs : Specs υ) (world : γ) (events : List (Event Sid)) :
    AllSteps (step (speculating up env)) (SeesCommitted (speculating up env))
      (init (speculating up env) (ctx, specs) world) events := by
  refine AllSteps.imp_of_invariant (P := fun _ _ => True)
    (I := fun p => Wf (speculating up env) p.data ∧ AllTold p.data) ?_ ?_ ?_
    (.of_forall (fun _ _ => trivial) _ _)
  · rintro p e ⟨hwf, hd⟩ -
    exact ⟨step_wf hwf e, (step_drafts hwf hd e).told⟩
  · rintro p e ⟨hwf, hd⟩ -
    obtain ⟨htold, hcalls⟩ := step_drafts hwf hd e
    refine ⟨hcalls, htold.bounded, fun _ _ _ => ?_⟩
    have htake : Advances p.data (takeTick p.data) := .of_same rfl rfl rfl
    have hwf' := (takeTick_moves (G := .free) p.data).wf hwf
    exact (tickBody_drafts hwf' (htake.told hd)).told.bounded
  · exact ⟨wf_init _ world, fun _ _ hr => nomatch hr⟩

end Run

/-- It drafts the same whatever it sees. -/
def fixedUpstream : Upstream Unit where
  init _ _ := some (some ())
  begin u _ _ := (true, u)
  draft u _ _ _ := (some [8, 9], u)
  accept u _ _ := (true, u)

/-- One token of each draft is accepted. -/
def halfParams : MapParams := { plainParams with commit := ⟨[8, 11], false, 1⟩ }

/-- A speculative stream of up to `n` tokens. -/
def draftingRequest (tokens : List Token) (n : Nat) : Item Nat :=
  .infer 0 tokens ⟨⟨some n, [], false, none, ⟨0, []⟩⟩, none, none, none, some ⟨none, none, none⟩,
    .block⟩ 0

/-- Between the drafts of a request another one comes and goes. -/
example : (run (step (speculating fixedUpstream (mapEnv halfParams .empty 2)))
    (init (speculating fixedUpstream (mapEnv halfParams .empty 2)) (.empty, ⟨[], []⟩) ())
    [.request (draftingRequest [65] 8), .tick, .tick, .tick, .request (draftingRequest [66] 2),
      .tick, .tick, .tick, .tick]).data.sys.ctx.2.calls =
    [⟨0, 7, some [65]⟩, ⟨0, 7, some [65, 7, 8, 11, 7, 7]⟩] := by
  decide +kernel

end Erllama.Native
