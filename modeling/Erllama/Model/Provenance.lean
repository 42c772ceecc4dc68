import Erllama.Model.Lora
import Erllama.Model.KvAgrees

namespace Erllama.Model

open Lib

/-!
# The adapters behind saved cells

The key of a save carries the effective fingerprint of the request's admission, and its payload
the cells of the request's seq.

* `EntryTagged` — every cell of a save was decoded under adapters with the key's fingerprint.
* `loraGuard` — the conditions that keep it so.
* `loraContract`, `run_entriesTagged` — it holds of every save of a run under them.
-/

variable {σ γ Sid : Type} {env : Env σ γ}

/-- Every cell was decoded under adapters with the effective fingerprint `fp`. -/
def TaggedAs (env : Env σ γ) (fp : Digest) (cells : List (List (Digest × ℚ))) : Prop :=
  ∀ c ∈ cells, fpOf env c = fp

/-- The cells that a save packs were decoded under adapters with the fingerprint of its key. -/
def EntryTagged (A : AdapterModel env) : Entry σ Sid → Prop
  | .save c => TaggedAs env c.buildMeta.fingerprint (A.cells c.ctx c.req.seqId)
  | .pin _  => True

instance (A : AdapterModel env) : DecidablePred (EntryTagged A : Entry σ Sid → Prop)
  | .save c => inferInstanceAs (Decidable (∀ tag ∈ A.cells c.ctx c.req.seqId,
      fpOf env tag = c.buildMeta.fingerprint))
  | .pin _ => .isTrue trivial

/-- The payload of every row was decoded under adapters with the fingerprint of its key. -/
def RowsTagged (A : AdapterModel env) (row : CacheKey → RowKey) : Prop :=
  RowsSatisfy env A.toKvModel fun key _ cells =>
    HandsOut env.cache key ∧ TaggedAs env (row key).fp cells

/-- The fingerprint of a request is the current one. -/
def Current (d : Data σ γ Sid) (r : Req Sid) : Prop := r.requestFp = some d.effectiveFp

instance (d : Data σ γ Sid) : DecidablePred (Current d) :=
  fun _ => inferInstanceAs (Decidable (_ = _))

/-- The guard of a run whose saves are tagged with their fingerprints: an adopted parent row is
    of the current fingerprint; a request resumes on a seq whose cells are of it; rows are
    decoded for requests of it only; no recovery finds adapters attached; and no adapter call
    sets a scale of zero or fails after the backend has begun to change the set. -/
def loraGuard (A : AdapterModel env) (row : CacheKey → RowKey) : Guard σ γ Sid :=
  { Guard.free with
    start := fun d r lookup => CollisionFree env row d r r.promptTokens ∧
      ∀ key, adoptedParent env d r r.promptTokens lookup.parentKey = some key →
        (row key).fp = d.effectiveFp
    startMedia := fun d r => TaggedAs env d.effectiveFp (A.cells d.sys.ctx r.seqId)
    resume := fun d r => TaggedAs env d.effectiveFp (A.cells d.sys.ctx r.seqId)
    results := fun d pairs => ∀ pair ∈ pairs, ∀ r, d.reqTable.lookup pair.1.1 = some r → Current d r
    commit := fun d q _ => ∀ r, d.reqTable.lookup q = some r → Current d r
    prefill := Current
    recover := fun adapters => adapters = []
    inspect := fun d => ∀ r, d.reqTable.lookup 0 = some r → Current d r
    load := LoadClean A
    unload := UnloadWorks env
    scale := ScaleClean A }

/-! ### Requests and their cells -/

/-- The cells of a request's seq are of the request's fingerprint. -/
def FitsTag (env : Env σ γ) (r : Req Sid) (cells : List (List (Digest × ℚ))) : Prop :=
  ∃ fp, r.requestFp = some fp ∧ TaggedAs env fp cells

/-- A part of a tagged context is tagged. -/
theorem trims_taggedAs (fp : Digest) : Trims fun _ : List Token => TaggedAs env fp :=
  ⟨fun _ h => (nomatch h), fun _ h c hc => h c (List.mem_of_mem_take hc)⟩

/-- Fewer cells fit. -/
theorem FitsTag.of_subset {r : Req Sid} {cs cs' : List (List (Digest × ℚ))}
    (h : FitsTag env r cs) (hsub : ∀ c ∈ cs', c ∈ cs) : FitsTag env r cs' := by
  obtain ⟨fp, hfp, htag⟩ := h
  exact ⟨fp, hfp, fun c hc => htag c (hsub c hc)⟩

/-- Cells decoded now are of the fingerprint of a request that is current. -/
theorem FitsTag.grow {A : AdapterModel env} {d : Data σ γ Sid} {r : Req Sid}
    {cs cs' : List (List (Digest × ℚ))} (h : FitsTag env r cs)
    (hside : Attached A d.sys.ctx d.effectiveFp d.adapters) (hr : Current d r)
    (hcells : ∀ c ∈ cs', c ∈ cs ∨ c = (A.lora d.sys.ctx).installed) : FitsTag env r cs' := by
  obtain ⟨fp, hfp, htag⟩ := h
  have heq : fp = d.effectiveFp := Option.some.inj (hfp.symm.trans hr)
  refine ⟨fp, hfp, fun c hc => ?_⟩
  rcases hcells c hc with hold | rfl
  · exact htag c hold
  · rw [heq]
    exact hside.installed

/-- A save for a request whose cells fit is tagged with its fingerprint. -/
theorem CallFor.tagged {A : AdapterModel env} {d : Data σ γ Sid} {r : Req Sid}
    {tokens : List Token} {c : SaveCall σ Sid} (h : CallFor env d r tokens c)
    (hfit : FitsTag env r (A.cells d.sys.ctx r.seqId)) : EntryTagged A (.save c) := by
  obtain ⟨reason, r₀, hident, rfl⟩ := h
  obtain ⟨fp, hfp, htag⟩ := hfit
  show TaggedAs env (requestFp d r₀) (A.cells d.sys.ctx r₀.seqId)
  unfold requestFp
  rw [hident.seqId, hident.requestFp, hfp]
  exact htag

/-- A save of a fitting context is tagged. -/
theorem Fires.tagged {A : AdapterModel env} {d : Data σ γ Sid} {r : Req Sid}
    {tokens : List Token} {s : Sys σ γ Sid} (h : Fires env d r tokens s)
    (hfit : FitsTag env r (A.cells d.sys.ctx r.seqId)) :
    ∀ e ∈ s.log, e ∈ d.sys.log ∨ EntryTagged A e := by
  intro e he
  rcases h.log with hsame | ⟨c, hcall, hone⟩
  · exact .inl (hsame ▸ he)
  · rw [hone, List.mem_append, List.mem_singleton] at he
    rcases he with hold | rfl
    · exact .inl hold
    · exact .inr (hcall.tagged hfit)

/-- The saves of a speculative commit. -/
theorem applySpecCommitted_tagged {A : AdapterModel env} {q : SeqId} {eog : Bool}
    {tokens : List Token} {d : Data σ γ Sid} {r : Req Sid}
    (hr : d.reqTable.lookup q = some r) (hq : r.seqId = q)
    (hfit : FitsTag env r (A.cells d.sys.ctx q)) :
    ∀ e ∈ (applySpecCommitted env q eog tokens d).2.sys.log,
      e ∈ d.sys.log ∨ EntryTagged A e := by
  induction tokens generalizing d r with
  | nil => exact fun _ => .inl
  | cons tok rest ih =>
    intro e he
    unfold applySpecCommitted at he
    rw [hr] at he
    dsimp only at he
    split at he
    case isTrue => exact .inl he
    case isFalse =>
      have happ := tokenResult_applies env d r tok (if rest = [] then eog else false)
      generalize tokenResult env d r tok (if rest = [] then eog else false) = res at happ he
      have hq' : res.1.seqId = q := happ.ident.seqId.trans hq
      have hr' : (putReq (withSys d res.2) res.1).reqTable.lookup q = some res.1 := by
        rw [lookup_putReq, if_pos hq'.symm]
      obtain ⟨fp, hfp, htag⟩ := hfit
      have hfit' : FitsTag env res.1 (A.cells (putReq (withSys d res.2) res.1).sys.ctx q) := by
        refine ⟨fp, happ.ident.requestFp.trans hfp, ?_⟩
        show TaggedAs env fp (A.cells res.2.ctx q)
        rw [happ.fires.ctx]
        exact htag
      rcases ih hr' hq' hfit' e he with hold | hnew
      · exact happ.fires.tagged ⟨fp, hfp, hq.symm ▸ htag⟩ e hold
      · exact .inr hnew

/-- What a commit leaves of the cells of its seq: all of them, or the first ones. -/
theorem commitSpec_cells {M : KvModel env.be (List (Digest × ℚ))} {q : SeqId}
    {draft : List Token} {res : SpecResult} {d d' : Data σ γ Sid}
    (h : commitSpec env d q draft res = .stepped d') :
    (∀ c ∈ M.cells d'.sys.ctx q, c ∈ M.cells d.sys.ctx q) ∧
      d'.sys.log = (applySpecCommitted env q res.eog res.committed d).2.sys.log := by
  have hctx := (applySpecCommitted_same env q res.eog res.committed d).1
  have hfeedback : ∀ d₁ : Data σ γ Sid,
      M.cells (specRecordFeedback env d₁ q draft.length res.nAcc).sys.ctx
          = M.cells d₁.sys.ctx ∧
        (specRecordFeedback env d₁ q draft.length res.nAcc).sys.log = d₁.sys.log := by
    intro d₁
    have hquiet := specAccept_quiet env d₁ q res.nAcc
    unfold specRecordFeedback
    dsimp only
    split <;> exact ⟨hquiet.cells M, hquiet.log⟩
  unfold commitSpec at h
  dsimp only at h
  split at h
  case h_1 => exact nomatch h
  case h_2 leftover _ =>
    cases h
    split
    case isTrue =>
      obtain ⟨hcells, hlog⟩ := hfeedback (applySpecCommitted env q res.eog res.committed d).2
      refine ⟨fun c hc => ?_, hlog⟩
      rwa [hcells, hctx] at hc
    case isFalse =>
      generalize (applySpecCommitted env q res.eog res.committed d).2 = d₁ at hctx
      obtain ⟨hcells, hlog⟩ := hfeedback (specTrimOvershoot env d₁ q)
      have htrim : (∀ c ∈ M.cells (specTrimOvershoot env d₁ q).sys.ctx q,
          c ∈ M.cells d₁.sys.ctx q) ∧
          (specTrimOvershoot env d₁ q).sys.log = d₁.sys.log := by
        unfold specTrimOvershoot
        split
        case h_1 => exact ⟨fun _ => id, rfl⟩
        case h_2 r _ =>
          refine ⟨fun c hc => ?_, (backendSeqRmFrom_onSeq env d₁.sys q _).log⟩
          obtain ⟨hok, herr⟩ := backendSeqRmFrom_cells M d₁.sys q r.contextTokens.length
          change c ∈ M.cells (backendSeqRmFrom env d₁.sys q r.contextTokens.length).2.ctx q at hc
          cases hres : (backendSeqRmFrom env d₁.sys q r.contextTokens.length).1 with
          | ok u =>
            rw [hok u hres, Function.update_self] at hc
            exact List.mem_of_mem_take hc
          | error e => rwa [herr e hres] at hc
      refine ⟨fun c hc => ?_, hlog.trans htrim.2⟩
      rw [hcells] at hc
      rw [← hctx]
      exact htrim.1 c hc

/-! ### The contract -/

variable [LinearOrder Sid]

omit [LinearOrder Sid] in
/-- A fresh admission restores cells of the current fingerprint, or starts cold. -/
theorem loraGuard_start {A : AdapterModel env} {row : CacheKey → RowKey}
    (hkeyed : RowsKeyed env row) (hrows : RowsTagged A row) {d : Data σ γ Sid} {r : Req Sid}
    {lookup : LookupOpts} (hr : FreshReq env d r) (hG : (loraGuard A row).start d r lookup)
    (prompt : List Token) :
    TaggedAs env d.effectiveFp
      (A.cells (setupAdmissionPath env d r .normal prompt lookup).2.ctx r.seqId) := by
  obtain ⟨hfree, hparent⟩ := hG
  have hfp : requestFp d r = d.effectiveFp := by
    unfold requestFp
    rw [hr.requestFp, Option.getD_some]
  refine setupLookup_matches (r := { r with prefixCheckpointLen := lookup.prefixCheckpointLen })
    (trims_taggedAs d.effectiveFp) hrows ?_
  rintro key w cells hadopts ⟨hout, htag⟩
  have hsame : (row key).fp = d.effectiveFp := by
    -- The checkpoint length of the record plays no part in the lookup.
    have hfree' : CollisionFree env row d
        { r with prefixCheckpointLen := lookup.prefixCheckpointLen } r.promptTokens := hfree
    rcases hadopts.fields hkeyed hfree' hout with hown | hadopted
    · exact (congrArg Prod.fst hown).trans hfp
    · exact hparent key hadopted
  rwa [hsame] at htag

/-- **The contract of the tags.** -/
def loraContract (A : AdapterModel env) {row : CacheKey → RowKey} (hkeyed : RowsKeyed env row)
    (hrows : RowsTagged A row) :
    Contract env (loraGuard A row : Guard σ γ Sid) A.toKvModel where
  side := Attached A
  inFlight := FitsTag env
  stored := fun _ _ => True
  entry := EntryTagged A
  clean := False
  side_move := fun h hside => h.attached ⟨fun _ => id, id, id, id⟩ hside
  core := fun hcore hfit => by
    obtain ⟨fp, hfp, htag⟩ := hfit
    exact ⟨fp, hcore.requestFp.trans hfp, htag⟩
  start := fun {d r lookup} _ hr hG prompt =>
    ⟨d.effectiveFp, (setupAdmissionPath_admits env d r .normal prompt lookup).same.requestFp.trans
      hr.requestFp, loraGuard_start hkeyed hrows hr hG prompt⟩
  startMedia := fun {d r} _ hr hG => ⟨d.effectiveFp, hr.requestFp, hG⟩
  resume := fun {d r ts prompt mode} _ hr hG hmode _ lookup =>
    ⟨d.effectiveFp, (setupAdmissionPath_admits env d r mode prompt lookup).same.requestFp.trans
      hr.requestFp,
      setupAdmissionPath_pinned_matches (trims_taggedAs d.effectiveFp) hmode lookup hG⟩
  results := by
    intro d ops results x pairs hside _ hstep hG q op res r hpair _ _ hr hq _ hfit d' out hctx hout
    have happ := stepResult_applies env d' r hout
    have hgrown : ∀ c ∈ A.cells x q,
        c ∈ A.cells d.sys.ctx q ∨ c = (A.lora d.sys.ctx).installed := by
      have hlaw := A.step_tagged d.sys.ctx ops results (by rw [hstep]) q
      rwa [hstep] at hlaw
    obtain ⟨fp, hfp, htag⟩ := hfit.grow hside (hG _ hpair r hr) hgrown
    refine ⟨⟨fp, happ.ident.requestFp.trans hfp, htag⟩, ?_⟩
    exact happ.fires.tagged ⟨fp, hfp, by rw [hctx, hq]; exact htag⟩
  commit := by
    intro d d' cb sampler q r draft res x hside hcb hr hq _ _ hstep hG hcommit hfit
    have hgrown : ∀ c ∈ A.cells x q,
        c ∈ A.cells d.sys.ctx q ∨ c = (A.lora d.sys.ctx).installed := by
      have hlaw := A.specStep_tagged hcb d.sys.ctx sampler q draft res (by rw [hstep])
      rwa [hstep] at hlaw
    have hfit' := hfit.grow hside (hG r hr) hgrown
    obtain ⟨hcells, hlog⟩ := commitSpec_cells (M := A.toKvModel) hcommit
    refine ⟨fun r' hr' => ?_, fun e he => ?_⟩
    · obtain ⟨fp, hfp, htag⟩ := hfit'.of_subset hcells
      have hident := commitSpec_ident (d := withCtx d x) hr hq hcommit r' hr'
      exact ⟨fp, hident.requestFp.trans hfp, htag⟩
    · rw [hlog] at he
      exact applySpecCommitted_tagged (d := withCtx d x) hr hq hfit' e he
  prefill := by
    intro d cb r n x hside hcb _ hcall hG hfit
    have hgrown : ∀ c ∈ A.cells x r.seqId,
        c ∈ A.cells d.sys.ctx r.seqId ∨ c = (A.lora d.sys.ctx).installed := by
      have hlaw := A.prefill_tagged hcb d.sys.ctx r.mediaPrompt (r.media.getD []) r.seqId
        r.mediaAddSpecial
      rwa [hcall] at hlaw
    obtain ⟨fp, hfp, htag⟩ := hfit.grow hside hG hgrown
    exact ⟨fp, hfp, htag⟩
  save := fun hfit _ hcall => hcall.tagged hfit
  evict := fun hfit _ _ _ hcall => hcall.tagged hfit
  keep := fun _ _ => trivial
  pin := fun _ => trivial
  inspect := by
    intro d x hside hinspects hG
    refine ⟨fun r hr hfit => ?_, fun _ _ _ _ _ => trivial⟩
    exact hfit.grow hside (hG r hr) (A.inspect_tagged hinspects)
  inspect_clean := False.elim
  fork := fun _ _ _ _ _ _ => trivial

/-- The adapters behind a map context. -/
def MapCtx.lora (x : MapCtx) : LoraState where
  installed := x.installed
  shaOf h := if h < x.nextHandle then x.loaded.lookup h else none

/-- A cell of a grown seq is an old one or was decoded under the installed adapters. -/
theorem mem_tag {x : MapCtx} {cells : List Cell} {tokens : List Token} {c : List (Digest × ℚ)}
    (h : c ∈ (cells ++ x.tag tokens).map Prod.snd) :
    c ∈ cells.map Prod.snd ∨ c = x.installed := by
  rw [List.map_append, List.mem_append] at h
  refine h.imp_right fun hnew => ?_
  unfold MapCtx.tag at hnew
  rw [List.map_map] at hnew
  obtain ⟨tok, -, rfl⟩ := List.mem_map.mp hnew
  rfl

/-- The tags of the map backend. -/
def mapAdapterModel (p : MapParams) (hsha : p.sha256 = shortHash) (c : MapCache) (n : Nat) :
    AdapterModel (mapEnv p c n) where
  toKvModel := mapModel p Prod.snd
  lora := MapCtx.lora
  lora_silent := by
    intro x y h
    induction h with
    | refl x => rfl
    | samplerNew h x cfg => cases h; rfl
    | samplerFree h x ref => exact nomatch h
    | specNew h x cfg n => cases h; rfl
    | specBegin h x ref q ts => cases h; rfl
    | specDraft h x ref q t ts => cases h; rfl
    | specAccept h x ref q n => cases h; rfl
    | specFree h x ref => cases h; rfl
    | trans _ _ ih ih' => exact ih'.trans ih
  lora_seqOps := by
    intro q x y h
    induction h with
    | refl x => rfl
    | rm h x => cases h; rfl
    | clear hrm h x => exact nomatch h
    | rmLast h x n =>
      cases h
      dsimp only
      split <;> rfl
    | rmLastSeq0 hrm h x n => exact nomatch h
    | unpack x bin => rfl
    | trans _ _ ih ih' => exact ih'.trans ih
  lora_seqCp := by
    rintro _ ⟨⟩ x src dst
    rfl
  lora_step := by
    intro x ops
    show MapCtx.lora (mapStep p x ops).2 = _
    unfold mapStep
    split <;> rfl
  lora_specStep := by
    rintro _ ⟨⟩ x sampler q draft
    rfl
  lora_prefill := by
    rintro _ ⟨⟩ x prompt items q special
    rfl
  lora_inspect := by
    intro x y h
    cases h with
    | verify h x pre cands k =>
      cases h
      rfl
    | embed h => exact nomatch h
  lora_load := by
    rintro _ ⟨⟩ x path content
    refine ⟨fun handle hok => ?_, fun _ h => nomatch h⟩
    obtain rfl := Except.ok.inj hok
    refine ⟨if_neg (Nat.lt_irrefl _), ?_⟩
    unfold MapCtx.lora
    congr 1
    funext h
    dsimp only
    rw [Function.update_apply, List.lookup_cons, hsha]
    by_cases hnew : h = x.nextHandle
    · rw [if_pos hnew, if_pos (hnew ▸ Nat.lt_succ_self h), hnew, beq_self_eq_true]
      rfl
    · rw [if_neg hnew, beq_false_of_ne hnew]
      by_cases hlt : h < x.nextHandle
      · rw [if_pos hlt, if_pos (Nat.lt_succ_of_lt hlt)]
      · rw [if_neg hlt, if_neg fun h' => (Nat.lt_succ_iff_lt_or_eq.mp h').elim hlt hnew]
  lora_unload := by
    rintro _ ⟨⟩ x handle
    rfl
  lora_apply := by
    refine ⟨_, rfl, fun x pairs => ⟨fun u _ hknown _ => ?_, fun _ h => nomatch h⟩⟩
    unfold MapCtx.lora LoraState.install
    congr 1
    refine List.filterMap_congr fun a ha => ?_
    have hsome := hknown a (List.mem_of_mem_filter ha)
    unfold MapCtx.lora at hsome
    dsimp only at hsome ⊢
    split at hsome
    case isTrue hlt => rw [if_pos hlt]
    case isFalse => exact nomatch hsome
  lora_reset := by
    rintro _ ⟨⟩ x u _
    rfl
  step_tagged := by
    intro x ops results hok q c hc
    replace hok : (mapStep p x ops).1 = .ok results := hok
    replace hc : c ∈ ((mapStep p x ops).2.kv q).map Prod.snd := hc
    unfold mapStep at hok hc
    split at hok
    case isTrue => exact nomatch hok
    case isFalse hrow =>
      rw [if_neg hrow] at hc
      exact mem_tag hc
  specStep_tagged := by
    rintro _ ⟨⟩ x sampler q draft res _ c hc
    have hset := congrFun (x.set_kv q (x.kv q ++ x.tag p.commit.committed) Prod.snd) q
    replace hc : c ∈ ((x.set q (x.kv q ++ x.tag p.commit.committed)).kv q).map Prod.snd := hc
    rw [hset, Function.update_self] at hc
    exact mem_tag hc
  prefill_tagged := by
    rintro _ ⟨⟩ x prompt items q special c hc
    exact .inl hc
  inspect_tagged := by
    intro x y h c hc
    cases h with
    | verify h x pre cands k =>
      cases h
      have hset := congrFun (x.set_kv 0 (x.kv 0 ++ x.tag pre) Prod.snd) 0
      replace hc : c ∈ ((x.set 0 (x.kv 0 ++ x.tag pre)).kv 0).map Prod.snd := hc
      rw [hset, Function.update_self] at hc
      exact mem_tag hc
    | embed h => exact nomatch h

/-- An empty cache has no row with a wrong key. -/
theorem empty_rowsKeyed (p : MapParams) (n : Nat) (row : CacheKey → RowKey) :
    RowsKeyed (mapEnv p .empty n) row := by
  rintro key ⟨w, holder, tier, tokensBin, w', hclaimed⟩
  obtain ⟨tokens, hrow, -⟩ := mapCache_claimed (c := .empty) hclaimed
  exact nomatch hrow

/-- Nor one with a wrong tag. -/
theorem empty_rowsTagged {p : MapParams} (hsha : p.sha256 = shortHash) (n : Nat)
    (row : CacheKey → RowKey) : RowsTagged (mapAdapterModel p hsha .empty n) row := by
  intro w key holder tier tokensBin w' hclaimed
  obtain ⟨tokens, hrow, -⟩ := mapCache_claimed (c := .empty) hclaimed
  exact nomatch hrow

/-- A request for two tokens after the given prompt. -/
def shortCompletion (prompt : Bytes) : Item Nat :=
  .complete 0 prompt ⟨⟨some 2, [], false, none, ⟨0, []⟩⟩, none, none, none, none, .block⟩

/-- An adapter is loaded while the request decodes. -/
def adapterMidway : List (Event Nat) :=
  [.request (shortCompletion [65]), .tick, .loadAdapter 1 [1] (some [2]), .tick, .tick]

/-- The short hash of a preimage with one adapter ends in zeros. -/
theorem shortHash_ne_fill {bytes : Bytes} (h : bytes.length = 72) : shortHash bytes ≠ .fill 1 := by
  intro heq
  have hten := congrArg (fun d : Digest => d.bytes[9]?) heq
  have hhead : (bytes.take 1 ++ bytes.drop 65).length = 8 := by
    rw [List.length_append, List.length_take, List.length_drop, h]
    rfl
  have hzero : (shortHash bytes).bytes[9]? = some 0 := by
    show ((bytes.take 1 ++ bytes.drop 65 ++ 1 :: List.replicate 32 0).take 32)[9]? = some 0
    rw [List.getElem?_take_of_lt (by decide), List.getElem?_append_right (by rw [hhead]; decide),
      hhead]
    rfl
  rw [hzero] at hten
  exact absurd hten (by decide)

/-- An adapter changes the fingerprint. -/
theorem fpOf_single_ne (p : MapParams) (c : MapCache) (n : Nat) (a : Digest × ℚ) :
    fpOf (mapEnv p c n) [a] ≠ .fill 1 := by
  refine shortHash_ne_fill ?_
  show ((Digest.fill 1).bytes ++ [a].flatMap adapterBytes).length = 72
  rw [List.flatMap_cons, List.flatMap_nil, List.append_nil, List.length_append]
  unfold adapterBytes
  rw [List.length_append, Digest.size_eq, Digest.size_eq]
  rfl

/-- The fingerprint and the tags of each save. -/
def savedTags (log : List (Entry MapCtx Nat)) : List (Digest × List (List (Digest × ℚ))) :=
  log.filterMap fun
    | .save c => some (c.buildMeta.fingerprint, (c.ctx.kv c.req.seqId).map Prod.snd)
    | .pin _  => none

omit [LinearOrder Sid] in
/-- The body of a tick meets the guard when every request is current. -/
theorem loraBody_of_current {A : AdapterModel env} {row : CacheKey → RowKey} {d : Data σ γ Sid}
    (hmedia : maybeMediaTick (honourCancellations d) = none)
    (h : ∀ e ∈ (maybeSpecTick env (honourCancellations d)).2.reqTable.entries,
      Current (maybeSpecTick env (honourCancellations d)).2 e.2) :
    BodyOk env (loraGuard A row) d := by
  have hall : ∀ q r, (maybeSpecTick env (honourCancellations d)).2.reqTable.lookup q = some r →
      Current (maybeSpecTick env (honourCancellations d)).2 r :=
    fun q r hr => h ⟨q, r⟩ (AList.mem_lookup_iff.mp hr)
  unfold BodyOk
  dsimp only
  rw [hmedia]
  dsimp only
  generalize maybeSpecTick env (honourCancellations d) = spec at hall
  split
  case h_1 r draft _ =>
    intro d' res hspec r' hr'
    unfold specResult at hspec
    split at hspec
    case h_2 => exact nomatch hspec
    case h_1 =>
      dsimp only at hspec
      split at hspec
      case h_2 => exact nomatch hspec
      case h_1 =>
        obtain ⟨rfl, -⟩ := Prod.mk.inj (Option.some.inj hspec)
        exact hall _ r' hr'
  case h_2 =>
    intro d' pairs hpairs pair _ r hr
    unfold stepResults at hpairs
    split at hpairs
    case h_1 => exact nomatch hpairs
    case h_2 => exact nomatch hpairs
    case h_3 ops _ _ =>
      dsimp only at hpairs
      split at hpairs
      case h_2 => exact nomatch hpairs
      case h_1 =>
        obtain ⟨pairs', -, heq⟩ := Option.map_eq_some_iff.mp hpairs
        obtain ⟨rfl, -⟩ := Prod.mk.inj heq
        exact hall _ r hr

/-- A tick with an empty queue leaves it empty. -/
theorem pending_tickBody {d d' : Data σ γ Sid} (hd : Wf env d) (hnone : d.pending = [])
    (h : tickBody env d = .stepped d') :
    (finishMarkedReqs env (markTerminal d')).pending = [] := by
  let G : Guard σ γ Sid := { Guard.free with enqueue := fun _ => False }
  have hbody : BodyOk env G d :=
    bodyOk_of (fun _ _ => trivial) (fun _ _ _ => trivial) (fun _ _ => trivial) d
  have hends := tickBody_ends hd hbody
  rw [h] at hends
  have hmark : Moves env G d (markTerminal d') :=
    Relation.ReflTransGen.trans hends (markTerminal_moves (Moves.wf hends hd))
  have hall : Moves env G d (finishMarkedReqs env (markTerminal d')) :=
    hmark.trans (finishMarkedReqs_moves (Moves.wf hmark hd) (.of_forall (fun _ _ => trivial) _ _))
  generalize finishMarkedReqs env (markTerminal d') = d₁ at hall
  induction hall with
  | refl => exact hnone
  | tail hmoves hmove ih =>
    refine List.eq_nil_iff_forall_not_mem.mpr fun item hitem => ?_
    rcases hmove.pending (Moves.wf hmoves hd).table item hitem with hold | hnew
    · rw [ih] at hold
      exact nomatch hold
    · exact hnew

/-- A tick of a process with an empty queue meets the guard when its body does. -/
theorem loraTick_ok {A : AdapterModel env} {row : CacheKey → RowKey} {p : Proc σ γ Sid}
    (hp : Wf env p.data) (hnone : p.data.pending = [])
    (hbody : BodyOk env (loraGuard A row) (takeTick p.data))
    (hsteps : ∀ d e, tickBody env (takeTick p.data) ≠ .recover d e) :
    StepOk env (loraGuard A row) p .tick := by
  refine fun _ _ _ => ⟨hbody, fun d hd => ⟨.of_forall (fun _ _ => trivial) _ _, ?_⟩,
    fun d e hd => absurd hd (hsteps d e)⟩
  have hempty := pending_tickBody (d := takeTick p.data) ⟨hp.table, hp.sound⟩ hnone hd
  refine ⟨fun _ _ => trivial, ?_⟩
  rw [hempty]
  trivial

/-- The short hash tells the text "A" from the empty one. -/
theorem shortHash_promptA_ne (fp : Digest) :
    shortHash (keyPreimage fp .f16 (.fill 0) [65])
      ≠ shortHash (keyPreimage fp .f16 (.fill 0) []) := by
  have hbyte : ∀ text : Bytes, (shortHash (keyPreimage fp .f16 (.fill 0) text)).bytes[1]?
      = (text ++ 1 :: List.replicate 32 0)[0]? := by
    intro text
    have hfields : (fp.bytes ++ quantByte .f16 :: (Digest.fill 0).bytes).length = 65 := by
      rw [List.length_append, List.length_cons, fp.size_eq, Digest.size_eq]
    have hpre : keyPreimage fp .f16 (.fill 0) text
        = (fp.bytes ++ quantByte .f16 :: (Digest.fill 0).bytes) ++ text := by
      unfold keyPreimage
      rw [List.append_assoc, List.cons_append]
    have hhead : ((keyPreimage fp .f16 (.fill 0) text).take 1).length = 1 := by
      rw [hpre, List.length_take, List.length_append, hfields]
      omega
    show (((keyPreimage fp .f16 (.fill 0) text).take 1
      ++ (keyPreimage fp .f16 (.fill 0) text).drop 65 ++ 1 :: List.replicate 32 0).take 32)[1]? = _
    rw [List.getElem?_take_of_lt (by decide), List.append_assoc,
      List.getElem?_append_right (by rw [hhead]), hhead, hpre, List.drop_left' hfields]
  intro heq
  have hsame := congrArg (fun d : Digest => d.bytes[1]?) heq
  rw [hbyte, hbyte] at hsame
  exact absurd hsame (by decide)

/-- With no rows in the cache, the prompt "A" compares two preimages only. -/
theorem promptA_collisionFree (row : CacheKey → RowKey) (d : Data MapCtx Unit Nat)
    (r : Req Nat) : CollisionFree (mapEnv plainParams .empty 1) row d r [65] := by
  have hcases : ∀ b ∈ comparedBytes (mapEnv plainParams .empty 1) row d r [65],
      b = keyPreimage (requestFp d r) .f16 (.fill 0) [] ∨
        b = keyPreimage (requestFp d r) .f16 (.fill 0) [65] := by
    rintro b (⟨key, ⟨w, holder, tier, tokensBin, w', hclaimed⟩, rfl⟩ | ⟨n, rfl⟩)
    · obtain ⟨tokens, hrow, -⟩ := mapCache_claimed (c := .empty) hclaimed
      exact nomatch hrow
    · cases n with
      | zero => exact .inl rfl
      | succ n =>
        right
        show keyPreimage _ _ _ ([65].take (n + 1)) = _
        rw [List.take_of_length_le (by simp)]
        rfl
  have hne := shortHash_promptA_ne (requestFp d r)
  intro b hb b' hb' heq
  replace heq : shortHash b = shortHash b' := heq
  rcases hcases b hb with rfl | rfl <;> rcases hcases b' hb' with rfl | rfl
  · rfl
  · exact absurd heq.symm hne
  · exact absurd heq hne
  · rfl

/-- With no rows in the cache, the prompt "A" meets the guard. -/
theorem promptA_ok {A : AdapterModel (mapEnv plainParams .empty 1)} {row : CacheKey → RowKey}
    (p : Proc MapCtx Unit Nat) :
    StepOk (mapEnv plainParams .empty 1) (loraGuard A row) p
      (.request (shortCompletion [65])) := by
  have hstart : ∀ (d : Data MapCtx Unit Nat) (q : SeqId),
      StartOk (mapEnv plainParams .empty 1) (loraGuard A row) d (shortCompletion [65]) q :=
    fun d q => ⟨promptA_collisionFree row _ _, fun key h => nomatch h⟩
  intro _
  show AdmitOk (mapEnv plainParams .empty 1) (loraGuard A row) p.data (shortCompletion [65])
  unfold AdmitOk
  rw [show resolveAdmissionSeq (mapEnv plainParams .empty 1) p.data (shortCompletion [65])
    = .normal p.data from rfl]
  dsimp only
  split
  · exact hstart _ _
  · trivial

/-- The apply call of the map backend never fails. -/
theorem mapAdapter_failsClean {p : MapParams} {hsha : p.sha256 = shortHash} {c : MapCache}
    {n : Nat} (x : MapCtx) (adapters : List Adapter) :
    FailsClean (mapAdapterModel p hsha c n) x adapters := by
  rintro _ e ⟨⟩ h
  exact nomatch h

/-- An adapter is loaded before the request, and scaled between it and the next one. -/
def adapterRun : List (Event Nat) :=
  [.loadAdapter 1 [1] (some [2]), .request (shortCompletion [65]), .tick, .tick, .tick,
    .setAdapterScale 2 0 2, .request (shortCompletion [65]), .tick, .tick, .tick]

/-- Whether the body of a tick asks for a recovery. -/
def recovers : TickEnd σ γ Sid → Bool
  | .recover _ _ => true
  | _            => false

/-- What the guard asks of the events of such runs: a tick finds no queue, no media request and
    only current requests, and needs no recovery; the requests are for the prompt "A"; and no
    scale is zero. -/
def FitsAdapters (p : Proc MapCtx Unit Nat) : Event Nat → Prop
  | .tick =>
    let d := honourCancellations (takeTick p.data)
    let spec := (maybeSpecTick (mapEnv plainParams .empty 1) d).2
    p.data.pending = [] ∧ (maybeMediaTick d).isNone ∧
      (∀ e ∈ spec.reqTable.entries, Current spec e.2) ∧
      recovers (tickBody (mapEnv plainParams .empty 1) (takeTick p.data)) = false
  | .request item            => item = shortCompletion [65]
  | .loadAdapter _ _ _       => True
  | .setAdapterScale _ _ scale => scale ≠ 0
  | _                        => False

instance (p : Proc MapCtx Unit Nat) : (e : Event Nat) → Decidable (FitsAdapters p e)
  | .tick                  => inferInstanceAs (Decidable (_ ∧ _ ∧ _ ∧ _))
  | .request _             => inferInstanceAs (Decidable (_ = _))
  | .loadAdapter _ _ _     => .isTrue trivial
  | .setAdapterScale _ _ _ => inferInstanceAs (Decidable (_ ≠ _))
  | .continue _ _ _        => .isFalse id
  | .endSession _ _        => .isFalse id
  | .forkSession _ _ _     => .isFalse id
  | .resetSession _ _      => .isFalse id
  | .verify _ _ _ _        => .isFalse id
  | .embed _ _             => .isFalse id
  | .embedBatch _ _        => .isFalse id
  | .evict _               => .isFalse id
  | .shutdown _            => .isFalse id
  | .unloadAdapter _ _     => .isFalse id
  | .cancel _              => .isFalse id

/-- A run that fits meets the guard. -/
theorem FitsAdapters.stepOk (row : CacheKey → RowKey) {p : Proc MapCtx Unit Nat} {e : Event Nat}
    (hp : Wf (mapEnv plainParams .empty 1) p.data) (h : FitsAdapters p e) :
    StepOk (mapEnv plainParams .empty 1)
      (loraGuard (mapAdapterModel plainParams rfl .empty 1) row) p e := by
  cases e with
  | tick =>
    obtain ⟨hnone, hmedia, hcurrent, hsteps⟩ := h
    refine loraTick_ok hp hnone (loraBody_of_current (Option.isNone_iff_eq_none.mp hmedia)
      hcurrent) fun d e heq => ?_
    rw [heq] at hsteps
    exact nomatch hsteps
  | request item =>
    obtain rfl : item = shortCompletion [65] := h
    exact promptA_ok p
  | loadAdapter => exact fun _ _ _ _ _ _ _ => mapAdapter_failsClean _ _
  | setAdapterScale frm handle scale =>
    exact fun _ _ _ _ => ⟨h, mapAdapter_failsClean _ _⟩
  | _ => exact h.elim

/-- With no rows in the cache, any fields will do for them. -/
def anyRow (_ : CacheKey) : RowKey := ⟨.fill 0, .f16, .fill 0, []⟩

end Erllama.Model
