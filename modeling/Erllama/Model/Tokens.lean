import Erllama.Model.Contract

namespace Erllama.Model

open Lib

/-!
# The tokens in the KV

The contract between the token lists of the process and the tokens its backend decoded: the
context of a request in flight, the tokens of a session at rest, and the token list of every
row and pin are what the seq's KV holds.

* `TokenModel` — a KV of tokens: a step appends the slice of a prefill row or the sampled token
  of a decode row, whatever its result is called.
* `EntryAgrees` — a save or pin describes the KV it was made from.
* `CountsTokens`, `CommitsCleanly` — the results and the commits that keep the lists in step.
* `tokenContract` — the contract, under a guard that lets only such results and commits pass.
-/

variable {σ γ Sid : Type}

/-- The tokens a row of a step appends to the KV of its seq.  The token behind a thinking
    marker is decoded like any other. -/
def Decoded : Op → StepResult → List Token → Prop
  | .prefill slice, _,             ts => ts = slice
  | .decode _, .token tok _ _,     ts => ts = [tok]
  | .decode _, .thinkingToken tok, ts => ts = [tok]
  | .decode _, .thinkingEnd,       ts => ts.length = 1
  | .decode _, .prefilled,         _  => True

/-- A KV of tokens. -/
structure TokenModel (be : Backend σ) extends KvModel be Token where
  step_row : ∀ x ops results, (ops.map Prod.fst).Nodup → (be.step x ops).1 = .ok results →
    ∀ q op res, (q, op) ∈ ops → (q, res) ∈ results →
      ∃ ts, Decoded op res ts ∧ cells (be.step x ops).2 q = cells x q ++ ts
  specStep_row : ∀ {cb}, be.spec = some cb → ∀ x sampler q draft res,
    (cb.step x sampler q draft).1 = .ok res →
      cells (cb.step x sampler q draft).2 q = cells x q ++ res.committed

/-- Partial removals are refused by recurrent and hybrid memories only. -/
def TrimsUnlessRecurrent (env : Env σ γ) : Prop :=
  env.cfg.recurrent = false → env.cfg.hybrid = false → ∀ f, env.be.seqRmLast = some f →
    ∀ x q n, (f x q n).1 = .ok ()

/-- Every row of the cache carries the token list of its payload. -/
def RowsCarryTokens {env : Env σ γ} (M : TokenModel env.be) : Prop :=
  RowsSatisfy env M.toKvModel fun _ tokens cells => cells = tokens

/-- The tokens a save or a pin describes are those in the seq's KV at that moment. -/
def EntryAgrees {be : Backend σ} (M : TokenModel be) : Entry σ Sid → Prop
  | .save c => M.cells c.ctx c.req.seqId = c.buildMeta.tokens
  | .pin c  => M.cells c.ctx c.seqId = c.tokens

/-! ### Results -/

/-- A result whose token the request counts: thinking tokens count only once the thinking budget
    is spent, and the end of a thinking block never does. -/
def Counted (r : Req Sid) : StepResult → Prop
  | .thinkingToken _ => r.thinkingCapped = true
  | .thinkingEnd     => False
  | .token _ _ _     => True
  | .prefilled       => True

/-- Every result for a text request is counted. -/
def CountsTokens (d : Data σ γ Sid) (pairs : List ResultPair) : Prop :=
  ∀ pair ∈ pairs, ∀ r, d.reqTable.lookup pair.1.1 = some r → r.media = none →
    Counted r pair.2

variable {env : Env σ γ} {d : Data σ γ Sid} {r : Req Sid}

/-- A counted result grows the context by what it appended to the KV. -/
theorem Decoded.eq_resultTokens {op : Op} {res : StepResult} {ts : List Token}
    (h : Decoded op res ts) (hcounted : Counted r res) {out : Req Sid × Sys σ γ Sid}
    (hout : stepResult env d r op res = some out) : ts = resultTokens r op res := by
  cases op with
  | prefill slice => exact h
  | decode ref =>
    cases res with
    | token tok eog lp => exact h
    | thinkingToken tok =>
      have hcapped : r.thinkingCapped = true := hcounted
      show ts = if r.thinkingCapped then [tok] else []
      rw [hcapped, if_pos rfl]
      exact h
    | thinkingEnd => exact hcounted.elim
    | prefilled => exact nomatch hout

/-- A save of the grown context, where the KV has grown alike, describes the KV. -/
theorem CallFor.agrees {M : TokenModel env.be} {tokens : List Token} {c : SaveCall σ Sid}
    (h : CallFor env d r tokens c) (hcells : M.cells d.sys.ctx r.seqId = tokens) :
    EntryAgrees M (.save c) := by
  obtain ⟨reason, r₀, hident, rfl⟩ := h
  show M.cells d.sys.ctx r₀.seqId = tokens
  rw [hident.seqId]
  exact hcells

/-- Entries of the log after a function that saves at most `tokens`. -/
theorem Fires.agrees {M : TokenModel env.be} {tokens : List Token} {s : Sys σ γ Sid}
    (h : Fires env d r tokens s) (hcells : M.cells d.sys.ctx r.seqId = tokens)
    {e : Entry σ Sid} (he : e ∈ s.log) : e ∈ d.sys.log ∨ EntryAgrees M e := by
  rcases h.log with hsame | ⟨c, hcall, hone⟩
  · exact .inl (hsame ▸ he)
  · rw [hone, List.mem_append, List.mem_singleton] at he
    rcases he with hold | rfl
    · exact .inl hold
    · exact .inr (hcall.agrees hcells)

/-! ### Commits -/

/-- The token clause goes on to a continued save that is due. -/
def TokenSaves (env : Env σ γ) (d : Data σ γ Sid) (r : Req Sid) (tok : Token) (eog : Bool) :
    Prop :=
  let r' := (reqStreamEmit env d.sys (reqAppendToken r tok) tok).1
  ¬ (eog ∨ r'.responseTarget ≤ r'.generated.length ∨ r'.matchedStop.isSome) ∧
    env.cfg.tier ≠ .ram ∧
    shouldContinuedSave env.cfg.policy r'.contextTokens.length r'.lastSaveAt = true

/-- No token of a speculative commit but its last goes on to a continued save: the KV already
    holds the whole commit. -/
def CommitsCleanly (env : Env σ γ) (q : SeqId) (eog : Bool) :
    List Token → Data σ γ Sid → Prop
  | [], _ => True
  | tok :: rest, d =>
    ∀ r, d.reqTable.lookup q = some r → r.finishing = false →
      let last := if rest = [] then eog else false
      let res := tokenResult env d r tok last
      (rest ≠ [] → ¬ TokenSaves env d r tok last) ∧
        CommitsCleanly env q eog rest (putReq (withSys d res.2) res.1)

/-- A token clause that goes on to no save leaves the log alone. -/
theorem tokenResult_log {tok : Token} {eog : Bool} (h : ¬ TokenSaves env d r tok eog) :
    (tokenResult env d r tok eog).2.log = d.sys.log := by
  have hmute := (reqStreamEmit_core env (reqAppendToken r tok) d.sys tok).2
  unfold TokenSaves at h
  unfold tokenResult
  dsimp only at h ⊢
  generalize reqStreamEmit env d.sys (reqAppendToken r tok) tok = emitted at h hmute
  split
  case isTrue => exact hmute.log
  case isFalse hgoes =>
    have hnot : env.cfg.tier = .ram ∨
        shouldContinuedSave env.cfg.policy emitted.1.contextTokens.length emitted.1.lastSaveAt
          = false := by
      by_contra hboth
      push Not at hboth
      exact h ⟨hgoes, hboth.1, by simpa using hboth.2⟩
    unfold maybeFireContinuedForReq fireSaveForTokens fireSaveIf
    dsimp only
    split
    · exact hmute.log
    · split
      case isTrue hdue =>
        rcases hnot with hram | hno
        · rw [if_pos (.inr hram)]
          exact hmute.log
        · rw [hno] at hdue
          exact nomatch hdue
      case isFalse => exact hmute.log

/-- What a commit did to the request: it took the first tokens of the commit, all but the
    leftover ones. -/
structure Committed (env : Env σ γ) (q : SeqId) (r : Req Sid) (tokens : List Token)
    (d : Data σ γ Sid) (res : Option Nat × Data σ γ Sid) : Prop where
  ctx : res.2.sys.ctx = d.sys.ctx
  taken : ∃ leftover r', res.1 = some leftover ∧ res.2.reqTable.lookup q = some r' ∧
    SameIdent r r' ∧ r'.contextTokens = r.contextTokens ++ tokens.take (tokens.length - leftover) ∧
    leftover ≤ tokens.length

theorem applySpecCommitted_committed {q : SeqId} {eog : Bool} {tokens : List Token}
    {d : Data σ γ Sid} {r : Req Sid} (hr : d.reqTable.lookup q = some r) (hq : r.seqId = q) :
    Committed env q r tokens d (applySpecCommitted env q eog tokens d) := by
  induction tokens generalizing d r with
  | nil => exact ⟨rfl, 0, r, rfl, hr, .refl r, (List.append_nil _).symm, Nat.le_refl 0⟩
  | cons tok rest ih =>
    unfold applySpecCommitted
    rw [hr]
    dsimp only
    split
    case isTrue =>
      refine ⟨rfl, rest.length + 1, r, rfl, hr, .refl r, ?_, Nat.le_refl _⟩
      rw [List.length_cons, Nat.sub_self, List.take_zero, List.append_nil]
    case isFalse =>
      have happ := tokenResult_applies env d r tok (if rest = [] then eog else false)
      generalize tokenResult env d r tok (if rest = [] then eog else false) = res at happ
      have hq' : res.1.seqId = q := happ.ident.seqId.trans hq
      have hr' : (putReq (withSys d res.2) res.1).reqTable.lookup q = some res.1 := by
        rw [lookup_putReq, if_pos hq'.symm]
      obtain ⟨hctx, leftover, r', hout, hlookup, hident, hcontext, hle⟩ := ih hr' hq'
      refine ⟨hctx.trans happ.fires.ctx, leftover, r', hout, hlookup, happ.ident.trans hident, ?_,
        Nat.le_succ_of_le hle⟩
      have htake : (tok :: rest).take ((tok :: rest).length - leftover)
          = tok :: rest.take (rest.length - leftover) := by
        rw [List.length_cons, Nat.succ_sub hle, List.take_succ_cons]
      rw [hcontext, happ.context, htake, List.append_assoc]
      rfl

/-- The saves of a clean commit describe the KV, which holds the whole commit from the start. -/
theorem applySpecCommitted_agrees {M : TokenModel env.be} {q : SeqId} {eog : Bool}
    {tokens : List Token} {d : Data σ γ Sid} {r : Req Sid}
    (hr : d.reqTable.lookup q = some r) (hq : r.seqId = q)
    (hcells : M.cells d.sys.ctx q = r.contextTokens ++ tokens)
    (hclean : CommitsCleanly env q eog tokens d) {e : Entry σ Sid}
    (he : e ∈ (applySpecCommitted env q eog tokens d).2.sys.log) :
    e ∈ d.sys.log ∨ EntryAgrees M e := by
  induction tokens generalizing d r with
  | nil => exact .inl he
  | cons tok rest ih =>
    unfold applySpecCommitted at he
    rw [hr] at he
    dsimp only at he
    split at he
    case isTrue => exact .inl he
    case isFalse hgoing =>
      obtain ⟨hearly, hrest⟩ := hclean r hr (Bool.eq_false_iff.mpr hgoing)
      have happ := tokenResult_applies env d r tok (if rest = [] then eog else false)
      have hlog := fun hmid => tokenResult_log (hearly hmid)
      generalize tokenResult env d r tok (if rest = [] then eog else false) = res
        at happ hlog hrest he
      have hq' : res.1.seqId = q := happ.ident.seqId.trans hq
      have hr' : (putReq (withSys d res.2) res.1).reqTable.lookup q = some res.1 := by
        rw [lookup_putReq, if_pos hq'.symm]
      have hcells' : M.cells (putReq (withSys d res.2) res.1).sys.ctx q
          = res.1.contextTokens ++ rest := by
        show M.cells res.2.ctx q = _
        rw [happ.fires.ctx, hcells, happ.context, List.append_assoc]
        rfl
      rcases ih hr' hq' hcells' hrest he with hold | hnew
      · by_cases hlast : rest = []
        · -- Only the last token may save, and then the context is the whole KV.
          refine happ.fires.agrees ?_ hold
          rw [hq, hcells, hlast]
        · rw [show (putReq (withSys d res.2) res.1).sys.log = d.sys.log from hlog hlast] at hold
          exact .inl hold
      · exact .inr hnew

/-- Recording the feedback of a speculative step leaves context, KV and log alone. -/
theorem specRecordFeedback_same (M : KvModel env.be Token) {q : SeqId} {r' : Req Sid}
    (hr : d.reqTable.lookup q = some r') (hq : r'.seqId = q) (n m : Nat) :
    (∃ r'', (specRecordFeedback env d q n m).reqTable.lookup q = some r'' ∧ SameCore r' r'') ∧
      M.cells (specRecordFeedback env d q n m).sys.ctx = M.cells d.sys.ctx ∧
      (specRecordFeedback env d q n m).sys.log = d.sys.log := by
  have hquiet := specAccept_quiet env d q m
  unfold specRecordFeedback
  dsimp only
  rw [show (withSys d (specAccept env d q m)).reqTable.lookup q = some r' from hr]
  have hlookup : ∀ r'' : Req Sid, r''.seqId = q →
      (putReq (withSys d (specAccept env d q m)) r'').reqTable.lookup q = some r'' :=
    fun r'' hq' => by rw [lookup_putReq, if_pos hq'.symm]
  exact ⟨⟨_, hlookup _ hq, ⟨⟨rfl, rfl, rfl, rfl, rfl, id⟩, rfl, rfl, rfl⟩⟩, hquiet.cells M,
    hquiet.log⟩

/-- Rolling the KV back to the context of the request, where removals are not refused. -/
theorem specTrimOvershoot_cells (M : KvModel env.be Token) {q : SeqId} {r' : Req Sid}
    (hr : d.reqTable.lookup q = some r')
    (htrim : ∀ f, env.be.seqRmLast = some f → ∀ x q n, (f x q n).1 = .ok ()) :
    M.cells (specTrimOvershoot env d q).sys.ctx q
      = (M.cells d.sys.ctx q).take r'.contextTokens.length := by
  obtain ⟨f, hf, -⟩ := M.seqRmLast
  have hok : (backendSeqRmFrom env d.sys q r'.contextTokens.length).1 = .ok () := by
    unfold backendSeqRmFrom
    rw [hf]
    exact htrim f hf _ _ _
  unfold specTrimOvershoot
  rw [hr]
  show M.cells (backendSeqRmFrom env d.sys q r'.contextTokens.length).2.ctx q = _
  rw [(backendSeqRmFrom_cells M d.sys q _).1 () hok, Function.update_self]

/-- **A commit keeps context and KV in step**: what the request did not take is rolled back. -/
theorem commitSpec_agrees {M : TokenModel env.be} {q : SeqId} {draft : List Token}
    {res : SpecResult} {d d' : Data σ γ Sid} {r : Req Sid} (hr : d.reqTable.lookup q = some r)
    (hq : r.seqId = q) (hcells : M.cells d.sys.ctx q = r.contextTokens ++ res.committed)
    (htrim : ∀ f, env.be.seqRmLast = some f → ∀ x q n, (f x q n).1 = .ok ())
    (h : commitSpec env d q draft res = .stepped d') :
    (∀ r', d'.reqTable.lookup q = some r' → M.cells d'.sys.ctx q = r'.contextTokens) ∧
      d'.sys.log = (applySpecCommitted env q res.eog res.committed d).2.sys.log := by
  have hcommitted : Committed env q r res.committed d
      (applySpecCommitted env q res.eog res.committed d) := applySpecCommitted_committed hr hq
  obtain ⟨hctx, leftover, r₁, hleft, hr₁, hident, hcontext, hle⟩ := hcommitted
  have hq₁ : r₁.seqId = q := hident.seqId.trans hq
  unfold commitSpec at h
  dsimp only at h
  rw [hleft] at h
  dsimp only at h
  generalize applySpecCommitted env q res.eog res.committed d = applied at h hctx hr₁
  have hcells₁ : M.cells applied.2.sys.ctx q = r.contextTokens ++ res.committed := by
    rw [hctx]
    exact hcells
  cases h
  by_cases hzero : leftover = 0
  · rw [if_pos hzero]
    obtain ⟨⟨r₂, hr₂, hcore⟩, hsame, hlog⟩ :=
      specRecordFeedback_same M.toKvModel hr₁ hq₁ draft.length res.nAcc
    refine ⟨fun r' hr' => ?_, hlog⟩
    obtain rfl := Option.some.inj (hr₂.symm.trans hr')
    rw [hsame, hcells₁, hcore.contextTokens, hcontext, hzero, Nat.sub_zero, List.take_length]
  · rw [if_neg hzero]
    have hr₂ : (specTrimOvershoot env applied.2 q).reqTable.lookup q = some r₁ := by
      unfold specTrimOvershoot
      rw [hr₁]
      exact hr₁
    have hlog₂ : (specTrimOvershoot env applied.2 q).sys.log = applied.2.sys.log := by
      unfold specTrimOvershoot
      rw [hr₁]
      exact (backendSeqRmFrom_onSeq env applied.2.sys q _).log
    obtain ⟨⟨r₃, hr₃, hcore⟩, hsame, hlog⟩ :=
      specRecordFeedback_same M.toKvModel hr₂ hq₁ draft.length res.nAcc
    refine ⟨fun r' hr' => ?_, hlog.trans hlog₂⟩
    obtain rfl := Option.some.inj (hr₃.symm.trans hr')
    -- The context is the KV without the tokens the request did not take.
    have hlen : r₁.contextTokens.length
        = r.contextTokens.length + (res.committed.length - leftover) := by
      rw [hcontext, List.length_append, List.length_take_of_le (Nat.sub_le _ _)]
    rw [hsame, specTrimOvershoot_cells M.toKvModel hr₁ htrim, hcells₁, hlen,
      List.take_length_add_append, hcore.contextTokens, hcontext]

/-! ### The contract -/

/-- What a guard must rule out for the token lists to describe the KV, and for the log to meet
    `E`, where idle seqs are empty when `clean` holds. -/
structure TokenGuard [LinearOrder Sid] {env : Env σ γ} (M : TokenModel env.be)
    (G : Guard σ γ Sid) (E : Entry σ Sid → Prop) (clean : Prop) : Prop where
  results : ∀ {d pairs}, G.results d pairs → CountsTokens d pairs
  commit : ∀ {d q res}, G.commit d q res →
    (∀ e, E e) ∨ CommitsCleanly env q res.eog res.committed d
  evict : ∀ {r}, G.evict r → r.media.isSome →
    (∀ e, E e) ∨ r.contextTokens = [] ∨ env.cfg.tier = .ram
  inspect : ∀ {d}, G.inspect d →
    d.reqTable.lookup 0 = none ∧ ∀ sid s, d.sessionSeq.lookup sid = some s → s.seqId ≠ 0
  inspect_clean : ∀ {d}, clean → G.inspect d → 0 ∉ d.idleSeqIds
  fork : ∀ {x src dst}, G.fork x src dst → (clean → M.cells x dst = []) → M.kept x src dst = []

section Contract

variable [LinearOrder Sid] {G : Guard σ γ Sid} {E : Entry σ Sid → Prop} {clean : Prop}

theorem trims_eq : Trims (κ := Token) fun tokens cells => cells = tokens :=
  ⟨rfl, fun n h => congrArg (List.take n) h⟩

omit [LinearOrder Sid] in
/-- What a result owes, for a request whose context is its KV. -/
theorem owes_tokens {M : TokenModel env.be} (hE : ∀ e : Entry σ Sid, EntryAgrees M e → E e)
    {x : σ} {cells : List Token} {op : Op} {res : StepResult} {ts : List Token}
    (hwf : ReqWf env r) (hgrown : M.cells x r.seqId = cells)
    (hcells : r.media = none → cells = r.contextTokens ++ ts) (hdecoded : Decoded op res ts)
    (hcounted : r.media = none → Counted r res) :
    Owes env (fun r cells => r.media = none → cells = r.contextTokens) E x cells op res r := by
  rintro d out rfl hout
  have happ := stepResult_applies env d r hout
  cases hm : r.media with
  | none =>
    have hts := hdecoded.eq_resultTokens (hcounted hm) hout
    have hall : cells = r.contextTokens ++ resultTokens r op res := hts ▸ hcells hm
    refine ⟨fun _ => hall.trans happ.context.symm, fun e he => ?_⟩
    exact (happ.fires.agrees (hgrown.trans hall) he).imp_right (hE e)
  | some items =>
    have hsome : r.media.isSome := by rw [hm]; rfl
    have hmute := happ.mediaMute hsome (hwf.ladder_of_media hsome)
    refine ⟨fun hnone => ?_, fun e he => .inl (hmute.log ▸ he)⟩
    rw [happ.ident.media, hm] at hnone
    exact nomatch hnone

/-- **The token contract.** -/
def tokenContract (M : TokenModel env.be) (hrows : RowsCarryTokens M)
    (htrim : TrimsUnlessRecurrent env) (hE : ∀ e : Entry σ Sid, EntryAgrees M e → E e)
    (hG : TokenGuard M G E clean) : Contract env G M.toKvModel where
  side := fun _ _ _ => True
  inFlight := fun r cells => r.media = none → cells = r.contextTokens
  stored := fun tokens cells => cells = tokens
  entry := E
  clean := clean
  side_move := fun _ _ => trivial
  core := fun hcore hfit hmedia => by
    rw [hcore.contextTokens]
    exact hfit (hcore.media ▸ hmedia)
  start := fun _ _ _ _ _ =>
    setupLookup_matches trims_eq hrows (fun _ _ _ _ hrow => hrow)
  startMedia := fun _ hr _ hmedia => by
    have hsome := hr.media
    rw [hmedia] at hsome
    cases hsome
  resume := fun _ _ _ hmode hstored lookup _ =>
    setupAdmissionPath_pinned_matches trims_eq hmode lookup hstored
  results := by
    intro d ops results x pairs _ hnodup hstep hpass q op res r hpair hop hres hr hq hwf hfit
    obtain ⟨ts, hdecoded, hgrown⟩ :=
      M.step_row d.sys.ctx ops results hnodup (by rw [hstep]) q op res hop hres
    rw [hstep] at hgrown
    subst hq
    refine owes_tokens hE hwf rfl (fun hmedia => ?_) hdecoded fun hmedia =>
      hG.results hpass _ hpair r hr hmedia
    rw [hgrown, hfit hmedia]
  commit := by
    intro d d' cb sampler q r draft res x _ hcb hr hq hwf hspec hstep hpass hcommit hfit
    have hmedia : r.media = none := by
      cases hm : r.media with
      | none => rfl
      | some items =>
        rw [hwf.spec_of_media (by rw [hm]; rfl)] at hspec
        cases hspec
    have hgates := hwf.gates_of_spec hspec
    have hgrown := M.specStep_row hcb d.sys.ctx sampler q draft res (by rw [hstep])
    rw [hstep, hfit hmedia] at hgrown
    obtain ⟨hcells, hlog⟩ := commitSpec_agrees (d := withCtx d x) hr hq hgrown
      (htrim hgates.1 hgates.2) hcommit
    refine ⟨fun r' hr' _ => hcells r' hr', fun e he => ?_⟩
    rw [hlog] at he
    rcases hG.commit hpass with hany | hclean
    · exact .inr (hany e)
    · have hagrees := applySpecCommitted_agrees (d := withCtx d x) hr hq hgrown hclean he
      exact hagrees.imp_right (hE e)
  prefill := fun _ _ hmedia _ _ _ hnone => by
    rw [show _ = none from hnone] at hmedia
    cases hmedia
  save := fun hfit hmedia hcall => hE _ (hcall.agrees (hfit hmedia))
  evict := by
    intro d r c hfit hpass hne htier hcall
    cases hm : r.media with
    | none => exact hE _ (hcall.agrees (hfit hm))
    | some items =>
      rcases hG.evict hpass (by rw [hm]; rfl) with hany | hempty | hram
      · exact hany _
      · exact absurd hempty hne
      · exact absurd hram htier
  keep := fun hfit hmedia => hfit hmedia
  pin := fun hstored => hE _ hstored
  inspect := by
    intro d x _ _ hpass
    obtain ⟨hfree, hunpinned⟩ := hG.inspect hpass
    refine ⟨fun r hr => ?_, fun sid s hs hzero => absurd hzero (hunpinned sid s hs)⟩
    rw [hfree] at hr
    exact nomatch hr
  inspect_clean := hG.inspect_clean
  fork := by
    intro d f src dst ts x _ hcp hcopy hpass hclean hstored
    obtain ⟨-, hsame⟩ := M.seqCp hcp d.sys.ctx src dst () (by rw [hcopy])
    rw [hcopy] at hsame
    exact (hsame (hG.fork hpass hclean)).trans hstored

end Contract

end Erllama.Model
