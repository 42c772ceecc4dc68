import Erllama.Model.Works
import Erllama.Model.Spacing
import Erllama.Model.Collect

namespace Erllama.Model

open Lib

/-!
# The requests of a run

What a running process does to the record of a request is a life of it.  Every event is a number
of moves; a move takes a request out of the table, lets one in, or is a number of steps of the
lives of those that stay, and what these say and save is among what the process says and saves.

* `Enters` — the records that come into the table.
* `Covers` — a story that is part of what the process did between two states.
* `LivesFrom` — every request of the later state lived on from the earlier one, or came in.
* `Move.livesFrom` — every move, one lemma for each that works on requests.
* `run_lives` — in every run, every request of the table has lived since it was admitted.
* `run_scanned`, `run_kept`, `run_spaced` — so what holds of every life holds of the streams, the
  standard requests and the saves of a run.
-/

variable {σ γ Sid : Type} {env : Env σ γ}

/-! ### One life after another -/

section Compose

variable {r₀ r r' : Req Sid} {t t' t'' : Story σ Sid}

/-- Nothing before a story. -/
theorem Story.start_andThen (t : Story σ Sid) : Story.start.andThen t = t := rfl

/-- Nothing after it. -/
theorem Story.andThen_start (t : Story σ Sid) : t.andThen .start = t := by
  simp [Story.andThen, Story.start]

/-- Stories are told in order, however they are put together. -/
theorem Story.andThen_assoc : (t.andThen t').andThen t'' = t.andThen (t'.andThen t'') := by
  simp [Story.andThen]

/-- A life goes on. -/
theorem Life.trans (h : Life env Story.free r₀ t r) (h' : Life env Story.free r t' r') :
    Life env Story.free r₀ (t.andThen t') r' := by
  induction h' with
  | refl =>
    rw [Story.andThen_start]
    exact h
  | tail _ _ hstep ih =>
    rw [← Story.andThen_assoc]
    exact ih.tail trivial hstep

/-- One step is a life. -/
theorem LifeStep.life (h : LifeStep env r t r') : Life env Story.free r t r' :=
  .tail .refl trivial h

end Compose

/-! ### What a process adds -/

/-- The process takes back nothing that it said or logged. -/
structure Adds (s s' : Sys σ γ Sid) : Prop where
  out : s.out <+: s'.out
  log : s.log <+: s'.log

/-- What the story says and saves is among what the process said and saved. -/
structure Covers (s s' : Sys σ γ Sid) (t : Story σ Sid) : Prop where
  out : ∃ out, s'.out = s.out ++ out ∧ t.out.Sublist out
  saves : ∃ log, s'.log = s.log ++ log ∧ (t.saves.map .save).Sublist log

section Adds

variable {s s' s'' : Sys σ γ Sid} {t t' : Story σ Sid}

/-- Nothing is added. -/
theorem Adds.refl (s : Sys σ γ Sid) : Adds s s := ⟨List.prefix_refl _, List.prefix_refl _⟩

/-- One function after another. -/
theorem Adds.trans (h : Adds s s') (h' : Adds s' s'') : Adds s s'' :=
  ⟨h.out.trans h'.out, h.log.trans h'.log⟩

/-- A function that saves nothing. -/
theorem Adds.of_log (hout : s.out <+: s'.out) (hlog : s'.log = s.log) : Adds s s' :=
  ⟨hout, by rw [hlog]⟩

/-- A quiet function. -/
theorem Quiet.adds (h : Quiet env s s') : Adds s s' := .of_log h.out h.log

/-- A function on one seq. -/
theorem OnSeq.adds {q : SeqId} (h : OnSeq env q s s') : Adds s s' := .of_log h.out h.log

/-- Nothing of a story happened. -/
theorem Adds.covers (h : Adds s s') : Covers s s' .start := by
  obtain ⟨⟨out, hout⟩, log, hlog⟩ := h
  exact ⟨⟨out, hout.symm, List.nil_sublist _⟩, log, hlog.symm, List.nil_sublist _⟩

/-- One part of a story after another. -/
theorem Covers.trans (h : Covers s s' t) (h' : Covers s' s'' t') :
    Covers s s'' (t.andThen t') := by
  obtain ⟨⟨out, hout, hsub⟩, log, hlog, hsaves⟩ := h
  obtain ⟨⟨out', hout', hsub'⟩, log', hlog', hsaves'⟩ := h'
  refine ⟨⟨out ++ out', ?_, hsub.append hsub'⟩, log ++ log', ?_, ?_⟩
  · rw [hout', hout, List.append_assoc]
  · rw [hlog', hlog, List.append_assoc]
  · unfold Story.andThen
    rw [List.map_append]
    exact hsaves.append hsaves'

/-- A story covered by a part of what the process did. -/
theorem Covers.adds (h : Covers s s' t) : Adds s s' := by
  obtain ⟨⟨out, hout, -⟩, log, hlog, -⟩ := h
  exact ⟨⟨out, hout.symm⟩, log, hlog.symm⟩

end Adds

/-! ### Who lives on -/

/-- The records that come into the table: a text request behind its admission path, or a media
    request as it was prepared. -/
inductive Enters (env : Env σ γ) : Req Sid → Prop
  | text (d : Data σ γ Sid) {r : Req Sid} (h : r.Unbegun) (mode : AdmitMode)
      (prompt : List Token) (opts : LookupOpts) :
    Enters env (setupAdmissionPath env d r mode prompt opts).1
  | media {r : Req Sid} (h : r.Unbegun) (hmedia : r.media.isSome) : Enters env r

/-- The request that is in the second state lived on from the first one, or came in between. -/
def Remains (env : Env σ γ) (d d' : Data σ γ Sid) (q : SeqId) (r' : Req Sid) : Prop :=
  ∃ r t, (d.reqTable.lookup q = some r ∨ Enters env r) ∧ Life env Story.free r t r' ∧
    Covers d.sys d'.sys t

/-- Every request of the second state did. -/
structure LivesFrom (env : Env σ γ) (d d' : Data σ γ Sid) : Prop where
  adds : Adds d.sys d'.sys
  remains : ∀ q r', d'.reqTable.lookup q = some r' → Remains env d d' q r'

section Rules

variable {d d' d'' : Data σ γ Sid} {q : SeqId} {r r' : Req Sid}

/-- A request whose entry stayed. -/
theorem Remains.same (hadds : Adds d.sys d'.sys) (hr : d.reqTable.lookup q = some r) :
    Remains env d d' q r :=
  ⟨r, .start, .inl hr, .refl, hadds.covers⟩

/-- The process did nothing to its requests. -/
theorem LivesFrom.of_table (hadds : Adds d.sys d'.sys) (htable : d'.reqTable = d.reqTable) :
    LivesFrom env d d' :=
  ⟨hadds, fun _ _ hr => .same hadds (htable ▸ hr)⟩

/-- Nothing happened. -/
theorem LivesFrom.refl (d : Data σ γ Sid) : LivesFrom env d d := .of_table (.refl _) rfl

/-- One function after another. -/
theorem LivesFrom.trans (h : LivesFrom env d d') (h' : LivesFrom env d' d'') :
    LivesFrom env d d'' := by
  refine ⟨h.adds.trans h'.adds, fun q r'' hr'' => ?_⟩
  obtain ⟨r', t', hfrom, hlife', hcovers'⟩ := h'.remains q r'' hr''
  rcases hfrom with hr' | henters
  · obtain ⟨r, t, hfrom, hlife, hcovers⟩ := h.remains q r' hr'
    exact ⟨r, t.andThen t', hfrom, hlife.trans hlife', hcovers.trans hcovers'⟩
  · -- it came in after the first function
    have hcovers := h.adds.covers.trans hcovers'
    rw [Story.start_andThen] at hcovers
    exact ⟨r', t', .inr henters, hlife', hcovers⟩

/-- A request leaves. -/
theorem livesFrom_removeReq {s : Sys σ γ Sid} (hadds : Adds d.sys s) (q : SeqId) :
    LivesFrom env d (removeReq (withSys d s) q) := by
  refine ⟨hadds, fun q' r' hr' => .same hadds ?_⟩
  rw [lookup_removeReq] at hr'
  split at hr'
  · cases hr'
  · exact hr'

/-- A request comes in. -/
theorem livesFrom_enter {s : Sys σ γ Sid} (hadds : Adds d.sys s) (h : Enters env r) :
    LivesFrom env d (putReq (withSys d s) r) := by
  refine ⟨hadds, fun q' r' hr' => ?_⟩
  rw [lookup_putReq] at hr'
  split at hr'
  · cases hr'
    exact ⟨r, .start, .inr h, .refl, hadds.covers⟩
  · exact .same hadds hr'

/-- One request takes a step of its life. -/
theorem livesFrom_putReq {s : Sys σ γ Sid} {t : Story σ Sid} (hcovers : Covers d.sys s t)
    (hr : d.reqTable.lookup q = some r) (hq : r'.seqId = q) (hlife : Life env Story.free r t r') :
    LivesFrom env d (putReq (withSys d s) r') := by
  refine ⟨hcovers.adds, fun q' r'' hr'' => ?_⟩
  rw [lookup_putReq, hq] at hr''
  split at hr''
  case isTrue heq =>
    cases hr''
    exact ⟨r, t, .inl (heq ▸ hr), hlife, hcovers⟩
  case isFalse => exact .same hcovers.adds hr''

end Rules

/-! ### Results -/

section Results

variable {d d' : Data σ γ Sid} {q : SeqId} {r : Req Sid}

/-- A result of a row, in the table. -/
theorem stepResult_livesFrom {op : Op} {res : StepResult} {after : Req Sid × Sys σ γ Sid}
    (hkeys : KeysMatch d.reqTable) (hr : d.reqTable.lookup q = some r)
    (hfin : r.finishing = false) (hrow : RowFor r op)
    (h : stepResult env d r op res = some after) :
    LivesFrom env d (putReq (withSys d after.2) after.1) := by
  obtain ⟨out, saves, hout, hlog, hstep⟩ := stepResult_lifeStep hfin hrow h
  have hseq := (stepResult_applies env d r h).ident.seqId.trans (hkeys q r hr)
  refine livesFrom_putReq ⟨⟨out, hout, ?_⟩, _, hlog, ?_⟩ hr hseq hstep.life
  · exact List.Sublist.refl _
  · exact List.Sublist.refl _

/-- The rows with results are for requests that go on. -/
def RowsFit (d : Data σ γ Sid) (pairs : List ResultPair) : Prop :=
  ∀ pair ∈ pairs, ∀ r, d.reqTable.lookup pair.1.1 = some r →
    r.finishing = false ∧ RowFor r pair.1.2

/-- The results of a step, one after another. -/
theorem applyStepResults_livesFrom (pairs : List ResultPair) {d d' : Data σ γ Sid}
    (hkeys : KeysMatch d.reqTable) (hnodup : (pairs.map fun pair => pair.1.1).Nodup)
    (hfit : RowsFit d pairs) (h : applyStepResults env pairs d = (true, d')) :
    LivesFrom env d d' := by
  induction pairs generalizing d with
  | nil =>
    cases h
    exact .refl d'
  | cons pair pairs ih =>
    obtain ⟨⟨q, op⟩, res⟩ := pair
    rw [List.map_cons, List.nodup_cons] at hnodup
    unfold applyStepResults at h
    split at h
    case h_1 => exact nomatch congrArg Prod.fst h
    case h_2 r hr =>
      split at h
      case h_1 => exact nomatch congrArg Prod.fst h
      case h_2 r' s hres =>
        obtain ⟨hfin, hrow⟩ := hfit _ List.mem_cons_self r hr
        have hseq : r'.seqId = q :=
          (stepResult_applies env d r hres).ident.seqId.trans (hkeys q r hr)
        refine (stepResult_livesFrom hkeys hr hfin hrow hres).trans
          (ih (KeysMatch.putReq (d := withSys d s) hkeys r') hnodup.2 ?_ h)
        -- the other rows are for other seqs
        intro pair hpair r₁ hr₁
        have hne : pair.1.1 ≠ q := by
          rintro rfl
          exact hnodup.1 (List.mem_map_of_mem (f := fun pair => pair.1.1) hpair)
        rw [lookup_putReq, hseq, if_neg hne] at hr₁
        exact hfit pair (List.mem_cons_of_mem _ hpair) r₁ hr₁

/-- The rows of a batch fit the requests it was made from. -/
theorem rowsFit_of_budget {ops : List (SeqId × Op)} {pairs : List ResultPair}
    (hkeys : KeysMatch d.reqTable) (hbudget : applyBatchBudget env (allOps d) = some ops)
    (hsub : ∀ pair ∈ pairs, pair.1 ∈ ops) : RowsFit d pairs := by
  rintro ⟨⟨q, op⟩, res⟩ hpair r hr
  have hop := hsub _ hpair
  obtain ⟨r', hactive, hq⟩ := active_of_budget hbudget hop
  obtain ⟨hr', hfin⟩ := active_unfinished hkeys hactive
  rw [hq, hr] at hr'
  cases hr'
  refine ⟨hfin, ?_⟩
  cases op with
  | decode ref => exact drained_of_decode hkeys hbudget hop hr
  | prefill slice =>
    obtain ⟨n, rfl⟩ : ∃ n, ops = slicePrefills env.cfg.policy.prefillChunkSize (allOps d) n := by
      unfold applyBatchBudget at hbudget
      dsimp only at hbudget
      split at hbudget
      · exact nomatch hbudget
      · cases hbudget
        exact ⟨_, rfl⟩
    obtain ⟨tokens, cap, hmem, rfl, hcap⟩ := mem_slicePrefills env.cfg.policy.chunk_pos hop
    obtain ⟨hcursor, hne⟩ := opOf_prefill (opOf_of_mem_allOps hkeys hr hmem)
    refine ⟨?_, tokens, hcursor, List.take_prefix _ _⟩
    rw [Ne, List.take_eq_nil_iff]
    rintro (hzero | hnil)
    · have hpos := hcap hne
      omega
    · exact hne hnil

end Results

/-! ### Speculation -/

section Speculation

variable {d d' : Data σ γ Sid} {q : SeqId}

variable (env) in
/-- A token leaves the cursor of its request. -/
theorem tokenResult_cursor (d : Data σ γ Sid) (r : Req Sid) (tok : Token) (eog : Bool) :
    (tokenResult env d r tok eog).1.prefillCursor = r.prefillCursor := by
  obtain ⟨hemit, -⟩ := reqStreamEmit_core env (reqAppendToken r tok) d.sys tok
  unfold tokenResult
  dsimp only
  split
  · exact hemit.prefillCursor
  · obtain ⟨hsave, -⟩ := maybeFireContinuedForReq_fires env
      (withSys d (reqStreamEmit env d.sys (reqAppendToken r tok) tok).2)
      (reqStreamEmit env d.sys (reqAppendToken r tok) tok).1
    exact hsave.prefillCursor.trans hemit.prefillCursor

variable (env) in
/-- Committed tokens are results of decode rows, as long as the request goes on. -/
theorem applySpecCommitted_livesFrom (eog : Bool) (tokens : List Token) {d : Data σ γ Sid}
    (hkeys : KeysMatch d.reqTable)
    (hdrained : ∀ r, d.reqTable.lookup q = some r → r.prefillCursor = none) :
    LivesFrom env d (applySpecCommitted env q eog tokens d).2 ∧
      KeysMatch (applySpecCommitted env q eog tokens d).2.reqTable := by
  induction tokens generalizing d with
  | nil => exact ⟨.refl d, hkeys⟩
  | cons tok rest ih =>
    unfold applySpecCommitted
    split
    case h_1 => exact ⟨.refl d, hkeys⟩
    case h_2 r hr =>
      split
      case isTrue => exact ⟨.refl d, hkeys⟩
      case isFalse hgoes =>
        have hfin : r.finishing = false := by simpa using hgoes
        have hrow : RowFor r (.decode 0) := hdrained r hr
        have hcursor := tokenResult_cursor env d r tok (if rest = [] then eog else false)
        have hres : stepResult env d r (.decode 0)
            (.token tok (if rest = [] then eog else false) none) =
            some (tokenResult env d r tok (if rest = [] then eog else false)) := rfl
        have hstep := stepResult_livesFrom hkeys hr hfin hrow hres
        have happ := tokenResult_applies env d r tok (if rest = [] then eog else false)
        generalize tokenResult env d r tok (if rest = [] then eog else false) = res at *
        have hseq : res.1.seqId = q := happ.ident.seqId.trans (hkeys q r hr)
        obtain ⟨hrest, hkeys'⟩ := ih (d := putReq (withSys d res.2) res.1)
          (KeysMatch.putReq (d := withSys d res.2) hkeys res.1) (by
            intro r' hr'
            rw [lookup_putReq, hseq, if_pos rfl] at hr'
            cases hr'
            rw [hcursor, hdrained r hr])
        exact ⟨hstep.trans hrest, hkeys'⟩

/-- Trimming what the speculator was ahead touches no record. -/
theorem specTrimOvershoot_livesFrom (d : Data σ γ Sid) (q : SeqId) :
    LivesFrom env d (specTrimOvershoot env d q) := by
  unfold specTrimOvershoot
  split
  · exact .refl d
  · exact .of_table (backendSeqRmFrom_onSeq env d.sys q _).adds rfl

/-- Counting drafts marks a record. -/
theorem specRecordFeedback_livesFrom (hkeys : KeysMatch d.reqTable) (q : SeqId) (n m : Nat) :
    LivesFrom env d (specRecordFeedback env d q n m) := by
  have hadds := (specAccept_quiet env d q m).adds
  unfold specRecordFeedback
  dsimp only
  split
  case h_1 => exact .of_table hadds rfl
  case h_2 r hr =>
    exact livesFrom_putReq hadds.covers hr (hkeys q r hr) (LifeStep.life (.rest rfl id))

/-- The result of a speculative step. -/
theorem commitSpec_livesFrom (hkeys : KeysMatch d.reqTable)
    (hdrained : ∀ r, d.reqTable.lookup q = some r → r.prefillCursor = none) {draft : List Token}
    {res : SpecResult} (h : commitSpec env d q draft res = .stepped d') : LivesFrom env d d' := by
  obtain ⟨hcommitted, hkeys'⟩ :=
    applySpecCommitted_livesFrom env res.eog res.committed hkeys hdrained
  unfold commitSpec at h
  dsimp only at h
  split at h
  case h_1 => exact nomatch h
  case h_2 =>
    cases h
    split
    · exact hcommitted.trans (specRecordFeedback_livesFrom hkeys' q _ _)
    · have htable : (specTrimOvershoot env (applySpecCommitted env q res.eog res.committed d).2
          q).reqTable = (applySpecCommitted env q res.eog res.committed d).2.reqTable := by
        unfold specTrimOvershoot
        split <;> rfl
      refine (hcommitted.trans (specTrimOvershoot_livesFrom _ q)).trans
        (specRecordFeedback_livesFrom ?_ q _ _)
      rwa [htable]

end Speculation

/-! ### The other moves -/

section Others

variable (env) (d : Data σ γ Sid) (r : Req Sid)

/-- Finishing a request saves it at most once more, and sends it its end. -/
theorem announceFinish_adds : Adds d.sys (announceFinish env d r) := by
  obtain ⟨-, hfires, -⟩ := finishSave_fires env d r
  have hsaved : Adds d.sys (finishSave env d r).2.2 := by
    refine ⟨by rw [(finishSave_mail env d r).1.out], ?_⟩
    rcases hfires.log with heq | ⟨c, -, heq⟩
    · rw [heq]
    · rw [heq]
      exact List.prefix_append _ _
  have hmute : Mute (finishSave env d r).2.2
      (finishAction env (finishSave env d r).2.2 (finishSave env d r).2.1 (finishReasonOf r)
        (finishSave env d r).1
        (buildStatsForReq (finishReasonOf r) (finishSave env d r).1 (finishSave env d r).2.1)) :=
    finishAction_mute _ _ _ _ _
  have hsent := hsaved.trans (.of_log hmute.out hmute.log)
  exact hsent.trans (releaseSampler_quiet env _ _).adds

variable [LinearOrder Sid]

/-- Pinning a seq is logged. -/
theorem pin_adds (sid : Sid) (q : SeqId) (tokens : List Token) :
    Adds d.sys (pin env d sid q tokens).sys :=
  ⟨List.prefix_refl _, List.prefix_append _ _⟩

/-- A finished request leaves the table. -/
theorem finishReq_livesFrom : LivesFrom env d (finishReq env d r) := by
  have hremoved : LivesFrom env d (removeReq (withSys d (announceFinish env d r)) r.seqId) :=
    livesFrom_removeReq (announceFinish_adds env d r) r.seqId
  unfold finishReq releaseOrPinSeq
  split
  · exact hremoved.trans (.of_table (releaseSeq_onSeq env _ _).adds rfl)
  · exact hremoved.trans (.of_table (pin_adds env _ _ _ _) rfl)

omit [LinearOrder Sid] in
/-- A save on the operator's behalf is a step of the life of its request. -/
theorem fireSaveForReq_livesFrom {d : Data σ γ Sid} {r : Req Sid} (hkeys : KeysMatch d.reqTable)
    {q : SeqId} (hr : d.reqTable.lookup q = some r) {reason : SaveReason}
    (hreason : reason = .evict ∨ reason = .shutdown) :
    LivesFrom env d (fireSaveForReq env d reason r) := by
  unfold fireSaveForReq
  split
  case isTrue => exact .refl d
  case isFalse hsome =>
    obtain ⟨saves, hlog⟩ : ∃ saves : List (SaveCall σ Sid),
        (fireSaveIf env d true reason r.contextTokens r).2.log = d.sys.log ++ saves.map .save := by
      rcases (fireSaveIf_fires env d r true reason r.contextTokens).log with heq | ⟨c, -, heq⟩
      · exact ⟨[], by rw [heq, List.map_nil, List.append_nil]⟩
      · exact ⟨[c], heq⟩
    have hmail := fireSaveIf_mail env d r true reason r.contextTokens
    have hseq := (creditSave_core r (fireSaveIf env d true reason r.contextTokens r).1
      r.contextTokens).seqId.trans (hkeys q r hr)
    refine livesFrom_putReq ⟨⟨[], ?_, List.Sublist.refl _⟩, _, hlog, List.Sublist.refl _⟩ hr hseq
      (LifeStep.life (.saved hreason hsome hlog))
    rw [hmail.out, List.append_nil]

end Others

variable (env) in
/-- Nor does what happens to the context. -/
theorem withCtx_livesFrom (d : Data σ γ Sid) (x : σ) : LivesFrom env d (withCtx d x) :=
  .of_table ⟨List.prefix_refl _, List.prefix_refl _⟩ rfl

/-- An adapter operation touches no request. -/
theorem AdapterStep.livesFrom {d d' : Data σ γ Sid} (h : AdapterStep d d') :
    LivesFrom env d d' :=
  .of_table (.of_log (by rw [h.out]) h.log) h.reqTable

/-! ### Runs -/

variable [LinearOrder Sid] {d d' : Data σ γ Sid}

omit [LinearOrder Sid] in
/-- An admission lets its request in. -/
theorem admitOn_livesFrom {d₀ : Data σ γ Sid} (hsys : d₀.sys = d.sys)
    (htable : d₀.reqTable = d.reqTable) {r : Req Sid} (hr : r.Unbegun) (mode : AdmitMode)
    (prompt : List Token) (lookup : LookupOpts) :
    LivesFrom env d (admitOn env d₀ r mode prompt lookup) := by
  have htaken : LivesFrom env d d₀ := .of_table (hsys ▸ .refl _) htable
  have hadds := (setupAdmissionPath_admits env d₀ r mode prompt lookup).onSeq.adds
  exact htaken.trans (livesFrom_enter hadds (.text d₀ hr mode prompt lookup))

/-- **Every move** lets requests in, takes them out, or lets them live on. -/
theorem Move.livesFrom (h : Move env (sliceGuard env) d d') (hd : Wf env d) :
    LivesFrom env d d' := by
  have hkeys := hd.table.keysMatch
  cases h with
  | sys h => exact .of_table h.adds rfl
  | other hG spec => exact .of_table (.refl _) rfl
  | @start q rest r lookup hidle hq hr prompt hG =>
    have hsys : ({ d with idleSeqIds := rest } : Data σ γ Sid).sys = d.sys := rfl
    exact admitOn_livesFrom hsys rfl hr.unbegun .normal prompt lookup
  | @startMedia q rest r hidle hq hr hG =>
    have htaken : LivesFrom env d { d with idleSeqIds := rest } := .of_table (.refl _) rfl
    exact htaken.trans (livesFrom_enter (.refl _) (.media hr.unbegun hr.media))
  | resume hs hfree hq hsid hr hmode lookup hG =>
    exact admitOn_livesFrom rfl rfl hr.unbegun _ _ lookup
  | @update q r₀ r h hcore hlife =>
    exact livesFrom_putReq (s := d.sys) (Adds.refl d.sys).covers h
      (hcore.seqId.trans (hkeys q r₀ h)) hlife.life
  | @results _ ops results x pairs hops hstep hpairs hG happ =>
    obtain ⟨ops', hbudget, hsub⟩ := hG
    have hcall := withCtx_livesFrom env d x
    have hfst := (Contract.pairOpsWithResults_spec hpairs).1
    have hnodup : (pairs.map fun pair => pair.1.1).Nodup := by
      have hmap : (pairs.map fun pair => pair.1.1) = (pairs.map Prod.fst).map Prod.fst := by
        rw [List.map_map]
        rfl
      rw [hmap, hfst]
      exact hops.nodup
    exact hcall.trans (applyStepResults_livesFrom pairs (d := withCtx d x) hkeys hnodup
      (rowsFit_of_budget (d := withCtx d x) hkeys hbudget hsub) happ)
  | @spec _ cb sampler q r draft res x hcb h hspec hstep hG hcommit =>
    have hcall := withCtx_livesFrom env d x
    exact hcall.trans (commitSpec_livesFrom (d := withCtx d x) hkeys hG hcommit)
  | @mediaDone cb q r n x hcb h hpending hcall hG =>
    exact livesFrom_putReq ⟨⟨[], (List.append_nil _).symm, List.Sublist.refl _⟩, [],
      (List.append_nil _).symm, List.Sublist.refl _⟩ h (hkeys q r h) (LifeStep.life (.rest rfl id))
  | @mediaFailed cb q r e x hcb h hpending hcall =>
    have hfailed : (failRequest env { d.sys with ctx := x } r (.mediaFailed e)).log = d.sys.log ∧
        d.sys.out <+: (failRequest env { d.sys with ctx := x } r (.mediaFailed e)).out :=
      failRequest_extends _ r _
    obtain ⟨hlog, hout⟩ := hfailed
    exact (livesFrom_removeReq (.of_log hout hlog) r.seqId).trans (.of_table (.refl _) rfl)
  | @finish q r h hG => exact finishReq_livesFrom env d r
  | drop hs hfree => exact .of_table (releaseSeq_onSeq env _ _).adds rfl
  | fork hs hfree hnew hidle hcp hcopy hG =>
    exact .of_table ⟨List.prefix_refl _, List.prefix_append _ _⟩ rfl
  | forkFailed hs hidle hcp hcopy => exact withCtx_livesFrom env d _
  | @reset sid s hs =>
    rw [resetSessionSeq_eq hs]
    rcases failInflightForSeq_table env d s.seqId .engineReset with ⟨s', hquiet, heq⟩ | ⟨-, heq⟩
    · rw [heq]
      exact (livesFrom_removeReq hquiet.adds s.seqId).trans
        (.of_table (releaseSeq_onSeq env _ _).adds rfl)
    · rw [heq]
      exact .of_table (releaseSeq_onSeq env _ _).adds rfl
  | evict h hG hreason => exact fireSaveForReq_livesFrom env hkeys h hreason
  | load hG => exact (loadAdapter_step d _ _).livesFrom
  | unload hG => exact (unloadAdapter_step d _).livesFrom
  | scale hG => exact (setAdapterScale_step d _ _).livesFrom
  | inspect h hG => exact withCtx_livesFrom env d _
  | recover hlog hout hf hreset hG =>
    exact ⟨.of_log hout hlog, fun q r hr => nomatch hr⟩

/-- **The requests of a run live**: in a run that does not stop, every request in the table has
    lived on from the start of the run, or since it was admitted, and what it was sent and saved
    is among what the process sent and saved meanwhile. -/
theorem run_lives {p : Proc σ γ Sid} (hp : Wf env p.data) (events : List (Event Sid))
    (hlive : (run (step env) p events).phase ≠ .stopped) :
    LivesFrom env p.data (run (step env) p events).data := by
  have hmoves := run_moves hp events hlive
  generalize (run (step env) p events).data = d' at hmoves
  induction hmoves with
  | refl => exact .refl _
  | tail hbefore hmove ih => exact ih.trans (hmove.livesFrom (Moves.wf hbefore hp))

/-! ### What holds of the requests of a run -/

section Served

variable {r₀ r r' : Req Sid} {t : Story σ Sid}

omit [LinearOrder Sid] in
/-- No step of a life changes whose request it is. -/
theorem LifeStep.caller (h : LifeStep env r t r') :
    r'.mode = r.mode ∧ r'.callerPid = r.callerPid ∧ r'.requestRef = r.requestRef := by
  cases h.scans with
  | silent hscan =>
    exact ⟨congrArg Scan.mode hscan, congrArg Scan.callerPid hscan,
      congrArg Scan.requestRef hscan⟩
  | token hgoes htakes hscan =>
    exact ⟨congrArg Scan.mode hscan, congrArg Scan.callerPid hscan,
      congrArg Scan.requestRef hscan⟩

omit [LinearOrder Sid] in
/-- Nor does a whole life. -/
theorem Life.caller (h : Life env Story.free r₀ t r) :
    r.mode = r₀.mode ∧ r.callerPid = r₀.callerPid ∧ r.requestRef = r₀.requestRef :=
  h.invariant (I := fun _ r => r.mode = r₀.mode ∧ r.callerPid = r₀.callerPid ∧
      r.requestRef = r₀.requestRef) ⟨rfl, rfl, rfl⟩ fun hr _ hstep => by
    obtain ⟨hmode, hpid, href⟩ := hstep.caller
    exact ⟨hmode.trans hr.1, hpid.trans hr.2.1, href.trans hr.2.2⟩

omit [LinearOrder Sid] in
/-- A request stays one for text. -/
theorem LifeStep.media (h : LifeStep env r t r') : r'.media = r.media := by
  cases h with
  | rest hcourse =>
    have hmedia : r'.course.media = r.course.media := congrArg Req.media hcourse
    exact hmedia
  | stopped => rfl
  | @result d op res after out saves hfin hrow hres =>
    exact (stepResult_applies env d r hres).ident.media
  | @committed d ref tok eog => exact (tokenResult_applies env d r tok eog).ident.media
  | @saved d reason =>
    exact (creditSave_core r (fireSaveIf env d true reason r.contextTokens r).1
      r.contextTokens).media

omit [LinearOrder Sid] in
/-- All its life. -/
theorem Life.media (h : Life env Story.free r₀ t r) : r.media = r₀.media :=
  h.invariant (I := fun _ r => r.media = r₀.media) rfl fun hr _ hstep => hstep.media.trans hr

omit [LinearOrder Sid] in
/-- What comes in has the scan of its options. -/
theorem Enters.scan (h : Enters env r) :
    ∃ gen : GenOpts, r.scan = gen.scan r.mode r.callerPid r.requestRef := by
  cases h with
  | @text d r h mode prompt opts =>
    obtain ⟨gen, hgen⟩ := h.scan
    have hscan := (setupAdmissionPath_begins env d r mode prompt opts).scan
    have hmode := congrArg Scan.mode hscan
    have hpid := congrArg Scan.callerPid hscan
    have href := congrArg Scan.requestRef hscan
    refine ⟨gen, hscan.trans (hgen.trans ?_)⟩
    rw [← show Req.mode _ = r.mode from hmode, ← show Req.callerPid _ = r.callerPid from hpid,
      ← show Req.requestRef _ = r.requestRef from href]
  | media h => exact h.scan

variable {ctx : σ} {world : γ} {events : List (Event Sid)} {q : SeqId}
  (hlive : (run (step env) (init env ctx world) events).phase ≠ .stopped)
  (hr : (run (step env) (init env ctx world) events).data.reqTable.lookup q = some r)

include hlive hr

/-- A request in the table of a process came in with the scan of its options, and has lived
    since. -/
theorem run_life : ∃ (gen : GenOpts) (r₀ : Req Sid) (t : Story σ Sid), Enters env r₀ ∧
    r₀.scan = gen.scan r.mode r.callerPid r.requestRef ∧ Life env Story.free r₀ t r ∧
    Covers (init env ctx world : Proc σ γ Sid).data.sys
      (run (step env) (init env ctx world) events).data.sys t := by
  obtain ⟨r₀, t, hfrom, hlife, hcovers⟩ :=
    (run_lives (wf_init ctx world) events hlive).remains q r hr
  rcases hfrom with hnone | henters
  · exact nomatch hnone
  · obtain ⟨gen, hgen⟩ := henters.scan
    obtain ⟨hmode, hpid, href⟩ := hlife.caller
    refine ⟨gen, r₀, t, henters, ?_, hlife, hcovers⟩
    rw [hmode, hpid, href]
    exact hgen

/-- **The streams of a run**: what a stream was sent and what is held back make up its text, up
    to the first of its stop strings. -/
theorem run_scanned {dest : Pid × Ref} (hstream : r.stream = some dest) :
    ∃ t : Story σ Sid, Scanned env r.stopSequences dest t r ∧
      Covers (init env ctx world : Proc σ γ Sid).data.sys
        (run (step env) (init env ctx world) events).data.sys t := by
  obtain ⟨gen, r₀, t, -, hscan, hlife, hcovers⟩ := run_life hlive hr
  unfold Req.stream at hstream
  split at hstream
  case h_1 pid ref hmode hpid href =>
    cases hstream
    rw [hmode, hpid, href] at hscan
    have hscanned := life_scanned hscan hlife
    refine ⟨t, ?_, hcovers⟩
    rw [hscanned.given]
    exact hscanned
  case h_2 => exact nomatch hstream

/-- **The standard requests of a run** keep their text, up to the first of their stop strings. -/
theorem run_kept (hmode : r.mode = .standard) : Kept env r.stopSequences r := by
  obtain ⟨gen, r₀, t, -, hscan, hlife, -⟩ := run_life hlive hr
  rw [hmode] at hscan
  have hkept := life_kept hscan hlife
  rw [hkept.given]
  exact hkept

/-- **The continued saves of a run** are spaced for every request for text, unless its admission
    or a step of its life reset the mark without slack. -/
theorem run_spaced (hmedia : r.media = none) :
    ∃ (r₀ : Req Sid) (t : Story σ Sid), Covers (init env ctx world : Proc σ γ Sid).data.sys
        (run (step env) (init env ctx world) events).data.sys t ∧
      (Spaced env.cfg.policy.continuedInterval r₀.cacheHitPrefixLen t.saves ∨
        (r₀.prefillCursor = none ∧
          ¬ Slack env.cfg.policy r₀.cacheHitPrefixLen r₀.contextTokens.length) ∨
        ∃ t₁ r₁ t₂ r₂, Life env (spacingGuard env.cfg.policy r₀) r₀ t₁ r₁ ∧
          LifeStep env r₁ t₂ r₂ ∧ ¬ spacingGuard env.cfg.policy r₀ t₁ r₁ t₂) := by
  obtain ⟨-, r₀, t, henters, -, hlife, hcovers⟩ := run_life hlive hr
  refine ⟨r₀, t, hcovers, ?_⟩
  rcases hlife.guarded_or (spacingGuard env.cfg.policy r₀) with hguarded | hbroken
  · by_cases hslack : r₀.prefillCursor = none →
      Slack env.cfg.policy r₀.cacheHitPrefixLen r₀.contextTokens.length
    · left
      have hpaced : Paced env.cfg.policy r₀.cacheHitPrefixLen (.start : Story σ Sid) r₀ := by
        cases henters with
        | text d h mode prompt opts =>
          exact (setupAdmissionPath_begins env d _ mode prompt opts).paced h.coldSaveSegments
            hslack
        | media h hsome =>
          rw [← hlife.media, hmedia] at hsome
          exact nomatch hsome
      exact (hguarded.invariant hpaced fun hpaced hG hstep =>
        hstep.strides.paced hpaced hG).spaced
    · exact .inr (.inl (Classical.not_imp.mp hslack))
  · exact .inr (.inr hbroken)

end Served

end Erllama.Model
