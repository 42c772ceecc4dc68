import Erllama.Model.Checkpoints
import Erllama.Model.Life

namespace Erllama.Model

/-!
# The spacing of continued saves

A continued save is to follow the last save, or the prefix a request was restored on, by the
continued interval.  The mark it is measured from is reset when a prefill drains with nothing
left to checkpoint, so the save after a restore or after a ladder may come early.

* `latestOf` — the longest of a restored prefix and the saves after it.
* `Spaced` — every continued save is an interval behind what was saved or restored before.
* `Strides` — what one step of a life does to the positions, the mark and the saves.
* `Slack` — the first save that can be due after a reset is late enough; `spacingGuard` — the
  steps that reset the mark have it.
* `life_spaced` — in the lives whose resets have it, continued saves are spaced.
-/

variable {σ γ Sid : Type}

/-! ### Positions -/

/-- The longest of a restored prefix and the saves after it. -/
def latestOf (prefixLen : Nat) (saves : List (SaveCall σ Sid)) : Nat :=
  saves.foldl (fun n c => max n c.buildMeta.tokens.length) prefixLen

/-- Every continued save is at least an interval longer than the restored prefix and than every
    save before it. -/
def Spaced (interval prefixLen : Nat) (saves : List (SaveCall σ Sid)) : Prop :=
  ∀ before c after, saves = before ++ c :: after → c.buildMeta.saveReason = .continued →
    interval + latestOf prefixLen before ≤ c.buildMeta.tokens.length

/-- The first continued save that can be due with a mark of zero and `len` tokens in the
    context is an interval after `base`. -/
def Slack (p : Policy) (base len : Nat) : Prop :=
  p.continuedInterval + base ≤ max p.continuedInterval (max p.minTokens (len + 1))

/-- The latest save of two lists. -/
theorem latestOf_append (n : Nat) (saves saves' : List (SaveCall σ Sid)) :
    latestOf n (saves ++ saves') = latestOf (latestOf n saves) saves' := List.foldl_append

/-- A longer context leaves no less slack. -/
theorem Slack.mono {p : Policy} {base len len' : Nat} (h : Slack p base len) (hle : len ≤ len') :
    Slack p base len' := by
  unfold Slack at h ⊢
  omega

/-- No saves are spaced. -/
theorem spaced_nil (interval n : Nat) : Spaced interval n ([] : List (SaveCall σ Sid)) := by
  intro before c after h
  exact absurd h.symm (by simp)

/-- One more save, which is a continued one only if it is late enough. -/
theorem Spaced.snoc {interval n : Nat} {saves : List (SaveCall σ Sid)} {c : SaveCall σ Sid}
    (h : Spaced interval n saves) (hc : c.buildMeta.saveReason = .continued →
      interval + latestOf n saves ≤ c.buildMeta.tokens.length) :
    Spaced interval n (saves ++ [c]) := by
  intro before c' after heq hreason
  cases after using List.reverseRecOn with
  | nil =>
    obtain ⟨rfl, hlast⟩ := List.append_inj' heq rfl
    cases hlast
    exact hc hreason
  | append_singleton after c'' =>
    rw [← List.cons_append, ← List.append_assoc] at heq
    obtain ⟨heq, -⟩ := List.append_inj' heq rfl
    exact h before c' after heq hreason

/-! ### What a step does -/

/-- At most one save: of these tokens, for this reason. -/
def AtMostOne (reason : SaveReason) (tokens : List Token) (saves : List (SaveCall σ Sid)) :
    Prop :=
  saves = [] ∨ ∃ c : SaveCall σ Sid, saves = [c] ∧ saveAttempt c = (reason, tokens)

/-- A step on a request: its context, what is left to prefill and to checkpoint, the mark of
    the last save, and the saves. -/
inductive Strides (p : Policy) (r : Req Sid) : Story σ Sid → Req Sid → Prop
  | rests {t r'} (hsaves : t.saves = []) (hcontext : r'.contextTokens = r.contextTokens)
      (hcursor : r'.prefillCursor = r.prefillCursor)
      (hsegs : r'.coldSaveSegments = r.coldSaveSegments)
      (hmark : r'.lastSaveAt = r.lastSaveAt) : Strides p r t r'
  | decodes {t r' tok} (hdrained : r.prefillCursor = none)
      (hcontext : r'.contextTokens = r.contextTokens ++ [tok]) (hcursor : r'.prefillCursor = none)
      (hsegs : r'.coldSaveSegments = r.coldSaveSegments)
      (hmark : t.saves = [] ∧ r'.lastSaveAt = r.lastSaveAt ∨
        shouldContinuedSave p r'.contextTokens.length r.lastSaveAt = true ∧
          AtMostOne .continued r'.contextTokens t.saves ∧
          r'.lastSaveAt = r'.contextTokens.length) : Strides p r t r'
  | prefills {t r' slice cursor rest} (hsaves : t.saves = [])
      (hcontext : r'.contextTokens = r.contextTokens ++ slice)
      (hbefore : r.prefillCursor = some cursor) (hleft : cursor = slice ++ rest)
      (hcursor : r'.prefillCursor = some rest)
      (hsegs : r'.coldSaveSegments = r.coldSaveSegments) : Strides p r t r'
  | drains {t r' slice} (hfed : t.fed = [(.prefill slice, .prefilled)]) (hsaves : t.saves = [])
      (hcontext : r'.contextTokens = r.contextTokens ++ slice)
      (hbefore : r.prefillCursor = some slice) (hcursor : r'.prefillCursor = none)
      (hwaits : r.coldSaveSegments.getD [] = []) (hsegs : r'.coldSaveSegments.getD [] = []) :
    Strides p r t r'
  | rotates {t r' slice reason next rest}
      (hcontext : r'.contextTokens = r.contextTokens ++ slice)
      (hbefore : r.prefillCursor = some slice)
      (hwaits : r.coldSaveSegments = some ((reason, next) :: rest))
      (hcursor : r'.prefillCursor = cursorOf next) (hsegs : r'.coldSaveSegments = some rest)
      (hsave : AtMostOne reason r'.contextTokens t.saves)
      (hmark : r'.lastSaveAt = r'.contextTokens.length) : Strides p r t r'
  | saves {t r' reason} (hreason : reason = .evict ∨ reason = .shutdown)
      (hcontext : r'.contextTokens = r.contextTokens)
      (hcursor : r'.prefillCursor = r.prefillCursor)
      (hsegs : r'.coldSaveSegments = r.coldSaveSegments)
      (hsave : AtMostOne reason r.contextTokens t.saves)
      (hmark : r'.lastSaveAt = r.contextTokens.length) : Strides p r t r'

/-! ### Each operation -/

section Steps

variable {env : Env σ γ} {d : Data σ γ Sid} {r : Req Sid}

/-- Nothing was appended to a log that is as before. -/
theorem no_saves {l l' : List (Entry σ Sid)} {saves : List (SaveCall σ Sid)} (heq : l' = l)
    (hlog : l' = l ++ saves.map .save) : saves = [] := by
  rw [heq] at hlog
  exact List.map_eq_nil_iff.mp (List.self_eq_append_right.mp hlog)

/-- A save function saves at most once, and what it was asked to. -/
theorem fireSaveIf_atMostOne {should : Bool} {reason : SaveReason} {tokens : List Token}
    {saves : List (SaveCall σ Sid)}
    (hlog : (fireSaveIf env d should reason tokens r).2.log = d.sys.log ++ saves.map .save) :
    AtMostOne reason tokens saves := by
  unfold fireSaveIf at hlog
  split at hlog
  · exact .inl (no_saves rfl hlog)
  · right
    have hone : saves = [⟨r, buildMetaFor env d reason tokens r,
        env.be.kvPack d.sys.ctx tokens r.seqId, d.sys.ctx⟩] := saves_unique hlog.symm
    exact ⟨_, hone, rfl⟩

variable (env) in
/-- Streaming a token does not move the mark. -/
theorem reqStreamEmit_lastSaveAt (s : Sys σ γ Sid) (r : Req Sid) (tok : Token) :
    (reqStreamEmit env s r tok).1.lastSaveAt = r.lastSaveAt := by
  unfold reqStreamEmit
  dsimp only
  split
  · rfl
  · split
    · rfl
    · split <;> rfl

/-- Nor do its logprobs. -/
theorem reqLogprobs_lastSaveAt (s : Sys σ γ Sid) (r : Req Sid) (m : LpMap) :
    (reqLogprobs s r m).1.lastSaveAt = r.lastSaveAt := by
  unfold reqLogprobs
  split <;> rfl

variable (env) in
/-- Nor does a thinking token. -/
theorem reqThinkingEmit_lastSaveAt (s : Sys σ γ Sid) (r : Req Sid) (tok : Token) :
    (reqThinkingEmit env s r tok).1.lastSaveAt = r.lastSaveAt := by
  unfold reqThinkingEmit maybeCapThinking
  split
  · rfl
  · split
    · dsimp only
      split
      · rfl
      · split
        · rfl
        · split <;> rfl
    · rfl

variable (env) in
/-- Nor does the end of the thinking. -/
theorem reqThinkingEnd_lastSaveAt (s : Sys σ γ Sid) (r : Req Sid) :
    (reqThinkingEnd env s r).1.lastSaveAt = r.lastSaveAt := by
  unfold reqThinkingEnd
  split <;> rfl

/-- A step on a record with the same positions and mark. -/
theorem Strides.of_core {p : Policy} {t : Story σ Sid} {r₁ r' : Req Sid}
    (h : Strides p r₁ t r') (hcore : SameCore r r₁) (hmark : r₁.lastSaveAt = r.lastSaveAt) :
    Strides p r t r' := by
  obtain ⟨-, hcontext, hsegs, hcursor⟩ := hcore
  cases h with
  | rests hs hc hp hg hm =>
    exact .rests hs (hc.trans hcontext) (hp.trans hcursor) (hg.trans hsegs) (hm.trans hmark)
  | decodes hd hc hp hg hm =>
    rw [hmark] at hm
    exact .decodes (hcursor ▸ hd) (hcontext ▸ hc) hp (hg.trans hsegs) hm
  | prefills hs hc hb hl hp hg =>
    exact .prefills hs (hcontext ▸ hc) (hcursor ▸ hb) hl hp (hg.trans hsegs)
  | drains hf hs hc hb hp hw hg =>
    exact .drains hf hs (hcontext ▸ hc) (hcursor ▸ hb) hp (hsegs ▸ hw) hg
  | rotates hc hb hw hp hg hs hm =>
    exact .rotates (hcontext ▸ hc) (hcursor ▸ hb) (hsegs ▸ hw) hp hg hs hm
  | saves hr hc hp hg hs hm =>
    exact .saves hr (hc.trans hcontext) (hp.trans hcursor) (hg.trans hsegs) (hcontext ▸ hs)
      (hcontext ▸ hm)

/-- Nothing that the spacing depends on, and no save. -/
theorem SameCore.strides {t : Story σ Sid} {r' : Req Sid} {s : Sys σ γ Sid}
    (hcore : SameCore r r') (hmute : Mute d.sys s) (hmark : r'.lastSaveAt = r.lastSaveAt)
    (hlog : s.log = d.sys.log ++ t.saves.map .save) : Strides env.cfg.policy r t r' := by
  exact .rests (no_saves hmute.log hlog) hcore.contextTokens hcore.prefillCursor
    hcore.coldSaveSegments hmark

/-- A token, and the continued save when one is due. -/
theorem tokenResult_strides {tok : Token} {eog : Bool} {t : Story σ Sid}
    (hdrained : r.prefillCursor = none)
    (hlog : (tokenResult env d r tok eog).2.log = d.sys.log ++ t.saves.map .save) :
    Strides env.cfg.policy r t (tokenResult env d r tok eog).1 := by
  obtain ⟨hcore, hmute⟩ := reqStreamEmit_core env (reqAppendToken r tok) d.sys tok
  have hemit : _ = r.lastSaveAt := reqStreamEmit_lastSaveAt env d.sys (reqAppendToken r tok) tok
  have hcontext : _ = r.contextTokens ++ [tok] := hcore.contextTokens
  have hcursor := hcore.prefillCursor.trans hdrained
  have hsegs := hcore.coldSaveSegments
  unfold tokenResult at hlog ⊢
  dsimp only at hlog ⊢
  generalize reqStreamEmit env d.sys (reqAppendToken r tok) tok = emitted at *
  split at hlog
  case isTrue hdone =>
    rw [if_pos hdone]
    exact .decodes hdrained hcontext hcursor hsegs (.inl ⟨no_saves hmute.log hlog, hemit⟩)
  case isFalse hgoes =>
    rw [if_neg hgoes]
    unfold maybeFireContinuedForReq at hlog ⊢
    split at hlog
    case isTrue hmedia =>
      rw [if_pos hmedia]
      exact .decodes hdrained hcontext hcursor hsegs (.inl ⟨no_saves hmute.log hlog, hemit⟩)
    case isFalse hmedia =>
      rw [if_neg hmedia]
      dsimp only at hlog ⊢
      split at hlog
      case isFalse hnot =>
        rw [if_neg hnot]
        exact .decodes hdrained hcontext hcursor hsegs (.inl ⟨no_saves hmute.log hlog, hemit⟩)
      case isTrue hdue =>
        rw [if_pos hdue]
        have hsame := (fireSaveForTokens_fires env (withSys d emitted.2) emitted.1 .continued
          emitted.1.contextTokens).1
        rw [← show emitted.2.log = d.sys.log from hmute.log] at hlog
        have hsave : AtMostOne .continued emitted.1.contextTokens t.saves :=
          fireSaveIf_atMostOne (d := withSys d emitted.2) hlog
        refine .decodes hdrained (hsame.contextTokens.trans hcontext)
          (hsame.prefillCursor.trans hcursor) (hsame.coldSaveSegments.trans hsegs)
          (.inr ⟨?_, ?_, ?_⟩)
        all_goals rw [show Req.contextTokens _ = emitted.1.contextTokens from hsame.contextTokens]
        · rw [← hemit]
          exact hdue
        · exact hsave

/-- A checkpoint at a boundary is the last save from then on, whether or not it fired. -/
theorem maybeFireColdSave_mark {entry : SaveReason × List Token}
    {rest : List (SaveReason × List Token)} (hwaits : r.coldSaveSegments = some (entry :: rest)) :
    (maybeFireColdSave env d r).1.lastSaveAt = r.contextTokens.length := by
  unfold maybeFireColdSave
  rw [hwaits]

/-- A slice, and what becomes of a cursor that it drains. -/
theorem prefilledResult_strides {slice : List Token} {t : Story σ Sid}
    (hrow : RowFor r (.prefill slice)) (hfed : t.fed = [(.prefill slice, .prefilled)])
    (hlog : (prefilledResult env d r slice).2.log = d.sys.log ++ t.saves.map .save) :
    Strides env.cfg.policy r t (prefilledResult env d r slice).1 := by
  obtain ⟨-, cursor, hcursor, rest, rfl⟩ := hrow
  have hremaining : (r.prefillCursor.getD []).drop slice.length = rest := by
    rw [hcursor]
    exact List.drop_left
  obtain ⟨saves, hsaves, hattempts⟩ := prefilledResult_log env d r slice
  have heq : t.saves = saves := saves_unique (hlog.symm.trans hsaves)
  subst heq
  unfold coldAttempt at hattempts
  unfold prefilledResult
  dsimp only
  rw [hremaining] at hattempts ⊢
  by_cases hrest : rest = []
  -- Some is left to prefill.
  case neg =>
    rw [if_neg hrest] at hattempts ⊢
    exact .prefills (List.map_eq_nil_iff.mp hattempts) rfl hcursor rfl rfl rfl
  case pos =>
    subst hrest
    rw [List.append_nil] at hcursor
    rw [if_pos rfl] at hattempts ⊢
    -- The cursor is drained: the record with the mark reset, before the ladder is looked at.
    generalize hr₁ : ({ r with
        contextTokens := r.contextTokens ++ slice
        prefillCursor := none
        lastSaveAt := 0 } : Req Sid) = r₁
    have hcontext : r₁.contextTokens = r.contextTokens ++ slice := hr₁ ▸ rfl
    have hsegs : r₁.coldSaveSegments = r.coldSaveSegments := hr₁ ▸ rfl
    have hdrained : r₁.prefillCursor = none := hr₁ ▸ rfl
    clear hr₁
    obtain ⟨hsame, hrotates, hdrains⟩ := @maybeFireColdSave_ladder _ _ _ env d r₁
    rw [hcontext] at hsame
    rw [hsegs] at hrotates hdrains
    cases hwaits : r.coldSaveSegments.getD [] with
    -- No cut waits: the mark stays at zero.
    | nil =>
      rw [hwaits] at hattempts
      obtain ⟨hcursor', hsegs'⟩ := hdrains hwaits hdrained
      exact .drains hfed (List.map_eq_nil_iff.mp hattempts) hsame hcursor hcursor' hwaits hsegs'
    -- A cut waits: the next segment rotates in and the mark is set.
    | cons entry segs =>
      obtain ⟨reason, next⟩ := entry
      have hsome : r.coldSaveSegments = some ((reason, next) :: segs) := by
        cases hr : r.coldSaveSegments with
        | none =>
          rw [hr] at hwaits
          exact nomatch hwaits
        | some _ =>
          rw [hr] at hwaits
          exact congrArg some hwaits
      obtain ⟨hcursor', hsegs'⟩ := hrotates _ _ _ hsome
      -- the save may be held back, but is for this boundary
      have hsave : AtMostOne reason (r.contextTokens ++ slice) t.saves := by
        rw [hwaits] at hattempts
        change t.saves.map saveAttempt
          = [(reason, r.contextTokens ++ slice)].filter (Attempt.fires env) at hattempts
        cases hfires : Attempt.fires env (reason, r.contextTokens ++ slice) with
        | false =>
          rw [List.filter_cons_of_neg (by rw [hfires]; exact Bool.false_ne_true)] at hattempts
          exact .inl (List.map_eq_nil_iff.mp hattempts)
        | true =>
          rw [List.filter_cons_of_pos hfires] at hattempts
          obtain ⟨c, hc, hattempt⟩ := List.map_eq_singleton_iff.mp hattempts
          exact .inr ⟨c, hc, hattempt⟩
      refine .rotates hsame hcursor hsome hcursor' hsegs' (hsame ▸ hsave) ?_
      rw [maybeFireColdSave_mark (hsegs.trans hsome), hsame, hcontext]

variable {t : Story σ Sid} {r' : Req Sid}

/-- **What a step of a life does** to positions, mark and saves. -/
theorem LifeStep.strides (h : LifeStep env r t r') : Strides env.cfg.policy r t r' := by
  cases h with
  | @rest r' hcourse hcancel =>
    have hfield : ∀ {β} (f : Req Sid → β), (∀ r, f r.course = f r) → f r' = f r :=
      fun f hf => by rw [← hf r', ← hf r, hcourse]
    exact .rests rfl (hfield Req.contextTokens fun _ => rfl)
      (hfield Req.prefillCursor fun _ => rfl) (hfield Req.coldSaveSegments fun _ => rfl)
      (hfield Req.lastSaveAt fun _ => rfl)
  | stopped h => exact .rests rfl rfl rfl rfl rfl
  | @result d op res after out saves hfin hrow hres hout hlog =>
    unfold stepResult at hres
    split at hres
    case h_1 slice =>
      cases hres
      exact prefilledResult_strides hrow rfl hlog
    case h_2 ref tok eog lp =>
      cases hres
      cases lp with
      | none => exact tokenResult_strides hrow hlog
      | some lp =>
        obtain ⟨hcore, hmute⟩ := reqLogprobs_core r d.sys ⟨tok, lp.sampled, lp.top⟩
        have hmark := reqLogprobs_lastSaveAt d.sys r ⟨tok, lp.sampled, lp.top⟩
        have hsteps := tokenResult_strides
          (d := withSys d (reqLogprobs d.sys r ⟨tok, lp.sampled, lp.top⟩).2)
          (t := ⟨[(.decode ref, .token tok eog (some lp))], out, saves⟩)
          (hcore.prefillCursor.trans hrow) (hlog.trans (congrArg (· ++ _) hmute.log.symm))
        exact hsteps.of_core hcore hmark
    case h_3 ref tok =>
      split at hres
      · cases hres
        exact tokenResult_strides hrow hlog
      · cases hres
        obtain ⟨hcore, hmute⟩ := reqThinkingEmit_core env r d.sys tok
        exact hcore.strides hmute (reqThinkingEmit_lastSaveAt env d.sys r tok) hlog
    case h_4 ref =>
      cases hres
      obtain ⟨hcore, hmute⟩ := reqThinkingEnd_core env r d.sys
      exact hcore.strides hmute (reqThinkingEnd_lastSaveAt env d.sys r) hlog
    case h_5 => exact nomatch hres
  | committed hfin hrow hout hlog => exact tokenResult_strides hrow hlog
  | @saved d reason saves hreason hsome hlog =>
    have hcore := creditSave_core r (fireSaveIf env d true reason r.contextTokens r).1
      r.contextTokens
    exact .saves hreason hcore.contextTokens hcore.prefillCursor hcore.coldSaveSegments
      (fireSaveIf_atMostOne hlog) rfl

end Steps

/-! ### Whole lives -/

/-- A step that drains the cursor with nothing left to checkpoint, and so resets the mark,
    leaves slack. -/
def spacingGuard (p : Policy) (r₀ : Req Sid) (t : Story σ Sid) (r : Req Sid)
    (t' : Story σ Sid) : Prop :=
  ∀ slice, t'.fed = [(.prefill slice, .prefilled)] → r.prefillCursor = some slice →
    r.coldSaveSegments.getD [] = [] →
      Slack p (latestOf r₀.cacheHitPrefixLen t.saves) (r.contextTokens.length + slice.length)

/-- The invariant: continued saves were spaced; all that was saved or restored is in the
    context or about to be; only boundaries wait to be checkpointed; and while it decodes, the
    mark is up to date or leaves slack. -/
structure Paced (p : Policy) (n : Nat) (t : Story σ Sid) (r : Req Sid) : Prop where
  spaced : Spaced p.continuedInterval n t.saves
  reach : latestOf n t.saves ≤ r.contextTokens.length + (r.prefillCursor.getD []).length
  segments : ∀ entry ∈ r.coldSaveSegments.getD [], entry.1 ≠ .continued
  mark : r.prefillCursor = none → latestOf n t.saves ≤ r.lastSaveAt ∨
    Slack p (latestOf n t.saves) r.contextTokens.length

section Lives

variable {p : Policy} {n : Nat} {t t' : Story σ Sid} {r r' : Req Sid} {reason : SaveReason}
  {tokens : List Token}

/-- One more save that is due. -/
theorem AtMostOne.spaced {saves saves' : List (SaveCall σ Sid)} {interval : Nat}
    (h : AtMostOne reason tokens saves') (hspaced : Spaced interval n saves)
    (hdue : reason = .continued → interval + latestOf n saves ≤ tokens.length) :
    Spaced interval n (saves ++ saves') := by
  rcases h with rfl | ⟨c, rfl, hattempt⟩
  · rwa [List.append_nil]
  · obtain ⟨hreason, htokens⟩ := Prod.mk.inj hattempt
    refine hspaced.snoc fun hcontinued => ?_
    rw [htokens]
    exact hdue (hreason.symm.trans hcontinued)

/-- A save moves the latest position to its own length, if at all. -/
theorem AtMostOne.latestOf_le {saves' : List (SaveCall σ Sid)}
    (h : AtMostOne reason tokens saves') (n : Nat) (saves : List (SaveCall σ Sid)) :
    latestOf n (saves ++ saves') ≤ max (latestOf n saves) tokens.length := by
  rcases h with rfl | ⟨c, rfl, hattempt⟩
  · rw [List.append_nil]
    omega
  · rw [latestOf_append]
    show max (latestOf n saves) c.buildMeta.tokens.length ≤ _
    rw [show c.buildMeta.tokens = tokens from (Prod.mk.inj hattempt).2]

/-- A continued save is due an interval after the mark, for a context long enough. -/
theorem shouldContinuedSave_iff (p : Policy) (liveCount lastSavedAt : Nat) :
    shouldContinuedSave p liveCount lastSavedAt = true ↔
      p.continuedInterval + lastSavedAt ≤ liveCount ∧ p.minTokens ≤ liveCount := by
  unfold shouldContinuedSave
  rw [Bool.and_eq_true, decide_eq_true_eq, decide_eq_true_eq]

/-- **Step lemma.** -/
theorem Strides.paced {r₀ : Req Sid} (h : Strides p r t' r')
    (hpaced : Paced p r₀.cacheHitPrefixLen t r) (hG : spacingGuard p r₀ t r t') :
    Paced p r₀.cacheHitPrefixLen (t.andThen t') r' := by
  obtain ⟨hspaced, hreach, hsegments, hmark⟩ := hpaced
  have hsaves : (t.andThen t').saves = t.saves ++ t'.saves := rfl
  have hnone : t'.saves = [] → (t.andThen t').saves = t.saves := fun h => by
    rw [hsaves, h, List.append_nil]
  cases h with
  -- Nothing but marks.
  | rests hs hcontext hcursor hsegs hlast =>
    constructor
    · rwa [hnone hs]
    · rwa [hnone hs, hcontext, hcursor]
    · rwa [hsegs]
    · rwa [hnone hs, hcontext, hcursor, hlast]
  -- A token: the context grows by one, and a continued save may be due.
  | @decodes tok hdrained hcontext hcursor hsegs hlast =>
    rw [hdrained, Option.getD_none, List.length_nil, Nat.add_zero] at hreach
    have hgrown : r'.contextTokens.length = r.contextTokens.length + 1 := by
      rw [hcontext, List.length_append, List.length_singleton]
    rcases hlast with ⟨hs, hlast⟩ | ⟨hdue, hsave, hlast⟩
    · constructor
      · rwa [hnone hs]
      · rw [hnone hs]
        omega
      · rwa [hsegs]
      · intro _
        rw [hnone hs, hlast]
        exact (hmark hdrained).imp_right fun h => h.mono (by omega)
    · -- a save is due: it is late because of the mark, or because of the slack
      obtain ⟨hinterval, hmin⟩ := (shouldContinuedSave_iff p _ _).mp hdue
      have hlate : p.continuedInterval + latestOf r₀.cacheHitPrefixLen t.saves
          ≤ r'.contextTokens.length := by
        rcases hmark hdrained with hle | hslack
        · omega
        · unfold Slack at hslack
          omega
      have hlatest := hsave.latestOf_le r₀.cacheHitPrefixLen t.saves
      constructor
      · exact hsave.spaced hspaced fun _ => hlate
      · rw [hsaves]
        omega
      · rwa [hsegs]
      · intro _
        left
        rw [hsaves]
        omega
  -- A slice moves from the cursor to the context: their sum stays.
  | @prefills slice cursor rest hs hcontext hbefore hleft hcursor hsegs =>
    rw [hbefore, Option.getD_some, hleft, List.length_append] at hreach
    constructor
    · rwa [hnone hs]
    · rw [hnone hs, hcontext, hcursor, Option.getD_some, List.length_append]
      omega
    · rwa [hsegs]
    · rw [hcursor]
      exact nofun
  -- The last slice resets the mark: the guard gives the slack that takes its place.
  | @drains slice hfed hs hcontext hbefore hcursor hwaits hsegs =>
    have hslack := hG slice hfed hbefore hwaits
    rw [hbefore, Option.getD_some] at hreach
    have hgrown : r'.contextTokens.length = r.contextTokens.length + slice.length := by
      rw [hcontext, List.length_append]
    constructor
    · rwa [hnone hs]
    · rw [hnone hs]
      omega
    · rw [hsegs]
      exact nofun
    · intro _
      right
      rwa [hnone hs, hgrown]
  -- A checkpoint: its reason is not `continued`, and the mark is the context's length.
  | @rotates slice reason next rest hcontext hbefore hwaits hcursor hsegs hsave hlast =>
    rw [hbefore, Option.getD_some] at hreach
    rw [hwaits, Option.getD_some] at hsegments
    have hgrown : r'.contextTokens.length = r.contextTokens.length + slice.length := by
      rw [hcontext, List.length_append]
    have hlatest := hsave.latestOf_le r₀.cacheHitPrefixLen t.saves
    constructor
    · exact hsave.spaced hspaced fun hreason =>
        absurd hreason (hsegments (reason, next) List.mem_cons_self)
    · rw [hsaves]
      omega
    · rw [hsegs, Option.getD_some]
      exact fun entry hentry => hsegments entry (List.mem_cons_of_mem _ hentry)
    · intro _
      left
      rw [hsaves]
      omega
  -- The operator's save is of the whole context, which nothing saved before exceeds.
  | @saves reason hreason hcontext hcursor hsegs hsave hlast =>
    have hlatest := hsave.latestOf_le r₀.cacheHitPrefixLen t.saves
    constructor
    · refine hsave.spaced hspaced fun hcontinued => ?_
      rcases hreason with rfl | rfl <;> exact nomatch hcontinued
    · rw [hsaves, hcontext, hcursor]
      omega
    · rwa [hsegs]
    · intro hdrained
      left
      rw [hcursor] at hdrained
      rw [hdrained, Option.getD_none, List.length_nil, Nat.add_zero] at hreach
      rw [hsaves, hlast]
      omega

/-- At admission the prefix that was restored is all there is. -/
theorem Begins.paced {env : Env σ γ} {r r₀ : Req Sid} (h : Begins env r r₀)
    (hr : r.coldSaveSegments = none)
    (hslack : r₀.prefillCursor = none →
      Slack env.cfg.policy r₀.cacheHitPrefixLen r₀.contextTokens.length) :
    Paced env.cfg.policy r₀.cacheHitPrefixLen (.start : Story σ Sid) r₀ := by
  refine ⟨spaced_nil _ _, ?_, ?_, fun hdrained => .inr (hslack hdrained)⟩
  · cases h with
    | cold d n => exact Nat.zero_le _
    | resumed n context cursor kind hlen => exact hlen
  · cases h with
    | cold d n =>
      intro entry hentry
      unfold setupCold buildColdLadder at hentry
      obtain ⟨hreason, -⟩ := List.of_mem_zip hentry
      obtain ⟨b, -, hb⟩ := List.mem_map.mp hreason
      unfold ladderReason at hb
      rw [← hb]
      split <;> exact nofun
    | resumed n context cursor kind hlen =>
      rw [show Req.coldSaveSegments _ = none from hr]
      exact nofun

/-- **Continued saves are spaced** in every life of a request, however it was admitted, whose
    resets of the mark leave slack: the drain of a prefill with nothing left to checkpoint, and
    an admission with nothing to prefill. -/
theorem life_spaced {env : Env σ γ} (d : Data σ γ Sid) {r : Req Sid}
    (hr : r.coldSaveSegments = none) (mode : AdmitMode) (prompt : List Token)
    (opts : LookupOpts)
    (hslack : (setupAdmissionPath env d r mode prompt opts).1.prefillCursor = none →
      Slack env.cfg.policy (setupAdmissionPath env d r mode prompt opts).1.cacheHitPrefixLen
        (setupAdmissionPath env d r mode prompt opts).1.contextTokens.length)
    (hlife : Life env (spacingGuard env.cfg.policy (setupAdmissionPath env d r mode prompt opts).1)
      (setupAdmissionPath env d r mode prompt opts).1 t r') :
    Spaced env.cfg.policy.continuedInterval
      (setupAdmissionPath env d r mode prompt opts).1.cacheHitPrefixLen t.saves := by
  have hbegins := setupAdmissionPath_begins env d r mode prompt opts
  generalize (setupAdmissionPath env d r mode prompt opts).1 = r₀ at *
  have hpaced : Paced env.cfg.policy r₀.cacheHitPrefixLen t r' :=
    hlife.invariant (hbegins.paced hr hslack) fun hpaced hG hstep =>
      hstep.strides.paced hpaced hG
  exact hpaced.spaced

end Lives

/-! ### A prompt that is sent again -/

/-- A request for a few tokens after five. -/
def resentReq : Req Nat :=
  generatingReq (mapProc plainParams .empty 1).data 0 .standard ⟨some 4, [], false, none, ⟨0, []⟩⟩
    [1, 2, 3, 4, 5] (some 0)

/-- Its record when all five tokens are still in the KV of its session's seq. -/
def resentStart : Req Nat :=
  (setupAdmissionPath (mapEnv plainParams .empty 1) (mapProc plainParams .empty 1).data resentReq
    (.stickyPartial 5) [1, 2, 3, 4, 5] ⟨none, none⟩).1

/-- Its record when the first three are. -/
def extendedStart : Req Nat :=
  (setupAdmissionPath (mapEnv plainParams .empty 1) (mapProc plainParams .empty 1).data resentReq
    (.sticky [1, 2, 3]) [1, 2, 3, 4, 5] ⟨none, none⟩).1

/-- The save behind the first token of a request, once `slice` is prefilled. -/
def firstSave (r₀ : Req Nat) (slice : List Token) : SaveCall MapCtx Nat :=
  let env := mapEnv plainParams .empty 1
  let d := (mapProc plainParams .empty 1).data
  let r := (reqStreamEmit env d.sys (reqAppendToken (prefilledResult env d r₀ slice).1 7) 7).1
  ⟨r, buildMetaFor env d .continued r.contextTokens r, env.be.kvPack d.sys.ctx r.contextTokens 0,
    d.sys.ctx⟩

/-- With an interval of two, a prompt whose prefix of three tokens was restored is prefilled to
    its end, and the save behind the next token is three tokens after the prefix. -/
theorem extendedStart_spaced :
    ∃ t r', Life (mapEnv plainParams .empty 1) (spacingGuard eagerPolicy extendedStart)
        extendedStart t r' ∧
      t.saves = [firstSave extendedStart [4, 5]] ∧
      Spaced 2 extendedStart.cacheHitPrefixLen t.saves := by
  have hfirst : LifeStep (mapEnv plainParams .empty 1) extendedStart
      ⟨[(.prefill [4, 5], .prefilled)], [], []⟩
      (prefilledResult (mapEnv plainParams .empty 1) (mapProc plainParams .empty 1).data
        extendedStart [4, 5]).1 :=
    .result (d := (mapProc plainParams .empty 1).data) rfl ⟨nofun, _, rfl, List.prefix_rfl⟩ rfl
      rfl rfl
  have hsecond : LifeStep (mapEnv plainParams .empty 1)
      (prefilledResult (mapEnv plainParams .empty 1) (mapProc plainParams .empty 1).data
        extendedStart [4, 5]).1
      ⟨[(.decode 0, .token 7 false none)], [], [firstSave extendedStart [4, 5]]⟩ _ :=
    .result (d := (mapProc plainParams .empty 1).data) rfl rfl rfl rfl rfl
  obtain ⟨t, r', hlife, hsaves⟩ : ∃ t r', Life (mapEnv plainParams .empty 1)
      (spacingGuard eagerPolicy extendedStart) extendedStart t r' ∧
        t.saves = [firstSave extendedStart [4, 5]] := by
    refine ⟨_, _, .tail (.tail .refl ?_ hfirst) ?_ hsecond, rfl⟩
    · rintro slice - hcursor -
      cases hcursor
      unfold Slack
      decide
    · rintro slice hfed
      exact nomatch hfed
  exact ⟨t, r', hlife, hsaves, life_spaced (mapProc plainParams .empty 1).data (r := resentReq) rfl
    (.sticky [1, 2, 3]) [1, 2, 3, 4, 5] ⟨none, none⟩ nofun hlife⟩

/-- A prompt that was restored whole is saved again behind its first token. -/
theorem resentStart_early :
    ¬ ∀ t r', Life (mapEnv plainParams .empty 1) Story.free resentStart t r' →
      Spaced (mapEnv plainParams .empty 1).cfg.policy.continuedInterval
        resentStart.cacheHitPrefixLen t.saves := by
  intro h
  have hfirst : LifeStep (mapEnv plainParams .empty 1) resentStart
      ⟨[(.prefill [5], .prefilled)], [], []⟩
      (prefilledResult (mapEnv plainParams .empty 1) (mapProc plainParams .empty 1).data
        resentStart [5]).1 :=
    .result (d := (mapProc plainParams .empty 1).data) rfl ⟨nofun, _, rfl, List.prefix_rfl⟩ rfl
      rfl rfl
  have hsecond : LifeStep (mapEnv plainParams .empty 1)
      (prefilledResult (mapEnv plainParams .empty 1) (mapProc plainParams .empty 1).data
        resentStart [5]).1
      ⟨[(.decode 0, .token 7 false none)], [], [firstSave resentStart [5]]⟩ _ :=
    .result (d := (mapProc plainParams .empty 1).data) rfl rfl rfl rfl rfl
  have hearly := h _ _ (.tail (.tail .refl trivial hfirst) trivial hsecond) []
    (firstSave resentStart [5]) [] rfl rfl
  exact absurd hearly (by decide +kernel)

end Erllama.Model
