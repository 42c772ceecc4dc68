import Erllama.Model.Adoption
import Erllama.Model.StopScan

namespace Erllama.Model

open Lib

/-!
# Collecting a stream (`erllama_stream`)

`collect/2` is the loop of a caller that wants the whole reply of a stream.  What it returns is
what a standard request is replied with, when both are fed the same tokens.

* `collectEvent`, `collectResult`, `fold`, `collect` — the loop.
* `Done` — the tokens after which a request is done.
* `Kept` — the scan of a standard request; `Fed` — what every mode makes of its tokens.
* `life_agrees` — streaming and standard requests stop after the same tokens and agree.
-/

variable {σ γ Sid : Type}

/-! ### The loop -/

/-- The accumulator of `collect/2`; the iolists of the code are what they flatten to, and the
    lists start with the latest. -/
structure Collected where
  text : Bytes := []
  thinking : Bytes := []
  tokenIds : List Token := []
  logprobs : List LpMap := []

/-- `collect_event/2`. -/
def collectEvent (ev : StreamEvent) (acc : Collected) : Collected :=
  match ev with
  | .token text    => { acc with text := acc.text ++ text }
  | .tokenId id    => { acc with tokenIds := id :: acc.tokenIds }
  | .thinking text => { acc with thinking := acc.thinking ++ text }
  | .logprobs m    => { acc with logprobs := m :: acc.logprobs }
  | _              => acc

/-- The map that `collect/2` returns. -/
structure StreamResult where
  reply : Bytes
  thinking : Bytes
  generated : List Token
  committedTokens : Nat
  finishKey : Option CacheKey
  cacheHitKind : HitKind
  finishReason : FinishReason
  cacheDelta : Nat × Nat
  stats : Stats
  logprobs : List LpMap
  stopSequence : Option Bytes

/-- `result/2`. -/
def collectResult (acc : Collected) (stats : Stats) : StreamResult where
  reply := acc.text
  thinking := acc.thinking
  generated := stats.generated
  committedTokens := stats.committedTokens
  finishKey := stats.finishKey
  cacheHitKind := stats.cacheHitKind
  finishReason := stats.finishReason
  cacheDelta := stats.cacheDelta
  stats := stats
  logprobs := acc.logprobs.reverse
  stopSequence := stats.stopSequence

/-- `fold/4` over the messages in the order they arrive; other messages stay in the mailbox.
    `none` is a mailbox that runs dry, in which the loop waits. -/
def fold {α : Type} (ref : Ref) (f : StreamEvent → α → α) :
    List (Ref × StreamEvent) → α → Option (Except Err (α × Stats))
  | [], _ => none
  | (ref', ev) :: rest, acc =>
    -- messages of other streams stay in the mailbox
    if ref' = ref then
      match ev with
      | .done stats => some (.ok (acc, stats))
      | .error e    => some (.error e)
      | ev          => fold ref f rest (f ev acc)
    else fold ref f rest acc

/-- The messages of a stream to a process. -/
def mailbox (pid : Pid) (out : List Out) : List (Ref × StreamEvent) :=
  out.filterMap fun o => match o with
    | .send pid' ref ev => if pid' = pid then some (ref, ev) else none
    | _                 => none

/-- `collect/2`, in the process that the stream is sent to. -/
def collect (pid : Pid) (ref : Ref) (out : List Out) : Option (Except Err StreamResult) :=
  (fold ref collectEvent (mailbox pid out) {}).map fun res =>
    res.map fun end_ => collectResult end_.1 end_.2

section Loop

variable {pid : Pid} {ref : Ref}

/-- What two lists of messages bring to a reader. -/
theorem mailbox_append (out out' : List Out) :
    mailbox pid (out ++ out') = mailbox pid out ++ mailbox pid out' := List.filterMap_append

/-- The reader takes a message that does not end its stream. -/
theorem fold_cons {α : Type} {f : StreamEvent → α → α} {ev : StreamEvent}
    (hfinal : ev.isFinal = false) (rest : List (Ref × StreamEvent)) (acc : α) :
    fold ref f ((ref, ev) :: rest) acc = fold ref f rest (f ev acc) := by
  cases ev with
  | done stats => exact nomatch hfinal
  | error e => exact nomatch hfinal
  | _ => exact if_pos rfl

/-- The loop folds the events of its stream that are not the last. -/
theorem fold_notices (evs : List StreamEvent) (hevs : ∀ ev ∈ evs, ev.isFinal = false)
    (rest : List (Ref × StreamEvent)) (acc : Collected) :
    ∃ acc' : Collected,
      fold ref collectEvent (mailbox pid (noticesTo (some (pid, ref)) evs) ++ rest) acc
        = fold ref collectEvent rest acc' ∧
      acc'.text = acc.text ++ textOf (noticesTo (some (pid, ref)) evs) ∧
      acc'.logprobs.reverse
        = acc.logprobs.reverse ++ logprobsOf (noticesTo (some (pid, ref)) evs) := by
  induction evs generalizing acc with
  | nil => exact ⟨acc, rfl, (List.append_nil _).symm, (List.append_nil _).symm⟩
  | cons ev evs ih =>
    obtain ⟨acc', hfold, htext, hlps⟩ :=
      ih (fun ev hev => hevs ev (List.mem_cons_of_mem _ hev)) (collectEvent ev acc)
    have hnotices : noticesTo (some (pid, ref)) (ev :: evs)
        = [.send pid ref ev] ++ noticesTo (some (pid, ref)) evs := rfl
    have hone : mailbox pid [.send pid ref ev] = [(ref, ev)] := by
      unfold mailbox
      simp
    refine ⟨acc', ?_, ?_, ?_⟩
    · rw [← hfold, hnotices, mailbox_append, hone]
      exact fold_cons (hevs ev List.mem_cons_self) _ acc
    · rw [htext, hnotices, textOf_append]
      cases ev <;> simp [collectEvent, textOf]
    · rw [hlps, hnotices, logprobsOf_append]
      cases ev <;> simp [collectEvent, logprobsOf]

/-- **What is collected of a whole stream**: its text, and the stats at its end. -/
theorem collect_stream (evs : List StreamEvent) (hevs : ∀ ev ∈ evs, ev.isFinal = false)
    (pending : Bytes) (stats : Stats) :
    ∃ res, collect pid ref (noticesTo (some (pid, ref)) evs ++ closing pid ref pending stats)
        = some (.ok res) ∧
      res.reply = textOf (noticesTo (some (pid, ref)) evs) ++ pending ∧
      res.logprobs = logprobsOf (noticesTo (some (pid, ref)) evs) ∧
      res.generated = stats.generated ∧ res.finishReason = stats.finishReason ∧
      res.stopSequence = stats.stopSequence := by
  unfold collect
  rw [mailbox_append]
  obtain ⟨acc, hfold, htext, hlps⟩ := fold_notices evs hevs
    (mailbox pid (closing pid ref pending stats)) ({} : Collected)
  rw [hfold]
  have hend : ∃ acc' : Collected,
      fold ref collectEvent (mailbox pid (closing pid ref pending stats)) acc
        = some (.ok (acc', stats)) ∧
      acc'.text = acc.text ++ pending ∧ acc'.logprobs = acc.logprobs := by
    by_cases hnil : pending = []
    · refine ⟨acc, ?_, by rw [hnil, List.append_nil], rfl⟩
      simp [closing, hnil, mailbox, fold]
    · refine ⟨collectEvent (.token pending) acc, ?_, rfl, rfl⟩
      simp [closing, hnil, mailbox, fold]
  obtain ⟨acc', hdone, htext', hlps'⟩ := hend
  rw [hdone]
  refine ⟨_, rfl, ?_, ?_, rfl, rfl, rfl⟩
  · exact htext'.trans (congrArg (· ++ pending) htext)
  · show acc'.logprobs.reverse = _
    rw [hlps', hlps]
    rfl

end Loop

/-! ### What was sent -/

section Sent

variable {env : Env σ γ} {t : Story σ Sid} {r r' : Req Sid}

/-- Unless thinking is refused, a step sends events that are not the last. -/
theorem LifeStep.speaks (h : LifeStep env r t r') (hrefused : r'.thinkingNotEnabled = false) :
    r.thinkingNotEnabled = false ∧
      ∃ evs, (∀ ev ∈ evs, ev.isFinal = false) ∧ t.out = noticesTo r.stream evs := by
  have hnone : ∃ evs, (∀ ev ∈ evs, ev.isFinal = false) ∧ ([] : List Out) = noticesTo r.stream evs :=
    ⟨[], List.forall_mem_nil _, by cases r.stream <;> rfl⟩
  cases h with
  | @rest r' hcourse hcancel =>
    have hflag : r'.course.thinkingNotEnabled = r.course.thinkingNotEnabled := by rw [hcourse]
    exact ⟨hflag.symm.trans hrefused, hnone⟩
  | stopped h => exact ⟨hrefused, hnone⟩
  | @result d op res after out saves hfin hrow hres hout hlog =>
    cases stepResult_progress env d r hres with
    | sends hspeaks =>
      obtain ⟨evs, hevs, hsent⟩ := hspeaks.sends.out
      exact ⟨hspeaks.flag.symm.trans hrefused, evs, hevs,
        List.append_cancel_left (hout.symm.trans hsent)⟩
    | refuses hterms hflag hmark heq =>
      rw [hflag] at hrefused
      exact nomatch hrefused
  | @committed d ref tok eog out saves hfin hrow hout hlog =>
    have hspeaks := tokenResult_speaks env d r tok eog
    obtain ⟨evs, hevs, hsent⟩ := hspeaks.sends.out
    exact ⟨hspeaks.flag.symm.trans hrefused, evs, hevs,
      List.append_cancel_left (hout.symm.trans hsent)⟩
  | @saved d reason saves hreason hsome hlog =>
    refine ⟨?_, hnone⟩
    rw [← hrefused]
    cases (fireSaveIf env d true reason r.contextTokens r).1 <;> rfl

end Sent

/-! ### The tokens of a request -/

/-- A sampled token, whether it ends the generation, and its logprobs. -/
abbrev Sampled := Token × Bool × Option LpPayload

/-- The request was fed these tokens, and nothing else once its prompt was in. -/
def FedTokens (t : Story σ Sid) (f : List Sampled) : Prop :=
  (t.fed.filterMap fun row => if row.2 = .prefilled then none else some row.2)
    = f.map fun x => .token x.1 x.2.1 x.2.2

/-- The response target of the options. -/
def GenOpts.target (gen : GenOpts) : Nat := gen.responseTokens.getD defaultResponseTokens

/-- A request is done with these tokens: the last one ends the generation, the target is
    reached, or a stop string occurs in their text. -/
def Done (env : Env σ γ) (gen : GenOpts) (f : List Sampled) : Prop :=
  ∃ init last, f = init ++ [last] ∧ (last.2.1 = true ∨ gen.target ≤ f.length ∨
    ¬ Free (stopSequencesFrom gen) (chunks env (f.map Prod.fst)))

/-- The match of a request is that of its text. -/
structure Verdict (env : Env σ γ) (stops : List Bytes) (r : Req Sid) : Prop where
  free : r.matchedStop = none → Free stops (chunks env r.generated)
  match_ : ∀ p, r.matchedStop = some p → r.finishing = true ∧
    ∃ pos, Leftmost stops (chunks env r.generated) pos p

/-- The scan of a standard request, which keeps the whole text. -/
structure Kept (env : Env σ γ) (stops : List Bytes) (r : Req Sid) : Prop extends
    Verdict env stops r where
  given : r.stopSequences = stops
  standard : r.mode = .standard
  pending : r.matchedStop = none → stops ≠ [] → r.pendingText = chunks env r.generated

/-- What was fed, in every mode: the generated tokens, their logprobs, and whether the request
    is done with them. -/
structure Fed (env : Env σ γ) (gen : GenOpts) (t : Story σ Sid) (r : Req Sid) : Prop where
  generated : r.generated = (sampledOf t.fed).map Prod.fst
  target : r.responseTarget = gen.target
  refused : r.thinkingNotEnabled = false
  done : ¬ r.Disturbed → (r.finishing = true ↔ Done env gen (sampledOf t.fed))
  undone : ¬ r.Disturbed → ∀ f, f <+: sampledOf t.fed → f ≠ sampledOf t.fed → ¬ Done env gen f
  standard : r.mode = .standard →
    r.logprobsAcc.reverse = (sampledOf t.fed).flatMap fun x => lpMaps x.1 x.2.2
  stream : r.stream.isSome = true →
    logprobsOf t.out = (sampledOf t.fed).flatMap fun x => lpMaps x.1 x.2.2

section Fed

variable {env : Env σ γ} {gen : GenOpts} {stops : List Bytes} {t t' : Story σ Sid}
  {r r' : Req Sid} {f : List Sampled}

/-- The tokens of two lists of results. -/
theorem sampledOf_append (fed fed' : List (Op × StepResult)) :
    sampledOf (fed ++ fed') = sampledOf fed ++ sampledOf fed' := List.filterMap_append

/-- The tokens are among the results of decodes. -/
theorem sampledOf_eq (fed : List (Op × StepResult)) : sampledOf fed =
    (fed.filterMap fun row => if row.2 = .prefilled then none else some row.2).filterMap
      fun res => match res with
        | .token tok eog lp => some (tok, eog, lp)
        | _                 => none := by
  rw [List.filterMap_filterMap]
  refine List.filterMap_congr fun row _ => ?_
  obtain ⟨op, res⟩ := row
  cases res <;> rfl

/-- What was fed is what was sampled. -/
theorem FedTokens.sampled (h : FedTokens t f) : sampledOf t.fed = f := by
  unfold FedTokens at h
  rw [sampledOf_eq, h, List.filterMap_map]
  exact List.filterMap_some

/-- Nothing but tokens was fed, so no thinking. -/
theorem FedTokens.no_thinking (h : FedTokens t f) {op : Op} {tok : Token} :
    (op, .thinkingToken tok) ∉ t.fed := by
  intro hmem
  have hin : StepResult.thinkingToken tok ∈
      t.fed.filterMap fun row => if row.2 = .prefilled then none else some row.2 :=
    List.mem_filterMap.mpr ⟨_, hmem, rfl⟩
  unfold FedTokens at h
  rw [h] at hin
  obtain ⟨x, -, hx⟩ := List.mem_map.mp hin
  exact nomatch hx

/-- Done behind one more token: its flag, the target, or a stop string. -/
theorem done_snoc {x : Sampled} :
    Done env gen (f ++ [x]) ↔ x.2.1 = true ∨ gen.target ≤ (f ++ [x]).length ∨
      ¬ Free (stopSequencesFrom gen) (chunks env ((f ++ [x]).map Prod.fst)) := by
  constructor
  · rintro ⟨init, last, heq, h⟩
    obtain ⟨-, hlast⟩ := List.append_inj' heq rfl
    cases hlast
    exact h
  · exact fun h => ⟨f, x, rfl, h⟩

/-- A verdict says whether there is a match. -/
theorem Verdict.isSome_iff (h : Verdict env stops r) :
    r.matchedStop.isSome = true ↔ ¬ Free stops (chunks env r.generated) := by
  cases hm : r.matchedStop with
  | none => exact iff_of_false Bool.false_ne_true (not_not.mpr (h.free hm))
  | some p =>
    obtain ⟨-, pos, hleft⟩ := h.match_ p hm
    exact iff_of_true rfl hleft.not_free

/-- The scan of a stream, as a verdict. -/
theorem Scanned.verdict {dest : Pid × Ref} (h : Scanned env stops dest t r) :
    Verdict env stops r where
  free hm := (h.searching hm).free
  match_ p hm := by
    obtain ⟨hdone, -, -, -, pos, -, -, hleft, -⟩ := h.found p hm
    exact ⟨hdone, pos, hleft⟩

/-- **Step lemma** of a request that keeps its text. -/
theorem Scans.kept (h : Scans env r t' r') (hstops : ∀ stop ∈ stops, stop ≠ [])
    (hr : Kept env stops r) : Kept env stops r' := by
  obtain ⟨⟨hfree, hmatch⟩, hgiven, hmode, hpend⟩ := hr
  cases h with
  -- Marks only.
  | @silent f c n hscan hfin hdist hrefused hfed htext hlp =>
    have hgen : r'.generated = r.generated := congrArg Scan.generated hscan
    have hmatched : r'.matchedStop = r.matchedStop := congrArg Scan.matched hscan
    refine ⟨⟨?_, fun p hp => ?_⟩, (congrArg Scan.stops hscan).trans hgiven, ?_, ?_⟩
    · rwa [hmatched, hgen]
    · obtain ⟨hdone, hpos⟩ := hmatch p (hmatched ▸ hp)
      refine ⟨?_, by rwa [hgen]⟩
      rw [show r'.finishing = f from congrArg Scan.finishing hscan]
      rcases hfin with rfl | ⟨rfl, -⟩
      · exact hdone
      · rfl
    · rwa [show r'.mode = r.mode from congrArg Scan.mode hscan]
    · rwa [hmatched, hgen, show r'.pendingText = r.pendingText from congrArg Scan.pending hscan]
  -- A token: its chunk joins the text that is kept whole.
  | @token tok eog lp matched pending logprobs f hgoes htakes hscan hfin hfed hstandard hlps =>
    have hnone : r.matchedStop = none := by
      cases hm : r.matchedStop with
      | none => rfl
      | some p =>
        rw [(hmatch p hm).1] at hgoes
        exact nomatch hgoes
    have hgen : r'.generated = r.generated ++ [tok] := congrArg Scan.generated hscan
    have hmatched : r'.matchedStop = matched := congrArg Scan.matched hscan
    have hpending : r'.pendingText = pending := congrArg Scan.pending hscan
    have hchunks : chunks env r'.generated = chunks env r.generated ++ env.be.detokenize [tok] := by
      rw [hgen, chunks_append, chunks_singleton]
    have hdone : matched.isSome = true → r'.finishing = true := fun h => by
      rw [show r'.finishing = f from congrArg Scan.finishing hscan]
      exact hfin.mpr (.inr (.inr h))
    have hmode' : r'.mode = .standard := (congrArg Scan.mode hscan).trans hmode
    have hgiven' : r'.stopSequences = stops := (congrArg Scan.stops hscan).trans hgiven
    have hverdict : (matched = none → Free stops (chunks env r'.generated)) ∧
        (∀ p, matched = some p → ∃ pos, Leftmost stops (chunks env r'.generated) pos p) ∧
        (matched = none → stops ≠ [] → pending = chunks env r'.generated) := by
      rw [hchunks]
      generalize textOf t'.out = text at htakes
      cases htakes with
      | plain hnil =>
        have hempty : stops = [] := hgiven.symm.trans hnil
        subst hempty
        exact ⟨fun _ _ p hp => absurd hp List.not_mem_nil,
          fun p hp => absurd (hnone.symm.trans hp) nofun, fun _ h => absurd rfl h⟩
      -- The search is over the whole text.
      | @hit pos len hne hfound =>
        have hstop : stops ≠ [] := fun h => hne (hgiven.trans h)
        rw [show r.window.stops = stops from hgiven,
          show r.window.pending = chunks env r.generated from hpend hnone hstop] at hfound
        refine ⟨nofun, fun p hp => ?_, nofun⟩
        cases hp
        rw [show r.window.pending = chunks env r.generated from hpend hnone hstop]
        exact ⟨pos, binaryMatch_some hstops hfound⟩
      -- only streams hold back
      | hold hne hstreaming hfound hn => exact nomatch hmode.symm.trans hstreaming
      | keep hne hnot hfound =>
        have hstop : stops ≠ [] := fun h => hne (hgiven.trans h)
        have hwhole : r.window.pending = chunks env r.generated := hpend hnone hstop
        rw [show r.window.stops = stops from hgiven, hwhole] at hfound
        refine ⟨fun _ => (binaryMatch_none hstops).mp hfound,
          fun p hp => absurd (hnone.symm.trans hp) nofun, fun _ _ => ?_⟩
        rw [hwhole]
    obtain ⟨hfree', hmatch', hpend'⟩ := hverdict
    rw [← hmatched] at hfree' hmatch' hpend' hdone
    rw [← hpending] at hpend'
    exact ⟨⟨hfree', fun p hp => ⟨hdone (by rw [hp]; rfl), hmatch' p hp⟩⟩, hgiven', hmode', hpend'⟩

/-- Only cancels, prefills alone and refused thinking disturb a request, and they stay. -/
theorem Scans.disturbed (h : Scans env r t' r') (hr : r.Disturbed) : r'.Disturbed := by
  cases h with
  | silent hscan hfin hdist => exact hdist hr
  | token hgoes htakes hscan =>
    refine hr.of_scan ?_ (congrArg Scan.mode hscan) ?_
    · exact (congrArg Scan.cancelled hscan).trans
    · exact (congrArg Scan.refused hscan).trans

/-- One token has at most one entry of logprobs. -/
theorem reverse_lpMaps (tok : Token) (lp : Option LpPayload) :
    (lpMaps tok lp).reverse = lpMaps tok lp := by
  cases lp <;> rfl

/-- **Step lemma** of what was fed. -/
theorem Scans.fed (h : Scans env r t' r') (hthink : ∀ op tok, (op, .thinkingToken tok) ∉ t'.fed)
    (hverdict : Verdict env (stopSequencesFrom gen) r') (hr : Fed env gen t r) :
    Fed env gen (t.andThen t') r' := by
  have hsampled : sampledOf (t.andThen t').fed = sampledOf t.fed ++ sampledOf t'.fed :=
    sampledOf_append _ _
  have hlpsOf : logprobsOf (t.andThen t').out = logprobsOf t.out ++ logprobsOf t'.out :=
    logprobsOf_append _ _
  have hcalm : ¬ r'.Disturbed → ¬ r.Disturbed := mt h.disturbed
  obtain ⟨hgenerated, htarget, hrefused, hdone, hundone, hstandard, hstream⟩ := hr
  cases h with
  -- Marks only: no token was sampled.
  | @silent f c n hscan hfin hdist hflag hfed htext hlp =>
    have hmode : r'.mode = r.mode := congrArg Scan.mode hscan
    have hlive : r'.stream = r.stream := congrArg Scan.stream hscan
    rw [hfed, List.append_nil] at hsampled
    rw [hlp, List.append_nil] at hlpsOf
    constructor
    · rw [hsampled]
      exact (congrArg Scan.generated hscan).trans hgenerated
    · exact (congrArg Scan.target hscan).trans htarget
    · rcases hflag with rfl | ⟨op, tok, heq⟩
      · exact (congrArg Scan.refused hscan).trans hrefused
      · exact absurd (heq ▸ List.mem_singleton_self _) (hthink op tok)
    · intro hnot
      rw [hsampled, show r'.finishing = f from congrArg Scan.finishing hscan]
      rcases hfin with rfl | ⟨-, hdisturbed⟩
      · exact hdone (hcalm hnot)
      · exact absurd hdisturbed hnot
    · intro hnot
      rw [hsampled]
      exact hundone (hcalm hnot)
    · intro hstd
      rw [hsampled, show r'.logprobsAcc = r.logprobsAcc from congrArg Scan.logprobs hscan]
      exact hstandard (hmode.symm.trans hstd)
    · intro hsome
      rw [hsampled, hlpsOf]
      exact hstream (hlive ▸ hsome)
  -- One token was sampled, and is the last of the list.
  | @token tok eog lp matched pending logprobs f hgoes htakes hscan hfin hfed hstd hlps =>
    have hmode : r'.mode = r.mode := congrArg Scan.mode hscan
    have hlive : r'.stream = r.stream := congrArg Scan.stream hscan
    have hone : sampledOf t'.fed = [(tok, eog, lp)] := by
      rcases hfed with hfed | ⟨op, heq⟩
      · exact hfed
      · exact absurd (heq ▸ List.mem_singleton_self _) (hthink op tok)
    rw [hone] at hsampled
    have hgen : r'.generated = (sampledOf t.fed ++ [(tok, eog, lp)]).map Prod.fst := by
      rw [List.map_append, ← hgenerated]
      exact congrArg Scan.generated hscan
    have hlen : (r.generated ++ [tok]).length = (sampledOf t.fed ++ [(tok, eog, lp)]).length := by
      rw [hgenerated, List.length_append, List.length_append, List.length_map]
      rfl
    constructor
    · rw [hsampled]
      exact hgen
    · exact (congrArg Scan.target hscan).trans htarget
    · exact (congrArg Scan.refused hscan).trans hrefused
    · -- the token ends the request iff it makes the tokens enough
      intro _
      rw [hsampled, done_snoc, ← hgen, ← hverdict.isSome_iff, ← hlen, ← htarget,
        show r'.finishing = f from congrArg Scan.finishing hscan,
        show r'.matchedStop = matched from congrArg Scan.matched hscan]
      exact hfin
    -- the tokens before it were not enough, since the request went on
    · intro hnot before hpre hne
      rw [hsampled] at hpre hne
      rcases List.prefix_concat_iff.mp hpre with heq | hpre
      · exact absurd heq hne
      · by_cases hall : before = sampledOf t.fed
        · rw [hall]
          refine mt (hdone (hcalm hnot)).mpr ?_
          rw [hgoes]
          exact Bool.false_ne_true
        · exact hundone (hcalm hnot) before hpre hall
    · intro hstandard'
      rw [hmode] at hstandard'
      rw [hsampled, show r'.logprobsAcc = logprobs from congrArg Scan.logprobs hscan,
        hstd hstandard', List.reverse_append, hstandard hstandard', reverse_lpMaps,
        List.flatMap_append, List.flatMap_singleton]
    · intro hsome
      rw [hlive] at hsome
      rw [hsampled, hlpsOf, hstream hsome, hlps hsome, List.flatMap_append,
        List.flatMap_singleton]

end Fed

/-! ### Whole lives -/

section Lives

variable {env : Env σ γ} {gen : GenOpts} {t : Story σ Sid} {r r₀ : Req Sid} {pid : Pid} {ref : Ref}

/-- No thinking token was fed. -/
def Story.Plain (t : Story σ Sid) : Prop := ∀ op tok, (op, .thinkingToken tok) ∉ t.fed

/-- Both parts of a story without thinking are. -/
theorem Story.Plain.of_andThen {t' : Story σ Sid} (h : (t.andThen t').Plain) :
    t.Plain ∧ t'.Plain :=
  ⟨fun op tok hmem => h op tok (List.mem_append_left _ hmem),
    fun op tok hmem => h op tok (List.mem_append_right _ hmem)⟩

/-- Nothing is done before the first token. -/
theorem not_done_nil : ¬ Done env gen [] := by
  rintro ⟨init, last, heq, -⟩
  exact List.append_ne_nil_of_right_ne_nil init (List.cons_ne_nil last []) heq.symm

/-- At admission nothing was fed. -/
theorem fed_start {mode : Mode} {pid : Option Pid} {ref : Option Ref}
    (h : r₀.scan = gen.scan mode pid ref) : Fed env gen (.start : Story σ Sid) r₀ where
  generated := congrArg Scan.generated h
  target := congrArg Scan.target h
  refused := congrArg Scan.refused h
  done _ := by
    rw [show r₀.finishing = false from congrArg Scan.finishing h]
    exact iff_of_false Bool.false_ne_true not_done_nil
  undone _ f hpre hne := absurd (List.prefix_nil.mp hpre) hne
  standard _ := by
    rw [show r₀.logprobsAcc = [] from congrArg Scan.logprobs h]
    rfl
  stream _ := rfl

/-- What was fed is on record, along lives whose records have their verdicts. -/
theorem life_fed (hverdicts : ∀ {t r}, Life env Story.free r₀ t r →
      Verdict env (stopSequencesFrom gen) r) (h₀ : Fed env gen .start r₀)
    (hlife : Life env Story.free r₀ t r) (hplain : t.Plain) : Fed env gen t r := by
  induction hlife with
  | refl => exact h₀
  | tail h hG h' ih =>
    obtain ⟨hbefore, hnow⟩ := hplain.of_andThen
    exact h'.scans.fed hnow (hverdicts (h.tail hG h')) (ih hbefore)

/-- A standard request keeps its text. -/
theorem life_kept {pid : Option Pid} {ref : Option Ref}
    (h₀ : r₀.scan = gen.scan .standard pid ref) (hlife : Life env Story.free r₀ t r) :
    Kept env (stopSequencesFrom gen) r := by
  have hstops : ∀ stop ∈ stopSequencesFrom gen, stop ≠ [] := fun _ h => ne_nil_of_mem_stops h
  have hgen : r₀.generated = [] := congrArg Scan.generated h₀
  have hmatched : r₀.matchedStop = none := congrArg Scan.matched h₀
  have hstart : Kept env (stopSequencesFrom gen) r₀ := by
    refine ⟨⟨fun _ => ?_, fun p hp => ?_⟩, congrArg Scan.stops h₀, ?_, fun _ _ => ?_⟩
    · rw [hgen]
      exact .nil hstops
    · rw [hmatched] at hp
      exact nomatch hp
    · exact congrArg Scan.mode h₀
    · rw [hgen]
      exact congrArg Scan.pending h₀
  exact hlife.invariant (I := fun _ r => Kept env (stopSequencesFrom gen) r) hstart
    fun hr _ hstep => hstep.scans.kept hstops hr

/-- A stream is sent events, of which none is the last. -/
theorem life_speaks (h₀ : r₀.scan = gen.scan .streaming (some pid) (some ref))
    (hlife : Life env Story.free r₀ t r) (hrefused : r.thinkingNotEnabled = false) :
    ∃ evs, (∀ ev ∈ evs, ev.isFinal = false) ∧ t.out = noticesTo (some (pid, ref)) evs := by
  induction hlife with
  | refl => exact ⟨[], List.forall_mem_nil _, rfl⟩
  | tail h hG h' ih =>
    obtain ⟨hbefore, evs', hevs', hout'⟩ := h'.speaks hrefused
    obtain ⟨evs, hevs, hout⟩ := ih hbefore
    rw [(life_scanned h₀ h).live] at hout'
    refine ⟨evs ++ evs', fun ev hev => ?_, ?_⟩
    · rcases List.mem_append.mp hev with hev | hev
      · exact hevs ev hev
      · exact hevs' ev hev
    · rw [noticesTo_append, ← hout, ← hout']
      rfl

end Lives

/-! ### The reply -/

section Reply

variable {env : Env σ γ} {stops : List Bytes} {r : Req Sid}

/-- Rendering at once gives the chunks. -/
theorem Renders.chunks (h : Renders env) (tokens : List Token) :
    env.be.detokenize tokens = chunks env tokens := by
  induction tokens with
  | nil => exact h.nil
  | cons tok tokens ih =>
    show env.be.detokenize ([tok] ++ tokens) = Model.chunks env ([tok] ++ tokens)
    rw [h, chunks_append, chunks_singleton, ih]

/-- Without a match the reply is the whole text. -/
theorem Renders.reply_free (hrenders : Renders env) (hm : r.matchedStop = none) :
    trimAtMatch (env.be.detokenize r.generated) r.matchedStop = Model.chunks env r.generated := by
  rw [hm, hrenders.chunks]
  rfl

/-- The stop string that was matched, searched for alone, is found where all of them were
    looked for: the reply is what is before it. -/
theorem Verdict.reply_found (h : Verdict env stops r) (hstops : ∀ stop ∈ stops, stop ≠ [])
    (hrenders : Renders env) {p : Bytes} (hm : r.matchedStop = some p) :
    ∃ pos, Leftmost stops (chunks env r.generated) pos p ∧
      trimAtMatch (env.be.detokenize r.generated) r.matchedStop
        = (chunks env r.generated).take pos := by
  obtain ⟨-, pos, hleft⟩ := h.match_ p hm
  refine ⟨pos, hleft, ?_⟩
  have hone : ∀ stop ∈ [p], stop ≠ [] := by
    intro stop hstop
    rw [List.mem_singleton.mp hstop]
    exact hstops p hleft.mem
  unfold trimAtMatch
  rw [hm, hrenders.chunks, Option.bind_some]
  cases hfound : binaryMatch [p] (chunks env r.generated) with
  | none => exact absurd ((binaryMatch_none hone).mp hfound) hleft.single.not_free
  | some found =>
    obtain ⟨hpos, -⟩ := hleft.single.unique (binaryMatch_some hone hfound)
    rw [← hpos]

/-- The reply of a standard request. -/
theorem announceFinish_standard (env : Env σ γ) (d : Data σ γ Sid) {r : Req Sid}
    (hmode : r.mode = .standard) {frm : From} (hcaller : r.caller = some frm) :
    ∃ c : CompletionResult,
      (announceFinish env d r).out = d.sys.out ++ [.reply frm (.completion c)] ∧
      c.reply = trimAtMatch (env.be.detokenize r.generated) r.matchedStop ∧
      c.generated = r.generated ∧ c.finishReason = finishReasonOf r ∧
      c.stopSequence = r.matchedStop ∧ c.logprobs = r.logprobsAcc.reverse := by
  have hscan := finishSave_scan env d r
  obtain ⟨hmail, hstands⟩ := finishSave_mail env d r
  have hcaller₁ := caller_of_terms hstands.terms
  have hout := hmail.out
  unfold announceFinish
  dsimp only
  rw [(releaseSampler_mail env _ _).out, ← hout]
  generalize finishSave env d r = saved at hscan hcaller₁
  obtain ⟨key, r₁, s⟩ := saved
  dsimp only at hscan hcaller₁ ⊢
  have hgen : r₁.generated = r.generated := congrArg Scan.generated hscan
  have hmatched : r₁.matchedStop = r.matchedStop := congrArg Scan.matched hscan
  refine ⟨completionResult env (finishReasonOf r) key
    (buildStatsForReq (finishReasonOf r) key r₁) r₁, ?_, ?_, hgen, rfl, hmatched, ?_⟩
  · unfold finishAction replyTo
    rw [show r₁.mode = .standard from (congrArg Scan.mode hscan).trans hmode, hcaller₁, hcaller]
    rfl
  · rw [← hgen, ← hmatched]
    rfl
  · rw [show r.logprobsAcc = r₁.logprobsAcc from (congrArg Scan.logprobs hscan).symm]
    rfl

end Reply

/-! ### Streaming and standard -/

section Agree

variable {env : Env σ γ} {gen : GenOpts} {pid : Pid} {ref : Ref} {rs rt : Req Sid}

/-- The reason of a request that was not cancelled. -/
theorem finishReasonOf_eq {r : Req Sid} (h : r.cancelPending = false) :
    finishReasonOf r = if r.matchedStop.isSome then .stop
      else if r.responseTarget ≤ r.generated.length then .length else .stop := by
  unfold finishReasonOf
  rw [h]
  rfl

/-- Two scans of one text have the same match. -/
theorem Verdict.matched_eq {stops : List Bytes} (hs : Verdict env stops rs)
    (ht : Verdict env stops rt) (hgen : rs.generated = rt.generated) :
    rs.matchedStop = rt.matchedStop := by
  cases hms : rs.matchedStop with
  | none =>
    cases hmt : rt.matchedStop with
    | none => rfl
    | some p =>
      obtain ⟨-, pos, hleft⟩ := ht.match_ p hmt
      exact absurd (hgen ▸ hs.free hms) hleft.not_free
  | some p =>
    obtain ⟨-, pos, hleft⟩ := hs.match_ p hms
    rw [hgen] at hleft
    cases hmt : rt.matchedStop with
    | none => exact absurd (ht.free hmt) hleft.not_free
    | some p' =>
      obtain ⟨-, pos', hleft'⟩ := ht.match_ p' hmt
      rw [(hleft.unique hleft').2]

/-- The standard reply is the text that was sent, with what the end still brings. -/
theorem Scanned.reply_eq {stops : List Bytes} {tt : Story σ Sid}
    (hstops : ∀ stop ∈ stops, stop ≠ [])
    (hrenders : Renders env) (hs : Verdict env stops rs) (ht : Scanned env stops (pid, ref) tt rt)
    (hgen : rs.generated = rt.generated) :
    trimAtMatch (env.be.detokenize rs.generated) rs.matchedStop
      = textOf tt.out ++ rt.pendingText := by
  have hmatched := hs.matched_eq ht.verdict hgen
  cases hm : rs.matchedStop with
  | none =>
    rw [← hm, hrenders.reply_free hm, hgen]
    exact (ht.searching (hmatched ▸ hm)).append_eq.symm
  | some p =>
    obtain ⟨pos, hleft, hreply⟩ := hs.reply_found hstops hrenders hm
    obtain ⟨-, hnil, -, -, pos', -, -, hleft', hsent⟩ := ht.found p (hmatched ▸ hm)
    rw [hgen] at hleft
    rw [← hm, hreply, hsent, hnil, List.append_nil, hgen, (hleft.unique hleft').1]

/-- A request that is done was fed no less than another one of the same tokens, which is done
    only where it is. -/
theorem Fed.stops {f : List Sampled} {t t' : Story σ Sid} {r r' : Req Sid} (hr : Fed env gen t r)
    (hr' : Fed env gen t' r') (hcalm : ¬ r.Disturbed) (hcalm' : ¬ r'.Disturbed)
    (hpre : sampledOf t.fed <+: f) (hpre' : sampledOf t'.fed <+: f) (hfin : r.finishing = true) :
    sampledOf t'.fed <+: sampledOf t.fed ∧
      (r'.finishing = true ↔ sampledOf t'.fed = sampledOf t.fed) := by
  have hdone := (hr.done hcalm).mp hfin
  have hshort : sampledOf t'.fed <+: sampledOf t.fed := by
    rcases List.prefix_or_prefix_of_prefix hpre hpre' with hle | hle
    · by_cases heq : sampledOf t.fed = sampledOf t'.fed
      · exact heq ▸ List.prefix_refl _
      · exact absurd hdone (hr'.undone hcalm' _ hle heq)
    · exact hle
  refine ⟨hshort, fun hfin' => ?_, fun heq => ?_⟩
  · by_contra hne
    exact hr.undone hcalm _ hshort hne ((hr'.done hcalm').mp hfin')
  · rw [hr'.done hcalm', heq]
    exact hdone

/-- What a standard reply and a collected stream have in common. -/
structure Agree (c : CompletionResult) (res : StreamResult) : Prop where
  reply : c.reply = res.reply
  generated : c.generated = res.generated
  finishReason : c.finishReason = res.finishReason
  stopSequence : c.stopSequence = res.stopSequence
  logprobs : c.logprobs = res.logprobs

/-- **Streaming and standard replies agree.** Two requests with the same options are fed tokens
    of one list, the one with a caller and the other with a stream.  Neither goes on where the
    other one is done, and where both are done, the reply to the caller is what a reader of the
    stream collects. -/
theorem life_agrees (hrenders : Renders env) {rs₀ rt₀ : Req Sid} {ts tt : Story σ Sid}
    (hs₀ : rs₀.scan = gen.scan .standard none none)
    (ht₀ : rt₀.scan = gen.scan .streaming (some pid) (some ref))
    (hs : Life env Story.free rs₀ ts rs) (ht : Life env Story.free rt₀ tt rt)
    {f fs ft : List Sampled} (hfs : FedTokens ts fs) (hft : FedTokens tt ft) (hpres : fs <+: f)
    (hpret : ft <+: f) (hcs : rs.cancelPending = false) (hct : rt.cancelPending = false) :
    (rs.finishing = true → ft <+: fs ∧ (rt.finishing = true ↔ ft = fs)) ∧
      (rt.finishing = true → fs <+: ft ∧ (rs.finishing = true ↔ fs = ft)) ∧
      (rs.finishing = true → rt.finishing = true →
        ∀ (ds dt : Data σ γ Sid) (frm : From), rs.caller = some frm →
          ∃ c res last,
            (announceFinish env ds rs).out = ds.sys.out ++ [.reply frm (.completion c)] ∧
            (announceFinish env dt rt).out = dt.sys.out ++ last ∧
            collect pid ref (tt.out ++ last) = some (.ok res) ∧ Agree c res) := by
  -- Each of the two has its verdict, and was fed what is on record.
  have hstops : ∀ stop ∈ stopSequencesFrom gen, stop ≠ [] := fun _ h => ne_nil_of_mem_stops h
  have hkept := life_kept hs₀ hs
  have hscanned := life_scanned ht₀ ht
  have hrs : Fed env gen ts rs := life_fed (fun h => (life_kept hs₀ h).toVerdict) (fed_start hs₀)
    hs fun _ _ => hfs.no_thinking
  have hrt : Fed env gen tt rt := life_fed (fun h => (life_scanned ht₀ h).verdict)
    (fed_start ht₀) ht fun _ _ => hft.no_thinking
  have hms := hkept.standard
  have hmt : rt.mode = .streaming := by
    by_contra hmode
    exact not_stream hmode (by rw [hscanned.live]; rfl)
  -- Neither was disturbed: both run until they are done with their tokens.
  have hcalms : ¬ rs.Disturbed := by
    rintro (h | h | h)
    · exact nomatch hcs.symm.trans h
    · exact nomatch hms.symm.trans h
    · exact nomatch hrs.refused.symm.trans h
  have hcalmt : ¬ rt.Disturbed := by
    rintro (h | h | h)
    · exact nomatch hct.symm.trans h
    · exact nomatch hmt.symm.trans h
    · exact nomatch hrt.refused.symm.trans h
  have hstopss := hrs.stops hrt hcalms hcalmt (hfs.sampled ▸ hpres) (hft.sampled ▸ hpret)
  have hstopst := hrt.stops hrs hcalmt hcalms (hft.sampled ▸ hpret) (hfs.sampled ▸ hpres)
  rw [hfs.sampled, hft.sampled] at hstopss hstopst
  -- Both are finished, so both were fed the same.
  refine ⟨hstopss, hstopst, fun hfins hfint ds dt frm hcaller => ?_⟩
  have heq : sampledOf ts.fed = sampledOf tt.fed := by
    rw [hfs.sampled, hft.sampled]
    exact ((hstopss hfins).2.mp hfint).symm
  have hgen : rs.generated = rt.generated := by rw [hrs.generated, hrt.generated, heq]
  have hmatched := hkept.matched_eq hscanned.verdict hgen
  -- The reply of one, and the events of the other with its end.
  obtain ⟨c, houts, hreply, hcgen, hcreason, hcstop, hclps⟩ :=
    announceFinish_standard env ds hms hcaller
  obtain ⟨stats, houtt, hstgen, hstreason, hststop⟩ :=
    announceFinish_stream env dt hscanned.live hrt.refused
  obtain ⟨evs, hevs, hsent⟩ := life_speaks ht₀ ht hrt.refused
  obtain ⟨res, hres, hrreply, hrlps, hrgen, hrreason, hrstop⟩ :=
    collect_stream evs hevs rt.pendingText stats
  rw [← hsent] at hres hrreply hrlps
  refine ⟨c, res, _, houts, houtt, hres, ?_, ?_, ?_, ?_, ?_⟩
  · rw [hreply, hrreply]
    exact hscanned.reply_eq hstops hrenders hkept.toVerdict hgen
  · rw [hcgen, hrgen, hstgen, hgen]
  · rw [hcreason, hrreason, hstreason, finishReasonOf_eq hcs, finishReasonOf_eq hct, hmatched, hgen,
      hrs.target, hrt.target]
  · rw [hcstop, hrstop, hststop, hmatched]
  · rw [hclps, hrlps, hrs.standard hms, hrt.stream (by rw [hscanned.live]; rfl), heq]

end Agree

/-- A standard request that stops at "ab", with the prompt and the options of `stopStart`. -/
def keptStart : Req Nat :=
  (setupAdmissionPath (mapEnv plainParams .empty 1) (mapProc plainParams .empty 1).data
    { generatingReq (mapProc plainParams .empty 1).data 0 .standard
        ⟨some 9, [[97, 98]], false, none, ⟨0, []⟩⟩ [1] (some 0) with caller := some 7 }
    (.sticky [1]) [1] ⟨none, none⟩).1

/-- Three tokens for a request that decodes and stops at the third at the earliest. -/
theorem Life.three (env : Env MapCtx Unit) (d : Data MapCtx Unit Nat) (r₀ : Req Nat)
    (x y z : Token) (hcursor₀ : r₀.prefillCursor = none) (hfin₀ : r₀.finishing = false)
    (hcursor₁ : (tokenResult env d r₀ x false).1.prefillCursor = none)
    (hfin₁ : (tokenResult env d r₀ x false).1.finishing = false)
    (hcursor₂ : (tokenResult env d (tokenResult env d r₀ x false).1 y false).1.prefillCursor = none)
    (hfin₂ : (tokenResult env d (tokenResult env d r₀ x false).1 y false).1.finishing = false) :
    ∃ t : Story MapCtx Nat, Life env Story.free r₀ t
        (tokenResult env d (tokenResult env d (tokenResult env d r₀ x false).1 y false).1
          z false).1 ∧
      FedTokens t [(x, false, none), (y, false, none), (z, false, none)] := by
  have h₀ : Life env Story.free r₀ _ _ := .refl
  obtain ⟨t₁, h₁, hfed₁⟩ := h₀.token d x hfin₀ hcursor₀
  obtain ⟨t₂, h₂, hfed₂⟩ := h₁.token d y hfin₁ hcursor₁
  obtain ⟨t₃, h₃, hfed₃⟩ := h₂.token d z hfin₂ hcursor₂
  refine ⟨t₃, h₃, ?_⟩
  unfold FedTokens
  rw [hfed₃, hfed₂, hfed₁]
  rfl

/-- The tokens x, a and b, for a caller and for a stream: both end with "x". -/
theorem keptStart_agrees :
    ∃ rs rt tt, rs.generated = [120, 97, 98] ∧ rt.generated = [120, 97, 98] ∧
      ∃ c res last,
        (announceFinish (mapEnv plainParams .empty 1) (mapProc plainParams .empty 1).data rs).out
          = (mapProc plainParams .empty 1).data.sys.out ++ [.reply 7 (.completion c)] ∧
        (announceFinish (mapEnv plainParams .empty 1) (mapProc plainParams .empty 1).data rt).out
          = (mapProc plainParams .empty 1).data.sys.out ++ last ∧
        Life (mapEnv plainParams .empty 1) Story.free stopStart tt rt ∧
        collect 5 6 (tt.out ++ last) = some (.ok res) ∧ Agree c res := by
  obtain ⟨ts, hs, hfs⟩ := Life.three (mapEnv plainParams .empty 1)
    (mapProc plainParams .empty 1).data keptStart 120 97 98 (by decide +kernel) (by decide +kernel)
    (by decide +kernel) (by decide +kernel) (by decide +kernel) (by decide +kernel)
  obtain ⟨tt, ht, hft⟩ := Life.three (mapEnv plainParams .empty 1)
    (mapProc plainParams .empty 1).data stopStart 120 97 98 (by decide +kernel) (by decide +kernel)
    (by decide +kernel) (by decide +kernel) (by decide +kernel) (by decide +kernel)
  have hscans : keptStart.scan
      = GenOpts.scan ⟨some 9, [[97, 98]], false, none, ⟨0, []⟩⟩ .standard none none := rfl
  have hscant : stopStart.scan
      = GenOpts.scan ⟨some 9, [[97, 98]], false, none, ⟨0, []⟩⟩ .streaming (some 5) (some 6) := rfl
  obtain ⟨-, -, hboth⟩ := life_agrees (mapEnv_renders plainParams .empty 1) hscans hscant hs ht hfs
    hft (List.prefix_refl _) (List.prefix_refl _) (by decide +kernel) (by decide +kernel)
  obtain ⟨c, res, last, hs', ht', hres, hagree⟩ := hboth (by decide +kernel) (by decide +kernel)
    (mapProc plainParams .empty 1).data (mapProc plainParams .empty 1).data 7 (by decide +kernel)
  exact ⟨_, _, tt, by decide +kernel, by decide +kernel, c, res, last, hs', ht', ht, hres, hagree⟩

end Erllama.Model
