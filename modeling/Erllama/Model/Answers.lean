import Erllama.Model.Turns

namespace Erllama.Model

open Lib

/-!
# One event on the account

* `prepareRequest_hands` — a prepared request takes its call over: it waits for the answer, or
  its stream was opened.
* `Asked` — what an admission does with a call that has just arrived; `Heard` — the same up to
  the ticks it cast.
* `admitRequest_heard`, `admitContinue_heard`, `dispatchAdmits_turn` — admissions, now and from
  the queue.
-/

variable {σ γ Sid : Type} (env : Env σ γ)

/-! ### Requests that begin -/

/-- A prepared request takes over the call it came with. -/
inductive Hands (due : From × CallKind) (s s' : Sys σ γ Sid) (r : Req Sid) : Prop
  | waits (hmail : SameMail s s') (hdue : r.due = some due) (hstream : r.stream = none)
  | opens (pid : Pid) (hkind : due.2 = .stream) (hdue : r.due = none)
      (hstream : r.stream = some (pid, s.nextRef))
      (hout : s'.out = s.out ++ [.register s.nextRef, .reply due.1 (.started s.nextRef)])
      (href : s'.nextRef = s.nextRef + 1) (hticks : s'.ticks = s.ticks)

/-- What a preparation leaves: nothing was said for an error. -/
def HandsOver (due : From × CallKind) (d : Data σ γ Sid)
    (res : Except Err (Prepared Sid) × Data σ γ Sid) : Prop :=
  match res.1 with
  | .error _           => SameMail d.sys res.2.sys
  | .ok (.text r _ _ _) => Hands due d.sys res.2.sys r ∧ r.Underway
  | .ok (.media r)     => Hands due d.sys res.2.sys r ∧ r.Underway

variable {env} in
/-- A request that is not streaming waits. -/
theorem hands_waits {s s' : Sys σ γ Sid} {r : Req Sid} {due : From × CallKind}
    (hmail : SameMail s s') (hdue : r.due = some due) (hfin : r.finishing = false)
    (hflag : r.thinkingNotEnabled = false) (hmode : r.mode ≠ .streaming) :
    Hands due s s' r ∧ r.Underway := by
  refine ⟨.waits hmail hdue ?_, fun h => absurd h hmode, hfin, hflag⟩
  cases hstream : r.stream with
  | none => rfl
  | some p => exact absurd (mode_of_stream hstream) hmode

/-- A streaming request opens its stream. -/
theorem hands_opens {s s₀ : Sys σ γ Sid} (hmail : SameMail s s₀) (frm : From) (pid : Pid)
    {r : Req Sid} (hmode : r.mode = .streaming) (hfin : r.finishing = false)
    (hflag : r.thinkingNotEnabled = false) :
    Hands (frm, .stream) s (newRequestRef s₀ frm).2
        (streamingReq r pid (newRequestRef s₀ frm).1) ∧
      (streamingReq r pid (newRequestRef s₀ frm).1).Underway := by
  have hstream : (streamingReq r pid (newRequestRef s₀ frm).1).stream = some (pid, s.nextRef) := by
    unfold Req.stream streamingReq newRequestRef
    rw [hmode, hmail.nextRef]
  refine ⟨.opens pid rfl ?_ hstream ?_ ?_ hmail.ticks, ?_, hfin, hflag⟩
  · unfold Req.due streamingReq
    rw [hmode]
  · show s₀.out ++ _ = _
    rw [hmail.out, hmail.nextRef]
  · show s₀.nextRef + 1 = _
    rw [hmail.nextRef]
  · intro _
    rw [hstream]
    rfl

/-- A media request is handed over with its caller. -/
theorem prepareMedia_hands (d : Data σ γ Sid) (q : SeqId) (frm : From) (pid : Option Pid)
    (prompt : Bytes) (opts : MediaOpts) :
    HandsOver (frm, if pid.isSome then .stream else .completion) d
      (prepareMedia env d q frm pid prompt opts) := by
  have hsampler := samplerFor_mail env d.sys opts.gen
  unfold prepareMedia
  generalize mediaGates env d opts = gates
  generalize samplerFor env d.sys opts.gen = made at hsampler ⊢
  obtain ⟨made, s⟩ := made
  cases gates with
  | error e => exact SameMail.refl _
  | ok u =>
    cases made with
    | error e => exact hsampler
    | ok ref =>
      cases pid with
      | none => exact hands_waits hsampler rfl rfl rfl nofun
      | some pid => exact hands_opens hsampler frm pid rfl rfl rfl

/-- So is a queued request. -/
theorem prepareRequest_hands (d : Data σ γ Sid) (item : Item Sid) (q : SeqId) :
    HandsOver item.due d (prepareRequest env d item q) := by
  unfold prepareRequest
  split
  case h_1 frm prompt opts => exact prepareMedia_hands env d q frm none prompt opts
  case h_2 frm prompt opts pid => exact prepareMedia_hands env d q frm (some pid) prompt opts
  case h_3 frm prompt opts =>
    have hsampler := samplerFor_mail env d.sys opts.gen
    dsimp only
    split
    case h_1 => exact hsampler
    case h_2 ref _ => exact hands_waits hsampler rfl rfl rfl nofun
  case h_4 frm tokens opts => exact hands_waits (.refl _) rfl rfl rfl nofun
  case h_5 frm tokens opts pid =>
    have hsampler := samplerFor_mail env d.sys opts.gen
    dsimp only
    split
    case h_1 => exact hsampler
    case h_2 ref _ => exact hands_opens hsampler frm pid rfl rfl rfl

/-- So is a continuation. -/
theorem prepareContinue_hands (d : Data σ γ Sid) (frm : From) (suffix : List Token)
    (opts : ContinueOpts Sid) (q : SeqId) (stored : List Token) :
    HandsOver (frm, .stream) d (prepareContinue env d frm suffix opts q stored) := by
  have hsampler := samplerFor_mail env d.sys opts.gen
  unfold prepareContinue
  dsimp only
  split
  case h_1 => exact hsampler
  case h_2 ref _ => exact hands_opens hsampler frm opts.callerPid rfl rfl rfl

/-! ### Calls that arrive -/

/-- What the process did with a call that arrived in `d`. -/
structure Asked (due : From × CallKind) (d d' : Data σ γ Sid) : Prop where
  steps : Account.Steps ((account d).ask due) (account d')
  ticks : d'.sys.ticks = d.sys.ticks
  underway : TableAll Req.Underway d.reqTable → TableAll Req.Underway d'.reqTable

/-- A step of an account is one of the account with another call in it. -/
theorem Account.Step.ask {a a' : Account} (h : Account.Step a a') (due : From × CallKind) :
    Account.Step (a.ask due) (a'.ask due) := by
  cases h with
  | @answer f k owed h rep hfits =>
    have howed : (a.ask due).owed = (f, k) ::ₘ (due ::ₘ owed) := by
      show due ::ₘ a.owed = _
      rw [h, Multiset.cons_swap]
    exact .answer howed rep hfits
  | @opens f owed h pid =>
    have howed : (a.ask due).owed = (f, .stream) ::ₘ (due ::ₘ owed) := by
      show due ::ₘ a.owed = _
      rw [h, Multiset.cons_swap]
    exact .opens howed pid
  | notify h ev hev => exact .notify (a := a.ask due) h ev hev
  | close h ev hev => exact .close (a := a.ask due) h ev hev

/-- A call that is asked later. -/
theorem Account.Steps.ask {a a' : Account} (h : Account.Steps a a') (due : From × CallKind) :
    Account.Steps (a.ask due) (a'.ask due) := by
  induction h with
  | refl => exact .refl
  | tail _ hstep ih => exact ih.tail (hstep.ask due)

section Calls

variable {env} {due : From × CallKind} {d d' d'' : Data σ γ Sid}

/-- A call that is asked after a turn. -/
theorem Turn.asked (h : Turn d d') (h' : Asked due d' d'') : Asked due d d'' :=
  ⟨(h.steps.ask due).trans h'.steps, h'.ticks.trans h.ticks,
    fun hd => h'.underway (h.underway hd)⟩

/-- The call is answered at once. -/
theorem asked_reply (d : Data σ γ Sid) (due : From × CallKind) (rep : Reply)
    (hfits : rep.fits due.2 = true) : Asked due d (emit d (.reply due.1 rep)) := by
  refine ⟨.single ?_, rfl, id⟩
  exact Account.Step.answer (a := (account d).ask due) rfl rep hfits

/-- The call waits in the queue. -/
theorem asked_enqueue (d : Data σ γ Sid) (item : Item Sid) :
    Asked item.due d (enqueue d item) := by
  refine ⟨?_, rfl, id⟩
  have heq : account (enqueue d item) = (account d).ask item.due :=
    accountOf_append_item item
  rw [heq]

/-- A prepared request is put in the table. -/
theorem Hands.steps {s s' : Sys σ γ Sid} {r r' : Req Sid} (h : Hands due s s' r)
    (hr : r.Underway) (hsame : SameStanding r r') {items : List (Item Sid)}
    {rs : List (Req Sid)} :
    Account.Steps ((accountOf items rs s).ask due) (accountOf items (r' :: rs) s') := by
  rw [accountOf_cons, due_of_terms hsame.terms,
    party_of_terms hsame.terms hsame.thinkingNotEnabled]
  have hparty : r.party = r.stream := if_neg (by rw [hr.flag]; exact nofun)
  cases h with
  | waits hmail hdue hstream =>
    rw [accountOf_mail hmail, hdue, hparty, hstream]
    simp only [Option.elim_some, Option.elim_none, Multiset.singleton_add, Multiset.zero_add]
    exact .refl
  | opens pid hkind hdue hstream hout href hticks =>
    obtain ⟨f, k⟩ := due
    replace hkind : k = .stream := hkind
    subst hkind
    have howed : ((accountOf items rs s).ask (f, .stream)).owed =
        (f, .stream) ::ₘ (accountOf items rs s).owed := rfl
    have hstep := Account.Step.opens howed pid
    refine .single ?_
    have heq : accountOf items rs s' = { accountOf items rs s with
        out := s.out ++ [.register s.nextRef, .reply f (.started s.nextRef)]
        nextRef := s.nextRef + 1 } := by
      unfold accountOf
      rw [hout, href]
    rw [heq, hdue, hparty, hstream]
    simp only [Option.elim_some, Option.elim_none, Multiset.singleton_add, Multiset.zero_add]
    exact hstep

/-- Handing over casts no tick. -/
theorem Hands.ticks {s s' : Sys σ γ Sid} {r : Req Sid} (h : Hands due s s' r) :
    s'.ticks = s.ticks := by
  cases h with
  | waits hmail hdue hstream => exact hmail.ticks
  | opens pid hkind hdue hstream hout href hticks => exact hticks

/-- What a preparation was of, and that it changed the system alone. -/
structure Prepares (env : Env σ γ) (due : From × CallKind) (d : Data σ γ Sid) (q : SeqId)
    (prepared : Except Err (Prepared Sid) × Data σ γ Sid) : Prop where
  hands : HandsOver due d prepared
  eq : prepared.2 = withSys d prepared.2.sys
  seq : ∀ r, (∃ p o l, prepared.1 = .ok (.text r p o l)) ∨ prepared.1 = .ok (.media r) →
    r.seqId = q

/-- Starting a prepared request on a seq with none in flight: it is in the table, or its call
    still waits for the error. -/
theorem startPrepared_asked {q : SeqId} (hfree : d.reqTable.lookup q = none)
    {prepared : Except Err (Prepared Sid) × Data σ γ Sid} (mode : AdmitMode)
    (hprep : Prepares env due d q prepared) :
    (∀ e, (startPrepared env mode prepared).1 = some e →
      Turn d (startPrepared env mode prepared).2 ∧
        (startPrepared env mode prepared).2.reqTable = d.reqTable ∧
        (startPrepared env mode prepared).2.pending = d.pending) ∧
    ((startPrepared env mode prepared).1 = none →
      Asked due d (startPrepared env mode prepared).2 ∧
        (startPrepared env mode prepared).2.pending = d.pending) := by
  obtain ⟨hhands, heq, hseq⟩ := hprep
  -- Whoever is put into the table is owed what the call is owed.
  have hput : ∀ (r r' : Req Sid) (s s' : Sys σ γ Sid) (d₁ : Data σ γ Sid),
      Hands due d.sys s r → r.Underway → SameStanding r r' → r.seqId = q → SameMail s s' →
      d₁.sys = s' → d₁.reqTable = d.reqTable → d₁.pending = d.pending →
      Asked due d (putReq d₁ r') ∧ (putReq d₁ r').pending = d.pending := by
    intro r r' s s' d₁ hands hr hsame hq hmail hsys htable hpending
    refine ⟨⟨?_, ?_, ?_⟩, hpending⟩
    · have hq' : r'.seqId = q := (seqId_of_terms hsame.terms).trans hq
      have hrest : (d.reqTable.erase q).values = d.reqTable.values :=
        AList.values_erase_of_lookup_none hfree
      rw [account_putReq, hq', hsys, htable, hpending, hrest, accountOf_mail hmail]
      exact hands.steps hr hsame
    · show d₁.sys.ticks = d.sys.ticks
      rw [hsys, hmail.ticks, hands.ticks]
    · intro hd
      have hd₁ : TableAll Req.Underway d₁.reqTable := htable ▸ hd
      exact hd₁.putReq (hsame.underway hr)
  unfold HandsOver at hhands
  unfold startPrepared
  split
  -- The preparation failed: it is answered.
  case h_1 e he =>
    rw [he] at hhands
    refine ⟨fun _ _ => ⟨?_, ?_, ?_⟩, nofun⟩
    · exact .of_mail (by rw [heq]; rfl) (by rw [heq]; rfl) hhands
    · rw [heq]
      rfl
    · rw [heq]
      rfl
  -- A text request: speculation and the admission path keep who it is for.
  case h_2 r prompt spec lookup hr =>
    rw [hr] at hhands
    refine ⟨nofun, fun _ => ?_⟩
    obtain ⟨hspecFrame, hspecMail⟩ := setupSpec_frame env prepared.2 r spec
    obtain ⟨-, spec', hspecEq⟩ := (setupSpec_quiet env prepared.2 r spec).1
    have hpath := setupAdmissionPath_frame env (setupSpec env prepared.2 r spec).2
      (setupSpec env prepared.2 r spec).1 mode prompt lookup
    refine hput r _ prepared.2.sys _ (withSys (setupSpec env prepared.2 r spec).2 _) hhands.1
      hhands.2 (hspecFrame.trans hpath.standing) (hseq r (.inl ⟨_, _, _, hr⟩))
      (hspecMail.trans hpath.mail) rfl ?_ ?_
    · show (setupSpec env prepared.2 r spec).2.reqTable = _
      rw [hspecEq, heq]
      rfl
    · show (setupSpec env prepared.2 r spec).2.pending = _
      rw [hspecEq, heq]
      rfl
  -- A media request goes in as it was prepared.
  case h_3 r hr =>
    rw [hr] at hhands
    refine ⟨nofun, fun _ => ?_⟩
    exact hput r r prepared.2.sys _ prepared.2 hhands.1 hhands.2 (.refl r)
      (hseq r (.inr hr)) (.refl _) rfl (by rw [heq]; rfl) (by rw [heq]; rfl)

/-- A prepared request owes its caller an answer. -/
theorem PreparedOk.prepares {q : SeqId} {sid : Option Sid} {prompt : List Token}
    {prepared : Except Err (Prepared Sid) × Data σ γ Sid}
    (h : PreparedOk env d q sid prompt prepared) (hhands : HandsOver due d prepared) :
    Prepares env due d q prepared := by
  refine ⟨hhands, h.eq, ?_⟩
  have hcontent := h.content
  rintro r (⟨p, o, l, heq⟩ | heq)
  · rw [heq] at hcontent
    exact hcontent.2.1
  · rw [heq] at hcontent
    exact hcontent.2.1

end Calls

/-! ### Admission -/

section Admission

variable {env} [LinearOrder Sid] {due : From × CallKind} {d : Data σ γ Sid}

/-- What the process did with a call, when it also cast ticks. -/
structure Heard (due : From × CallKind) (d d' : Data σ γ Sid) : Prop where
  steps : Account.Steps ((account d).ask due) (account d')
  ticks : d.sys.ticks ≤ d'.sys.ticks
  underway : TableAll Req.Underway d.reqTable → TableAll Req.Underway d'.reqTable

omit [LinearOrder Sid] in
/-- A call that is owed an answer was heard. -/
theorem Asked.heard {d' : Data σ γ Sid} (h : Asked due d d') : Heard due d d' :=
  ⟨h.steps, Nat.le_of_eq h.ticks.symm, h.underway⟩

omit [LinearOrder Sid] in
/-- Casting a tick changes no account. -/
theorem Asked.schedule {d' : Data σ γ Sid} (h : Asked due d d') : Heard due d (scheduleTick d') :=
  ⟨h.steps, Nat.le_succ_of_le (Nat.le_of_eq h.ticks.symm), h.underway⟩

omit [LinearOrder Sid] in
/-- A call that is heard after a turn. -/
theorem Turn.heard {d' d'' : Data σ γ Sid} (h : Turn d d') (h' : Heard due d' d'') :
    Heard due d d'' :=
  ⟨(h.steps.ask due).trans h'.steps, h.ticks ▸ h'.ticks, fun hd => h'.underway (h.underway hd)⟩

/-- The seq that was taken has no request in flight. -/
theorem allocSeq_free (hd : Wf env d) {d' : Data σ γ Sid} {except : Option Sid} {q : SeqId}
    (h : allocSeq env d except = some (q, d')) : d'.reqTable.lookup q = none := by
  obtain ⟨d₀, rest, hmoves, hidle, rfl, -⟩ := allocSeq_moves (G := .free) h
  obtain ⟨hrequests, -⟩ := Contract.idle_apart (Moves.wf hmoves hd)
    (hidle ▸ List.mem_cons_self : q ∈ d₀.idleSeqIds)
  cases hq : d₀.reqTable.lookup q with
  | none => rfl
  | some r => exact absurd rfl (hrequests q r hq)

omit [LinearOrder Sid] in
/-- A start that succeeded has taken the call over; one that failed left it to the error. -/
theorem startAdmission_heard {phase : Phase} {started : Option Err × Data σ γ Sid}
    {onError : Data σ γ Sid → Data σ γ Sid} (herror : ∀ e, Reply.fits due.2 (.error e) = true)
    (hok : started.1 = none → Asked due d started.2)
    (herr : ∀ e, started.1 = some e → Turn d (onError started.2)) :
    Heard due d (startAdmission phase due.1 started onError).data := by
  unfold startAdmission
  split
  case h_1 h => exact (hok h).schedule
  case h_2 e h => exact ((herr e h).asked (asked_reply _ due _ (herror e))).heard

omit [LinearOrder Sid] in
/-- Every caller accepts an error. -/
theorem Item.fits_error (item : Item Sid) (e : Err) : Reply.fits item.due.2 (.error e) = true := by
  cases item <;> rfl

/-- A text request that arrives is heard. -/
theorem admitNormal_heard (hd : Wf env d) (phase : Phase) (item : Item Sid) :
    Heard item.due d (admitNormal env d phase item).data := by
  unfold admitNormal
  split
  case h_1 q d' halloc =>
    obtain ⟨hturn, -, -⟩ := allocSeq_turn env halloc
    obtain ⟨herr, hok⟩ := startPrepared_asked (allocSeq_free hd halloc) .normal
      ((prepareRequest_ok env d' item q).prepares (prepareRequest_hands env d' item q))
    refine hturn.heard (startAdmission_heard item.fits_error (fun h => (hok h).1) fun e h => ?_)
    exact (herr e h).1.trans (.of_mail rfl rfl (.refl _))
  case h_2 =>
    split
    · exact (asked_reply d item.due _ (item.fits_error _)).heard
    · exact (asked_enqueue d item).heard

/-- **A request that arrives.** -/
theorem admitRequest_heard (hd : Wf env d) (phase : Phase) (item : Item Sid) :
    Heard item.due d (admitRequest env d phase item).data := by
  have hspec := resolveAdmissionSeq_spec env (G := .free) d item
  unfold admitRequest
  split
  case h_1 q mode hres =>
    rw [hres] at hspec
    obtain ⟨sid, s, hsid, hs, hfree, rfl, hmode⟩ := hspec
    obtain ⟨herr, hok⟩ := startPrepared_asked hfree mode
      ((prepareRequest_ok env d item s.seqId).prepares (prepareRequest_hands env d item s.seqId))
    exact startAdmission_heard item.fits_error (fun h => (hok h).1) fun e h => (herr e h).1
  case h_2 d' hres =>
    rw [hres] at hspec
    have hturn : Turn d d' := by
      unfold resolveAdmissionSeq resolveStickyContinuation at hres
      split at hres
      · cases hres
        exact .refl d
      · split at hres
        · cases hres
          exact .refl d
        · split at hres
          · exact nomatch hres
          · dsimp only at hres
            split at hres
            · exact nomatch hres
            · split at hres
              · exact nomatch hres
              · cases hres
                exact .of_mail rfl rfl (releaseSeq_mail env d.sys _)
    exact hturn.heard (admitNormal_heard (Moves.wf hspec hd) phase item)
  case h_3 => exact (asked_reply d item.due _ (item.fits_error _)).heard

/-- **A continuation that arrives.** -/
theorem admitContinue_heard (phase : Phase) (frm : From) (suffix : List Token)
    (opts : ContinueOpts Sid) :
    Heard (frm, .stream) d (admitContinue env d phase frm suffix opts).data := by
  have hrefuse : ∀ e, Heard (frm, .stream) d (emit d (.reply frm (.error e))) :=
    fun e => (asked_reply d (frm, .stream) (.error e) rfl).heard
  unfold admitContinue
  split
  case h_1 => exact hrefuse _
  case h_2 s hs =>
    split
    case isTrue => exact hrefuse _
    case isFalse hbusy =>
      have hfree := (inFlight_eq_false_iff d s.seqId).mp (Bool.eq_false_iff.mpr hbusy)
      split
      case h_1 e _ => exact hrefuse e
      case h_2 =>
        obtain ⟨herr, hok⟩ := startPrepared_asked hfree (.continue s.tokens)
          ((prepareContinue_ok env d frm suffix opts s.seqId s.tokens).prepares
            (prepareContinue_hands env d frm suffix opts s.seqId s.tokens))
        exact startAdmission_heard (fun e => rfl) (fun h => (hok h).1) fun e h => (herr e h).1

/-! ### The queue -/

omit [LinearOrder Sid] in
/-- A queued request that is started, or whose caller gets the error. -/
theorem startQueued_turn {item : Item Sid} {rest : List (Item Sid)} {q : SeqId}
    (hpending : d.pending = item :: rest) (hfree : d.reqTable.lookup q = none) :
    Turn d (startQueued env { d with pending := rest } item q) ∧
      (startQueued env { d with pending := rest } item q).pending = rest := by
  have haccount : account d = (account { d with pending := rest }).ask item.due := by
    unfold account
    rw [hpending]
    exact accountOf_cons_item item
  have hof : ∀ {d' : Data σ γ Sid}, Asked item.due { d with pending := rest } d' → Turn d d' :=
    fun h => ⟨⟨haccount ▸ h.steps, h.ticks⟩, h.underway⟩
  obtain ⟨herr, hok⟩ := startPrepared_asked (d := { d with pending := rest }) hfree .normal
    ((prepareRequest_ok env _ item q).prepares (prepareRequest_hands env _ item q))
  unfold startQueued startRequest
  dsimp only
  split
  case h_1 h =>
    obtain ⟨hasked, hsame⟩ := hok h
    exact ⟨hof hasked, hsame⟩
  case h_2 e h =>
    obtain ⟨hturn, -, hsame⟩ := herr e h
    refine ⟨hof ?_, hsame⟩
    have hback : ∀ d' : Data σ γ Sid, Turn d' (pushIdle d' q) := fun d' =>
      .of_mail rfl rfl (.refl _)
    exact (hturn.trans (hback _)).asked (asked_reply _ item.due _ (item.fits_error e))

/-- A start from the queue keeps the process well formed. -/
theorem startQueued_wf (hd : Wf env d) {d' : Data σ γ Sid} {q : SeqId}
    (halloc : allocSeq env d none = some (q, d')) (item : Item Sid) (rest : List (Item Sid)) :
    Wf env (startQueued env { d' with pending := rest } item q) := by
  obtain ⟨d₀, ids, hmoves, hidle, rfl, -⟩ := allocSeq_moves (G := .free) halloc
  have hwf : Wf env ({ d₀ with pending := rest } : Data σ γ Sid) :=
    ⟨(Moves.wf hmoves hd).table, (Moves.wf hmoves hd).sound⟩
  exact Moves.wf (startQueued_moves (G := .free)
    { d₀ with pending := rest } hidle (Guard.open_free.startOk _ item q)) hwf

/-- **Starting what waits for a seq.** -/
theorem dispatchAdmits_turn (items : List (Item Sid)) (hd : Wf env d)
    (hpending : d.pending = items) : Turn d (dispatchAdmits env items d) := by
  induction items generalizing d with
  | nil => exact .refl d
  | cons item rest ih =>
    unfold dispatchAdmits
    split
    case h_1 => exact .refl d
    case h_2 q d' halloc =>
      obtain ⟨hturn, -, hsame⟩ := allocSeq_turn env halloc
      obtain ⟨hstart, hrest⟩ := startQueued_turn (hsame.trans hpending)
        (allocSeq_free hd halloc)
      have hwf' := startQueued_wf hd halloc item rest
      exact (hturn.trans hstart).trans (ih hwf' hrest)

end Admission

end Erllama.Model
