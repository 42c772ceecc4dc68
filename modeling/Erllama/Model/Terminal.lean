import Erllama.Model.Answers
import Erllama.Model.MapBackend

namespace Erllama.Model

open Lib

/-!
# One answer to every call, one end to every stream

* `Event.due` — the call an event brings.
* `Handles` — what one event does to the account of the process.
* `step_handles` — every event of a process that goes on.
* `run_oneTerminal` — in every run, as long as the process lives, every call has one answer or
  still waits in the queue or the table, and every stream has one end or is still in the table.
-/

variable {σ γ Sid : Type} {env : Env σ γ}

/-- The call an event brings: the casts bring none. -/
def Event.due : Event Sid → Option (From × CallKind)
  | .request item            => some item.due
  | .continue frm _ _        => some (frm, .stream)
  | .endSession frm _        => some (frm, .control)
  | .forkSession frm _ _     => some (frm, .control)
  | .resetSession frm _      => some (frm, .control)
  | .verify frm _ _ _        => some (frm, .control)
  | .embed frm _             => some (frm, .control)
  | .embedBatch frm _        => some (frm, .control)
  | .evict frm               => some (frm, .control)
  | .shutdown frm            => some (frm, .control)
  | .loadAdapter frm _ _     => some (frm, .control)
  | .unloadAdapter frm _     => some (frm, .control)
  | .setAdapterScale frm _ _ => some (frm, .control)
  | .cancel _                => none
  | .tick                    => none

/-- The account once the call of an event arrived. -/
def Account.hears (a : Account) : Option (From × CallKind) → Account
  | some due => a.ask due
  | none     => a

/-- What an event does to the account. -/
structure Handles (due : Option (From × CallKind)) (d d' : Data σ γ Sid) : Prop where
  steps : Account.Steps ((account d).hears due) (account d')
  underway : TableAll Req.Underway d'.reqTable

/-- A call that was heard is owed an answer, or has it. -/
theorem Heard.handles {due : From × CallKind} {d d' : Data σ γ Sid} (h : Heard due d d')
    (hd : TableAll Req.Underway d.reqTable) : Handles (some due) d d' :=
  ⟨h.steps, h.underway hd⟩

/-- Casting a tick answers nobody. -/
theorem Handles.scheduleTick {due : Option (From × CallKind)} {d d' : Data σ γ Sid}
    (h : Handles due d d') : Handles due d (scheduleTick d') := ⟨h.steps, h.underway⟩

/-! ### Calls that are answered at once -/

section Control

variable {d d' : Data σ γ Sid}

/-- An operation that says nothing by itself, and its reply. -/
theorem Turn.handles (h : Turn d d') {frm : From} {rep : Reply}
    (hrep : rep.fits .control = true) (hd : TableAll Req.Underway d.reqTable) :
    Handles (some (frm, .control)) d (emit d' (.reply frm rep)) :=
  (h.asked (asked_reply d' (frm, .control) _ hrep)).heard.handles hd

variable (env) in
/-- Replacing the adapters is answered. -/
theorem changeAdapters_turn (d : Data σ γ Sid) (adapters : List Adapter) (rep : Reply)
    (hrep : rep.fits .control = true) :
    Turn d (changeAdapters env d adapters rep).2 ∧
      (changeAdapters env d adapters rep).1.fits .control = true := by
  obtain ⟨htable, -, -, hpending, -⟩ := changeAdapters_step env d adapters rep
  have hmail : SameMail d.sys (changeAdapters env d adapters rep).2.sys := by
    unfold changeAdapters applyAndRecompute
    dsimp only
    split
    all_goals
      split
      · exact ⟨rfl, rfl, rfl⟩
      · split <;> exact ⟨rfl, rfl, rfl⟩
  refine ⟨.of_mail hpending htable hmail, ?_⟩
  unfold changeAdapters
  dsimp only
  split
  · exact hrep
  · rfl

variable (env) in
/-- Loading an adapter is answered. -/
theorem loadAdapter_turn (d : Data σ γ Sid) (path : Path) (file : Option Bytes) :
    Turn d (loadAdapter env d path file).2 ∧
      (loadAdapter env d path file).1.fits .control = true := by
  unfold loadAdapter
  split
  · exact ⟨.refl d, rfl⟩
  case h_2 f _ =>
    split
    · exact ⟨.refl d, rfl⟩
    case h_2 content =>
      have hload : Turn d (withCtx d (f d.sys.ctx path content).2) :=
        .of_mail rfl rfl (mail_ctx d.sys _)
      dsimp only
      split
      case h_1 handle _ =>
        obtain ⟨hturn, hrep⟩ := changeAdapters_turn env (withCtx d (f d.sys.ctx path content).2)
          (d.adapters ++ [⟨handle, env.sha256 content, 1⟩]) (.adapter handle) rfl
        exact ⟨hload.trans hturn, hrep⟩
      case h_2 => exact ⟨hload, rfl⟩

variable (env) in
/-- Unloading one is answered. -/
theorem unloadAdapter_turn (d : Data σ γ Sid) (handle : Ref) :
    Turn d (unloadAdapter env d handle).2 ∧
      (unloadAdapter env d handle).1.fits .control = true := by
  unfold unloadAdapter
  split
  · exact ⟨.refl d, rfl⟩
  case h_2 entry rest _ =>
    split
    · exact ⟨.refl d, rfl⟩
    case h_2 f _ =>
      have hunload : Turn d (withCtx d (f d.sys.ctx handle).2) :=
        .of_mail rfl rfl (mail_ctx d.sys _)
      dsimp only
      split
      · obtain ⟨hturn, hrep⟩ := changeAdapters_turn env (withCtx d (f d.sys.ctx handle).2) rest
          .ok rfl
        exact ⟨hunload.trans hturn, hrep⟩
      · exact ⟨hunload, rfl⟩

variable (env) in
/-- Scaling one is answered. -/
theorem setAdapterScale_turn (d : Data σ γ Sid) (handle : Ref) (scale : ℚ) :
    Turn d (setAdapterScale env d handle scale).2 ∧
      (setAdapterScale env d handle scale).1.fits .control = true := by
  unfold setAdapterScale
  split
  · exact ⟨.refl d, rfl⟩
  · exact changeAdapters_turn env d _ _ rfl

variable (env) in
/-- A verify call is answered. -/
theorem runVerify_turn (d : Data σ γ Sid) (pre cands : List Token) (k : Nat) :
    Turn d (runVerify env d pre cands k).2 ∧
      (runVerify env d pre cands k).1.fits .control = true := by
  unfold runVerify
  split
  · exact ⟨.refl d, rfl⟩
  · dsimp only
    split <;> exact ⟨.of_mail rfl rfl (mail_ctx d.sys _), rfl⟩

variable (env) in
/-- An embed call is answered. -/
theorem embedEach_turn (lists : List (List Token)) (acc : List (List ℚ)) (d : Data σ γ Sid) :
    Turn d (embedEach env acc lists d).2 ∧
      (embedEach env acc lists d).1.fits .control = true := by
  induction lists generalizing acc d with
  | nil => exact ⟨.refl d, rfl⟩
  | cons tokens rest ih =>
    unfold embedEach
    split
    · exact ⟨.refl d, rfl⟩
    case h_2 f _ =>
      have hcall : Turn d (withCtx d (f d.sys.ctx tokens).2) := .of_mail rfl rfl (mail_ctx d.sys _)
      dsimp only
      split
      · obtain ⟨hturn, hrep⟩ := ih _ (withCtx d (f d.sys.ctx tokens).2)
        exact ⟨hcall.trans hturn, hrep⟩
      · exact ⟨hcall, rfl⟩

variable [LinearOrder Sid]

/-- A fork is answered as a control call. -/
theorem forkSession_fits (d : Data σ γ Sid) (src new : Sid) :
    (forkSession env d src new).1.fits .control = true := by
  unfold forkSession forkCopy
  split
  · rfl
  · split
    · rfl
    · split
      · rfl
      · split
        · split
          · rfl
          · dsimp only
            split <;> rfl
        · rfl

/-- So is a reset. -/
theorem resetSessionSeq_fits (d : Data σ γ Sid) (sid : Sid) :
    (resetSessionSeq env d sid).1.fits .control = true := by
  unfold resetSessionSeq
  split <;> rfl

/-- Saving for the operator talks to nobody and moves no seq. -/
theorem fireSaveForReason_turn {d : Data σ γ Sid} (hwf : TableWf env d)
    (hd : TableAll Req.Underway d.reqTable) (reason : SaveReason) :
    Turn d (fireSaveForReason env d reason) ∧ pool (fireSaveForReason env d reason) = pool d := by
  have hpass := foldl_talks
    (I := fun d' : Data σ γ Sid => TableWf env d' ∧ TableAll Req.Underway d'.reqTable ∧
      pool d' = pool d)
    (g := fun acc r => fireSaveForReq env acc reason r) ?_ ?_
    (requests_seqId_nodup hwf.keysMatch) ⟨hwf, hd, rfl⟩
    fun r hr => lookup_of_mem_requests hwf.keysMatch hr
  · exact ⟨⟨hpass.1, fun _ => hpass.2.2.1⟩, hpass.2.2.2⟩
  · rintro d' r ⟨hwf', hd', hpool⟩ hr
    have hsaved := fireSaveForReq_refreshes hwf' hr reason
    refine ⟨?_, hsaved.table, ?_, hsaved.pool.trans hpool⟩
    all_goals
      unfold fireSaveForReq
      split
    · exact .refl d'
    · have hsame : SameStanding r { creditSave (fireSaveIf env d' true reason r.contextTokens r).1
          r r.contextTokens with lastSaveAt := r.contextTokens.length } :=
        (creditSave_standing r _ _).trans ⟨rfl, rfl⟩
      exact hsame.talks hwf'.keysMatch hr (fireSaveIf_mail env d' r _ _ _)
    · exact hd'
    · have hsame : SameStanding r { creditSave (fireSaveIf env d' true reason r.contextTokens r).1
          r r.contextTokens with lastSaveAt := r.contextTokens.length } :=
        (creditSave_standing r _ _).trans ⟨rfl, rfl⟩
      exact TableAll.putReq (d := withSys d' _) hd' (hsame.underway (hd' _ r hr))
  · intro d r q _ _ hq
    unfold fireSaveForReq
    split
    · rfl
    · have hseq := seqId_of_terms (creditSave_standing r
        (fireSaveIf env d true reason r.contextTokens r).1 r.contextTokens).terms
      rw [lookup_putReq, if_neg]
      · rfl
      · exact fun heq => hq (heq.trans hseq)

end Control

/-! ### The casts -/

section Casts

variable {d : Data σ γ Sid}

/-- A cancelled request is marked, and told later. -/
theorem handleCancel_turn (hkeys : KeysMatch d.reqTable) (hd : TableAll Req.Underway d.reqTable)
    (ref : Ref) : Turn d (handleCancel d ref) := by
  unfold handleCancel
  split
  case h_2 => exact .refl d
  case h_1 r hfind =>
    have hr := lookup_of_mem_requests hkeys (List.mem_of_find?_eq_some hfind)
    have hr' := hd _ r hr
    have hsame : account (putReq d { r with cancelPending := true }) = account d :=
      account_putReq_of_same hr rfl rfl rfl
    exact ⟨⟨by rw [hsame], rfl⟩, fun h => h.putReq ⟨hr'.stream, hr'.finishing, hr'.flag⟩⟩

variable [LinearOrder Sid]

/-- What follows a step: everyone who finished was told, and no mark is left. -/
theorem tickAfterStep_handles (hd : Wf env d) (hsane : TableAll Req.Sane d.reqTable) :
    Handles none d (tickAfterStep env d).data := by
  obtain ⟨hmark, hsane'⟩ := markTerminal_talks hd.table.keysMatch hsane
  have hwf := Moves.wf (markTerminal_moves (G := .free) hd) hd
  obtain ⟨hfinish, hunderway⟩ := finishMarkedReqs_talks env hwf.table.keysMatch hsane'
  have hqueue := dispatchAdmits_turn _ (finishMarkedReqs_wf hd) rfl
  have hall := (hmark.trans hfinish).trans hqueue.toTalks
  have hhandles :
      Handles none d (dispatchPendingAdmits env (finishMarkedReqs env (markTerminal d))) :=
    ⟨hall.steps, hqueue.underway hunderway⟩
  rcases tickAfterStep_cases env d with ⟨heq, -⟩ | heq
  · rw [heq]
    exact hhandles
  -- the next tick is not on the account
  · rw [heq]
    exact hhandles.scheduleTick

omit [LinearOrder Sid] in
/-- A recovery that goes on has answered everyone. -/
theorem recoverInPlace_handles (hd : TableAll Req.Unflagged d.reqTable) (e : Reason)
    (hlive : (recoverInPlace env d e).phase ≠ .stopped) :
    Handles none d (recoverInPlace env d e).data := by
  obtain ⟨hall, -⟩ := failAll_turns env d.pending (.nested (.backend e)) d.sys fun r
    (hr : r ∈ requests d.reqTable) => by
      obtain ⟨q, hq⟩ := mem_requests.mp hr
      exact ⟨(hd q r hq).stream, (hd q r hq).flag⟩
  obtain ⟨hpending, -⟩ := failPending_turns d.pending (.backend e)
    (failAllRequests env d (.nested (.backend e)))
  have hfailed := hall.trans hpending
  rw [← account_eq_requests] at hfailed
  unfold recoverInPlace at hlive ⊢
  dsimp only at hlive ⊢
  split
  case h_1 hnone =>
    rw [hnone] at hlive
    exact absurd rfl hlive
  case h_2 f hf =>
    rw [hf] at hlive
    dsimp only at hlive ⊢
    split
    case h_2 hfail =>
      rw [hfail] at hlive
      exact absurd rfl hlive
    case h_1 => exact ⟨hfailed, fun q r hr => nomatch hr⟩

/-- A tick that does not stop the process answers what it finishes. -/
theorem stepTick_handles (hd : Wf env d) (hunderway : TableAll Req.Underway d.reqTable)
    (hlive : (stepTick env d).phase ≠ .stopped) : Handles none d (stepTick env d).data := by
  have hends := tickBody_ends (G := .free) hd
    (bodyOk_of (fun _ _ => trivial) (fun _ _ _ => trivial) (fun _ _ => trivial) d)
  have htalks := tickBody_talks hd hunderway
  have hafter : ∀ {d' d'' : Data σ γ Sid}, Talks d d' → Handles none d' d'' →
      Handles none d d'' := fun h h' => ⟨h.steps.trans h'.steps, h'.underway⟩
  unfold stepTick at hlive ⊢
  cases hbody : tickBody env d with
  | stepped d' =>
    rw [hbody] at hends htalks
    exact hafter htalks.1 (tickAfterStep_handles (Moves.wf hends hd) htalks.2)
  | recover d' e =>
    rw [hbody] at htalks hlive
    exact hafter htalks.1 (recoverInPlace_handles htalks.2 e hlive)
  | failed d' e =>
    rw [hbody] at hlive
    exact absurd rfl hlive
  | crashed d' =>
    rw [hbody] at hlive
    exact absurd rfl hlive

end Casts

/-! ### Every event -/

variable [LinearOrder Sid]

/-- **Step lemma.** Every event after which the process goes on. -/
theorem step_handles {p : Proc σ γ Sid} (hp : Wf env p.data)
    (hd : TableAll Req.Underway p.data.reqTable) (e : Event Sid)
    (hlive : (step env p e).phase ≠ .stopped) : Handles e.due p.data (step env p e).data := by
  have hkeys := hp.table.keysMatch
  have hstart : p.phase ≠ .stopped := by
    intro hstopped
    rw [show step env p e = p from if_pos hstopped] at hlive
    exact hlive hstopped
  rw [show step env p e = handleEvent env p e from if_neg hstart] at hlive ⊢
  cases e with
  -- A call is heard, and answered at once, queued, or put into the table.
  | request item => exact (admitRequest_heard hp p.phase item).handles hd
  | «continue» frm suffix opts => exact (admitContinue_heard p.phase frm suffix opts).handles hd
  | endSession frm sid => exact (dropSession_turn env p.data sid).handles rfl hd
  | forkSession frm src new =>
    -- The control calls take one turn.
    exact (forkSession_turn env p.data src new).handles (forkSession_fits p.data src new) hd
  | resetSession frm sid =>
    exact (resetSessionSeq_turn hd sid).handles (resetSessionSeq_fits p.data sid) hd
  | verify frm pre cands k =>
    obtain ⟨hturn, hrep⟩ := runVerify_turn env p.data pre cands k
    unfold handleEvent
    dsimp only
    split
    · exact hturn.handles hrep hd
    · exact (Turn.refl p.data).handles rfl hd
  | embed frm tokens =>
    obtain ⟨hturn, hrep⟩ := embedEach_turn env [tokens] [] p.data
    exact hturn.handles hrep hd
  | embedBatch frm lists =>
    obtain ⟨hturn, hrep⟩ := embedEach_turn env lists [] p.data
    exact hturn.handles hrep hd
  | evict frm => exact (fireSaveForReason_turn hp.table hd .evict).1.handles rfl hd
  | shutdown frm => exact (fireSaveForReason_turn hp.table hd .shutdown).1.handles rfl hd
  | loadAdapter frm path file =>
    obtain ⟨hturn, hrep⟩ := loadAdapter_turn env p.data path file
    exact hturn.handles hrep hd
  | unloadAdapter frm handle =>
    obtain ⟨hturn, hrep⟩ := unloadAdapter_turn env p.data handle
    exact hturn.handles hrep hd
  | setAdapterScale frm handle scale =>
    obtain ⟨hturn, hrep⟩ := setAdapterScale_turn env p.data handle scale
    exact hturn.handles hrep hd
  -- A cancel says nothing.
  | cancel ref =>
    have hturn := handleCancel_turn hkeys hd ref
    exact ⟨hturn.steps, hturn.underway hd⟩
  | tick =>
    -- A tick that is not due changes nothing.
    show Handles none p.data (handleTick env p).data
    replace hlive : (handleTick env p).phase ≠ .stopped := hlive
    have htaken : ∀ {d : Data σ γ Sid}, Handles none (takeTick p.data) d →
        Handles none p.data d := fun h => ⟨h.steps, h.underway⟩
    unfold handleTick at hlive ⊢
    split
    case isTrue => exact ⟨.refl, hd⟩
    case isFalse hticks =>
      rw [if_neg hticks] at hlive
      split
      case isTrue hrunning =>
        rw [if_pos hrunning] at hlive
        exact htaken (stepTick_handles ⟨hp.table, hp.sound⟩ hd hlive)
      case isFalse => exact ⟨.refl, hd⟩

/-! ### Runs -/

/-- A stopped process stays stopped, so a live one was never stopped. -/
theorem live_of_run {p : Proc σ γ Sid} {events : List (Event Sid)}
    (h : (run (step env) p events).phase ≠ .stopped) : p.phase ≠ .stopped := by
  intro hstopped
  have hstays : ∀ events : List (Event Sid), run (step env) p events = p := by
    intro events
    induction events with
    | nil => rfl
    | cons e events ih =>
      rw [run_cons, show step env p e = p from if_pos hstopped]
      exact ih
  rw [hstays] at h
  exact h hstopped

/-- The calls that these events brought. -/
def calls (events : List (Event Sid)) : List (From × CallKind) := events.filterMap Event.due

omit [LinearOrder Sid] in
/-- The calls of a run, one event at a time. -/
theorem calls_cons (e : Event Sid) (events : List (Event Sid)) :
    calls (e :: events) = e.due.toList ++ calls events := by
  unfold calls
  rw [List.filterMap_cons]
  cases e.due <;> rfl

/-- An account hears of a call. -/
theorem Account.Sound.hears {asked : Multiset (From × CallKind)} {a : Account}
    (ha : a.Sound asked) (due : Option (From × CallKind)) :
    (a.hears due).Sound (asked + (due.toList : Multiset (From × CallKind))) := by
  cases due with
  | none =>
    rw [Option.toList_none, Multiset.coe_nil, Multiset.add_zero]
    exact ha
  | some due =>
    rw [Option.toList_some, Multiset.coe_singleton, Multiset.add_comm, Multiset.singleton_add]
    exact ha.ask due

/-- Nothing was asked of a process that said nothing. -/
theorem Account.sound_zero : Account.Sound 0 ⟨0, 0, [], 0⟩ := by
  have hlive : ∀ p : Pid × Ref, p ∉ (0 : Multiset (Pid × Ref)) := Multiset.notMem_zero
  have howed : ∀ due : From × CallKind, due ∉ (0 : Multiset (From × CallKind)) :=
    Multiset.notMem_zero
  have hregistered : registered [] = [] := rfl
  constructor
  case answered => exact fun f => Nat.zero_add _
  case fits => exact fun f rep h => absurd h List.not_mem_nil
  case owed_asked => exact fun due h => absurd h (howed due)
  case live_lt => exact fun p h => absurd h (hlive p)
  case live_nodup => exact Multiset.nodup_zero
  case ongoing => exact fun pid ref h => absurd h (hlive _)
  case ended => exact fun ref hlt => absurd hlt (Nat.not_lt_zero ref)
  case fresh => exact fun ref _ => rfl
  case registered =>
    intro ref
    rw [hregistered]
    exact ⟨fun h => absurd h List.not_mem_nil, fun ⟨pid, h⟩ => absurd h (hlive _)⟩

/-- **Run lemma.** The account stays in order as long as the process lives. -/
theorem run_sound {p : Proc σ γ Sid} (hp : Wf env p.data)
    (hd : TableAll Req.Underway p.data.reqTable) {asked : Multiset (From × CallKind)}
    (hsound : (account p.data).Sound asked) {events : List (Event Sid)}
    (hlive : (run (step env) p events).phase ≠ .stopped) :
    (account (run (step env) p events).data).Sound
        (asked + (calls events : Multiset (From × CallKind))) ∧
      TableAll Req.Underway (run (step env) p events).data.reqTable := by
  induction events generalizing p asked with
  | nil =>
    have hnone : asked + (calls ([] : List (Event Sid)) : Multiset (From × CallKind)) = asked :=
      Multiset.add_zero asked
    rw [hnone]
    exact ⟨hsound, hd⟩
  | cons e events ih =>
    have hcalls : asked + (calls (e :: events) : Multiset (From × CallKind))
        = asked + (e.due.toList : Multiset (From × CallKind))
          + (calls events : Multiset (From × CallKind)) := by
      rw [calls_cons, ← Multiset.coe_add, Multiset.add_assoc]
    rw [run_cons] at hlive ⊢
    rw [hcalls]
    have hstep := step_handles hp hd e (live_of_run hlive)
    exact ih (step_wf hp e) hstep.underway (hstep.steps.sound (hsound.hears e.due)) hlive

/-- The calls that wait for their answer: those in the queue, and the synchronous ones in the
    table. -/
def waiting (d : Data σ γ Sid) : List (From × CallKind) :=
  d.pending.map Item.due ++ (requests d.reqTable).filterMap Req.due

/-- The streams of the table. -/
def openStreams (d : Data σ γ Sid) : List (Pid × Ref) :=
  (requests d.reqTable).filterMap Req.stream

/-- **Every call has one answer, every stream one end.** -/
structure OneTerminal (asked : List (From × CallKind)) (d : Data σ γ Sid) : Prop where
  /-- A caller has one reply for each of its calls that no longer waits. -/
  replies : ∀ f, d.sys.out.countP (Out.isReplyTo f) + (waiting d).countP (·.1 = f)
    = asked.countP (·.1 = f)
  /-- Every reply answers a call of its receiver. -/
  answers : ∀ f rep, Out.reply f rep ∈ d.sys.out → ∃ k, (f, k) ∈ asked ∧ rep.Answers k
  /-- What waits was asked. -/
  waits : ∀ due ∈ waiting d, due ∈ asked
  /-- A call of its own waits and has no reply, or has exactly one, of its kind. -/
  own : ∀ f k, asked.filter (·.1 = f) = [(f, k)] →
    ((f, k) ∈ waiting d ∧ d.sys.out.filter (Out.isReplyTo f) = []) ∨
      ((f, k) ∉ waiting d ∧ ∃ rep, rep.Answers k ∧
        d.sys.out.filter (Out.isReplyTo f) = [.reply f rep])
  /-- A stream of the table goes on. -/
  streams : ∀ pid ref, (pid, ref) ∈ openStreams d → Ongoing pid ref (transcript ref d.sys.out)
  /-- Any other reference was never used, or its stream had one final event and none after. -/
  ends : ∀ ref, (∀ pid, (pid, ref) ∉ openStreams d) →
    transcript ref d.sys.out = [] ∨ ∃ pid, Ended pid ref (transcript ref d.sys.out)
  /-- The inflight table holds the references of the streaming requests, none of which had its
      final event. -/
  registered : ∀ ref, ref ∈ registered d.sys.out ↔
    ∃ r ∈ requests d.reqTable, r.mode = .streaming ∧ r.requestRef = some ref

omit [LinearOrder Sid] in
/-- The streams of the table are those of its streaming requests. -/
theorem mem_openStreams {d : Data σ γ Sid} (hd : TableAll Req.Underway d.reqTable) (ref : Ref) :
    (∃ pid, (pid, ref) ∈ openStreams d) ↔
      ∃ r ∈ requests d.reqTable, r.mode = .streaming ∧ r.requestRef = some ref := by
  unfold openStreams
  constructor
  · rintro ⟨pid, hmem⟩
    obtain ⟨r, hr, hstream⟩ := List.mem_filterMap.mp hmem
    refine ⟨r, hr, mode_of_stream hstream, ?_⟩
    unfold Req.stream at hstream
    split at hstream
    case h_1 hpid href =>
      cases hstream
      exact href
    case h_2 => exact nomatch hstream
  · rintro ⟨r, hr, hmode, href⟩
    obtain ⟨q, hq⟩ := mem_requests.mp hr
    obtain ⟨⟨pid, ref'⟩, hstream⟩ := Option.isSome_iff_exists.mp ((hd q r hq).stream hmode)
    refine ⟨pid, List.mem_filterMap.mpr ⟨r, hr, ?_⟩⟩
    have hstream' := hstream
    unfold Req.stream at hstream'
    rw [hmode, href] at hstream'
    split at hstream'
    case h_1 h =>
      cases hstream'
      cases h
      exact hstream
    case h_2 => exact nomatch hstream'

omit [LinearOrder Sid] in
/-- An account in order says that every call has one answer and every stream one end. -/
theorem oneTerminal_of_sound {d : Data σ γ Sid} (hd : TableAll Req.Underway d.reqTable)
    {asked : List (From × CallKind)}
    (h : (account d).Sound (asked : Multiset (From × CallKind))) : OneTerminal asked d := by
  -- The account of the process is made from its queue and its table.
  rw [account_eq_requests] at h
  have howed : (accountOf d.pending (requests d.reqTable) d.sys).owed
      = (waiting d : Multiset (From × CallKind)) := rfl
  have hlive : (accountOf d.pending (requests d.reqTable) d.sys).live
      = (openStreams d : Multiset (Pid × Ref)) := by
    have hparty : ∀ r ∈ requests d.reqTable, r.party = r.stream := by
      intro r hr
      obtain ⟨q, hq⟩ := mem_requests.mp hr
      unfold Req.party
      rw [(hd q r hq).flag]
      rfl
    exact congrArg _ (List.filterMap_congr hparty)
  have hcount : ∀ (l : List (From × CallKind)) (f : From),
      ((l : Multiset (From × CallKind)).map Prod.fst).count f = l.countP (·.1 = f) := by
    intro l f
    rw [Multiset.map_coe, Multiset.coe_count, List.count, List.countP_map]
    exact List.countP_congr fun x _ => by simp
  have hreplies : ∀ f, d.sys.out.countP (Out.isReplyTo f) + (waiting d).countP (·.1 = f)
      = asked.countP (·.1 = f) := by
    intro f
    have hold := h.answered f
    rwa [howed, hcount, hcount] at hold
  have hanswers : ∀ f rep, Out.reply f rep ∈ d.sys.out →
      ∃ k, (f, k) ∈ asked ∧ rep.Answers k := h.fits
  have hwaits : ∀ due ∈ waiting d, due ∈ asked := fun due hdue =>
    h.owed_asked due (by rw [howed]; exact hdue)
  refine ⟨hreplies, hanswers, hwaits, ?_, ?_, ?_, ?_⟩
  -- Of a caller with one call: either it still waits and has no reply, or it has one.
  case refine_1 =>
    intro f k hown
    have honly : ∀ k', (f, k') ∈ asked → k' = k := by
      intro k' hmem
      have hmem' : (f, k') ∈ asked.filter (·.1 = f) := List.mem_filter.mpr ⟨hmem, by simp⟩
      rw [hown, List.mem_singleton] at hmem'
      exact congrArg Prod.snd hmem'
    have hone : asked.countP (·.1 = f) = 1 := by
      rw [List.countP_eq_length_filter, hown]
      rfl
    have hsum := hreplies f
    rw [hone, List.countP_eq_length_filter] at hsum
    by_cases hmem : (f, k) ∈ waiting d
    · have hpos : 0 < (waiting d).countP (·.1 = f) :=
        List.countP_pos_iff.mpr ⟨(f, k), hmem, by simp⟩
      exact .inl ⟨hmem, List.length_eq_zero_iff.mp (by omega)⟩
    · have hzero : (waiting d).countP (·.1 = f) = 0 := by
        refine List.countP_eq_zero.mpr fun due hdue hf => hmem ?_
        obtain ⟨f', k'⟩ := due
        obtain rfl : f' = f := by simpa using hf
        rw [← honly k' (hwaits _ hdue)]
        exact hdue
      obtain ⟨o, ho⟩ := List.length_eq_one_iff.mp
        (show (d.sys.out.filter (Out.isReplyTo f)).length = 1 by omega)
      have hout : o ∈ d.sys.out.filter (Out.isReplyTo f) := by
        rw [ho]
        exact List.mem_singleton_self o
      obtain ⟨hsent, hto⟩ := List.mem_filter.mp hout
      cases o with
      | reply f' rep =>
        obtain rfl : f' = f := by simpa [Out.isReplyTo] using hto
        obtain ⟨k', hasked, hans⟩ := hanswers f' rep hsent
        rw [honly k' hasked] at hans
        exact .inr ⟨hmem, rep, hans, ho⟩
      | send => cases hto
      | register => cases hto
      | unregister => cases hto
  case refine_2 =>
    intro pid ref hmem
    exact h.ongoing pid ref (by rw [hlive]; exact hmem)
  case refine_3 =>
    intro ref hdead
    by_cases hlt : ref < d.sys.nextRef
    · exact .inr (h.ended ref hlt fun pid hmem => hdead pid (by rw [hlive] at hmem; exact hmem))
    · exact .inl (h.fresh ref (Nat.le_of_not_lt hlt))
  case refine_4 =>
    intro ref
    rw [← mem_openStreams hd]
    have hold := h.registered ref
    rw [hlive] at hold
    exact hold

/-- **Run theorem.** As long as the process lives, every call has exactly one answer or still
    waits, every stream that was opened has exactly one final event or is still in the table,
    and the inflight table holds the references of the streams in the table. -/
theorem run_oneTerminal (ctx : σ) (world : γ) (events : List (Event Sid))
    (hlive : (run (step env) (init env ctx world) events).phase ≠ .stopped) :
    OneTerminal (calls events) (run (step env) (init env ctx world) events).data := by
  have hinit : (account (init env ctx world : Proc σ γ Sid).data).Sound 0 := Account.sound_zero
  obtain ⟨hsound, hunderway⟩ := run_sound (wf_init ctx world) (fun q r hr => nomatch hr) hinit
    hlive
  rw [Multiset.zero_add] at hsound
  exact oneTerminal_of_sound hunderway hsound

/-- A stream of one token, queued behind nobody, and a prefill that waits for its seq. -/
def streamedRequest : List (Event Nat) :=
  [.request (.infer 0 [1] ⟨⟨some 1, [], false, none, ⟨0, []⟩⟩, none, none, none, none, .block⟩ 7),
    .request (.prefillOnly 1 [1, 2] ⟨⟨none, [], false, none, ⟨0, []⟩⟩, none, none, none, none,
      .block⟩), .tick, .tick, .tick]

/-- A streamed request to its end. -/
theorem streamedRequest_oneTerminal :
    OneTerminal (calls streamedRequest)
      (run (step (mapEnv plainParams .empty 1)) (mapProc plainParams .empty 1)
        streamedRequest).data :=
  @run_oneTerminal MapCtx Unit Nat _ _ .empty () streamedRequest (by decide +kernel)

end Erllama.Model
