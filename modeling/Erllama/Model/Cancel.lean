import Erllama.Model.Attended
import Erllama.Model.Works

namespace Erllama.Model

open Lib

/-!
# Cancelling a stream

`cancel/1` has two effects on the model: it raises the abort flag of the context, which a decode
that is running may see, and it casts the cancellation, which the process honours at its next
tick.  Callers, the decode and the process are three parties, and their steps interleave freely.

* `Race`, `Act`, `race` — the process, the flag and the casts in its mailbox.
* `failedBy` — the requests that the backend's answer in a tick fails.
* `CancelledEnds` — every cancelled stream ends as cancelled.
* `Gentle` — no decode fails under a cancelled request.
* `tickAfterStep_cancelled` — the tick that honours a cancellation ends its stream as cancelled.
-/

variable {σ γ Sid : Type}

/-! ### The end of a cancelled request -/

section Finish

variable (env : Env σ γ)

/-- Nothing that was sent is taken back. -/
theorem Account.Steps.out {a a' : Account} (h : Account.Steps a a') : a.out <+: a'.out := by
  induction h with
  | refl => exact List.prefix_refl _
  | tail _ hstep ih =>
    refine ih.trans ?_
    cases hstep <;> exact List.prefix_append ..

/-- The end of a stream takes no message back. -/
theorem sendDoneForReq_out (s : Sys σ γ Sid) (r : Req Sid) (stats : Stats) :
    s.out <+: (sendDoneForReq s r stats).out := by
  unfold sendDoneForReq
  split
  · dsimp only
    split
    · exact (List.prefix_append ..).trans (List.prefix_append ..)
    · exact ((List.prefix_append ..).trans (List.prefix_append ..)).trans (List.prefix_append ..)
  · exact List.prefix_refl _

/-- Nor does the answer of a finished request. -/
theorem finishAction_out (s : Sys σ γ Sid) (r : Req Sid) (reason : FinishReason)
    (key : Option CacheKey) (stats : Stats) :
    s.out <+: (finishAction env s r reason key stats).out := by
  have hreply : ∀ rep, s.out <+: (replyTo s r rep).out := by
    intro rep
    unfold replyTo
    split
    · exact List.prefix_append ..
    · exact List.prefix_refl _
  unfold finishAction
  split
  · exact hreply _
  · split
    · exact List.prefix_refl _
    · exact sendDoneForReq_out s r stats
  · exact hreply _

variable [LinearOrder Sid]

/-- Nor does finishing one. -/
theorem finishReq_out (d : Data σ γ Sid) (r : Req Sid) :
    (finishReq env d r).sys.out = (announceFinish env d r).out ∧
      d.sys.out <+: (announceFinish env d r).out := by
  have hsave := (finishSave_mail env d r).1
  constructor
  · unfold finishReq releaseOrPinSeq
    split
    · exact (releaseSeq_mail env _ _).out
    · rfl
  · have haction := finishAction_out env (finishSave env d r).2.2 (finishSave env d r).2.1
      (finishReasonOf r) (finishSave env d r).1
      (buildStatsForReq (finishReasonOf r) (finishSave env d r).1 (finishSave env d r).2.1)
    rw [hsave.out] at haction
    unfold announceFinish
    dsimp only
    rw [(releaseSampler_mail env _ _).out]
    exact haction

/-- The last event of a cancelled stream. -/
def DoneCancelled (ref : Ref) (out : List Out) : Prop :=
  ∃ pid stats, Out.send pid ref (.done stats) ∈ out ∧
    stats.finishReason = .cancelled ∧ stats.cancelled = true

omit [LinearOrder Sid] in
/-- What was sent stays sent. -/
theorem DoneCancelled.mono {ref : Ref} {out out' : List Out} (h : DoneCancelled ref out)
    (hout : out <+: out') : DoneCancelled ref out' := by
  obtain ⟨pid, stats, hmem, hstats⟩ := h
  exact ⟨pid, stats, hout.subset hmem, hstats⟩

/-- A cancelled request is finished as one. -/
theorem finishReq_done (d : Data σ γ Sid) {r : Req Sid} {pid : Pid} {ref : Ref}
    (hstream : r.stream = some (pid, ref)) (hflag : r.thinkingNotEnabled = false)
    (hcancel : r.cancelPending = true) : DoneCancelled ref (finishReq env d r).sys.out := by
  obtain ⟨hsave, hstanding⟩ := finishSave_mail env d r
  have hstream' : (finishSave env d r).2.1.stream = some (pid, ref) :=
    (stream_of_terms hstanding.terms).trans hstream
  have hmode : (finishSave env d r).2.1.mode = .streaming := mode_of_stream hstream'
  have hflag' : (finishSave env d r).2.1.thinkingNotEnabled = false :=
    hstanding.thinkingNotEnabled.trans hflag
  have hcancel' : (finishSave env d r).2.1.cancelPending = true :=
    (congrArg Terms.cancelPending hstanding.terms).trans hcancel
  have hreason : finishReasonOf r = .cancelled := by
    unfold finishReasonOf
    rw [if_pos hcancel]
  rw [(finishReq_out env d r).1]
  unfold announceFinish
  dsimp only
  rw [(releaseSampler_mail env _ _).out, hreason]
  unfold finishAction
  rw [hmode, hflag']
  refine ⟨pid, buildStatsForReq .cancelled (finishSave env d r).1 (finishSave env d r).2.1, ?_,
    rfl, hcancel'⟩
  unfold sendDoneForReq
  rw [hstream']
  exact List.mem_append_right _ (List.mem_singleton_self _)

/-- Finishing what is marked finishes a cancelled request as one. -/
theorem finishMarkedReqs_done {d : Data σ γ Sid} {r : Req Sid} (hr : r ∈ finishers d) {pid : Pid}
    {ref : Ref} (hstream : r.stream = some (pid, ref)) (hflag : r.thinkingNotEnabled = false)
    (hcancel : r.cancelPending = true) :
    DoneCancelled ref (finishMarkedReqs env d).sys.out := by
  have hgrows : ∀ (rs : List (Req Sid)) (d : Data σ γ Sid),
      d.sys.out <+: (rs.foldl (finishReq env) d).sys.out := by
    intro rs
    induction rs with
    | nil => exact fun d => List.prefix_refl _
    | cons r rs ih =>
      intro d
      obtain ⟨heq, hout⟩ := finishReq_out env d r
      exact (heq ▸ hout).trans (ih (finishReq env d r))
  obtain ⟨before, after, heq⟩ := List.append_of_mem hr
  unfold finishMarkedReqs
  rw [heq, List.foldl_append, List.foldl_cons]
  exact (finishReq_done env _ hstream hflag hcancel).mono (hgrows after _)

end Finish

/-- Replacing records leaves the entries of other seqs. -/
theorem foldl_putReq_other {f : Req Sid → Option (Req Sid)}
    (hf : ∀ r r', f r = some r' → r'.seqId = r.seqId) {q : SeqId} {rs : List (Req Sid)}
    (hq : q ∉ rs.map Req.seqId) (d : Data σ γ Sid) :
    (rs.foldl (fun acc r => match f r with | some r' => putReq acc r' | none => acc)
      d).reqTable.lookup q = d.reqTable.lookup q := by
  induction rs generalizing d with
  | nil => rfl
  | cons r rs ih =>
    rw [List.map_cons, List.mem_cons, not_or] at hq
    rw [List.foldl_cons, ih hq.2]
    split
    case h_1 r' hr' => rw [lookup_putReq, hf r r' hr', if_neg hq.1]
    case h_2 => rfl

/-- A pass over the table changes each record as it says. -/
theorem lookup_updateReqs {f : Req Sid → Option (Req Sid)}
    (hf : ∀ r r', f r = some r' → r'.seqId = r.seqId) {d : Data σ γ Sid}
    (hkeys : KeysMatch d.reqTable) {q : SeqId} {r : Req Sid}
    (hr : d.reqTable.lookup q = some r) :
    (updateReqs f d).reqTable.lookup q = some ((f r).getD r) := by
  have hq : r.seqId = q := hkeys q r hr
  have hnodup := requests_seqId_nodup hkeys
  obtain ⟨before, after, heq⟩ := List.append_of_mem (mem_requests.mpr ⟨q, hr⟩)
  rw [heq, List.map_append, List.map_cons] at hnodup
  obtain ⟨-, hafter, hapart⟩ := List.nodup_append.mp hnodup
  rw [List.nodup_cons] at hafter
  unfold updateReqs
  rw [heq, List.foldl_append, List.foldl_cons, ← hq]
  refine (foldl_putReq_other hf hafter.1 _).trans ?_
  split
  case h_1 r' hr' =>
    rw [hr', lookup_putReq, hf r r' hr', if_pos rfl]
    rfl
  case h_2 hnone =>
    have hbefore := foldl_putReq_other hf (show r.seqId ∉ before.map Req.seqId from
      fun hmem => hapart _ hmem _ List.mem_cons_self rfl) d
    rw [hnone, Option.getD_none]
    exact hbefore.trans (hq ▸ hr)

/-- A pass over the table adds no record. -/
theorem lookup_updateReqs_eq {f : Req Sid → Option (Req Sid)}
    (hf : ∀ r r', f r = some r' → r'.seqId = r.seqId) {d : Data σ γ Sid}
    (hkeys : KeysMatch d.reqTable) (q : SeqId) :
    (updateReqs f d).reqTable.lookup q =
      (d.reqTable.lookup q).map fun r => (f r).getD r := by
  cases hq : d.reqTable.lookup q with
  | some r => exact lookup_updateReqs hf hkeys hq
  | none =>
    have hnot : q ∉ (requests d.reqTable).map Req.seqId := by
      intro hmem
      obtain ⟨r, hr, hseq⟩ := List.mem_map.mp hmem
      rw [← hseq, lookup_of_mem_requests hkeys hr] at hq
      exact nomatch hq
    exact (foldl_putReq_other hf hnot d).trans hq

/-- A pass over the table leaves the system. -/
theorem updateReqs_sys (f : Req Sid → Option (Req Sid)) (d : Data σ γ Sid) :
    (updateReqs f d).sys = d.sys := by
  unfold updateReqs
  generalize requests d.reqTable = rs
  induction rs generalizing d with
  | nil => rfl
  | cons r rs ih =>
    rw [List.foldl_cons, ih]
    split <;> rfl

/-! ### The race -/

/-- The process among its callers: whether a tick's decode is running, whose `request_abort`
    raised the flag since that decode was armed, the cancel casts in the mailbox, and the
    cancellations that took effect on a request in flight. -/
structure Race (σ γ Sid : Type) where
  proc : Proc σ γ Sid
  decoding : Bool := false
  raised : List Ref := []
  casts : List Ref := []
  noted : List Ref := []

/-- What the parties do.  A caller calls `cancel/1`; the tick arms its decode and finishes it,
    with or without the interrupt; the process handles another message or the next cast. -/
inductive Act (Sid : Type) where
  | cancel (ref : Ref)
  | arm
  | finish (fires : Bool)
  | handle (e : Event Sid)
  | deliver

/-- The backend when the abort callback fires: every decode of a tick reports it, and leaves
    some context behind. -/
def interrupted (be : Backend σ) (aborted : σ → σ) : Backend σ :=
  { be with
    step := fun x _ => (.error .decodeAborted, aborted x)
    spec := be.spec.map fun cb =>
      { cb with step := fun x _ _ _ => (.error .decodeAborted, aborted x) }
    media := be.media.map fun cb =>
      { cb with prefill := fun x _ _ _ _ => (.error .decodeAborted, aborted x) } }

section Race

variable (env : Env σ γ) (aborted : σ → σ)

/-- The tick's environment: an interrupt that fires needs a raised flag. -/
def tickEnv (fires : Bool) (raised : List Ref) : Env σ γ :=
  if fires = true ∧ raised ≠ [] then { env with be := interrupted env.be aborted } else env

/-- The requests that the answer of the backend to a tick fails: a failed media prefill its
    request, any other failed decode all that are in flight. -/
def failedBy (d : Data σ γ Sid) : List (Req Sid) :=
  let d := honourCancellations d
  match maybeMediaTick d with
  -- a failed media prefill fails its own request only
  | some r =>
    match env.be.media with
    | none => []
    | some cb =>
      match (cb.prefill d.sys.ctx r.mediaPrompt (r.media.getD []) r.seqId r.mediaAddSpecial).1 with
      | .ok _    => []
      | .error _ => [r]
  | none =>
    let spec := maybeSpecTick env d
    let d := spec.2
    match spec.1 with
    | some (r, draft) =>
      match env.be.spec, r.samplerRef with
      | some cb, some sampler =>
        match (cb.step d.sys.ctx sampler r.seqId draft).1 with
        | .ok _    => []
        | .error _ => requests d.reqTable
      | _, _ => []
    | none =>
      match applyBatchBudget env (allOps d) with
      | none     => []
      | some []  => []
      | some ops =>
        match (env.be.step d.sys.ctx ops).1 with
        | .ok _    => []
        | .error _ => requests d.reqTable

/-- The stream of the reference is in flight. -/
def InFlight (d : Data σ γ Sid) (ref : Ref) : Prop :=
  ∃ r ∈ requests d.reqTable, r.requestRef = some ref

instance (d : Data σ γ Sid) (ref : Ref) : Decidable (InFlight d ref) :=
  inferInstanceAs (Decidable (∃ r ∈ requests d.reqTable, r.requestRef = some ref))

/-- The casts, which are not handled as other messages are. -/
def Event.isCast : Event Sid → Bool
  | .cancel _ => true
  | .tick     => true
  | _         => false

variable [LinearOrder Sid]

/-- One step of the race.  `cancel/1` looks its reference up in the inflight table; arming a
    decode clears the flag; while the decode runs the process handles nothing. -/
def race (s : Race σ γ Sid) : Act Sid → Race σ γ Sid
  -- `cancel/1` finds the stream registered: the flag is raised, and the cast is on its way
  | .cancel ref =>
    if ref ∈ registered s.proc.data.sys.out then
      { s with raised := ref :: s.raised, casts := s.casts ++ [ref] }
    else s
  -- a decode starts with no interrupt raised
  | .arm =>
    if s.proc.phase = .running ∧ s.proc.data.sys.ticks ≠ 0 ∧ s.decoding = false then
      { s with decoding := true, raised := [] }
    else s
  | .finish fires =>
    if s.decoding = true then
      let env := tickEnv env aborted fires s.raised
      let failed := (failedBy env (takeTick s.proc.data)).filterMap Req.requestRef
      { s with
        proc := step env s.proc .tick
        decoding := false
        noted := s.noted ++ if fires then s.raised.filter (· ∈ failed) else [] }
    else s
  | .handle e =>
    if s.decoding = true ∨ e.isCast = true then s else { s with proc := step env s.proc e }
  -- the model is in the NIF while it decodes: casts wait
  | .deliver =>
    match s.casts with
    | [] => s
    | ref :: rest =>
      if s.decoding = true then s
      else
        { s with
          proc := step env s.proc (.cancel ref)
          casts := rest
          noted := s.noted ++
            if s.proc.phase ≠ .stopped ∧ InFlight s.proc.data ref then [ref] else [] }

/-- A cancelled request that waits for the tick that is coming. -/
def Awaits (ref : Ref) (p : Proc σ γ Sid) : Prop :=
  p.phase = .running ∧ 0 < p.data.sys.ticks ∧
    ∃ r ∈ requests p.data.reqTable, (∃ pid, r.stream = some (pid, ref)) ∧ r.cancelPending = true

/-- No event but one that says cancelled ended the stream. -/
def EndsCancelled (ref : Ref) (out : List Out) : Prop :=
  ∀ pid ev, Out.send pid ref ev ∈ out → ev.isFinal = true →
    ∃ stats, ev = .done stats ∧ stats.finishReason = .cancelled ∧ stats.cancelled = true

/-- **Cancelled streams end as cancelled**: no other event ended one, and each had it or waits
    for its tick. -/
structure CancelledEnds (s : Race σ γ Sid) : Prop where
  final : ∀ ref ∈ s.noted, EndsCancelled ref s.proc.data.sys.out
  ends : s.proc.phase ≠ .stopped → ∀ ref ∈ s.noted,
    Awaits ref s.proc ∨ DoneCancelled ref s.proc.data.sys.out

/-- The condition on a step: a decode that fails fails no request whose cancellation took
    effect, nor one whose cancellation interrupted it, and no session of one is reset. -/
def Gentle (s : Race σ γ Sid) : Act Sid → Prop
  | .finish fires => s.decoding = true →
    ∀ r ∈ failedBy (tickEnv env aborted fires s.raised) (takeTick s.proc.data),
      ∀ ref, r.requestRef = some ref → ref ∉ s.noted ∧ (fires = true → ref ∉ s.raised)
  | .handle (.resetSession _ sid) => ∀ entry r ref, s.proc.data.sessionSeq.lookup sid = some entry →
    s.proc.data.reqTable.lookup entry.seqId = some r → r.requestRef = some ref → ref ∉ s.noted
  | _ => True

end Race

/-! ### A tick -/

section Tick

variable [LinearOrder Sid] {env : Env σ γ} {d d' : Data σ γ Sid}

/-- A cancelled request is marked before the step. -/
theorem lookup_honourCancellations (hd : Wf env d) {q : SeqId} {r : Req Sid}
    (hr : d.reqTable.lookup q = some r) (hcancel : r.cancelPending = true) :
    (honourCancellations d).reqTable.lookup q = some { r with finishing := true } := by
  unfold honourCancellations
  rw [lookup_updateReqs (fun r r' h => ?_) hd.table.keysMatch hr, if_pos hcancel,
    Option.getD_some]
  split at h
  · cases h
    rfl
  · cases h

/-- A cancelled request in flight at a tick that goes on is finished by it. -/
theorem tickAfterStep_cancelled (hd : Wf env d) (hunder : TableAll Req.Underway d.reqTable)
    (hbody : tickBody env d = .stepped d') {q : SeqId} {r : Req Sid}
    (hr : d.reqTable.lookup q = some r) {pid : Pid} {ref : Ref}
    (hstream : r.stream = some (pid, ref)) (hcancel : r.cancelPending = true) :
    DoneCancelled ref (tickAfterStep env d').data.sys.out := by
  have hkeys := hd.table.keysMatch
  have hwf : Wf env d' := by
    have hends := tickBody_ends (G := .free) hd
      (bodyOk_of (fun _ _ => trivial) (fun _ _ _ => trivial) (fun _ _ => trivial) d)
    rw [hbody] at hends
    exact Moves.wf hends hd
  -- The request is marked before the step, which leaves it alone, and stays marked.
  have hmarked := lookup_honourCancellations hd hr hcancel
  have hworks := tickBody_works hd
  rw [hbody] at hworks
  have hkept := hworks.stays q _ hmarked rfl
  have hterminal : (markTerminal d').reqTable.lookup q = some { r with finishing := true } := by
    unfold markTerminal
    rw [lookup_updateReqs (fun r r' h => ?_) hwf.table.keysMatch hkept, if_neg, Option.getD_none]
    · rintro ⟨hfin, -⟩
      cases hfin
    · split at h
      · cases h
        rfl
      · cases h
  have hfinisher : ({ r with finishing := true } : Req Sid) ∈ finishers (markTerminal d') :=
    List.mem_filter.mpr ⟨mem_requests.mpr ⟨q, hterminal⟩, rfl⟩
  have hdone := finishMarkedReqs_done env hfinisher hstream
    (hunder q r hr).flag hcancel
  have hqueue := (dispatchAdmits_turn _ (finishMarkedReqs_wf hwf) rfl).steps.out
  rcases tickAfterStep_cases env d' with ⟨heq, -⟩ | heq
  · rw [heq]
    exact hdone.mono hqueue
  · rw [heq]
    exact hdone.mono hqueue

end Tick

/-! ### A decode that fails -/

section Fails

variable {env : Env σ γ} {d d' : Data σ γ Sid}

/-- A speculative step that succeeded needs no recovery. -/
theorem commitSpec_goesOn (q : SeqId) (draft : List Token) (res : SpecResult) (e : Reason) :
    commitSpec env d q draft res ≠ .recover d' e ∧ commitSpec env d q draft res ≠ .failed d' e := by
  unfold commitSpec
  dsimp only
  split <;> exact ⟨nofun, nofun⟩

/-- A failed step keeps the table. -/
theorem decodeError_table {x : σ} {e e' : Reason}
    (h : decodeError (withCtx d x) e = .recover d' e' ∨
      decodeError (withCtx d x) e = .failed d' e') :
    d'.reqTable = d.reqTable := by
  unfold decodeError at h
  split at h
  · rcases h with h | h <;> cases h
    rfl
  · rcases h with h | h <;> cases h
    rfl

/-- A tick that recovers or gives up fails all requests in flight. -/
theorem failedBy_of_failed {e : Reason}
    (h : tickBody env d = .recover d' e ∨ tickBody env d = .failed d' e) :
    failedBy env d = requests d'.reqTable := by
  unfold tickBody at h
  unfold failedBy
  dsimp only at h ⊢
  -- The tick worked on a media prefill, on a draft or on a batch, as in `tickBody`.
  split
  case h_1 r hmedia =>
    rw [hmedia] at h
    dsimp only at h
    unfold runMediaTick at h
    split at h
    · rcases h with h | h <;> cases h
    · dsimp only at h
      split at h <;> rcases h with h | h <;> cases h
  case h_2 hmedia =>
    rw [hmedia] at h
    dsimp only at h
    split
    case h_1 r draft hspec =>
      rw [hspec] at h
      dsimp only at h
      unfold runSpecTick at h
      split
      case h_1 cb sampler hcb hsampler =>
        rw [hcb, hsampler] at h
        dsimp only at h
        split
        -- A committed draft fails nobody; a failed verification fails all.
        case h_1 res hok =>
          rw [hok] at h
          exact absurd h (not_or.mpr (commitSpec_goesOn r.seqId draft res e))
        case h_2 e' herr =>
          rw [herr] at h
          exact congrArg requests (decodeError_table h).symm
      case h_2 hnone =>
        split at h
        case h_1 cb sampler hcb hsampler => exact absurd hsampler (hnone cb sampler hcb)
        case h_2 => rcases h with h | h <;> cases h
    case h_2 hspec =>
      rw [hspec] at h
      dsimp only at h
      unfold stepTickOps at h
      -- Of a batch, only the decode can fail.
      split
      case h_1 hbudget =>
        rw [hbudget] at h
        rcases h with h | h <;> cases h
      case h_2 hbudget =>
        rw [hbudget] at h
        rcases h with h | h <;> cases h
      case h_3 ops hne hbudget =>
        rw [hbudget] at h
        cases ops with
        | nil => exact absurd rfl hne
        | cons op ops =>
          dsimp only at h ⊢
          split
          case h_1 results hok =>
            rw [hok] at h
            dsimp only at h
            unfold finishStep at h
            split at h
            · rcases h with h | h <;> cases h
            · dsimp only at h
              split at h <;> rcases h with h | h <;> cases h
          case h_2 e' herr =>
            rw [herr] at h
            exact congrArg requests (decodeError_table h).symm

/-- What the failing of requests sends goes to them. -/
theorem failAll_voices (rs : List (Req Sid)) (s : Sys σ γ Sid) (e : Err) :
    ∃ new : List Out, (rs.foldl (fun s r => failRequest env s r e) s).out = s.out ++ new ∧
      ∀ pid ref ev, Out.send pid ref ev ∈ new → ∃ r ∈ rs, r.stream = some (pid, ref) := by
  induction rs generalizing s with
  | nil =>
    exact ⟨[], (List.append_nil _).symm, fun _ _ _ hmem => absurd hmem List.not_mem_nil⟩
  | cons r rs ih =>
    obtain ⟨new, hout, hnew⟩ := notifyFailure_voices s r e
    obtain ⟨new', hout', hnew'⟩ := ih (failRequest env s r e)
    refine ⟨new ++ new', ?_, fun pid ref ev hmem => ?_⟩
    · rw [List.foldl_cons, hout', (failRequest_mail env s e).out, hout, List.append_assoc]
    · rcases List.mem_append.mp hmem with hmem | hmem
      · exact ⟨r, List.mem_cons_self, hnew pid ref ev hmem⟩
      · obtain ⟨r', hr', hstream⟩ := hnew' pid ref ev hmem
        exact ⟨r', List.mem_cons_of_mem r hr', hstream⟩

/-- What is queued is answered with the error. -/
theorem failPending_voices (items : List (Item Sid)) (d : Data σ γ Sid) (e : Err) :
    ∃ new : List Out, (items.foldl (fun acc item => emit acc (.reply item.frm (.error e)))
        d).sys.out = d.sys.out ++ new ∧
      ∀ pid ref ev, Out.send pid ref ev ∉ new := by
  induction items generalizing d with
  | nil => exact ⟨[], (List.append_nil _).symm, fun _ _ _ => List.not_mem_nil⟩
  | cons item items ih =>
    obtain ⟨new, hout, hnew⟩ := ih (emit d (.reply item.frm (.error e)))
    refine ⟨.reply item.frm (.error e) :: new, ?_, fun pid ref ev hmem => ?_⟩
    · rw [List.foldl_cons, hout]
      exact List.append_assoc d.sys.out _ _
    · rcases List.mem_cons.mp hmem with heq | hmem
      · exact nomatch heq
      · exact hnew pid ref ev hmem

end Fails

end Erllama.Model
