import Erllama.Model.Requests

namespace Erllama.Model

/-!
# What applying a result does

Each function that works on one request leaves the native context alone, fires at most one
save, and keeps the request's identity.

* `Fires` — the system after a function that may have saved `tokens` for the request.
* `Mute` — the system after a function that only sends messages.
* `stepResult_applies` — one step result: the context grows by `resultTokens`, and a save is of
  that context and never for a media request.
-/

variable {σ γ Sid : Type} (env : Env σ γ) (d : Data σ γ Sid) (r : Req Sid)

/-- The call is a save of `tokens` for the request, packed from the process's context. -/
def CallFor (tokens : List Token) (c : SaveCall σ Sid) : Prop :=
  ∃ reason r₀, SameIdent r r₀ ∧
    c = ⟨r₀, buildMetaFor env d reason tokens r₀, env.be.kvPack d.sys.ctx tokens r₀.seqId,
      d.sys.ctx⟩

/-- `s` is the process's system after at most one save of `tokens` for the request. -/
structure Fires (tokens : List Token) (s : Sys σ γ Sid) : Prop where
  ctx : s.ctx = d.sys.ctx
  log : s.log = d.sys.log ∨ ∃ c, CallFor env d r tokens c ∧ s.log = d.sys.log ++ [.save c]

variable {env d r}

/-- A function that leaves context and log alone fires nothing. -/
theorem Fires.of_eq {tokens : List Token} {s : Sys σ γ Sid} (hctx : s.ctx = d.sys.ctx)
    (hlog : s.log = d.sys.log) : Fires env d r tokens s :=
  ⟨hctx, .inl hlog⟩

/-- What happens to the system after the save, other than to context and log, is no matter. -/
theorem Fires.congr {tokens : List Token} {s s' : Sys σ γ Sid} (h : Fires env d r tokens s)
    (hctx : s'.ctx = s.ctx) (hlog : s'.log = s.log) : Fires env d r tokens s' := by
  refine ⟨hctx.trans h.ctx, ?_⟩
  rw [hlog]
  exact h.log

/-- A save for another record of the request, in a state that differs in the outside world. -/
theorem Fires.of_ident {tokens : List Token} {s s₀ : Sys σ γ Sid} {r' : Req Sid}
    (h : Fires env (withSys d s₀) r' tokens s) (hr : SameIdent r r')
    (hctx : s₀.ctx = d.sys.ctx) (hlog : s₀.log = d.sys.log) :
    Fires env d r tokens s := by
  refine ⟨h.ctx.trans hctx, ?_⟩
  rcases h.log with heq | ⟨c, ⟨reason, r₀, hid, hc⟩, heq⟩
  · exact .inl (heq.trans hlog)
  · right
    refine ⟨c, ⟨reason, r₀, hr.trans hid, ?_⟩, ?_⟩
    · rw [hc]
      show _ = SaveCall.mk r₀ _ (env.be.kvPack d.sys.ctx tokens r₀.seqId) d.sys.ctx
      rw [← hctx]
      rfl
    · rw [heq]
      show s₀.log ++ [.save c] = d.sys.log ++ [.save c]
      rw [hlog]

variable (env d r)

/-! ### The save functions -/

/-- A save that is asked for, or none. -/
theorem fireSaveIf_fires (should : Bool) (reason : SaveReason) (tokens : List Token) :
    Fires env d r tokens (fireSaveIf env d should reason tokens r).2 := by
  unfold fireSaveIf
  split
  · exact .of_eq rfl rfl
  · refine ⟨rfl, .inr ⟨_, ⟨reason, r, .refl r, rfl⟩, rfl⟩⟩

/-- Counting a save keeps the core. -/
theorem bumpCacheDelta_core (tokens : List Token) : SameCore r (bumpCacheDelta r tokens) :=
  ⟨⟨rfl, rfl, rfl, rfl, rfl, id⟩, rfl, rfl, rfl⟩

/-- Crediting a save keeps the core. -/
theorem creditSave_core (fired : Bool) (tokens : List Token) :
    SameCore r (creditSave fired r tokens) := by
  cases fired with
  | true  => exact bumpCacheDelta_core r tokens
  | false => exact .refl r

/-- A save of some tokens. -/
theorem fireSaveForTokens_fires (reason : SaveReason) (tokens : List Token) :
    SameCore r (fireSaveForTokens env d reason tokens r).1 ∧
      Fires env d r tokens (fireSaveForTokens env d reason tokens r).2 :=
  ⟨creditSave_core r _ tokens, fireSaveIf_fires env d r _ reason tokens⟩

/-- A save of the agent's prefix, which also waits for it. -/
theorem fireAgentPrefixSave_fires (tokens : List Token) :
    SameCore r (fireAgentPrefixSave env d tokens r).1 ∧
      Fires env d r tokens (fireAgentPrefixSave env d tokens r).2 := by
  have hfires := fireSaveIf_fires env d r (decide (env.cfg.policy.minTokens ≤ tokens.length))
    .agentPrefix tokens
  unfold fireAgentPrefixSave
  dsimp only
  split
  · exact ⟨bumpCacheDelta_core r tokens, hfires.congr rfl rfl⟩
  · exact ⟨.refl r, hfires⟩

/-- The continued save is of the context, and none for media. -/
theorem maybeFireContinuedForReq_fires :
    SameCore r (maybeFireContinuedForReq env d r).1 ∧
      Fires env d r r.contextTokens (maybeFireContinuedForReq env d r).2 ∧
      (r.media.isSome → (maybeFireContinuedForReq env d r).2 = d.sys) := by
  have hfires := fireSaveForTokens_fires env d r .continued r.contextTokens
  unfold maybeFireContinuedForReq
  dsimp only
  split
  case isTrue h => exact ⟨.refl r, .of_eq rfl rfl, fun _ => rfl⟩
  case isFalse h =>
    split
    · refine ⟨hfires.1.trans ⟨⟨rfl, rfl, rfl, rfl, rfl, id⟩, rfl, rfl, rfl⟩, hfires.2, ?_⟩
      exact fun hm => absurd hm h
    · exact ⟨.refl r, .of_eq rfl rfl, fun _ => rfl⟩

/-- The cold save: the context stays, the cursor may rotate; without a ladder nothing happens. -/
theorem maybeFireColdSave_fires :
    SameIdent r (maybeFireColdSave env d r).1 ∧
      (maybeFireColdSave env d r).1.contextTokens = r.contextTokens ∧
      Fires env d r r.contextTokens (maybeFireColdSave env d r).2 ∧
      (r.coldSaveSegments = none → maybeFireColdSave env d r = (r, d.sys)) := by
  unfold maybeFireColdSave
  split
  case h_1 h => exact ⟨.refl r, rfl, .of_eq rfl rfl, fun _ => rfl⟩
  case h_2 h =>
    rw [h]
    exact ⟨⟨rfl, rfl, rfl, rfl, rfl, id⟩, rfl, .of_eq rfl rfl, nofun⟩
  case h_3 reason next rest h =>
    have hfires : SameCore r (if reason = .agentPrefix
          then fireAgentPrefixSave env d r.contextTokens r
          else fireSaveForTokens env d reason r.contextTokens r).1 ∧
        Fires env d r r.contextTokens (if reason = .agentPrefix
          then fireAgentPrefixSave env d r.contextTokens r
          else fireSaveForTokens env d reason r.contextTokens r).2 := by
      split
      · exact fireAgentPrefixSave_fires env d r r.contextTokens
      · exact fireSaveForTokens_fires env d r reason r.contextTokens
    refine ⟨hfires.1.toSameIdent.trans ⟨rfl, rfl, rfl, rfl, rfl, id⟩, hfires.1.contextTokens,
      hfires.2, ?_⟩
    rw [h]
    exact nofun

/-! ### Streaming and thinking -/

/-- Nothing but messages, time and the outside world differs, and no message is taken back. -/
structure Mute (s s' : Sys σ γ Sid) : Prop where
  ctx : s'.ctx = s.ctx
  log : s'.log = s.log
  out : s.out <+: s'.out

/-- Nothing happened. -/
theorem Mute.refl (s : Sys σ γ Sid) : Mute s s := ⟨rfl, rfl, List.prefix_refl _⟩

/-- One mute function after another. -/
theorem Mute.trans {s s' s'' : Sys σ γ Sid} (h : Mute s s') (h' : Mute s' s'') : Mute s s'' :=
  ⟨h'.ctx.trans h.ctx, h'.log.trans h.log, h.out.trans h'.out⟩

/-- Sending a message. -/
theorem mute_emit (s : Sys σ γ Sid) (o : Out) : Mute s (s.emit o) :=
  ⟨rfl, rfl, List.prefix_append _ _⟩

/-- A change of the outside world. -/
theorem mute_world (s : Sys σ γ Sid) (w : γ) : Mute s { s with world := w } :=
  ⟨rfl, rfl, List.prefix_refl _⟩

/-- Sending to a stream. -/
theorem mute_sendStream (s : Sys σ γ Sid) (ev : StreamEvent) : Mute s (sendStream s r ev) := by
  unfold sendStream
  split
  · exact mute_emit s _
  · exact .refl s

/-- Sending a token to a stream. -/
theorem mute_emitToken (s : Sys σ γ Sid) (text : Bytes) (tok : Token) :
    Mute s (emitToken s r text tok) := by
  unfold emitToken
  dsimp only
  split
  · exact mute_sendStream r s _
  · exact (mute_sendStream r s _).trans (mute_sendStream r _ _)

/-- Streaming a token. -/
theorem reqStreamEmit_core (s : Sys σ γ Sid) (tok : Token) :
    SameCore r (reqStreamEmit env s r tok).1 ∧ Mute s (reqStreamEmit env s r tok).2 := by
  unfold reqStreamEmit
  dsimp only
  split
  · exact ⟨.refl r, mute_emitToken r s _ tok⟩
  · split
    · exact ⟨⟨⟨rfl, rfl, rfl, rfl, rfl, id⟩, rfl, rfl, rfl⟩, mute_emitToken r s _ tok⟩
    · split
      · exact ⟨⟨⟨rfl, rfl, rfl, rfl, rfl, id⟩, rfl, rfl, rfl⟩, mute_emitToken r s _ tok⟩
      · exact ⟨⟨⟨rfl, rfl, rfl, rfl, rfl, id⟩, rfl, rfl, rfl⟩, .refl s⟩

/-- Sending or keeping its logprobs. -/
theorem reqLogprobs_core (s : Sys σ γ Sid) (m : LpMap) :
    SameCore r (reqLogprobs s r m).1 ∧ Mute s (reqLogprobs s r m).2 := by
  unfold reqLogprobs
  split
  · exact ⟨.refl r, mute_sendStream r s _⟩
  · exact ⟨⟨⟨rfl, rfl, rfl, rfl, rfl, id⟩, rfl, rfl, rfl⟩, .refl s⟩
  · exact ⟨.refl r, .refl s⟩

/-- Capping the thinking. -/
theorem maybeCapThinking_core (s : Sys σ γ Sid) :
    SameCore r (maybeCapThinking env s r).1 ∧ Mute s (maybeCapThinking env s r).2 := by
  unfold maybeCapThinking
  split
  · exact ⟨.refl r, .refl s⟩
  · split
    · exact ⟨.refl r, .refl s⟩
    · exact ⟨⟨⟨rfl, rfl, rfl, rfl, rfl, id⟩, rfl, rfl, rfl⟩, mute_sendStream r s _⟩

/-- A thinking token. -/
theorem reqThinkingEmit_core (s : Sys σ γ Sid) (tok : Token) :
    SameCore r (reqThinkingEmit env s r tok).1 ∧ Mute s (reqThinkingEmit env s r tok).2 := by
  unfold reqThinkingEmit failThinkingDisabled
  split
  · refine ⟨⟨⟨rfl, rfl, rfl, rfl, rfl, id⟩, rfl, rfl, rfl⟩, ?_⟩
    dsimp only
    split
    · exact (mute_emit s _).trans (mute_emit _ _)
    · exact .refl s
  · split
    · dsimp only
      split
      · exact ⟨⟨⟨rfl, rfl, rfl, rfl, rfl, id⟩, rfl, rfl, rfl⟩, .refl s⟩
      · have hcap := fun (r : Req Sid) s => maybeCapThinking_core env r s
        refine ⟨SameCore.trans ?_ (hcap _ _).1, (mute_sendStream _ s _).trans (hcap _ _).2⟩
        exact ⟨⟨rfl, rfl, rfl, rfl, rfl, id⟩, rfl, rfl, rfl⟩
    · exact ⟨.refl r, .refl s⟩

/-- The end of the thinking. -/
theorem reqThinkingEnd_core (s : Sys σ γ Sid) :
    SameCore r (reqThinkingEnd env s r).1 ∧ Mute s (reqThinkingEnd env s r).2 := by
  unfold reqThinkingEnd
  split
  · exact ⟨.refl r, .refl s⟩
  · exact ⟨⟨⟨rfl, rfl, rfl, rfl, rfl, id⟩, rfl, rfl, rfl⟩, mute_sendStream r s _⟩

/-! ### Results -/

/-- The tokens a result adds to the request's context: none for thinking that is not capped. -/
def resultTokens : Op → StepResult → List Token
  | .prefill slice, _                => slice
  | .decode _, .token tok _ _        => [tok]
  | .decode _, .thinkingToken tok    => if r.thinkingCapped then [tok] else []
  | .decode _, .thinkingEnd          => []
  | .decode _, .prefilled            => []

/-- What one result does to its request: the context grows by `tokens`, a media request gains
    nothing to prefill and is not saved, and a save is of the grown context. -/
structure Applies (tokens : List Token) (res : Req Sid × Sys σ γ Sid) : Prop where
  ident : SameIdent r res.1
  context : res.1.contextTokens = r.contextTokens ++ tokens
  cursor : r.coldSaveSegments = none → r.prefillCursor = none →
    res.1.coldSaveSegments = none ∧ res.1.prefillCursor = none
  fires : Fires env d r (r.contextTokens ++ tokens) res.2
  mediaMute : r.media.isSome → r.coldSaveSegments = none → Mute d.sys res.2

/-- A prefilled slice joins the context; the drained cursor may fire the cold save. -/
theorem prefilledResult_applies (slice : List Token) :
    Applies env d r slice (prefilledResult env d r slice) := by
  unfold prefilledResult
  dsimp only
  split
  case isTrue hdrained =>
    have hsame : SameIdent r { r with
        contextTokens := r.contextTokens ++ slice, prefillCursor := none, lastSaveAt := 0 } :=
      ⟨rfl, rfl, rfl, rfl, rfl, id⟩
    obtain ⟨hident, hcontext, hfires, hnone⟩ := maybeFireColdSave_fires env d { r with
      contextTokens := r.contextTokens ++ slice, prefillCursor := none, lastSaveAt := 0 }
    refine ⟨hsame.trans hident, hcontext, ?_, hfires.of_ident hsame rfl rfl, ?_⟩
    · intro hladder hcursor
      rw [hnone hladder]
      exact ⟨hladder, rfl⟩
    · intro _ hladder
      rw [hnone hladder]
      exact .refl _
  case isFalse hleft =>
    refine ⟨⟨rfl, rfl, rfl, rfl, rfl, id⟩, rfl, ?_, .of_eq rfl rfl, fun _ _ => .refl _⟩
    intro _ hcursor
    rw [hcursor] at hleft
    exact absurd List.drop_nil hleft

/-- A token joins the context; it may fire the continued save. -/
theorem tokenResult_applies (tok : Token) (eog : Bool) :
    Applies env d r [tok] (tokenResult env d r tok eog) := by
  obtain ⟨hcore, hmute⟩ := reqStreamEmit_core env (reqAppendToken r tok) d.sys tok
  have hsame : SameIdent r (reqAppendToken r tok) := ⟨rfl, rfl, rfl, rfl, rfl, id⟩
  have hident := hsame.trans hcore.toSameIdent
  unfold tokenResult
  dsimp only
  split
  · refine ⟨hident.trans ⟨rfl, rfl, rfl, rfl, rfl, id⟩, hcore.contextTokens, ?_,
      .of_eq hmute.ctx hmute.log, fun _ _ => hmute⟩
    intro hladder hcursor
    exact ⟨hcore.coldSaveSegments.trans hladder, hcore.prefillCursor.trans hcursor⟩
  · obtain ⟨hcore', hfires, hmedia⟩ := maybeFireContinuedForReq_fires env
      (withSys d (reqStreamEmit env d.sys (reqAppendToken r tok) tok).2)
      (reqStreamEmit env d.sys (reqAppendToken r tok) tok).1
    refine ⟨hident.trans hcore'.toSameIdent,
      hcore'.contextTokens.trans hcore.contextTokens, ?_, ?_, ?_⟩
    · intro hladder hcursor
      exact ⟨hcore'.coldSaveSegments.trans (hcore.coldSaveSegments.trans hladder),
        hcore'.prefillCursor.trans (hcore.prefillCursor.trans hcursor)⟩
    · have hcontext := hcore.contextTokens
      rw [hcontext] at hfires
      exact hfires.of_ident hident hmute.ctx hmute.log
    · intro hm _
      rw [hmedia (by rw [hident.media]; exact hm)]
      exact hmute

/-- A preparation that only sends messages does not change what a result does. -/
theorem Applies.of_core {tokens : List Token} {s : Sys σ γ Sid} {r' : Req Sid}
    {res : Req Sid × Sys σ γ Sid} (hcore : SameCore r r') (hmute : Mute d.sys s)
    (h : Applies env (withSys d s) r' tokens res) : Applies env d r tokens res where
  ident := hcore.toSameIdent.trans h.ident
  context := by rw [h.context, hcore.contextTokens]
  cursor := fun hladder hcursor => h.cursor (hcore.coldSaveSegments.trans hladder)
    (hcore.prefillCursor.trans hcursor)
  fires := by
    have hfires := h.fires
    rw [hcore.contextTokens] at hfires
    exact hfires.of_ident hcore.toSameIdent hmute.ctx hmute.log
  mediaMute := fun hm hladder =>
    hmute.trans (h.mediaMute (hcore.media ▸ hm) (hcore.coldSaveSegments.trans hladder))

/-- A result that only sends messages adds no token. -/
theorem Applies.of_mute {res : Req Sid × Sys σ γ Sid} (hcore : SameCore r res.1)
    (hmute : Mute d.sys res.2) : Applies env d r [] res where
  ident := hcore.toSameIdent
  context := by rw [hcore.contextTokens, List.append_nil]
  cursor := fun hladder hcursor =>
    ⟨hcore.coldSaveSegments.trans hladder, hcore.prefillCursor.trans hcursor⟩
  fires := .of_eq hmute.ctx hmute.log
  mediaMute := fun _ _ => hmute

/-- **One result.** -/
theorem stepResult_applies {op : Op} {res : StepResult} {out : Req Sid × Sys σ γ Sid}
    (h : stepResult env d r op res = some out) :
    Applies env d r (resultTokens r op res) out := by
  unfold stepResult at h
  split at h
  case h_1 slice =>
    cases h
    exact prefilledResult_applies env d r slice
  case h_2 ref tok eog lp =>
    cases h
    unfold tokenLpResult
    cases lp with
    | none => exact tokenResult_applies env d r tok eog
    | some p =>
      obtain ⟨hcore, hmute⟩ := reqLogprobs_core r d.sys ⟨tok, p.sampled, p.top⟩
      exact .of_core env d r hcore hmute (tokenResult_applies env _ _ tok eog)
  case h_3 ref tok =>
    show Applies env d r (if r.thinkingCapped then [tok] else []) out
    split at h
    case isTrue hcapped =>
      cases h
      rw [if_pos hcapped]
      exact tokenResult_applies env d r tok false
    case isFalse hcapped =>
      cases h
      rw [if_neg hcapped]
      obtain ⟨hcore, hmute⟩ := reqThinkingEmit_core env r d.sys tok
      exact .of_mute env d r hcore hmute
  case h_4 ref =>
    cases h
    obtain ⟨hcore, hmute⟩ := reqThinkingEnd_core env r d.sys
    exact .of_mute env d r hcore hmute
  case h_5 => exact nomatch h

end Erllama.Model
