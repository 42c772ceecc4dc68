import Erllama.Model.Terms

namespace Erllama.Model

/-!
# What a result sends

A result of a step sends a streaming caller events that do not end its stream, except a thinking
token on a request that did not ask for thinking, which surfaces an error and marks the request.

* `StreamEvent.isFinal` — the events that end a stream.
* `Sends` — the system after some events that do not.
* `Speaks`, `Progress` — what one result does to its request and to the outbox.
* `stepResult_progress` — every result; `stepResult_lifeStep` — which is a step of the life of its
  request.
-/

variable {σ γ Sid : Type}

/-- `{done, _}` and `{error, _}`. -/
def StreamEvent.isFinal : StreamEvent → Bool
  | .done _        => true
  | .error _       => true
  | .token _       => false
  | .tokenId _     => false
  | .thinking _    => false
  | .thinkingEnd _ => false
  | .logprobs _    => false

/-- The messages of some events of a stream; without a stream there are none. -/
def noticesTo (stream : Option (Pid × Ref)) (evs : List StreamEvent) : List Out :=
  match stream with
  | some (pid, ref) => evs.map (Out.send pid ref)
  | none            => []

/-- The notices of two lists of messages. -/
theorem noticesTo_append (stream : Option (Pid × Ref)) (evs evs' : List StreamEvent) :
    noticesTo stream (evs ++ evs') = noticesTo stream evs ++ noticesTo stream evs' := by
  cases stream with
  | none   => rfl
  | some p => exact List.map_append

/-- The system after some events of a stream, none of which ends it. -/
structure Sends (stream : Option (Pid × Ref)) (s s' : Sys σ γ Sid) : Prop where
  out : ∃ evs : List StreamEvent, (∀ ev ∈ evs, ev.isFinal = false) ∧
    s'.out = s.out ++ noticesTo stream evs
  ticks : s'.ticks = s.ticks
  nextRef : s'.nextRef = s.nextRef

/-- A function that sends nothing. -/
theorem SameMail.sends {s s' : Sys σ γ Sid} (h : SameMail s s') (stream : Option (Pid × Ref)) :
    Sends stream s s' := by
  refine ⟨⟨[], List.forall_mem_nil _, ?_⟩, h.ticks, h.nextRef⟩
  cases stream <;> simp [noticesTo, h.out]

/-- Nothing was sent. -/
theorem Sends.refl (stream : Option (Pid × Ref)) (s : Sys σ γ Sid) : Sends stream s s :=
  (SameMail.refl s).sends stream

/-- One function after another. -/
theorem Sends.trans {stream : Option (Pid × Ref)} {s s' s'' : Sys σ γ Sid}
    (h : Sends stream s s') (h' : Sends stream s' s'') : Sends stream s s'' := by
  obtain ⟨⟨evs, hevs, hout⟩, hticks, href⟩ := h
  obtain ⟨⟨evs', hevs', hout'⟩, hticks', href'⟩ := h'
  refine ⟨⟨evs ++ evs', ?_, ?_⟩, hticks'.trans hticks, href'.trans href⟩
  · intro ev hev
    exact (List.mem_append.mp hev).elim (hevs ev) (hevs' ev)
  · rw [hout', hout, noticesTo_append, List.append_assoc]

variable (env : Env σ γ) (d : Data σ γ Sid) (s : Sys σ γ Sid) (r : Req Sid)

/-! ### Streaming -/

/-- A message that does not end its stream. -/
theorem sendStream_sends (ev : StreamEvent) (hev : ev.isFinal = false) :
    Sends r.stream s (sendStream s r ev) := by
  unfold sendStream
  split
  case h_1 pid ref hstream =>
    refine ⟨⟨[ev], ?_, ?_⟩, rfl, rfl⟩
    · simpa using hev
    · rw [hstream]
      rfl
  case h_2 hstream => exact .refl _ s

/-- A token to the stream. -/
theorem emitToken_sends (text : Bytes) (tok : Token) :
    Sends r.stream s (emitToken s r text tok) := by
  unfold emitToken
  dsimp only
  split
  · exact sendStream_sends s r _ rfl
  · exact (sendStream_sends s r _ rfl).trans (sendStream_sends _ r _ rfl)

/-- What is streamed of a token. -/
theorem reqStreamEmit_sends (tok : Token) :
    SameStanding r (reqStreamEmit env s r tok).1 ∧
      Sends r.stream s (reqStreamEmit env s r tok).2 := by
  unfold reqStreamEmit
  dsimp only
  split
  · exact ⟨.refl r, emitToken_sends s r _ tok⟩
  · split
    · exact ⟨⟨rfl, rfl⟩, emitToken_sends s r _ tok⟩
    · split
      · exact ⟨⟨rfl, rfl⟩, emitToken_sends s r _ tok⟩
      · exact ⟨⟨rfl, rfl⟩, .refl _ s⟩

/-- Its logprobs. -/
theorem reqLogprobs_sends (m : LpMap) :
    SameStanding r (reqLogprobs s r m).1 ∧ Sends r.stream s (reqLogprobs s r m).2 := by
  unfold reqLogprobs
  split
  · exact ⟨.refl r, sendStream_sends s r _ rfl⟩
  · exact ⟨⟨rfl, rfl⟩, .refl _ s⟩
  · exact ⟨.refl r, .refl _ s⟩

/-- The notice that the thinking is capped. -/
theorem maybeCapThinking_sends :
    SameStanding r (maybeCapThinking env s r).1 ∧
      Sends r.stream s (maybeCapThinking env s r).2 := by
  unfold maybeCapThinking
  split
  · exact ⟨.refl r, .refl _ s⟩
  · split
    · exact ⟨.refl r, .refl _ s⟩
    · exact ⟨⟨rfl, rfl⟩, sendStream_sends s r _ rfl⟩

/-- The notice that the thinking is over. -/
theorem reqThinkingEnd_sends :
    SameStanding r (reqThinkingEnd env s r).1 ∧ Sends r.stream s (reqThinkingEnd env s r).2 := by
  unfold reqThinkingEnd
  split
  · exact ⟨.refl r, .refl _ s⟩
  · exact ⟨⟨rfl, rfl⟩, sendStream_sends s r _ rfl⟩

/-! ### Results -/

/-- What most results do: they say something, and may end the request. -/
structure Speaks (r : Req Sid) (s : Sys σ γ Sid) (res : Req Sid × Sys σ γ Sid) : Prop where
  terms : res.1.terms = r.terms
  flag : res.1.thinkingNotEnabled = r.thinkingNotEnabled
  mark : r.finishing = true → res.1.finishing = true
  sends : Sends r.stream s res.2

/-- A record with the same standing that only sent notices. -/
theorem SameStanding.speaks {r : Req Sid} {s : Sys σ γ Sid} {res : Req Sid × Sys σ γ Sid}
    (h : SameStanding r res.1) (hsends : Sends r.stream s res.2) : Speaks r s res :=
  ⟨h.terms, h.thinkingNotEnabled, fun hfin => h.finishing.trans hfin, hsends⟩

/-- What was said before the result is said by the whole. -/
theorem Speaks.after {r r' : Req Sid} {s s' : Sys σ γ Sid} {res : Req Sid × Sys σ γ Sid}
    (hr : SameStanding r r') (hs : Sends r.stream s s') (h : Speaks r' s' res) :
    Speaks r s res := by
  obtain ⟨hterms, hflag, hmark, hsends⟩ := h
  rw [stream_of_terms hr.terms] at hsends
  exact ⟨hterms.trans hr.terms, hflag.trans hr.thinkingNotEnabled,
    fun hfin => hmark (hr.finishing.trans hfin), hs.trans hsends⟩

/-- A prefilled slice. -/
theorem prefilledResult_speaks (slice : List Token) :
    Speaks r d.sys (prefilledResult env d r slice) := by
  unfold prefilledResult
  dsimp only
  split
  · obtain ⟨hmail, hstanding⟩ := maybeFireColdSave_mail env d { r with
      contextTokens := r.contextTokens ++ slice, prefillCursor := none, lastSaveAt := 0 }
    exact SameStanding.speaks ⟨hstanding.terms, hstanding.marks⟩ (hmail.sends _)
  · exact SameStanding.speaks ⟨rfl, rfl⟩ (.refl _ _)

/-- A token. -/
theorem tokenResult_speaks (tok : Token) (eog : Bool) :
    Speaks r d.sys (tokenResult env d r tok eog) := by
  obtain ⟨hemit, hsends⟩ := reqStreamEmit_sends env d.sys (reqAppendToken r tok) tok
  have hstanding : SameStanding r (reqStreamEmit env d.sys (reqAppendToken r tok) tok).1 :=
    ⟨hemit.terms, hemit.marks⟩
  unfold tokenResult
  dsimp only
  split
  · -- the request is done: only its mark changes
    exact ⟨hemit.terms, hemit.thinkingNotEnabled, fun _ => rfl, hsends⟩
  · obtain ⟨hmail, hsame⟩ := maybeFireContinuedForReq_mail env
      (withSys d (reqStreamEmit env d.sys (reqAppendToken r tok) tok).2)
      (reqStreamEmit env d.sys (reqAppendToken r tok) tok).1
    have hall : SameStanding r _ := hstanding.trans hsame
    exact hall.speaks (hsends.trans (hmail.sends _))

/-- A token with its logprobs. -/
theorem tokenLpResult_speaks (tok : Token) (eog : Bool) (lp : Option LpPayload) :
    Speaks r d.sys (tokenLpResult env d r tok eog lp) := by
  unfold tokenLpResult
  cases lp with
  | none => exact tokenResult_speaks env d r tok eog
  | some p =>
    obtain ⟨hstanding, hsends⟩ := reqLogprobs_sends d.sys r ⟨tok, p.sampled, p.top⟩
    exact .after hstanding hsends (tokenResult_speaks env (withSys d _) _ tok eog)

/-- What one result does: it sends something, or it surfaces the thinking error. -/
inductive Progress (r : Req Sid) (s : Sys σ γ Sid) (res : Req Sid × Sys σ γ Sid) : Prop
  | sends (h : Speaks r s res)
  | refuses (terms : res.1.terms = r.terms) (flag : res.1.thinkingNotEnabled = true)
      (mark : res.1.finishing = true) (eq : res.2 = failThinkingDisabled s r)

/-- A thinking token is a notice, or the request is refused. -/
theorem reqThinkingEmit_progress (tok : Token) :
    Progress r s (reqThinkingEmit env s r tok) := by
  unfold reqThinkingEmit
  split
  · exact .refuses rfl rfl rfl rfl
  · left
    split
    · dsimp only
      split
      · exact SameStanding.speaks ⟨rfl, rfl⟩ (.refl _ s)
      · have hsent := sendStream_sends s
          { r with thinkingBytes := r.thinkingBytes ++ env.be.detokenize [tok] }
          (.thinking (env.be.detokenize [tok])) rfl
        obtain ⟨hstanding, hsends⟩ := maybeCapThinking_sends env
          (sendStream s { r with thinkingBytes := r.thinkingBytes ++ env.be.detokenize [tok] }
            (.thinking (env.be.detokenize [tok])))
          { r with
            thinkingBytes := r.thinkingBytes ++ env.be.detokenize [tok]
            thinkingCount := r.thinkingCount + 1 }
        exact SameStanding.speaks ⟨hstanding.terms, hstanding.marks⟩ (hsent.trans hsends)
    · exact (SameStanding.refl r).speaks (.refl _ s)

/-- **Every result** sends something or surfaces the thinking error. -/
theorem stepResult_progress {op : Op} {res : StepResult} {out : Req Sid × Sys σ γ Sid}
    (h : stepResult env d r op res = some out) : Progress r d.sys out := by
  unfold stepResult at h
  split at h
  case h_1 slice =>
    cases h
    exact .sends (prefilledResult_speaks env d r slice)
  case h_2 ref tok eog lp =>
    cases h
    exact .sends (tokenLpResult_speaks env d r tok eog lp)
  case h_3 ref tok =>
    split at h
    · cases h
      exact .sends (tokenResult_speaks env d r tok false)
    · cases h
      exact reqThinkingEmit_progress env d.sys r tok
  case h_4 ref =>
    cases h
    obtain ⟨hstanding, hsends⟩ := reqThinkingEnd_sends env d.sys r
    exact .sends (hstanding.speaks hsends)
  case h_5 => exact nomatch h

/-! ### A result in the life of its request -/

variable {env} in
/-- Every result of a row is a step of the life, with what it sent and saved. -/
theorem stepResult_lifeStep {d : Data σ γ Sid} {r : Req Sid} {op : Op} {res : StepResult}
    {after : Req Sid × Sys σ γ Sid} (hfin : r.finishing = false) (hrow : RowFor r op)
    (h : stepResult env d r op res = some after) :
    ∃ out saves, after.2.out = d.sys.out ++ out ∧ after.2.log = d.sys.log ++ saves.map .save ∧
      LifeStep env r ⟨[(op, res)], out, saves⟩ after.1 := by
  have hout : ∃ out, after.2.out = d.sys.out ++ out := by
    cases stepResult_progress env d r h with
    | sends hspeaks =>
      obtain ⟨evs, -, hout⟩ := hspeaks.sends.out
      exact ⟨_, hout⟩
    | refuses _ _ _ heq =>
      rw [heq]
      unfold failThinkingDisabled
      split
      · exact ⟨[_, _], List.append_assoc d.sys.out [_] [_]⟩
      · exact ⟨[], (List.append_nil _).symm⟩
  have hlog : ∃ saves : List (SaveCall σ Sid), after.2.log = d.sys.log ++ saves.map .save := by
    rcases (stepResult_applies env d r h).fires.log with heq | ⟨c, -, heq⟩
    · exact ⟨[], by rw [heq, List.map_nil, List.append_nil]⟩
    · exact ⟨[c], heq⟩
  obtain ⟨out, hout⟩ := hout
  obtain ⟨saves, hlog⟩ := hlog
  exact ⟨out, saves, hout, hlog, .result hfin hrow h hout hlog⟩

end Erllama.Model
