import Erllama.Model.Saves

namespace Erllama.Model

/-!
# Applying step results (`erllama_model`, `apply_step_results/2`)

The backend answers one result for each row of the step.  A prefill result advances the
cursor; a decode result appends the sampled token, streams it, and fires the saves that are
due; thinking results go to a content track of their own.

* `reqStreamEmit` — deliver a token, scanning for stop strings.
* `reqThinkingEmit`, `reqThinkingEnd` — the thinking track and its budget.
* `stepResult` — one result; `applyStepResults` — all of a step.
-/

variable {σ γ Sid : Type} (env : Env σ γ)

/-! ### Streaming -/

/-- Send an event to a streaming caller; other requests have none to send to. -/
def sendStream (s : Sys σ γ Sid) (r : Req Sid) (ev : StreamEvent) : Sys σ γ Sid :=
  match r.stream with
  | some (pid, ref) => s.emit (.send pid ref ev)
  | none            => s

/-- `maybe_emit_stream/3`: the text, unless it is empty, then the token id. -/
def emitToken (s : Sys σ γ Sid) (r : Req Sid) (text : Bytes) (tok : Token) : Sys σ γ Sid :=
  let s := if text = [] then s else sendStream s r (.token text)
  sendStream s r (.tokenId tok)

/-- The length of the longest stop string at the head of the buffer, zero for none. -/
def stopLenAt (stops : List Bytes) (buf : Bytes) : Nat :=
  ((stops.filter fun stop => stop <+: buf).map List.length).foldl max 0

/-- `binary:match/2` with a compiled pattern: the first position, and there the longest. -/
def binaryMatch (stops : List Bytes) : Bytes → Option (Nat × Nat)
  | []       => none
  | b :: buf =>
    if stopLenAt stops (b :: buf) = 0 then
      (binaryMatch stops buf).map fun found => (found.1 + 1, found.2)
    else some (0, stopLenAt stops (b :: buf))

/-- `req_stream_emit/3`.  With stop strings the tail that may be the start of a match is held
    back; without them only streaming requests have anything to do. -/
def reqStreamEmit (s : Sys σ γ Sid) (r : Req Sid) (tok : Token) : Req Sid × Sys σ γ Sid :=
  let chunk := env.be.detokenize [tok]
  -- without stop strings every chunk goes out at once
  if r.stopSequences = [] then (r, emitToken s r chunk tok)
  else
    let buf := r.pendingText ++ chunk
    match binaryMatch r.stopSequences buf with
    -- what is before the match is sent; the rest is dropped
    | some (pos, len) =>
      ({ r with pendingText := [], matchedStop := some ((buf.drop pos).take len) },
        emitToken s r (buf.take pos) tok)
    | none =>
      -- all but a tail that may start a match is sent
      if r.mode = .streaming then
        let emitN := buf.length - (r.stopMaxLen - 1)
        ({ r with pendingText := buf.drop emitN }, emitToken s r (buf.take emitN) tok)
      else ({ r with pendingText := buf }, s)

/-- `req_logprobs/2`: an event for streaming callers, the accumulator otherwise. -/
def reqLogprobs (s : Sys σ γ Sid) (r : Req Sid) (m : LpMap) : Req Sid × Sys σ γ Sid :=
  match r.mode with
  | .streaming   => (r, sendStream s r (.logprobs m))
  | .standard    => ({ r with logprobsAcc := m :: r.logprobsAcc }, s)
  | .prefillOnly => (r, s)

/-! ### Thinking -/

/-- `thinking_signature/2`. -/
def thinkingSignature (s : Sys σ γ Sid) (r : Req Sid) : Bytes :=
  match env.be.thinkingSignature with
  | some signature => signature s.ctx r.seqId r.thinkingBytes
  | none           => []

/-- Close the thinking block for the caller. -/
def emitThinkingEnd (s : Sys σ γ Sid) (r : Req Sid) : Sys σ γ Sid :=
  sendStream s r (.thinkingEnd (thinkingSignature env s r))

/-- `maybe_cap_thinking/2`: at the budget, synthesise the close. -/
def maybeCapThinking (s : Sys σ γ Sid) (r : Req Sid) : Req Sid × Sys σ γ Sid :=
  match r.thinkingBudget with
  | none => (r, s)
  | some budget =>
    if r.thinkingCount < budget then (r, s)
    else ({ r with thinkingBytes := [], thinkingCapped := true }, emitThinkingEnd env s r)

/-- `fail_thinking_disabled/1`. -/
def failThinkingDisabled (s : Sys σ γ Sid) (r : Req Sid) : Sys σ γ Sid :=
  match r.stream with
  | some (pid, ref) => (s.emit (.unregister ref)).emit (.send pid ref (.error .thinkingNotEnabled))
  | none            => s

/-- `req_thinking_emit/3`: a thinking token on a request that did not ask for thinking fails it;
    an empty rendering does not consume the budget. -/
def reqThinkingEmit (s : Sys σ γ Sid) (r : Req Sid) (tok : Token) : Req Sid × Sys σ γ Sid :=
  -- the request did not ask for thinking: it ends with an error
  if r.thinking = false then
    ({ r with finishing := true, thinkingNotEnabled := true }, failThinkingDisabled s r)
  -- only streams are sent what is thought
  else if r.stream.isSome then
    let text := env.be.detokenize [tok]
    let r := { r with thinkingBytes := r.thinkingBytes ++ text }
    if text = [] then (r, s)
    else
      maybeCapThinking env (sendStream s r (.thinking text))
        { r with thinkingCount := r.thinkingCount + 1 }
  else (r, s)

/-- `req_thinking_end/2`: the budget may have closed the block already. -/
def reqThinkingEnd (s : Sys σ γ Sid) (r : Req Sid) : Req Sid × Sys σ γ Sid :=
  if r.thinkingCapped then (r, s)
  else ({ r with thinkingBytes := [] }, emitThinkingEnd env s r)

/-! ### Results -/

section Results

variable (d : Data σ γ Sid) (r : Req Sid)

/-- The `prefilled` clause: the slice is in the KV.  A save may fire only when the cursor
    drains. -/
def prefilledResult (slice : List Token) : Req Sid × Sys σ γ Sid :=
  let remaining := (r.prefillCursor.getD []).drop slice.length
  let r := { r with contextTokens := r.contextTokens ++ slice }
  if remaining = [] then
    maybeFireColdSave env d { r with prefillCursor := none, lastSaveAt := 0 }
  else ({ r with prefillCursor := some remaining }, d.sys)

/-- `req_append_token/2`. -/
def reqAppendToken (tok : Token) : Req Sid :=
  { r with contextTokens := r.contextTokens ++ [tok], generated := r.generated ++ [tok] }

/-- The `token` clause: append, stream, and either finish or save if one is due. -/
def tokenResult (tok : Token) (eog : Bool) : Req Sid × Sys σ γ Sid :=
  let emitted := reqStreamEmit env d.sys (reqAppendToken r tok) tok
  let r := emitted.1
  let d := withSys d emitted.2
  if eog ∨ r.responseTarget ≤ r.generated.length ∨ r.matchedStop.isSome then
    ({ r with finishing := true }, d.sys)
  else maybeFireContinuedForReq env d r

/-- The `token` clause with a logprobs payload, which is delivered first. -/
def tokenLpResult (tok : Token) (eog : Bool) (lp : Option LpPayload) :
    Req Sid × Sys σ γ Sid :=
  match lp with
  | none => tokenResult env d r tok eog
  | some p =>
    let delivered := reqLogprobs d.sys r ⟨tok, p.sampled, p.top⟩
    tokenResult env (withSys d delivered.2) delivered.1 tok eog

/-- One clause of `apply_step_results/2`: `none` where no clause matches.  Once the thinking
    budget is spent, thinking tokens take the normal path. -/
def stepResult (op : Op) (res : StepResult) : Option (Req Sid × Sys σ γ Sid) :=
  match op, res with
  | .prefill slice, .prefilled       => some (prefilledResult env d r slice)
  | .decode _, .token tok eog lp     => some (tokenLpResult env d r tok eog lp)
  | .decode _, .thinkingToken tok    =>
    if r.thinkingCapped then some (tokenResult env d r tok false)
    else some (reqThinkingEmit env d.sys r tok)
  | .decode _, .thinkingEnd          => some (reqThinkingEnd env d.sys r)
  | _, _                             => none

end Results

/-- A row of a step with its result. -/
abbrev ResultPair := (SeqId × Op) × StepResult

/-- `apply_step_results/2`: whether every result had a clause, and the state it ended in. -/
def applyStepResults : List ResultPair → Data σ γ Sid → Bool × Data σ γ Sid
  | [], d => (true, d)
  | ((q, op), res) :: pairs, d =>
    match d.reqTable.lookup q with
    | none => (false, d)
    | some r =>
      match stepResult env d r op res with
      | none         => (false, d)
      | some (r', s) => applyStepResults pairs (putReq (withSys d s) r')

end Erllama.Model
