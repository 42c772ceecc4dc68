import Erllama.Native.Context

namespace Erllama.Native

/-!
# Decode paths (`erllama_nif_decode.c`)

* `nifStep` — a tick: every decode row samples its sequence's row of the previous batch, then
  one batch pushes all slices and samples.
* `specStep` — a speculative tick: a draft is decoded in one batch and verified row by row.
* `nifPrefill`, `nifEmbed`, `forwardWithArgmax` — the single-sequence calls, which decode into
  sequence 0 and leave its tracking alone.
* `mediaPrefill` — a prompt with media.
-/

variable {Row Smp : Type} (p : Params Row Smp)

/-! ### A tick -/

/-- An op after the pre-sampling: the tokens it pushes, and its answer. -/
structure Planned where
  seq : SeqId
  tokens : List Token
  result : StepResult
deriving DecidableEq

/-- Answer `no_logits`. -/
def refuse {α : Type} (q : SeqId) : Nif Smp α := do
  modify fun c => { c with sampled := c.sampled ++ [Sampled.refused q] }
  throw .noLogits

/-- Pre-sample one op: a decode row reads its next token from the previous tick's logits. -/
def preSample (q : SeqId) : Op → Nif Smp Planned
  | .prefill slice => return ⟨q, slice, .prefilled⟩
  | .decode s => do
    let c ← get
    let li := (c.perSeq q).lastLogitsIdx
    -- there are no logits of this sequence to sample from
    if li ≠ logitsLast ∧ li < 0 then refuse q
    else
      let (tok, row) ← samplerSample p q s (if li = logitsLast then -1 else li)
      let nProbs := ((c.chains s).map Chain.nProbs).getD 0
      -- logprobs are read from the row that was sampled
      let lp := if 0 < nProbs then p.topLogprobs (p.logits row.cells) nProbs tok else none
      return ⟨q, [tok], .token tok (p.isEog tok) lp⟩

/-- Pre-sample every op, in order. -/
def preSampleAll : List (SeqId × Op) → Nif Smp (List Planned)
  | []             => return []
  | (q, op) :: ops => do
    let planned ← preSample p q op
    let rest ← preSampleAll ops
    return planned :: rest

/-- The rows of a slice, with logits on the last one only. -/
def sliceRows (q : SeqId) (start : Nat) : List Token → List BatchRow
  | []          => []
  | tok :: toks => ⟨tok, start, q, toks = []⟩ :: sliceRows q (start + 1) toks

/-- The batch of a tick. -/
def stepBatch (c : Ctx Smp) (ops : List Planned) : List BatchRow :=
  ops.flatMap fun op => sliceRows op.seq (c.perSeq op.seq).nextPos op.tokens

/-- Advance every sequence of the batch: its next position, and its row. -/
def commitRows : Nat → List Planned → Ctx Smp → Ctx Smp
  | _, [], c => c
  | row, op :: ops, c =>
    commitRows (row + op.tokens.length) ops
      (track c op.seq
        ⟨(row + op.tokens.length : Nat) - 1, (c.perSeq op.seq).nextPos + op.tokens.length⟩)

/-- An op the call accepts. -/
def wellFormedOp (op : SeqId × Op) : Bool :=
  match op.2 with
  | .prefill slice => slice ≠ []
  | .decode _      => true

/-- `nif_step`. -/
def nifStep (ops : List (SeqId × Op)) : Nif Smp (List (SeqId × StepResult)) := do
  if ops = [] then return []
  else if ops.all wellFormedOp = false then throw .badarg
  else
    -- every decode row is sampled before the batch is built
    let planned ← preSampleAll p ops
    -- the batch has a fixed capacity
    if p.nBatch < (planned.map fun op => op.tokens.length).sum then throw .batchOverflow
    else
      let c ← get
      modify fun c => { c with decodeReady := false }
      llamaDecode (stepBatch c planned)
      modify fun c => { commitRows 0 planned c with decodeReady := true }
      return planned.map fun op => (op.seq, op.result)

/-! ### A speculative tick -/

/-- `spec_fail`: a clean prefill must come before any further sampling. -/
def specFailing {α : Type} (q : SeqId) (x : Nif Smp α) : Nif Smp α :=
  tryCatch x fun e => do
    modify fun c =>
      { track c q ⟨noLogitsIdx, (c.perSeq q).nextPos⟩ with decodeReady := false }
    throw e

/-- `spec_decode_single`. -/
def specDecodeSingle (tok : Token) (pos : Nat) (q : SeqId) : Nif Smp Unit :=
  llamaDecode [⟨tok, pos, q, true⟩]

/-- Where the verification of a draft ended. -/
inductive Verdict where
  | mismatch (i : Nat) (correction : Token)
  | eog (i : Nat)
  | matched
deriving DecidableEq

/-- Verify the draft from its row `i` on, by sampling at the row before. -/
def verifyRows (q : SeqId) (s : Ref) : Nat → List Token → Nif Smp Verdict
  | _, [] => return .matched
  | i, tok :: draft => do
    let (si, _) ← samplerSample p q s ((i : Int) - 1)
    if si ≠ tok then return .mismatch i si
    else if p.isEog tok then return .eog i
    else verifyRows q s (i + 1) draft

/-- Drop the cells of a sequence from a position on. -/
def specRemove (q : SeqId) (pos : Nat) : Nif Smp Unit := do
  let removed ← memorySeqRm p q pos
  if removed then return () else throw (.decode .decodeFailed)

/-- The sequence goes on after position `pos`, from this row of the last batch. -/
def specReady (q : SeqId) (row : Nat) (pos : Nat) : Nif Smp Unit :=
  modify fun c => { track c q ⟨row, pos⟩ with decodeReady := true }

/-- Decode the token that follows the accepted part of a draft. -/
def specTail (q : SeqId) (pos : Nat) (accepted : List Token) (tok : Token) :
    Nif Smp SpecResult := do
  specDecodeSingle tok pos q
  specReady q 0 (pos + 1)
  return ⟨accepted ++ [tok], p.isEog tok, accepted.length⟩

/-- The batch of a draft, with logits on every row. -/
def draftRows (q : SeqId) (start : Nat) : List Token → List BatchRow
  | []            => []
  | tok :: draft => ⟨tok, start, q, true⟩ :: draftRows q (start + 1) draft

/-- A draft whose first token was sampled: decode it all, keep what the sampler agrees with. -/
def specHit (q : SeqId) (s : Ref) (nextPos : Nat) (draft : List Token) : Nif Smp SpecResult := do
  llamaDecode (draftRows q nextPos draft)
  match ← verifyRows p q s 1 draft.tail with
  | .eog i =>
    -- the rows behind the end of generation are dropped
    if i + 1 < draft.length then specRemove p q (nextPos + i + 1)
    specReady q i (nextPos + i + 1)
    return ⟨draft.take (i + 1), true, i + 1⟩
  | .mismatch i correction =>
    -- the rejected rows are dropped, and the sampler's token is decoded in their place
    specRemove p q (nextPos + i)
    specTail p q (nextPos + i) (draft.take i) correction
  | .matched =>
    -- all rows were accepted: one more token comes from the last one
    let (bonus, _) ← samplerSample p q s ((draft.length : Int) - 1)
    specTail p q (nextPos + draft.length) draft bonus

/-- The checks of a speculative call on its draft. -/
def checkDraft (draft : List Token) : Option NifError :=
  if p.nVocab = 0 then some .exception
  else if draft.any (p.nVocab ≤ ·) then some .invalidToken
  else if p.nBatch = 0 ∨ p.nBatch < draft.length then some .batchOverflow
  else none

/-- The part of a speculative call that samples and decodes, from the row `li`. -/
def specRun (q : SeqId) (s : Ref) (li : Int) (nextPos : Nat) (draft : List Token) :
    Nif Smp SpecResult := do
  let (s0, _) ← samplerSample p q s li
  if draft.head? ≠ some s0 ∨ p.isEog s0 then
    -- a miss, or the end: commit the sample alone, like a decode op
    specDecodeSingle s0 nextPos q
    specReady q 0 (nextPos + 1)
    return ⟨[s0], p.isEog s0, if draft.head? = some s0 then 1 else 0⟩
  else specHit p q s nextPos draft

/-- `nif_spec_step`.  Sampling needs live logits in the whole context, not only in the
    sequence. -/
def specStep (q : SeqId) (s : Ref) (draft : List Token) : Nif Smp SpecResult := do
  let c ← get
  let li := (c.perSeq q).lastLogitsIdx
  if draft = [] then throw .badarg
  -- no logits to sample the first token from
  else if c.decodeReady = false ∨ li < 0 then refuse q
  else
    match checkDraft p draft, c.chains s with
    | some e, _       => throw e
    | none, none      => throw .released
    | none, some chain =>
      -- a chain that reports logprobs is not speculated with
      if 0 < chain.nProbs then throw .badarg
      else specFailing q (specRun p q s li (c.perSeq q).nextPos draft)

/-! ### The single-sequence calls -/

/-- The checks that precede a single-sequence decode. -/
def checkTokens (tokens : List Token) : Option NifError :=
  if p.nVocab = 0 then some .exception
  else if tokens.any (p.nVocab ≤ ·) then some .invalidToken
  else if p.nCtx = 0 ∨ p.nBatch = 0 then some .exception
  else if p.nCtx ≤ tokens.length then some .contextOverflow
  else if p.nBatch < tokens.length then some .batchOverflow
  else none

/-- Decode into sequence 0 after its last cell (`llama_batch_get_one` has the library find the
    positions, and asks for the logits of the last token). -/
def decodeGetOne (tokens : List Token) : Nif Smp Unit := do
  let c ← get
  llamaDecode (sliceRows 0 (c.kv 0).length tokens)

/-- `nif_prefill`. -/
def nifPrefill (tokens : List Token) : Nif Smp Unit := do
  match tokens, checkTokens p tokens with
  | [], _ => return ()
  | _, some e => throw e
  | _, none =>
    decodeGetOne tokens
    modify fun c => { c with decodeReady := true }

/-- `nif_embed`: the cells stay in sequence 0. -/
def nifEmbed (tokens : List Token) : Nif Smp (List ℚ) := do
  match tokens, checkTokens p tokens with
  | [], _ => throw .invalidToken
  | _, some e => throw e
  | _, none =>
    -- `llama_batch_get_one`: sequence 0, behind what it holds
    decodeGetOne tokens
    modify fun c => { c with decodeReady := false }
    let c ← get
    match p.embedding (c.kv 0) with
    | some v => return v
    | none   => throw .embedFailed

/-- `nif_forward_with_argmax`: the prediction after every position, `none` for an end of
    generation.  A failed decode is not classified. -/
def forwardWithArgmax (tokens : List Token) : Nif Smp (List (Option Token)) := do
  match tokens, checkTokens p tokens with
  | [], _ => return []
  | _, some e => throw e
  | _, none =>
    let c ← get
    -- the rows go behind what seq 0 holds
    tryCatch (llamaDecode (draftRows 0 (c.kv 0).length tokens)) fun _ =>
      throw (.decode .decodeFailed)
    modify fun c => { c with decodeReady := true }
    let c ← get
    return c.rows.map fun row =>
      (row.map fun r => p.argmax (p.logits r.cells)).filter fun tok => !p.isEog tok

/-- `nif_media_prefill`: chunks are decoded one after the other; the last row is the one to
    sample. -/
def mediaPrefill (prompt : Bytes) (items : List (MediaType × Bytes)) (q : SeqId)
    (addSpecial : Bool) : Nif Smp (Nat × Nat) := do
  match p.mtmd prompt items addSpecial with
  -- no logits are left to sample from: a clean prefill has to come first
  | .error e =>
    modify fun c =>
      { track c q ⟨noLogitsIdx, (c.perSeq q).nextPos⟩ with decodeReady := false }
    throw (.media e)
  | .ok (nTokens, cells) =>
    let c ← get
    specFailing q (llamaDecode (sliceRows q (c.perSeq q).nextPos cells))
    modify fun c =>
      { track c q ⟨logitsLast, (c.perSeq q).nextPos + cells.length⟩ with decodeReady := true }
    return (nTokens, cells.length)

end Erllama.Native
