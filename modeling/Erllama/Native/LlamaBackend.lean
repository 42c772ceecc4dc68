import Erllama.Native.Decode

namespace Erllama.Native

/-!
# The llama.cpp backend (`erllama_model_llama`)

The callbacks of the model process over the native calls.  What the vocabulary, the speculator
and the adapters answer does not touch the cells and the logits of the context; these parts are
left open, each with a state of its own.

* `Parts` — the parts around the context.
* `Llama` — `#s{}`: the context and the state of the parts.
* `verify` — the forward pass over seq 0, and what it does to restore the seq.
* `llamaBackend` — the callbacks.
-/

/-- The parts of the library around the context. -/
structure Parts (ε : Type) where
  tokenize : Bytes → List Token
  detokenize : List Token → Bytes
  thinkingSignature : Bytes → Bytes
  /-- The tokens of the configured thinking markers. -/
  thinkingStart : List Token
  thinkingEnd : List Token
  /-- The projector's modalities, if one is open. -/
  mediaCaps : Option MediaCaps
  specNew : ε → SpecCfg → Except Reason Ref × ε
  specBegin : ε → Ref → SeqId → List Token → Except Reason Unit × ε
  specDraft : ε → Ref → SeqId → Token → List Token → Except Reason (List Token) × ε
  specAccept : ε → Ref → SeqId → Nat → ε
  specFree : ε → Ref → ε
  adapterLoad : ε → Path → Bytes → Except Reason Ref × ε
  /-- Freeing an adapter again is no error. -/
  adapterFree : ε → Ref → Except Reason Unit × ε
  setAdapters : ε → List (Ref × ℚ) → Except Reason Unit × ε
  /-- Whether a context can be opened. -/
  newContext : ε → Except Reason Unit × ε

/-- `#s{}`. -/
structure Llama (Smp ε : Type) where
  ctx : Ctx Smp
  parts : ε

/-- The reason of an error: only those of a decode are looked at. -/
def NifError.reason : NifError → Reason
  | .decode r        => r
  | .media r         => r
  | .badarg          => .other 0
  | .released        => .other 1
  | .noLogits        => .other 2
  | .exception       => .other 3
  | .batchOverflow   => .other 4
  | .contextOverflow => .other 5
  | .invalidToken    => .other 6
  | .unpackFailed    => .other 7
  | .seqCpFailed     => .other 8
  | .embedFailed     => .other 9
  | .crash           => .other 10

/-- `empty_prefix`. -/
def emptyPrefix : Reason := .other 11

/-- `no_mmproj`. -/
def noMmproj : Reason := .other 12

variable {Row Smp ε : Type}

/-- A call on the context. -/
def onCtx {α : Type} (x : Nif Smp α) (s : Llama Smp ε) : Except Reason α × Llama Smp ε :=
  ((x.on s.ctx).1.mapError NifError.reason, { s with ctx := (x.on s.ctx).2 })

/-- A call on the parts. -/
def onParts {α : Type} (f : ε → α × ε) (s : Llama Smp ε) : α × Llama Smp ε :=
  ((f s.parts).1, { s with parts := (f s.parts).2 })

/-! ### Thinking markers -/

/-- `all_markers_empty/1`. -/
def allMarkersEmpty (parts : Parts ε) : Bool := parts.thinkingStart = [] ∧ parts.thinkingEnd = []

/-- `map_marker/2`: a token with logprobs is another tuple, which is left as it is. -/
def mapMarker (parts : Parts ε) : SeqId × StepResult → SeqId × StepResult
  | (q, .token tok eog none) =>
    if tok ∈ parts.thinkingStart then (q, .thinkingToken tok)
    else if tok ∈ parts.thinkingEnd then (q, .thinkingEnd)
    else (q, .token tok eog none)
  | res => res

/-! ### Verification -/

section Verify

variable (p : Params Row Smp)

/-- `count_accepted/4`: the candidates that the predictions agree with. -/
def countAccepted : List Token → List (Option Token) → Nat
  | cand :: cands, some tok :: preds => if tok = cand then countAccepted cands preds + 1 else 0
  | _, _ => 0

/-- `restore_after_verify/3`: neither call's result is looked at. -/
def restoreAfterVerify (c : Ctx Smp) (len : Nat) (last : Token) : Ctx Smp :=
  ((nifPrefill p [last]).on ((kvSeqRm p 0 len).on c).2).2

/-- `verify/4`. -/
def verify (c : Ctx Smp) (pre cands : List Token) (k : Nat) :
    Except Reason (Nat × Option Token) × Ctx Smp :=
  match pre.getLast? with
  -- there is no token to restore the logits from
  | none => (.error emptyPrefix, c)
  | some last =>
    let forwarded := (forwardWithArgmax p (pre ++ cands.take k)).on c
    match forwarded.1 with
    | .error e => (.error e.reason, forwarded.2)
    | .ok preds =>
      -- the prediction at the last prefix token is for the first candidate
      let preds := preds.drop (pre.length - 1)
      let accepted := countAccepted (cands.take k) preds
      (.ok (accepted, (preds[accepted]?).join), restoreAfterVerify p forwarded.2 pre.length last)

end Verify

/-! ### The callbacks -/

section Callbacks

variable (p : Params Row Smp) (parts : Parts ε)

/-- The speculation callbacks.  Markers veto speculation, which would bypass them. -/
def llamaSpec : SpecCallbacks (Llama Smp ε) where
  supported _ := allMarkersEmpty parts
  new s cfg _ := onParts (parts.specNew · cfg) s
  begin s ref q prompt := onParts (parts.specBegin · ref q prompt) s
  draft s ref q last delta := onParts (parts.specDraft · ref q last delta) s
  accept s ref q n := { s with parts := parts.specAccept s.parts ref q n }
  free s ref := { s with parts := parts.specFree s.parts ref }
  step s sampler q draft := onCtx (specStep p q sampler draft) s

/-- The media callbacks. -/
def llamaMedia : MediaCallbacks (Llama Smp ε) where
  caps _ := parts.mediaCaps
  prefill s prompt items q addSpecial :=
    match parts.mediaCaps with
    | none   => (.error noMmproj, s)
    | some _ => onCtx (mediaPrefill p prompt items q addSpecial) s

/-- `reset_context/1`: the samplers of the old context are of no use to the new one. -/
def reopened (c : Ctx Smp) : Ctx Smp :=
  { newContext c.faults with nextSampler := c.nextSampler, sampled := c.sampled }

/-- `erllama_model_llama`. -/
def llamaBackend : Backend (Llama Smp ε) where
  tokenize := parts.tokenize
  detokenize := parts.detokenize
  kvPack s _ q := kvPack p s.ctx q
  kvUnpack s bin q := onCtx (kvUnpack p bin q) s
  seqRm := some fun s q => (onCtx (kvSeqRm p q 0) s).2
  seqClear := some fun s => (onCtx (kvSeqRm p 0 0) s).2
  seqRmLast := some fun s q n => onCtx (kvSeqRm p q (n - 1)) s
  seqRmLastSeq0 := some fun s n => onCtx (kvSeqRm p 0 (n - 1)) s
  seqCp := some fun s src dst => onCtx (kvSeqCp p src dst) s
  -- the thinking markers are mapped after the step
  step s ops :=
    let res := onCtx (nifStep p ops) s
    (res.1.map (List.map (mapMarker parts)), res.2)
  samplerNew := some fun s cfg => onCtx (samplerNew p cfg) s
  samplerFree := some fun s ref => { s with ctx := samplerFree s.ctx ref }
  thinkingSignature := some fun _ _ observed => parts.thinkingSignature observed
  spec := some (llamaSpec p parts)
  media := some (llamaMedia p parts)
  verify := some fun s pre cands k =>
    let res := verify p s.ctx pre cands k
    (res.1, { s with ctx := res.2 })
  embed := some fun s tokens => onCtx (nifEmbed p tokens) s
  loadAdapter := some fun s path content => onParts (parts.adapterLoad · path content) s
  unloadAdapter := some fun s ref => onParts (parts.adapterFree · ref) s
  applyAdapters := some fun s adapters => onParts (parts.setAdapters · adapters) s
  -- a new context replaces the old one, which is left as it is when none can be made
  resetContext := some fun s =>
    let opened := onParts parts.newContext s
    match opened.1 with
    | .ok _    => (.ok (), { opened.2 with ctx := reopened s.ctx })
    | .error e => (.error e, opened.2)

end Callbacks

end Erllama.Native
