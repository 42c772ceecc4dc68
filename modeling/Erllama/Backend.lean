import Erllama.Basic
import Mathlib.Data.Rat.Defs

namespace Erllama

/-!
# The inference backend (`erllama_model_backend`)

The backend is code the model process calls: a native context behind a state `σ`.  A
callback that acts on the context returns the new context; an optional callback is an
`Option`, and the model asks for it before each use.  Tokenising and detokenising read the
model's static vocabulary only.  `loadAdapter` is given the file it reads: its path and its
content at the time of the call.

* `Op`, `StepResult` — one row of a batched step and what comes back for it.
* `Backend` — the callbacks.
* `Reason.isRecoverable` — the decode errors the engine recovers from in place.
-/

/-- The error terms a backend answers with. -/
inductive Reason where
  | decodeTimeout
  | decodeAborted
  | decodeFailed
  | decodeTimeoutWith (detail : Nat)
  | decodeFailedWith (detail : Nat)
  | notSupported
  | other (detail : Nat)
deriving DecidableEq

/-- `is_recoverable_decode_error/1`. -/
def Reason.isRecoverable : Reason → Bool
  | .decodeTimeout       => true
  | .decodeAborted       => true
  | .decodeFailed        => true
  | .decodeTimeoutWith _ => true
  | .decodeFailedWith _  => true
  | .notSupported        => false
  | .other _             => false

/-- The sampler options of a request: the one key the engine reads itself, and the rest of
    the map as the backend gets it. -/
structure SamplerCfg where
  logprobs : Nat
  chain : Bytes
deriving DecidableEq

/-- The normalised speculation options (`#{n_match, n_max, n_min}`). -/
structure SpecCfg where
  nMatch : Nat
  nMax : Nat
  nMin : Nat
deriving DecidableEq

/-- The two kinds of media item. -/
inductive MediaType where
  | image | audio
deriving DecidableEq

/-- The modalities of a loaded projector. -/
structure MediaCaps where
  vision : Bool
  audio : Bool
deriving DecidableEq

/-- The logprobs payload of a sampled token: its own and the top candidates'. -/
structure LpPayload where
  sampled : ℚ
  top : List (Token × ℚ)
deriving DecidableEq

/-- One row of a step: push a slice into the KV, or sample one token and decode it. -/
inductive Op where
  | prefill (slice : List Token)
  | decode (sampler : Ref)
deriving DecidableEq

/-- A row that decodes. -/
def Op.isDecode : Op → Bool
  | .decode _  => true
  | .prefill _ => false

/-- What a step answers for one row. -/
inductive StepResult where
  | prefilled
  | token (tok : Token) (eog : Bool) (lp : Option LpPayload)
  | thinkingToken (tok : Token)
  | thinkingEnd
deriving DecidableEq

/-- What a speculative step answers: the committed tokens, whether the last one ends the
    generation, and how many drafted tokens were accepted. -/
structure SpecResult where
  committed : List Token
  eog : Bool
  nAcc : Nat
deriving DecidableEq

/-- The speculation callbacks; the engine uses them only when all are exported. -/
structure SpecCallbacks (σ : Type) where
  supported : σ → Bool
  new : σ → SpecCfg → Nat → Except Reason Ref × σ
  begin : σ → Ref → SeqId → List Token → Except Reason Unit × σ
  draft : σ → Ref → SeqId → Token → List Token → Except Reason (List Token) × σ
  accept : σ → Ref → SeqId → Nat → σ
  free : σ → Ref → σ
  step : σ → Ref → SeqId → List Token → Except Reason SpecResult × σ

/-- The media callbacks; both or neither. -/
structure MediaCallbacks (σ : Type) where
  caps : σ → Option MediaCaps
  prefill : σ → Bytes → List (MediaType × Bytes) → SeqId → Bool → Except Reason (Nat × Nat) × σ

/-- A backend module. -/
structure Backend (σ : Type) where
  tokenize : Bytes → List Token
  detokenize : List Token → Bytes
  kvPack : σ → List Token → SeqId → Bytes
  kvUnpack : σ → Bytes → SeqId → Except Reason Unit × σ
  seqRm : Option (σ → SeqId → σ)
  seqClear : Option (σ → σ)
  seqRmLast : Option (σ → SeqId → Nat → Except Reason Unit × σ)
  seqRmLastSeq0 : Option (σ → Nat → Except Reason Unit × σ)
  seqCp : Option (σ → SeqId → SeqId → Except Reason Unit × σ)
  step : σ → List (SeqId × Op) → Except Reason (List (SeqId × StepResult)) × σ
  samplerNew : Option (σ → SamplerCfg → Except Reason Ref × σ)
  samplerFree : Option (σ → Ref → σ)
  thinkingSignature : Option (σ → SeqId → Bytes → Bytes)
  spec : Option (SpecCallbacks σ)
  media : Option (MediaCallbacks σ)
  verify : Option (σ → List Token → List Token → Nat → Except Reason (Nat × Option Token) × σ)
  embed : Option (σ → List Token → Except Reason (List ℚ) × σ)
  loadAdapter : Option (σ → Path → Bytes → Except Reason Ref × σ)
  unloadAdapter : Option (σ → Ref → Except Reason Unit × σ)
  applyAdapters : Option (σ → List (Ref × ℚ) → Except Reason Unit × σ)
  resetContext : Option (σ → Except Reason Unit × σ)

end Erllama
