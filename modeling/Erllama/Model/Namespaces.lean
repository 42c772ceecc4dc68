import Erllama.Model.Restore

namespace Erllama.Model

/-!
# The namespace of a restored row

A row's key hashes its namespace — fingerprint, quantisation byte, context-params hash — with
its text.  Two of the three routes of a lookup compute the key under the request's namespace,
so the row they restore is of that namespace; the parent route takes the caller's key as it is.

* `RowKey` — what a row's key is made of.
* `RowsKeyed` — every row's key is the hash of its own namespace and text.
* `CollisionFree` — the hash is injective on the texts of one admission.
* `Adopts.fields` — the row that an admission restores by one of those two routes is of the
  request's namespace.
-/

variable {σ γ Sid : Type}

/-- What a row's key is made of. -/
structure RowKey where
  fp : Digest
  quantType : QuantType
  ctxHash : Digest
  text : Bytes
deriving DecidableEq

/-- The hashed bytes. -/
def RowKey.preimage (k : RowKey) : Bytes := keyPreimage k.fp k.quantType k.ctxHash k.text

/-- The fingerprint, the quantisation byte and the context-params hash. -/
def RowKey.fields (k : RowKey) : Digest × UInt8 × Digest :=
  (k.fp, quantByte k.quantType, k.ctxHash)

/-- The namespace fields of a request. -/
def requestFields (env : Env σ γ) (d : Data σ γ Sid) (r : Req Sid) : Digest × UInt8 × Digest :=
  (requestFp d r, quantByte env.cfg.quantType, env.cfg.ctxParamsHash)

/-- The cache hands out a row under the key. -/
def HandsOut (c : CacheClient γ) (key : CacheKey) : Prop :=
  ∃ w holder tier tokensBin w', c.checkout w key = (.claimed holder tier tokensBin, w')

/-- Every row's key is the hash of its own namespace and text. -/
def RowsKeyed (env : Env σ γ) (row : CacheKey → RowKey) : Prop :=
  ∀ key, HandsOut env.cache key → key = env.sha256 (row key).preimage

/-- The hashed bytes that an admission compares: those of the rows, and those of the prompt's
    prefixes in the request's namespace. -/
def comparedBytes (env : Env σ γ) (row : CacheKey → RowKey) (d : Data σ γ Sid) (r : Req Sid)
    (tokens : List Token) : Set Bytes :=
  { bytes | (∃ key, HandsOut env.cache key ∧ bytes = (row key).preimage) ∨
      ∃ n, bytes = keyPreimage (requestFp d r) env.cfg.quantType env.cfg.ctxParamsHash
        ((env.be.detokenize tokens).take n) }

/-- The hash is collision free on what an admission compares. -/
def CollisionFree (env : Env σ γ) (row : CacheKey → RowKey) (d : Data σ γ Sid) (r : Req Sid)
    (tokens : List Token) : Prop :=
  Set.InjOn env.sha256 (comparedBytes env row d r tokens)

variable {env : Env σ γ} {row : CacheKey → RowKey} {d : Data σ γ Sid} {r : Req Sid}
  {tokens : List Token}

theorem Restored.handsOut {q : SeqId} {key : CacheKey} {ts : List Token} {s : Sys σ γ Sid}
    (h : Restored env q key ts s) : HandsOut env.cache key := by
  obtain ⟨w, holder, tier, tokensBin, w', -, -, -, hout, -⟩ := h.row
  exact ⟨w, holder, tier, tokensBin, w', hout⟩

/-- A row under a key of the request's namespace is of that namespace, and its text is the
    prefix the key was computed from. -/
theorem RowsKeyed.own_key (hkeyed : RowsKeyed env row) (hfree : CollisionFree env row d r tokens)
    {n : Nat} (hout : HandsOut env.cache
      (makeKeyBytes env d ((env.be.detokenize tokens).take n) r)) :
    (row (makeKeyBytes env d ((env.be.detokenize tokens).take n) r)).fields
        = requestFields env d r ∧
      (row (makeKeyBytes env d ((env.be.detokenize tokens).take n) r)).text
        = (env.be.detokenize tokens).take n := by
  have hkey := hkeyed _ hout
  generalize hk : makeKeyBytes env d ((env.be.detokenize tokens).take n) r = key at hout hkey ⊢
  have hpreimage := hfree (.inr ⟨n, rfl⟩) (.inl ⟨key, hout, rfl⟩) (hk.trans hkey)
  obtain ⟨hfp, hqt, hctx, htext⟩ := keyPreimage_inj hpreimage
  refine ⟨?_, htext.symm⟩
  unfold RowKey.fields requestFields
  rw [hfp, hqt, hctx]

/-- The row an admission adopts by a key of its own is of the request's namespace; the adopted
    parent is the only other row. -/
theorem Adopts.fields (hkeyed : RowsKeyed env row) (hfree : CollisionFree env row d r tokens)
    {parentKey : Option CacheKey} {key : CacheKey} {w : Warm}
    (h : Adopts env d r tokens parentKey key w) (hout : HandsOut env.cache key) :
    (row key).fields = requestFields env d r ∨
      adoptedParent env d r tokens parentKey = some key := by
  cases h with
  | exact ts =>
    have hall : (env.be.detokenize tokens).take (env.be.detokenize tokens).length
        = env.be.detokenize tokens := List.take_length
    rw [← hall] at hout ⊢
    exact .inl (hkeyed.own_key hfree hout).1
  | parent ts hparent hpre => exact .inr hparent
  | longest n ts => exact .inl (hkeyed.own_key hfree hout).1

end Erllama.Model
