import Erllama.Model.Saves

namespace Erllama.Model

/-!
# Cache lookup and KV restore (`erllama_model`, "cache integration")

The cache is addressed by the rendered prompt bytes.  An admission tries the exact key, then
the caller's parent key, then the longest stored byte prefix; all three routes restore a row
with `pinAndLoad`, and a failure of any falls through to the next, the last one to cold.

* `releaseSeq`, `backendSeqClear`, `backendSeqRmFrom` — removals on one seq.
* `pinAndLoad` — check a row out, unpack its payload into the seq, check it in.
* `lookupOrResume` — the three routes.
-/

variable {σ γ Sid : Type}

section Backend

variable (env : Env σ γ) (s : Sys σ γ Sid) (q : SeqId)

/-! ### Removals -/

/-- `release_seq/2` and `backend_seq_clear_for/2`: drop the seq's cells if the backend can. -/
def releaseSeq : Sys σ γ Sid :=
  match env.be.seqRm with
  | some seqRm => { s with ctx := seqRm s.ctx q }
  | none       => s

/-- `backend_seq_clear/2`: the same, or the older whole-context wipe. -/
def backendSeqClear : Sys σ γ Sid :=
  match env.be.seqRm with
  | some seqRm => { s with ctx := seqRm s.ctx q }
  | none =>
    match env.be.seqClear with
    | some seqClear => { s with ctx := seqClear s.ctx }
    | none          => s

/-- `backend_seq_rm_from/3`: remove the cells from position `pos` on.  The callback removes
    from its argument minus one on; a backend without it holds no KV per seq. -/
def backendSeqRmFrom (pos : Nat) : Except Reason Unit × Sys σ γ Sid :=
  match env.be.seqRmLast with
  | some seqRmLast =>
    -- `seq_rm_last` of `n` tokens keeps `n - 1`
    let res := seqRmLast s.ctx q (pos + 1)
    (res.1, { s with ctx := res.2 })
  | none =>
    match env.be.seqRmLastSeq0 with
    | some seqRmLast =>
      if q = 0 then
        let res := seqRmLast s.ctx (pos + 1)
        (res.1, { s with ctx := res.2 })
      else (.ok (), s)
    | none => (.ok (), s)

/-- `warm_restore_primer/3`: drop the last restored cell, so that prefilling its token again
    refreshes the logits. -/
def warmRestorePrimer (contextTokens : List Token) : Except Reason Unit × Sys σ γ Sid :=
  if contextTokens = [] then (.ok (), s)
  else backendSeqRmFrom env s q (contextTokens.length - 1)

/-! ### Restoring a row -/

/-- `load_payload/4`: from the RAM slab or the disk server; `none` for the empty payload and
    for a failed load, which the caller treats alike. -/
def loadPayload (tier : Tier) (key : CacheKey) : Option Bytes × Sys σ γ Sid :=
  let res := env.cache.load s.world key tier
  (res.1.filter (· ≠ []), { s with world := res.2 })

/-- `unpack_row/4`: restore a payload into the seq.  A failed restore may leave cells behind,
    so the seq is dropped and the row counts as a miss. -/
def unpackRow (key : CacheKey) (bin : Bytes) (tokensBin : Option TokensBin) :
    Option (List Token) × Sys σ γ Sid :=
  match env.be.kvUnpack s.ctx bin q with
  | (.ok _, ctx) =>
    -- the token list comes from the row, not from the payload
    (some (tokensBin.elim [] TokensBin.decode),
      { s with ctx := ctx, restored := s.restored ++ [(q, key)] })
  | (.error _, ctx) => (none, backendSeqClear env { s with ctx := ctx } q)

/-- `pin_and_load/3`: the row's token list, or `none` if it is gone, busy or unreadable. -/
def pinAndLoad (key : CacheKey) : Option (List Token) × Sys σ γ Sid :=
  match env.cache.checkout s.world key with
  | (.claimed holder tier tokensBin, world) =>
    -- the row is held while its payload is read and unpacked
    let loaded := loadPayload env { s with world := world } tier key
    let res :=
      match loaded.1 with
      | some bin => unpackRow env loaded.2 q key bin tokensBin
      | none     => (none, loaded.2)
    (res.1, { res.2 with world := env.cache.checkin res.2.world holder })
  -- a row that is being written or evicted is no hit
  | (.busy, world) => (none, { s with world := world })
  | (.miss, world) => (none, { s with world := world })

end Backend

/-! ### The suffix a row does not cover -/

section Suffix

variable (env : Env σ γ)

/-- `prefix_byte_size/3`: the rendered length of the first `k` tokens. -/
def prefixByteSize (tokens : List Token) (k : Nat) : Nat :=
  if k = 0 then 0 else (env.be.detokenize (tokens.take k)).length

/-- `split_tokens_at_byte/5`: binary search between `lo` and `hi` for a number of tokens that
    renders to `target` bytes; `hi` is exclusive here, one above the source's. -/
def splitTokensAtByteFrom (tokens : List Token) (target : Nat) (lo hi : Nat) :
    Option (List Token) :=
  if lo < hi then
    -- `(Lo + Hi) div 2` of the source
    let mid := (lo + (hi - 1)) / 2
    let size := prefixByteSize env tokens mid
    if size = target then some (tokens.drop mid)
    else if size < target then splitTokensAtByteFrom tokens target (mid + 1) hi
    else splitTokensAtByteFrom tokens target lo mid
  else none
termination_by hi - lo
decreasing_by all_goals omega

/-- `split_tokens_at_byte/3`: the tokens after the byte position `target`, or `none` when it
    falls inside a token. -/
def splitTokensAtByte (tokens : List Token) (target : Nat) : Option (List Token) :=
  splitTokensAtByteFrom env tokens target 0 (tokens.length + 1)

/-- `resume_suffix/4`: the prompt's own tail if the boundary is a token boundary, else the
    remaining bytes tokenised again. -/
def resumeSuffix (promptTokens : List Token) (promptBytes : Bytes) (matchBytes : Nat) :
    List Token :=
  if promptBytes.length - matchBytes = 0 then []
  else
    -- inside a token the rest is tokenised again, with the default special tokens
    (splitTokensAtByte env promptTokens matchBytes).getD
      (env.be.tokenize (promptBytes.drop matchBytes))

end Suffix

/-! ### The longest stored prefix -/

section LongestPrefix

variable (env : Env σ γ) (fp : Digest) (qt : QuantType) (ctxHash : Digest) (bytes : Bytes)

/-- `probe_text_prefix/6` of the meta server: the first length whose prefix has a row. -/
def probeTextPrefix : List Nat → γ → Option (Nat × CacheKey) × γ
  | [], w => (none, w)
  | len :: lens, w =>
    let candidate := makeText env.sha256 fp qt ctxHash (bytes.take len)
    let found := env.cache.lookupExact w candidate
    if found.1 then (some (len, candidate), found.2) else probeTextPrefix lens found.2

end LongestPrefix

/-- `lookup_longest_text_prefix/2` of the meta server, which runs in its caller: the lengths of
    the available rows, longest first, probed one by one. -/
def lookupLongestTextPrefix (env : Env σ γ) (w : γ) (fp : Digest) (qt : QuantType)
    (ctxHash : Digest) (bytes : Bytes) : Option (Nat × CacheKey) × γ :=
  -- no row is longer than the prompt
  let lens := env.cache.availableTextLengths w bytes.length
  probeTextPrefix env fp qt ctxHash bytes lens.1 lens.2

/-! ### The three routes -/

/-- A warm admission: the restored tokens, what is left to prefill, and the kind of hit. -/
structure Warm where
  context : List Token
  suffix : List Token
  kind : HitKind
deriving DecidableEq

section Routes

variable (env : Env σ γ) (d : Data σ γ Sid) (r : Req Sid)

/-- `maybe_repin_prefix/4`: pin the row again when the match ends exactly at the caller's
    static-prefix boundary. -/
def maybeRepinPrefix (key : CacheKey) (matchBytes : Nat) : Sys σ γ Sid :=
  match r.prefixCheckpointLen with
  | some n =>
    if 0 < n ∧ (env.be.detokenize (r.promptTokens.take n)).length = matchBytes then
      { d.sys with world := env.cache.pinRow d.sys.world (requestNamespace env d r) key }
    else d.sys
  | none => d.sys

/-- `resume_at_prefix/6`. -/
def resumeAtPrefix (key : CacheKey) (matchBytes : Nat) (promptTokens : List Token)
    (promptBytes : Bytes) : Option Warm × Sys σ γ Sid :=
  let loaded := pinAndLoad env d.sys r.seqId key
  match loaded.1 with
  | some tokens =>
    (some ⟨tokens, resumeSuffix env promptTokens promptBytes matchBytes, .partialHit⟩,
      maybeRepinPrefix env (withSys d loaded.2) r key matchBytes)
  | none => (none, loaded.2)

/-- `try_longest_prefix/4`. -/
def tryLongestPrefix (promptTokens : List Token) (promptBytes : Bytes) :
    Option Warm × Sys σ γ Sid :=
  -- the lookup takes no claim; the row may be gone when it is loaded
  let found := lookupLongestTextPrefix env d.sys.world (requestFp d r) env.cfg.quantType
    env.cfg.ctxParamsHash promptBytes
  let d := withSys d { d.sys with world := found.2 }
  match found.1 with
  | some (matchBytes, key) => resumeAtPrefix env d r key matchBytes promptTokens promptBytes
  | none                   => (none, d.sys)

/-- `resume_session_or_fallthrough/5`: resume from the parent row if its rendered bytes are a
    prefix of the prompt's. -/
def resumeSessionOrFallthrough (promptTokens : List Token) (promptBytes : Bytes)
    (parentTokens : List Token) : Option Warm × Sys σ γ Sid :=
  let parentBytes := env.be.detokenize parentTokens
  if parentBytes <+: promptBytes then
    (some ⟨parentTokens, resumeSuffix env promptTokens promptBytes parentBytes.length, .partialHit⟩,
      d.sys)
  else tryLongestPrefix env d r promptTokens promptBytes

/-- `try_session_resume/5`: wait for the parent row to be published, then restore it. -/
def trySessionResume (promptTokens : List Token) (promptBytes : Bytes) (parentKey : CacheKey) :
    Option Warm × Sys σ γ Sid :=
  let found := env.cache.lookupExactOrWait d.sys.world parentKey env.cfg.policy.sessionResumeWaitMs
  let d := withSys d { d.sys with world := found.2 }
  -- published in time
  if found.1 then
    let loaded := pinAndLoad env d.sys r.seqId parentKey
    let d := withSys d loaded.2
    match loaded.1 with
    | some parentTokens =>
      resumeSessionOrFallthrough env d r promptTokens promptBytes parentTokens
    -- gone or unreadable: as if there had been no parent
    | none => tryLongestPrefix env d r promptTokens promptBytes
  else tryLongestPrefix env d r promptTokens promptBytes

/-- `lookup_or_resume/4`: `none` is a cold admission. -/
def lookupOrResume (promptTokens : List Token) (parentKey : Option CacheKey) :
    Option Warm × Sys σ γ Sid :=
  let promptBytes := env.be.detokenize promptTokens
  let loaded := pinAndLoad env d.sys r.seqId (makeKeyBytes env d promptBytes r)
  let d := withSys d loaded.2
  match loaded.1 with
  -- the row of this very prompt: nothing is left but the primer
  | some tokens => (some ⟨tokens, [], .exact⟩, d.sys)
  | none =>
    match parentKey with
    -- the caller named the row of its last turn
    | some key => trySessionResume env d r promptTokens promptBytes key
    | none     => tryLongestPrefix env d r promptTokens promptBytes

end Routes

end Erllama.Model
