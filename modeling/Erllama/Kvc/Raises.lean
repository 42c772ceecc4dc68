import Erllama.Kvc.RoundTrip

namespace Erllama.Kvc

open Lib

/-!
# The parser with its exceptions

`parse_meta/1` runs under a `try` that turns a thrown `{kvc_error, _}` and a failed match into
an answer, and lets every other exception through; what `parse/2` does after it runs under no
`try` at all.  Here the reader is written once more with what each expression may raise, on the
info map as it is while it is collected.

* `Raised`, `Refusal` — what an expression raises, and what a call answers instead.
* `parseMetaR`, `parseR` — the two entry points with their exceptions.
* `parseMetaR_eq`, `parseR_eq` — no exception leaves them, and the answers are those of
  `parseMeta` and `parse`.
-/

/-- What an expression of the module may raise. -/
inductive Raised where
  | kvcError (reason : KvcError)
  | badmatch
  | badkey
  | functionClause
deriving DecidableEq

/-- The reason of an `{error, Reason}` answer. -/
inductive Refusal where
  | reason (e : KvcError)
  | malformed
deriving DecidableEq

/-- The info map while it is collected. -/
structure InfoMap where
  header : Option Header
  trailer : Option Trailer
  promptText : Option Bytes
  fields : TlvFields
deriving DecidableEq

/-- The map of a file that was read to its end. -/
def Info.toMap (info : Info) : InfoMap where
  header := some info.header
  trailer := some info.trailer
  promptText := some info.promptText
  fields := ⟨some info.fingerprint, some info.fingerprintMode, some info.quantType,
    some info.ctxParamsHash, some info.tokens, info.hostname, info.erllamaVersion,
    info.saveReasonDetail⟩

/-- A clause whose only exception is a thrown `{kvc_error, _}`. -/
def thrown {α : Type} : Except KvcError α → Except Raised α
  | .ok a    => .ok a
  | .error e => .error (.kvcError e)

/-- A value that must be there. -/
def orRaise {α : Type} (e : Raised) : Option α → Except Raised α
  | some a => .ok a
  | none   => .error e

/-! ### The reader -/

/-- `store_tlv/3`.  `decode_tokens/1` has no clause for a size that is not a multiple of four;
    the guard of the record's clause keeps such a value away from it. -/
def storeTlvR (tag : UInt8) (v : Bytes) (acc : TlvFields) : Except Raised TlvFields :=
  if tag = 0x09 then
    if v.length % 4 = 0 then
      match decodeTokens v with
      | some ts => .ok { acc with tokens := some ts }
      | none    => .error .functionClause
    else .ok acc
  else thrown (storeTlv tag v acc)

/-- `decode_tlv/2`. -/
def decodeTlvFromR : Nat → Bytes → TlvFields → Except Raised TlvFields
  | _, [], acc => .ok acc
  | 0, _ :: _, _ => .error (.kvcError .badTlv)
  | fuel + 1, b :: bin, acc =>
    match tlvEntry.run (b :: bin) with
    | none                      => .error (.kvcError .badTlv)
    | some ((tag, value), rest) =>
      match storeTlvR tag value acc with
      | .error e => .error e
      | .ok acc  => decodeTlvFromR fuel rest acc

/-- `validate_meta_consistency/2`: its map pattern is a match that may fail. -/
def validateMetaConsistencyR (info : InfoMap) (totalSize : Nat) : Except Raised Unit := do
  let tr ← orRaise .badmatch info.trailer
  let h ← orRaise .badmatch info.header
  if tr.payloadLength ≠ h.payloadByteCount then throw (.kvcError .payloadLengthMismatch)
  if totalSize < tr.payloadOffset + tr.payloadLength then throw (.kvcError .truncated)
  if totalSize ≠ tr.payloadOffset + tr.payloadLength then throw (.kvcError .trailingBytes)
  let _ ← thrown (requireField .fingerprint info.fields.fingerprint)
  let _ ← thrown (requireField .fingerprintMode info.fields.fingerprintMode)
  let _ ← thrown (requireField .quantType info.fields.quantType)
  let _ ← thrown (requireField .ctxParamsHash info.fields.ctxParamsHash)
  let _ ← thrown (requireField .tokens info.fields.tokens)
  return ()

/-- The body of `parse_meta/1`, under its `try`. -/
def collectMeta (bin : Bytes) : Except Raised InfoMap := do
  let (header, rest1) ← thrown (takeHeader bin)
  let (trailer, rest2) ← thrown (takeTrailer rest1)
  let (promptText, rest3) ← thrown (takeLengthPrefixed rest2)
  let (tlv, _) ← thrown (takeLengthPrefixed rest3)
  let fields ← decodeTlvFromR tlv.length tlv TlvFields.empty
  let info : InfoMap := ⟨some header, some trailer, some promptText, fields⟩
  validateMetaConsistencyR info bin.length
  return info

/-- `parse_meta/1`: two kinds of exceptions are caught. -/
def parseMetaR (bin : Bytes) : Except Raised (Except Refusal InfoMap) :=
  match collectMeta bin with
  | .ok info             => .ok (.ok info)
  | .error (.kvcError e) => .ok (.error (.reason e))
  | .error .badmatch     => .ok (.error .malformed)
  | .error e             => .error e

/-- `verify/4`: `maps:get/2` raises on a key the map lacks. -/
def verifyR (sha256 : Bytes → Digest) (info : InfoMap) (payload : Bytes) (expectedCrc : Nat)
    (expectedKey : CacheKey) : Except Raised (Except Refusal (InfoMap × Bytes)) :=
  let actualCrc := (crc32c payload).toNat
  if actualCrc ≠ expectedCrc then .ok (.error (.reason (.crcMismatch expectedCrc actualCrc)))
  else do
    let fp ← orRaise .badkey info.fields.fingerprint
    let qt ← orRaise .badkey info.fields.quantType
    let ctx ← orRaise .badkey info.fields.ctxParamsHash
    let actualKey := makeText sha256 fp qt ctx (info.promptText.getD [])
    if actualKey ≠ expectedKey then
      return .error (.reason (.keyMismatch expectedKey actualKey))
    else return .ok (info, payload)

/-- `parse/2`. -/
def parseR (sha256 : Bytes → Digest) (bin : Bytes) (expectedKey : CacheKey) :
    Except Raised (Except Refusal (InfoMap × Bytes)) := do
  match ← parseMetaR bin with
  | .error e => return .error e
  | .ok info =>
    let tr ← orRaise .badmatch info.trailer
    if tr.payloadOffset + tr.payloadLength ≤ bin.length then
      verifyR sha256 info ((bin.drop tr.payloadOffset).take tr.payloadLength)
        tr.payloadCrc32c expectedKey
    else return .error (.reason .payloadOutOfBounds)

/-! ### No exception leaves it -/

/-- The clause of `decode_tokens/1` that is missing is the one the guard excludes. -/
theorem decodeTokens_isSome (v : Bytes) : (decodeTokens v).isSome = true ↔ v.length % 4 = 0 := by
  induction v using decodeTokens.induct with
  | case1 => simp [decodeTokens]
  | case2 b0 b1 b2 b3 r ih =>
    have hlen : (b0 :: b1 :: b2 :: b3 :: r).length = r.length + 4 := rfl
    rw [decodeTokens, Option.isSome_map, ih, hlen]
    omega
  | case3 v hnil hfour =>
    rcases v with _ | ⟨b0, _ | ⟨b1, _ | ⟨b2, _ | ⟨b3, r⟩⟩⟩⟩
    · exact absurd rfl hnil
    · simp [decodeTokens]
    · simp [decodeTokens]
    · simp [decodeTokens]
    · exact absurd rfl (hfour b0 b1 b2 b3 r)

/-- Storing a record raises where the parser fails. -/
theorem storeTlvR_eq (tag : UInt8) (v : Bytes) (acc : TlvFields) :
    storeTlvR tag v acc = thrown (storeTlv tag v acc) := by
  unfold storeTlvR
  split
  · rename_i htag
    subst htag
    have hsome := decodeTokens_isSome v
    have hstore : storeTlv 0x09 v acc =
        match decodeTokens v with
        | some ts => .ok { acc with tokens := some ts }
        | none    => .ok acc := by
      unfold storeTlv
      rfl
    rw [hstore]
    cases hv : decodeTokens v with
    | none =>
      rw [hv] at hsome
      rw [if_neg fun h => nomatch hsome.mpr h]
      rfl
    | some ts =>
      rw [hv] at hsome
      rw [if_pos (hsome.mp rfl)]
      rfl
  · rfl

/-- So does decoding the records. -/
theorem decodeTlvFromR_eq (fuel : Nat) (bin : Bytes) (acc : TlvFields) :
    decodeTlvFromR fuel bin acc = thrown (decodeTlvFrom fuel bin acc) := by
  induction fuel generalizing bin acc with
  | zero => cases bin <;> rfl
  | succ fuel ih =>
    cases bin with
    | nil        => rfl
    | cons b bin =>
      simp only [decodeTlvFromR, decodeTlvFrom]
      cases tlvEntry.run (b :: bin) with
      | none   => rfl
      | some p =>
        obtain ⟨⟨tag, value⟩, rest⟩ := p
        simp only [storeTlvR_eq]
        cases storeTlv tag value acc with
        | error e => rfl
        | ok acc' => exact ih rest acc'

/-- The checks on the collected map, and the map they let through. -/
theorem validateMetaConsistencyR_eq (h : Header) (tr : Trailer) (text : Bytes) (f : TlvFields)
    (size : Nat) :
    (do
      validateMetaConsistencyR ⟨some h, some tr, some text, f⟩ size
      return ⟨some h, some tr, some text, f⟩ : Except Raised InfoMap) =
      thrown ((validateMetaConsistency h tr text f size).map Info.toMap) := by
  obtain ⟨fp, mode, quant, ctx, tokens, _, _, _⟩ := f
  unfold validateMetaConsistencyR validateMetaConsistency
  simp only [orRaise, bind, Except.bind]
  by_cases hlen : tr.payloadLength = h.payloadByteCount
  · by_cases hshort : size < tr.payloadOffset + h.payloadByteCount
    · simp [hlen, hshort, thrown, throw, throwThe, MonadExceptOf.throw, Except.map]
    · by_cases hlong : size = tr.payloadOffset + h.payloadByteCount
      · simp only [hlen, hlong, ne_eq, not_true_eq_false, if_false, lt_irrefl]
        cases fp <;> cases mode <;> cases quant <;> cases ctx <;> cases tokens <;> rfl
      · simp [hlen, hshort, hlong, thrown, throw, throwThe, MonadExceptOf.throw, Except.map]
  · simp [hlen, thrown, throw, throwThe, MonadExceptOf.throw, Except.map]

/-- So does collecting the meta. -/
theorem collectMeta_eq (bin : Bytes) :
    collectMeta bin = thrown ((parseMeta bin).map Info.toMap) := by
  unfold collectMeta parseMeta
  simp only [bind, Except.bind]
  cases takeHeader bin with
  | error e => rfl
  | ok p =>
    simp only [thrown]
    cases takeTrailer p.2 with
    | error e => rfl
    | ok q =>
      simp only
      cases takeLengthPrefixed q.2 with
      | error e => rfl
      | ok r =>
        simp only
        cases takeLengthPrefixed r.2 with
        | error e => rfl
        | ok t =>
          simp only [decodeTlvFromR_eq, decodeTlv]
          cases decodeTlvFrom t.1.length t.1 TlvFields.empty with
          | error e => rfl
          | ok f    => exact validateMetaConsistencyR_eq p.1 q.1 r.1 f bin.length

/-- **`parse_meta/1` never raises**, and answers as `parseMeta` does. -/
theorem parseMetaR_eq (bin : Bytes) :
    parseMetaR bin = .ok (((parseMeta bin).map Info.toMap).mapError .reason) := by
  unfold parseMetaR
  rw [collectMeta_eq]
  cases parseMeta bin with
  | error e => rfl
  | ok info => rfl

/-- **`parse/2` never raises**, and answers as `parse` does. -/
theorem parseR_eq (sha256 : Bytes → Digest) (bin : Bytes) (key : CacheKey) :
    parseR sha256 bin key =
      .ok (((parse sha256 bin key).map fun p => (p.1.toMap, p.2)).mapError .reason) := by
  unfold parseR parse
  rw [parseMetaR_eq]
  cases parseMeta bin with
  | error e => rfl
  | ok info =>
    -- the trailer and the key's three fields are in the map of a file that was read
    show (if info.trailer.payloadOffset + info.trailer.payloadLength ≤ bin.length then _
      else _ : Except Raised _) = _
    simp only
    split
    · unfold verifyR verify
      simp only
      split
      · rfl
      · show (if info.key sha256 ≠ key then _ else _ : Except Raised _) = _
        split <;> rfl
    · rfl

end Erllama.Kvc
