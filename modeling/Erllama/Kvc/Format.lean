import Erllama.CacheKey
import Erllama.Lib.Segments

namespace Erllama.Kvc

open Lib

/-!
# The checkpoint file (`erllama_cache_kvc`)

A file is a 48-byte header, a 24-byte trailer, the length-prefixed prompt text, a
length-prefixed sequence of tag-length-value records, and the payload.  `build` writes
everything before the payload; `parseMeta` reads it back and checks the sizes; `parse` also
checks the payload's CRC and that the named fields hash to the expected key.

* `BuildMeta`, `Info` — what goes in and what comes out.
* `buildHeader`, `buildTrailer`, `buildTlv`, `build` — the writer.
* `takeHeader`, `takeTrailer`, `takeLengthPrefixed`, `decodeTlv`, `parseMeta`, `parse` — the
  reader, with the reason of every rejection.
* `crc32c` — the table-driven checksum of the native library.
-/

/-! ### Enumerations -/

/-- `save_reason()`. -/
inductive SaveReason where
  | unknown | cold | continued | evict | shutdown | finish | agentPrefix
deriving DecidableEq

/-- `save_reason_byte/1`. -/
def saveReasonByte : SaveReason → UInt8
  | .unknown => 0 | .cold => 1 | .continued => 2 | .evict => 3
  | .shutdown => 4 | .finish => 5 | .agentPrefix => 6

/-- `save_reason_atom/1`; any other byte is an unknown reason. -/
def saveReasonAtom : UInt8 → Option SaveReason
  | 0 => some .unknown | 1 => some .cold | 2 => some .continued | 3 => some .evict
  | 4 => some .shutdown | 5 => some .finish | 6 => some .agentPrefix | _ => none

@[simp] theorem saveReasonAtom_saveReasonByte (r : SaveReason) :
    saveReasonAtom (saveReasonByte r) = some r := by
  cases r <;> rfl

/-- `fingerprint_mode()`; any other term is `other`. -/
inductive FingerprintMode where
  | safe | ggufChunked | fastUnsafe
  | other (n : Nat)
deriving DecidableEq

/-- `fingerprint_mode_byte/1`, which has no clause for another term. -/
def fingerprintModeByte : FingerprintMode → Option UInt8
  | .safe => some 0 | .ggufChunked => some 1 | .fastUnsafe => some 2 | .other _ => none

/-- `fingerprint_mode_atom/1`; any other byte is an unknown mode. -/
def fingerprintModeAtom : UInt8 → Option FingerprintMode
  | 0 => some .safe | 1 => some .ggufChunked | 2 => some .fastUnsafe | _ => none

theorem fingerprintModeAtom_of_byte {m : FingerprintMode} {b : UInt8}
    (h : fingerprintModeByte m = some b) : fingerprintModeAtom b = some m := by
  cases m <;> cases h <;> rfl

/-! ### The checksum -/

/-- One entry of the table `crc32c_table_build` fills: eight shifts under the reflected
    polynomial. -/
def crc32cTable (i : UInt32) : UInt32 :=
  Nat.iterate (fun c : UInt32 =>
    if c &&& (1 : UInt32) = (1 : UInt32) then (0x82F63B78 : UInt32) ^^^ (c >>> (1 : UInt32))
    else c >>> (1 : UInt32)) 8 i

/-- `erllama_crc32c_update(0, data, len)`. -/
def crc32c (data : Bytes) : UInt32 :=
  ~~~ data.foldl (fun (c : UInt32) b =>
    crc32cTable ((c ^^^ b.toUInt32) &&& (0xFF : UInt32)) ^^^ (c >>> (8 : UInt32)))
      (~~~ (0 : UInt32))

/-! ### Writing -/

/-- `build_meta()`: what a checkpoint is written with; the optional keys may be absent. -/
structure BuildMeta where
  saveReason : SaveReason
  quantBits : Nat
  fingerprint : Digest
  fingerprintMode : FingerprintMode
  quantType : QuantType
  ctxParamsHash : Digest
  tokens : List Token
  contextSize : Nat
  creationTime : Option Nat
  lastUsedTime : Option Nat
  hitCount : Option Nat
  promptText : Option Bytes
  hostname : Option Bytes
  erllamaVersion : Option Bytes
  saveReasonDetail : Option Bytes
deriving DecidableEq

/-- What the runtime answers while a prefix is built: the wall clock, the host's name, and the
    version of the application, if it is loaded. -/
structure Runtime where
  systemTime : Nat
  hostname : Bytes
  vsn : Option Bytes

/-- The rendered text of a meta: the empty text by default. -/
def BuildMeta.text (m : BuildMeta) : Bytes := m.promptText.getD []

section Build

variable (rt : Runtime) (m : BuildMeta)

/-- `build_header/3`. -/
def buildHeader (tokenCount payloadLen : Nat) : Bytes :=
  [75, 86, 67] ++ ([2] ++ ([UInt8.ofNat m.quantBits] ++ ([saveReasonByte m.saveReason] ++
    ([0, 0] ++ (u32le tokenCount ++ (u32le (m.hitCount.getD 0) ++ (u32le m.contextSize ++
      ([0, 0, 0, 0] ++ (u64le (m.creationTime.getD rt.systemTime) ++
        (u64le (m.lastUsedTime.getD rt.systemTime) ++ u64le payloadLen))))))))))

/-- `build_trailer/3`. -/
def buildTrailer (payloadOffset payloadLen : Nat) (payloadCrc : UInt32) : Bytes :=
  u64le payloadOffset ++ (u64le payloadLen ++ (u32le payloadCrc.toNat ++ [0, 0, 0, 0]))

/-- `default_hostname/1`. -/
def defaultHostname : Bytes := m.hostname.getD rt.hostname

/-- `default_erllama_version/1`; an application that is not loaded is `"unknown"`. -/
def defaultErllamaVersion : Bytes :=
  m.erllamaVersion.getD (rt.vsn.getD [117, 110, 107, 110, 111, 119, 110])

/-- One record of the TLV section. -/
def tlvRecord (e : UInt8 × Bytes) : Bytes := [e.1] ++ (u32le e.2.length ++ e.2)

/-- The records every checkpoint has. -/
def requiredRecords (modeByte : UInt8) : List (UInt8 × Bytes) :=
  [(0x01, m.fingerprint.bytes), (0x02, [modeByte]), (0x03, [quantByte m.quantType]),
    (0x04, m.ctxParamsHash.bytes), (0x08, u32le m.tokens.length),
    (0x09, encodeTokens m.tokens)]

/-- The records that are written only when they are not empty. -/
def optionalRecords : List (UInt8 × Bytes) :=
  [(0x05, defaultHostname rt m), (0x06, defaultErllamaVersion rt m),
    (0x07, m.saveReasonDetail.getD [])].filter fun e => e.2 ≠ []

/-- `build_tlv/2`; `none` where a mode without a byte raises `function_clause`. -/
def buildTlv : Option Bytes :=
  (fingerprintModeByte m.fingerprintMode).map fun b =>
    (requiredRecords m b ++ optionalRecords rt m).flatMap tlvRecord

/-- `<<(byte_size(Bin)):32/little, Bin/binary>>`. -/
def lengthPrefixed (bin : Bytes) : Bytes := u32le bin.length ++ bin

/-- Why a prefix could not be built. -/
inductive BuildError where
  | functionClause
deriving DecidableEq

/-- `build/2`: the bytes before the payload. -/
def build (payload : Bytes) : Except BuildError Bytes :=
  match buildTlv rt m with
  | none     => .error .functionClause
  | some tlv =>
    let promptSection := lengthPrefixed m.text
    let tlvSection := lengthPrefixed tlv
    let payloadOffset := 48 + 24 + promptSection.length + tlvSection.length
    .ok (buildHeader rt m m.tokens.length payload.length ++
      (buildTrailer payloadOffset payload.length (crc32c payload) ++
        (promptSection ++ tlvSection)))

end Build

/-! ### Reading -/

/-- The TLV fields a parsed checkpoint must have. -/
inductive TlvName where
  | fingerprint | fingerprintMode | quantType | ctxParamsHash | tokens
deriving DecidableEq

/-- Why a file is rejected. -/
inductive KvcError where
  | badHeader
  | unsupportedVersion (version : UInt8)
  | unknownSaveReason (b : UInt8)
  | badTrailer
  | badLengthPrefixedSection
  | badTlv
  | unknownQuantByte (b : UInt8)
  | unknownFingerprintMode (b : UInt8)
  | payloadLengthMismatch
  | truncated
  | trailingBytes
  | missingTlv (name : TlvName)
  | payloadOutOfBounds
  | crcMismatch (expected actual : Nat)
  | keyMismatch (expected actual : CacheKey)
deriving DecidableEq

/-- The header's fields as they stand in the file. -/
structure RawHeader where
  version : UInt8
  quantBits : UInt8
  saveReasonByte : UInt8
  cachedTokenCount : Nat
  hitCount : Nat
  contextSize : Nat
  creationTime : Nat
  lastUsedTime : Nat
  payloadByteCount : Nat
deriving DecidableEq

/-- The trailer's fields. -/
structure Trailer where
  payloadOffset : Nat
  payloadLength : Nat
  payloadCrc32c : Nat
deriving DecidableEq

/-- A `N:32/little` segment. -/
def u32 : Reader UInt8 Nat := do
  let b0 ← Reader.one
  let b1 ← Reader.one
  let b2 ← Reader.one
  let b3 ← Reader.one
  return u32leValue b0 b1 b2 b3

/-- A `N:64/little` segment. -/
def u64 : Reader UInt8 Nat := do
  let lo ← u32
  let hi ← u32
  return lo + 2 ^ 32 * hi

/-- The pattern of `take_header/1`. -/
def rawHeader : Reader UInt8 RawHeader := do
  Reader.literal [75, 86, 67]
  let version ← Reader.one
  let quantBits ← Reader.one
  let saveReasonByte ← Reader.one
  let _ ← Reader.take 2
  let cachedTokenCount ← u32
  let hitCount ← u32
  let contextSize ← u32
  let _ ← Reader.take 4
  let creationTime ← u64
  let lastUsedTime ← u64
  let payloadByteCount ← u64
  return ⟨version, quantBits, saveReasonByte, cachedTokenCount, hitCount, contextSize,
    creationTime, lastUsedTime, payloadByteCount⟩

/-- The pattern of `take_trailer/1`. -/
def rawTrailer : Reader UInt8 Trailer := do
  let payloadOffset ← u64
  let payloadLength ← u64
  let payloadCrc32c ← u32
  let _ ← Reader.take 4
  return ⟨payloadOffset, payloadLength, payloadCrc32c⟩

/-- The pattern of `take_length_prefixed/1`. -/
def lengthPrefixedSection : Reader UInt8 Bytes := do
  let len ← u32
  Reader.take len

/-- The pattern of one TLV record. -/
def tlvEntry : Reader UInt8 (UInt8 × Bytes) := do
  let tag ← Reader.one
  let value ← lengthPrefixedSection
  return (tag, value)

/-- The header of a parsed checkpoint. -/
structure Header where
  version : UInt8
  quantBits : Nat
  saveReason : SaveReason
  cachedTokenCount : Nat
  hitCount : Nat
  contextSize : Nat
  creationTime : Nat
  lastUsedTime : Nat
  payloadByteCount : Nat
deriving DecidableEq

/-- `take_header/1`. -/
def takeHeader (bin : Bytes) : Except KvcError (Header × Bytes) :=
  match rawHeader.run bin with
  | none             => .error .badHeader
  | some (raw, rest) =>
    if raw.version ≠ 2 then .error (.unsupportedVersion raw.version)
    else
      match saveReasonAtom raw.saveReasonByte with
      | none        => .error (.unknownSaveReason raw.saveReasonByte)
      | some reason =>
        .ok (⟨raw.version, raw.quantBits.toNat, reason, raw.cachedTokenCount, raw.hitCount,
          raw.contextSize, raw.creationTime, raw.lastUsedTime, raw.payloadByteCount⟩, rest)

/-- `take_trailer/1`. -/
def takeTrailer (bin : Bytes) : Except KvcError (Trailer × Bytes) :=
  match rawTrailer.run bin with
  | none   => .error .badTrailer
  | some p => .ok p

/-- `take_length_prefixed/1`. -/
def takeLengthPrefixed (bin : Bytes) : Except KvcError (Bytes × Bytes) :=
  match lengthPrefixedSection.run bin with
  | none   => .error .badLengthPrefixedSection
  | some p => .ok p

/-- The fields collected from the TLV section. -/
structure TlvFields where
  fingerprint : Option Digest
  fingerprintMode : Option FingerprintMode
  quantType : Option QuantType
  ctxParamsHash : Option Digest
  tokens : Option (List Token)
  hostname : Option Bytes
  erllamaVersion : Option Bytes
  saveReasonDetail : Option Bytes
deriving DecidableEq

/-- The empty map `decode_tlv/1` starts from. -/
def TlvFields.empty : TlvFields := ⟨none, none, none, none, none, none, none, none⟩

/-- A `<<_:256>>`, if the value has that size. -/
def asDigest (v : Bytes) : Option Digest := if h : v.length = 32 then some ⟨v, h⟩ else none

/-- `store_tlv/3`: a record of the wrong size and an unknown tag are skipped. -/
def storeTlv (tag : UInt8) (v : Bytes) (acc : TlvFields) : Except KvcError TlvFields :=
  match tag, v with
  | 0x01, v =>
    match asDigest v with
    | some d => .ok { acc with fingerprint := some d }
    -- a digest of another length is skipped, like an unknown tag
    | none   => .ok acc
  | 0x02, [b] =>
    match fingerprintModeAtom b with
    | some m => .ok { acc with fingerprintMode := some m }
    -- an unknown byte is an error
    | none   => .error (.unknownFingerprintMode b)
  | 0x03, [b] =>
    match quantAtom b with
    | some q => .ok { acc with quantType := some q }
    | none   => .error (.unknownQuantByte b)
  | 0x04, v =>
    match asDigest v with
    | some d => .ok { acc with ctxParamsHash := some d }
    | none   => .ok acc
  | 0x05, v => .ok { acc with hostname := some v }
  | 0x06, v => .ok { acc with erllamaVersion := some v }
  | 0x07, v => .ok { acc with saveReasonDetail := some v }
  | 0x09, v =>
    match decodeTokens v with
    | some ts => .ok { acc with tokens := some ts }
    | none    => .ok acc
  -- unknown tags, and one-byte fields of another length, are skipped
  | _, _ => .ok acc

/-- `decode_tlv/2`; every record takes bytes, so the number of bytes bounds the rounds. -/
def decodeTlvFrom : Nat → Bytes → TlvFields → Except KvcError TlvFields
  | _, [], acc => .ok acc
  | 0, _ :: _, _ => .error .badTlv
  | fuel + 1, b :: bin, acc =>
    match tlvEntry.run (b :: bin) with
    -- what is left is no whole entry
    | none                      => .error .badTlv
    | some ((tag, value), rest) =>
      match storeTlv tag value acc with
      | .error e => .error e
      -- a later entry of one tag wins
      | .ok acc  => decodeTlvFrom fuel rest acc

/-- `decode_tlv/1`. -/
def decodeTlv (bin : Bytes) : Except KvcError TlvFields :=
  decodeTlvFrom bin.length bin TlvFields.empty

/-- `info()`. -/
structure Info where
  header : Header
  trailer : Trailer
  promptText : Bytes
  fingerprint : Digest
  fingerprintMode : FingerprintMode
  quantType : QuantType
  ctxParamsHash : Digest
  tokens : List Token
  hostname : Option Bytes
  erllamaVersion : Option Bytes
  saveReasonDetail : Option Bytes
deriving DecidableEq

/-- `require_field/2`. -/
def requireField {α : Type} (name : TlvName) : Option α → Except KvcError α
  | some a => .ok a
  | none   => .error (.missingTlv name)

/-- `validate_meta_consistency/2`, and the info map it lets through. -/
def validateMetaConsistency (h : Header) (tr : Trailer) (promptText : Bytes) (f : TlvFields)
    (totalSize : Nat) : Except KvcError Info := do
  if tr.payloadLength ≠ h.payloadByteCount then throw .payloadLengthMismatch
  if totalSize < tr.payloadOffset + tr.payloadLength then throw .truncated
  if totalSize ≠ tr.payloadOffset + tr.payloadLength then throw .trailingBytes
  let fingerprint ← requireField .fingerprint f.fingerprint
  let fingerprintMode ← requireField .fingerprintMode f.fingerprintMode
  let quantType ← requireField .quantType f.quantType
  let ctxParamsHash ← requireField .ctxParamsHash f.ctxParamsHash
  let tokens ← requireField .tokens f.tokens
  return ⟨h, tr, promptText, fingerprint, fingerprintMode, quantType, ctxParamsHash, tokens,
    f.hostname, f.erllamaVersion, f.saveReasonDetail⟩

/-- `parse_meta/1`. -/
def parseMeta (bin : Bytes) : Except KvcError Info := do
  let (header, rest1) ← takeHeader bin
  let (trailer, rest2) ← takeTrailer rest1
  let (promptText, rest3) ← takeLengthPrefixed rest2
  let (tlv, _) ← takeLengthPrefixed rest3
  let fields ← decodeTlv tlv
  validateMetaConsistency header trailer promptText fields bin.length

/-- The key of the fields a checkpoint names. -/
def Info.key (sha256 : Bytes → Digest) (info : Info) : CacheKey :=
  makeText sha256 info.fingerprint info.quantType info.ctxParamsHash info.promptText

/-- `verify/4`. -/
def verify (sha256 : Bytes → Digest) (info : Info) (payload : Bytes) (expectedKey : CacheKey) :
    Except KvcError (Info × Bytes) :=
  let actualCrc := (crc32c payload).toNat
  if actualCrc ≠ info.trailer.payloadCrc32c then
    .error (.crcMismatch info.trailer.payloadCrc32c actualCrc)
  else if info.key sha256 ≠ expectedKey then
    .error (.keyMismatch expectedKey (info.key sha256))
  else .ok (info, payload)

/-- `parse/2`. -/
def parse (sha256 : Bytes → Digest) (bin : Bytes) (expectedKey : CacheKey) :
    Except KvcError (Info × Bytes) :=
  match parseMeta bin with
  | .error e => .error e
  | .ok info =>
    let po := info.trailer.payloadOffset
    let pl := info.trailer.payloadLength
    if po + pl ≤ bin.length then verify sha256 info ((bin.drop po).take pl) expectedKey
    else .error .payloadOutOfBounds

/-- The key a meta is saved under (`derive_key/1` of the writer). -/
def BuildMeta.key (sha256 : Bytes → Digest) (m : BuildMeta) : CacheKey :=
  makeText sha256 m.fingerprint m.quantType m.ctxParamsHash m.text

end Erllama.Kvc
