import Erllama.Kvc.Format
import Mathlib.Data.List.Monad

namespace Erllama.Kvc

open Lib

/-!
# What was written is read back

Every segment of the format is read back exactly, whatever follows it, so a file that
`build` starts and the payload completes is read field by field.  Numbers come back modulo
the width of their segment; the equality of a field is then a bound on what was given.

* `builtInfo` — the info map read from a built file.
* `parseMeta_builtFile` — `parse_meta/1` of a built file is that map, and a meta whose quant label
  has no name is rejected.
* `parse_build` — the payload is returned under the meta's own key.
-/

/-! ### Integer segments -/

/-- Four bytes read back as they were written, in 32 bits. -/
theorem u32_reads (n : Nat) : Reads u32 (u32le n) (n % 2 ^ 32) := by
  intro rest
  have hval := u32leValue_u32le n
  show some (u32leValue (UInt8.ofNat n) (UInt8.ofNat (n / 2 ^ 8)) (UInt8.ofNat (n / 2 ^ 16))
    (UInt8.ofNat (n / 2 ^ 24)), rest) = _
  rw [hval]

/-- The two halves of a 64-bit segment. -/
theorem u64le_eq (n : Nat) : u64le n = u32le (n % 2 ^ 64) ++ u32le (n % 2 ^ 64 / 2 ^ 32) := by
  have h : ((n : Int) % 2 ^ 64).toNat = n % 2 ^ 64 := by omega
  simp only [u64le, h]

/-- Eight bytes read back, in 64 bits. -/
theorem u64_reads (n : Nat) : Reads u64 (u64le n) (n % 2 ^ 64) := by
  have hsum : n % 2 ^ 64 % 2 ^ 32 + 2 ^ 32 * (n % 2 ^ 64 / 2 ^ 32 % 2 ^ 32) = n % 2 ^ 64 := by
    omega
  have hread : Reads u64 (u64le n)
      (n % 2 ^ 64 % 2 ^ 32 + 2 ^ 32 * (n % 2 ^ 64 / 2 ^ 32 % 2 ^ 32)) := by
    rw [u64le_eq]
    exact (u32_reads _).bind ((u32_reads _).bind_pure _)
  rwa [hsum] at hread

/-- A 64-bit number takes eight bytes. -/
@[simp] theorem length_u64le (z : Int) : (u64le z).length = 8 := rfl

/-- A section reads back, if its length fits. -/
theorem lengthPrefixed_reads {bin : Bytes} (h : bin.length < 2 ^ 32) :
    Reads lengthPrefixedSection (lengthPrefixed bin) bin := by
  have hlen : bin.length % 2 ^ 32 = bin.length := Nat.mod_eq_of_lt h
  refine (u32_reads bin.length).bind ?_
  rw [hlen]
  exact Reads.take rfl

/-- A section is four bytes longer than what it holds. -/
@[simp] theorem length_lengthPrefixed (bin : Bytes) :
    (lengthPrefixed bin).length = 4 + bin.length := by
  simp [lengthPrefixed]

/-! ### The header and the trailer -/

section Build

variable (rt : Runtime) (m : BuildMeta)

/-- The header read from a built file. -/
def builtHeader (payload : Bytes) : Header :=
  ⟨2, m.quantBits % 2 ^ 8, m.saveReason, m.tokens.length % 2 ^ 32, m.hitCount.getD 0 % 2 ^ 32,
    m.contextSize % 2 ^ 32, m.creationTime.getD rt.systemTime % 2 ^ 64,
    m.lastUsedTime.getD rt.systemTime % 2 ^ 64, payload.length % 2 ^ 64⟩

/-- The header reads back field by field. -/
theorem rawHeader_reads (count len : Nat) :
    Reads rawHeader (buildHeader rt m count len)
      ⟨2, UInt8.ofNat m.quantBits, saveReasonByte m.saveReason, count % 2 ^ 32,
        m.hitCount.getD 0 % 2 ^ 32, m.contextSize % 2 ^ 32,
        m.creationTime.getD rt.systemTime % 2 ^ 64,
        m.lastUsedTime.getD rt.systemTime % 2 ^ 64, len % 2 ^ 64⟩ :=
  (Reads.literal _).bind <| (Reads.one _).bind <| (Reads.one _).bind <| (Reads.one _).bind <|
    (Reads.take (n := 2) (w := [0, 0]) rfl).bind <| (u32_reads _).bind <| (u32_reads _).bind <|
    (u32_reads _).bind <| (Reads.take (n := 4) (w := [0, 0, 0, 0]) rfl).bind <|
    (u64_reads _).bind <| (u64_reads _).bind <| (u64_reads _).bind_pure _

/-- The header is accepted, and the rest is what followed it. -/
theorem takeHeader_buildHeader (payload rest : Bytes) :
    takeHeader (buildHeader rt m m.tokens.length payload.length ++ rest) =
      .ok (builtHeader rt m payload, rest) := by
  have hread := rawHeader_reads rt m m.tokens.length payload.length rest
  simp [takeHeader, hread, builtHeader]

/-- The trailer reads back field by field. -/
theorem rawTrailer_reads (offset len : Nat) (crc : UInt32) :
    Reads rawTrailer (buildTrailer offset len crc)
      ⟨offset % 2 ^ 64, len % 2 ^ 64, crc.toNat % 2 ^ 32⟩ :=
  (u64_reads _).bind <| (u64_reads _).bind <| (u32_reads _).bind <|
    (Reads.take (n := 4) (w := [0, 0, 0, 0]) rfl).bind_pure _

/-- The header takes 48 bytes. -/
@[simp] theorem length_buildHeader (count len : Nat) :
    (buildHeader rt m count len).length = 48 := rfl

/-- The trailer takes 24 bytes. -/
@[simp] theorem length_buildTrailer (offset len : Nat) (crc : UInt32) :
    (buildTrailer offset len crc).length = 24 := rfl

/-! ### The TLV section -/

/-- A record reads back, if its length fits. -/
theorem tlvEntry_reads {e : UInt8 × Bytes} (h : e.2.length < 2 ^ 32) :
    Reads tlvEntry (tlvRecord e) e :=
  (Reads.one _).bind <| (lengthPrefixed_reads h).bind_pure _

/-- A record is five bytes longer than its value. -/
@[simp] theorem length_tlvRecord (e : UInt8 × Bytes) : (tlvRecord e).length = 5 + e.2.length := by
  simp [tlvRecord]
  omega

/-- The section goes on behind a record that could be read. -/
theorem decodeTlvFrom_cons {fuel : Nat} {b tag : UInt8} {bin value rest : Bytes}
    (h : tlvEntry.run (b :: bin) = some ((tag, value), rest)) (acc : TlvFields) :
    decodeTlvFrom (fuel + 1) (b :: bin) acc =
      (storeTlv tag value acc).bind (decodeTlvFrom fuel rest) := by
  rw [decodeTlvFrom, h]
  dsimp only
  cases storeTlv tag value acc <;> rfl

/-- The rounds of the decoder over written records store them one after the other. -/
theorem decodeTlvFrom_records (acc : TlvFields) {es : List (UInt8 × Bytes)} {fuel : Nat}
    (hlen : ∀ e ∈ es, e.2.length < 2 ^ 32) (hfuel : (es.flatMap tlvRecord).length ≤ fuel) :
    decodeTlvFrom fuel (es.flatMap tlvRecord) acc =
      es.foldlM (fun acc e => storeTlv e.1 e.2 acc) acc := by
  induction es generalizing fuel acc with
  | nil => simp [decodeTlvFrom, pure, Except.pure]
  | cons e es ih =>
    rw [List.flatMap_cons, List.length_append, length_tlvRecord] at hfuel
    obtain ⟨fuel, rfl⟩ : ∃ n, fuel = n + 1 := ⟨fuel - 1, by omega⟩
    have hread := tlvEntry_reads (hlen e List.mem_cons_self) (es.flatMap tlvRecord)
    have hround : decodeTlvFrom (fuel + 1) (tlvRecord e ++ es.flatMap tlvRecord) acc =
        (storeTlv e.1 e.2 acc).bind (decodeTlvFrom fuel (es.flatMap tlvRecord)) :=
      decodeTlvFrom_cons hread acc
    rw [List.flatMap_cons, hround, List.foldlM_cons]
    cases hstore : storeTlv e.1 e.2 acc with
    | error err => rfl
    | ok acc' =>
      simp only [bind, Except.bind]
      exact ih _ (fun e' he' => hlen e' (List.mem_cons_of_mem e he')) (by omega)

/-- The bytes of a digest are a digest. -/
@[simp] theorem asDigest_bytes (d : Digest) : asDigest d.bytes = some d := by
  simp [asDigest, d.size_eq]

/-- Token ids come back modulo the width of their segment. -/
theorem decodeTokens_encodeTokens_mod (ts : List Token) :
    decodeTokens (encodeTokens ts) = some (ts.map (· % 2 ^ 32)) := by
  induction ts with
  | nil => rfl
  | cons t ts ih =>
    simp only [encodeTokens_cons, u32le, List.cons_append, List.nil_append, decodeTokens, ih,
      u32leValue_u32le, Option.map_some, List.map_cons]

/-- The fields the required records leave. -/
def requiredFields (q : QuantType) : TlvFields :=
  { TlvFields.empty with
    fingerprint := some m.fingerprint
    fingerprintMode := some m.fingerprintMode
    quantType := some q
    ctxParamsHash := some m.ctxParamsHash
    tokens := some (m.tokens.map (· % 2 ^ 32)) }

/-- Storing the required records fills their fields. -/
theorem storeTlv_required {b : UInt8} (hmode : fingerprintModeByte m.fingerprintMode = some b) :
    (requiredRecords m b).foldlM (fun acc e => storeTlv e.1 e.2 acc) TlvFields.empty =
      match quantAtom (quantByte m.quantType) with
      | none   => .error (.unknownQuantByte (quantByte m.quantType))
      | some q => .ok (requiredFields m q) := by
  have hatom := fingerprintModeAtom_of_byte hmode
  have htokens := decodeTokens_encodeTokens_mod m.tokens
  cases hq : quantAtom (quantByte m.quantType) <;>
    simp [requiredRecords, storeTlv, hatom, hq, htokens, requiredFields, bind, Except.bind,
      pure, Except.pure]

/-- An optional string that is written only when it is not empty. -/
def nonEmpty (bin : Bytes) : Option Bytes := if bin = [] then none else some bin

/-- Storing the optional records fills theirs, in any state of the others. -/
theorem storeTlv_optional (acc : TlvFields) (hacc : acc.hostname = none)
    (haccV : acc.erllamaVersion = none) (haccD : acc.saveReasonDetail = none) :
    (optionalRecords rt m).foldlM (fun acc e => storeTlv e.1 e.2 acc) acc =
      .ok { acc with
        hostname := nonEmpty (defaultHostname rt m)
        erllamaVersion := nonEmpty (defaultErllamaVersion rt m)
        saveReasonDetail := nonEmpty (m.saveReasonDetail.getD []) } := by
  obtain ⟨_, _, _, _, _, _, _, _⟩ := acc
  simp only at hacc haccV haccD
  subst hacc haccV haccD
  unfold optionalRecords nonEmpty
  by_cases h5 : defaultHostname rt m = [] <;> by_cases h6 : defaultErllamaVersion rt m = [] <;>
    by_cases h7 : m.saveReasonDetail.getD [] = [] <;>
    simp [h5, h6, h7, storeTlv, bind, Except.bind, pure, Except.pure]

/-! ### The whole file -/

/-- The records of a built file. -/
def records (b : UInt8) : List (UInt8 × Bytes) := requiredRecords m b ++ optionalRecords rt m

/-- The TLV section of a built file. -/
def tlvSection (b : UInt8) : Bytes := (records rt m b).flatMap tlvRecord

/-- The offset of the payload in a built file. -/
def builtOffset (b : UInt8) : Nat := 80 + m.text.length + (tlvSection rt m b).length

/-- The info map read from a built file, `q` being the label of its quant byte. -/
def builtInfo (b : UInt8) (q : QuantType) (payload : Bytes) : Info :=
  ⟨builtHeader rt m payload, ⟨builtOffset rt m b, payload.length, (crc32c payload).toNat⟩, m.text,
    m.fingerprint, m.fingerprintMode, q, m.ctxParamsHash, m.tokens.map (· % 2 ^ 32),
    nonEmpty (defaultHostname rt m), nonEmpty (defaultErllamaVersion rt m),
    nonEmpty (m.saveReasonDetail.getD [])⟩

/-- The sizes the format's segments can hold. -/
structure Fits (b : UInt8) (payload : Bytes) : Prop where
  text : m.text.length < 2 ^ 32
  tlv : (tlvSection rt m b).length < 2 ^ 32
  payload : payload.length < 2 ^ 64

/-- A file as `build` starts it and the payload completes it. -/
def builtFile (b : UInt8) (payload : Bytes) : Bytes :=
  buildHeader rt m m.tokens.length payload.length ++
    (buildTrailer (builtOffset rt m b) payload.length (crc32c payload) ++
      (lengthPrefixed m.text ++ (lengthPrefixed (tlvSection rt m b) ++ payload)))

variable {rt m} {b : UInt8} {payload : Bytes}

variable (rt payload) in
/-- `build` succeeds for every meta whose mode has a byte, and the payload completes it. -/
theorem build_eq (hmode : fingerprintModeByte m.fingerprintMode = some b) :
    ∃ built, build rt m payload = .ok built ∧ built.length = builtOffset rt m b ∧
      built ++ payload = builtFile rt m b payload := by
  have htlv : buildTlv rt m = some (tlvSection rt m b) := by
    rw [buildTlv, hmode]
    rfl
  have hoffset : 48 + 24 + (lengthPrefixed m.text).length +
      (lengthPrefixed (tlvSection rt m b)).length = builtOffset rt m b := by
    rw [length_lengthPrefixed, length_lengthPrefixed, builtOffset]
    omega
  have hbuild : build rt m payload = .ok (buildHeader rt m m.tokens.length payload.length ++
      (buildTrailer (builtOffset rt m b) payload.length (crc32c payload) ++
        (lengthPrefixed m.text ++ lengthPrefixed (tlvSection rt m b)))) := by
    rw [← hoffset]
    simp only [build, htlv]
  refine ⟨_, hbuild, ?_, ?_⟩
  · rw [← hoffset]
    simp only [List.length_append, length_buildHeader, length_buildTrailer]
    omega
  · simp only [builtFile, List.append_assoc]

/-- The file is its front and the payload. -/
theorem length_builtFile : (builtFile rt m b payload).length =
    builtOffset rt m b + payload.length := by
  simp only [builtFile, List.length_append, length_buildHeader, length_buildTrailer,
    length_lengthPrefixed, builtOffset]
  omega

/-- Behind its front the file is the payload. -/
theorem drop_builtFile : (builtFile rt m b payload).drop (builtOffset rt m b) = payload := by
  have happ : builtFile rt m b payload =
      (buildHeader rt m m.tokens.length payload.length ++
        (buildTrailer (builtOffset rt m b) payload.length (crc32c payload) ++
          (lengthPrefixed m.text ++ lengthPrefixed (tlvSection rt m b)))) ++ payload := by
    simp only [builtFile, List.append_assoc]
  rw [happ]
  refine List.drop_left' ?_
  simp only [List.length_append, length_buildHeader, length_buildTrailer, length_lengthPrefixed,
    builtOffset]
  omega

/-- A value is shorter than the section that holds it. -/
theorem Fits.records_lt (h : Fits rt m b payload) :
    ∀ e ∈ records rt m b, e.2.length < 2 ^ 32 := by
  intro e he
  have hle : (tlvRecord e).length ≤ (tlvSection rt m b).length :=
    (List.sublist_flatten_of_mem (List.mem_map_of_mem he)).length_le
  rw [length_tlvRecord] at hle
  have htlv := h.tlv
  omega

/-- The records of a built file decode to its meta. -/
theorem decodeTlv_tlvSection (hmode : fingerprintModeByte m.fingerprintMode = some b)
    (h : Fits rt m b payload) :
    decodeTlv (tlvSection rt m b) =
      match quantAtom (quantByte m.quantType) with
      | none   => .error (.unknownQuantByte (quantByte m.quantType))
      | some q => .ok { requiredFields m q with
          hostname := nonEmpty (defaultHostname rt m)
          erllamaVersion := nonEmpty (defaultErllamaVersion rt m)
          saveReasonDetail := nonEmpty (m.saveReasonDetail.getD []) } := by
  have hrounds := decodeTlvFrom_records TlvFields.empty h.records_lt
    (le_refl ((records rt m b).flatMap tlvRecord).length)
  have hrequired := storeTlv_required m hmode
  rw [decodeTlv, tlvSection, hrounds, records, List.foldlM_append, hrequired]
  cases quantAtom (quantByte m.quantType) with
  | none   => rfl
  | some q => exact storeTlv_optional rt m (requiredFields m q) rfl rfl rfl

/-- What `parse_meta/1` says about a built file, by the label of its quant byte. -/
theorem parseMeta_builtFile (hmode : fingerprintModeByte m.fingerprintMode = some b)
    (h : Fits rt m b payload) :
    parseMeta (builtFile rt m b payload) =
      match quantAtom (quantByte m.quantType) with
      | none   => .error (.unknownQuantByte (quantByte m.quantType))
      | some q => .ok (builtInfo rt m b q payload) := by
  have hoffset : builtOffset rt m b % 2 ^ 64 = builtOffset rt m b := by
    have htext := h.text
    have htlv := h.tlv
    rw [builtOffset]
    omega
  have hpayload : payload.length % 2 ^ 64 = payload.length := Nat.mod_eq_of_lt h.payload
  have hcrc : (crc32c payload).toNat % 2 ^ 32 = (crc32c payload).toNat :=
    Nat.mod_eq_of_lt (crc32c payload).toNat_lt
  have htrailer := rawTrailer_reads (builtOffset rt m b) payload.length (crc32c payload)
    (lengthPrefixed m.text ++ (lengthPrefixed (tlvSection rt m b) ++ payload))
  have htext := lengthPrefixed_reads h.text (lengthPrefixed (tlvSection rt m b) ++ payload)
  have htlv := lengthPrefixed_reads h.tlv payload
  have hdecode := decodeTlv_tlvSection hmode h
  rw [hoffset, hpayload, hcrc] at htrailer
  have hsize : (builtFile rt m b payload).length = builtOffset rt m b + payload.length :=
    length_builtFile
  unfold parseMeta
  rw [hsize, builtFile, takeHeader_buildHeader]
  simp only [bind, Except.bind, takeTrailer, htrailer, takeLengthPrefixed, htext, htlv, hdecode]
  cases quantAtom (quantByte m.quantType) with
  | none   => rfl
  | some q =>
    have hbytes : (builtHeader rt m payload).payloadByteCount = payload.length := hpayload
    simp [validateMetaConsistency, hbytes, requireField, requiredFields, builtInfo, bind,
      Except.bind, pure, Except.pure]

/-- **Round trip.** The payload of a built file is returned under the meta's own key, with the
    info map of the file. -/
theorem parse_builtFile (sha256 : Bytes → Digest)
    (hmode : fingerprintModeByte m.fingerprintMode = some b)
    (hquant : m.quantType.isNamed = true) (h : Fits rt m b payload) :
    parse sha256 (builtFile rt m b payload) (m.key sha256) =
      .ok (builtInfo rt m b m.quantType payload, payload) := by
  have hmeta := parseMeta_builtFile hmode h
  rw [quantAtom_quantByte, if_pos hquant] at hmeta
  have hcut : ((builtFile rt m b payload).drop (builtOffset rt m b)).take payload.length =
      payload := by
    rw [drop_builtFile, List.take_length]
  have hsize : builtOffset rt m b + payload.length ≤ (builtFile rt m b payload).length := by
    rw [length_builtFile]
  simp only [parse, hmeta, builtInfo, hcut, if_pos hsize, verify, Info.key, BuildMeta.key]
  simp

end Build

/-! ### Every meta the format can hold -/

/-- The fields of a meta fit the segments they are written to. -/
structure BuildMeta.InRange (m : BuildMeta) : Prop where
  fingerprintMode : ∃ b, fingerprintModeByte m.fingerprintMode = some b
  quantType : m.quantType.isNamed = true
  quantBits : m.quantBits < 2 ^ 8
  contextSize : m.contextSize < 2 ^ 32
  hitCount : m.hitCount.getD 0 < 2 ^ 32
  creationTime : ∀ t, m.creationTime = some t → t < 2 ^ 64
  lastUsedTime : ∀ t, m.lastUsedTime = some t → t < 2 ^ 64
  tokens : ∀ t ∈ m.tokens, t < 2 ^ 32
  promptText : m.text.length < 2 ^ 32

/-- The fields of an info map are those of the meta, where the meta gives them. -/
structure Info.Describes (info : Info) (m : BuildMeta) : Prop where
  saveReason : info.header.saveReason = m.saveReason
  quantBits : info.header.quantBits = m.quantBits
  tokens : info.tokens = m.tokens
  tokenCount : info.header.cachedTokenCount = m.tokens.length
  hitCount : info.header.hitCount = m.hitCount.getD 0
  contextSize : info.header.contextSize = m.contextSize
  creationTime : ∀ t, m.creationTime = some t → info.header.creationTime = t
  lastUsedTime : ∀ t, m.lastUsedTime = some t → info.header.lastUsedTime = t
  promptText : info.promptText = m.text
  fingerprint : info.fingerprint = m.fingerprint
  fingerprintMode : info.fingerprintMode = m.fingerprintMode
  quantType : info.quantType = m.quantType
  ctxParamsHash : info.ctxParamsHash = m.ctxParamsHash
  hostname : ∀ v, m.hostname = some v → v ≠ [] → info.hostname = some v
  erllamaVersion : ∀ v, m.erllamaVersion = some v → v ≠ [] → info.erllamaVersion = some v
  saveReasonDetail : ∀ v, m.saveReasonDetail = some v → v ≠ [] →
    info.saveReasonDetail = some v

/-- The token section is part of the TLV section, four bytes a token. -/
theorem length_tokens_le (rt : Runtime) (m : BuildMeta) (b : UInt8) :
    4 * m.tokens.length ≤ (tlvSection rt m b).length := by
  have hmem : ((0x09, encodeTokens m.tokens) : UInt8 × Bytes) ∈ records rt m b := by
    simp [records, requiredRecords]
  have hle : (tlvRecord (0x09, encodeTokens m.tokens)).length ≤ (tlvSection rt m b).length :=
    (List.sublist_flatten_of_mem (List.mem_map_of_mem hmem)).length_le
  have hlen : ∀ ts : List Token, (encodeTokens ts).length = 4 * ts.length := by
    intro ts
    induction ts with
    | nil => rfl
    | cons t ts ih =>
      rw [encodeTokens_cons, List.length_append, length_u32le, ih, List.length_cons]
      omega
  rw [length_tlvRecord, hlen] at hle
  omega

/-- A meta in range is described by the info map of its file. -/
theorem builtInfo_describes {rt : Runtime} {m : BuildMeta} {b : UInt8} {payload : Bytes}
    (hm : m.InRange) (h : Fits rt m b payload) :
    (builtInfo rt m b m.quantType payload).Describes m where
  saveReason := rfl
  quantBits := Nat.mod_eq_of_lt hm.quantBits
  tokens := by
    have hid : ∀ t ∈ m.tokens, t % 2 ^ 32 = t := fun t ht => Nat.mod_eq_of_lt (hm.tokens t ht)
    calc m.tokens.map (· % 2 ^ 32) = m.tokens.map id := List.map_congr_left hid
      _ = m.tokens := List.map_id _
  tokenCount := by
    have hle := length_tokens_le rt m b
    have htlv := h.tlv
    exact Nat.mod_eq_of_lt (by omega)
  hitCount := Nat.mod_eq_of_lt hm.hitCount
  contextSize := Nat.mod_eq_of_lt hm.contextSize
  creationTime t ht := by
    have hlt := hm.creationTime t ht
    simp only [builtInfo, builtHeader, ht, Option.getD_some]
    exact Nat.mod_eq_of_lt hlt
  lastUsedTime t ht := by
    have hlt := hm.lastUsedTime t ht
    simp only [builtInfo, builtHeader, ht, Option.getD_some]
    exact Nat.mod_eq_of_lt hlt
  promptText := rfl
  fingerprint := rfl
  fingerprintMode := rfl
  quantType := rfl
  ctxParamsHash := rfl
  hostname v hv hne := by simp [builtInfo, defaultHostname, nonEmpty, hv, hne]
  erllamaVersion v hv hne := by simp [builtInfo, defaultErllamaVersion, nonEmpty, hv, hne]
  saveReasonDetail v hv hne := by simp [builtInfo, nonEmpty, hv, hne]

/-- **Round trip of the format.** A meta whose fields fit, with a payload that fits: `build`
    succeeds, and the file it starts parses under the meta's key to the same payload and to an
    info map that describes the meta; `parse_meta/1` gives the same map. -/
theorem parse_build (sha256 : Bytes → Digest) (rt : Runtime) (m : BuildMeta) (payload : Bytes)
    (hm : m.InRange) (htlv : ∀ tlv, buildTlv rt m = some tlv → tlv.length < 2 ^ 32)
    (hpayload : payload.length < 2 ^ 64) :
    ∃ built info, build rt m payload = .ok built ∧
      parse sha256 (built ++ payload) (m.key sha256) = .ok (info, payload) ∧
      parseMeta (built ++ payload) = .ok info ∧ info.Describes m := by
  obtain ⟨b, hmode⟩ := hm.fingerprintMode
  obtain ⟨built, hbuild, _, hfile⟩ := build_eq rt payload hmode
  have hsection : buildTlv rt m = some (tlvSection rt m b) := by
    rw [buildTlv, hmode]
    rfl
  have hfits : Fits rt m b payload := ⟨hm.promptText, htlv _ hsection, hpayload⟩
  have hmeta := parseMeta_builtFile hmode hfits
  rw [quantAtom_quantByte, if_pos hm.quantType] at hmeta
  refine ⟨built, builtInfo rt m b m.quantType payload, hbuild, ?_, ?_,
    builtInfo_describes hm hfits⟩
  · rw [hfile]
    exact parse_builtFile sha256 hmode hm.quantType hfits
  · rw [hfile]
    exact hmeta

/-- A small checkpoint. -/
def sampleMeta : BuildMeta where
  saveReason := .cold
  quantBits := 16
  fingerprint := Digest.fill 1
  fingerprintMode := .safe
  quantType := .f16
  ctxParamsHash := Digest.fill 2
  tokens := [7, 8]
  contextSize := 4096
  creationTime := some 5
  lastUsedTime := none
  hitCount := none
  promptText := some [104, 105]
  hostname := some []
  erllamaVersion := none
  saveReasonDetail := some [33]

/-- A small meta is in range. -/
theorem sampleMeta_inRange : sampleMeta.InRange where
  fingerprintMode := ⟨0, rfl⟩
  quantType := rfl
  quantBits := by decide
  contextSize := by decide
  hitCount := by decide
  creationTime := by
    rintro t ⟨⟩
    decide
  lastUsedTime := by
    rintro t ⟨⟩
  tokens := by decide
  promptText := by decide

set_option maxRecDepth 2000 in
/-- A small file comes back. -/
theorem parse_build_sample : ∃ built info,
    build ⟨1, [104], none⟩ sampleMeta [1, 2, 3] = .ok built ∧
      parse (fun _ => Digest.fill 9) (built ++ [1, 2, 3])
        (sampleMeta.key fun _ => Digest.fill 9) = .ok (info, [1, 2, 3]) ∧
      parseMeta (built ++ [1, 2, 3]) = .ok info ∧ info.Describes sampleMeta :=
  parse_build (fun _ => Digest.fill 9) ⟨1, [104], none⟩ sampleMeta [1, 2, 3] sampleMeta_inRange
    (by
      rintro tlv ⟨⟩
      decide)
    (by decide)

end Erllama.Kvc
