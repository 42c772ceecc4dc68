import Erllama.Kvc.HitCount
import Erllama.Opts.LoadConfig
import Erllama.Publish.Metadata

namespace Erllama.Opts

open Lib Kvc MetaSrv Publish

/-!
# What an accepted config saves

The load config takes any atom for `quant_type`; the key derivation gives every atom it does not
name one byte, and the parser has no label for that byte.  A file of such a model is written,
linked, read back and deleted.

* `buildInitData`, `buildMetaFor` — what a save of the model is described with.
* `Saved` — the file builds, parses under its key, and is not deleted when it is finalised.
* `finalise_files` — finalising deletes the files that do not parse, and no others.
* `accepted_saved_iff` — when a save of an accepted config is kept.
-/

/-! ### The fields of the model -/

/-- The labels the key module names. -/
def quantNames : List (String × QuantType) :=
  [("f32", .f32), ("f16", .f16), ("bf16", .bf16), ("q4_0", .q4_0), ("q4_1", .q4_1),
   ("q5_0", .q5_0), ("q5_1", .q5_1), ("q8_0", .q8_0), ("q2_k", .q2_k), ("q3_k_s", .q3_k_s),
   ("q3_k_m", .q3_k_m), ("q3_k_l", .q3_k_l), ("q4_k_m", .q4_k_m), ("q4_k_s", .q4_k_s),
   ("q5_k_m", .q5_k_m), ("q5_k_s", .q5_k_s), ("q6_k", .q6_k), ("q8_k", .q8_k),
   ("iq1_s", .iq1_s), ("iq1_m", .iq1_m), ("iq2_xxs", .iq2_xxs), ("iq2_xs", .iq2_xs),
   ("iq2_s", .iq2_s), ("iq2_m", .iq2_m), ("iq3_xxs", .iq3_xxs), ("iq3_xs", .iq3_xs),
   ("iq3_s", .iq3_s), ("iq3_m", .iq3_m), ("iq4_nl", .iq4_nl), ("iq4_xs", .iq4_xs)]

/-- The label of an atom. -/
def quantOf (name : String) : QuantType :=
  ((quantNames.find? fun e => e.1 = name).map Prod.snd).getD (.other name.toUTF8.toList)

/-- The mode of an atom. -/
def modeOf : String → FingerprintMode
  | "safe"         => .safe
  | "gguf_chunked" => .ggufChunked
  | "fast_unsafe"  => .fastUnsafe
  | name           => .other name.length

/-- The atom under a key, if there is one. -/
def atomAt (key : String) (c : Entries) : Option String :=
  match find key c with
  | some (.atom a) => some a
  | _              => none

/-- The integer under a key, if there is one. -/
def intAt (key : String) (c : Entries) : Option Nat :=
  match find key c with
  | some (.int n) => some n.toNat
  | _             => none

/-- The 32-byte binary under a key, if there is one. -/
def hashAt (key : String) (c : Entries) : Option Digest :=
  match find key c with
  | some (.bin bytes) => asDigest bytes
  | _                 => none

/-- The fields of `#data{}` that a save is described with. -/
structure InitData where
  fingerprint : Digest
  fingerprintMode : FingerprintMode
  quantType : QuantType
  quantBits : Nat
  ctxParamsHash : Digest
  contextSize : Nat

/-- `build_init_data/4`; `appMode` is the application's `fingerprint_mode`. -/
def buildInitData (appMode : FingerprintMode) (c : Entries) : InitData where
  fingerprint := (hashAt "fingerprint" c).getD (Digest.fill 0)
  fingerprintMode := ((atomAt "fingerprint_mode" c).map modeOf).getD appMode
  quantType := ((atomAt "quant_type" c).map quantOf).getD .f16
  quantBits := (intAt "quant_bits" c).getD 16
  ctxParamsHash := (hashAt "ctx_params_hash" c).getD (Digest.fill 0)
  contextSize := (intAt "context_size" c).getD 4096

/-- `build_meta_for/4`: the fingerprint is the request's, which adapters may have changed. -/
def buildMetaFor (d : InitData) (reason : SaveReason) (requestFp : Option Digest)
    (tokens : List Token) (promptText : Bytes) : BuildMeta where
  saveReason := reason
  quantBits := d.quantBits
  fingerprint := requestFp.getD d.fingerprint
  fingerprintMode := d.fingerprintMode
  quantType := d.quantType
  ctxParamsHash := d.ctxParamsHash
  tokens := tokens
  contextSize := d.contextSize
  creationTime := none
  lastUsedTime := none
  hitCount := none
  promptText := some promptText
  hostname := none
  erllamaVersion := none
  saveReasonDetail := none

/-! ### Saves that are kept -/

/-- The save builds, its file parses under its key, and `finalise/5` leaves a file that it can
    read under its final name. -/
structure Saved (sha256 : Bytes → Digest) (rt : Runtime) (m : BuildMeta) (payload : Bytes) :
    Prop where
  parses : ∃ built info read, build rt m payload = .ok built ∧
    parse sha256 (built ++ payload) (m.key sha256) = .ok (info, read)
  stays : ∀ built, build rt m payload = .ok built →
    ∀ (hitBias : Nat → Int → Int) (root : Path) (u : Nat) (x : Surroundings) (s : State),
      (∀ n, (x.fault n).fails = false) →
      s.files (finalPath root (m.key sha256)) = some (built ++ payload) →
      (runAlone sha256 hitBias u x
        (finalise sha256 (m.key sha256) built (finalPath root (m.key sha256)) root) s).2.files
          (finalPath root (m.key sha256)) = some (built ++ payload)

section Finalise

variable {sha256 : Bytes → Digest} {hitBias : Nat → Int → Int} {root p : Path} {u : Nat}
  {x : Surroundings} {s : State} {key : CacheKey} {built bin : Bytes}

/-- Without faults, finalising keeps exactly the files that parse. -/
theorem finalise_files (hx : ∀ n, (x.fault n).fails = false) (hp : s.files p = some bin) :
    (runAlone sha256 hitBias u x (finalise sha256 key built p root) s).2.files p =
      if (parse sha256 bin key).isOk then some bin else none := by
  have hends : Ends sha256 hitBias u x (fun _ _ t => t.files p =
      if (parse sha256 bin key).isOk then some bin else none) 0
      (finalise sha256 key built p root) s := by
    intro r t hsync
    have hsame := does_quiet rfl hsync
    subst hsame
    cases r with
    | error e =>
      -- a directory sync without a fault succeeds
      have hanswer := congrArg Prod.fst hsync
      simp [alone, perform, Surroundings.faultOf, hx] at hanswer
    | ok _ =>
      refine Prog.Ensures.bind (p := validateAt sha256 p key) (ends_validateAt hp)
        fun m r t' hr => ?_
      obtain ⟨-, rfl, hok⟩ := hr
      cases r with
      | ok y =>
        rw [if_pos (hok.mp rfl).2]
        refine Prog.Ensures.bind (p := fileSize p) (ends_fileSize hp) fun m size t' hsize => ?_
        obtain ⟨rfl, rfl⟩ := hsize
        exact hp
      | error e =>
        have hparse : ¬(parse sha256 bin key).isOk := fun h => by
          have := hok.mpr ⟨hx _, h⟩
          cases this
        rw [if_neg hparse]
        intro r t'' hdelete
        have hanswer := congrArg Prod.snd hdelete
        simp only [alone, perform, Surroundings.faultOf, hx, hp] at hanswer
        rw [← hanswer]
        exact files_setFile_self p none t'
  obtain ⟨m, h⟩ := hends.runAlone
  exact h

end Finalise

/-! ### Which files parse -/

section Parses

variable {sha256 : Bytes → Digest} {rt : Runtime} {m : BuildMeta} {b : UInt8} {payload : Bytes}

/-- A built file whose metadata can be read has a payload that its length field holds. -/
theorem payload_lt_of_parseMeta (htext : m.text.length < 2 ^ 32)
    (htlv : (tlvSection rt m b).length < 2 ^ 32) {info : Info}
    (h : parseMeta (builtFile rt m b payload) = .ok info) : payload.length < 2 ^ 64 := by
  have hoffset : builtOffset rt m b % 2 ^ 64 = builtOffset rt m b := by
    rw [builtOffset]
    omega
  have hsize : (builtFile rt m b payload).length = builtOffset rt m b + payload.length :=
    length_builtFile
  have htrailer := rawTrailer_reads (builtOffset rt m b) payload.length (crc32c payload)
    (lengthPrefixed m.text ++ (lengthPrefixed (tlvSection rt m b) ++ payload))
  have hread := lengthPrefixed_reads htext (lengthPrefixed (tlvSection rt m b) ++ payload)
  have hrecords := lengthPrefixed_reads htlv payload
  rw [hoffset] at htrailer
  unfold parseMeta at h
  rw [hsize, builtFile, takeHeader_buildHeader] at h
  simp only [bind, Except.bind, takeTrailer, htrailer, takeLengthPrefixed, hread, hrecords] at h
  split at h
  · cases h
  · -- the file ends where the trailer says, so its length is the length modulo 2 ^ 64
    have hend : builtOffset rt m b + payload.length =
        builtOffset rt m b + payload.length % 2 ^ 64 := (validateMetaConsistency_ok h).2.2.2.2
    omega

/-- A built file parses under its key iff its label has a byte of its own and its payload fits
    the length field. -/
theorem parse_builtFile_iff (hmode : fingerprintModeByte m.fingerprintMode = some b)
    (htext : m.text.length < 2 ^ 32) (htlv : (tlvSection rt m b).length < 2 ^ 32) :
    (∃ info read, parse sha256 (builtFile rt m b payload) (m.key sha256) = .ok (info, read)) ↔
      m.quantType.isNamed = true ∧ payload.length < 2 ^ 64 := by
  constructor
  · rintro ⟨info, read, hparse⟩
    have hmeta := (parseMeta_of_parse hparse).1
    have hpayload := payload_lt_of_parseMeta htext htlv hmeta
    refine ⟨?_, hpayload⟩
    by_contra hquant
    rw [parseMeta_builtFile hmode ⟨htext, htlv, hpayload⟩, quantAtom_quantByte,
      if_neg hquant] at hmeta
    exact nomatch hmeta
  · rintro ⟨hquant, hpayload⟩
    exact ⟨_, _, parse_builtFile sha256 hmode hquant ⟨htext, htlv, hpayload⟩⟩

/-- A save is kept iff its mode and its label have bytes of their own and its payload fits the
    length field. -/
theorem saved_iff (htext : m.text.length < 2 ^ 32)
    (htlv : ∀ tlv, buildTlv rt m = some tlv → tlv.length < 2 ^ 32) :
    Saved sha256 rt m payload ↔ (∃ b, fingerprintModeByte m.fingerprintMode = some b) ∧
      m.quantType.isNamed = true ∧ payload.length < 2 ^ 64 := by
  constructor
  · intro h
    obtain ⟨built, info, read, hbuild, hparse⟩ := h.parses
    obtain ⟨b, hmode, hfile⟩ := build_eq_builtFile hbuild
    have hsection : buildTlv rt m = some (tlvSection rt m b) := by
      rw [buildTlv, hmode]
      rfl
    rw [hfile] at hparse
    exact ⟨⟨b, hmode⟩, (parse_builtFile_iff hmode htext (htlv _ hsection)).mp ⟨info, read, hparse⟩⟩
  · rintro ⟨⟨b, hmode⟩, hfits⟩
    have hsection : buildTlv rt m = some (tlvSection rt m b) := by
      rw [buildTlv, hmode]
      rfl
    obtain ⟨info, read, hparse⟩ : ∃ info read,
        parse sha256 (builtFile rt m b payload) (m.key sha256) = .ok (info, read) :=
      (parse_builtFile_iff hmode htext (htlv _ hsection)).mpr hfits
    constructor
    · obtain ⟨built, hbuild, -, hfile⟩ := build_eq rt payload hmode
      exact ⟨built, info, read, hbuild, hfile ▸ hparse⟩
    · intro built hbuild hitBias root u x s hx hp
      obtain ⟨b', hmode', hfile⟩ := build_eq_builtFile hbuild
      obtain rfl : b = b' := Option.some.inj (hmode.symm.trans hmode')
      rw [finalise_files hx hp, hfile, hparse]
      rfl

end Parses

/-! ### Accepted configs -/

/-- The config's label is one of the thirty, if it gives one; the application's mode has a byte,
    if the config gives none; and the payload fits the length field. -/
structure Savable (appMode : FingerprintMode) (c : Entries) (payload : Bytes) : Prop where
  quantType : ∀ v, find "quant_type" c = some v → ∃ name ∈ quantNames.map Prod.fst, v = .atom name
  fingerprintMode : find "fingerprint_mode" c = none →
    ∃ b, fingerprintModeByte appMode = some b
  payload : payload.length < 2 ^ 64

/-- The atoms with a label of their own. -/
theorem isNamed_quantOf (name : String) :
    (quantOf name).isNamed = true ↔ name ∈ quantNames.map Prod.fst := by
  have hnamed : ∀ e ∈ quantNames, e.2.isNamed = true := by decide
  unfold quantOf
  cases hfind : quantNames.find? fun e => e.1 = name with
  | none =>
    refine ⟨nofun, fun hmem => ?_⟩
    obtain ⟨e, he, rfl⟩ := List.mem_map.mp hmem
    have := List.find?_eq_none.mp hfind e he
    simp at this
  | some e =>
    have hname : e.1 = name := by
      have := List.find?_some hfind
      simpa using this
    have hmem := List.mem_of_find?_eq_some hfind
    exact ⟨fun _ => List.mem_map.mpr ⟨e, hmem, hname⟩, fun _ => hnamed e hmem⟩

/-- The mode of an accepted config has a byte. -/
theorem modeOf_byte {v : Term} (h : v.memberOf ["safe", "gguf_chunked", "fast_unsafe"]) :
    ∃ name, v = .atom name ∧ ∃ b, fingerprintModeByte (modeOf name) = some b := by
  cases v with
  | atom name =>
    have hmem : name = "safe" ∨ name = "gguf_chunked" ∨ name = "fast_unsafe" := by
      simpa [Term.memberOf, Term.isAtom] using h
    refine ⟨name, rfl, ?_⟩
    rcases hmem with rfl | rfl | rfl
    · exact ⟨0, rfl⟩
    · exact ⟨1, rfl⟩
    · exact ⟨2, rfl⟩
  | _ => cases h

variable {w : World} {config : Term} {c : Entries}

/-- A value of an accepted config passes the check of its key. -/
theorem accepted_base (h : loadConfig w config = .ok c) {key : String} {pred : Term → Bool}
    (hcheck : (key, pred) ∈ baseLoadChecks) {v : Term} (hv : find key c = some v) : pred v :=
  checkTypes_ok (checkLoadTypes_ok (accepted_types h)).1 (List.mem_append_left _ hcheck) hv

/-- The label of an accepted config is named iff what the config gives is. -/
theorem accepted_quantType (h : loadConfig w config = .ok c) (appMode : FingerprintMode) :
    (buildInitData appMode c).quantType.isNamed = true ↔
      ∀ v, find "quant_type" c = some v → ∃ name ∈ quantNames.map Prod.fst, v = .atom name := by
  show (((atomAt "quant_type" c).map quantOf).getD .f16).isNamed = true ↔ _
  unfold atomAt
  cases hfind : find "quant_type" c with
  | none => exact ⟨nofun, fun _ => rfl⟩
  | some v =>
    have hatom : v.isAnyAtom := accepted_base h (by simp [baseLoadChecks]) hfind
    cases v with
    | atom name =>
      refine (isNamed_quantOf name).trans ⟨fun hmem v hv => ?_, fun hall => ?_⟩
      · exact ⟨name, hmem, (Option.some.inj hv).symm⟩
      · obtain ⟨name', hmem, heq⟩ := hall _ rfl
        cases heq
        exact hmem
    | _ => exact nomatch hatom

/-- The mode of an accepted config has a byte iff the application's has where it is used. -/
theorem accepted_mode (h : loadConfig w config = .ok c) (appMode : FingerprintMode) :
    (∃ b, fingerprintModeByte (buildInitData appMode c).fingerprintMode = some b) ↔
      (find "fingerprint_mode" c = none → ∃ b, fingerprintModeByte appMode = some b) := by
  show (∃ b, fingerprintModeByte
    (((atomAt "fingerprint_mode" c).map modeOf).getD appMode) = some b) ↔ _
  unfold atomAt
  cases hfind : find "fingerprint_mode" c with
  | none => exact ⟨fun hb _ => hb, fun hb => hb rfl⟩
  | some v =>
    have hcheck : ("fingerprint_mode", Term.memberOf ["safe", "gguf_chunked", "fast_unsafe"]) ∈
        baseLoadChecks := by
      simp [baseLoadChecks]
    obtain ⟨name, rfl, hbyte⟩ := modeOf_byte (accepted_base h hcheck hfind)
    exact ⟨fun _ => nofun, fun _ => hbyte⟩

/-- **Saves of an accepted config.** A save builds, parses under its own key and survives its
    own publishing iff the config's label is one of the thirty, the mode it is described with
    has a byte and the payload fits the length field. -/
theorem accepted_saved_iff (h : loadConfig w config = .ok c) (appMode : FingerprintMode)
    (sha256 : Bytes → Digest) (rt : Runtime) (reason : SaveReason) (requestFp : Option Digest)
    (tokens : List Token) (promptText payload : Bytes) (htext : promptText.length < 2 ^ 32)
    (htlv : ∀ tlv,
      buildTlv rt (buildMetaFor (buildInitData appMode c) reason requestFp tokens promptText) =
        some tlv → tlv.length < 2 ^ 32) :
    Saved sha256 rt
        (buildMetaFor (buildInitData appMode c) reason requestFp tokens promptText) payload ↔
      Savable appMode c payload := by
  refine (saved_iff (by exact htext) htlv).trans ⟨?_, ?_⟩
  · rintro ⟨hmode, hquant, hpayload⟩
    exact ⟨(accepted_quantType h appMode).mp hquant, (accepted_mode h appMode).mp hmode, hpayload⟩
  · intro hsavable
    exact ⟨(accepted_mode h appMode).mpr hsavable.fingerprintMode,
      (accepted_quantType h appMode).mpr hsavable.quantType, hsavable.payload⟩

/-- A node with one disk tier. -/
def diskWorld : World where
  ensureLoaded _ := true
  isRegular _ := false
  whereis name := name = "my_disk"
  tierOf name := if name = "my_disk" then some "disk" else none

/-- A config of the disk tier with this label. -/
def diskConfig (quant : String) : Entries :=
  [(.atom "backend", .atom "erllama_model_stub"), (.atom "tier", .atom "disk"),
   (.atom "tier_srv", .atom "my_disk"), (.atom "quant_type", .atom quant)]

/-- A save of it: one token, one byte of text. -/
def diskMeta (quant : String) : BuildMeta :=
  buildMetaFor (buildInitData .safe (diskConfig quant)) .finish none [7] [104]

set_option maxRecDepth 2000 in
theorem diskConfig_saved : Saved (fun _ => Digest.fill 9) ⟨1, [104], none⟩
    (diskMeta "q4_k_m") [1, 2, 3] := by
  have haccepted : loadConfig diskWorld (.map (diskConfig "q4_k_m")) =
      .ok (diskConfig "q4_k_m") := rfl
  refine (accepted_saved_iff haccepted .safe (fun _ => Digest.fill 9) ⟨1, [104], none⟩ .finish none
    [7] [104] [1, 2, 3] (by decide) ?_).mpr ?_
  · rintro tlv ⟨⟩
    decide
  · constructor
    · rintro v ⟨⟩
      exact ⟨"q4_k_m", by decide, rfl⟩
    · exact fun _ => ⟨0, rfl⟩
    · decide

/-- The label `mxfp4` is accepted; its file builds, is refused by the parser for its quant byte,
    and is deleted when it is finalised. -/
theorem mxfp4_not_saved :
    loadConfig diskWorld (.map (diskConfig "mxfp4")) = .ok (diskConfig "mxfp4") ∧
      (∃ built, build ⟨1, [104], none⟩ (diskMeta "mxfp4") [1, 2, 3] = .ok built ∧
        parse (fun _ => Digest.fill 9) (built ++ [1, 2, 3]) (Digest.fill 9) =
          .error (.unknownQuantByte 255) ∧
        ∀ (hitBias : Nat → Int → Int) (p : Path) (x : Surroundings) (s : State),
          (∀ n, (x.fault n).fails = false) → s.files p = some (built ++ [1, 2, 3]) →
          (runAlone (fun _ => Digest.fill 9) hitBias 0 x
            (finalise (fun _ => Digest.fill 9) (Digest.fill 9) built p []) s).2.files p = none) ∧
      ¬Saved (fun _ => Digest.fill 9) ⟨1, [104], none⟩ (diskMeta "mxfp4") [1, 2, 3] := by
  have hmode : fingerprintModeByte (diskMeta "mxfp4").fingerprintMode = some 0 := rfl
  obtain ⟨built, hbuild, -, hfile⟩ :=
    build_eq (m := diskMeta "mxfp4") ⟨1, [104], none⟩ [1, 2, 3] hmode
  have hparse : parse (fun _ => Digest.fill 9) (built ++ [1, 2, 3]) (Digest.fill 9) =
      .error (.unknownQuantByte 255) := by
    rw [hfile]
    decide +kernel
  refine ⟨rfl, ⟨built, hbuild, hparse, fun hitBias p x s hx hp => ?_⟩, fun h => ?_⟩
  · rw [finalise_files hx hp, hparse]
    rfl
  obtain ⟨built', info, read, hbuild', hparse'⟩ := h.parses
  obtain rfl : built = built' := Except.ok.inj (hbuild.symm.trans hbuild')
  exact nomatch hparse.symm.trans hparse'

end Erllama.Opts
