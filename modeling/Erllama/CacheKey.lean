import Erllama.Basic
import Mathlib.Data.List.Sort
import Mathlib.Data.Rat.Floor
import Mathlib.Data.Prod.Lex

namespace Erllama

/-!
# Cache-key derivation (`erllama_cache_key`)

A key is the SHA-256 of `fingerprint ‖ quant byte ‖ context-params hash ‖ rendered bytes`.
SHA-256 itself is a parameter `sha256 : Bytes → Digest`; results that need it to be
collision free say so, and only for the inputs that occur.

* `keyPreimage` / `makeText` — the hashed bytes and the key of a rendered text.
* `keyPreimage_inj` — the three namespace fields have fixed width, so equal preimages
  have equal fields and equal texts.
* `effectiveFingerprint` — the fingerprint that folds in the attached LoRA adapters.
* `quantByte` / `quantAtom` — the byte of a quantisation label, and the label of a byte.
* `encodeTokens` / `decodeTokens` — the token section of a checkpoint, with its round trip.
-/

/-- The quantisation labels the key module names; any other atom is `other`. -/
inductive QuantType where
  | f32 | f16 | bf16 | q4_0 | q4_1 | q5_0 | q5_1 | q8_0
  | q2_k | q3_k_s | q3_k_m | q3_k_l | q4_k_m | q4_k_s | q5_k_m | q5_k_s | q6_k | q8_k
  | iq1_s | iq1_m | iq2_xxs | iq2_xs | iq2_s | iq2_m | iq3_xxs | iq3_xs | iq3_s | iq3_m
  | iq4_nl | iq4_xs
  | other (name : Bytes)
deriving DecidableEq

/-- `quant_byte/1`: the cache-internal enumeration; unknown labels share byte 255. -/
def quantByte : QuantType → UInt8
  | .f32 => 0      | .f16 => 1      | .q4_0 => 2     | .q4_1 => 3     | .q5_0 => 4
  | .q5_1 => 5     | .q8_0 => 6     | .q4_k_m => 7   | .q4_k_s => 8   | .q5_k_m => 9
  | .q5_k_s => 10  | .q6_k => 11    | .q8_k => 12    | .q2_k => 13    | .q3_k_s => 14
  | .q3_k_m => 15  | .q3_k_l => 16  | .iq2_xxs => 17 | .iq2_xs => 18  | .iq2_s => 19
  | .iq2_m => 20   | .iq3_xxs => 21 | .iq3_xs => 22  | .iq3_s => 23   | .iq3_m => 24
  | .iq1_s => 25   | .iq1_m => 26   | .iq4_nl => 27  | .iq4_xs => 28  | .bf16 => 29
  | .other _ => 255

/-- `quant_atom/1`: the label of a byte; bytes from 30 on have none. -/
def quantAtom : UInt8 → Option QuantType
  | 0 => some .f32      | 1 => some .f16      | 2 => some .q4_0     | 3 => some .q4_1
  | 4 => some .q5_0     | 5 => some .q5_1     | 6 => some .q8_0     | 7 => some .q4_k_m
  | 8 => some .q4_k_s   | 9 => some .q5_k_m   | 10 => some .q5_k_s  | 11 => some .q6_k
  | 12 => some .q8_k    | 13 => some .q2_k    | 14 => some .q3_k_s  | 15 => some .q3_k_m
  | 16 => some .q3_k_l  | 17 => some .iq2_xxs | 18 => some .iq2_xs  | 19 => some .iq2_s
  | 20 => some .iq2_m   | 21 => some .iq3_xxs | 22 => some .iq3_xs  | 23 => some .iq3_s
  | 24 => some .iq3_m   | 25 => some .iq1_s   | 26 => some .iq1_m   | 27 => some .iq4_nl
  | 28 => some .iq4_xs  | 29 => some .bf16    | _ => none

/-- One of the thirty labels the key module names. -/
def QuantType.isNamed : QuantType → Bool
  | .other _ => false
  | _        => true

/-- Every named label is read back from its byte; the shared byte has no label. -/
theorem quantAtom_quantByte (qt : QuantType) :
    quantAtom (quantByte qt) = if qt.isNamed then some qt else none := by
  cases qt <;> rfl

/-! ### Keys of rendered text -/

/-- The bytes `make_text/4` hashes. -/
def keyPreimage (fp : Digest) (qt : QuantType) (ctxHash : Digest) (text : Bytes) : Bytes :=
  fp.bytes ++ quantByte qt :: (ctxHash.bytes ++ text)

/-- **Fixed-width fields.** A preimage determines the fingerprint, the quant byte, the
    context-params hash and the text it was built from. -/
theorem keyPreimage_inj {fp fp' ctx ctx' : Digest} {qt qt' : QuantType} {text text' : Bytes}
    (h : keyPreimage fp qt ctx text = keyPreimage fp' qt' ctx' text') :
    fp = fp' ∧ quantByte qt = quantByte qt' ∧ ctx = ctx' ∧ text = text' := by
  obtain ⟨hfp, hrest⟩ := List.append_inj h (by rw [fp.size_eq, fp'.size_eq])
  obtain ⟨hqt, hrest⟩ := List.cons.inj hrest
  obtain ⟨hctx, htext⟩ := List.append_inj hrest (by rw [ctx.size_eq, ctx'.size_eq])
  exact ⟨Digest.bytes_injective hfp, hqt, Digest.bytes_injective hctx, htext⟩

section Hash

variable (sha256 : Bytes → Digest)

/-- `make_text/4`: the key of a rendered byte string in a namespace. -/
def makeText (fp : Digest) (qt : QuantType) (ctxHash : Digest) (text : Bytes) : CacheKey :=
  sha256 (keyPreimage fp qt ctxHash text)

/-- `namespace/3`: the digest of the three namespace fields alone. -/
def namespaceKey (fp : Digest) (qt : QuantType) (ctxHash : Digest) : Digest :=
  sha256 (fp.bytes ++ quantByte qt :: ctxHash.bytes)

/-! ### Effective fingerprint of an adapter set -/

/-- Erlang's `round/1`: the nearest integer, halves away from zero. -/
def erlRound (q : ℚ) : ℤ :=
  if 0 ≤ q then ⌊q + 1 / 2⌋ else -⌊-q + 1 / 2⌋

/-- `(adapter_sha256 || i64_le(round(Scale * 2^32)))` for one attached adapter. -/
def adapterBytes (a : Digest × ℚ) : Bytes :=
  a.1.bytes ++ u64le (erlRound (a.2 * 2 ^ 32))

/-- `lists:sort/1` on `{Sha, Scale}` pairs: by sha, then by scale. -/
def sortAdapters (adapters : List (Digest × ℚ)) : List (Digest × ℚ) :=
  adapters.insertionSort fun a b => toLex a ≤ toLex b

/-- `effective_fingerprint/2`: the base fingerprint when no adapter is attached, else the
    hash of the base fingerprint and the sorted adapter pairs. -/
def effectiveFingerprint (fp : Digest) : List (Digest × ℚ) → Digest
  | []       => fp
  | adapters => sha256 (fp.bytes ++ (sortAdapters adapters).flatMap adapterBytes)

end Hash

/-! ### The token section -/

/-- `encode_tokens/1`. -/
def encodeTokens (tokens : List Token) : Bytes :=
  tokens.flatMap u32le

/-- `decode_tokens/1`: `none` when the size is not a multiple of four, where the source
    has no matching clause. -/
def decodeTokens : Bytes → Option (List Token)
  | []                        => some []
  | b0 :: b1 :: b2 :: b3 :: r => (decodeTokens r).map (u32leValue b0 b1 b2 b3 :: ·)
  | _                         => none

@[simp] theorem encodeTokens_cons (t : Token) (ts : List Token) :
    encodeTokens (t :: ts) = u32le t ++ encodeTokens ts := rfl

/-- **Round trip.** Token ids below `2 ^ 32` are read back as they were written. -/
theorem decodeTokens_encodeTokens {ts : List Token} (h : ∀ t ∈ ts, t < 2 ^ 32) :
    decodeTokens (encodeTokens ts) = some ts := by
  induction ts with
  | nil => rfl
  | cons t ts ih =>
    have ht : t % 2 ^ 32 = t := Nat.mod_eq_of_lt (h t List.mem_cons_self)
    have hts := ih fun t' ht' => h t' (List.mem_cons_of_mem t ht')
    simp only [encodeTokens_cons, u32le, List.cons_append, List.nil_append, decodeTokens,
      hts, u32leValue_u32le, ht, Option.map_some]

end Erllama
