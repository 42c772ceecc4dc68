import Mathlib.Data.List.Lex
import Mathlib.Order.Basic
import Mathlib.Data.UInt

namespace Erllama

/-!
# Bytes, digests and names shared by the whole model

* `Bytes` — an Erlang binary, as the list of its bytes.
* `Digest` — a `<<_:256>>`: a fingerprint, a context-params hash or a cache key.
* `u32le`, `u64le` — the little-endian integer segments the cache writes.
* `Token`, `SeqId`, `Pid`, `Ref`, `Path` — the opaque names of the runtime.
-/

/-- An Erlang binary. -/
abbrev Bytes := List UInt8

/-- A 256-bit binary: what `crypto:hash(sha256, _)` returns and what the guards
    `byte_size(_) =:= 32` of the cache key module admit. -/
structure Digest where
  bytes : Bytes
  size_eq : bytes.length = 32
deriving DecidableEq

theorem Digest.bytes_injective : Function.Injective Digest.bytes
  | ⟨_, _⟩, ⟨_, _⟩, rfl => rfl

/-- Erlang's term order on binaries of one size: bytewise, first difference decides. -/
instance : LinearOrder Digest :=
  LinearOrder.lift' (fun d => d.bytes.map UInt8.toNat)
    ((List.map_injective_iff.mpr fun _ _ h => UInt8.toNat_inj.mp h).comp
      Digest.bytes_injective)

/-- The digest whose 32 bytes all equal `b`. -/
def Digest.fill (b : UInt8) : Digest := ⟨List.replicate 32 b, List.length_replicate⟩

/-- A key of the KV cache (`erllama_cache:cache_key()`). -/
abbrev CacheKey := Digest

/-- A token id. -/
abbrev Token := Nat

/-- A `llama_seq_id`: the slot of the shared context that holds one sequence. -/
abbrev SeqId := Nat

/-- A process. -/
abbrev Pid := Nat

/-- A reference made by `make_ref/0` or `monitor/2`. -/
abbrev Ref := Nat

/-- A file name. -/
abbrev Path := Bytes

/-- `<<N:32/little>>`: the low 32 bits, least significant byte first. -/
def u32le (n : Nat) : Bytes :=
  [UInt8.ofNat n, UInt8.ofNat (n / 2 ^ 8), UInt8.ofNat (n / 2 ^ 16), UInt8.ofNat (n / 2 ^ 24)]

@[simp] theorem length_u32le (n : Nat) : (u32le n).length = 4 := rfl

/-- The integer a `N:32/little` pattern binds on four bytes. -/
def u32leValue (b0 b1 b2 b3 : UInt8) : Nat :=
  b0.toNat + 2 ^ 8 * b1.toNat + 2 ^ 16 * b2.toNat + 2 ^ 24 * b3.toNat

/-- Reading back what was written gives the number modulo `2 ^ 32`. -/
theorem u32leValue_u32le (n : Nat) :
    u32leValue (UInt8.ofNat n) (UInt8.ofNat (n / 2 ^ 8)) (UInt8.ofNat (n / 2 ^ 16))
      (UInt8.ofNat (n / 2 ^ 24)) = n % 2 ^ 32 := by
  simp only [u32leValue, UInt8.toNat_ofNat']
  omega

/-- `<<N:64/little-signed>>`: the two's complement of `N` in eight bytes. -/
def u64le (z : Int) : Bytes :=
  let n := (z % 2 ^ 64).toNat
  u32le n ++ u32le (n / 2 ^ 32)

/-- Where a cached row's payload lives (`erllama_cache:tier()`). -/
inductive Tier where
  | ram | ramFile | disk
deriving DecidableEq

end Erllama
