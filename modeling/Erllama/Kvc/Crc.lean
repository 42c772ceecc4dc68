import Erllama.Kvc.Wellformed
import Erllama.Lib.Crc

namespace Erllama.Kvc

open Lib

/-!
# The checksum of the native library (`crc32c.c`)

`erllama_crc32c_update` takes a byte at a time through a table of 256 entries.  It is the
CRC with the reflected polynomial `0x82F63B78`, taken a bit at a time, so it can be continued
where it stopped, and it tells any two payloads apart that differ in a burst of 32 bits.

* `crc32cTableBuild`, `crc32cUpdate` — the table and the loop.
* `bitsOf` — the bits of a byte string in the order the register takes them.
* `crc32cUpdate_toBitVec` — the loop over bytes is the loop over bits.
* `parse_of_crc_ne`, `crc32cUpdate_exact` — so the reader rejects a payload that was damaged in a
  burst.
-/

/-! ### The loop over bytes -/

/-- `crc32c_table_build`. -/
def crc32cTableBuild : Vector UInt32 256 := Vector.ofFn fun i => crc32cTable (UInt32.ofNat i)

/-- `(c ^ data[i]) & 0xFF`, an index of the table. -/
def crc32cIndex (c : UInt32) (b : UInt8) : Fin 256 :=
  ⟨((c ^^^ b.toUInt32) &&& (0xFF : UInt32)).toNat, by
    rw [UInt32.toNat_and]
    exact Nat.lt_of_le_of_lt Nat.and_le_right (by decide)⟩

/-- `erllama_crc32c_update`. -/
def crc32cUpdate (crc : UInt32) (data : Bytes) : UInt32 :=
  ~~~ data.foldl (fun (c : UInt32) b =>
    crc32cTableBuild.get (crc32cIndex c b) ^^^ (c >>> (8 : UInt32))) (~~~ crc)

/-- The entry that a byte looks up. -/
theorem crc32cTableBuild_get (c : UInt32) (b : UInt8) :
    crc32cTableBuild.get (crc32cIndex c b) =
      crc32cTable ((c ^^^ b.toUInt32) &&& (0xFF : UInt32)) := by
  have hget : crc32cTableBuild.get (crc32cIndex c b) =
      crc32cTable (UInt32.ofNat (crc32cIndex c b)) := by
    show (Vector.ofFn fun i : Fin 256 => crc32cTable (UInt32.ofNat i))[(crc32cIndex c b).val] = _
    rw [Vector.getElem_ofFn]
  rw [hget, crc32cIndex, UInt32.ofNat_toNat]

/-- What the library is asked for is the update from zero. -/
theorem crc32c_eq (data : Bytes) : crc32c data = crc32cUpdate 0 data := by
  simp only [crc32c, crc32cUpdate, crc32cTableBuild_get]

/-- **It can be continued.** -/
theorem crc32cUpdate_append (crc : UInt32) (a b : Bytes) :
    crc32cUpdate (crc32cUpdate crc a) b = crc32cUpdate crc (a ++ b) := by
  simp only [crc32cUpdate, UInt32.not_not, List.foldl_append]

/-! ### The loop over bits -/

/-- The reflected polynomial of CRC-32C. -/
def crc32cPoly : BitVec 32 := 0x82F63B78#32

/-- The bits of a byte string as a reflected CRC takes them: the low bit of a byte first. -/
def bitsOf (data : Bytes) : List Bool :=
  data.flatMap fun b => (List.range 8).map b.toBitVec.getLsbD

/-- The bits of a byte come first to last. -/
theorem bitsOf_cons (b : UInt8) (data : Bytes) :
    bitsOf (b :: data) = (List.range 8).map b.toBitVec.getLsbD ++ bitsOf data :=
  List.flatMap_cons

/-- The bits of two strings. -/
@[simp] theorem bitsOf_append (a b : Bytes) : bitsOf (a ++ b) = bitsOf a ++ bitsOf b :=
  List.flatMap_append

/-- Eight bits a byte. -/
@[simp] theorem length_bitsOf (data : Bytes) : (bitsOf data).length = 8 * data.length := by
  induction data with
  | nil => rfl
  | cons b data ih =>
    rw [bitsOf_cons, List.length_append, List.length_map, List.length_range, ih, List.length_cons]
    omega

/-- One turn of the loop that fills the table is one step of the register. -/
theorem shift_toBitVec (c : UInt32) :
    (if c &&& (1 : UInt32) = (1 : UInt32) then (0x82F63B78 : UInt32) ^^^ (c >>> (1 : UInt32))
      else c >>> (1 : UInt32)).toBitVec = Crc.shift crc32cPoly c.toBitVec := by
  have hlow : c &&& (1 : UInt32) = (1 : UInt32) ↔ c.toBitVec.getLsbD 0 = true := by
    rw [← UInt32.toBitVec_inj, UInt32.toBitVec_and]
    constructor
    · intro h
      have hbit := congrArg (fun x : BitVec 32 => x.getLsbD 0) h
      simpa using hbit
    · intro h
      apply BitVec.eq_of_getLsbD_eq
      intro i hi
      cases i with
      | zero   => simp [h]
      | succ i => simp [BitVec.getLsbD_one]
  have hmove : (c >>> (1 : UInt32)).toBitVec = c.toBitVec >>> 1 := by simp
  unfold Crc.shift
  by_cases h : c.toBitVec.getLsbD 0 = true
  · rw [if_pos (hlow.mpr h), if_pos h, UInt32.toBitVec_xor, hmove]
    rfl
  · rw [if_neg (fun hc => h (hlow.mp hc)), if_neg h, hmove]

/-- An entry of the table is eight steps of its index. -/
theorem crc32cTable_toBitVec (i : UInt32) :
    (crc32cTable i).toBitVec = (Crc.shift crc32cPoly)^[8] i.toBitVec := by
  unfold crc32cTable
  -- by induction on the number of turns, from any index
  generalize 8 = n
  induction n generalizing i with
  | zero => rfl
  | succ n ih =>
    rw [Function.iterate_succ_apply, Function.iterate_succ_apply, ← shift_toBitVec]
    exact ih _

/-- **One byte.**  A turn of the loop over bytes feeds the eight bits of the byte. -/
theorem crc32cStep_toBitVec (c : UInt32) (b : UInt8) :
    (crc32cTable ((c ^^^ b.toUInt32) &&& (0xFF : UInt32)) ^^^ (c >>> (8 : UInt32))).toBitVec =
      ((List.range 8).map b.toBitVec.getLsbD).foldl (Crc.feed crc32cPoly) c.toBitVec := by
  have hmask : ∀ i < 32, (0xFF#32).getLsbD i = decide (i < 8) := by decide
  have hhigh : ∀ i, 8 ≤ i → b.toUInt32.toBitVec.getLsbD i = false := by
    intro i hi
    rw [UInt8.toBitVec_toUInt32, BitVec.getLsbD_setWidth, BitVec.getLsbD_of_ge _ i hi,
      Bool.and_false]
  -- the byte reaches the low end only, so the rest of the register moves without it
  have hmove : (c.toBitVec ^^^ b.toUInt32.toBitVec) >>> 8 = c.toBitVec >>> 8 := by
    apply BitVec.eq_of_getLsbD_eq
    intro i _
    rw [BitVec.getLsbD_ushiftRight, BitVec.getLsbD_ushiftRight, BitVec.getLsbD_xor,
      hhigh (8 + i) (by omega), Bool.xor_false]
  have hbits : (List.range 8).map b.toBitVec.getLsbD =
      (List.range 8).map b.toUInt32.toBitVec.getLsbD := by
    apply List.map_congr_left
    intro i hi
    have hlt : i < 32 := by
      have := List.mem_range.mp hi
      omega
    rw [UInt8.toBitVec_toUInt32, BitVec.getLsbD_setWidth, decide_eq_true hlt, Bool.true_and]
  have hshift : (c >>> (8 : UInt32)).toBitVec = c.toBitVec >>> 8 := by simp
  calc (crc32cTable ((c ^^^ b.toUInt32) &&& (0xFF : UInt32)) ^^^ (c >>> (8 : UInt32))).toBitVec
      = (Crc.shift crc32cPoly)^[8] ((c.toBitVec ^^^ b.toUInt32.toBitVec) &&& 0xFF#32) ^^^
          ((c.toBitVec ^^^ b.toUInt32.toBitVec) >>> 8) := by
        rw [UInt32.toBitVec_xor, crc32cTable_toBitVec, hshift, hmove]
        rfl
    _ = (Crc.shift crc32cPoly)^[8] (c.toBitVec ^^^ b.toUInt32.toBitVec) :=
        (Crc.iterate_shift_eq crc32cPoly hmask _).symm
    _ = ((List.range 8).map b.toBitVec.getLsbD).foldl (Crc.feed crc32cPoly) c.toBitVec := by
        rw [hbits, Crc.feeds_range crc32cPoly hhigh]

/-- **The table is right.**  The loop over bytes is the bit-by-bit CRC, from any starting
    value. -/
theorem crc32cUpdate_toBitVec (crc : UInt32) (data : Bytes) :
    (crc32cUpdate crc data).toBitVec = Crc.update crc32cPoly crc.toBitVec (bitsOf data) := by
  simp only [crc32cUpdate, Crc.update, UInt32.toBitVec_not, crc32cTableBuild_get]
  congr 1
  rw [← UInt32.toBitVec_not]
  generalize ~~~ crc = c
  induction data generalizing c with
  | nil => rfl
  | cons b data ih =>
    rw [List.foldl_cons, ih, crc32cStep_toBitVec]
    exact (List.foldl_append).symm

/-! ### Bursts -/

/-- The polynomial has its top bit. -/
theorem crc32cPoly_top : crc32cPoly.getLsbD (32 - 1) = true := by decide

/-- **Bursts show.**  Payloads that differ in a burst of 32 bits have different checksums. -/
theorem crc32cUpdate_ne_of_burst {p q : Bytes} (h : Burst 32 (bitsOf p) (bitsOf q))
    (crc : UInt32) : crc32cUpdate crc p ≠ crc32cUpdate crc q := by
  intro heq
  refine Crc.update_ne_of_burst crc32cPoly_top h crc.toBitVec ?_
  rw [← crc32cUpdate_toBitVec, ← crc32cUpdate_toBitVec, heq]

/-- A burst of at most 32 bits is detected. -/
theorem crc32c_ne_of_burst {p q : Bytes} (h : Burst 32 (bitsOf p) (bitsOf q)) :
    crc32c p ≠ crc32c q := by
  rw [crc32c_eq, crc32c_eq]
  exact crc32cUpdate_ne_of_burst h 0

/-- The bits tell the bytes. -/
theorem bitsOf_injective : Function.Injective bitsOf := by
  intro p q h
  induction p generalizing q with
  | nil =>
    cases q with
    | nil => rfl
    | cons b q =>
      have hlen := congrArg List.length h
      simp only [length_bitsOf, List.length_nil, List.length_cons] at hlen
      omega
  | cons a p ih =>
    cases q with
    | nil =>
      have hlen := congrArg List.length h
      simp only [length_bitsOf, List.length_nil, List.length_cons] at hlen
      omega
    | cons b q =>
      rw [bitsOf_cons, bitsOf_cons] at h
      obtain ⟨hbyte, htail⟩ := List.append_inj h (by simp only [List.length_map])
      have hbits : a.toBitVec = b.toBitVec := by
        apply BitVec.eq_of_getLsbD_eq
        intro i hi
        exact List.map_inj_left.mp hbyte i (List.mem_range.mpr hi)
      rw [UInt8.toBitVec_inj.mp hbits, ih htail]

/-- Bytes that differ in a window of `k` differ in a window of `8 * k` bits. -/
theorem burst_bitsOf {k : Nat} {p q : Bytes} (h : Burst k p q) :
    Burst (8 * k) (bitsOf p) (bitsOf q) := by
  refine ⟨fun heq => h.ne (bitsOf_injective heq), ?_⟩
  obtain ⟨pre, u, v, post, rfl, rfl, hlen, hk⟩ := h.window
  refine ⟨bitsOf pre, bitsOf u, bitsOf v, bitsOf post, by simp, by simp, by simp [hlen], ?_⟩
  rw [length_bitsOf]
  exact Nat.mul_le_mul_left 8 hk

/-! ### The reader -/

/-- The reader takes its metadata from the segments before the payload, and the size of the
    file. -/
theorem parseMeta_rest {hd tr text tlv rest rest' : Bytes} {raw : RawHeader} {trailer : Trailer}
    (hhd : Reads rawHeader hd raw) (htr : Reads rawTrailer tr trailer)
    (htext : text.length < 2 ^ 32) (htlv : tlv.length < 2 ^ 32)
    (hlen : rest.length = rest'.length) :
    parseMeta (hd ++ (tr ++ (lengthPrefixed text ++ (lengthPrefixed tlv ++ rest)))) =
      parseMeta (hd ++ (tr ++ (lengthPrefixed text ++ (lengthPrefixed tlv ++ rest')))) := by
  have hsize : (hd ++ (tr ++ (lengthPrefixed text ++ (lengthPrefixed tlv ++ rest)))).length =
      (hd ++ (tr ++ (lengthPrefixed text ++ (lengthPrefixed tlv ++ rest')))).length := by
    simp only [List.length_append, hlen]
  unfold parseMeta takeHeader
  rw [hhd, hhd, hsize]
  by_cases hversion : raw.version = 2
  · simp only [hversion, ne_eq, not_true_eq_false, if_false]
    cases hreason : saveReasonAtom raw.saveReasonByte with
    | none        => rfl
    | some reason =>
      simp only [bind, Except.bind, takeTrailer, htr _, takeLengthPrefixed,
        lengthPrefixed_reads htext _, lengthPrefixed_reads htlv _]
  · simp only [ne_eq, hversion, not_false_eq_true, if_true, bind, Except.bind]

/-- A payload behind the sections can be replaced, and the metadata stays. -/
theorem parseMeta_replace {bin q : Bytes} {info : Info} {s : Sections}
    (h : parseMeta bin = .ok info) (hs : sections bin = some s)
    (hbehind : 80 + s.text.length + s.tlv.length ≤ info.trailer.payloadOffset)
    (hlen : (bin.drop info.trailer.payloadOffset).length = q.length) :
    parseMeta (bin.take info.trailer.payloadOffset ++ q) = .ok info := by
  obtain ⟨hd, tr, hhd, htr, htext, htlv, hreadH, hreadT, hbin⟩ := sections_layout hs
  obtain ⟨-, -, -, -, -, -, -, hsize⟩ := sections_of_parseMeta h
  generalize info.trailer.payloadOffset = po at hbehind hlen hsize ⊢
  have hfront : (hd ++ (tr ++ (lengthPrefixed s.text ++ lengthPrefixed s.tlv))).length =
      80 + s.text.length + s.tlv.length := by
    simp only [List.length_append, length_lengthPrefixed, hhd, htr]
    omega
  have happ : bin = (hd ++ (tr ++ (lengthPrefixed s.text ++ lengthPrefixed s.tlv))) ++ s.rest := by
    rw [hbin]
    simp only [List.append_assoc]
  have htake : bin.take po = (hd ++ (tr ++ (lengthPrefixed s.text ++ lengthPrefixed s.tlv))) ++
      s.rest.take (po - (80 + s.text.length + s.tlv.length)) := by
    rw [happ, List.take_append, List.take_of_length_le (by rw [hfront]; exact hbehind), hfront]
  have hrest : (s.rest.take (po - (80 + s.text.length + s.tlv.length)) ++ q).length =
      s.rest.length := by
    have hbinlen := congrArg List.length happ
    rw [List.length_append, hfront] at hbinlen
    rw [List.length_drop] at hlen
    rw [List.length_append, List.length_take]
    omega
  rw [← h, htake]
  conv_rhs => rw [hbin]
  simp only [List.append_assoc]
  exact parseMeta_rest hreadH hreadT htext htlv hrest

/-! ### Damage -/

/-- A file whose metadata reads the same, with a payload of another checksum, is rejected. -/
theorem parse_of_crc_ne {sha256 : Bytes → Digest} {bin : Bytes} {info : Info}
    (h : parseMeta bin = .ok info)
    (hne : (crc32c (bin.drop info.trailer.payloadOffset)).toNat ≠ info.trailer.payloadCrc32c)
    (key : CacheKey) :
    parse sha256 bin key = .error (.crcMismatch info.trailer.payloadCrc32c
      (crc32c (bin.drop info.trailer.payloadOffset)).toNat) := by
  obtain ⟨-, -, -, -, -, -, -, hsize⟩ := sections_of_parseMeta h
  have hcut : (bin.drop info.trailer.payloadOffset).take info.trailer.payloadLength =
      bin.drop info.trailer.payloadOffset := by
    apply List.take_of_length_le
    rw [List.length_drop]
    omega
  unfold parse
  rw [h]
  dsimp only
  rw [if_pos (le_of_eq hsize.symm), hcut, verify, if_pos hne]

/-- The checksum of an accepted payload is the one the file states. -/
theorem crc_of_parse {sha256 : Bytes → Digest} {bin payload : Bytes} {key : CacheKey}
    {info : Info} (h : parse sha256 bin key = .ok (info, payload)) :
    (crc32c payload).toNat = info.trailer.payloadCrc32c := by
  have hmeta := (parseMeta_of_parse h).1
  have hpayload := payload_of_parse h
  by_contra hne
  rw [hpayload] at hne
  rw [parse_of_crc_ne hmeta hne] at h
  cases h

/-- **The checksum is CRC-32C, and it tells bursts.**  The table-driven update is the
    bit-by-bit CRC with the reflected polynomial, and can be continued; payloads that differ in a
    burst of 32 bits have different checksums; and a reader that accepts a payload rejects the
    payload damaged in such a burst, under any key: in every file whose metadata reads the same,
    and so in the file itself, if its payload lies behind its sections. -/
theorem crc32cUpdate_exact (sha256 : Bytes → Digest) :
    (∀ crc data,
        (crc32cUpdate crc data).toBitVec = Crc.update crc32cPoly crc.toBitVec (bitsOf data)) ∧
      (∀ crc a b, crc32cUpdate (crc32cUpdate crc a) b = crc32cUpdate crc (a ++ b)) ∧
      (∀ crc p q, Burst 32 (bitsOf p) (bitsOf q) → crc32cUpdate crc p ≠ crc32cUpdate crc q) ∧
      ∀ bin key info p, parse sha256 bin key = .ok (info, p) →
        ∀ q, Burst 32 (bitsOf p) (bitsOf q) → ∀ key',
          (∀ bin', parseMeta bin' = .ok info → bin'.drop info.trailer.payloadOffset = q →
            parse sha256 bin' key' =
              .error (.crcMismatch info.trailer.payloadCrc32c (crc32cUpdate 0 q).toNat)) ∧
          ∀ s, sections bin = some s →
            80 + s.text.length + s.tlv.length ≤ info.trailer.payloadOffset →
            parse sha256 (bin.take info.trailer.payloadOffset ++ q) key' =
              .error (.crcMismatch info.trailer.payloadCrc32c (crc32cUpdate 0 q).toNat) := by
  refine ⟨crc32cUpdate_toBitVec, crc32cUpdate_append,
    fun crc p q h => crc32cUpdate_ne_of_burst h crc, ?_⟩
  intro bin key info p h q hburst key'
  have hmeta := (parseMeta_of_parse h).1
  have hpayload := payload_of_parse h
  -- the file states the checksum of the payload it had
  have hne : (crc32c q).toNat ≠ info.trailer.payloadCrc32c := by
    rw [← crc_of_parse h]
    intro heq
    exact crc32c_ne_of_burst hburst (UInt32.toNat_inj.mp heq.symm)
  have hreject : ∀ bin', parseMeta bin' = .ok info → bin'.drop info.trailer.payloadOffset = q →
      parse sha256 bin' key' =
        .error (.crcMismatch info.trailer.payloadCrc32c (crc32cUpdate 0 q).toNat) := by
    intro bin' hbin' hq
    rw [← crc32c_eq, ← hq]
    exact parse_of_crc_ne hbin' (hq ▸ hne) key'
  refine ⟨hreject, ?_⟩
  intro s hs hbehind
  have hlen : (bin.drop info.trailer.payloadOffset).length = q.length := by
    have hbits := hburst.length_eq
    rw [length_bitsOf, length_bitsOf, hpayload] at hbits
    omega
  refine hreject _ (parseMeta_replace hmeta hs hbehind hlen) (List.drop_left' ?_)
  obtain ⟨-, -, -, -, -, -, -, hsize⟩ := sections_of_parseMeta hmeta
  rw [List.length_take]
  omega

set_option maxRecDepth 4000 in
/-- One flipped bit in the payload of the small checkpoint. -/
theorem crc32cUpdate_exact_sample :
    parse (fun _ => Digest.fill 9)
        (sampleFile.take (builtOffset ⟨1, [104], none⟩ sampleMeta 0) ++ [1, 2, 2])
        (Digest.fill 9) =
      .error (.crcMismatch (crc32c [1, 2, 3]).toNat (crc32cUpdate 0 [1, 2, 2]).toNat) := by
  have h : parse (fun _ => Digest.fill 9) sampleFile (Digest.fill 9) =
      .ok (builtInfo ⟨1, [104], none⟩ sampleMeta 0 .f16 [1, 2, 3], [1, 2, 3]) := by
    decide +kernel
  have hburst : Burst 32 (bitsOf [1, 2, 3]) (bitsOf [1, 2, 2]) := by
    refine burst_bitsOf (k := 4) (Burst.of_length ?_ ?_ ?_)
    all_goals decide
  obtain ⟨-, -, -, hparse⟩ := crc32cUpdate_exact fun _ => Digest.fill 9
  obtain ⟨-, hself⟩ := hparse _ _ _ _ h _ hburst (Digest.fill 9)
  obtain ⟨s, hs, -, -, -, -, -, -⟩ := sections_of_parseMeta (parseMeta_of_parse h).1
  refine hself s hs ?_
  have hall : (sections sampleFile).all fun s =>
      decide (80 + s.text.length + s.tlv.length ≤ builtOffset ⟨1, [104], none⟩ sampleMeta 0) := by
    decide +kernel
  rw [hs] at hall
  exact of_decide_eq_true hall

end Erllama.Kvc
