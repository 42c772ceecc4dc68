import Erllama.Kvc.RoundTrip
import Erllama.MetaSrv.State

namespace Erllama.Kvc

open Lib

/-!
# The hit count of a published file

`touch_hits/2` rewrites four bytes of a file in place, those of the header's hit count.  The
rest of the file, and so everything the parser checks, stays.

* `SameButHits` — two files that differ in those four bytes at most.
* `rawHeader_sameButHits` — the header read from such files differs in the hit count only.
* `parse_sameButHits` — one parses iff the other does, to the same payload and fields.
-/

/-- Two files that may differ in the hit count of their headers only. -/
def SameButHits (a b : Bytes) : Prop :=
  a.length = b.length ∧ a.take 12 = b.take 12 ∧ a.drop 16 = b.drop 16

/-- Nothing differs. -/
theorem SameButHits.refl (a : Bytes) : SameButHits a a := ⟨rfl, rfl, rfl⟩

/-- Nothing but the hits differs, either way. -/
theorem SameButHits.symm {a b : Bytes} (h : SameButHits a b) : SameButHits b a :=
  ⟨h.1.symm, h.2.1.symm, h.2.2.symm⟩

/-- Nothing but the hits differs, twice. -/
theorem SameButHits.trans {a b c : Bytes} (h : SameButHits a b) (h' : SameButHits b c) :
    SameButHits a c :=
  ⟨h.1.trans h'.1, h.2.1.trans h'.2.1, h.2.2.trans h'.2.2⟩

/-- The hit count of a file that has one is rewritten in place. -/
theorem writeAt_hits {bin : Bytes} (h : 16 ≤ bin.length) (hits : Nat) :
    MetaSrv.writeAt 12 (u32le hits) bin = bin.take 12 ++ (u32le hits ++ bin.drop 16) := by
  have hpad : List.replicate (12 - bin.length) (0 : UInt8) = [] := by
    rw [Nat.sub_eq_zero_of_le (by omega)]
    rfl
  rw [MetaSrv.writeAt, hpad, List.append_nil, List.append_assoc, length_u32le]

/-- Rewriting the hit count of a file that has one. -/
theorem sameButHits_writeAt {bin : Bytes} (h : 16 ≤ bin.length) (hits : Nat) :
    SameButHits (MetaSrv.writeAt 12 (u32le hits) bin) bin := by
  have htake : (bin.take 12).length = 12 := by
    rw [List.length_take]
    omega
  rw [writeAt_hits h]
  refine ⟨?_, ?_, ?_⟩
  · rw [List.length_append, List.length_append, length_u32le, htake, List.length_drop]
    omega
  · exact List.take_left' htake
  · have hlen : (bin.take 12 ++ u32le hits).length = 16 := by
      rw [List.length_append, htake, length_u32le]
    rw [← List.append_assoc]
    exact List.drop_left' hlen

/-- A file that is too short for a hit count is 16 bytes long afterwards. -/
theorem length_writeAt_of_short {bin : Bytes} (h : bin.length ≤ 16) (hits : Nat) :
    (MetaSrv.writeAt 12 (u32le hits) bin).length = 16 := by
  simp only [MetaSrv.writeAt, List.length_append, List.length_take, List.length_replicate,
    length_u32le, List.length_drop]
  omega

/-! ### The header -/

/-- A 32-bit number takes four bytes. -/
theorem u32_takes : Takes u32 4 :=
  Takes.one.bind fun _ => Takes.one.bind fun _ => Takes.one.bind fun _ => Takes.one.bind_pure _

/-- A 64-bit number takes eight. -/
theorem u64_takes : Takes u64 8 := u32_takes.bind fun _ => u32_takes.bind_pure _

/-- Any four bytes are a 32-bit segment. -/
theorem u32_reads_any : ∀ {w : Bytes}, w.length = 4 → ∃ n, Reads u32 w n
  | [b0, b1, b2, b3], _ => ⟨u32leValue b0 b1 b2 b3, fun _ => rfl⟩

/-- The part of a header before its hit count. -/
def beforeHits : Reader UInt8 (UInt8 × UInt8 × UInt8 × Nat) := do
  Reader.literal [75, 86, 67]
  let version ← Reader.one
  let quantBits ← Reader.one
  let saveReasonByte ← Reader.one
  let _ ← Reader.take 2
  let cachedTokenCount ← u32
  return (version, quantBits, saveReasonByte, cachedTokenCount)

/-- The part of a header after its hit count. -/
def afterHits : Reader UInt8 (Nat × Nat × Nat × Nat) := do
  let contextSize ← u32
  let _ ← Reader.take 4
  let creationTime ← u64
  let lastUsedTime ← u64
  let payloadByteCount ← u64
  return (contextSize, creationTime, lastUsedTime, payloadByteCount)

/-- A header of its three parts. -/
def headerOf (x : UInt8 × UInt8 × UInt8 × Nat) (hits : Nat) (y : Nat × Nat × Nat × Nat) :
    RawHeader :=
  ⟨x.1, x.2.1, x.2.2.1, x.2.2.2, hits, y.1, y.2.1, y.2.2.1, y.2.2.2⟩

/-- The header is what is before its hits, the hits, and the rest. -/
theorem rawHeader_eq : rawHeader = do
    let x ← beforeHits
    let hits ← u32
    let y ← afterHits
    return headerOf x hits y := by
  simp only [rawHeader, beforeHits, afterHits, bind_assoc, pure_bind]
  rfl

/-- Before the hits there are 12 bytes. -/
theorem beforeHits_takes : Takes beforeHits 12 :=
  (Takes.literal _).bind fun _ => Takes.one.bind fun _ => Takes.one.bind fun _ =>
    Takes.one.bind fun _ => (Takes.take 2).bind fun _ => u32_takes.bind_pure _

/-- Behind them 32. -/
theorem afterHits_takes : Takes afterHits 32 :=
  u32_takes.bind fun _ => (Takes.take 4).bind fun _ => u64_takes.bind fun _ =>
    u64_takes.bind fun _ => u64_takes.bind_pure _

/-- A header takes 48 bytes. -/
theorem rawHeader_takes : Takes rawHeader 48 := by
  rw [rawHeader_eq]
  exact beforeHits_takes.bind fun _ => u32_takes.bind fun _ => afterHits_takes.bind_pure _

/-- **The hit count is apart.** Where one of two such files has a header, the other has it
    too, but for the hit count. -/
theorem rawHeader_sameButHits {a b : Bytes} (h : SameButHits a b) {raw : RawHeader}
    {rest : Bytes} (hb : rawHeader.run b = some (raw, rest)) :
    ∃ hits, rawHeader.run a = some ({ raw with hitCount := hits }, rest) := by
  rw [rawHeader_eq, StateT.run_bind] at hb
  obtain ⟨⟨x, mid⟩, hx, hb⟩ := Option.bind_eq_some_iff.mp hb
  obtain ⟨⟨n, mid'⟩, hn, hb⟩ := Option.bind_eq_some_iff.mp hb
  obtain ⟨w, hw, hbw, hreadx⟩ := beforeHits_takes _ _ _ hx
  obtain ⟨v, hv, hmid, -⟩ := u32_takes _ _ _ hn
  replace hmid : mid = v ++ mid' := hmid
  -- the first file is the same word, four other bytes, and the same end
  obtain ⟨hlen, htake, hdrop⟩ := h
  have hsplit : a = w ++ ((a.drop 12).take 4 ++ mid') := by
    have hw' : a.take 12 = w := by rw [htake, hbw, List.take_left' hw]
    have hend : a.drop 16 = mid' := by
      rw [hdrop, hbw, hmid, ← List.append_assoc]
      exact List.drop_left' (by rw [List.length_append, hw, hv])
    calc a = a.take 12 ++ a.drop 12 := (List.take_append_drop 12 a).symm
      _ = w ++ ((a.drop 12).take 4 ++ (a.drop 12).drop 4) := by
        rw [hw', List.take_append_drop]
      _ = w ++ ((a.drop 12).take 4 ++ mid') := by rw [List.drop_drop, hend]
  have hfour : ((a.drop 12).take 4).length = 4 := by
    have hblen : b.length = 12 + (4 + mid'.length) := by
      rw [hbw, List.length_append, hw, hmid, List.length_append, hv]
    rw [List.length_take, List.length_drop]
    omega
  obtain ⟨hits, hhits⟩ := u32_reads_any hfour
  refine ⟨hits, ?_⟩
  have ha : rawHeader.run a = (StateT.run (do
      let y ← afterHits
      return headerOf x hits y) mid' : Option (RawHeader × Bytes)) := by
    rw [rawHeader_eq, hsplit, StateT.run_bind, hreadx]
    show (StateT.run (u32 >>= fun hits => afterHits >>= fun y => pure (headerOf x hits y))
      ((a.drop 12).take 4 ++ mid') : Option (RawHeader × Bytes)) = _
    rw [StateT.run_bind, hhits mid']
    rfl
  rw [ha, StateT.run_bind]
  obtain ⟨⟨y, end'⟩, hy, hb⟩ := Option.bind_eq_some_iff.mp hb
  replace hy : afterHits.run mid' = some (y, end') := hy
  obtain ⟨rfl, rfl⟩ := Prod.mk.inj (Option.some.inj hb)
  rw [hy]
  rfl

/-! ### The parser -/

/-- An info map with another hit count. -/
def Info.withHits (info : Info) (hits : Nat) : Info :=
  { info with header := { info.header with hitCount := hits } }

/-- The header is accepted with the other hits. -/
theorem takeHeader_sameButHits {a b : Bytes} (h : SameButHits a b) {hd : Header} {rest : Bytes}
    (hb : takeHeader b = .ok (hd, rest)) :
    ∃ hits, takeHeader a = .ok ({ hd with hitCount := hits }, rest) := by
  unfold takeHeader at hb
  cases hraw : rawHeader.run b with
  | none   => simp [hraw] at hb
  | some p =>
    obtain ⟨raw, rest'⟩ := p
    obtain ⟨hits, ha⟩ := rawHeader_sameButHits h hraw
    refine ⟨hits, ?_⟩
    simp only [hraw] at hb
    simp only [takeHeader, ha]
    split at hb
    · cases hb
    · rename_i hversion
      rw [if_neg hversion]
      cases hreason : saveReasonAtom raw.saveReasonByte with
      | none        => simp [hreason] at hb
      | some reason =>
        simp only [hreason] at hb
        cases hb
        rfl

/-- The size checks do not read the hit count. -/
theorem validateMetaConsistency_withHits (hd : Header) (tr : Trailer) (text : Bytes)
    (f : TlvFields) (size hits : Nat) :
    validateMetaConsistency { hd with hitCount := hits } tr text f size =
      (validateMetaConsistency hd tr text f size).map fun info => info.withHits hits := by
  unfold validateMetaConsistency
  dsimp only
  by_cases hlen : tr.payloadLength = hd.payloadByteCount
  · by_cases hshort : size < tr.payloadOffset + hd.payloadByteCount
    · simp [hlen, hshort, bind, Except.bind, throw, throwThe, MonadExceptOf.throw, Except.map]
    · by_cases hlong : size = tr.payloadOffset + hd.payloadByteCount
      · obtain ⟨fp, mode, quant, ctx, tokens, -, -, -⟩ := f
        simp only [hlen, hlong, ne_eq, not_true_eq_false, if_false, lt_irrefl]
        cases fp <;> cases mode <;> cases quant <;> cases ctx <;> cases tokens <;> rfl
      · simp [hlen, hshort, hlong, bind, Except.bind, throw, throwThe, MonadExceptOf.throw,
          Except.map]
  · simp [hlen, bind, Except.bind, throw, throwThe, MonadExceptOf.throw, Except.map]

/-- A file with another hit count parses to the same map, but for the hit count. -/
theorem parseMeta_sameButHits {a b : Bytes} (h : SameButHits a b) {info : Info}
    (hb : parseMeta b = .ok info) : ∃ hits, parseMeta a = .ok (info.withHits hits) := by
  unfold parseMeta at hb ⊢
  simp only [bind, Except.bind] at hb ⊢
  cases hhead : takeHeader b with
  | error e => simp [hhead] at hb
  | ok p =>
    obtain ⟨hits, ha⟩ := takeHeader_sameButHits h hhead
    refine ⟨hits, ?_⟩
    rw [hhead] at hb
    rw [ha, h.1]
    dsimp only at hb ⊢
    cases htrailer : takeTrailer p.2 with
    | error e => simp [htrailer] at hb
    | ok q =>
      simp only [htrailer] at hb ⊢
      cases htext : takeLengthPrefixed q.2 with
      | error e => simp [htext] at hb
      | ok r =>
        simp only [htext] at hb ⊢
        cases htlv : takeLengthPrefixed r.2 with
        | error e => simp [htlv] at hb
        | ok t =>
          simp only [htlv] at hb ⊢
          cases hfields : decodeTlv t.1 with
          | error e => simp [hfields] at hb
          | ok f =>
            simp only [hfields] at hb ⊢
            rw [validateMetaConsistency_withHits, hb]
            rfl

/-- What follows the hit count is the same in both files. -/
theorem SameButHits.drop_eq {a b : Bytes} (h : SameButHits a b) {n : Nat} (hn : 16 ≤ n) :
    a.drop n = b.drop n := by
  obtain ⟨k, rfl⟩ := Nat.exists_eq_add_of_le hn
  rw [← List.drop_drop, ← List.drop_drop, h.2.2]

/-- **The hit count is not checked.** A file with another hit count parses to the same payload
    and map, but for the hit count; the payload has to lie behind the header's hit count. -/
theorem parse_sameButHits {sha256 : Bytes → Digest} {a b : Bytes} (h : SameButHits a b)
    {key : CacheKey} {info : Info} {payload : Bytes}
    (hb : parse sha256 b key = .ok (info, payload)) (hoffset : 16 ≤ info.trailer.payloadOffset) :
    ∃ hits, parse sha256 a key = .ok (info.withHits hits, payload) := by
  unfold parse at hb
  cases hmeta : parseMeta b with
  | error e => simp [hmeta] at hb
  | ok info' =>
    simp only [hmeta] at hb
    split at hb
    · rename_i hsize
      unfold verify at hb
      simp only at hb
      split_ifs at hb with hcrc hkey
      cases hb
      obtain ⟨hits, ha⟩ := parseMeta_sameButHits h hmeta
      refine ⟨hits, ?_⟩
      have hdrop := h.drop_eq hoffset
      simp only [parse, ha, Info.withHits, verify, h.1, if_pos hsize, hdrop]
      rw [if_neg hcrc]
      exact if_neg hkey
    · cases hb

/-- The checked map carries what was read, and the payload ends where the file ends. -/
theorem validateMetaConsistency_ok {hd : Header} {tr : Trailer} {text : Bytes} {f : TlvFields}
    {size : Nat} {info : Info} (h : validateMetaConsistency hd tr text f size = .ok info) :
    info.header = hd ∧ info.trailer = tr ∧ info.promptText = text ∧
      f.tokens = some info.tokens ∧ size = tr.payloadOffset + tr.payloadLength := by
  obtain ⟨fp, mode, quant, ctx, tokens, _, _, _⟩ := f
  unfold validateMetaConsistency at h
  by_cases hlen : tr.payloadLength = hd.payloadByteCount
  · by_cases hshort : size < tr.payloadOffset + hd.payloadByteCount
    · simp [hlen, hshort, bind, Except.bind, throw, throwThe, MonadExceptOf.throw] at h
    · by_cases hlong : size = tr.payloadOffset + hd.payloadByteCount
      · cases fp <;> cases mode <;> cases quant <;> cases ctx <;> cases tokens <;>
          simp [hlen, hlong, requireField, bind, Except.bind, pure, Except.pure] at h
        exact h ▸ ⟨rfl, rfl, rfl, rfl, by rw [hlen, hlong]⟩
      · simp [hlen, hshort, hlong, bind, Except.bind, throw, throwThe, MonadExceptOf.throw]
          at h
  · simp [hlen, bind, Except.bind, throw, throwThe, MonadExceptOf.throw] at h

/-- The payload of a built file lies where its trailer says. -/
theorem payloadOffset_of_parse_builtFile {rt : Runtime} {m : BuildMeta} {b : UInt8}
    {payload : Bytes} {info : Info} (hsize : (builtFile rt m b payload).length < 2 ^ 64)
    (h : parseMeta (builtFile rt m b payload) = .ok info) :
    info.trailer.payloadOffset = builtOffset rt m b := by
  have hoffset : builtOffset rt m b % 2 ^ 64 = builtOffset rt m b := by
    rw [length_builtFile] at hsize
    omega
  have htrailer := rawTrailer_reads (builtOffset rt m b) payload.length (crc32c payload)
    (lengthPrefixed m.text ++ (lengthPrefixed (tlvSection rt m b) ++ payload))
  unfold parseMeta at h
  rw [builtFile, takeHeader_buildHeader] at h
  simp only [bind, Except.bind, takeTrailer, htrailer] at h
  split at h
  · cases h
  · split at h
    · cases h
    · split at h
      · cases h
      · rw [(validateMetaConsistency_ok h).2.1]
        exact hoffset

/-- A file that parses has a whole header. -/
theorem le_length_of_parseMeta {bin : Bytes} {info : Info} (h : parseMeta bin = .ok info) :
    48 ≤ bin.length := by
  unfold parseMeta at h
  simp only [bind, Except.bind] at h
  cases hhead : takeHeader bin with
  | error e => simp [hhead] at h
  | ok p =>
    unfold takeHeader at hhead
    cases hraw : rawHeader.run bin with
    | none   => simp [hraw] at hhead
    | some q =>
      obtain ⟨w, hw, hbin, -⟩ := rawHeader_takes bin q.1 q.2 hraw
      rw [hbin, List.length_append, hw]
      omega

/-- A file that parses under a key has readable metadata. -/
theorem parseMeta_of_parse {sha256 : Bytes → Digest} {bin payload : Bytes} {key : CacheKey}
    {info : Info} (h : parse sha256 bin key = .ok (info, payload)) :
    parseMeta bin = .ok info ∧ info.key sha256 = key := by
  unfold parse at h
  split at h
  · cases h
  · rename_i info' hinfo
    simp only at h
    split at h
    · unfold verify at h
      simp only at h
      split_ifs at h with hcrc hkey
      cases h
      exact ⟨hinfo, not_not.mp hkey⟩
    · cases h

/-- Whether a file parses does not depend on its hit count, if it is a built file with another
    hit count. -/
theorem parse_builtFile_sameButHits {sha256 : Bytes → Digest} {rt : Runtime} {m : BuildMeta}
    {b : UInt8} {payload payload' : Bytes} {x y : Bytes} {key : CacheKey} {info : Info}
    (hsize : (builtFile rt m b payload).length < 2 ^ 64)
    (hx : SameButHits x (builtFile rt m b payload))
    (hy : SameButHits y (builtFile rt m b payload))
    (h : parse sha256 x key = .ok (info, payload')) :
    ∃ hits, parse sha256 y key = .ok (info.withHits hits, payload') := by
  have hmeta := (parseMeta_of_parse h).1
  obtain ⟨hits, hbuilt⟩ := parseMeta_sameButHits hx.symm hmeta
  have hoffset := payloadOffset_of_parse_builtFile hsize hbuilt
  refine parse_sameButHits (hy.trans hx.symm) h ?_
  have hge : 16 ≤ builtOffset rt m b := by
    rw [builtOffset]
    omega
  exact hoffset ▸ hge

end Erllama.Kvc
