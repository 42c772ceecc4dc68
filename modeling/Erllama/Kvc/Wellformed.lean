import Erllama.Kvc.HitCount
import Erllama.Kvc.Raises

namespace Erllama.Kvc

open Lib

/-!
# What the parser accepts

The numbers of a file are redundant: the trailer states where the payload starts, and three
places say how many tokens there are.  The reader takes each from its own place, and compares
only the two payload lengths and the total size.

* `sections` — the parts of a file, and `sections_layout` — they follow each other.
* `FieldsAgree` — the offset and the counts a file states are those of its sections.
* `WellFormed` — what a reader of an accepted file would rely on.
* `parse_wellFormed_iff` — an accepted file is well formed iff its fields agree.
-/

/-! ### The parts of a file -/

/-- The segments `parse_meta/1` takes off the front of a file, and what is left. -/
structure Sections where
  header : RawHeader
  trailer : Trailer
  text : Bytes
  tlv : Bytes
  rest : Bytes
deriving DecidableEq

/-- The segments of a file, where it has them all. -/
def sections (bin : Bytes) : Option Sections := do
  let (header, rest1) ← rawHeader.run bin
  let (trailer, rest2) ← rawTrailer.run rest1
  let (text, rest3) ← lengthPrefixedSection.run rest2
  let (tlv, rest) ← lengthPrefixedSection.run rest3
  return ⟨header, trailer, text, tlv, rest⟩

/-- Four bytes are the little-endian segment of the number they give. -/
theorem u32le_u32leValue (b0 b1 b2 b3 : UInt8) :
    u32le (u32leValue b0 b1 b2 b3) = [b0, b1, b2, b3] := by
  have h0 := b0.toNat_lt
  have h1 := b1.toNat_lt
  have h2 := b2.toNat_lt
  have h3 := b3.toNat_lt
  have hbyte : ∀ (n : Nat) (b : UInt8), n % 2 ^ 8 = b.toNat → UInt8.ofNat n = b := by
    intro n b h
    apply UInt8.toNat_inj.mp
    rw [UInt8.toNat_ofNat', h]
  simp only [u32le, u32leValue, List.cons.injEq, and_true]
  refine ⟨hbyte _ _ ?_, hbyte _ _ ?_, hbyte _ _ ?_, hbyte _ _ ?_⟩ <;> omega

/-- A section that was read stands in the file with its length before it. -/
theorem lengthPrefixedSection_run {l bin rest : Bytes}
    (h : lengthPrefixedSection.run l = some (bin, rest)) :
    bin.length < 2 ^ 32 ∧ l = lengthPrefixed bin ++ rest := by
  match l, h with
  | b0 :: b1 :: b2 :: b3 :: l, h =>
    have hval : u32leValue b0 b1 b2 b3 < 2 ^ 32 := by
      have h0 := b0.toNat_lt
      have h1 := b1.toNat_lt
      have h2 := b2.toNat_lt
      have h3 := b3.toNat_lt
      unfold u32leValue
      omega
    have htake : (Reader.take (u32leValue b0 b1 b2 b3)).run l = some (bin, rest) := h
    obtain ⟨w, hw, hl, hread⟩ := Takes.take _ _ _ _ htake
    have hbin : bin = w := by
      have hw' := (Reads.take hw) rest
      rw [hread rest] at hw'
      exact (Prod.mk.inj (Option.some.inj hw')).1
    subst hbin
    refine ⟨hw ▸ hval, ?_⟩
    rw [lengthPrefixed, hw, u32le_u32leValue, hl]
    rfl

/-- The trailer takes 24 bytes. -/
theorem rawTrailer_takes : Takes rawTrailer 24 :=
  u64_takes.bind fun _ => u64_takes.bind fun _ => u32_takes.bind fun _ =>
    (Takes.take 4).bind_pure _

/-- **The layout.** The prompt section starts at byte 72, the TLV section follows it, and what
    is left follows that. -/
theorem sections_layout {bin : Bytes} {s : Sections} (h : sections bin = some s) :
    ∃ hd tr : Bytes, hd.length = 48 ∧ tr.length = 24 ∧ s.text.length < 2 ^ 32 ∧
      s.tlv.length < 2 ^ 32 ∧ Reads rawHeader hd s.header ∧ Reads rawTrailer tr s.trailer ∧
      bin = hd ++ (tr ++ (lengthPrefixed s.text ++ (lengthPrefixed s.tlv ++ s.rest))) := by
  obtain ⟨⟨header, rest1⟩, hhead, h⟩ := Option.bind_eq_some_iff.mp h
  obtain ⟨⟨trailer, rest2⟩, htrailer, h⟩ := Option.bind_eq_some_iff.mp h
  obtain ⟨⟨text, rest3⟩, htext, h⟩ := Option.bind_eq_some_iff.mp h
  obtain ⟨⟨tlv, rest⟩, htlv, h⟩ := Option.bind_eq_some_iff.mp h
  cases h
  obtain ⟨hd, hhd, hbin, hreadH⟩ := rawHeader_takes _ _ _ hhead
  obtain ⟨tr, htr, hrest1, hreadT⟩ := rawTrailer_takes _ _ _ htrailer
  obtain ⟨htextlt, hrest2⟩ := lengthPrefixedSection_run htext
  obtain ⟨htlvlt, hrest3⟩ := lengthPrefixedSection_run htlv
  exact ⟨hd, tr, hhd, htr, htextlt, htlvlt, hreadH, hreadT, by rw [hbin, hrest1, hrest2, hrest3]⟩

/-- A file of such parts has these sections. -/
theorem sections_of_layout {bin hd tr text tlv rest : Bytes} {s : Sections} (hhd : hd.length = 48)
    (htr : tr.length = 24) (htext : text.length < 2 ^ 32) (htlv : tlv.length < 2 ^ 32)
    (hbin : bin = hd ++ (tr ++ (lengthPrefixed text ++ (lengthPrefixed tlv ++ rest))))
    (h : sections bin = some s) : s.text = text ∧ s.tlv = tlv ∧ s.rest = rest := by
  obtain ⟨hd', tr', hhd', htr', htext', htlv', -, -, hbin'⟩ := sections_layout h
  have htail := (List.append_inj (hbin'.symm.trans hbin) (hhd'.trans hhd.symm)).2
  have htail := (List.append_inj htail (htr'.trans htr.symm)).2
  have hreads := (lengthPrefixed_reads htext') (lengthPrefixed s.tlv ++ s.rest)
  rw [htail, lengthPrefixed_reads htext] at hreads
  obtain ⟨htexteq, htail⟩ := Prod.mk.inj (Option.some.inj hreads)
  have hreads := (lengthPrefixed_reads htlv') s.rest
  rw [← htail, lengthPrefixed_reads htlv] at hreads
  obtain ⟨htlveq, hrest⟩ := Prod.mk.inj (Option.some.inj hreads)
  exact ⟨htexteq.symm, htlveq.symm, hrest.symm⟩

/-! ### The counts of the TLV section -/

/-- The records of a TLV section, up to the first that is cut short. -/
def tlvRecordsFrom : Nat → Bytes → List (UInt8 × Bytes)
  | 0, _          => []
  | fuel + 1, bin =>
    match tlvEntry.run bin with
    | none           => []
    | some (e, rest) => e :: tlvRecordsFrom fuel rest

/-- The records of a TLV section. -/
def tlvRecords (tlv : Bytes) : List (UInt8 × Bytes) := tlvRecordsFrom tlv.length tlv

/-- The number in a `token_id_count` record of the right size. -/
def tokenIdCountOf : UInt8 × Bytes → Option Nat
  | (0x08, [b0, b1, b2, b3]) => some (u32leValue b0 b1 b2 b3)
  | _                        => none

/-- The size of a `token_ids` record that holds whole tokens. -/
def tokenIdsSizeOf (e : UInt8 × Bytes) : Option Nat :=
  if e.1 = 0x09 ∧ e.2.length % 4 = 0 then some e.2.length else none

/-- The TLV token count: of repeated records the last counts, as for every other field. -/
def tokenIdCount (tlv : Bytes) : Option Nat := ((tlvRecords tlv).filterMap tokenIdCountOf).getLast?

/-- The size of the token section. -/
def tokenIdsSize (tlv : Bytes) : Option Nat := ((tlvRecords tlv).filterMap tokenIdsSizeOf).getLast?

/-- The tokens of a record that holds whole tokens. -/
def tokensOf (e : UInt8 × Bytes) : Option (List Token) :=
  if e.1 = 0x09 then decodeTokens e.2 else none

/-- Four bytes a token. -/
theorem length_of_decodeTokens {v : Bytes} {ts : List Token} (h : decodeTokens v = some ts) :
    v.length = 4 * ts.length := by
  induction v using decodeTokens.induct generalizing ts with
  | case1 =>
    cases h
    rfl
  | case2 b0 b1 b2 b3 r ih =>
    obtain ⟨ts', hts', rfl⟩ := Option.map_eq_some_iff.mp h
    have hr := ih hts'
    simp only [List.length_cons]
    omega
  | case3 v hnil hfour =>
    rw [decodeTokens] at h
    · cases h
    · exact hnil
    · exact hfour

/-- A token that is read from four bytes fits in them. -/
theorem lt_of_decodeTokens {v : Bytes} {ts : List Token} (h : decodeTokens v = some ts) :
    ∀ t ∈ ts, t < 2 ^ 32 := by
  induction v using decodeTokens.induct generalizing ts with
  | case1 =>
    cases h
    exact fun t ht => absurd ht List.not_mem_nil
  | case2 b0 b1 b2 b3 r ih =>
    obtain ⟨ts', hts', rfl⟩ := Option.map_eq_some_iff.mp h
    intro t ht
    rcases List.mem_cons.mp ht with rfl | hmem
    · have h0 := b0.toNat_lt
      have h1 := b1.toNat_lt
      have h2 := b2.toNat_lt
      have h3 := b3.toNat_lt
      have hsum : b0.toNat + 2 ^ 8 * b1.toNat + 2 ^ 16 * b2.toNat + 2 ^ 24 * b3.toNat <
          2 ^ 32 := by
        omega
      exact hsum
    · exact ih hts' t hmem
  | case3 v hnil hfour =>
    rw [decodeTokens] at h
    · cases h
    · exact hnil
    · exact hfour

/-- The size of the tokens is that of their bytes. -/
theorem tokenIdsSizeOf_eq (e : UInt8 × Bytes) :
    tokenIdsSizeOf e = (tokensOf e).map fun ts => 4 * ts.length := by
  unfold tokenIdsSizeOf tokensOf
  by_cases htag : e.1 = 0x09
  · have hsome := decodeTokens_isSome e.2
    rw [if_pos htag]
    cases hdec : decodeTokens e.2 with
    | none =>
      rw [hdec] at hsome
      exact if_neg fun h => nomatch hsome.mpr h.2
    | some ts =>
      rw [hdec] at hsome
      rw [if_pos ⟨htag, hsome.mp rfl⟩, length_of_decodeTokens hdec]
      rfl
  · rw [if_neg fun h => htag h.1, if_neg htag]
    rfl

/-- Only a `token_ids` record stores tokens. -/
theorem storeTlv_tokens {e : UInt8 × Bytes} {acc f : TlvFields}
    (h : storeTlv e.1 e.2 acc = .ok f) : f.tokens = (tokensOf e).or acc.tokens := by
  obtain ⟨tag, v⟩ := e
  unfold tokensOf
  by_cases htag : tag = 0x09
  · subst htag
    have hstore : storeTlv 0x09 v acc =
        .ok ((decodeTokens v).elim acc fun ts => { acc with tokens := some ts }) := by
      cases hdec : decodeTokens v <;> simp [storeTlv, hdec]
    replace h : storeTlv 0x09 v acc = .ok f := h
    rw [hstore] at h
    cases h
    show _ = (decodeTokens v).or acc.tokens
    cases decodeTokens v <;> rfl
  · rw [if_neg htag]
    unfold storeTlv at h
    split at h
    all_goals first
      | (cases h; rfl)
      | (split at h <;> cases h <;> rfl)
      | exact absurd ‹_› htag

/-- A record that was read stands in the section. -/
theorem tlvEntry_run {l rest : Bytes} {e : UInt8 × Bytes} (h : tlvEntry.run l = some (e, rest)) :
    e.2.length < 2 ^ 32 ∧ l = tlvRecord e ++ rest := by
  cases l with
  | nil       => cases h
  | cons b l =>
    have hsec : (lengthPrefixedSection.run l).bind
        (fun p => some ((b, p.1), p.2)) = some (e, rest) := h
    obtain ⟨⟨value, rest'⟩, hrun, heq⟩ := Option.bind_eq_some_iff.mp hsec
    obtain ⟨rfl, rfl⟩ := Prod.mk.inj (Option.some.inj heq)
    obtain ⟨hlt, hl⟩ := lengthPrefixedSection_run hrun
    exact ⟨hlt, by rw [hl]; rfl⟩

/-- The tokens that are stored are those of the last record with whole tokens. -/
theorem decodeTlvFrom_tokens {fuel : Nat} {bin : Bytes} {acc f : TlvFields}
    (hfuel : bin.length ≤ fuel) (h : decodeTlvFrom fuel bin acc = .ok f) :
    f.tokens = (((tlvRecordsFrom fuel bin).filterMap tokensOf).getLast?).or acc.tokens := by
  induction fuel generalizing bin acc with
  | zero =>
    obtain rfl : bin = [] := List.eq_nil_of_length_eq_zero (Nat.le_zero.mp hfuel)
    cases h
    rfl
  | succ fuel ih =>
    cases bin with
    | nil =>
      cases h
      rfl
    | cons b bin =>
      simp only [decodeTlvFrom] at h
      cases hrun : tlvEntry.run (b :: bin) with
      | none   => simp [hrun] at h
      | some p =>
        obtain ⟨e, rest⟩ := p
        simp only [hrun] at h
        cases hstore : storeTlv e.1 e.2 acc with
        | error err => simp [hstore] at h
        | ok acc' =>
          simp only [hstore] at h
          have hrest : rest.length ≤ fuel := by
            have hlen := congrArg List.length (tlvEntry_run hrun).2
            simp only [List.length_append, length_tlvRecord, List.length_cons] at hlen hfuel
            omega
          rw [ih hrest h, storeTlv_tokens hstore]
          simp only [tlvRecordsFrom, hrun, List.filterMap_cons]
          cases tokensOf e with
          | none    => simp
          | some ts =>
            simp only [List.getLast?_cons]
            cases ((tlvRecordsFrom fuel rest).filterMap tokensOf).getLast? <;> rfl

/-! ### An accepted file -/

/-- The numbers a file states are those of its sections: the trailer's offset is where the TLV
    section ends, and both counts are the number of tokens in the token section. -/
def FieldsAgree (bin : Bytes) : Prop :=
  ∃ s size, sections bin = some s ∧ tokenIdsSize s.tlv = some size ∧
    s.trailer.payloadOffset = 80 + s.text.length + s.tlv.length ∧
    4 * s.header.cachedTokenCount = size ∧
    ∃ n, tokenIdCount s.tlv = some n ∧ 4 * n = size

/-- What a reader of an accepted file relies on. -/
structure WellFormed (bin : Bytes) (info : Info) (payload : Bytes) : Prop where
  /-- The sections and the payload follow each other, and the offset is where they part. -/
  layout : ∃ hd tr tlv : Bytes, hd.length = 48 ∧ tr.length = 24 ∧
    info.promptText.length < 2 ^ 32 ∧ tlv.length < 2 ^ 32 ∧
    bin = hd ++ (tr ++ (lengthPrefixed info.promptText ++ (lengthPrefixed tlv ++ payload))) ∧
    info.trailer.payloadOffset =
      (hd ++ (tr ++ (lengthPrefixed info.promptText ++ lengthPrefixed tlv))).length ∧
    tokenIdCount tlv = some info.tokens.length
  tokenCount : info.header.cachedTokenCount = info.tokens.length

/-- A header that was taken is the segment at the front. -/
theorem takeHeader_run {bin rest : Bytes} {hd : Header} (h : takeHeader bin = .ok (hd, rest)) :
    ∃ raw, rawHeader.run bin = some (raw, rest) ∧ hd.cachedTokenCount = raw.cachedTokenCount := by
  unfold takeHeader at h
  cases hraw : rawHeader.run bin with
  | none   => simp [hraw] at h
  | some p =>
    simp only [hraw] at h
    split at h
    · cases h
    · split at h
      · cases h
      · cases h
        exact ⟨p.1, rfl, rfl⟩

/-- The tokens of a decoded TLV section are those of its last record with whole tokens. -/
theorem getLast_tokensOf_of_decodeTlv {tlv : Bytes} {f : TlvFields} {ts : List Token}
    (h : decodeTlv tlv = .ok f) (hts : f.tokens = some ts) :
    ((tlvRecords tlv).filterMap tokensOf).getLast? = some ts := by
  have hstored := decodeTlvFrom_tokens le_rfl h
  rw [hts] at hstored
  cases hlast : ((tlvRecords tlv).filterMap tokensOf).getLast? with
  | none =>
    rw [show tlvRecordsFrom tlv.length tlv = tlvRecords tlv from rfl, hlast] at hstored
    cases hstored
  | some ts' =>
    rw [show tlvRecordsFrom tlv.length tlv = tlvRecords tlv from rfl, hlast] at hstored
    exact hstored.symm

/-- The token section of a decoded TLV section has four bytes a token. -/
theorem tokenIdsSize_of_decodeTlv {tlv : Bytes} {f : TlvFields} {ts : List Token}
    (h : decodeTlv tlv = .ok f) (hts : f.tokens = some ts) :
    tokenIdsSize tlv = some (4 * ts.length) := by
  have hlast := getLast_tokensOf_of_decodeTlv h hts
  have hsizes : (tlvRecords tlv).filterMap tokenIdsSizeOf =
      ((tlvRecords tlv).filterMap tokensOf).map fun ts => 4 * ts.length := by
    rw [List.map_filterMap]
    exact congrArg (fun f => (tlvRecords tlv).filterMap f) (funext tokenIdsSizeOf_eq)
  rw [tokenIdsSize, hsizes, List.getLast?_map, hlast]
  rfl

/-- They fit in 32 bits. -/
theorem tokens_lt_of_decodeTlv {tlv : Bytes} {f : TlvFields} {ts : List Token}
    (h : decodeTlv tlv = .ok f) (hts : f.tokens = some ts) : ∀ t ∈ ts, t < 2 ^ 32 := by
  obtain ⟨e, -, he⟩ := List.mem_filterMap.mp
    (List.mem_of_getLast? (getLast_tokensOf_of_decodeTlv h hts))
  unfold tokensOf at he
  split at he
  · exact lt_of_decodeTokens he
  · cases he

/-- The map of an accepted file is read from its sections. -/
theorem sections_of_parseMeta {bin : Bytes} {info : Info} (h : parseMeta bin = .ok info) :
    ∃ s, sections bin = some s ∧ info.header.cachedTokenCount = s.header.cachedTokenCount ∧
      info.trailer = s.trailer ∧ info.promptText = s.text ∧
      tokenIdsSize s.tlv = some (4 * info.tokens.length) ∧
      (∀ t ∈ info.tokens, t < 2 ^ 32) ∧
      bin.length = info.trailer.payloadOffset + info.trailer.payloadLength := by
  unfold parseMeta at h
  simp only [bind, Except.bind] at h
  cases hhead : takeHeader bin with
  | error e => simp [hhead] at h
  | ok p =>
    simp only [hhead] at h
    cases htrailer : rawTrailer.run p.2 with
    | none   => simp [takeTrailer, htrailer] at h
    | some q =>
      simp only [takeTrailer, htrailer] at h
      cases htext : lengthPrefixedSection.run q.2 with
      | none   => simp [takeLengthPrefixed, htext] at h
      | some r =>
        simp only [takeLengthPrefixed, htext] at h
        cases htlv : lengthPrefixedSection.run r.2 with
        | none   => simp [htlv] at h
        | some t =>
          simp only [htlv] at h
          cases hfields : decodeTlv t.1 with
          | error e => simp [hfields] at h
          | ok f =>
            simp only [hfields] at h
            obtain ⟨hh, htr, hpt, htokens, hsize⟩ := validateMetaConsistency_ok h
            obtain ⟨raw, hraw, hcount⟩ := takeHeader_run hhead
            refine ⟨⟨raw, q.1, r.1, t.1, t.2⟩, ?_, hh ▸ hcount, htr, hpt,
              tokenIdsSize_of_decodeTlv hfields htokens, tokens_lt_of_decodeTlv hfields htokens,
              htr ▸ hsize⟩
            simp [sections, hraw, htrailer, htext, htlv]

/-- The payload that `parse/2` answers is the end of the file, from the offset on. -/
theorem payload_of_parse {sha256 : Bytes → Digest} {bin payload : Bytes} {key : CacheKey}
    {info : Info} (h : parse sha256 bin key = .ok (info, payload)) :
    payload = bin.drop info.trailer.payloadOffset := by
  obtain ⟨s, -, -, -, -, -, -, hsize⟩ := sections_of_parseMeta (parseMeta_of_parse h).1
  have hcut : payload = (bin.drop info.trailer.payloadOffset).take info.trailer.payloadLength := by
    unfold parse at h
    rw [(parseMeta_of_parse (by unfold parse; exact h)).1] at h
    simp only at h
    split at h
    · unfold verify at h
      simp only at h
      split_ifs at h
      cases h
      rfl
    · cases h
  rw [hcut]
  apply List.take_of_length_le
  rw [List.length_drop]
  omega

/-- **Acceptance is not well-formedness.** No exception leaves the two entry points; and the
    layout and the counts of an accepted file are what its reader relies on iff the numbers
    that the file states are those of its sections. -/
theorem parse_wellFormed_iff (sha256 : Bytes → Digest) (bin : Bytes) (key : CacheKey) :
    (∃ answer, parseMetaR bin = .ok answer) ∧ (∃ answer, parseR sha256 bin key = .ok answer) ∧
      ∀ info payload, parse sha256 bin key = .ok (info, payload) →
        (WellFormed bin info payload ↔ FieldsAgree bin) := by
  refine ⟨⟨_, parseMetaR_eq bin⟩, ⟨_, parseR_eq sha256 bin key⟩, ?_⟩
  intro info payload h
  have hpayload := payload_of_parse h
  obtain ⟨s, hs, hcount, htrailer, htext, hsize, -, -⟩ :=
    sections_of_parseMeta (parseMeta_of_parse h).1
  constructor
  · rintro ⟨⟨hd, tr, tlv, hhd, htr, htextlt, htlvlt, hbin, hoffset, hids⟩, htokens⟩
    obtain ⟨-, htlveq, -⟩ := sections_of_layout hhd htr htextlt htlvlt hbin hs
    simp only [List.length_append, length_lengthPrefixed, hhd, htr] at hoffset
    refine ⟨s, _, hs, hsize, ?_, ?_, info.tokens.length, ?_, rfl⟩
    · rw [← htrailer, hoffset, htext, htlveq]
      omega
    · rw [← hcount, htokens]
    · rw [htlveq]
      exact hids
  · rintro ⟨s', size, hs', hsize', hoffset, hheader, n, hids, hn⟩
    cases hs.symm.trans hs'
    cases hsize.symm.trans hsize'
    obtain ⟨hd, tr, hhd, htr, htextlt, htlvlt, -, -, hbin⟩ := sections_layout hs
    -- the offset is the length of what precedes the rest, so the payload is the rest
    have hfront : (hd ++ (tr ++ (lengthPrefixed s.text ++ lengthPrefixed s.tlv))).length =
        info.trailer.payloadOffset := by
      simp only [List.length_append, length_lengthPrefixed, hhd, htr, htrailer, hoffset]
      omega
    have hrest : payload = s.rest := by
      rw [hpayload, hbin, ← hfront]
      simp only [← List.append_assoc, List.drop_left]
    refine ⟨⟨hd, tr, s.tlv, hhd, htr, htext ▸ htextlt, htlvlt, ?_, ?_, ?_⟩, ?_⟩
    · rw [htext, hrest]
      exact hbin
    · rw [htext]
      exact hfront.symm
    · rw [hids]
      exact congrArg some (by omega)
    · omega

/-! ### A file that lies -/

/-- The small checkpoint, as it is written. -/
def sampleFile : Bytes := builtFile ⟨1, [104], none⟩ sampleMeta 0 [1, 2, 3]

set_option maxRecDepth 4000 in
/-- Its numbers are those of its sections. -/
theorem parse_wellFormed_iff_sample :
    ∃ info, parse (fun _ => Digest.fill 9) sampleFile (Digest.fill 9) = .ok (info, [1, 2, 3]) ∧
      WellFormed sampleFile info [1, 2, 3] := by
  have h : parse (fun _ => Digest.fill 9) sampleFile (Digest.fill 9) =
      .ok (builtInfo ⟨1, [104], none⟩ sampleMeta 0 .f16 [1, 2, 3], [1, 2, 3]) := by
    decide +kernel
  refine ⟨_, h, ((parse_wellFormed_iff _ _ _).2.2 _ _ h).mpr ?_⟩
  exact ⟨_, _, rfl, rfl, by decide +kernel, by decide +kernel, _, rfl, by decide +kernel⟩

/-- The same checkpoint with another count in its header and a byte between its TLV section
    and its payload. -/
def crookedFile : Bytes :=
  buildHeader ⟨1, [104], none⟩ sampleMeta 9 3 ++
    (buildTrailer (builtOffset ⟨1, [104], none⟩ sampleMeta 0 + 1) 3 (crc32c [1, 2, 3]) ++
      (lengthPrefixed sampleMeta.text ++
        (lengthPrefixed (tlvSection ⟨1, [104], none⟩ sampleMeta 0) ++ [0, 1, 2, 3])))

/-- It is accepted; its header counts nine tokens where it has two, and its payload does not
    start where its TLV section ends. -/
theorem crookedFile_accepted :
    ∃ info s, parse (fun _ => Digest.fill 9) crookedFile (Digest.fill 9) = .ok (info, [1, 2, 3]) ∧
      info.header.cachedTokenCount = 9 ∧ info.tokens = [7, 8] ∧ sections crookedFile = some s ∧
      s.rest = [0, 1, 2, 3] ∧ ¬ WellFormed crookedFile info [1, 2, 3] := by
  have h : parse (fun _ => Digest.fill 9) crookedFile (Digest.fill 9) =
      .ok ({ builtInfo ⟨1, [104], none⟩ sampleMeta 0 .f16 [1, 2, 3] with
        header := { builtHeader ⟨1, [104], none⟩ sampleMeta [1, 2, 3] with cachedTokenCount := 9 }
        trailer := ⟨builtOffset ⟨1, [104], none⟩ sampleMeta 0 + 1, 3,
          (crc32c [1, 2, 3]).toNat⟩ }, [1, 2, 3]) := by
    decide +kernel
  obtain ⟨s, hs, -, -, -, -, -, -⟩ := sections_of_parseMeta (parseMeta_of_parse h).1
  have hlayout : sampleMeta.text.length < 2 ^ 32 ∧
      (tlvSection ⟨1, [104], none⟩ sampleMeta 0).length < 2 ^ 32 := by
    decide +kernel
  obtain ⟨-, -, hrest⟩ := sections_of_layout rfl rfl hlayout.1 hlayout.2
    (show crookedFile = _ from rfl) hs
  exact ⟨_, s, h, rfl, by decide +kernel, hs, hrest,
    fun hw => absurd hw.tokenCount (by decide +kernel)⟩

end Erllama.Kvc
