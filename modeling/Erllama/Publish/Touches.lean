import Erllama.Kvc.Crc
import Erllama.Publish.Healing
import Erllama.Publish.Restart

namespace Erllama.Publish

open Lib MetaSrv Kvc

/-!
# Persisting hits (`touch_hits/2`)

Every checkout rewrites the hit count in the header of the published file.  The checksum of a
file covers its payload only, so the rewrite goes unnoticed as long as the payload starts
behind the hit count; the parser does not look where the payload starts.

* `touched` — the file with another hit count.
* `HitsPersist` — what persisting should leave of a file, its loads, and the row that is made
  from it later.
* `HitsClear` — the rewrite leaves the payload's bytes as they are.
* `touchHits_iff` — it persists the hits exactly then; otherwise the file is lost.
-/

section Definitions

/-- The content that `touch_hits/2` leaves of a file. -/
def touched (hits : Nat) (bin : Bytes) : Bytes := writeAt 12 (u32le hits) bin

/-- The bytes of the new hit count that lie at or behind the payload's offset, if any do, are
    the ones that stand there. -/
def HitsClear (bin : Bytes) (payloadOffset hits : Nat) : Prop :=
  (u32le hits).drop (payloadOffset - 12) = ((bin.drop 12).take 4).drop (payloadOffset - 12)

instance (bin : Bytes) (payloadOffset hits : Nat) : Decidable (HitsClear bin payloadOffset hits) :=
  inferInstanceAs (Decidable (_ = _))

variable (sha256 : Bytes → Digest) (hitBias : Nat → Int → Int)

/-- What persisting a hit count should leave of an accepted file. -/
structure HitsPersist (bin : Bytes) (key : CacheKey) (info : Info) (payload : Bytes)
    (hits : Nat) : Prop where
  /-- The file is accepted as before, but for the hit count. -/
  accepted : parse sha256 (touched hits bin) key = .ok (info.withHits (hits % 2 ^ 32), payload)
  /-- The last of two rewrites is the one that counts. -/
  last : ∀ env p hits' s, touchHits env p hits (touchHits env p hits' s) = touchHits env p hits s
  /-- A load and a rewrite can change places. -/
  loads : ∀ env root u x s, s.files (finalPath root key) = some bin →
    env.fails .openFile (finalPath root key) = false → (x.fault 0).fails = false →
    runAlone sha256 hitBias u x (doLoad sha256 root key) s = (.ok info payload, s) ∧
    runAlone sha256 hitBias u x (doLoad sha256 root key)
        (touchHits env (finalPath root key) hits s) =
      (.ok (info.withHits (hits % 2 ^ 32)) payload,
        touchHits env (finalPath root key) hits s)
  /-- The row that a restart makes from the file, if it is the only one of its key, starts from
      the hit count. -/
  scanned : ∀ env root tier frm tmps names s name, Env.Calm env → Lists root s.files tmps →
    name ∈ names → isKvcName name → s.files (joinName root name) = some (touched hits bin) →
    (∀ other ∈ names, other ≠ name → ∀ f, foundAt sha256 root s.files other = some f →
      f.key ≠ key) →
    ∃ row, (restart sha256 hitBias env root tier frm tmps names s).metaTbl.lookup key = some row ∧
      row.hits = hits % 2 ^ 32
  /-- And so does the row that is made when the file is adopted. -/
  adopted : ∀ env r p s, r.stage = .postLink → r.path = some p → env.fails .read p = false →
    s.files p = some (touched hits bin) →
    ∃ row, (cleanupByStage (deps sha256 hitBias) env key r s).metaTbl.lookup key = some row ∧
      row.hits = hits % 2 ^ 32

end Definitions

variable {sha256 : Bytes → Digest} {hitBias : Nat → Int → Int} {bin payload : Bytes}
  {key : CacheKey} {info : Info} {hits : Nat}

/-! ### The rewritten file -/

/-- The metadata of the rewritten file, which the payload has no part in. -/
theorem parseMeta_touched (h : parseMeta bin = .ok info) (hits : Nat) :
    parseMeta (touched hits bin) = .ok (info.withHits (hits % 2 ^ 32)) := by
  have hlong := le_length_of_parseMeta h
  have hheader : 16 ≤ bin.length := by omega
  have hwrite := writeAt_hits hheader hits
  obtain ⟨n, hn⟩ := parseMeta_sameButHits (sameButHits_writeAt hheader hits) h
  -- the number the parser reads is the one the server reads
  have hread := hitsFromHeader_eq hn
  have htake : (bin.take 12).length = 12 := by
    rw [List.length_take]
    omega
  have hdrop : ((touched hits bin).take 48).drop 12 = u32le hits ++ (bin.drop 16).take 32 := by
    rw [touched, hwrite, List.drop_take, List.drop_left' htake, List.take_append, length_u32le,
      List.take_of_length_le (by rw [length_u32le]; omega)]
  have hvalue : hitsFromHeader ((touched hits bin).take 48) = hits % 2 ^ 32 := by
    rw [hitsFromHeader, hdrop]
    have hreads := u32_reads hits []
    exact (Prod.mk.inj (Option.some.inj hreads)).1
  have hcount : n = hits % 2 ^ 32 := hread.symm.trans hvalue
  rw [touched, hn, hcount]

/-- From any offset on, the two files differ in the bytes of the hit count that lie there. -/
theorem drop_touched (h : 16 ≤ bin.length) (po hits : Nat) : ∃ pre post : Bytes,
    bin.drop po = pre ++ (((bin.drop 12).take 4).drop (po - 12) ++ post) ∧
      (touched hits bin).drop po = pre ++ ((u32le hits).drop (po - 12) ++ post) := by
  have htake : (bin.take 12).length = 12 := by
    rw [List.length_take]
    omega
  have hfour : ((bin.drop 12).take 4).length = 4 := by
    rw [List.length_take, List.length_drop]
    omega
  have hsplit : bin = bin.take 12 ++ ((bin.drop 12).take 4 ++ bin.drop 16) := by
    have hrest : (bin.drop 12).drop 4 = bin.drop 16 := List.drop_drop
    rw [← hrest, List.take_append_drop, List.take_append_drop]
  have hcut : ∀ w : Bytes, w.length = 4 → (bin.take 12 ++ (w ++ bin.drop 16)).drop po =
      (bin.take 12).drop po ++ (w.drop (po - 12) ++ (bin.drop 16).drop (po - 12 - 4)) := by
    intro w hw
    rw [List.drop_append, List.drop_append, htake, hw]
  refine ⟨(bin.take 12).drop po, (bin.drop 16).drop (po - 12 - 4), ?_, ?_⟩
  · conv_lhs => rw [hsplit]
    exact hcut _ hfour
  · rw [touched, writeAt_hits h]
    exact hcut _ (length_u32le hits)

/-- The payload is left alone iff the hit count is clear of it. -/
theorem drop_touched_iff (h : 16 ≤ bin.length) (po hits : Nat) :
    (touched hits bin).drop po = bin.drop po ↔ HitsClear bin po hits := by
  obtain ⟨pre, post, hold, hnew⟩ := drop_touched h po hits
  rw [hold, hnew]
  constructor
  · intro heq
    exact List.append_cancel_right (List.append_cancel_left heq)
  · intro hclear
    rw [show (u32le hits).drop (po - 12) = ((bin.drop 12).take 4).drop (po - 12) from hclear]

/-- A payload behind the header's hit count is clear of it. -/
theorem HitsClear.of_le {po : Nat} (h : 16 ≤ po) (bin : Bytes) (hits : Nat) :
    HitsClear bin po hits := by
  have hnew : (u32le hits).length ≤ po - 12 := by
    rw [length_u32le]
    omega
  have hold : ((bin.drop 12).take 4).length ≤ po - 12 := by
    rw [List.length_take]
    omega
  rw [HitsClear, List.drop_eq_nil_of_le hnew, List.drop_eq_nil_of_le hold]

/-- A rewrite that reaches into the payload damages it in a window of four bytes. -/
theorem burst_touched (h : 16 ≤ bin.length) {po : Nat} (hclear : ¬ HitsClear bin po hits) :
    Burst 4 (bin.drop po) ((touched hits bin).drop po) := by
  refine ⟨fun heq => hclear ((drop_touched_iff h po hits).mp heq.symm), ?_⟩
  obtain ⟨pre, post, hold, hnew⟩ := drop_touched h po hits
  refine ⟨pre, _, _, post, hold, hnew, ?_, ?_⟩
  · rw [List.length_drop, List.length_drop, List.length_take, List.length_drop, length_u32le]
    omega
  · rw [List.length_drop, List.length_take]
    omega

/-! ### What the parser says -/

/-- Clear of the payload, the rewrite changes the answer's hit count only. -/
theorem parse_touched (h : parse sha256 bin key = .ok (info, payload))
    (hclear : HitsClear bin info.trailer.payloadOffset hits) :
    parse sha256 (touched hits bin) key = .ok (info.withHits (hits % 2 ^ 32), payload) := by
  obtain ⟨hmeta, hkey⟩ := parseMeta_of_parse h
  have hlong := le_length_of_parseMeta hmeta
  have hheader : 16 ≤ bin.length := by omega
  have hsame := sameButHits_writeAt hheader hits
  have hdrop := (drop_touched_iff (by omega) info.trailer.payloadOffset hits).mpr hclear
  have hcrc := crc_of_parse h
  obtain ⟨-, -, -, -, -, -, -, hsize⟩ := sections_of_parseMeta hmeta
  have hlen : info.trailer.payloadOffset + info.trailer.payloadLength =
      (touched hits bin).length := hsize.symm.trans hsame.1.symm
  have hpayload := payload_of_parse h
  have hcut : ((touched hits bin).drop info.trailer.payloadOffset).take
      info.trailer.payloadLength = payload := by
    rw [hdrop, ← hpayload]
    apply List.take_of_length_le
    rw [hpayload, List.length_drop]
    omega
  have hmeta' := parseMeta_touched hmeta hits
  simp only [parse, hmeta', Info.withHits, if_pos hlen.le, hcut, verify]
  rw [if_neg (not_not.mpr hcrc)]
  exact if_neg (not_not.mpr hkey)

/-- **Not clear of the payload, the file is lost.**  Its checksum does not match any more. -/
theorem parse_touched_of_not_clear (h : parse sha256 bin key = .ok (info, payload))
    (hclear : ¬ HitsClear bin info.trailer.payloadOffset hits) (key' : CacheKey) :
    parse sha256 (touched hits bin) key' = .error (.crcMismatch info.trailer.payloadCrc32c
      (crc32c ((touched hits bin).drop info.trailer.payloadOffset)).toNat) := by
  have hmeta := (parseMeta_of_parse h).1
  have hlong := le_length_of_parseMeta hmeta
  have hburst := burst_bitsOf (burst_touched (by omega) hclear)
  refine parse_of_crc_ne (parseMeta_touched hmeta hits) (fun heq => ?_) key'
  have hstated : (crc32c (bin.drop info.trailer.payloadOffset)).toNat =
      info.trailer.payloadCrc32c := by
    rw [← payload_of_parse h]
    exact crc_of_parse h
  exact crc32c_ne_of_burst hburst (UInt32.toNat_inj.mp (hstated.trans heq.symm))

/-! ### Loads, restarts and adoptions -/

/-- A load of a file that parses answers it and changes nothing. -/
theorem runAlone_doLoad {root : Path} {u : Nat} {x : Surroundings} {s : State}
    (hfile : s.files (finalPath root key) = some bin) (hx : (x.fault 0).fails = false)
    (h : parse sha256 bin key = .ok (info, payload)) :
    runAlone sha256 hitBias u x (doLoad sha256 root key) s = (.ok info payload, s) := by
  have hread : alone sha256 hitBias u x 0 s (.readFile (finalPath root key)) = (.ok bin, s) := by
    simp only [alone, perform, Surroundings.faultOf, hx, Bool.false_eq_true, if_false, hfile]
  simp only [runAlone, doLoad, readFile, Prog.perform_bind, Prog.exec, hread, parseOrDrop, h]
  rfl

/-- A second write at the same place covers the first. -/
theorem writeAt_writeAt {offset : Nat} {data data' : Bytes} (h : data.length = data'.length)
    (file : Bytes) :
    writeAt offset data (writeAt offset data' file) = writeAt offset data file := by
  have hfront : (file.take offset ++ List.replicate (offset - file.length) 0).length = offset := by
    rw [List.length_append, List.length_take, List.length_replicate]
    omega
  simp only [writeAt]
  generalize file.take offset ++ List.replicate (offset - file.length) 0 = front at hfront ⊢
  have hpad : offset - (front ++ data' ++ file.drop (offset + data'.length)).length = 0 := by
    rw [List.length_append, List.length_append, hfront]
    omega
  have hend : (front ++ data').length = offset + data.length := by
    rw [List.length_append, hfront, h]
  rw [hpad, List.replicate_zero, List.append_nil, List.drop_left' hend, h, List.append_assoc front,
    List.take_left' hfront]

theorem touchHits_touchHits (env : Env) (p : Path) (hits hits' : Nat) (s : State) :
    touchHits env p hits (touchHits env p hits' s) = touchHits env p hits s := by
  by_cases hfails : env.fails .openFile p = true
  · simp only [touchHits, if_pos hfails]
  · simp only [touchHits, if_neg hfails, Function.update_self, Function.update_idem]
    have hlen : (u32le hits).length = (u32le hits').length := by
      rw [length_u32le, length_u32le]
    rw [Option.getD_some, writeAt_writeAt hlen]

theorem files_touchHits {env : Env} {p : Path} {s : State} (henv : env.fails .openFile p = false)
    (hfile : s.files p = some bin) :
    (touchHits env p hits s).files p = some (touched hits bin) := by
  rw [touchHits, if_neg (by rw [henv]; exact Bool.false_ne_true), hfile]
  exact Function.update_self ..

/-- The row of a restart is made from the file of its key. -/
theorem hits_restart {env : Env} {root : Path} {tier : Tier} {frm : From} {tmps names : List Bytes}
    {s : State} {name : Bytes} (henv : Env.Calm env) (htmps : Lists root s.files tmps)
    (hname : name ∈ names) (hkvc : isKvcName name) (hfile : s.files (joinName root name) = some bin)
    (hmeta : parseMeta bin = .ok info) (hkey : info.key sha256 = key)
    (honly : ∀ other ∈ names, other ≠ name → ∀ f, foundAt sha256 root s.files other = some f →
      f.key ≠ key) :
    ∃ row, (restart sha256 hitBias env root tier frm tmps names s).metaTbl.lookup key = some row ∧
      row.hits = info.header.hitCount := by
  obtain ⟨hrows, -, -, -⟩ := restart_eq sha256 hitBias root tier frm names henv htmps
  have hself : foundAt sha256 root s.files name = some (scanEntryRow sha256 bin info) := by
    simp only [foundAt, if_pos hkvc, hfile, hmeta]
  obtain ⟨f, hf⟩ : ∃ f, ((names.filterMap (foundAt sha256 root s.files)).find? fun f =>
      f.key = key) = some f := by
    rw [← Option.isSome_iff_exists, List.find?_isSome]
    exact ⟨_, List.mem_filterMap.mpr ⟨name, hname, hself⟩, decide_eq_true hkey⟩
  -- what is found under the key was read from this file
  have hfkey : f.key = key := by simpa using List.find?_some hf
  obtain ⟨other, hother, hfound⟩ := List.mem_filterMap.mp (List.mem_of_find?_eq_some hf)
  have hsame : other = name := by
    by_contra hne
    exact honly other hother hne f hfound hfkey
  rw [hsame, hself] at hfound
  have hfacts := hrows key
  rw [hf, Option.map_some] at hfacts
  obtain ⟨row, hrow, hpair⟩ := Option.map_eq_some_iff.mp hfacts
  refine ⟨row, hrow, ?_⟩
  rw [(Prod.mk.inj hpair).2, ← Option.some.inj hfound]
  exact hitsFromHeader_eq hmeta

/-- The row of an adopted file. -/
theorem hits_adopted {env : Env} {r : Reservation} {p : Path} {s : State}
    (hstage : r.stage = .postLink) (hpath : r.path = some p) (henv : env.fails .read p = false)
    (hfile : s.files p = some bin) (h : parse sha256 bin key = .ok (info, payload)) :
    ∃ row, (cleanupByStage (deps sha256 hitBias) env key r s).metaTbl.lookup key = some row ∧
      row.hits = info.header.hitCount := by
  have hread : MetaSrv.readFile env s r.path = some bin := by
    rw [hpath, MetaSrv.readFile, Option.bind_some, henv, if_neg Bool.false_ne_true, hfile]
  have hvalid : validateAndAdopt (deps sha256 hitBias) env key r.path s = some
      ⟨bin.length, bin.take 48, encodeTokens info.tokens, info.promptText.length⟩ := by
    simp only [validateAndAdopt, hread, Option.bind_some, deps, h, Option.map_some]
  have hfacts : rowFacts (cleanupByStage (deps sha256 hitBias) env key r s) key =
      some (⟨.available, r.tier, bin.length, bin.take 48, locationFor r.tier r.path,
        some (encodeTokens info.tokens), info.promptText.length⟩,
          hitsFromHeader (bin.take 48)) := by
    simp only [cleanupByStage, hstage, hvalid, adoptRow]
    rw [rowFacts_notifyWaiters]
    refine (rowFacts_maybeRestorePin key key _).trans ?_
    rw [rowFacts_installAvailableRow, if_pos rfl]
  obtain ⟨row, hrow, hpair⟩ := Option.map_eq_some_iff.mp hfacts
  exact ⟨row, hrow, (Prod.mk.inj hpair).2.trans (hitsFromHeader_eq (parseMeta_of_parse h).1)⟩

/-! ### Exactly when the hits persist -/

/-- **Persisted hits.**  For a file that is accepted, a rewrite of its hit count persists the
    hits and leaves everything else, exactly when it is clear of the payload; and otherwise the
    file is not accepted any more. -/
theorem touchHits_iff (sha256 : Bytes → Digest) (hitBias : Nat → Int → Int) (bin payload : Bytes)
    (key : CacheKey) (info : Info) (h : parse sha256 bin key = .ok (info, payload)) (hits : Nat) :
    (HitsPersist sha256 hitBias bin key info payload hits ↔
        HitsClear bin info.trailer.payloadOffset hits) ∧
      (¬ HitsClear bin info.trailer.payloadOffset hits →
        ∀ key' answer, parse sha256 (touched hits bin) key' ≠ .ok answer) := by
  obtain ⟨hmeta, hkey⟩ := parseMeta_of_parse h
  have hlost : ¬ HitsClear bin info.trailer.payloadOffset hits →
      ∀ key' answer, parse sha256 (touched hits bin) key' ≠ .ok answer := by
    intro hclear key' answer hok
    rw [parse_touched_of_not_clear h hclear] at hok
    cases hok
  refine ⟨⟨fun hp => ?_, fun hclear => ?_⟩, hlost⟩
  · by_contra hclear
    exact hlost hclear key _ hp.accepted
  · have hparse := parse_touched h hclear
    refine ⟨hparse, fun env p hits' s => touchHits_touchHits env p hits hits' s, ?_, ?_, ?_⟩
    · intro env root u x s hfile henv hx
      exact ⟨runAlone_doLoad hfile hx h, runAlone_doLoad (files_touchHits henv hfile) hx hparse⟩
    · intro env root tier frm tmps names s name henv htmps hname hkvc hfile honly
      exact hits_restart henv htmps hname hkvc hfile (parseMeta_touched hmeta hits) hkey honly
    · intro env r p s hstage hpath henv hfile
      exact hits_adopted hstage hpath henv hfile hparse

set_option maxRecDepth 4000 in
/-- A file as `build` starts it. -/
theorem touchHits_iff_sample :
    HitsPersist (fun _ => Digest.fill 9) (fun _ _ => 0) Kvc.sampleFile (Digest.fill 9)
      (builtInfo ⟨1, [104], none⟩ sampleMeta 0 .f16 [1, 2, 3]) [1, 2, 3] 5 := by
  have h : parse (fun _ => Digest.fill 9) Kvc.sampleFile (Digest.fill 9) =
      .ok (builtInfo ⟨1, [104], none⟩ sampleMeta 0 .f16 [1, 2, 3], [1, 2, 3]) := by
    decide +kernel
  exact (touchHits_iff _ _ _ _ _ _ h 5).1.mpr (HitsClear.of_le (by decide +kernel) _ _)

/-- The same sections under a payload offset of 12, so that the payload starts with the hit
    count; the context size makes up for the checksum. -/
def overlapFile : Bytes :=
  buildHeader ⟨1, [104], none⟩ { sampleMeta with contextSize := 2610302071 } 2 196 ++
    (buildTrailer 12 196 0 ++
      (lengthPrefixed sampleMeta.text ++
        lengthPrefixed (tlvSection ⟨1, [104], none⟩ sampleMeta 0)))

set_option maxRecDepth 4000 in
/-- **A checkpoint is lost.**  The file is accepted, and its first hit makes it unreadable. -/
theorem overlapFile_lost :
    ∃ info payload, parse (fun _ => Digest.fill 9) overlapFile (Digest.fill 9) =
        .ok (info, payload) ∧ info.trailer.payloadOffset = 12 ∧
      ¬ HitsPersist (fun _ => Digest.fill 9) (fun _ _ => 0) overlapFile (Digest.fill 9) info
        payload 1 ∧
      parse (fun _ => Digest.fill 9) (touched 1 overlapFile) (Digest.fill 9) =
        .error (.crcMismatch 0 (crc32c ((touched 1 overlapFile).drop 12)).toNat) := by
  have h : parse (fun _ => Digest.fill 9) overlapFile (Digest.fill 9) =
      .ok ({ builtInfo ⟨1, [104], none⟩ sampleMeta 0 .f16 [1, 2, 3] with
        header := { builtHeader ⟨1, [104], none⟩ sampleMeta [1, 2, 3] with
          contextSize := 2610302071
          payloadByteCount := 196 }
        trailer := ⟨12, 196, 0⟩ }, overlapFile.drop 12) := by
    decide +kernel
  have hclear : ¬ HitsClear overlapFile 12 1 := by decide +kernel
  refine ⟨_, _, h, rfl, fun hp => ?_, parse_touched_of_not_clear h hclear _⟩
  have hlost := parse_touched_of_not_clear h hclear (Digest.fill 9)
  rw [hp.accepted] at hlost
  cases hlost

end Erllama.Publish
