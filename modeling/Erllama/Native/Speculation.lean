import Erllama.Native.Decode
import Mathlib.Order.Bounds.Basic

namespace Erllama.Native

/-!
# A speculative tick is a run of decode ops

Both sides are followed through one description of the context: the cells of the sequence, the
row it samples next, and the state of its chain, with everything else as it was.

* `Ready` — that description.
* `decodeOps` — plain decode ops one after another, up to an end of generation.
* `verifyRows_run` — the verification of a draft samples what the decode ops would.
* `specStep_eq_decodeOps` — a speculative tick leaves what the decode ops leave.
-/

variable {Row Smp : Type} {p : Params Row Smp}

/-- The row that the next decode op of a sequence samples. -/
def nextRow (c : Ctx Smp) (q : SeqId) : Option OutRow :=
  let li := (c.perSeq q).lastLogitsIdx
  if li = logitsLast then rowAt c (-1) else if li < 0 then none else rowAt c li

/-- `n` decode ops on one sequence, up to an end of generation: each token with its flag. -/
def decodeOps (p : Params Row Smp) (q : SeqId) (s : Ref) : Nat → Nif Smp (List (Token × Bool))
  | 0 => return []
  | n + 1 => do
    match ← nifStep p [(q, .decode s)] with
    | [(_, .token tok eog _)] =>
      -- the generation ends here
      if eog then return [(tok, true)]
      else
        let rest ← decodeOps p q s n
        return (tok, false) :: rest
    | _ => throw .crash

/-! ### What the primitives do -/

/-- A batch that follows the memory is decoded. -/
theorem llamaDecode_ok {c : Ctx Smp} (batch : List BatchRow) (hfaults : c.faults = [])
    (h : Follows c.kv batch = true) :
    (llamaDecode batch).on c =
      (.ok (), { c with kv := batch.foldl pushCell c.kv, rows := batchRows c.kv batch }) := by
  unfold llamaDecode
  rw [Nif.on_bind_ok (Nif.on_get c)]
  simp only [hfaults]
  show Nif.on (if Follows c.kv batch = true then _ else _) c = _
  rw [if_pos h]
  show ((Except.ok ⟨⟩ : Except NifError PUnit), _) = _
  simp only [List.tail_nil]

/-- A decode that worked. -/
theorem of_llamaDecode_ok {c c' : Ctx Smp} {batch : List BatchRow}
    (h : (llamaDecode batch).on c = (.ok (), c')) :
    Follows c.kv batch = true ∧
      c' = { c with
        kv := batch.foldl pushCell c.kv
        rows := batchRows c.kv batch
        faults := c.faults.tail } := by
  unfold llamaDecode at h
  rw [Nif.on_bind_ok (Nif.on_get c)] at h
  split at h
  · obtain ⟨_, _, _, h⟩ := Nif.of_bind_ok h
    cases h
  · dsimp only at h
    split at h
    case isTrue hfollows =>
      cases h
      exact ⟨hfollows, rfl⟩
    case isFalse =>
      obtain ⟨_, _, _, h⟩ := Nif.of_bind_ok h
      cases h

/-- A sample that worked. -/
theorem of_samplerSample_ok {c c' : Ctx Smp} {q : SeqId} {s : Ref} {li : Int} {tok : Token}
    {row : OutRow} (h : (samplerSample p q s li).on c = (.ok (tok, row), c')) :
    ∃ chain, c.chains s = some chain ∧ rowAt c li = some row ∧
      (p.sample chain.state (p.logits row.cells)).1 = some tok ∧
      c' = { c with
        sampled := c.sampled ++ [.read q (c.kv q) (some row)]
        chains := Function.update c.chains s
          (some { chain with state := (p.sample chain.state (p.logits row.cells)).2 }) } := by
  unfold samplerSample at h
  rw [Nif.on_bind_ok (Nif.on_get c)] at h
  split at h
  · cases h
  · rename_i chain hchain
    obtain ⟨_, c₁, hset, h⟩ := Nif.of_bind_ok h
    cases hset
    split at h
    · cases h
    · rename_i row' hrow
      obtain ⟨_, c₂, hmod, h⟩ := Nif.of_bind_ok h
      cases hmod
      split at h
      · cases h
      · rename_i tok' htok
        cases h
        exact ⟨chain, hchain, hrow, htok, by rw [hrow]⟩

/-- Sampling on a row whose logits are there. -/
theorem samplerSample_ok {c : Ctx Smp} {q : SeqId} {s : Ref} {li : Int} {tok : Token}
    {row : OutRow} {chain : Chain Smp} (hchain : c.chains s = some chain)
    (hrow : rowAt c li = some row)
    (htok : (p.sample chain.state (p.logits row.cells)).1 = some tok) :
    (samplerSample p q s li).on c = (.ok (tok, row), { c with
      sampled := c.sampled ++ [.read q (c.kv q) (some row)]
      chains := Function.update c.chains s
        (some { chain with state := (p.sample chain.state (p.logits row.cells)).2 }) }) := by
  unfold samplerSample
  rw [Nif.on_bind_ok (Nif.on_get c)]
  simp only [hchain, hrow]
  rw [Nif.on_bind_ok (Nif.on_set _ _), Nif.on_bind_ok (Nif.on_modify _ _)]
  simp only [htok]
  rfl

/-! ### The description of a context -/

/-- The context `d` is `c` but for the sequence `q`, which has these cells, samples this row
    next, and whose chain is in this state. -/
structure Ready (c d : Ctx Smp) (q : SeqId) (s : Ref) (cells : List Token) (row : OutRow)
    (chain : Chain Smp) : Prop where
  kv : d.kv = Function.update c.kv q cells
  chains : d.chains = Function.update c.chains s (some chain)
  nextPos : (d.perSeq q).nextPos = cells.length
  others : ∀ q' ≠ q, d.perSeq q' = c.perSeq q'
  row : nextRow d q = some row

/-- The chain after it sampled a row. -/
def Chain.after (p : Params Row Smp) (chain : Chain Smp) (row : OutRow) : Chain Smp :=
  { chain with state := (p.sample chain.state (p.logits row.cells)).2 }

/-- The token a chain samples at a row. -/
def Chain.next (p : Params Row Smp) (chain : Chain Smp) (row : OutRow) : Option Token :=
  (p.sample chain.state (p.logits row.cells)).1

/-- The cells of a seq that is ready. -/
theorem Ready.cells {c d : Ctx Smp} {q : SeqId} {s : Ref} {cells : List Token} {row : OutRow}
    {chain : Chain Smp} (h : Ready c d q s cells row chain) : d.kv q = cells := by
  rw [h.kv, Function.update_self]

/-- The chain of its sampler. -/
theorem Ready.chain {c d : Ctx Smp} {q : SeqId} {s : Ref} {cells : List Token} {row : OutRow}
    {chain : Chain Smp} (h : Ready c d q s cells row chain) : d.chains s = some chain := by
  rw [h.chains, Function.update_self]

/-- The row that is sampled next is at the tracked index. -/
theorem nextRow_some {c : Ctx Smp} {q : SeqId} {row : OutRow} (h : nextRow c q = some row) :
    ¬((c.perSeq q).lastLogitsIdx ≠ logitsLast ∧ (c.perSeq q).lastLogitsIdx < 0) ∧
      rowAt c (if (c.perSeq q).lastLogitsIdx = logitsLast then -1
        else (c.perSeq q).lastLogitsIdx) = some row := by
  unfold nextRow at h
  dsimp only at h
  split at h
  case isTrue hlast =>
    rw [if_pos hlast]
    exact ⟨fun hne => hne.1 hlast, h⟩
  case isFalse hlast =>
    rw [if_neg hlast]
    split at h
    · cases h
    · rename_i hneg
      exact ⟨fun hne => hneg hne.2, h⟩

/-- A decode op samples from the row of its seq. -/
theorem preSample_decode {c : Ctx Smp} {q : SeqId} {s : Ref} {row : OutRow} {chain : Chain Smp}
    {tok : Token} (hchain : c.chains s = some chain) (hrow : nextRow c q = some row)
    (htok : chain.next p row = some tok) :
    ∃ lp, (preSample p q (.decode s)).on c = (.ok ⟨q, [tok], .token tok (p.isEog tok) lp⟩, { c with
      sampled := c.sampled ++ [.read q (c.kv q) (some row)]
      chains := Function.update c.chains s (some (chain.after p row)) }) := by
  obtain ⟨hlive, hat⟩ := nextRow_some hrow
  unfold preSample
  rw [Nif.on_bind_ok (Nif.on_get c)]
  simp only [if_neg hlive]
  rw [Nif.on_bind_ok (samplerSample_ok hchain hat htok)]
  exact ⟨_, rfl⟩

/-- A tick of one decode row samples the next row and pushes the token. -/
theorem nifStep_decode {d : Ctx Smp} {q : SeqId} {s : Ref} {row : OutRow} {chain : Chain Smp}
    {tok : Token} (hchain : d.chains s = some chain) (hrow : nextRow d q = some row)
    (hpos : (d.perSeq q).nextPos = (d.kv q).length) (hfaults : d.faults = [])
    (hbatch : 0 < p.nBatch) (htok : chain.next p row = some tok) :
    ∃ lp, (nifStep p [(q, .decode s)]).on d = (.ok [(q, .token tok (p.isEog tok) lp)],
      track { d with
        kv := Function.update d.kv q (d.kv q ++ [tok])
        rows := [some ⟨q, d.kv q ++ [tok]⟩]
        decodeReady := true
        chains := Function.update d.chains s (some (chain.after p row))
        sampled := d.sampled ++ [.read q (d.kv q) (some row)] } q
        ⟨0, (d.kv q).length + 1⟩) := by
  obtain ⟨lp, hsample⟩ := preSample_decode hchain hrow htok
  refine ⟨lp, ?_⟩
  unfold nifStep
  rw [if_neg (List.cons_ne_nil _ _), if_neg (by simp [wellFormedOp])]
  have hall : (preSampleAll p [(q, .decode s)]).on d =
      (.ok [⟨q, [tok], .token tok (p.isEog tok) lp⟩], { d with
        sampled := d.sampled ++ [.read q (d.kv q) (some row)]
        chains := Function.update d.chains s (some (chain.after p row)) }) := by
    unfold preSampleAll
    rw [Nif.on_bind_ok hsample]
    rfl
  have hroom : ¬p.nBatch < ([⟨q, [tok], .token tok (p.isEog tok) lp⟩].map
      fun op : Planned => op.tokens.length).sum := by
    simp
    omega
  rw [Nif.on_bind_ok hall, if_neg hroom, Nif.on_bind_ok (Nif.on_get _),
    Nif.on_bind_ok (Nif.on_modify _ _)]
  have hdecode := llamaDecode_ok
    (c := { d with
      sampled := d.sampled ++ [.read q (d.kv q) (some row)]
      decodeReady := false
      chains := Function.update d.chains s (some (chain.after p row)) })
    (sliceRows q (d.perSeq q).nextPos [tok]) hfaults (by simp [sliceRows, Follows, hpos])
  have hstepBatch : ∀ c : Ctx Smp, stepBatch c [⟨q, [tok], .token tok (p.isEog tok) lp⟩] =
      sliceRows q (c.perSeq q).nextPos [tok] := fun c => List.append_nil _
  rw [hstepBatch]
  refine (Nif.on_bind_ok hdecode).trans ?_
  rw [Nif.on_bind_ok (Nif.on_modify _ _)]
  simp [sliceRows, batchRows, pushCell, commitRows, track, hpos]

/-- **One decode op.** It samples the next row and pushes the token; the row of the token is
    the next to sample. -/
theorem Ready.decode {c d : Ctx Smp} {q : SeqId} {s : Ref} {cells : List Token} {row : OutRow}
    {chain : Chain Smp} {tok : Token} (h : Ready c d q s cells row chain) (hfaults : d.faults = [])
    (hbatch : 0 < p.nBatch) (htok : chain.next p row = some tok) :
    ∃ lp d', (nifStep p [(q, .decode s)]).on d = (.ok [(q, .token tok (p.isEog tok) lp)], d') ∧
      Ready c d' q s (cells ++ [tok]) ⟨q, cells ++ [tok]⟩ (chain.after p row) ∧
      d'.faults = [] ∧ d'.decodeReady = true := by
  have hcells := h.cells
  obtain ⟨lp, hstep⟩ := nifStep_decode h.chain h.row (by rw [h.nextPos, hcells]) hfaults hbatch htok
  rw [hcells] at hstep
  refine ⟨lp, _, hstep, ⟨?_, ?_, ?_, ?_, ?_⟩, hfaults, rfl⟩
  · show Function.update d.kv q _ = _
    rw [h.kv, Function.update_idem]
  · show Function.update d.chains s _ = _
    rw [h.chains, Function.update_idem]
  · simp [track]
  · intro q' hq'
    simp [track, Function.update_of_ne hq', h.others q' hq']
  · simp [nextRow, track, rowAt, logitsLast]

/-- The decode ops from `d` yield these tokens, none of which ends the generation, and go on
    from `e`. -/
def Runs (p : Params Row Smp) (q : SeqId) (s : Ref) (d e : Ctx Smp) (toks : List Token) : Prop :=
  ∀ n out f, (decodeOps p q s n).on e = (.ok out, f) →
    (decodeOps p q s (toks.length + n)).on d = (.ok (toks.map (·, false) ++ out), f)

/-- No op. -/
theorem Runs.refl (q : SeqId) (s : Ref) (d : Ctx Smp) : Runs p q s d d [] := by
  intro n out f h
  rwa [List.length_nil, Nat.zero_add]

/-- One decode op, and the rest. -/
theorem Runs.cons {q : SeqId} {s : Ref} {d e f : Ctx Smp} {tok : Token} {toks : List Token}
    {lp : Option LpPayload}
    (h : (nifStep p [(q, .decode s)]).on d = (.ok [(q, .token tok false lp)], e))
    (hrest : Runs p q s e f toks) : Runs p q s d f (tok :: toks) := by
  intro n out g hout
  have hgo := hrest n out g hout
  have hlen : (tok :: toks).length + n = (toks.length + n) + 1 := by
    rw [List.length_cons]
    omega
  rw [hlen, decodeOps, Nif.on_bind_ok h]
  show (decodeOps p q s (toks.length + n) >>= fun rest => pure ((tok, false) :: rest)).on e = _
  rw [Nif.on_bind_ok hgo]
  rfl

/-- The last op of a run: its flag says whether its token ends the generation. -/
theorem Ready.decodeOps_one {c d : Ctx Smp} {q : SeqId} {s : Ref} {cells : List Token}
    {row : OutRow} {chain : Chain Smp} {tok : Token} (h : Ready c d q s cells row chain)
    (hfaults : d.faults = []) (hbatch : 0 < p.nBatch) (htok : chain.next p row = some tok) :
    ∃ e, (decodeOps p q s 1).on d = (.ok [(tok, p.isEog tok)], e) ∧
      Ready c e q s (cells ++ [tok]) ⟨q, cells ++ [tok]⟩ (chain.after p row) := by
  obtain ⟨lp, e, hstep, hready, -, -⟩ := h.decode hfaults hbatch htok
  refine ⟨e, ?_, hready⟩
  rw [decodeOps, Nif.on_bind_ok hstep]
  cases hend : p.isEog tok with
  | true  => rfl
  | false => rfl

/-! ### The batch of a draft -/

/-- The memory and the rows that a draft leaves. -/
theorem draftRows_spec (q : SeqId) (draft : List Token) {start : Nat}
    {kv : SeqId → List Token} (h : Follows kv (draftRows q start draft) = true) :
    (draft ≠ [] → start = (kv q).length) ∧
      (draftRows q start draft).foldl pushCell kv = Function.update kv q (kv q ++ draft) ∧
      batchRows kv (draftRows q start draft) =
        (List.range draft.length).map fun j => some ⟨q, kv q ++ draft.take (j + 1)⟩ := by
  induction draft generalizing start kv with
  | nil => simp [draftRows, batchRows]
  | cons tok draft ih =>
    simp only [draftRows, Follows, Bool.and_eq_true, beq_iff_eq] at h
    obtain ⟨hpos, hrest⟩ := h
    obtain ⟨-, hkv, hrows⟩ := ih hrest
    have hself : pushCell kv ⟨tok, start, q, true⟩ q = kv q ++ [tok] := Function.update_self ..
    refine ⟨fun _ => hpos, ?_, ?_⟩
    · rw [draftRows, List.foldl_cons, hkv, hself]
      simp only [pushCell, Function.update_idem, List.append_assoc, List.singleton_append]
    · rw [draftRows, batchRows, hrows, hself, List.length_cons, List.range_succ_eq_map,
        List.map_cons, List.map_map]
      simp [Function.comp_def]

/-! ### The verification -/

/-- What the verification of `draft` from row `i` on found: after `k` accepted tokens, where the
    decode ops are as far, the sampler ended the generation, disagreed, or reached the end. -/
theorem verifyRows_run {q : SeqId} {s : Ref} (hbatch : 0 < p.nBatch) {c₀ : Ctx Smp}
    (draft : List Token) {i : Nat} (hi : 0 < i) {c c' d : Ctx Smp} {cells : List Token}
    {chain : Chain Smp} {v : Verdict} (hv : (verifyRows p q s i draft).on c = (.ok v, c'))
    (hrows : ∀ j ≤ draft.length,
      rowAt c ((i : Int) - 1 + j) = some ⟨q, cells ++ draft.take j⟩)
    (hchain : c.chains = Function.update c₀.chains s (some chain))
    (hready : Ready c₀ d q s cells ⟨q, cells⟩ chain) (hfaults : d.faults = []) :
    ∃ k chain' e, k ≤ draft.length ∧
      Ready c₀ e q s (cells ++ draft.take k) ⟨q, cells ++ draft.take k⟩ chain' ∧ e.faults = [] ∧
      Runs p q s d e (draft.take k) ∧ c'.kv = c.kv ∧ c'.rows = c.rows ∧ c'.perSeq = c.perSeq ∧
      match v with
      | .matched => k = draft.length ∧
          c'.chains = Function.update c₀.chains s (some chain')
      | .eog i' => i' = i + k ∧ ∃ tok, draft[k]? = some tok ∧ p.isEog tok = true ∧
          chain'.next p ⟨q, cells ++ draft.take k⟩ = some tok ∧
          c'.chains = Function.update c₀.chains s
            (some (chain'.after p ⟨q, cells ++ draft.take k⟩))
      | .mismatch i' si => i' = i + k ∧ k < draft.length ∧ draft[k]? ≠ some si ∧
          chain'.next p ⟨q, cells ++ draft.take k⟩ = some si ∧
          c'.chains = Function.update c₀.chains s
            (some (chain'.after p ⟨q, cells ++ draft.take k⟩)) := by
  -- The draft row by row: `d` is where as many decode ops would have led.
  induction draft generalizing i c d cells chain with
  | nil =>
    cases hv
    refine ⟨0, chain, d, Nat.le_refl 0, ?_, hfaults, .refl q s d, rfl, rfl, rfl, rfl, hchain⟩
    simpa using hready
  | cons tok draft ih =>
    unfold verifyRows at hv
    obtain ⟨⟨si, row⟩, c₁, hsample, hv⟩ := Nif.of_bind_ok hv
    obtain ⟨chain₁, hchain₁, hrow, hsi, rfl⟩ := of_samplerSample_ok hsample
    have hrow₀ := hrows 0 (Nat.zero_le _)
    simp only [Nat.cast_zero, add_zero, List.take_zero, List.append_nil] at hrow₀
    obtain rfl : row = ⟨q, cells⟩ := Option.some.inj (hrow.symm.trans hrow₀)
    obtain rfl : chain₁ = chain := by
      rw [hchain, Function.update_self] at hchain₁
      exact (Option.some.inj hchain₁).symm
    have hchains : Function.update c.chains s (some (chain₁.after p ⟨q, cells⟩)) =
        Function.update c₀.chains s (some (chain₁.after p ⟨q, cells⟩)) := by
      rw [hchain, Function.update_idem]
    dsimp only at hv
    split at hv
    -- The sampler wants another token: the draft is cut here.
    case isTrue hne =>
      cases hv
      refine ⟨0, chain₁, d, Nat.zero_le _, ?_, hfaults, .refl q s d, rfl, rfl, rfl, rfl,
        Nat.succ_pos _, ?_, ?_, ?_⟩
      · simpa using hready
      · simpa using fun h => hne h.symm
      · rw [List.take_zero, List.append_nil]
        exact hsi
      · rw [List.take_zero, List.append_nil]
        exact hchains
    case isFalse heq =>
      obtain rfl : si = tok := not_not.mp heq
      split at hv
      -- The draft's token ends the generation.
      case isTrue heog =>
        cases hv
        refine ⟨0, chain₁, d, Nat.zero_le _, ?_, hfaults, .refl q s d, rfl, rfl, rfl, rfl, si,
          rfl, heog, ?_, ?_⟩
        · simpa using hready
        · rw [List.take_zero, List.append_nil]
          exact hsi
        · rw [List.take_zero, List.append_nil]
          exact hchains
      case isFalse heog =>
        -- the decode op samples the same row, and pushes the token the draft has
        obtain ⟨lp, d₁, hstep, hready₁, hfaults₁, -⟩ := hready.decode hfaults hbatch hsi
        -- The rows behind are one further along the draft.
        rw [Bool.eq_false_iff.mpr heog] at hstep
        have hrows₁ : ∀ j ≤ draft.length,
            rowAt c (((i + 1 : Nat) : Int) - 1 + j) =
              some ⟨q, (cells ++ [si]) ++ draft.take j⟩ := by
          intro j hj
          have hnext := hrows (j + 1) (Nat.succ_le_succ hj)
          rw [List.take_succ_cons, List.append_cons] at hnext
          rw [← hnext]
          congr 1
          push_cast
          omega
        obtain ⟨k, chain', e, hk, hready', hfaults', hruns, hkv, hrws, hper, hend⟩ :=
          ih (Nat.succ_pos i) hv hrows₁ hchains hready₁ hfaults₁
        -- One more token was accepted than `ih` counts.
        refine ⟨k + 1, chain', e, Nat.succ_le_succ hk, ?_, hfaults', ?_, hkv, hrws, hper, ?_⟩
        · simpa using hready'
        · exact .cons hstep hruns
        · cases v with
          | matched => exact ⟨congrArg (· + 1) hend.1, hend.2⟩
          | eog i' =>
            obtain ⟨rfl, tok', hget, hrest⟩ := hend
            refine ⟨by omega, tok', hget, ?_⟩
            simpa using hrest
          | mismatch i' si' =>
            obtain ⟨rfl, hlt, hget, hrest⟩ := hend
            refine ⟨by omega, Nat.succ_lt_succ hlt, hget, ?_⟩
            simpa using hrest

/-! ### The tick -/

/-- What the model process, the caller and the next op see of a sequence is the same. -/
structure SameFor (q : SeqId) (c d : Ctx Smp) : Prop where
  kv : d.kv = c.kv
  chains : d.chains = c.chains
  nextPos : (d.perSeq q).nextPos = (c.perSeq q).nextPos
  others : ∀ q' ≠ q, d.perSeq q' = c.perSeq q'
  row : nextRow d q = nextRow c q

/-- Two contexts ready for the same are the same for the seq. -/
theorem Ready.sameFor {c d e : Ctx Smp} {q : SeqId} {s : Ref} {cells : List Token} {row : OutRow}
    {chain : Chain Smp} (hd : Ready c d q s cells row chain) (he : Ready c e q s cells row chain) :
    SameFor q d e where
  kv := he.kv.trans hd.kv.symm
  chains := he.chains.trans hd.chains.symm
  nextPos := he.nextPos.trans hd.nextPos.symm
  others := fun q' hq' => (he.others q' hq').trans (hd.others q' hq').symm
  row := he.row.trans hd.row.symm

/-- What one speculative tick answered, against the decode ops from `d`: they yield its tokens,
    only the last of which may end the generation, and leave the same behind. -/
structure Refines (p : Params Row Smp) (q : SeqId) (s : Ref) (draft : List Token) (d c' : Ctx Smp)
    (res : SpecResult) : Prop where
  nonempty : 1 ≤ res.committed.length
  bounded : res.committed.length ≤ draft.length + 1
  ops : ∃ init last e, res.committed = init ++ [last] ∧ res.eog = p.isEog last ∧
    (decodeOps p q s res.committed.length).on d =
      (.ok (init.map (·, false) ++ [(last, res.eog)]), e) ∧ SameFor q c' e
  accepted : IsGreatest {k | k ≤ draft.length ∧ draft.take k <+: res.committed} res.nAcc

/-- A speculative decode of one token leaves what a decode op leaves. -/
theorem of_specTail_ok {c c' : Ctx Smp} {q : SeqId} {pos : Nat} {accepted : List Token}
    {tok : Token} {res : SpecResult} (h : (specTail p q pos accepted tok).on c = (.ok res, c')) :
    pos = (c.kv q).length ∧ res = ⟨accepted ++ [tok], p.isEog tok, accepted.length⟩ ∧
      c'.kv = Function.update c.kv q (c.kv q ++ [tok]) ∧ c'.chains = c.chains ∧
      c'.perSeq = Function.update c.perSeq q ⟨0, pos + 1⟩ ∧
      c'.rows = [some ⟨q, c.kv q ++ [tok]⟩] := by
  obtain ⟨_, c₁, hdecode, h⟩ := Nif.of_bind_ok h
  obtain ⟨hfollows, rfl⟩ := of_llamaDecode_ok hdecode
  obtain ⟨_, c₂, hmod, h⟩ := Nif.of_bind_ok h
  cases hmod
  cases h
  obtain ⟨hpos, hkv, hrows⟩ := draftRows_spec q [tok] hfollows
  exact ⟨hpos (List.cons_ne_nil _ _), rfl, hkv, rfl, rfl, hrows⟩

/-- A failure inside the speculative step drops the logits of the seq. -/
theorem specFailing_on {α : Type} (c : Ctx Smp) (q : SeqId) (x : Nif Smp α) :
    (specFailing q x).on c =
      match x.on c with
      | (.ok a, c₁)    => (.ok a, c₁)
      | (.error e, c₁) => (.error e,
          { track c₁ q ⟨noLogitsIdx, (c₁.perSeq q).nextPos⟩ with decodeReady := false }) := by
  unfold specFailing Nif.on
  simp only [tryCatch, tryCatchThe, MonadExceptOf.tryCatch, ExceptT.tryCatch, ExceptT.mk, bind,
    StateT.bind]
  cases x c with
  | mk res c₁ => cases res <;> rfl

/-- What succeeded did not fail. -/
theorem of_specFailing_ok {α : Type} {c c' : Ctx Smp} {q : SeqId} {x : Nif Smp α} {a : α}
    (h : (specFailing q x).on c = (.ok a, c')) : x.on c = (.ok a, c') := by
  rw [specFailing_on] at h
  split at h
  · rename_i hx
    cases h
    exact hx
  · cases h

/-- A removal that worked. -/
theorem of_specRemove_ok {c c' : Ctx Smp} {q : SeqId} {pos : Nat}
    (h : (specRemove p q pos).on c = (.ok (), c')) :
    c' = setCells c q ((c.kv q).take pos) := by
  obtain ⟨removed, c₁, hrm, h⟩ := Nif.of_bind_ok h
  unfold memorySeqRm at hrm
  rw [Nif.on_bind_ok (Nif.on_get c)] at hrm
  split at hrm
  · cases hrm
    cases h
    rfl
  · cases hrm
    cases h

section Accepted

variable {draft committed : List Token} {i : Nat}

/-- What was committed is a part of the draft. -/
theorem accepted_take (hi : i ≤ draft.length) (h : committed = draft.take i) :
    IsGreatest {k | k ≤ draft.length ∧ draft.take k <+: committed} i := by
  refine ⟨⟨hi, h ▸ List.prefix_rfl⟩, ?_⟩
  rintro k ⟨hk, hpre⟩
  have hlen := hpre.length_le
  rw [h, List.length_take_of_le hk, List.length_take_of_le hi] at hlen
  exact hlen

/-- What was committed is a part of the draft and one token that is not the next. -/
theorem accepted_snoc {x : Token} (hi : i ≤ draft.length) (h : committed = draft.take i ++ [x])
    (hx : draft[i]? ≠ some x) :
    IsGreatest {k | k ≤ draft.length ∧ draft.take k <+: committed} i := by
  refine ⟨⟨hi, h ▸ List.prefix_append _ _⟩, ?_⟩
  rintro k ⟨hk, hpre⟩
  by_contra hlt
  push Not at hlt
  -- then one more token of the draft would be the one that was committed
  have hmore : draft.take (i + 1) <+: committed :=
    (List.take_prefix_take_left hlt).trans hpre
  have heq : draft.take (i + 1) = committed := by
    refine hmore.eq_of_length ?_
    rw [h, List.length_take_of_le (Nat.le_trans hlt hk), List.length_append,
      List.length_take_of_le hi, List.length_singleton]
  apply hx
  have hget := congrArg (fun l : List Token => l[i]?) (heq.trans h)
  simpa [List.getElem?_take, List.length_take_of_le hi] using hget

end Accepted

/-- A tail decode leaves the context as a decode op would. -/
theorem ready_of_specTail {c₀ c c' : Ctx Smp} {q : SeqId} {s : Ref} {pos : Nat}
    {accepted cells : List Token} {tok : Token} {chain : Chain Smp} {res : SpecResult}
    (hkv : c.kv = Function.update c₀.kv q cells) (hper : c.perSeq = c₀.perSeq)
    (hchains : c.chains = Function.update c₀.chains s (some chain))
    (h : (specTail p q pos accepted tok).on c = (.ok res, c')) :
    res = ⟨accepted ++ [tok], p.isEog tok, accepted.length⟩ ∧
      Ready c₀ c' q s (cells ++ [tok]) ⟨q, cells ++ [tok]⟩ chain := by
  obtain ⟨rfl, hres, hkv', hchains', hper', hrows⟩ := of_specTail_ok h
  have hcells : c.kv q = cells := by rw [hkv, Function.update_self]
  rw [hcells] at hkv' hper' hrows
  refine ⟨hres, ⟨?_, hchains'.trans hchains, ?_, ?_, ?_⟩⟩
  · rw [hkv', hkv, Function.update_idem]
  · rw [hper', Function.update_self, List.length_append, List.length_singleton]
  · intro q' hq'
    rw [hper', Function.update_of_ne hq', hper]
  · simp [nextRow, hper', rowAt, hrows, logitsLast]

section Hit

variable {c₀ c₂ c₃ c' d e : Ctx Smp} {q : SeqId} {s : Ref} {s0 : Token} {rest : List Token}
  {k : Nat} {chain : Chain Smp} {res : SpecResult}

/-- After the batch of the draft `s0 :: rest` and its verification: the cells and the rows of the
    whole draft are there, and the decode ops are `k` accepted tokens further. -/
structure Verified (p : Params Row Smp) (q : SeqId) (s : Ref) (s0 : Token) (rest : List Token)
    (k : Nat) (c₀ c₂ d e : Ctx Smp) (chain : Chain Smp) : Prop where
  bound : k ≤ rest.length
  kv : c₂.kv = Function.update c₀.kv q (c₀.kv q ++ s0 :: rest)
  /-- Row `j` is after the `j` tokens that follow the first one. -/
  rowAt : ∀ x : Ctx Smp, x.rows = c₂.rows → ∀ j ≤ rest.length,
    rowAt x (j : Int) = some ⟨q, c₀.kv q ++ [s0] ++ rest.take j⟩
  perSeq : c₂.perSeq = c₀.perSeq
  ready : Ready c₀ e q s (c₀.kv q ++ [s0] ++ rest.take k)
    ⟨q, c₀.kv q ++ [s0] ++ rest.take k⟩ chain
  faults : e.faults = []
  runs : Runs p q s d e (rest.take k)

/-- The tick that sampled `s0` and answered `res`, against the decode ops from `d`, which come
    after the one that sampled `s0`. -/
def HitAgrees (p : Params Row Smp) (q : SeqId) (s : Ref) (s0 : Token) (rest : List Token)
    (d c' : Ctx Smp) (res : SpecResult) : Prop :=
  ∃ init last e, res.committed = s0 :: (init ++ [last]) ∧ res.eog = p.isEog last ∧
    res.committed.length ≤ rest.length + 2 ∧
    (decodeOps p q s (init.length + 1)).on d =
      (.ok (init.map (·, false) ++ [(last, res.eog)]), e) ∧ SameFor q c' e ∧
    IsGreatest {k | k ≤ (s0 :: rest).length ∧ (s0 :: rest).take k <+: res.committed} res.nAcc

/-- The rows of the batch of a draft. -/
theorem rowAt_batch (hrows : c₂.rows = (List.range (s0 :: rest).length).map
      fun j => some ⟨q, c₀.kv q ++ (s0 :: rest).take (j + 1)⟩) {x : Ctx Smp}
    (hx : x.rows = c₂.rows) {j : Nat} (hj : j ≤ rest.length) :
    rowAt x (j : Int) = some ⟨q, c₀.kv q ++ [s0] ++ rest.take j⟩ := by
  have hneg : ¬((j : Int) < 0) := by omega
  have hlt : j < (s0 :: rest).length := Nat.lt_succ_of_le hj
  unfold rowAt
  rw [if_neg hneg, hx, hrows, Int.toNat_natCast, List.getElem?_map, List.getElem?_range hlt]
  simp

/-- The tokens that were accepted are as many as were verified. -/
theorem Verified.length_take (hv : Verified p q s s0 rest k c₀ c₂ d e chain) :
    (rest.take k).length = k := List.length_take_of_le hv.bound

/-- The decode ops go on with one token more. -/
theorem Verified.ops (hv : Verified p q s s0 rest k c₀ c₂ d e chain) {last : Token} {eog : Bool}
    {f : Ctx Smp} (hone : (decodeOps p q s 1).on e = (.ok [(last, eog)], f)) :
    (decodeOps p q s ((rest.take k).length + 1)).on d =
      (.ok ((rest.take k).map (·, false) ++ [(last, eog)]), f) :=
  hv.runs 1 _ _ hone

/-- The whole draft was accepted: one more token is sampled after it. -/
theorem Verified.matched (hbatch : 0 < p.nBatch)
    (hv : Verified p q s s0 rest rest.length c₀ c₂ d e chain)
    (hchains : c₂.chains = Function.update c₀.chains s (some chain)) {bonus : Token} {row : OutRow}
    (hsample :
      (samplerSample p q s (((s0 :: rest).length : Int) - 1)).on c₂ = (.ok (bonus, row), c₃))
    (h : (specTail p q ((c₀.kv q).length + (s0 :: rest).length) (s0 :: rest) bonus).on c₃ =
      (.ok res, c')) : HitAgrees p q s s0 rest d c' res := by
  have hready := hv.ready
  have hops := @Verified.ops _ _ _ _ _ _ _ _ _ _ _ _ _ hv bonus (p.isEog bonus)
  rw [List.take_length] at hready hops
  obtain ⟨chain₁, hchain₁, hrow, hbonus, hc₃⟩ := of_samplerSample_ok hsample
  rw [hchains, Function.update_self] at hchain₁
  cases hchain₁
  have hrow₀ := hv.rowAt c₂ rfl rest.length (Nat.le_refl _)
  have hidx : (((s0 :: rest).length : Nat) : Int) - 1 = (rest.length : Int) := by
    rw [List.length_cons]
    push_cast
    omega
  rw [List.take_length] at hrow₀
  rw [hidx] at hrow
  cases hrow.symm.trans hrow₀
  have hkv₃ : c₃.kv = Function.update c₀.kv q (c₀.kv q ++ [s0] ++ rest) := by
    rw [hc₃, List.append_assoc]
    exact hv.kv
  have hper₃ : c₃.perSeq = c₀.perSeq := by rw [hc₃, hv.perSeq]
  have hchains₃ : c₃.chains = Function.update c₀.chains s
      (some (chain.after p ⟨q, c₀.kv q ++ [s0] ++ rest⟩)) := by
    rw [hc₃]
    show Function.update c₂.chains s _ = _
    rw [hchains, Function.update_idem]
    rfl
  obtain ⟨hres, hfinal⟩ := ready_of_specTail hkv₃ hper₃ hchains₃ h
  obtain ⟨f, hone, hlast⟩ := hready.decodeOps_one hv.faults hbatch hbonus
  refine ⟨rest, bonus, f, by rw [hres]; rfl, by rw [hres], ?_, ?_, hfinal.sameFor hlast, ?_⟩
  · rw [hres]
    simp
  · rw [hres]
    exact hops hone
  · rw [hres]
    exact accepted_snoc (x := bonus) (Nat.le_refl _) (by rw [List.take_length]) (by simp)

/-- The sampler ended the generation with a token of the draft; what came after it in the batch is
    dropped, if there was anything. -/
theorem Verified.eog (hbatch : 0 < p.nBatch) (hv : Verified p q s s0 rest k c₀ c₂ d e chain)
    {tok : Token} (hget : rest[k]? = some tok) (heog : p.isEog tok = true)
    (hnext : chain.next p ⟨q, c₀.kv q ++ [s0] ++ rest.take k⟩ = some tok)
    (hkv₃ : c₃.kv = Function.update c₀.kv q (c₀.kv q ++ (s0 :: rest).take (1 + k + 1)))
    (hrows₃ : c₃.rows = c₂.rows) (hper₃ : c₃.perSeq = c₂.perSeq)
    (hchains₃ : c₃.chains = Function.update c₀.chains s
      (some (chain.after p ⟨q, c₀.kv q ++ [s0] ++ rest.take k⟩)))
    (h : (do
      specReady q (1 + k) ((c₀.kv q).length + (1 + k) + 1)
      return ⟨(s0 :: rest).take (1 + k + 1), true, 1 + k + 1⟩ : Nif Smp SpecResult).on c₃ =
        (.ok res, c')) : HitAgrees p q s s0 rest d c' res := by
  have hklen := hv.length_take
  obtain ⟨f, hone, hlast⟩ := hv.ready.decodeOps_one hv.faults hbatch hnext
  rw [heog] at hone
  obtain ⟨hklt, -⟩ := List.getElem?_eq_some_iff.mp hget
  have htake : rest.take (k + 1) = rest.take k ++ [tok] := by
    rw [List.take_add_one, hget]
    rfl
  have hcommitted : (s0 :: rest).take (1 + k + 1) = s0 :: (rest.take k ++ [tok]) := by
    have hidx : 1 + k + 1 = (k + 1) + 1 := by omega
    rw [hidx, List.take_succ_cons, htake]
  obtain ⟨_, c₄, hmod, h⟩ := Nif.of_bind_ok h
  cases hmod
  cases h
  have hcells : c₀.kv q ++ (s0 :: rest).take (1 + k + 1) =
      c₀.kv q ++ [s0] ++ rest.take k ++ [tok] := by
    rw [hcommitted]
    simp
  have hfinal : Ready c₀ { track c₃ q ⟨(1 + k : Nat), (c₀.kv q).length + (1 + k) + 1⟩ with
      decodeReady := true } q s (c₀.kv q ++ [s0] ++ rest.take k ++ [tok])
      ⟨q, c₀.kv q ++ [s0] ++ rest.take k ++ [tok]⟩
      (chain.after p ⟨q, c₀.kv q ++ [s0] ++ rest.take k⟩) := by
    refine ⟨?_, hchains₃, ?_, ?_, ?_⟩
    · rw [← hcells]
      exact hkv₃
    · simp [track, hklen]
      omega
    · intro q' hq'
      show (Function.update c₃.perSeq q _) q' = _
      rw [Function.update_of_ne hq', hper₃, hv.perSeq]
    · have hrow := hv.rowAt c₃ hrows₃ (k + 1) hklt
      have hneg : ¬(((1 + k : Nat) : Int) < 0) := by omega
      have hlast : ((1 + k : Nat) : Int) ≠ logitsLast := by
        unfold logitsLast
        omega
      unfold nextRow
      simp only [track, Function.update_self, if_neg hneg, if_neg hlast]
      rw [htake, ← List.append_assoc, Nat.add_comm k 1] at hrow
      exact hrow
  refine ⟨rest.take k, tok, f, hcommitted, heog.symm, ?_, hv.ops hone, hfinal.sameFor hlast, ?_⟩
  · rw [hcommitted]
    simp
  · exact accepted_take (by simp only [List.length_cons]; omega) rfl

/-- The sampler disagreed with the draft: its token is decoded where the draft's was. -/
theorem Verified.mismatch (hbatch : 0 < p.nBatch)
    (hv : Verified p q s s0 rest k c₀ c₂ d e chain) (hlt : k < rest.length) {si : Token}
    (hget : rest[k]? ≠ some si)
    (hnext : chain.next p ⟨q, c₀.kv q ++ [s0] ++ rest.take k⟩ = some si)
    (hchains : c₂.chains = Function.update c₀.chains s
      (some (chain.after p ⟨q, c₀.kv q ++ [s0] ++ rest.take k⟩)))
    (hrm : (specRemove p q ((c₀.kv q).length + (1 + k))).on c₂ = (.ok (), c₃))
    (h : (specTail p q ((c₀.kv q).length + (1 + k)) ((s0 :: rest).take (1 + k)) si).on c₃ =
      (.ok res, c')) : HitAgrees p q s s0 rest d c' res := by
  have hklen := hv.length_take
  obtain ⟨f, hone, hlast⟩ := hv.ready.decodeOps_one hv.faults hbatch hnext
  have hc₃ := of_specRemove_ok hrm
  have hall : c₂.kv q = c₀.kv q ++ s0 :: rest := by rw [hv.kv, Function.update_self]
  have htake : (s0 :: rest).take (1 + k) = s0 :: rest.take k := by
    rw [Nat.add_comm, List.take_succ_cons]
  have hkv₃ : c₃.kv = Function.update c₀.kv q (c₀.kv q ++ [s0] ++ rest.take k) := by
    rw [hc₃]
    show Function.update c₂.kv q _ = _
    rw [hall, hv.kv, Function.update_idem, List.take_length_add_append, htake]
    simp
  have hper₃ : c₃.perSeq = c₀.perSeq := by rw [hc₃]; exact hv.perSeq
  have hchains₃ : c₃.chains = Function.update c₀.chains s
      (some (chain.after p ⟨q, c₀.kv q ++ [s0] ++ rest.take k⟩)) := by rw [hc₃]; exact hchains
  obtain ⟨hres, hfinal⟩ := ready_of_specTail hkv₃ hper₃ hchains₃ h
  refine ⟨rest.take k, si, f, ?_, by rw [hres], ?_, ?_, hfinal.sameFor hlast, ?_⟩
  · rw [hres, htake]
    rfl
  · rw [hres, htake]
    simp
  · rw [hres]
    exact hv.ops hone
  · rw [hres]
    have hlen : ((s0 :: rest).take (1 + k)).length = 1 + k := by
      rw [htake, List.length_cons, hklen]
      omega
    show IsGreatest _ ((s0 :: rest).take (1 + k)).length
    rw [hlen]
    refine accepted_snoc (x := si) (by simp only [List.length_cons]; omega) rfl ?_
    rw [Nat.add_comm, List.getElem?_cons_succ]
    exact hget

end Hit

/-- A draft whose first token was sampled, against the decode ops after the first. -/
theorem specHit_refines {c₀ c c' d : Ctx Smp} {q : SeqId} {s : Ref} {s0 : Token}
    {rest : List Token} {chain : Chain Smp} {res : SpecResult} (hbatch : 0 < p.nBatch)
    (hkv : c.kv = c₀.kv) (hper : c.perSeq = c₀.perSeq)
    (hchains : c.chains = Function.update c₀.chains s (some chain))
    (hready : Ready c₀ d q s (c₀.kv q ++ [s0]) ⟨q, c₀.kv q ++ [s0]⟩ chain)
    (hfaults : d.faults = [])
    (h : (specHit p q s (c₀.kv q).length (s0 :: rest)).on c = (.ok res, c')) :
    HitAgrees p q s s0 rest d c' res := by
  -- The rows of the batch are those that the decode ops would leave.
  obtain ⟨_, c₁, hdecode, h⟩ := Nif.of_bind_ok h
  obtain ⟨hfollows, hc₁⟩ := of_llamaDecode_ok hdecode
  obtain ⟨-, hcells, hrows⟩ := draftRows_spec _ (s0 :: rest) hfollows
  rw [hkv] at hcells hrows
  obtain ⟨hkv₁, hrows₁, hper₁, hchains₁⟩ :
      c₁.kv = Function.update c₀.kv q (c₀.kv q ++ s0 :: rest) ∧
      c₁.rows = (List.range (s0 :: rest).length).map
        (fun j => some ⟨q, c₀.kv q ++ (s0 :: rest).take (j + 1)⟩) ∧
      c₁.perSeq = c₀.perSeq ∧ c₁.chains = Function.update c₀.chains s (some chain) := by
    rw [hc₁, hkv]
    exact ⟨hcells, hrows, hper, hchains⟩
  -- The verification runs the decode ops of what it accepts.
  obtain ⟨v, c₂, hverify, h⟩ := Nif.of_bind_ok h
  have hrowsV : ∀ j ≤ rest.length, rowAt c₁ (((1 : Nat) : Int) - 1 + j) =
      some ⟨q, c₀.kv q ++ [s0] ++ rest.take j⟩ := by
    intro j hj
    have hj' := rowAt_batch hrows₁ rfl hj
    simpa using hj'
  obtain ⟨k, chain', e, hk, hready', hfaults', hruns, hkv₂, hrows₂, hper₂, hend⟩ :=
    verifyRows_run hbatch rest Nat.one_pos hverify hrowsV hchains₁ hready hfaults
  have hv : Verified p q s s0 rest k c₀ c₂ d e chain' := {
    bound := hk
    kv := hkv₂.trans hkv₁
    rowAt := fun x hx j hj => rowAt_batch hrows₁ (hx.trans hrows₂) hj
    perSeq := hper₂.trans hper₁
    ready := hready'
    faults := hfaults'
    runs := hruns }
  -- Where it ended: all of the draft, an end of generation, or another token.
  cases v with
  | matched =>
    obtain ⟨rfl, hchains₂⟩ := hend
    obtain ⟨⟨bonus, row⟩, c₃, hsample, h⟩ := Nif.of_bind_ok h
    exact hv.matched hbatch hchains₂ hsample h
  | eog i =>
    obtain ⟨rfl, tok, hget, heog, hnext, hchains₂⟩ := hend
    -- the rows behind the end are still there
    have hall : c₂.kv q = c₀.kv q ++ s0 :: rest := by rw [hv.kv, Function.update_self]
    dsimp only at h
    split at h
    case isTrue =>
      obtain ⟨_, c₃, hrm, h⟩ := Nif.of_bind_ok h
      have hc₃ := of_specRemove_ok hrm
      refine hv.eog hbatch hget heog hnext ?_ (by rw [hc₃]; rfl) (by rw [hc₃]; rfl)
        (by rw [hc₃]; exact hchains₂) h
      rw [hc₃]
      show Function.update c₂.kv q _ = _
      rw [hall, hv.kv, Function.update_idem, Nat.add_assoc, List.take_length_add_append]
    case isFalse hfull =>
      refine hv.eog hbatch hget heog hnext ?_ rfl rfl hchains₂ h
      rw [hv.kv, List.take_of_length_le (Nat.le_of_not_lt hfull)]
  | mismatch i si =>
    obtain ⟨rfl, hlt, hget, hnext, hchains₂⟩ := hend
    obtain ⟨_, c₃, hrm, h⟩ := Nif.of_bind_ok h
    exact hv.mismatch hbatch hlt hget hnext hchains₂ hrm h

/-- The context without the coming failures: the decode ops it is compared with all work. -/
def Ctx.faultless (c : Ctx Smp) : Ctx Smp := { c with faults := [] }

/-- What a speculative tick that answered had passed: its checks, and its first sample. -/
theorem of_specStep_ok {q : SeqId} {s : Ref} {draft : List Token} {c c' : Ctx Smp}
    {res : SpecResult} (h : (specStep p q s draft).on c = (.ok res, c')) :
    draft ≠ [] ∧ 0 < p.nBatch ∧ ∃ chain s0 row c₁, c.chains s = some chain ∧
      nextRow c q = some row ∧ chain.next p row = some s0 ∧ c₁.kv = c.kv ∧
      c₁.perSeq = c.perSeq ∧
      c₁.chains = Function.update c.chains s (some (chain.after p row)) ∧
      (if draft.head? ≠ some s0 ∨ p.isEog s0 = true then
        (do
          specDecodeSingle s0 (c.perSeq q).nextPos q
          specReady q 0 ((c.perSeq q).nextPos + 1)
          return ⟨[s0], p.isEog s0, if draft.head? = some s0 then 1 else 0⟩)
      else specHit p q s (c.perSeq q).nextPos draft : Nif Smp SpecResult).on c₁ =
        (.ok res, c') := by
  unfold specStep at h
  rw [Nif.on_bind_ok (Nif.on_get c)] at h
  dsimp only at h
  -- The guards first: each one that fails answers an error, which `h` excludes.
  by_cases hnil : draft = []
  · rw [if_pos hnil] at h
    cases h
  rw [if_neg hnil] at h
  split at h
  case isTrue =>
    obtain ⟨_, _, _, h⟩ := Nif.of_bind_ok h
    cases h
  case isFalse hlive =>
    push Not at hlive
    split at h
    · cases h
    · cases h
    · rename_i chain hcheck hchain
      have hbatch : 0 < p.nBatch := by
        unfold checkDraft at hcheck
        split_ifs at hcheck with _ _ hroom
        omega
      split at h
      · cases h
      -- Past the checks the first sample is drawn, and it fixes the chain and the row.
      have h := of_specFailing_ok h
      obtain ⟨⟨s0, row⟩, c₁, hsample, h⟩ := Nif.of_bind_ok h
      obtain ⟨chain', hchain', hrow, hs0, hc₁⟩ := of_samplerSample_ok hsample
      cases hchain.symm.trans hchain'
      -- The slot is live, so its last row is a real one and is the row `decode` would read.
      have hnext : nextRow c q = some row := by
        have hlast : (c.perSeq q).lastLogitsIdx ≠ logitsLast := by
          intro heq
          have hneg := hlive.2
          rw [heq] at hneg
          exact absurd hneg (by decide)
        unfold nextRow
        simp only
        rw [if_neg hlast, if_neg (by omega)]
        exact hrow
      refine ⟨hnil, hbatch, chain, s0, row, c₁, hchain, hnext, hs0, ?_, ?_, ?_, h⟩
      · rw [hc₁]
      · rw [hc₁]
      · rw [hc₁]
        rfl

/-- **Speculative decoding is plain decoding.** A successful speculative tick commits between one
    token and one more than its draft has, and leaves the cells, the tracking, the row to sample
    and the sampler as that many decode ops do, which yield the same tokens with the same
    flags. -/
theorem specStep_eq_decodeOps (p : Params Row Smp) (q : SeqId) (s : Ref) (draft : List Token)
    {c c' : Ctx Smp} {res : SpecResult}
    (h : (specStep p q s draft).on c = (.ok res, c')) :
    Refines p q s draft c.faultless c' res := by
  obtain ⟨hnil, hbatch, chain, s0, row, c₁, hchain, hrow, hs0, hkv₁, hper₁, hchains₁, h⟩ :=
    of_specStep_ok h
  -- before the tick both sides are in the same context
  have hstart : (c.perSeq q).nextPos = (c.kv q).length →
      Ready c c.faultless q s (c.kv q) row chain := by
    intro hpos
    refine ⟨(Function.update_eq_self q c.kv).symm, ?_, hpos, fun _ _ => rfl, hrow⟩
    rw [← hchain]
    exact (Function.update_eq_self s c.chains).symm
  split at h
  case isTrue hmiss =>
    -- the miss is a decode op
    have htail : (specTail p q (c.perSeq q).nextPos [] s0).on c₁ =
        (.ok ⟨[s0], p.isEog s0, 0⟩, c') ∧
        res = ⟨[s0], p.isEog s0, if draft.head? = some s0 then 1 else 0⟩ := by
      obtain ⟨_, c₂, hdecode, h⟩ := Nif.of_bind_ok h
      obtain ⟨_, c₃, hready, h⟩ := Nif.of_bind_ok h
      cases h
      refine ⟨?_, rfl⟩
      unfold specTail
      rw [Nif.on_bind_ok hdecode, Nif.on_bind_ok hready]
      rfl
    obtain ⟨htail, hres⟩ := htail
    have hpos := (of_specTail_ok htail).1
    rw [hkv₁] at hpos
    obtain ⟨-, hfinal⟩ := ready_of_specTail
      (hkv₁.trans (Function.update_eq_self q c.kv).symm) hper₁ hchains₁ htail
    obtain ⟨e, hone, hlast⟩ := (hstart hpos).decodeOps_one rfl hbatch hs0
    have hlen : 1 ≤ draft.length := List.length_pos_of_ne_nil hnil
    refine ⟨by rw [hres]; exact Nat.le_refl 1, by rw [hres]; exact Nat.succ_pos _, ?_, ?_⟩
    · exact ⟨[], s0, e, by rw [hres]; rfl, by rw [hres], by rw [hres]; exact hone,
        hfinal.sameFor hlast⟩
    · rw [hres]
      obtain ⟨tok, rest, rfl⟩ := List.exists_cons_of_ne_nil hnil
      by_cases hhead : tok = s0
      · subst hhead
        simp only [List.head?_cons, if_true]
        exact accepted_take hlen rfl
      · have hne : (tok :: rest).head? ≠ some s0 := fun heq => hhead (Option.some.inj heq)
        simp only [if_neg hne]
        exact accepted_snoc (x := s0) (Nat.zero_le _) rfl hne
  case isFalse hhit =>
    push Not at hhit
    obtain ⟨rest, rfl⟩ : ∃ rest, draft = s0 :: rest := by
      obtain ⟨tok, rest, rfl⟩ := List.exists_cons_of_ne_nil hnil
      exact ⟨rest, congrArg (· :: rest) (Option.some.inj hhit.1)⟩
    -- the batch was decoded, so the tracked position is that of the next cell
    have hpos : (c.perSeq q).nextPos = (c.kv q).length := by
      obtain ⟨_, c₂, hdecode, -⟩ := Nif.of_bind_ok h
      have hfollows := (of_llamaDecode_ok hdecode).1
      rw [hkv₁] at hfollows
      exact (draftRows_spec _ (s0 :: rest) hfollows).1 (List.cons_ne_nil _ _)
    rw [hpos] at h
    obtain ⟨lp, d, hstep, hready, hfaults, -⟩ := (hstart hpos).decode rfl hbatch hs0
    rw [Bool.eq_false_iff.mpr hhit.2] at hstep
    obtain ⟨init, last, e, hcommitted, heog, hbound, hops, hsame, hacc⟩ :=
      specHit_refines hbatch hkv₁ hper₁ hchains₁ hready hfaults h
    have hlen : res.committed.length = (init.length + 1) + 1 := by
      rw [hcommitted]
      simp
    refine ⟨by omega, by rw [List.length_cons]; omega, ⟨s0 :: init, last, e, hcommitted, heog, ?_,
      hsame⟩, hacc⟩
    rw [hlen, decodeOps, Nif.on_bind_ok hstep]
    show (decodeOps p q s (init.length + 1) >>= fun rest => pure ((s0, false) :: rest)).on d = _
    rw [Nif.on_bind_ok hops]
    rfl

/-! ### A small model -/

/-- A model whose logits are the tokens themselves, and whose sampler picks ten more than their
    number and counts its samples. -/
def countingParams : Params (List Token) Nat where
  logits := id
  sample st row := (some (10 + row.length), st + 1)
  newChain _ := ⟨0, 0⟩
  topLogprobs _ _ _ := none
  argmax row := row.length
  embedding _ := none
  isEog tok := tok == 20
  nVocab := 100
  nCtx := 64
  nBatch := 8
  unpack _ := .error []
  pack _ := []
  removes _ _ := true
  oneStream := false
  doubled tok _ := tok
  mtmd _ _ _ := .error .notSupported

/-- Its context once the token 5 was prefilled in sequence 0. -/
def prefilledCtx : Ctx Nat where
  kv q := if q = 0 then [5] else []
  rows := [some ⟨0, [5]⟩]
  perSeq q := if q = 0 then ⟨0, 1⟩ else ⟨noLogitsIdx, 0⟩
  decodeReady := true
  chains r := if r = 0 then some ⟨0, 0⟩ else none
  nextSampler := 1
  faults := []
  sampled := []

/-- A draft with two right tokens and a wrong one: the correction is the third decode op. -/
theorem specStep_eq_decodeOps_draft :
    ((specStep countingParams 0 0 [11, 12, 99]).on prefilledCtx).1.toOption =
        some ⟨[11, 12, 13], false, 2⟩ ∧
      Refines countingParams 0 0 [11, 12, 99] prefilledCtx.faultless
        ((specStep countingParams 0 0 [11, 12, 99]).on prefilledCtx).2 ⟨[11, 12, 13], false, 2⟩ :=
  ⟨rfl, specStep_eq_decodeOps countingParams 0 0 [11, 12, 99] (Prod.ext rfl rfl)⟩

end Erllama.Native
