import Erllama.Model.Tokens
import Erllama.Model.Namespaces

namespace Erllama.Model

/-!
# A backend over a map

A backend whose context is a map from seqs to lists of cells, each a token and the adapters it
was decoded under, and a cache client that hands out a fixed set of rows.  They satisfy the
laws that the results about runs assume, and small runs of the process over them evaluate.

* `MapParams`, `mapBackend` — the backend, up to what it samples, commits and refuses.
* `MapCache`, `mapCache` — the rows of the cache.
* `mapModel`, `mapTokenModel` — the laws.
-/

/-- A cell: its token and the adapters installed when it was decoded. -/
abbrev Cell := Token × List (Digest × ℚ)

/-- The context: the cells of each seq, the installed adapters, and the loaded ones. -/
structure MapCtx where
  kv : SeqId → List Cell
  installed : List (Digest × ℚ)
  loaded : List (Ref × Digest)
  nextHandle : Ref

/-- An empty context. -/
def MapCtx.empty : MapCtx := ⟨fun _ => [], [], [], 0⟩

/-- What the backend decides: what it samples after the tokens of a seq, what it drafts and
    commits, what a payload holds, the hash of an adapter file, whether partial removals
    succeed, whether all seqs share one KV, and which step fails. -/
structure MapParams where
  sample : List Token → StepResult
  draft : List Token
  commit : SpecResult
  payload : Bytes → List Cell
  sha256 : Bytes → Digest
  trims : Bool
  oneKv : Bool
  failsAt : List Token

/-- The tokens that a sampled result appends. -/
def sampledTokens : StepResult → List Token
  | .token tok _ _     => [tok]
  | .thinkingToken tok => [tok]
  | .thinkingEnd       => [0]
  | .prefilled         => []

/-- Replace the cells of a seq. -/
def MapCtx.set (x : MapCtx) (q : SeqId) (cells : List Cell) : MapCtx :=
  { x with kv := Function.update x.kv q cells }

/-- The tokens of a seq. -/
def MapCtx.tokens (x : MapCtx) (q : SeqId) : List Token := (x.kv q).map Prod.fst

/-- Tokens decoded now carry the installed adapters. -/
def MapCtx.tag (x : MapCtx) (tokens : List Token) : List Cell :=
  tokens.map fun tok => (tok, x.installed)

section

variable (p : MapParams)

/-- The result of a row. -/
def rowResult (x : MapCtx) (q : SeqId) : Op → StepResult
  | .prefill _ => .prefilled
  | .decode _  => p.sample (x.tokens q)

/-- The tokens that a row appends. -/
def rowTokens (x : MapCtx) (q : SeqId) : Op → List Token
  | .prefill slice => slice
  | .decode _      => sampledTokens (p.sample (x.tokens q))

/-- The context after a step. -/
def stepCtx (x : MapCtx) (ops : List (SeqId × Op)) : MapCtx :=
  { x with kv := fun q => x.kv q ++ x.tag (((ops.lookup q).map (rowTokens p x q)).getD []) }

/-- A step; it times out when some row is on the failing tokens. -/
def mapStep (x : MapCtx) (ops : List (SeqId × Op)) :
    Except Reason (List (SeqId × StepResult)) × MapCtx :=
  if ops.any fun op => x.tokens op.1 = p.failsAt then (.error .decodeTimeout, x)
  else (.ok (ops.map fun op => (op.1, rowResult p x op.1 op.2)), stepCtx p x ops)

/-- Text tokens are bytes; higher tokens are control tokens and render as nothing. -/
def mapDetokenize (tokens : List Token) : Bytes :=
  (tokens.filter (· < 256)).map UInt8.ofNat

/-- The speculation callbacks. -/
def mapSpec : SpecCallbacks MapCtx where
  supported _ := true
  new x _ _ := (.ok 0, x)
  begin x _ _ _ := (.ok (), x)
  draft x _ _ _ _ := (.ok p.draft, x)
  accept x _ _ _ := x
  free x _ := x
  step x _ q _ := (.ok p.commit, x.set q (x.kv q ++ x.tag p.commit.committed))

/-- The backend. -/
def mapBackend : Backend MapCtx where
  tokenize bytes := bytes.map UInt8.toNat
  detokenize := mapDetokenize
  kvPack _ _ _ := [1]
  kvUnpack x bin q := (.ok (), x.set q (p.payload bin))
  seqRm := some fun x q => x.set q []
  seqClear := none
  seqRmLast := some fun x q n =>
    if p.trims then (.ok (), x.set q ((x.kv q).take (n - 1))) else (.error .notSupported, x)
  seqRmLastSeq0 := none
  seqCp := some fun x src dst =>
    (.ok (), x.set dst (x.kv src ++ if p.oneKv then x.kv dst else []))
  step := mapStep p
  samplerNew := some fun x _ => (.ok 0, x)
  samplerFree := none
  thinkingSignature := none
  spec := some (mapSpec p)
  media := some
    { caps := fun _ => some ⟨true, true⟩
      prefill := fun x _ _ _ _ => (.ok (1, 1), x) }
  verify := some fun x pre _ _ => (.ok (0, none), x.set 0 (x.kv 0 ++ x.tag pre))
  embed := none
  loadAdapter := some fun x _ content =>
    (.ok x.nextHandle,
      { x with
        loaded := (x.nextHandle, p.sha256 content) :: x.loaded
        nextHandle := x.nextHandle + 1 })
  unloadAdapter := some fun x _ => (.ok (), x)
  applyAdapters := some fun x pairs =>
    (.ok (), { x with
      installed := (pairs.filter fun a => a.2 ≠ 0).filterMap fun a =>
        (x.loaded.lookup a.1).map fun sha => (sha, a.2) })
  resetContext := some fun x => (.ok (), { x with kv := fun _ => [], installed := [] })

/-! ### The laws -/

/-- Looking up the row of a seq, when rows are on different seqs. -/
theorem lookup_of_mem {ops : List (SeqId × Op)} (hnodup : (ops.map Prod.fst).Nodup) {q : SeqId}
    {op : Op} (h : (q, op) ∈ ops) : ops.lookup q = some op := by
  induction ops with
  | nil => exact nomatch h
  | cons head ops ih =>
    rw [List.map_cons, List.nodup_cons] at hnodup
    rcases List.mem_cons.mp h with rfl | htail
    · exact List.lookup_cons_self
    · have hne : q ≠ head.1 := by
        intro heq
        exact hnodup.1 (heq ▸ List.mem_map_of_mem (f := Prod.fst) htail)
      rw [List.lookup_cons, beq_false_of_ne hne]
      exact ih hnodup.2 htail

/-- A seq without a row has no op. -/
theorem lookup_of_not_mem {ops : List (SeqId × Op)} {q : SeqId} (h : q ∉ ops.map Prod.fst) :
    ops.lookup q = none := by
  induction ops with
  | nil => rfl
  | cons head ops ih =>
    rw [List.map_cons, List.mem_cons, not_or] at h
    rw [List.lookup_cons, beq_false_of_ne h.1]
    exact ih h.2

/-- What a seq is set to, and the others. -/
theorem MapCtx.set_kv (x : MapCtx) (q : SeqId) (cells : List Cell) {κ : Type} (f : Cell → κ) :
    (fun q' => ((x.set q cells).kv q').map f)
      = Function.update (fun q' => (x.kv q').map f) q (cells.map f) := by
  funext q'
  unfold MapCtx.set
  dsimp only
  rw [Function.update_apply, Function.update_apply]
  split <;> rfl

/-- The kv of the map backend, seen through a function of its cells. -/
def mapModel {κ : Type} (f : Cell → κ) : KvModel (mapBackend p) κ where
  cells x q := (x.kv q).map f
  payload bin := (p.payload bin).map f
  kept x _ dst := if p.oneKv then (x.kv dst).map f else []
  kept_sublist x _ dst := by
    split
    · exact .refl _
    · exact List.nil_sublist _
  silent := by
    intro x y h
    induction h with
    | refl x => rfl
    | samplerNew h x cfg => cases h; rfl
    | samplerFree h x ref => exact nomatch h
    | specNew h x cfg n => cases h; rfl
    | specBegin h x ref q ts => cases h; rfl
    | specDraft h x ref q t ts => cases h; rfl
    | specAccept h x ref q n => cases h; rfl
    | specFree h x ref => cases h; rfl
    | trans _ _ ih ih' => exact ih'.trans ih
  seqRm := ⟨_, rfl, fun x q => x.set_kv q [] f⟩
  seqRmLast := by
    refine ⟨_, rfl, fun x q n => ?_⟩
    cases p.trims with
    | true =>
      refine ⟨fun _ _ => ?_, fun _ h => nomatch h⟩
      exact (x.set_kv q ((x.kv q).take (n - 1)) f).trans (by rw [List.map_take])
    | false => exact ⟨fun _ h => (nomatch h), fun _ _ => rfl⟩
  kvUnpack := fun x bin q _ _ => x.set_kv q (p.payload bin) f
  kvUnpack_other := fun x bin q q' hne =>
    (congrFun (x.set_kv q (p.payload bin) f) q').trans (Function.update_of_ne hne _ _)
  seqCp := by
    rintro _ ⟨⟩ x src dst u _
    have hset := (congrFun (x.set_kv dst (x.kv src ++ if p.oneKv then x.kv dst else []) f)
      dst).trans (Function.update_self ..)
    rw [List.map_append] at hset
    have hkept : (if p.oneKv then x.kv dst else []).map f
        = if p.oneKv then (x.kv dst).map f else [] := by
      split <;> rfl
    rw [hkept] at hset
    exact ⟨.of_eq hset, fun hnone => hset.trans (by rw [hnone, List.append_nil])⟩
  seqCp_failed := by
    rintro _ ⟨⟩ x src dst e h
    exact nomatch h
  seqCp_other := by
    rintro _ ⟨⟩ x src dst q hne
    exact (congrFun (x.set_kv dst _ f) q).trans (Function.update_of_ne hne _ _)
  step_other := by
    intro x ops results h q hq
    show ((mapStep p x ops).2.kv q).map f = _
    unfold mapStep
    split
    · rfl
    · show ((stepCtx p x ops).kv q).map f = _
      unfold stepCtx MapCtx.tag
      dsimp only
      rw [lookup_of_not_mem hq, Option.map_none, Option.getD_none, List.map_nil, List.append_nil]
  specStep_other := by
    rintro _ ⟨⟩ x sampler q draft q' hne
    have hset := x.set_kv q (x.kv q ++ x.tag p.commit.committed) f
    exact (congrFun hset q').trans (Function.update_of_ne hne _ _)
  prefill_other := by
    rintro _ ⟨⟩ x prompt items q special q' hne
    rfl
  inspect_other := by
    intro x y h q hq
    cases h with
    | verify h x pre cands k =>
      cases h
      exact (congrFun (x.set_kv 0 (x.kv 0 ++ x.tag pre) f) q).trans (Function.update_of_ne hq _ _)
    | embed h => exact nomatch h
  loadAdapter := by
    rintro _ ⟨⟩ x path content
    rfl
  unloadAdapter := by
    rintro _ ⟨⟩ x handle
    rfl
  applyAdapters := by
    rintro _ ⟨⟩ x pairs
    rfl
  resetContext := by
    rintro _ ⟨⟩ x u _ q
    rfl

/-- What a row of the map backend appends is what its result says. -/
theorem rowTokens_decoded (x : MapCtx) (q : SeqId) (op : Op) :
    Decoded op (rowResult p x q op) (rowTokens p x q op) := by
  cases op with
  | prefill slice => rfl
  | decode ref =>
    unfold rowResult rowTokens
    dsimp only
    cases p.sample (x.tokens q) <;> first | rfl | trivial

/-- The tokens of the map backend. -/
def mapTokenModel : TokenModel (mapBackend p) where
  toKvModel := mapModel p Prod.fst
  step_row := by
    intro x ops results hnodup hok q op res hop hres
    show ∃ ts, Decoded op res ts ∧ ((mapStep p x ops).2.kv q).map Prod.fst = _
    have hstep : (mapStep p x ops).1 = .ok results := hok
    unfold mapStep at hstep ⊢
    split at hstep
    · exact nomatch hstep
    case isFalse hrow =>
      cases hstep
      rw [if_neg hrow]
      obtain ⟨⟨q', op'⟩, hop', heq⟩ := List.mem_map.mp hres
      obtain ⟨rfl, rfl⟩ := Prod.mk.inj heq
      have hsame : op' = op :=
        Option.some.inj ((lookup_of_mem hnodup hop').symm.trans (lookup_of_mem hnodup hop))
      subst hsame
      refine ⟨rowTokens p x q' op', rowTokens_decoded p x q' op', ?_⟩
      show ((stepCtx p x ops).kv q').map Prod.fst = (x.kv q').map Prod.fst ++ _
      unfold stepCtx MapCtx.tag
      dsimp only
      rw [lookup_of_mem hnodup hop, Option.map_some, Option.getD_some, List.map_append,
        List.map_map]
      exact congrArg _ (List.map_id _)
  specStep_row := by
    rintro _ ⟨⟩ x sampler q draft res h
    cases h
    have hset := x.set_kv q (x.kv q ++ x.tag p.commit.committed) Prod.fst
    show ((x.set q (x.kv q ++ x.tag p.commit.committed)).kv q).map Prod.fst = _
    rw [congrFun hset q, Function.update_self, List.map_append]
    unfold MapCtx.tag
    rw [List.map_map]
    exact congrArg _ (List.map_id _)

end

/-! ### The cache -/

/-- A fixed set of rows, all with the payload `[1]`, and the lengths of their texts. -/
structure MapCache where
  row : CacheKey → Option TokensBin
  lengths : List Nat := []

/-- The cache client: it hands its rows out at any time, and saves go elsewhere. -/
def mapCache (c : MapCache) : CacheClient Unit where
  checkout w key :=
    match c.row key with
    | some tokens => (.claimed 0 .disk (some tokens), w)
    | none        => (.miss, w)
  checkin w _ := w
  lookupExactOrWait w key _ := ((c.row key).isSome, w)
  availableTextLengths w maxLen := (c.lengths.filter (· ≤ maxLen), w)
  lookupExact w key := ((c.row key).isSome, w)
  ramLoad w _ := (none, w)
  diskLoad w _ := (some [1], w)
  save w _ _ _ := (.saved, w)
  pinRow w _ _ := w
  setLiveKey w _ := w
  monotonicTime w := (0, w)

/-- No rows at all. -/
def MapCache.empty : MapCache where
  row _ := none

/-- What the cache hands out is one of its rows. -/
theorem mapCache_claimed {c : MapCache} {w w' : Unit} {key : CacheKey} {holder : Ref}
    {tier : Tier} {tokensBin : Option TokensBin}
    (h : (mapCache c).checkout w key = (.claimed holder tier tokensBin, w')) :
    ∃ tokens, c.row key = some tokens ∧ tokensBin = some tokens := by
  unfold mapCache at h
  dsimp only at h
  split at h
  case h_1 tokens heq =>
    cases h
    exact ⟨tokens, heq, rfl⟩
  case h_2 => exact nomatch (Prod.mk.inj h).1

/-! ### Small processes -/

/-- A hash for small inputs: the first byte, the bytes after the namespace fields, and an end
    mark, cut or padded to 32 bytes. -/
def shortHash (bytes : Bytes) : Digest :=
  ⟨(bytes.take 1 ++ bytes.drop 65 ++ 1 :: List.replicate 32 0).take 32, by
    rw [List.length_take, List.length_append, List.length_cons, List.length_replicate]
    omega⟩

/-- A cache with one row. -/
def oneRowCache (row : RowKey) (tokens : TokensBin) : MapCache where
  row key := if key = shortHash row.preimage then some tokens else none
  lengths := [row.text.length]

/-- The one row is claimed with its tokens. -/
theorem oneRowCache_claimed {row : RowKey} {tokens : TokensBin} {w w' : Unit} {key : CacheKey}
    {holder : Ref} {tier : Tier} {tokensBin : Option TokensBin}
    (h : (mapCache (oneRowCache row tokens)).checkout w key
      = (.claimed holder tier tokensBin, w')) :
    key = shortHash row.preimage ∧ tokensBin = some tokens := by
  obtain ⟨tokens', hrow, rfl⟩ := mapCache_claimed h
  unfold oneRowCache at hrow
  dsimp only at hrow
  split at hrow
  case isTrue hkey => exact ⟨hkey, hrow.symm⟩
  case isFalse => exact nomatch hrow

/-- A policy that saves early: from one token on, and again after every two. -/
def eagerPolicy : Policy where
  minTokens := 1
  coldMinTokens := 8
  coldMaxTokens := 64
  continuedInterval := 2
  boundaryTrimTokens := 0
  boundaryAlignTokens := 1
  ladderInterval := 4
  maxLadderRows := 0
  sessionResumeWaitMs := 0
  prefillChunkSize := none
  align_pos := by decide
  interval_pos := by decide
  chunk_pos := fun _ h => nomatch h

/-- A model process over the map backend with `n` seqs. -/
def mapEnv (p : MapParams) (c : MapCache) (n : Nat) : Env MapCtx Unit where
  be := mapBackend p
  cache := mapCache c
  sha256 := shortHash
  cfg :=
    { tier := .disk
      fingerprint := .fill 1
      fingerprintMode := 0
      quantType := .f16
      quantBits := 16
      ctxParamsHash := .fill 0
      contextSize := 64
      policy := eagerPolicy
      recurrent := false
      hybrid := false
      nSeqMax := n
      totalBatchBudget := 16 }

/-- Parameters of a backend that samples the token 7 without end. -/
def plainParams : MapParams where
  sample _ := .token 7 false none
  draft := []
  commit := ⟨[7], false, 0⟩
  payload _ := []
  sha256 := shortHash
  trims := true
  oneKv := false
  failsAt := [0]

/-- The process of `mapEnv` after its start. -/
def mapProc (p : MapParams) (c : MapCache) (n : Nat) : Proc MapCtx Unit Nat :=
  init (mapEnv p c n) .empty ()

end Erllama.Model
