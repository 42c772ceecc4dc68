import Erllama.Model.MapBackend

namespace Erllama.Model

/-!
# What a warm admission adopts

* `lookupOrResume_namespace_iff` — the restored row is of the request's namespace iff the
  adopted parent, if any, is of it.
* `lookupOrResume_resumesText` — the restored tokens render to a prefix of the prompt's text,
  and the suffix is the prompt's own tail, or the rest of the text tokenised again.
-/

variable {σ γ Sid : Type} {env : Env σ γ} {row : CacheKey → RowKey} {d : Data σ γ Sid}
  {r : Req Sid} {tokens : List Token}

/-- An adopted parent is the row that the lookup restored last. -/
theorem adoptedParent_restored {parentKey : Option CacheKey} {key : CacheKey}
    (h : adoptedParent env d r tokens parentKey = some key) :
    ∃ w s, lookupOrResume env d r tokens parentKey = (some w, s) ∧
      s.restored.getLast? = some (r.seqId, key) := by
  unfold adoptedParent at h
  dsimp only at h
  -- The exact row missed, and the caller named a parent.
  cases hexact : pinAndLoad env d.sys r.seqId
      (makeKeyBytes env d (env.be.detokenize tokens) r) with
  | mk loaded s =>
    rw [hexact] at h
    cases loaded with
    | some ts => exact nomatch h
    | none =>
      cases parentKey with
      | none => exact nomatch h
      | some parent =>
        dsimp only at h
        -- It was published in time, and loaded.
        cases hfound : env.cache.lookupExactOrWait s.world parent
            env.cfg.policy.sessionResumeWaitMs with
        | mk found world =>
          rw [hfound] at h
          dsimp only at h
          cases found with
          | false => exact nomatch h
          | true =>
            rw [if_pos rfl] at h
            cases hload : pinAndLoad env { s with world := world } r.seqId parent with
            | mk answer s' =>
              have hrestored : ∀ ts, (pinAndLoad env { s with world := world } r.seqId parent).1
                  = some ts → Restored env r.seqId parent ts
                    (pinAndLoad env { s with world := world } r.seqId parent).2 :=
                fun _ => pinAndLoad_restored
              rw [hload] at h hrestored
              cases answer with
              | none => exact nomatch h
              | some ts =>
                dsimp only at h
                -- Its text is a prefix of the prompt's: the route that restores it.
                by_cases hpre : env.be.detokenize ts <+: env.be.detokenize tokens
                · rw [if_pos hpre] at h
                  cases h
                  refine ⟨⟨ts, resumeSuffix env tokens (env.be.detokenize tokens)
                    (env.be.detokenize ts).length, .partialHit⟩, s', ?_, (hrestored ts rfl).last⟩
                  unfold lookupOrResume
                  dsimp only
                  rw [hexact]
                  dsimp only
                  unfold trySessionResume
                  dsimp only [withSys_sys, withSys_withSys]
                  rw [hfound]
                  dsimp only
                  rw [if_pos rfl, hload]
                  dsimp only
                  unfold resumeSessionOrFallthrough
                  dsimp only
                  rw [if_pos hpre]
                  rfl
                · rw [if_neg hpre] at h
                  exact nomatch h

/-- **The namespace of a restored row.** Whenever an admission is warm, the row restored into
    the seq is of the request's namespace, iff the parent it adopts, if any, is of it. -/
theorem lookupOrResume_namespace_iff (hkeyed : RowsKeyed env row) (d : Data σ γ Sid)
    (r : Req Sid) (tokens : List Token) (parentKey : Option CacheKey)
    (hfree : CollisionFree env row d r tokens) :
    (∀ w s, lookupOrResume env d r tokens parentKey = (some w, s) →
        ∃ key, s.restored.getLast? = some (r.seqId, key) ∧
          (row key).fields = requestFields env d r) ↔
      ∀ key, adoptedParent env d r tokens parentKey = some key →
        (row key).fields = requestFields env d r := by
  constructor
  · intro h key hparent
    obtain ⟨w, s, hlookup, hlast⟩ := adoptedParent_restored hparent
    obtain ⟨key', hlast', hfields⟩ := h w s hlookup
    obtain ⟨-, rfl⟩ := Prod.mk.inj (Option.some.inj (hlast.symm.trans hlast'))
    exact hfields
  · intro h w s hlookup
    have hwarm : (lookupOrResume env d r tokens parentKey).1 = some w := by rw [hlookup]
    obtain ⟨key, hadopts, hrestored⟩ := lookupOrResume_adopts hwarm
    rw [hlookup] at hrestored
    refine ⟨key, hrestored.last, ?_⟩
    rcases hadopts.fields hkeyed hfree hrestored.handsOut with hown | hparent
    · exact hown
    · exact h key hparent

/-- A request for the prompt "A". -/
def promptA : Req Nat :=
  prefillOnlyReq (mapProc plainParams .empty 1).data 0 0 [65] none

/-- The row is under its key. -/
theorem oneRowCache_keyed (row : RowKey) (tokens : TokensBin) :
    RowsKeyed (mapEnv plainParams (oneRowCache row tokens) 1) fun _ => row := by
  rintro key ⟨w, holder, tier, tokensBin, w', hclaimed⟩
  exact (oneRowCache_claimed hclaimed).1

/-- The bytes compared when the cache has one row: the row's, and those of the prompt's
    prefixes. -/
def comparedList (env : Env σ γ) (row : RowKey) (d : Data σ γ Sid) (r : Req Sid)
    (tokens : List Token) : List Bytes :=
  row.preimage :: (env.be.detokenize tokens).inits.map
    (keyPreimage (requestFp d r) env.cfg.quantType env.cfg.ctxParamsHash)

/-- With one row, collisions are a question about a list. -/
theorem collisionFree_of_list {row : RowKey}
    (hinj : ∀ b ∈ comparedList env row d r tokens, ∀ b' ∈ comparedList env row d r tokens,
      env.sha256 b = env.sha256 b' → b = b') :
    CollisionFree env (fun _ => row) d r tokens := by
  have hcases : ∀ b ∈ comparedBytes env (fun _ => row) d r tokens,
      b ∈ comparedList env row d r tokens := by
    rintro b (⟨key, -, rfl⟩ | ⟨n, rfl⟩)
    · exact List.mem_cons_self
    · refine List.mem_cons_of_mem _ (List.mem_map_of_mem ?_)
      exact (List.mem_inits _ _).mpr (List.take_prefix n _)
  exact fun b hb b' hb' => hinj b (hcases b hb) b' (hcases b' hb')

/-- The text "A" under the fingerprint of another adapter set. -/
def foreignRow : RowKey := ⟨.fill 2, .f16, .fill 0, [65]⟩

/-- The cache that hands that row out, with its one token. -/
def foreignCache : MapCache := oneRowCache foreignRow ⟨[65, 0, 0, 0], by decide⟩

/-- The foreign row is under its key. -/
theorem foreignCache_keyed :
    RowsKeyed (mapEnv plainParams foreignCache 1) fun _ => foreignRow :=
  oneRowCache_keyed foreignRow _

/-- For the parent key of the foreign row neither side holds. -/
theorem lookupOrResume_namespace_iff_foreign :
    ¬ ∀ w s, lookupOrResume (mapEnv plainParams foreignCache 1)
        (mapProc plainParams foreignCache 1).data promptA [65]
        (some (shortHash foreignRow.preimage)) = (some w, s) →
      ∃ key, s.restored.getLast? = some (promptA.seqId, key) ∧
        foreignRow.fields = requestFields (mapEnv plainParams foreignCache 1)
          (mapProc plainParams foreignCache 1).data promptA := by
  have hiff := lookupOrResume_namespace_iff foreignCache_keyed
    (mapProc plainParams foreignCache 1).data promptA [65]
    (some (shortHash foreignRow.preimage))
    (collisionFree_of_list (by decide))
  have hparent : adoptedParent (mapEnv plainParams foreignCache 1)
      (mapProc plainParams foreignCache 1).data promptA [65]
      (some (shortHash foreignRow.preimage)) = some (shortHash foreignRow.preimage) := by
    decide
  exact hiff.not.mpr fun h => absurd (h _ hparent) (by decide)

/-- With its key as the parent key, the row of the other adapter set is restored. -/
theorem foreignParent_restored :
    RowsKeyed (mapEnv plainParams foreignCache 1) (fun _ => foreignRow) ∧
      CollisionFree (mapEnv plainParams foreignCache 1) (fun _ => foreignRow)
        (mapProc plainParams foreignCache 1).data promptA [65] ∧
      ∃ w s key, lookupOrResume (mapEnv plainParams foreignCache 1)
          (mapProc plainParams foreignCache 1).data promptA [65]
          (some (shortHash foreignRow.preimage)) = (some w, s) ∧
        s.restored.getLast? = some (promptA.seqId, key) ∧
        foreignRow.fields ≠ requestFields (mapEnv plainParams foreignCache 1)
          (mapProc plainParams foreignCache 1).data promptA := by
  refine ⟨foreignCache_keyed, collisionFree_of_list (by decide), ?_⟩
  have hparent : adoptedParent (mapEnv plainParams foreignCache 1)
      (mapProc plainParams foreignCache 1).data promptA [65]
      (some (shortHash foreignRow.preimage)) = some (shortHash foreignRow.preimage) := by
    decide
  obtain ⟨w, s, hlookup, hlast⟩ := adoptedParent_restored hparent
  exact ⟨w, s, _, hlookup, hlast, by decide⟩

/-! ### The text of a resumed prompt -/

/-- The restored tokens render to a prefix of the prompt's text.  Either the suffix is the
    prompt's own tail from where that prefix ends, or the rest of the text is tokenised again. -/
def ResumesText (env : Env σ γ) (tokens : List Token) (w : Warm) : Prop :=
  env.be.detokenize w.context <+: env.be.detokenize tokens ∧
    ((∃ k, w.suffix = tokens.drop k) ∧
        env.be.detokenize (w.context ++ w.suffix) = env.be.detokenize tokens ∨
      w.suffix = env.be.tokenize
        ((env.be.detokenize tokens).drop (env.be.detokenize w.context).length))

/-- Rendering goes token by token. -/
def Renders (env : Env σ γ) : Prop :=
  ∀ ts ts', env.be.detokenize (ts ++ ts') = env.be.detokenize ts ++ env.be.detokenize ts'

/-- The token list of a row of the request's namespace renders to the row's text. -/
def RowsRender (env : Env σ γ) (row : CacheKey → RowKey) (d : Data σ γ Sid) (r : Req Sid) : Prop :=
  ∀ w key holder tier tokensBin w',
    env.cache.checkout w key = (.claimed holder tier tokensBin, w') →
    (row key).fields = requestFields env d r →
      env.be.detokenize (tokensBin.elim [] TokensBin.decode) = (row key).text

/-- No token, no text. -/
theorem Renders.nil (h : Renders env) : env.be.detokenize [] = [] := by
  have hdouble := congrArg List.length (h [] [])
  rw [List.append_nil, List.length_append] at hdouble
  exact List.length_eq_zero_iff.mp (by omega)

/-- The size of a prefix is that of its text. -/
theorem Renders.prefixByteSize (h : Renders env) (ts : List Token) (k : Nat) :
    prefixByteSize env ts k = (env.be.detokenize (ts.take k)).length := by
  unfold Model.prefixByteSize
  split
  case isTrue hzero => rw [hzero, List.take_zero, h.nil, List.length_nil]
  case isFalse => rfl

/-- What the binary search finds is a token boundary at the target. -/
theorem splitTokensAtByteFrom_some {ts suffix : List Token} {target lo hi : Nat}
    (h : splitTokensAtByteFrom env ts target lo hi = some suffix) :
    ∃ k, suffix = ts.drop k ∧ prefixByteSize env ts k = target := by
  fun_induction splitTokensAtByteFrom env ts target lo hi with
  | case1 lo hi hlt mid size heq => exact ⟨mid, (Option.some.inj h).symm, heq⟩
  | case2 lo hi hlt mid size hne hless ih => exact ih h
  | case3 lo hi hlt mid size hne hless ih => exact ih h
  | case4 => exact nomatch h

/-- The suffix after a context that renders to a prefix of the prompt's text. -/
theorem resumesText_of_prefix (hrenders : Renders env) {context : List Token} {n : Nat}
    {kind : HitKind} (hpre : env.be.detokenize context <+: env.be.detokenize tokens)
    (hn : (env.be.detokenize context).length = min n (env.be.detokenize tokens).length) :
    ResumesText env tokens
      ⟨context, resumeSuffix env tokens (env.be.detokenize tokens) n, kind⟩ := by
  refine ⟨hpre, ?_⟩
  obtain ⟨rest, hrest⟩ := hpre
  have hlen := congrArg List.length hrest
  rw [List.length_append] at hlen
  unfold resumeSuffix
  dsimp only
  split
  case isTrue hnone =>
    -- The row covers the whole prompt.
    have hempty : rest = [] := List.length_eq_zero_iff.mp (by omega)
    refine .inl ⟨⟨tokens.length, List.drop_length.symm⟩, ?_⟩
    rw [List.append_nil, ← hrest, hempty, List.append_nil]
  case isFalse hsome =>
    cases hsplit : splitTokensAtByte env tokens n with
    | none =>
      right
      show env.be.tokenize ((env.be.detokenize tokens).drop n) = _
      rw [show (env.be.detokenize context).length = n by omega]
    | some suffix =>
      left
      obtain ⟨k, rfl, hsize⟩ := splitTokensAtByteFrom_some hsplit
      rw [hrenders.prefixByteSize] at hsize
      have hwhole := hrenders (tokens.take k) (tokens.drop k)
      rw [List.take_append_drop] at hwhole
      -- Both the context and the first `k` tokens render to the prefix of that length.
      have hsame : env.be.detokenize context = env.be.detokenize (tokens.take k) := by
        have happend := hrest.trans hwhole
        exact (List.append_inj happend (by omega)).1
      refine ⟨⟨k, rfl⟩, ?_⟩
      show env.be.detokenize (context ++ tokens.drop k) = _
      rw [hrenders, hsame, ← hwhole]

/-- **The text of a warm admission** is the text of the prompt, whatever its control tokens. -/
theorem lookupOrResume_resumesText (hkeyed : RowsKeyed env row) (hrenders : Renders env)
    (hfree : CollisionFree env row d r tokens) (hrows : RowsRender env row d r)
    (parentKey : Option CacheKey) {w : Warm} {s : Sys σ γ Sid}
    (h : lookupOrResume env d r tokens parentKey = (some w, s)) : ResumesText env tokens w := by
  have hwarm : (lookupOrResume env d r tokens parentKey).1 = some w := by rw [h]
  obtain ⟨key, hadopts, hrestored⟩ := lookupOrResume_adopts hwarm
  have hout := hrestored.handsOut
  obtain ⟨w₀, holder, tier, tokensBin, w₁, bin, x, u, hclaimed, -, hcontext, -⟩ := hrestored.row
  -- A row under a key of the request's own renders to the prefix that was hashed.
  have hown : ∀ n, key = makeKeyBytes env d ((env.be.detokenize tokens).take n) r →
      env.be.detokenize w.context = (env.be.detokenize tokens).take n := by
    rintro n rfl
    obtain ⟨hfields, htext⟩ := hkeyed.own_key hfree hout
    rw [hcontext, hrows w₀ _ holder tier tokensBin w₁ hclaimed hfields, htext]
  cases hadopts with
  | exact ts =>
    have hall := hown (env.be.detokenize tokens).length (by rw [List.take_length])
    rw [List.take_length] at hall
    refine ⟨hall ▸ List.prefix_refl _, .inl ⟨⟨tokens.length, List.drop_length.symm⟩, ?_⟩⟩
    show env.be.detokenize (ts ++ []) = _
    rw [List.append_nil]
    exact hall
  | parent ts hparent hpre =>
    refine resumesText_of_prefix hrenders hpre ?_
    exact (Nat.min_eq_left hpre.length_le).symm
  | longest n ts =>
    have htake : env.be.detokenize ts = (env.be.detokenize tokens).take n := hown n rfl
    refine resumesText_of_prefix hrenders ?_ ?_
    · rw [htake]
      exact List.take_prefix n _
    · rw [htake, List.length_take]

/-- The row that a request with the prompt `[300, 65]` saved: a control token, then "A". -/
def markedRow : RowKey := ⟨.fill 1, .f16, .fill 0, mapDetokenize [300, 65]⟩

/-- The cache that hands that row out. -/
def markedCache : MapCache := oneRowCache markedRow ⟨[44, 1, 0, 0, 65, 0, 0, 0], by decide⟩

/-- The marked row is under its key. -/
theorem markedCache_keyed :
    RowsKeyed (mapEnv plainParams markedCache 1) fun _ => markedRow :=
  oneRowCache_keyed markedRow _

/-- What the cache hands out is that row. -/
theorem markedCache_rowsRender :
    RowsRender (mapEnv plainParams markedCache 1) (fun _ => markedRow)
      (mapProc plainParams markedCache 1).data promptA := by
  intro w key holder tier tokensBin w' hclaimed _
  obtain ⟨-, rfl⟩ := oneRowCache_claimed hclaimed
  rfl

/-- The text of the map backend is token by token. -/
theorem mapEnv_renders (p : MapParams) (c : MapCache) (n : Nat) : Renders (mapEnv p c n) := by
  intro ts ts'
  show mapDetokenize (ts ++ ts') = mapDetokenize ts ++ mapDetokenize ts'
  unfold mapDetokenize
  rw [List.filter_append, List.map_append]

end Erllama.Model
