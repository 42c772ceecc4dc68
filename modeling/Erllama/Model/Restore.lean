import Erllama.Model.Context

namespace Erllama.Model

/-!
# Restored rows

A warm admission adopts one row of the cache.  This file says which, by which of the three
routes, and that the row's payload is what the last restore put into the seq.

* `Restored` — the row that the last restore put into a seq.
* `adoptedParent` — the parent key an admission adopts, if any.
* `Adopts`, `lookupOrResume_adopts` — the row a warm lookup answers with.
-/

variable {σ γ Sid : Type}

section Restores

variable {env : Env σ γ}

/-- The last restore put the row of `key` into the seq: the cache handed the row out with these
    tokens, and its payload was unpacked. -/
structure Restored (env : Env σ γ) (q : SeqId) (key : CacheKey) (tokens : List Token)
    (s : Sys σ γ Sid) : Prop where
  row : ∃ w holder tier tokensBin w' bin x u,
    env.cache.checkout w key = (.claimed holder tier tokensBin, w') ∧
      (env.cache.load w' key tier).1 = some bin ∧ tokens = tokensBin.elim [] TokensBin.decode ∧
      env.be.kvUnpack x bin q = (.ok u, s.ctx)
  last : s.restored.getLast? = some (q, key)

/-- Pinning the row again changes the outside world alone. -/
theorem Restored.repin {q : SeqId} {key key' : CacheKey} {tokens : List Token}
    {d : Data σ γ Sid} {r : Req Sid} (h : Restored env q key tokens d.sys) (n : Nat) :
    Restored env q key tokens (maybeRepinPrefix env d r key' n) := by
  unfold maybeRepinPrefix
  split
  · split
    · exact ⟨h.row, h.last⟩
    · exact h
  · exact h

theorem pinAndLoad_restored {s : Sys σ γ Sid} {q : SeqId} {key : CacheKey} {tokens : List Token}
    (h : (pinAndLoad env s q key).1 = some tokens) :
    Restored env q key tokens (pinAndLoad env s q key).2 := by
  unfold pinAndLoad at h ⊢
  cases hout : env.cache.checkout s.world key with
  | mk answer world =>
    rw [hout] at h
    cases answer with
    | claimed holder tier tokensBin =>
      dsimp only at h ⊢
      cases hload : (loadPayload env { s with world := world } tier key).1 with
      | none =>
        rw [hload] at h
        exact nomatch h
      | some bin =>
        rw [hload] at h
        dsimp only at h ⊢
        have hbin : (env.cache.load world key tier).1 = some bin :=
          (Option.filter_eq_some_iff.mp hload).1
        unfold unpackRow at h ⊢
        cases hunpack : env.be.kvUnpack (loadPayload env { s with world := world } tier key).2.ctx
            bin q with
        | mk answer ctx =>
          rw [hunpack] at h
          cases answer with
          | error e => exact nomatch h
          | ok u =>
            cases h
            exact ⟨⟨s.world, holder, tier, tokensBin, world, bin, _, u, hout, hbin, rfl, hunpack⟩,
              List.getLast?_concat⟩
    | busy => exact nomatch h
    | miss => exact nomatch h

variable (env) in
/-- The parent key that an admission adopts: the exact key misses, the parent row is published
    and restored, and its rendered bytes are a prefix of the prompt's. -/
def adoptedParent (d : Data σ γ Sid) (r : Req Sid) (promptTokens : List Token)
    (parentKey : Option CacheKey) : Option CacheKey :=
  let promptBytes := env.be.detokenize promptTokens
  let loaded := pinAndLoad env d.sys r.seqId (makeKeyBytes env d promptBytes r)
  match loaded.1, parentKey with
  | none, some key =>
    let found := env.cache.lookupExactOrWait loaded.2.world key env.cfg.policy.sessionResumeWaitMs
    if found.1 then
      match (pinAndLoad env { loaded.2 with world := found.2 } r.seqId key).1 with
      | some parentTokens =>
        if env.be.detokenize parentTokens <+: promptBytes then some key else none
      | none => none
    else none
  | _, _ => none

variable (env) in
/-- What a warm admission adopts: the exact row, the parent row, or the row of a prefix. -/
inductive Adopts (d : Data σ γ Sid) (r : Req Sid) (tokens : List Token)
    (parentKey : Option CacheKey) : CacheKey → Warm → Prop
  | exact (ts : List Token) :
    Adopts d r tokens parentKey (makeKeyBytes env d (env.be.detokenize tokens) r) ⟨ts, [], .exact⟩
  | parent {key} (ts : List Token) (h : adoptedParent env d r tokens parentKey = some key)
      (hpre : env.be.detokenize ts <+: env.be.detokenize tokens) :
    Adopts d r tokens parentKey key
      ⟨ts, resumeSuffix env tokens (env.be.detokenize tokens) (env.be.detokenize ts).length,
        .partialHit⟩
  | longest (n : Nat) (ts : List Token) :
    Adopts d r tokens parentKey (makeKeyBytes env d ((env.be.detokenize tokens).take n) r)
      ⟨ts, resumeSuffix env tokens (env.be.detokenize tokens) n, .partialHit⟩

/-- A probed prefix is one of the prompt's. -/
theorem probeTextPrefix_some {fp : Digest} {qt : QuantType} {ctxHash : Digest} {bytes : Bytes}
    {lens : List Nat} {w : γ} {n : Nat} {key : CacheKey}
    (h : (probeTextPrefix env fp qt ctxHash bytes lens w).1 = some (n, key)) :
    key = makeText env.sha256 fp qt ctxHash (bytes.take n) := by
  induction lens generalizing w with
  | nil => exact nomatch h
  | cons len lens ih =>
    unfold probeTextPrefix at h
    dsimp only at h
    split at h
    · cases h
      rfl
    · exact ih h

variable {d : Data σ γ Sid} {r : Req Sid} {w : Warm}

theorem tryLongestPrefix_adopts {tokens : List Token}
    (h : (tryLongestPrefix env d r tokens (env.be.detokenize tokens)).1 = some w) :
    ∃ n ts, w = ⟨ts, resumeSuffix env tokens (env.be.detokenize tokens) n, .partialHit⟩ ∧
      Restored env r.seqId (makeKeyBytes env d ((env.be.detokenize tokens).take n) r) ts
        (tryLongestPrefix env d r tokens (env.be.detokenize tokens)).2 := by
  unfold tryLongestPrefix at h ⊢
  dsimp only at h ⊢
  cases hfound : (lookupLongestTextPrefix env d.sys.world (requestFp d r) env.cfg.quantType
      env.cfg.ctxParamsHash (env.be.detokenize tokens)).1 with
  | none =>
    rw [hfound] at h
    exact nomatch h
  | some found =>
    obtain ⟨n, key⟩ := found
    have hkey : key = makeKeyBytes env d ((env.be.detokenize tokens).take n) r :=
      probeTextPrefix_some hfound
    rw [hfound] at h
    dsimp only at h ⊢
    unfold resumeAtPrefix at h ⊢
    dsimp only at h ⊢
    split at h
    case h_1 ts hload =>
      cases h
      refine ⟨n, ts, rfl, ?_⟩
      rw [← hkey]
      exact Restored.repin (d := withSys d _) (pinAndLoad_restored hload) n
    case h_2 => exact nomatch h

/-- A resume from the parent key adopts its row or that of a prefix. -/
theorem trySessionResume_adopts {s : Sys σ γ Sid} {tokens : List Token} {key : CacheKey}
    (hexact : pinAndLoad env d.sys r.seqId
      (makeKeyBytes env d (env.be.detokenize tokens) r) = (none, s))
    (h : (trySessionResume env (withSys d s) r tokens (env.be.detokenize tokens) key).1 = some w) :
    ∃ key', Adopts env d r tokens (some key) key' w ∧ Restored env r.seqId key' w.context
      (trySessionResume env (withSys d s) r tokens (env.be.detokenize tokens) key).2 := by
  have hfall : ∀ s, (tryLongestPrefix env (withSys d s) r tokens (env.be.detokenize tokens)).1
        = some w →
      ∃ key', Adopts env d r tokens (some key) key' w ∧ Restored env r.seqId key' w.context
        (tryLongestPrefix env (withSys d s) r tokens (env.be.detokenize tokens)).2 := by
    intro s hs
    obtain ⟨n, ts, rfl, hrestored⟩ := tryLongestPrefix_adopts hs
    exact ⟨_, .longest n ts, hrestored⟩
  unfold trySessionResume at h ⊢
  dsimp only [withSys_sys, withSys_withSys] at h ⊢
  cases hfound : env.cache.lookupExactOrWait s.world key env.cfg.policy.sessionResumeWaitMs with
  | mk found world =>
    rw [hfound] at h
    dsimp only at h ⊢
    cases found with
    | false => exact hfall _ h
    | true =>
      rw [if_pos rfl] at h ⊢
      cases hload : pinAndLoad env { s with world := world } r.seqId key with
      | mk loaded s' =>
        have hrestored : ∀ ts, (pinAndLoad env { s with world := world } r.seqId key).1 = some ts →
            Restored env r.seqId key ts (pinAndLoad env { s with world := world } r.seqId key).2 :=
          fun _ => pinAndLoad_restored
        rw [hload] at h hrestored
        cases loaded with
        | none => exact hfall _ h
        | some ts =>
          dsimp only at h ⊢
          unfold resumeSessionOrFallthrough at h ⊢
          dsimp only at h ⊢
          by_cases hpre : env.be.detokenize ts <+: env.be.detokenize tokens
          · rw [if_pos hpre] at h ⊢
            cases h
            refine ⟨key, .parent ts ?_ hpre, hrestored ts rfl⟩
            unfold adoptedParent
            dsimp only
            rw [hexact]
            dsimp only
            rw [hfound]
            dsimp only
            rw [if_pos rfl, hload]
            dsimp only
            rw [if_pos hpre]
          · rw [if_neg hpre] at h ⊢
            exact hfall _ h

/-- **A warm lookup adopts a row**: the seq holds the cells of the row whose tokens it answers
    with, by one of the three routes. -/
theorem lookupOrResume_adopts {tokens : List Token} {parentKey : Option CacheKey}
    (h : (lookupOrResume env d r tokens parentKey).1 = some w) :
    ∃ key, Adopts env d r tokens parentKey key w ∧
      Restored env r.seqId key w.context (lookupOrResume env d r tokens parentKey).2 := by
  unfold lookupOrResume at h ⊢
  dsimp only at h ⊢
  cases hexact : pinAndLoad env d.sys r.seqId
      (makeKeyBytes env d (env.be.detokenize tokens) r) with
  | mk loaded s =>
    have hrestored : ∀ ts, (pinAndLoad env d.sys r.seqId
          (makeKeyBytes env d (env.be.detokenize tokens) r)).1 = some ts →
        Restored env r.seqId _ ts (pinAndLoad env d.sys r.seqId
          (makeKeyBytes env d (env.be.detokenize tokens) r)).2 := fun _ => pinAndLoad_restored
    rw [hexact] at h hrestored
    cases loaded with
    | some ts =>
      cases h
      exact ⟨_, .exact ts, hrestored ts rfl⟩
    | none =>
      cases parentKey with
      | some key => exact trySessionResume_adopts hexact h
      | none =>
        obtain ⟨n, ts, rfl, hrestored⟩ := tryLongestPrefix_adopts h
        exact ⟨_, .longest n ts, hrestored⟩

end Restores

end Erllama.Model
