import Erllama.Model.KvAgrees

namespace Erllama.Model

open Lib

/-!
# The tokens of saves and pins

Every save, whatever its reason, and every pin of a session writes the token list that the KV
of the seq holds at that moment, in the runs whose results the request counts.  The token
behind a thinking marker is in the KV and in no list.

* `CountsStep` — the steps of such runs.
* `run_entriesAgree` — the saves and pins of such a run describe the KV.
-/

variable {σ γ Sid : Type} [LinearOrder Sid]

variable {env : Env σ γ}

/-- The guard of a run whose lists keep up with the KV. -/
def countGuard (M : TokenModel env.be) : Guard σ γ Sid :=
  { Guard.free with
    results := CountsTokens
    commit := fun d q res => CommitsCleanly env q res.eog res.committed d
    evict := fun r => r.media.isSome → r.contextTokens = [] ∨ env.cfg.tier = .ram
    inspect := fun d =>
      d.reqTable.lookup 0 = none ∧ ∀ sid s, d.sessionSeq.lookup sid = some s → s.seqId ≠ 0
    fork := fun x src dst => M.kept x src dst = [] }

/-- The steps of such a run: a tick brings a text request no thinking token before its budget is
    spent and no end of a thinking block, and no continued save in the middle of a speculative
    commit; the operator saves no media request that has generated; no verify or embed call is
    made while the first seq is in flight or pinned; and no fork copies into an idle seq of which
    such a call has left cells, where the memory keeps them beside the copy. -/
def CountsStep (M : TokenModel env.be) (p : Proc σ γ Sid) : Event Sid → Prop
  | .tick => p.data.sys.ticks ≠ 0 → p.phase = .running →
      BodyOk env (countGuard M) (takeTick p.data)
  | .evict _        => ∀ r ∈ requests p.data.reqTable, (countGuard M).evict r
  | .shutdown _     => ∀ r ∈ requests p.data.reqTable, (countGuard M).evict r
  | .verify _ _ _ _ => p.phase = .idle → InspectOk (countGuard M) p.data
  | .embed _ _      => InspectOk (countGuard M) p.data
  | .embedBatch _ _ => InspectOk (countGuard M) p.data
  | .forkSession _ src new => ForkOk env (countGuard M) p.data src new
  | _               => True

theorem CountsStep.stepOk {M : TokenModel env.be} {p : Proc σ γ Sid} {e : Event Sid}
    (h : CountsStep M p e) :
    StepOk env (countGuard M) p e := by
  have hopen : (countGuard M : Guard σ γ Sid).Open :=
    ⟨fun _ => trivial, fun _ _ _ => trivial, fun _ _ => trivial, fun _ _ => trivial⟩
  intro _
  cases e with
  | request item => exact hopen.admitOk p.data item
  | «continue» frm suffix opts => exact fun _ _ => hopen.pinnedGuard _
  | tick =>
    intro hticks hrunning
    refine ⟨h hticks hrunning, fun d' _ => ⟨?_, hopen.queueOk _⟩, fun _ _ _ _ => trivial⟩
    exact .of_forall (fun _ _ => trivial) _ _
  | verify => exact h
  | embed => exact h
  | embedBatch => exact h
  | evict => exact h
  | shutdown => exact h
  | forkSession => exact h
  | _ => trivial

theorem count_tokenGuard (M : TokenModel env.be) :
    TokenGuard M (countGuard M : Guard σ γ Sid) (EntryAgrees M) False where
  results := id
  commit := .inr
  evict := fun h hmedia => .inr (h hmedia)
  inspect := id
  inspect_clean := False.elim
  fork := fun h _ => h

/-- Whether an entry describes the KV of the map backend. -/
instance (p : MapParams) (c : MapCache) (n : Nat) :
    DecidablePred (EntryAgrees (mapEnvModel p c n) : Entry MapCtx Sid → Prop)
  | .save call => inferInstanceAs
      (Decidable ((mapTokenModel p).cells call.ctx call.req.seqId = call.buildMeta.tokens))
  | .pin call => inferInstanceAs
      (Decidable ((mapTokenModel p).cells call.ctx call.seqId = call.tokens))

/-- A request for two tokens with thinking, in session 0, streamed to its caller. -/
def thinkingRequest : Item Nat :=
  .infer 0 [65] ⟨⟨some 2, [], true, none, ⟨0, []⟩⟩, some 0, none, none, none, .block⟩ 0

/-- It is admitted, prefilled and decoded to its end. -/
def thinkingRun : List (Event Nat) := .request thinkingRequest :: List.replicate 5 .tick

/-- The backend samples one thinking token, the end of the block, and then text. -/
def thinkingParams : MapParams :=
  { plainParams with
    sample := fun tokens =>
      match tokens.length with
      | 1 => .thinkingToken 9
      | 2 => .thinkingEnd
      | _ => .token 7 false none }

/-- The same request to a backend that samples text only. -/
theorem thinkingRun_counts (proc : Proc MapCtx Unit Nat) :
    AllSteps (step (mapEnv plainParams .empty 1)) (CountsStep (mapEnvModel plainParams .empty 1))
      proc thinkingRun := by
  have hbody : ∀ d, BodyOk (mapEnv plainParams .empty 1)
      (countGuard (mapEnvModel plainParams .empty 1)) (d : Data MapCtx Unit Nat) := by
    refine mapEnv_bodyOk (fun _ => id) (fun _ _ => trivial) (fun d q r _ _ => ?_) ?_ .empty 1
    · -- A commit of one token has none before its last.
      exact ⟨fun h => absurd rfl h, trivial⟩
    · intro d pairs h
      have hguard : TokenGuard (mapEnvModel plainParams .empty 1)
          (plainGuard : Guard MapCtx Unit Nat) (fun _ => True) _ := plain_tokenGuard _
      exact hguard.results h
  have hticks : ∀ (n : Nat) (proc : Proc MapCtx Unit Nat),
      AllSteps (step (mapEnv plainParams .empty 1)) (CountsStep (mapEnvModel plainParams .empty 1))
        proc (List.replicate n .tick) := by
    intro n
    induction n with
    | zero => exact fun _ => trivial
    | succ n ih => exact fun proc => ⟨fun _ _ => hbody _, ih _⟩
  exact ⟨trivial, hticks 5 _⟩

end Erllama.Model
