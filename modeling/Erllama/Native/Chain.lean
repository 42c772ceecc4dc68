import Erllama.Lib.Ownership
import Erllama.Native.Grammar

namespace Erllama.Native.Sampling

open Lib.Ownership

/-!
# Building a sampler chain (`erllama_nif_sampler.c`)

A request's sampling options become a chain of llama.cpp samplers.  The builder allocates
buffers and samplers, any of which can fail, and must then give back what it made; a grammar's
compiled template stays behind in the cache of the context.

* `Stage`, `Obj` — the samplers, and what the builder allocates.
* `ChainCfg`, `Vocab` — the options as the C code reads them, and what it asks the vocabulary.
* `appendGrammarSampler`, `appendLogitBiasSampler`, `appendDrySampler`,
  `buildSamplerChainFromMap` — the builder; `buildDefaultGreedyChain` — the fallback.
* `grammarCachePut`, `grammarCacheClear` — the templates that the cache owns.
-/

/-! ### Samplers -/

/-- The samplers that a chain is made of; a bias of `⊥` is minus infinity. -/
inductive Stage where
  | grammar (t : Template) (accepted : List Token)
  | logitBias (nVocab : Nat) (bias : List (Token × WithBot ℚ))
  | penalties (nVocab lastN : Nat) (repeatPenalty freq present : ℚ)
  | dry (multiplier base : ℚ) (allowedLength penaltyLastN : Nat) (breakers : List CString)
  | topNSigma (n : ℚ)
  | topK (k : Nat)
  | typical (p : ℚ) (minKeep : Nat)
  | topP (p : ℚ) (minKeep : Nat)
  | minP (p : ℚ) (minKeep : Nat)
  | xtc (p t : ℚ) (minKeep : Nat) (seed : UInt32)
  | infill
  | temp (t : ℚ)
  | tempExt (t delta exponent : ℚ)
  | dist (seed : UInt32)
  | greedy
  | mirostat (nVocab : Nat) (seed : UInt32) (tau eta : ℚ) (m : Nat)
  | mirostatV2 (seed : UInt32) (tau eta : ℚ)
deriving DecidableEq

/-- The samplers that pick the token. -/
def Stage.picks : Stage → Bool
  | .dist _ | .greedy | .mirostat .. | .mirostatV2 .. => true
  | _ => false

/-- What the builder allocates: memory, a sampler, a chain with the samplers that it took over,
    and the resource that a chain is handed out in. -/
inductive Obj where
  | buffer
  | stage (s : Stage)
  | chain (stages : List Stage)
  | resource
deriving DecidableEq

/-- A program over them. -/
abbrev Call := Owner Obj

/-- `enif_alloc`. -/
def enifAlloc : Call (Option Loc) := perform (.alloc .buffer)

/-- `enif_free`, and `erllama_safe_sampler_free`. -/
def free (l : Loc) : Call Unit := perform (.free l)

/-- A pointer that may be null is freed unless it is. -/
def freeOpt : Option Loc → Call Unit
  | none   => return ()
  | some l => free l

/-- `erllama_safe_sampler_init_*`. -/
def initStage (s : Stage) : Call (Option Loc) := perform (.alloc (.stage s))

/-- `erllama_safe_sampler_chain_init`. -/
def chainInit : Call (Option Loc) := perform (.alloc (.chain []))

/-- `erllama_safe_sampler_clone`. -/
def clone (l : Loc) : Call (Option Loc) := perform (.copy l id)

/-- A chain with one more sampler. -/
def Obj.add : Obj → Obj → Obj
  | .chain ss, .stage s => .chain (ss ++ [s])
  | o, _                => o

/-- `erllama_safe_sampler_chain_add`. -/
def chainAdd (chain stage : Loc) : Call Bool := perform (.absorb chain stage Obj.add)

/-- A grammar that has seen one more token. -/
def Obj.accept (t : Token) : Obj → Option Obj
  | .stage (.grammar g seen) => some (.stage (.grammar g (seen ++ [t])))
  | _                        => none

/-- `erllama_safe_sampler_accept`. -/
def samplerAccept (g : Loc) (t : Token) : Call Bool := perform (.alter g (Obj.accept t))

/-! ### Options -/

/-- The error atoms of the builder. -/
inductive ChainError where
  | badarg | oom | exception | grammarFailed | grammarPrefillFailed
deriving DecidableEq

/-- The `logit_bias` option.  An element is `none` if it is no pair of an integer and a float. -/
inductive BiasOpt where
  | absent
  | noList
  | list (pairs : List (Option (Int × ℚ)))
deriving DecidableEq

/-- What the builder asks the vocabulary of the model.  `tokenize` is with special tokens parsed
    and none added; `none` is a failure. -/
structure Vocab where
  nTokens : Nat
  eos : Option Token
  isEog : Token → Bool
  tokenize : Bytes → Option (List Token)
  tokenToPiece : Token → Bytes

/-- The sampling options; a number of another type is as absent. -/
structure ChainCfg where
  grammar : Option GrammarCfg := none
  logitBias : BiasOpt := .absent
  ignoreEos : Bool := false
  topK : Option Nat := none
  topP : Option ℚ := none
  minP : Option ℚ := none
  temperature : Option ℚ := none
  repetitionPenalty : Option ℚ := none
  frequencyPenalty : Option ℚ := none
  presencePenalty : Option ℚ := none
  penaltyLastN : Option Nat := none
  typicalP : Option ℚ := none
  topNSigma : Option ℚ := none
  xtcProbability : Option ℚ := none
  xtcThreshold : Option ℚ := none
  dynatempRange : Option ℚ := none
  dynatempExponent : Option ℚ := none
  minKeep : Option Nat := none
  dryMultiplier : Option ℚ := none
  dryBase : Option ℚ := none
  dryAllowedLength : Option Nat := none
  dryPenaltyLastN : Option Nat := none
  drySequenceBreakers : List Bytes := []
  mirostat : Option Nat := none
  mirostatTau : Option ℚ := none
  mirostatEta : Option ℚ := none
  infill : Bool := false
  /-- `none` if the value is no unsigned integer. -/
  seed : Option (Option UInt32) := none
deriving DecidableEq

namespace ChainCfg

variable (cfg : ChainCfg)

def minKeepVal : Nat := max 1 (cfg.minKeep.getD 1)

def penalised : Bool :=
  cfg.repetitionPenalty.any (· ≠ 1) || cfg.frequencyPenalty.getD 0 ≠ 0 ||
    cfg.presencePenalty.getD 0 ≠ 0

def penaltiesStage (nVocab : Nat) : Stage :=
  .penalties nVocab (cfg.penaltyLastN.getD 64) (cfg.repetitionPenalty.getD 1)
    (cfg.frequencyPenalty.getD 0) (cfg.presencePenalty.getD 0)

/-- The temperature, if it is given and positive. -/
def warm : Option ℚ := cfg.temperature.filter (0 < ·)

def seedVal : UInt32 := cfg.seed.join.getD 0

/-- `dry_sequence_breakers`, or those of upstream: a newline, a colon, a quote and a star. -/
def breakers : List CString :=
  if cfg.drySequenceBreakers = [] then [cString [10], cString [58], cString [34], cString [42]]
  else cfg.drySequenceBreakers.map cString

def dryStage : Stage :=
  .dry (cfg.dryMultiplier.getD 0) (cfg.dryBase.getD (7 / 4)) (cfg.dryAllowedLength.getD 2)
    (cfg.dryPenaltyLastN.getD 64) cfg.breakers

def xtcStage : Stage :=
  .xtc (cfg.xtcProbability.getD 0) (cfg.xtcThreshold.getD (1 / 10)) cfg.minKeepVal cfg.seedVal

def mirostatStage (nVocab mode : Nat) : Stage :=
  if mode = 1 then
    .mirostat nVocab cfg.seedVal (cfg.mirostatTau.getD 5) (cfg.mirostatEta.getD (1 / 10)) 100
  else .mirostatV2 cfg.seedVal (cfg.mirostatTau.getD 5) (cfg.mirostatEta.getD (1 / 10))

def tempStage (t : ℚ) : Stage :=
  if 0 < cfg.dynatempRange.getD 0 then
    .tempExt t (cfg.dynatempRange.getD 0) (cfg.dynatempExponent.getD 1)
  else .temp t

end ChainCfg

/-! ### The grammar cache -/

/-- What an entry of the cache owns: the template and the copy of its bytes. -/
structure Kept where
  tmpl : Loc
  copy : Loc
deriving DecidableEq

/-- The grammar cache of a context. -/
abbrev Cache := GrammarCache Kept

/-- `grammar_cache_put`. -/
def grammarCachePut (c : Cache) (bytes : Bytes) (tmpl : Loc) : Call Cache := do
  match ← enifAlloc with
  -- without room for the key the template is not kept
  | none =>
    free tmpl
    return c
  | some copy =>
    match c.gcache[findVictim 0 0 (2 ^ 64 - 1) c.gcache]? with
    | some (some e) =>
      -- the least recently used slot gives way
      free e.tmpl.tmpl
      free e.tmpl.copy
      return Native.grammarCachePut c bytes ⟨tmpl, copy⟩
    | _ => return Native.grammarCachePut c bytes ⟨tmpl, copy⟩

/-- The loop of `grammar_cache_clear`. -/
def clearEntries : List (Option (CacheEntry Kept)) → Call Unit
  | []             => return ()
  | none :: rest   => clearEntries rest
  | some e :: rest => do
    free e.tmpl.tmpl
    free e.tmpl.copy
    clearEntries rest

/-- `grammar_cache_clear`. -/
def grammarCacheClear (c : Cache) : Call Cache := do
  clearEntries c.gcache
  return { c with gcache := c.gcache.map fun _ => none }

/-! ### The stages of a chain -/

/-- `chain_append`; `none` is a sampler that was not made. -/
def chainAppend (chain : Loc) : Option Loc → Call Bool
  | none       => return false
  | some stage => do
    if ← chainAdd chain stage then return true
    else
      free stage
      return false

/-- `chain_append_or_fail`. -/
def chainAppendOrFail (chain : Loc) (stage : Option Loc) : Call (Option ChainError) := do
  if ← chainAppend chain stage then return none
  else
    free chain
    return some .oom

/-- One stage, and then the next ones unless it failed. -/
def appendStage (chain : Loc) (s : Stage) (next : Call (Option ChainError)) :
    Call (Option ChainError) := do
  match ← chainAppendOrFail chain (← initStage s) with
  | some e => return some e
  | none   => next

/-- The same for a stage that only some options ask for. -/
def appendWhen (asked : Bool) (chain : Loc) (s : Stage) (next : Call (Option ChainError)) :
    Call (Option ChainError) :=
  if asked then appendStage chain s next else next

/-- The array and the strings of `read_string_list`; an empty list has none. -/
abbrev StringList := Option (Loc × List Loc)

/-- The memory of the strings in turn. -/
def freeAll : List Loc → Call Unit
  | []        => return ()
  | l :: rest => do
    free l
    freeAll rest

/-- `free_string_list`. -/
def freeStringList : StringList → Call Unit
  | none             => return ()
  | some (arr, strs) => do
    freeAll strs
    free arr

/-- The loop of `read_string_list`, with the strings read so far. -/
def readStrings (arr : Loc) : List Bytes → List Loc → Call (Option StringList)
  | [], strs        => return some (some (arr, strs))
  | _ :: rest, strs => do
    match ← enifAlloc with
    | none   =>
      freeStringList (some (arr, strs))
      return none
    | some s => readStrings arr rest (strs ++ [s])

/-- `read_string_list`. -/
def readStringList (list : List Bytes) : Call (Option StringList) := do
  if list = [] then return some none
  else
    match ← enifAlloc with
    | none     => return none
    | some arr => readStrings arr list []

/-- `read_token_list` for the triggers, and the options that were read. -/
def readTriggers (g : GrammarCfg) : Call (Option (Option Loc × GrammarReq)) := do
  if maxTriggerTokens < g.triggerTokens.length then return none
  else if g.triggerTokens = [] then
    match readGrammar g with
    | .error _ => return none
    | .ok r    => return some (none, r)
  else
    match ← enifAlloc with
    | none      => return none
    | some toks =>
      match readGrammar g with
      | .error _ =>
        free toks
        return none
      | .ok r    => return some (some toks, r)

/-- `erllama_is_space`. -/
def isSpace (b : Option UInt8) : Bool := b = some 32 || b = some 9 || b = some 10 || b = some 13

/-- The tokens of the prefill that the grammar is to accept: a first token whose piece starts
    with a space that the text does not start with is the tokenizer's own.  A piece is read into
    64 bytes. -/
def prefillTokens (v : Vocab) (text : Bytes) : List Token → List Token
  | []        => []
  | t :: rest =>
    let piece := v.tokenToPiece t
    if piece.length ≤ 64 ∧ isSpace piece.head? ∧ ¬ isSpace text.head? then rest else t :: rest

/-- The loop of `grammar_accept_prefill`. -/
def acceptAll (g : Loc) : List Token → Call Bool
  | []        => return true
  | t :: rest => do
    if ← samplerAccept g t then acceptAll g rest else return false

/-- The part of `grammar_accept_prefill` with its buffer, which has room for `len + 16`
    tokens. -/
def acceptTokens (v : Vocab) (g : Loc) (text : Bytes) (buf : Loc) : Call Bool :=
  match v.tokenize text with
  | none => do
    free buf
    return false
  | some toks =>
    if text.length + 16 < toks.length then do
      free buf
      return false
    else do
      let done ← acceptAll g (prefillTokens v text toks)
      free buf
      return done

/-- `grammar_accept_prefill`. -/
def grammarAcceptPrefill (v : Vocab) (g : Loc) (text : Bytes) : Call Bool := do
  match ← enifAlloc with
  | none     => return false
  | some buf => acceptTokens v g text buf

/-- The template for a request: from the cache, or compiled. -/
def compileTemplate (r : GrammarReq) : Call (Except ChainError Loc) := do
  match ← enifAlloc with
  | none      => return .error .oom
  | some gstr =>
    let tmpl ← initStage (.grammar r.template [])
    free gstr
    match tmpl with
    | none      => return .error .grammarFailed
    | some tmpl => return .ok tmpl

/-- Only a grammar that is active from the start accepts the prefill. -/
def prefilled (v : Vocab) (g : Loc) (r : GrammarReq) : Call Bool :=
  if r.lazy || r.prefill.isEmpty then return true else grammarAcceptPrefill v g r.prefill

/-- What is appended is the clone. -/
def appendClone (v : Vocab) (chain : Loc) (r : GrammarReq) :
    Option Loc → Call (Option ChainError)
  | none   => return some .grammarFailed
  | some g => do
    if ← prefilled v g r then
      if ← chainAppend chain (some g) then return none else return some .oom
    else
      free g
      return some .grammarPrefillFailed

/-- The part of `append_grammar_sampler` under one key. -/
def serveGrammar (v : Vocab) (chain : Loc) (r : GrammarReq) (c : Cache) :
    Call (Option ChainError × Cache) := do
  match grammarCacheGet c r.cacheKey with
  | (some kept, c) =>
    -- a hit is cloned: the template stays in the cache
    let g ← clone kept.tmpl
    return (← appendClone v chain r g, c)
  | (none, c) =>
    match ← compileTemplate r with
    | .error e => return (some e, c)
    | .ok tmpl =>
      let g ← clone tmpl
      let c ← grammarCachePut c r.cacheKey tmpl
      return (← appendClone v chain r g, c)

/-- The key of a lazy grammar, or of one with triggers, is built in a buffer of its own. -/
def keyBuffer (r : GrammarReq) : Call (Option (Option Loc)) :=
  if r.Tagged then do
    match ← enifAlloc with
    | none     => return none
    | some buf => return some (some buf)
  else return some none

/-- `append_grammar_sampler`.  On failure the caller frees the chain. -/
def appendGrammarSampler (v : Option Vocab) (chain : Loc) (g : GrammarCfg) (c : Cache) :
    Call (Option ChainError × Cache) :=
  match v with
  | none   => return (some .exception, c)
  | some v => do
    match ← readStringList g.triggerPatterns with
    | none          => return (some .badarg, c)
    | some patterns =>
      match ← readTriggers g with
      | none =>
        freeStringList patterns
        return (some .badarg, c)
      | some (toks, r) =>
        match ← keyBuffer r with
        | none =>
          freeOpt toks
          freeStringList patterns
          return (some .oom, c)
        | some keybuf =>
          -- what was read for the grammar is freed whether or not the stage was appended
          let res ← serveGrammar v chain r c
          freeOpt keybuf
          freeOpt toks
          freeStringList patterns
          return res

/-- One element of the bias list. -/
def readBias (nVocab : Nat) : Option (Int × ℚ) → Option (Token × WithBot ℚ)
  | some (tok, bias) => if 0 ≤ tok ∧ tok < nVocab then some (tok.toNat, ↑bias) else none
  | none             => none

/-- The end-of-generation tokens, which `ignore_eos` suppresses if the model has an eos. -/
def eogTokens (v : Vocab) : List Token :=
  if v.eos.isNone then [] else (List.range v.nTokens).filter v.isEog

/-- The user's list. -/
def BiasOpt.pairs : BiasOpt → List (Option (Int × ℚ))
  | .list pairs => pairs
  | _           => []

/-- The suppressed tokens. -/
def suppressed (v : Vocab) (cfg : ChainCfg) : List Token :=
  if cfg.ignoreEos then eogTokens v else []

/-- The end of `append_logit_bias_sampler`: the array of biases, and the stage. -/
def appendBias (v : Vocab) (cfg : ChainCfg) (chain : Loc) : Call (Option ChainError) := do
  match ← enifAlloc with
  | none =>
    free chain
    return some .oom
  -- the array and the chain are both to be freed on an error
  | some arr =>
    match cfg.logitBias.pairs.mapM (readBias v.nTokens) with
    | none =>
      free arr
      free chain
      return some .badarg
    | some bias =>
      let stage ← initStage (.logitBias v.nTokens (bias ++ (suppressed v cfg).map fun t => (t, ⊥)))
      free arr
      chainAppendOrFail chain stage

/-- `append_logit_bias_sampler`.  On failure it frees the chain. -/
def appendLogitBiasSampler (v : Option Vocab) (cfg : ChainCfg) (chain : Loc) :
    Call (Option ChainError) := do
  if cfg.logitBias = .noList then
    free chain
    return some .badarg
  else if cfg.logitBias.pairs = [] ∧ ¬ cfg.ignoreEos then return none
  else
    match v with
    | none   => return none
    | some v =>
      if v.nTokens = 0 then return none
      else if cfg.logitBias.pairs.length + (suppressed v cfg).length = 0 then return none
      else appendBias v cfg chain

/-- `append_dry_sampler`.  On failure it frees the chain. -/
def appendDrySampler (v : Option Vocab) (cfg : ChainCfg) (chain : Loc) :
    Call (Option ChainError) :=
  match v with
  | none   => return none
  | some _ => do
    match ← readStringList cfg.drySequenceBreakers with
    | none =>
      free chain
      return some .badarg
    | some strs =>
      let stage ← initStage cfg.dryStage
      freeStringList strs
      chainAppendOrFail chain stage

/-- A helper that frees the chain on failure, and then the next stages. -/
def andThen (first next : Call (Option ChainError)) : Call (Option ChainError) := do
  match ← first with
  | some e => return some e
  | none   => next

/-- Mirostat overrides the whole middle of the chain. -/
def appendMirostat (nVocab : Nat) (cfg : ChainCfg) (chain : Loc) : Call (Option ChainError) :=
  appendWhen cfg.warm.isSome chain (.temp (cfg.warm.getD 0)) <|
  appendStage chain (cfg.mirostatStage nVocab (cfg.mirostat.getD 0)) <|
  return none

/-- The end of a chain without it: a draw at a positive temperature, or else the greedy pick. -/
def appendPick (cfg : ChainCfg) (chain : Loc) : Call (Option ChainError) :=
  match cfg.warm with
  | some t =>
    appendStage chain (cfg.tempStage t) <|
    appendStage chain (.dist cfg.seedVal) <|
    return none
  | none => appendStage chain .greedy <| return none

/-- The middle of a chain, and its end. -/
def appendFilters (v : Option Vocab) (cfg : ChainCfg) (chain : Loc) : Call (Option ChainError) :=
  appendWhen cfg.penalised chain (cfg.penaltiesStage ((v.map Vocab.nTokens).getD 0)) <|
  andThen (if 0 < cfg.dryMultiplier.getD 0 then appendDrySampler v cfg chain
    else return none) <|
  appendWhen (cfg.topNSigma.any (0 < ·)) chain (.topNSigma (cfg.topNSigma.getD (-1))) <|
  appendWhen (cfg.topK.any (0 < ·)) chain (.topK (cfg.topK.getD 0)) <|
  appendWhen (cfg.typicalP.any (· < 1)) chain (.typical (cfg.typicalP.getD 1) cfg.minKeepVal) <|
  appendWhen (cfg.topP.any (· < 1)) chain (.topP (cfg.topP.getD 1) cfg.minKeepVal) <|
  appendWhen (cfg.minP.any (0 < ·)) chain (.minP (cfg.minP.getD 0) cfg.minKeepVal) <|
  appendWhen (0 < cfg.xtcProbability.getD 0) chain cfg.xtcStage <|
  appendWhen (cfg.infill && v.isSome) chain .infill <|
  appendPick cfg chain

/-- What `build_sampler_chain_from_map` appends behind the grammar. -/
def appendSamplers (v : Option Vocab) (cfg : ChainCfg) (chain : Loc) : Call (Option ChainError) :=
  andThen (appendLogitBiasSampler v cfg chain) <|
  if cfg.mirostat = some 1 ∨ cfg.mirostat = some 2 then
    appendMirostat ((v.map Vocab.nTokens).getD 0) cfg chain
  else appendFilters v cfg chain

/-- The grammar stage, if there is one. -/
def appendGrammar (v : Option Vocab) (chain : Loc) (g : Option GrammarCfg) (c : Cache) :
    Call (Option ChainError × Cache) :=
  match g with
  | none   => return (none, c)
  | some g => appendGrammarSampler v chain g c

/-- `build_sampler_chain_from_map`.  The vocabulary is looked up twice: by way of the context
    for the grammar, and by way of the model for the rest. -/
def buildSamplerChainFromMap (vctx vmodel : Option Vocab) (cfg : ChainCfg) (c : Cache) :
    Call (Except ChainError Loc × Cache) := do
  -- an empty grammar is refused before anything is built
  if cfg.grammar.any (·.grammar = []) then return (.error .badarg, c)
  else if cfg.seed = some none then return (.error .badarg, c)
  else
    match ← chainInit with
    | none       => return (.error .oom, c)
    | some chain =>
      match ← appendGrammar vctx chain cfg.grammar c with
      | (some e, c) =>
        free chain
        return (.error e, c)
      | (none, c) =>
        match ← appendSamplers vmodel cfg chain with
        -- the step that failed has freed the chain
        | some e => return (.error e, c)
        | none   => return (.ok chain, c)

/-- `build_default_greedy_chain`. -/
def buildDefaultGreedyChain : Call (Option Loc) := do
  match ← chainInit with
  | none       => return none
  | some chain =>
    match ← initStage .greedy with
    | none =>
      free chain
      return none
    | some greedy =>
      if ← chainAdd chain greedy then return some chain
      else
        free greedy
        free chain
        return none

end Erllama.Native.Sampling
