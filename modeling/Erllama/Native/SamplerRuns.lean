import Erllama.Native.ChainOwns

namespace Erllama.Native.Sampling

open Lib.Ownership

/-!
# The samplers of a context

A context has a chain of its own and a cache of grammars; chains that are handed out live in
resources that keep the context.  The calls come in any order, with failures anywhere, and the
destructors run when nothing refers to their object any more.

* `Ctx` — what a context and its samplers point to.
* `Request`, `serve` — the calls, the destructors, and a run of them.
* `run_owned` — in every run what is live is what is pointed to, once each.
* `run_installs` — a chain that is installed or handed out has the samplers of its options,
  and its last one is the only one that picks a token.
-/

/-- A context with the resources that keep it: each has a chain until the chain is freed. -/
structure Ctx where
  cache : Cache := .empty
  smpl : Option Loc := none
  /-- The native context was freed. -/
  released : Bool := false
  /-- The destructor ran. -/
  gone : Bool := false
  samplers : List (Loc × Option Loc) := []

/-- The answers of the calls. -/
inductive Reply where
  | ok
  | sampler (res : Loc)
  | released
  | error (e : ChainError)
deriving DecidableEq

/-- A call, or a destructor.  A builder is given what the two lookups of the vocabulary answer. -/
inductive Request where
  | configureSampler (vctx vmodel : Option Vocab) (cfg : ChainCfg)
  | setGrammar (vctx vmodel : Option Vocab) (grammar : Bytes)
  | clearSampler
  | decodeOne
  | samplerNew (vctx vmodel : Option Vocab) (cfg : ChainCfg)
  | samplerFree (res : Loc)
  | freeContext
  | samplerGone (res : Loc)
  | ctxGone

/-- `nif_configure_sampler`. -/
def nifConfigureSampler (vctx vmodel : Option Vocab) (cfg : ChainCfg) (c : Ctx) :
    Call (Reply × Ctx) := do
  if c.released then return (.released, c)
  else
    match ← buildSamplerChainFromMap vctx vmodel cfg c.cache with
    | (.error e, cache) => return (.error e, { c with cache := cache })
    | (.ok chain, cache) =>
      freeOpt c.smpl
      return (.ok, { c with cache := cache, smpl := some chain })

/-- `nif_set_grammar`. -/
def nifSetGrammar (vctx vmodel : Option Vocab) (grammar : Bytes) (c : Ctx) : Call (Reply × Ctx) :=
  nifConfigureSampler vctx vmodel { grammar := some { grammar := grammar } } c

/-- `nif_clear_sampler`. -/
def nifClearSampler (c : Ctx) : Call (Reply × Ctx) := do
  freeOpt c.smpl
  return (.ok, { c with smpl := none })

/-- What `nif_decode_one` does about the chain: the fallback of a context that has none. -/
def lazyGreedy (c : Ctx) : Call (Reply × Ctx) := do
  if c.released then return (.released, c)
  else
    match c.smpl with
    | some _ => return (.ok, c)
    | none =>
      match ← buildDefaultGreedyChain with
      | none       => return (.error .oom, c)
      | some chain => return (.ok, { c with smpl := some chain })

/-- The rest of `nif_sampler_new`: the resource, and its mutex, which may fail as well. -/
def wrapChain (chain : Loc) (c : Ctx) : Call (Reply × Ctx) := do
  match ← perform (.alloc .resource) with
  | none =>
    free chain
    return (.error .oom, c)
  | some res =>
    if ← perform (.alter res some) then
      return (.sampler res, { c with samplers := (res, some chain) :: c.samplers })
    else
      free res
      free chain
      return (.error .oom, c)

/-- `nif_sampler_new`. -/
def nifSamplerNew (vctx vmodel : Option Vocab) (cfg : ChainCfg) (c : Ctx) :
    Call (Reply × Ctx) := do
  if c.released then return (.released, c)
  else
    match ← buildSamplerChainFromMap vctx vmodel cfg c.cache with
    | (.error e, cache)  => return (.error e, { c with cache := cache })
    | (.ok chain, cache) => wrapChain chain { c with cache := cache }

/-- The resource without its chain. -/
def unchained (res : Loc) : List (Loc × Option Loc) → List (Loc × Option Loc)
  | []        => []
  | x :: rest => if res == x.1 then (x.1, none) :: rest else x :: unchained res rest

/-- `nif_sampler_free`. -/
def nifSamplerFree (res : Loc) (c : Ctx) : Call (Reply × Ctx) := do
  match (c.samplers.lookup res).join with
  | none => return (.released, c)
  | some chain =>
    free chain
    return (.ok, { c with samplers := unchained res c.samplers })

/-- What `nif_free_context` does about the chain. -/
def nifFreeContext (c : Ctx) : Call (Reply × Ctx) := do
  if c.released then return (.released, c)
  else
    freeOpt c.smpl
    return (.ok, { c with smpl := none, released := true })

/-- `sampler_dtor`, and the memory of the resource. -/
def samplerDtor (res : Loc) (c : Ctx) : Call (Reply × Ctx) := do
  match c.samplers.lookup res with
  | none => return (.ok, c)
  | some chain =>
    freeOpt chain
    free res
    return (.ok, { c with samplers := c.samplers.eraseP fun x => res == x.1 })

/-- `ctx_dtor`, which runs when no sampler keeps the context. -/
def ctxDtor (c : Ctx) : Call (Reply × Ctx) := do
  if c.samplers = [] then
    let cache ← grammarCacheClear c.cache
    freeOpt c.smpl
    return (.ok, { c with cache := cache, smpl := none, gone := true })
  else return (.ok, c)

/-- One call or destructor. -/
def Request.perform : Request → Ctx → Call (Reply × Ctx)
  | .configureSampler vctx vmodel cfg, c => nifConfigureSampler vctx vmodel cfg c
  | .setGrammar vctx vmodel grammar, c   => nifSetGrammar vctx vmodel grammar c
  | .clearSampler, c                     => nifClearSampler c
  | .decodeOne, c                        => lazyGreedy c
  | .samplerNew vctx vmodel cfg, c       => nifSamplerNew vctx vmodel cfg c
  | .samplerFree res, c                  => nifSamplerFree res c
  | .freeContext, c                      => nifFreeContext c
  | .samplerGone res, c                  => samplerDtor res c
  | .ctxGone, c                          => ctxDtor c

/-- Nothing is asked of a context that is gone. -/
def Request.ask (r : Request) (c : Ctx) : Call (Reply × Ctx) :=
  if c.gone then return (.released, c) else r.perform c

/-- A run. -/
def serve : List Request → Ctx → Call Ctx
  | [], c        => return c
  | r :: rest, c => do
    let (_, c) ← r.ask c
    serve rest c

/-! ### What a context points to -/

/-- The objects of the entries of a cache. -/
def cacheLocs : List (Option (CacheEntry Kept)) → List Loc
  | []             => []
  | none :: rest   => cacheLocs rest
  | some e :: rest => e.tmpl.tmpl :: e.tmpl.copy :: cacheLocs rest

/-- The objects of samplers. -/
def samplerLocs : List (Loc × Option Loc) → List Loc
  | []        => []
  | x :: rest => x.1 :: (x.2.toList ++ samplerLocs rest)

/-- Every object that the context, its cache or its samplers point to. -/
def Ctx.locs (c : Ctx) : List Loc :=
  cacheLocs c.cache.gcache ++ (c.smpl.toList ++ samplerLocs c.samplers)

/-- The chain behind a pointer. -/
inductive Chained : Option Loc → Multiset (Loc × Obj) → Prop
  | none : Chained none 0
  | some (l : Loc) (stages : List Stage) : Chained (some l) {(l, .chain stages)}

/-- The resources and their chains. -/
inductive Wrapped : List (Loc × Option Loc) → Multiset (Loc × Obj) → Prop
  | nil : Wrapped [] 0
  | cons {res chain rest k w} (hk : Chained chain k) (hw : Wrapped rest w) :
      Wrapped ((res, chain) :: rest) ((res, .resource) ::ₘ (k + w))

/-- The objects are those of the context's cache, its chain and its samplers. -/
structure Owned (c : Ctx) (m : Multiset (Loc × Obj)) : Prop where
  parts : ∃ h k w, Caches c.cache h ∧ Chained c.smpl k ∧ Wrapped c.samplers w ∧ m = h + (k + w)
  gone : c.gone = true → m = 0

variable {c : Ctx} {m h k w : Multiset (Loc × Obj)} {vctx vmodel : Option Vocab} {cfg : ChainCfg}
  {chain l : Loc} {p : Option Loc}

/-- Freeing a chain, if there is one. -/
theorem freeOpt_chain (hk : Chained p k) : Owns (k + m) (freeOpt p) (fun _ m' => m' = m) := by
  cases hk with
  | none => exact Owns.ret (zero_add m)
  | some l stages =>
    rw [Multiset.singleton_add]
    exact Owns.free (Owns.ret rfl)

/-- The objects of one sampler among those of all. -/
theorem Wrapped.lookup {samplers : List (Loc × Option Loc)} {res : Loc} (hw : Wrapped samplers w)
    (hl : samplers.lookup res = some p) :
    ∃ k w', Chained p k ∧ w = (res, .resource) ::ₘ (k + w') ∧
      Wrapped (samplers.eraseP fun x => res == x.1) w' ∧
      Wrapped (unchained res samplers) ((res, .resource) ::ₘ w') := by
  induction hw with
  | nil => cases hl
  | @cons res' chain rest k w hk hw ih =>
    rw [List.lookup_cons] at hl
    unfold unchained
    by_cases hres : (res == res') = true
    · rw [hres] at hl
      cases hl
      rw [List.eraseP_cons_of_pos (by exact hres), if_pos hres, beq_iff_eq.mp hres]
      refine ⟨k, w, hk, rfl, hw, ?_⟩
      have hnone : Wrapped ((res', none) :: rest) _ := .cons Chained.none hw
      rwa [zero_add] at hnone
    · rw [Bool.eq_false_iff.mpr hres] at hl
      obtain ⟨k', w', hk', rfl, herase, hunchained⟩ := ih hl
      rw [List.eraseP_cons_of_neg (by exact hres), if_neg hres]
      refine ⟨k', _, hk', ?_, Wrapped.cons hk herase, ?_⟩
      · simp only [← Multiset.singleton_add]
        abel
      · have hcons : Wrapped ((res', chain) :: unchained res rest) _ := .cons hk hunchained
        rwa [Multiset.add_cons, Multiset.cons_swap] at hcons

/-! ### Every call and destructor -/

/-- What a call leaves. -/
def Leaves (res : Reply × Ctx) (m : Multiset (Loc × Obj)) : Prop := Owned res.2 m

/-- A context that is not gone, by its parts. -/
theorem Owned.of_parts {cache : Cache} {smpl : Option Loc} {rel : Bool}
    {samplers : List (Loc × Option Loc)} (hh : Caches cache h) (hk : Chained smpl k)
    (hw : Wrapped samplers w) (hm : m = h + (k + w)) :
    Owned ⟨cache, smpl, rel, false, samplers⟩ m := ⟨⟨h, k, w, hh, hk, hw, hm⟩, nofun⟩

/-- The chain that a call which succeeded installed, or handed out. -/
def Installed (vctx vmodel : Option Vocab) (cfg : ChainCfg) (res : Reply × Ctx)
    (m : Multiset (Loc × Obj)) : Prop :=
  (res.1 = .ok → ∃ chain stages, res.2.smpl = some chain ∧ (chain, .chain stages) ∈ m ∧
    IsChain vctx vmodel cfg stages) ∧
  ∀ l, res.1 = .sampler l → ∃ chain stages, (l, some chain) ∈ res.2.samplers ∧
    (chain, .chain stages) ∈ m ∧ IsChain vctx vmodel cfg stages

/-- Configuring the sampler installs the chain of its options, or keeps the one before. -/
theorem nifConfigureSampler_installs (vctx vmodel : Option Vocab) (cfg : ChainCfg)
    (hc : Owned c m) (hgone : c.gone = false) :
    Owns m (nifConfigureSampler vctx vmodel cfg c)
      (fun res m' => Leaves res m' ∧ Installed vctx vmodel cfg res m') := by
  obtain ⟨⟨h, k, w, hh, hk, hw, rfl⟩, -⟩ := hc
  obtain ⟨cache, smpl, rel, gone, samplers⟩ := c
  cases hgone
  unfold nifConfigureSampler
  by_cases hrel : rel = true
  · rw [if_pos hrel]
    exact Owns.ret ⟨.of_parts hh hk hw rfl, nofun, nofun⟩
  rw [if_neg hrel]
  refine Owns.bind (buildSamplerChainFromMap_owns hh) fun res m' hm => ?_
  obtain ⟨res, cache'⟩ := res
  obtain ⟨h', hh', hm⟩ := hm
  cases res with
  | error e => exact Owns.ret ⟨.of_parts hh' hk hw hm, nofun, nofun⟩
  | ok chain =>
    obtain ⟨stages, hstages, rfl⟩ := hm
    refine Owns.of_eq (m := k + (h' + ((chain, .chain stages) ::ₘ w))) ?_ ?_
    · refine Owns.bind (p := freeOpt smpl) (freeOpt_chain hk) fun _ m' hm => Owns.ret ?_
      refine ⟨.of_parts hh' (.some chain stages) hw (hm.trans ?_), fun _ => ?_, nofun⟩
      · rw [Multiset.singleton_add]
      · refine ⟨chain, stages, rfl, ?_, hstages⟩
        rw [hm]
        exact Multiset.mem_add.mpr (.inr (Multiset.mem_cons_self _ _))
    · simp only [← Multiset.singleton_add]
      abel

/-- So does a sampler of its own. -/
theorem nifSamplerNew_installs (vctx vmodel : Option Vocab) (cfg : ChainCfg)
    (hc : Owned c m) (hgone : c.gone = false) :
    Owns m (nifSamplerNew vctx vmodel cfg c)
      (fun res m' => Leaves res m' ∧ Installed vctx vmodel cfg res m') := by
  obtain ⟨⟨h, k, w, hh, hk, hw, rfl⟩, -⟩ := hc
  obtain ⟨cache, smpl, rel, gone, samplers⟩ := c
  cases hgone
  unfold nifSamplerNew
  by_cases hrel : rel = true
  · rw [if_pos hrel]
    exact Owns.ret ⟨.of_parts hh hk hw rfl, nofun, nofun⟩
  rw [if_neg hrel]
  refine Owns.bind (buildSamplerChainFromMap_owns hh) fun res m' hm => ?_
  obtain ⟨res, cache'⟩ := res
  obtain ⟨h', hh', hm⟩ := hm
  cases res with
  | error e => exact Owns.ret ⟨.of_parts hh' hk hw hm, nofun, nofun⟩
  | ok chain =>
    obtain ⟨stages, hstages, rfl⟩ := hm
    refine Owns.alloc ?_ fun l => Owns.alter rfl ?_ ?_
    · exact Owns.free (Owns.ret ⟨.of_parts hh' hk hw rfl, nofun, nofun⟩)
    · exact Owns.free (Owns.free (Owns.ret ⟨.of_parts hh' hk hw rfl, nofun, nofun⟩))
    · refine Owns.ret ⟨.of_parts hh' hk (.cons (.some chain stages) hw) ?_, nofun, fun l' hl => ?_⟩
      · simp only [← Multiset.singleton_add]
        show {(l, Obj.resource)} + _ = _
        abel
      · cases hl
        refine ⟨chain, stages, List.mem_cons_self, ?_, hstages⟩
        exact Multiset.mem_cons_of_mem (Multiset.mem_cons_self _ _)

/-- Clearing the sampler frees its chain. -/
theorem nifClearSampler_leaves (hc : Owned c m) (hgone : c.gone = false) :
    Owns m (nifClearSampler c) Leaves := by
  obtain ⟨⟨h, k, w, hh, hk, hw, rfl⟩, -⟩ := hc
  obtain ⟨cache, smpl, rel, gone, samplers⟩ := c
  cases hgone
  rw [add_left_comm]
  refine Owns.bind (freeOpt_chain hk) fun _ m' hm => Owns.ret ?_
  exact .of_parts hh .none hw (by rw [hm, zero_add])

/-- The default chain is installed where none is. -/
theorem lazyGreedy_leaves (hc : Owned c m) (hgone : c.gone = false) :
    Owns m (lazyGreedy c) Leaves := by
  have hkept := hc
  obtain ⟨⟨h, k, w, hh, hk, hw, rfl⟩, -⟩ := hc
  obtain ⟨cache, smpl, rel, gone, samplers⟩ := c
  cases hgone
  unfold lazyGreedy
  by_cases hrel : rel = true
  · rw [if_pos hrel]
    exact Owns.ret hkept
  rw [if_neg hrel]
  cases hk with
  | some l stages => exact Owns.ret hkept
  | none =>
    refine Owns.bind buildDefaultGreedyChain_owns fun res m' hm => ?_
    cases res with
    | none => exact Owns.ret (.of_parts hh .none hw (hm.trans (zero_add _)))
    | some chain =>
      refine Owns.ret (.of_parts hh (.some chain [.greedy]) hw (hm.trans ?_))
      show {(chain, Obj.chain [.greedy])} + _ = _
      abel

/-- Freeing a sampler frees its chain. -/
theorem nifSamplerFree_leaves {res : Loc} (hc : Owned c m) (hgone : c.gone = false) :
    Owns m (nifSamplerFree res c) Leaves := by
  have hkept := hc
  obtain ⟨⟨h, k, w, hh, hk, hw, rfl⟩, -⟩ := hc
  obtain ⟨cache, smpl, rel, gone, samplers⟩ := c
  cases hgone
  unfold nifSamplerFree
  dsimp only
  cases hl : samplers.lookup res with
  | none => exact Owns.ret hkept
  | some p =>
    cases p with
    | none => exact Owns.ret hkept
    | some chain =>
      obtain ⟨k', w', hk', rfl, -, hunchained⟩ := hw.lookup hl
      cases hk' with
      | some _ stages =>
        refine Owns.of_eq (m := (chain, .chain stages) ::ₘ (h + (k + (res, .resource) ::ₘ w')))
          ?_ ?_
        · exact Owns.free (Owns.ret (.of_parts hh hk hunchained rfl))
        · simp only [← Multiset.singleton_add]
          abel

/-- Freeing a context frees its chain. -/
theorem nifFreeContext_leaves (hc : Owned c m) (hgone : c.gone = false) :
    Owns m (nifFreeContext c) Leaves := by
  obtain ⟨⟨h, k, w, hh, hk, hw, rfl⟩, -⟩ := hc
  obtain ⟨cache, smpl, rel, gone, samplers⟩ := c
  cases hgone
  unfold nifFreeContext
  by_cases hrel : rel = true
  · rw [if_pos hrel]
    exact Owns.ret (.of_parts hh hk hw rfl)
  rw [if_neg hrel, add_left_comm]
  refine Owns.bind (freeOpt_chain hk) fun _ m' hm => Owns.ret ?_
  exact .of_parts hh .none hw (by rw [hm, zero_add])

/-- The destructor of a sampler frees what is left of it. -/
theorem samplerDtor_leaves {res : Loc} (hc : Owned c m) (hgone : c.gone = false) :
    Owns m (samplerDtor res c) Leaves := by
  have hkept := hc
  obtain ⟨⟨h, k, w, hh, hk, hw, rfl⟩, -⟩ := hc
  obtain ⟨cache, smpl, rel, gone, samplers⟩ := c
  cases hgone
  unfold samplerDtor
  dsimp only
  cases hl : samplers.lookup res with
  | none => exact Owns.ret hkept
  | some p =>
    obtain ⟨k', w', hk', rfl, herase, -⟩ := hw.lookup hl
    refine Owns.of_eq (m := k' + ((res, .resource) ::ₘ (h + (k + w')))) ?_ ?_
    · refine Owns.bind (freeOpt_chain hk') fun _ m' hm => ?_
      rw [hm]
      exact Owns.free (Owns.ret (.of_parts hh hk herase rfl))
    · simp only [← Multiset.singleton_add]
      abel

/-- The destructor of a context frees what is left of it. -/
theorem ctxDtor_leaves (hc : Owned c m) (hgone : c.gone = false) :
    Owns m (ctxDtor c) Leaves := by
  have hkept := hc
  obtain ⟨⟨h, k, w, hh, hk, hw, rfl⟩, -⟩ := hc
  obtain ⟨cache, smpl, rel, gone, samplers⟩ := c
  cases hgone
  unfold ctxDtor
  by_cases hsamplers : samplers = []
  · rw [if_pos hsamplers]
    subst hsamplers
    cases hw
    refine Owns.bind (grammarCacheClear_owns hh) fun cache' m' hm => ?_
    obtain ⟨hcache, rfl⟩ := hm
    refine Owns.bind (p := freeOpt smpl) (freeOpt_chain hk) fun _ m' hm => Owns.ret ?_
    exact ⟨⟨0, 0, 0, hcache, .none, .nil, hm⟩, fun _ => hm⟩
  · rw [if_neg hsamplers]
    exact Owns.ret hkept

/-- Every request on a context that is there. -/
theorem Request.perform_leaves (r : Request) (hc : Owned c m) (hgone : c.gone = false) :
    Owns m (r.perform c) Leaves := by
  cases r with
  | configureSampler vctx vmodel cfg =>
    exact (nifConfigureSampler_installs _ _ _ hc hgone).mono fun _ _ => And.left
  | setGrammar vctx vmodel grammar =>
    exact (nifConfigureSampler_installs _ _ _ hc hgone).mono fun _ _ => And.left
  | clearSampler => exact nifClearSampler_leaves hc hgone
  | decodeOne => exact lazyGreedy_leaves hc hgone
  | samplerNew vctx vmodel cfg =>
    exact (nifSamplerNew_installs _ _ _ hc hgone).mono fun _ _ => And.left
  | samplerFree res => exact nifSamplerFree_leaves hc hgone
  | freeContext => exact nifFreeContext_leaves hc hgone
  | samplerGone res => exact samplerDtor_leaves hc hgone
  | ctxGone => exact ctxDtor_leaves hc hgone

/-- Every request, also on a context that is gone. -/
theorem Request.ask_leaves (r : Request) (hc : Owned c m) : Owns m (r.ask c) Leaves := by
  unfold Request.ask
  by_cases hgone : c.gone = true
  · rw [if_pos hgone]
    exact Owns.ret hc
  · rw [if_neg hgone]
    exact r.perform_leaves hc (Bool.eq_false_iff.mpr hgone)

/-! ### Runs -/

/-- A run of requests. -/
theorem serve_owns (rs : List Request) (hc : Owned c m) : Owns m (serve rs c) Owned := by
  induction rs generalizing c m with
  | nil => exact Owns.ret hc
  | cons r rs ih => exact Owns.bind (r.ask_leaves hc) fun _ _ hm => ih hm

/-- At the start there is nothing. -/
theorem Owned.init : Owned {} 0 := ⟨⟨0, 0, 0, Caches.empty, .none, .nil, rfl⟩, fun _ => rfl⟩

/-- What the slots of a cache point to. -/
theorem Held.locs {slots : List (Option (CacheEntry Kept))} (hs : Held slots h) :
    h.map Prod.fst = (cacheLocs slots : List Loc) := by
  induction hs with
  | nil => rfl
  | free hs ih => exact ih
  | used e r hkey hs ih =>
    rw [entryObjs_add, Multiset.map_cons, Multiset.map_cons, ih]
    rfl

/-- The location of a chain is the pointer to it. -/
theorem Chained.locs (hk : Chained p k) : k.map Prod.fst = (p.toList : List Loc) := by
  cases hk with
  | none => rfl
  | some l stages => rfl

/-- The locations of the samplers' chains are the pointers to them. -/
theorem Wrapped.locs {samplers : List (Loc × Option Loc)} (hw : Wrapped samplers w) :
    w.map Prod.fst = (samplerLocs samplers : List Loc) := by
  induction hw with
  | nil => rfl
  | cons hk hw ih =>
    rw [Multiset.map_cons, Multiset.map_add, hk.locs, ih]
    rfl

/-- The objects of a context are those it points to. -/
theorem Owned.locs (hc : Owned c m) : m.map Prod.fst = (c.locs : List Loc) := by
  obtain ⟨⟨h, k, w, hh, hk, hw, rfl⟩, -⟩ := hc
  rw [Multiset.map_add, Multiset.map_add, hh.held.locs, hk.locs, hw.locs]
  rfl

/-- **No leak, no double free.** In every run of the calls and the destructors of a context, with
    failures anywhere, no object is used or freed after it was freed, and the objects that are
    live are those that the context, its grammar cache and its samplers point to, once each; when
    the context is gone there are none. -/
theorem run_owned (rs : List Request) (fails : Nat → Bool) :
    let out := (serve rs {}).exec (Store.perform fails) 0 Store.init
    out.2.sound = true ∧ (out.2.live.map Prod.fst).Perm out.1.locs ∧ out.1.locs.Nodup ∧
      (out.1.gone = true → out.2.live = []) := by
  intro out
  obtain ⟨m, hs, hc⟩ := (serve_owns rs Owned.init).exec fails
  have hperm : (out.2.live.map Prod.fst).Perm out.1.locs := by
    rw [← Multiset.coe_eq_coe, ← hc.locs, ← hs.live]
    rfl
  refine ⟨hs.sound, hperm, hperm.nodup_iff.mp hs.unique, fun hgone => ?_⟩
  have hlive := hs.live
  rw [hc.gone hgone] at hlive
  exact Multiset.coe_eq_zero _ |>.mp hlive

/-! ### Chains -/

/-- The last sampler picks the token, and no other one does. -/
def PicksLast (stages : List Stage) : Prop :=
  ∃ front last, stages = front ++ [last] ∧ last.picks = true ∧ ∀ s ∈ front, s.picks = false

/-- Stages that pick nothing may come first. -/
theorem PicksLast.append {front stages : List Stage} (hfront : ∀ s ∈ front, s.picks = false)
    (h : PicksLast stages) : PicksLast (front ++ stages) := by
  obtain ⟨front', last, rfl, hlast, hfront'⟩ := h
  refine ⟨front ++ front', last, (List.append_assoc _ _ _).symm, hlast, fun s hs => ?_⟩
  rcases List.mem_append.mp hs with hs | hs
  · exact hfront s hs
  · exact hfront' s hs

/-- An optional stage is the stage. -/
theorem mem_optional {asked : Bool} {s s' : Stage} (h : s' ∈ optional asked s) : s' = s := by
  cases asked with
  | true  => exact List.mem_singleton.mp h
  | false => cases h

variable {v : Option Vocab}

/-- A bias picks no token. -/
theorem biasStages_picks {s : Stage} (hs : s ∈ biasStages v cfg) : s.picks = false := by
  cases v with
  | none   => cases hs
  | some v => rw [mem_optional hs]; rfl

/-- A filter picks no token. -/
theorem filters_picks {s : Stage} (hs : s ∈ filters v cfg) : s.picks = false := by
  simp only [filters, List.mem_append] at hs
  rcases hs with (((((((hs | hs) | hs) | hs) | hs) | hs) | hs) | hs) | hs
  all_goals
    rw [mem_optional hs]
    rfl

/-- The pick is the last stage. -/
theorem pick_picksLast : PicksLast (pick cfg) := by
  unfold pick
  cases cfg.warm with
  | none => exact ⟨[], .greedy, rfl, rfl, nofun⟩
  | some t =>
    refine ⟨[cfg.tempStage t], .dist cfg.seedVal, rfl, rfl, fun s hs => ?_⟩
    rw [List.mem_singleton.mp hs]
    unfold ChainCfg.tempStage
    split
    · rfl
    · rfl

/-- Mirostat picks. -/
theorem mirostatStage_picks {nVocab mode : Nat} : (cfg.mirostatStage nVocab mode).picks = true := by
  unfold ChainCfg.mirostatStage
  split
  · rfl
  · rfl

/-- Of all stages the last one alone picks. -/
theorem samplers_picksLast : PicksLast (samplers v cfg) := by
  unfold samplers
  refine PicksLast.append (fun s hs => biasStages_picks hs) ?_
  by_cases hmiro : cfg.mirostat = some 1 ∨ cfg.mirostat = some 2
  · rw [if_pos hmiro]
    refine ⟨_, _, rfl, mirostatStage_picks, fun s hs => ?_⟩
    rw [mem_optional hs]
    rfl
  · rw [if_neg hmiro]
    exact PicksLast.append (fun s hs => filters_picks hs) pick_picksLast

/-- A chain picks with its last stage alone. -/
theorem IsChain.picksLast {stages : List Stage} (h : IsChain vctx vmodel cfg stages) :
    PicksLast stages := by
  cases h with
  | plain hg => exact samplers_picksLast
  | grammar hg hs =>
    obtain ⟨v', r, r', -, -, -, rfl⟩ := hs
    refine PicksLast.append (fun s (hs : s ∈ [_]) => ?_) samplers_picksLast
    rw [List.mem_singleton.mp hs]
    rfl

/-- What a chain's name stands for. -/
def ChainOf (vctx vmodel : Option Vocab) (cfg : ChainCfg) (s : Store Obj) (chain : Loc) : Prop :=
  ∃ stages, s.get chain = some (.chain stages) ∧ IsChain vctx vmodel cfg stages ∧ PicksLast stages

/-- **The chain of the options.** After any run, whatever fails in it and in the call: a call that
    succeeds leaves the context, or the new sampler, with a chain of exactly the stages that its
    options ask for, in order, behind the grammar if there is one; the last stage picks the
    token and no other one does. -/
theorem run_installs (rs : List Request) (fails fails' : Nat → Bool) (vctx vmodel : Option Vocab)
    (cfg : ChainCfg) :
    let before := (serve rs {}).exec (Store.perform fails) 0 Store.init
    let configured := ((Request.configureSampler vctx vmodel cfg).ask before.1).exec
      (Store.perform fails') 0 before.2
    let opened := ((Request.samplerNew vctx vmodel cfg).ask before.1).exec
      (Store.perform fails') 0 before.2
    (configured.1.1 = .ok →
      ∃ chain, configured.1.2.smpl = some chain ∧ ChainOf vctx vmodel cfg configured.2 chain) ∧
    ∀ res, opened.1.1 = .sampler res →
      ∃ chain, (res, some chain) ∈ opened.1.2.samplers ∧
        ChainOf vctx vmodel cfg opened.2 chain := by
  intro before configured opened
  obtain ⟨m, hs, hc⟩ := (serve_owns rs Owned.init).exec fails
  -- A context that was released answers `released` to both calls and nothing is installed.
  by_cases hgone : before.1.gone = true
  · have hask : ∀ r : Request, r.ask before.1 = .ret (.released, before.1) := fun r => if_pos hgone
    have hconfigured : configured = ((.released, before.1), before.2) := by
      show (Request.ask _ _).exec _ _ _ = _
      rw [hask]
      rfl
    have hopened : opened = ((.released, before.1), before.2) := by
      show (Request.ask _ _).exec _ _ _ = _
      rw [hask]
      rfl
    rw [hconfigured, hopened]
    exact ⟨nofun, nofun⟩
  -- On a live context each call is its own function, whose spec gives the chain it built.
  · have hlives : before.1.gone = false := Bool.eq_false_iff.mpr hgone
    have hask : ∀ r : Request, r.ask before.1 = r.perform before.1 := fun r => if_neg hgone
    have hconfigured : configured = (nifConfigureSampler vctx vmodel cfg before.1).exec
        (Store.perform fails') 0 before.2 := by
      show (Request.ask _ _).exec _ _ _ = _
      rw [hask]
      rfl
    have hopened : opened = (nifSamplerNew vctx vmodel cfg before.1).exec
        (Store.perform fails') 0 before.2 := by
      show (Request.ask _ _).exec _ _ _ = _
      rw [hask]
      rfl
    constructor
    · intro hok
      obtain ⟨m', hs', -, hinst, -⟩ :=
        nifConfigureSampler_installs vctx vmodel cfg hc hlives fails'
          (fun h => absurd trivial h) 0 _ hs
      rw [← hconfigured] at hs' hinst
      obtain ⟨chain, stages, hsmpl, hmem, hstages⟩ := hinst hok
      exact ⟨chain, hsmpl, stages, hs'.get_of_mem hmem, hstages, hstages.picksLast⟩
    · intro res hok
      obtain ⟨m', hs', -, -, hinst⟩ :=
        nifSamplerNew_installs vctx vmodel cfg hc hlives fails'
          (fun h => absurd trivial h) 0 _ hs
      rw [← hopened] at hs' hinst
      obtain ⟨chain, stages, hsmpl, hmem, hstages⟩ := hinst res hok
      exact ⟨chain, hsmpl, stages, hs'.get_of_mem hmem, hstages, hstages.picksLast⟩

end Erllama.Native.Sampling
