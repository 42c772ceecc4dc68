import Erllama.Native.Chain

namespace Erllama.Native.Sampling

open Lib.Ownership

/-!
# The chain builder owns what it makes

* `Built` — a helper that frees the chain on failure ends with the chain, or without it.
* `Held` — the objects of the grammar cache.
* `samplers` — the samplers of a chain, in order.
* `buildSamplerChainFromMap_owns` — whatever fails, the builder ends with what the cache holds
  and, if it succeeds, with one chain of exactly those samplers.
-/

variable {β : Type} {chain l : Loc} {ss : List Stage} {s : Stage} {m : Multiset (Loc × Obj)}
  {Q : β → Multiset (Loc × Obj) → Prop}

/-! ### Stages -/

/-- The chain with these samplers, unless there was a failure: then it is gone. -/
def Built (chain : Loc) (ss : List Stage) (m : Multiset (Loc × Obj)) :
    Option ChainError → Multiset (Loc × Obj) → Prop
  | none,   m' => m' = (chain, .chain ss) ::ₘ m
  | some _, m' => m' = m

/-- A program that leaves the chain with these samplers, or frees it. -/
abbrev Builds (chain : Loc) (ss : List Stage) (m : Multiset (Loc × Obj))
    (p : Call (Option ChainError)) (ss' : List Stage) : Prop :=
  Owns ((chain, .chain ss) ::ₘ m) p (Built chain ss' m)

/-- The chain owns a stage that was appended; a stage it refused is freed. -/
theorem chainAppend_owns : Owns ((l, .stage s) ::ₘ (chain, .chain ss) ::ₘ m)
    (chainAppend chain (some l))
    (fun ok m' => m' = (chain, .chain (if ok then ss ++ [s] else ss)) ::ₘ m) := by
  refine Owns.absorb ?_ ?_
  · exact Owns.free (Owns.ret rfl)
  · exact Owns.ret rfl

/-- Appending a stage that was made. -/
theorem chainAppendOrFail_builds :
    Owns ((l, .stage s) ::ₘ (chain, .chain ss) ::ₘ m) (chainAppendOrFail chain (some l))
      (Built chain (ss ++ [s]) m) := by
  refine Owns.bind chainAppend_owns fun ok m' hm => ?_
  subst hm
  cases ok with
  | true  => exact Owns.ret rfl
  | false => exact Owns.free (Owns.ret rfl)

/-- The end of the list of stages. -/
theorem Builds.done : Builds chain ss m (.ret none) ss := Owns.ret rfl

variable {first next : Call (Option ChainError)} {ss' ss'' : List Stage}

/-- One part of the builder after another. -/
theorem Builds.andThen (hfirst : Builds chain ss m first ss')
    (hnext : Builds chain ss' m next ss'') :
    Builds chain ss m (andThen first next) ss'' := by
  refine Owns.bind hfirst fun e m' hm => ?_
  cases e with
  | some e => exact Owns.ret hm
  | none =>
    replace hm : m' = (chain, .chain ss') ::ₘ m := hm
    subst hm
    exact hnext

/-- One more stage. -/
theorem Builds.appendStage (hnext : Builds chain (ss ++ [s]) m next ss'') :
    Builds chain ss m (appendStage chain s next) ss'' := by
  refine Owns.alloc ?_ fun l => ?_
  · exact Owns.free (Owns.ret rfl)
  · refine Owns.bind (p := chainAppendOrFail chain (some l)) chainAppendOrFail_builds
      fun e m' hm => ?_
    cases e with
    | some e => exact Owns.ret hm
    | none =>
      replace hm : m' = (chain, .chain (ss ++ [s])) ::ₘ m := hm
      subst hm
      exact hnext

/-- A stage that only some options ask for. -/
def optional (asked : Bool) (s : Stage) : List Stage := if asked then [s] else []

/-- A stage for an option that may be absent. -/
theorem Builds.appendWhen {asked : Bool}
    (hnext : Builds chain (ss ++ optional asked s) m next ss'') :
    Builds chain ss m (appendWhen asked chain s next) ss'' := by
  cases asked with
  | true => exact Builds.appendStage hnext
  | false =>
    replace hnext : Builds chain (ss ++ []) m next ss'' := hnext
    rw [List.append_nil] at hnext
    exact hnext

/-! ### Lists of strings -/

/-- The memory of a list of strings. -/
def buffers (ls : List Loc) : Multiset (Loc × Obj) := (ls.map fun l => (l, Obj.buffer) : List _)

/-- What a list that was read holds. -/
def StringList.objs : StringList → Multiset (Loc × Obj)
  | none             => 0
  | some (arr, strs) => buffers strs + {(arr, .buffer)}

/-- The objects of a list of strings that was read. -/
theorem StringList.objs_some (arr : Loc) (strs : List Loc) :
    StringList.objs (some (arr, strs)) = buffers strs + {(arr, .buffer)} := rfl

/-- The buffers of one string more. -/
@[simp] theorem buffers_cons (l : Loc) (ls : List Loc) :
    buffers (l :: ls) = (l, .buffer) ::ₘ buffers ls := rfl

/-- The buffers of two lists of strings. -/
theorem buffers_append (ls ls' : List Loc) : buffers (ls ++ ls') = buffers ls + buffers ls' := by
  unfold buffers
  rw [List.map_append, Multiset.coe_add]

/-- Freeing the strings frees every buffer. -/
theorem freeAll_owns (ls : List Loc) :
    Owns (buffers ls + m) (freeAll ls) (fun _ m' => m' = m) := by
  induction ls with
  | nil => exact Owns.ret (zero_add m)
  | cons l ls ih =>
    rw [buffers_cons, Multiset.cons_add]
    exact Owns.free ih

/-- Freeing a list of strings frees its buffers and its array. -/
theorem freeStringList_owns (strs : StringList) :
    Owns (strs.objs + m) (freeStringList strs) (fun _ m' => m' = m) := by
  cases strs with
  | none => exact Owns.ret (zero_add m)
  | some x =>
    obtain ⟨arr, strs⟩ := x
    rw [StringList.objs_some, add_assoc]
    refine Owns.bind (freeAll_owns strs) fun _ m' hm => ?_
    rw [hm, Multiset.singleton_add]
    exact Owns.free (Owns.ret rfl)

/-- Reading strings gives all of their buffers, or none. -/
theorem readStrings_owns (arr : Loc) (list : List Bytes) (strs : List Loc) :
    Owns (StringList.objs (some (arr, strs)) + m) (readStrings arr list strs)
      (fun res m' => m' = (res.elim 0 StringList.objs) + m) := by
  induction list generalizing strs with
  | nil => exact Owns.ret rfl
  | cons b list ih =>
    refine Owns.alloc ?_ fun l => ?_
    · refine Owns.bind (p := freeStringList (some (arr, strs))) (freeStringList_owns _)
        fun _ m' hm => Owns.ret ?_
      rw [hm]
      exact (zero_add m).symm
    · refine (ih (strs ++ [l])).of_eq ?_
      rw [StringList.objs_some, StringList.objs_some, buffers_append, ← Multiset.singleton_add]
      show _ = buffers strs + {(l, .buffer)} + {(arr, .buffer)} + m
      abel

/-- Reading a list of strings gives it whole, or nothing. -/
theorem readStringList_owns (list : List Bytes) :
    Owns m (readStringList list) (fun res m' => m' = (res.elim 0 StringList.objs) + m) := by
  unfold readStringList
  by_cases hnil : list = []
  · rw [if_pos hnil]
    exact Owns.ret (zero_add m).symm
  · rw [if_neg hnil]
    refine Owns.alloc (Owns.ret (zero_add m).symm) fun arr => ?_
    exact readStrings_owns arr list []

/-! ### The cache -/

/-- What an entry owns: a template and the copy of its key. -/
def entryObjs (e : CacheEntry Kept) (t : Template) : Multiset (Loc × Obj) :=
  (e.tmpl.tmpl, .stage (.grammar t [])) ::ₘ (e.tmpl.copy, .buffer) ::ₘ 0

/-- The objects of the slots of a cache: the template of an entry is that of some request with
    its key. -/
inductive Held : List (Option (CacheEntry Kept)) → Multiset (Loc × Obj) → Prop
  | nil : Held [] 0
  | free {slots h} (hs : Held slots h) : Held (none :: slots) h
  | used {slots h} (e : CacheEntry Kept) (r : GrammarReq) (hkey : r.cacheKey = e.bytes)
      (hs : Held slots h) : Held (some e :: slots) (entryObjs e r.template + h)

/-- The objects that a cache holds. -/
structure Caches (c : Cache) (h : Multiset (Loc × Obj)) : Prop where
  held : Held c.gcache h
  slots : c.gcache.length = grammarCacheN

variable {slots slots' : List (Option (CacheEntry Kept))} {c c' : Cache}
  {h h' : Multiset (Loc × Obj)} {r : GrammarReq} {kept : Kept}

/-- The objects of a cache entry beside others. -/
theorem entryObjs_add (e : CacheEntry Kept) (t : Template) (h : Multiset (Loc × Obj)) :
    entryObjs e t + h =
      (e.tmpl.tmpl, .stage (.grammar t [])) ::ₘ (e.tmpl.copy, .buffer) ::ₘ h := by
  unfold entryObjs
  rw [Multiset.cons_add, Multiset.cons_add, zero_add]

/-- An empty cache owns nothing. -/
theorem Caches.empty : Caches .empty 0 :=
  ⟨.free (.free (.free (.free .nil))), rfl⟩

/-- A hit changes no objects; its template is one of them. -/
theorem Held.find {bytes : Bytes} {tick : Nat} (hs : Held slots h)
    (hfind : findEntry bytes tick slots = some (kept, slots')) :
    Held slots' h ∧ slots'.length = slots.length ∧
      ∃ (r : GrammarReq) (h₀ : Multiset (Loc × Obj)), r.cacheKey = bytes ∧
        h = (kept.tmpl, .stage (.grammar r.template [])) ::ₘ h₀ := by
  induction hs generalizing slots' with
  | nil => cases hfind
  | @free slots h hs ih =>
    obtain ⟨⟨k, rest⟩, hf, heq⟩ := Option.map_eq_some_iff.mp hfind
    cases heq
    obtain ⟨hh, hlen, hr⟩ := ih hf
    exact ⟨Held.free hh, congrArg (· + 1) hlen, hr⟩
  | @used slots h e r hkey hs ih =>
    unfold findEntry at hfind
    by_cases hmatch : e.Matches bytes
    · rw [if_pos hmatch] at hfind
      cases hfind
      exact ⟨Held.used _ r hkey hs, rfl, r, _, hkey.trans hmatch.2.2, Multiset.cons_add _ _ _⟩
    · rw [if_neg hmatch] at hfind
      obtain ⟨⟨k, rest⟩, hf, heq⟩ := Option.map_eq_some_iff.mp hfind
      cases heq
      obtain ⟨hh, hlen, r', h₀, hkey', hh₀⟩ := ih hf
      refine ⟨Held.used e r hkey hh, congrArg (· + 1) hlen, r', entryObjs e r.template + h₀,
        hkey', ?_⟩
      rw [hh₀, Multiset.add_cons]

/-- What the entry of a slot owns is given up when another one is put there. -/
theorem Held.set_used {i : Nat} {e₀ : CacheEntry Kept} (hs : Held slots h)
    (hi : slots[i]? = some (some e₀)) :
    ∃ (t : Template) (h₀ : Multiset (Loc × Obj)), h = entryObjs e₀ t + h₀ ∧
      ∀ (e : CacheEntry Kept) (r : GrammarReq), r.cacheKey = e.bytes →
        Held (slots.set i (some e)) (entryObjs e r.template + h₀) := by
  induction hs generalizing i with
  | nil => cases hi
  | @free slots h hs ih =>
    cases i with
    | zero => cases hi
    | succ i =>
      obtain ⟨t, h₀, hh, hset⟩ := ih (i := i) hi
      exact ⟨t, h₀, hh, fun e r hkey => Held.free (hset e r hkey)⟩
  | @used slots h e₁ r₁ hkey₁ hs ih =>
    cases i with
    | zero =>
      cases hi
      exact ⟨_, h, rfl, fun e r hkey => Held.used e r hkey hs⟩
    | succ i =>
      obtain ⟨t, h₀, hh, hset⟩ := ih (i := i) hi
      refine ⟨t, entryObjs e₁ r₁.template + h₀, ?_, fun e r hkey => ?_⟩
      · rw [hh, add_left_comm]
      · rw [add_left_comm]
        exact Held.used e₁ r₁ hkey₁ (hset e r hkey)

/-- An entry in a free slot of the cache. -/
theorem Held.set_free {i : Nat} (hs : Held slots h) (hi : slots[i]? = some none)
    (e : CacheEntry Kept) (r : GrammarReq) (hkey : r.cacheKey = e.bytes) :
    Held (slots.set i (some e)) (entryObjs e r.template + h) := by
  induction hs generalizing i with
  | nil => cases hi
  | @free slots h hs ih =>
    cases i with
    | zero   => exact Held.used e r hkey hs
    | succ i => exact Held.free (ih (i := i) hi)
  | @used slots h e₁ r₁ hkey₁ hs ih =>
    cases i with
    | zero => cases hi
    | succ i =>
      rw [add_left_comm]
      exact Held.used e₁ r₁ hkey₁ (ih (i := i) hi)

/-- The victim is a slot. -/
theorem findVictim_lt {i victim oldest n : Nat} (hv : victim < n)
    (hn : i + slots.length ≤ n) : findVictim i victim oldest slots < n := by
  induction slots generalizing i victim oldest with
  | nil => exact hv
  | cons slot slots ih =>
    rw [List.length_cons] at hn
    cases slot with
    | none   => exact Nat.lt_of_lt_of_le (Nat.lt_add_of_pos_right (Nat.succ_pos _)) hn
    | some e =>
      unfold findVictim
      by_cases hlru : e.lru < oldest
      · rw [if_pos hlru]
        exact ih (by omega) (by omega)
      · rw [if_neg hlru]
        exact ih hv (by omega)

/-- The entry for a template that was just compiled. -/
def newEntry (c : Cache) (r : GrammarReq) (kept : Kept) : CacheEntry Kept :=
  ⟨r.cacheKey, grammarHash r.cacheKey, kept, c.tick + 1⟩

/-- Putting a template into the cache frees the entry it replaces. -/
theorem grammarCachePut_owns {tmpl : Loc} (hc : Caches c h) :
    Owns ((tmpl, .stage (.grammar r.template [])) ::ₘ (h + m))
      (grammarCachePut c r.cacheKey tmpl) (fun c' m' => ∃ h', Caches c' h' ∧ m' = h' + m) := by
  refine Owns.alloc (Owns.free (Owns.ret ⟨h, hc, rfl⟩)) fun copy => ?_
  have hlt : findVictim 0 0 (2 ^ 64 - 1) c.gcache < c.gcache.length :=
    findVictim_lt (hc.slots ▸ by decide) (Nat.zero_add _).le
  have hlen : ∀ e, (c.gcache.set (findVictim 0 0 (2 ^ 64 - 1) c.gcache) (some e)).length =
      grammarCacheN := fun e => by rw [List.length_set, hc.slots]
  cases hslot : c.gcache[findVictim 0 0 (2 ^ 64 - 1) c.gcache]? with
  | none =>
    rw [List.getElem?_eq_none_iff] at hslot
    omega
  | some slot =>
    cases slot with
    | none =>
      have hheld := hc.held.set_free hslot (newEntry c r ⟨tmpl, copy⟩) r rfl
      refine Owns.ret ⟨_, ⟨hheld, hlen _⟩, ?_⟩
      rw [add_assoc, entryObjs_add]
      exact Multiset.cons_swap _ _ _
    | some e =>
      obtain ⟨t, h₀, rfl, hset⟩ := hc.held.set_used hslot
      have hheld := hset (newEntry c r ⟨tmpl, copy⟩) r rfl
      refine Owns.of_eq (m := (e.tmpl.tmpl, .stage (.grammar t [])) ::ₘ (e.tmpl.copy, .buffer) ::ₘ
        (entryObjs (newEntry c r ⟨tmpl, copy⟩) r.template + h₀ + m)) ?_ ?_
      · exact Owns.free (Owns.free (Owns.ret ⟨_, ⟨hheld, hlen _⟩, rfl⟩))
      · have hnew := entryObjs_add (newEntry c r ⟨tmpl, copy⟩) r.template
          (entryObjs e t + h₀ + m)
        rw [← entryObjs_add, Multiset.cons_swap]
        exact hnew.symm.trans (by abel)

/-- Clearing frees the objects of all entries. -/
theorem clearEntries_owns (hs : Held slots h) :
    Owns (h + m) (clearEntries slots) (fun _ m' => m' = m) := by
  induction hs with
  | nil => exact Owns.ret (zero_add m)
  | free hs ih => exact ih
  | used e r hkey hs ih =>
    rw [add_assoc, entryObjs_add]
    exact Owns.free (Owns.free ih)

/-- A cleared cache owns nothing. -/
theorem grammarCacheClear_owns (hc : Caches c h) :
    Owns (h + m) (grammarCacheClear c) (fun c' m' => Caches c' 0 ∧ m' = m) := by
  refine Owns.bind (clearEntries_owns hc.held) fun _ m' hm => Owns.ret ⟨⟨?_, ?_⟩, hm⟩
  · show Held (c.gcache.map fun _ => none) 0
    generalize c.gcache = slots
    induction slots with
    | nil => exact .nil
    | cons slot slots ih => exact .free ih
  · exact (List.length_map _).trans hc.slots

/-! ### The grammar stage -/

variable {v : Vocab} {t : Template} {g : Loc}

/-- The tokens that the clone for a request has accepted. -/
def acceptedPrefill (v : Vocab) (r : GrammarReq) : List Token :=
  if r.lazy || r.prefill.isEmpty then []
  else prefillTokens v r.prefill ((v.tokenize r.prefill).getD [])

/-- The grammar stage of a request that is served this template. -/
def grammarStage (v : Vocab) (r : GrammarReq) (t : Template) : Stage :=
  .grammar t (acceptedPrefill v r)

/-- A grammar that accepts tokens stays one object. -/
theorem acceptAll_owns (toks seen : List Token) :
    Owns ((g, .stage (.grammar t seen)) ::ₘ m) (acceptAll g toks) (fun ok m' =>
      ∃ seen', m' = (g, .stage (.grammar t seen')) ::ₘ m ∧ (ok = true → seen' = seen ++ toks)) := by
  induction toks generalizing seen with
  | nil => exact Owns.ret ⟨seen, rfl, fun _ => (List.append_nil seen).symm⟩
  | cons tok toks ih =>
    refine Owns.alter rfl ?_ ?_
    · exact Owns.ret ⟨seen, rfl, nofun⟩
    · refine (ih (seen ++ [tok])).mono fun ok m' hm => ?_
      rwa [List.append_assoc] at hm

/-- So does a grammar that accepts its prefill. -/
theorem prefilled_owns :
    Owns ((g, .stage (.grammar t [])) ::ₘ m) (prefilled v g r) (fun ok m' =>
      ∃ seen, m' = (g, .stage (.grammar t seen)) ::ₘ m ∧
        (ok = true → seen = acceptedPrefill v r)) := by
  unfold prefilled acceptedPrefill
  by_cases hskip : (r.lazy || r.prefill.isEmpty) = true
  · rw [if_pos hskip, if_pos hskip]
    exact Owns.ret ⟨[], rfl, fun _ => rfl⟩
  · rw [if_neg hskip, if_neg hskip]
    refine Owns.alloc (Owns.ret ⟨[], rfl, nofun⟩) fun buf => ?_
    show Owns _ (acceptTokens v g r.prefill buf) _
    unfold acceptTokens
    cases htok : v.tokenize r.prefill with
    | none => exact Owns.free (Owns.ret ⟨[], rfl, nofun⟩)
    | some toks =>
      dsimp only
      by_cases hroom : r.prefill.length + 16 < toks.length
      · rw [if_pos hroom]
        exact Owns.free (Owns.ret ⟨[], rfl, nofun⟩)
      · rw [if_neg hroom, Multiset.cons_swap]
        refine Owns.bind (acceptAll_owns _ []) fun ok m' hm => ?_
        obtain ⟨seen, rfl, hseen⟩ := hm
        rw [Multiset.cons_swap]
        exact Owns.free (Owns.ret ⟨seen, rfl, hseen⟩)

/-- The chain with one more sampler, or as before after a failure. -/
def Appended (chain : Loc) (ss : List Stage) (s : Stage) (m : Multiset (Loc × Obj)) :
    Option ChainError → Multiset (Loc × Obj) → Prop
  | none,   m' => m' = (chain, .chain (ss ++ [s])) ::ₘ m
  | some _, m' => m' = (chain, .chain ss) ::ₘ m

/-- The clone of a template is owned by the chain, or freed. -/
theorem appendClone_owns :
    Owns ((g, .stage (.grammar t [])) ::ₘ (chain, .chain ss) ::ₘ m)
      (appendClone v chain r (some g)) (Appended chain ss (grammarStage v r t) m) := by
  refine Owns.bind prefilled_owns fun ok m' hm => ?_
  obtain ⟨seen, rfl, hseen⟩ := hm
  cases ok with
  | false => exact Owns.free (Owns.ret rfl)
  | true =>
    rw [hseen rfl]
    refine Owns.bind (p := chainAppend chain (some g)) chainAppend_owns fun ok m' hm => ?_
    subst hm
    cases ok with
    | true  => exact Owns.ret rfl
    | false => exact Owns.ret rfl

/-- A compiled template is the one the request asks for. -/
def Compiled (r : GrammarReq) (m : Multiset (Loc × Obj)) :
    Except ChainError Loc → Multiset (Loc × Obj) → Prop
  | .ok l,    m' => m' = (l, .stage (.grammar r.template [])) ::ₘ m
  | .error _, m' => m' = m

/-- A compiled template is one object, or none. -/
theorem compileTemplate_owns : Owns m (compileTemplate r) (Compiled r m) := by
  refine Owns.alloc (Owns.ret rfl) fun gstr => ?_
  refine Owns.alloc (Owns.free (Owns.ret rfl)) fun tmpl => ?_
  rw [Multiset.cons_swap]
  exact Owns.free (Owns.ret rfl)

/-- What the grammar stage leaves: the cache, and the chain with the stage of a template that
    was compiled for a request with this key. -/
def Served (v : Vocab) (chain : Loc) (ss : List Stage) (r : GrammarReq) (m : Multiset (Loc × Obj))
    (res : Option ChainError × Cache) (m' : Multiset (Loc × Obj)) : Prop :=
  ∃ (h' : Multiset (Loc × Obj)) (r' : GrammarReq), Caches res.2 h' ∧ r'.cacheKey = r.cacheKey ∧
    Appended chain ss (grammarStage v r r'.template) (h' + m) res.1 m'

/-- Serving a grammar from the cache leaves the template with the cache. -/
theorem serveGrammar_owns (hc : Caches c h) :
    Owns ((chain, .chain ss) ::ₘ (h + m)) (serveGrammar v chain r c) (Served v chain ss r m) := by
  unfold serveGrammar grammarCacheGet
  cases hfind : findEntry r.cacheKey (c.tick + 1) c.gcache with
  | some found =>
    obtain ⟨kept, slots⟩ := found
    obtain ⟨hheld, hlen, r', h₀, hkey, hh⟩ := hc.held.find hfind
    have hc' : Caches { c with gcache := slots, tick := c.tick + 1, hits := c.hits + 1 } h :=
      ⟨hheld, hlen.trans hc.slots⟩
    have hfront : (chain, Obj.chain ss) ::ₘ (h + m) =
        (kept.tmpl, .stage (.grammar r'.template [])) ::ₘ (chain, .chain ss) ::ₘ (h₀ + m) := by
      rw [hh, Multiset.cons_add, Multiset.cons_swap]
    refine Owns.of_eq (Owns.copy ?_ fun g => ?_) hfront
    · exact Owns.ret ⟨h, r', hc', hkey, hfront.symm⟩
    · refine Owns.bind (p := appendClone v chain r (some g)) (Q := Appended chain ss _ (h + m)) ?_
        fun e m' hm => Owns.ret ⟨h, r', hc', hkey, hm⟩
      rw [← hfront]
      exact appendClone_owns
  | none =>
    refine Owns.bind compileTemplate_owns fun res m' hm => ?_
    have hc' : Caches { c with misses := c.misses + 1 } h := ⟨hc.held, hc.slots⟩
    cases res with
    | error e =>
      replace hm : m' = (chain, .chain ss) ::ₘ (h + m) := hm
      exact Owns.ret ⟨h, r, hc', rfl, hm⟩
    | ok tmpl =>
      replace hm : m' = (tmpl, .stage (.grammar r.template [])) ::ₘ (chain, .chain ss) ::ₘ
        (h + m) := hm
      subst hm
      -- the template goes to the cache before the outcome of the clone is looked at
      have hput : ∀ m, Owns ((tmpl, .stage (.grammar r.template [])) ::ₘ (h + m))
          (grammarCachePut { c with misses := c.misses + 1 } r.cacheKey tmpl)
          (fun c' m' => ∃ h', Caches c' h' ∧ m' = h' + m) := fun m => grammarCachePut_owns hc'
      refine Owns.copy ?_ fun g => ?_
      · refine Owns.bind (p := grammarCachePut _ _ _) ((hput ((chain, .chain ss) ::ₘ m)).of_eq ?_)
          fun c' m' hm => ?_
        · rw [Multiset.add_cons]
        · obtain ⟨h', hheld, rfl⟩ := hm
          exact Owns.ret ⟨h', r, hheld, rfl, Multiset.add_cons _ _ _⟩
      · refine Owns.bind (p := grammarCachePut _ _ _)
          ((hput ((g, .stage (.grammar r.template [])) ::ₘ (chain, .chain ss) ::ₘ m)).of_eq ?_)
          fun c' m' hm => ?_
        · rw [Multiset.add_cons, Multiset.add_cons, Multiset.cons_swap]
          rfl
        · obtain ⟨h', hheld, rfl⟩ := hm
          rw [Multiset.add_cons, Multiset.add_cons]
          exact Owns.bind (p := appendClone v chain r (some g)) appendClone_owns
            fun e m' hm => Owns.ret ⟨h', r, hheld, rfl, hm⟩

/-- The memory behind a pointer that may be null. -/
def ptr (l : Option Loc) : Multiset (Loc × Obj) := l.elim 0 fun l => {(l, .buffer)}

/-- Freeing a pointer that may be null. -/
theorem freeOpt_owns (l : Option Loc) : Owns (ptr l + m) (freeOpt l) (fun _ m' => m' = m) := by
  cases l with
  | none   => exact Owns.ret (zero_add m)
  | some l =>
    show Owns ({(l, .buffer)} + m) _ _
    rw [Multiset.singleton_add]
    exact Owns.free (Owns.ret rfl)

/-- The buffer of a key, if memory was there. -/
theorem keyBuffer_owns :
    Owns m (keyBuffer r) (fun res m' => m' = res.elim 0 ptr + m) := by
  unfold keyBuffer
  by_cases htag : r.Tagged
  · rw [if_pos htag]
    refine Owns.alloc (Owns.ret (zero_add m).symm) fun buf => Owns.ret ?_
    exact (Multiset.singleton_add _ _).symm
  · rw [if_neg htag]
    exact Owns.ret (zero_add m).symm

/-- What the triggers were read into. -/
def Read (gcfg : GrammarCfg) (m : Multiset (Loc × Obj)) :
    Option (Option Loc × GrammarReq) → Multiset (Loc × Obj) → Prop
  | none,           m' => m' = m
  | some (toks, r), m' => readGrammar gcfg = .ok r ∧ m' = ptr toks + m

/-- Reading the triggers gives them all, or nothing. -/
theorem readTriggers_owns (gcfg : GrammarCfg) : Owns m (readTriggers gcfg) (Read gcfg m) := by
  unfold readTriggers
  by_cases hmany : maxTriggerTokens < gcfg.triggerTokens.length
  · rw [if_pos hmany]
    exact Owns.ret rfl
  · rw [if_neg hmany]
    by_cases hnil : gcfg.triggerTokens = []
    · rw [if_pos hnil]
      cases hread : readGrammar gcfg with
      | error e => exact Owns.ret rfl
      | ok r    => exact Owns.ret ⟨hread, (zero_add m).symm⟩
    · rw [if_neg hnil]
      refine Owns.alloc (Owns.ret rfl) fun toks => ?_
      cases hread : readGrammar gcfg with
      | error e => exact Owns.free (Owns.ret rfl)
      | ok r    => exact Owns.ret ⟨hread, (Multiset.singleton_add _ _).symm⟩

/-- The grammar stage for some options: of a request that they are read as, with a template
    that was compiled for its key. -/
def IsGrammarStage (v : Option Vocab) (gcfg : GrammarCfg) (s : Stage) : Prop :=
  ∃ v' r r', v = some v' ∧ readGrammar gcfg = .ok r ∧ r'.cacheKey = r.cacheKey ∧
    s = grammarStage v' r (GrammarReq.template r')

/-- The chain behind the grammar stage; on failure the chain is left as it was. -/
def GrammarDone (v : Option Vocab) (gcfg : GrammarCfg) (chain : Loc) (ss : List Stage)
    (m : Multiset (Loc × Obj)) (res : Option ChainError × Cache) (m' : Multiset (Loc × Obj)) :
    Prop :=
  ∃ h' ss', Caches res.2 h' ∧ m' = (chain, .chain ss') ::ₘ (h' + m) ∧
    (res.1 = none → ∃ s, IsGrammarStage v gcfg s ∧ ss' = ss ++ [s])

/-- Whatever fails on the way, a grammar stage leaves no buffer behind. -/
theorem appendGrammarSampler_owns {v : Option Vocab} {gcfg : GrammarCfg} (hc : Caches c h) :
    Owns ((chain, .chain ss) ::ₘ (h + m)) (appendGrammarSampler v chain gcfg c)
      (GrammarDone v gcfg chain ss m) := by
  cases v with
  | none => exact Owns.ret ⟨h, ss, hc, rfl, nofun⟩
  | some v =>
    -- The string list, the triggers and the key buffer: each exit frees what came before.
    refine Owns.bind (readStringList_owns gcfg.triggerPatterns) fun patterns m₁ hm₁ => ?_
    cases patterns with
    | none => exact Owns.ret ⟨h, ss, hc, hm₁.trans (zero_add _), nofun⟩
    | some patterns =>
      refine Owns.bind (readTriggers_owns gcfg) fun triggers m₂ hm₂ => ?_
      cases triggers with
      | none =>
        replace hm₂ : m₂ = patterns.objs + (chain, .chain ss) ::ₘ (h + m) := hm₂.trans hm₁
        rw [hm₂]
        exact Owns.bind (freeStringList_owns patterns) fun _ m' hm =>
          Owns.ret ⟨h, ss, hc, hm, nofun⟩
      | some triggers =>
        obtain ⟨toks, r⟩ := triggers
        obtain ⟨hread, hm₂⟩ := hm₂
        replace hm₂ : m₂ = ptr toks + (patterns.objs + (chain, .chain ss) ::ₘ (h + m)) := by
          rw [hm₂, hm₁]
          rfl
        refine Owns.bind keyBuffer_owns fun keybuf m₃ hm₃ => ?_
        cases keybuf with
        | none =>
          rw [hm₃, hm₂]
          refine Owns.of_eq ?_ (zero_add _)
          refine Owns.bind (freeOpt_owns toks) fun _ m' hm => ?_
          rw [hm]
          exact Owns.bind (freeStringList_owns patterns) fun _ m' hm =>
            Owns.ret ⟨h, ss, hc, hm, nofun⟩
        | some keybuf =>
          -- What was read stands in front of the chain.
          have hfront : m₃ = (chain, .chain ss) ::ₘ
              (h + (ptr keybuf + (ptr toks + (patterns.objs + m)))) := by
            rw [hm₃, hm₂]
            show ptr keybuf + _ = _
            simp only [← Multiset.singleton_add]
            abel
          rw [hfront]
          refine Owns.bind (serveGrammar_owns hc) fun res m₄ hm₄ => ?_
          obtain ⟨h', r', hc', hkey, happ⟩ := hm₄
          -- whether or not the stage was appended, there is the chain and what was read
          have hafter : ∃ ss', m₄ = ptr keybuf + (ptr toks + (patterns.objs +
              ((chain, .chain ss') ::ₘ (h' + m)))) ∧
              (res.1 = none → ∃ s, IsGrammarStage (some v) gcfg s ∧ ss' = ss ++ [s]) := by
            cases he : res.1 with
            | none =>
              rw [he] at happ
              refine ⟨_, happ.trans ?_, fun _ => ⟨_, ⟨v, r, r', rfl, hread, hkey, rfl⟩, rfl⟩⟩
              simp only [← Multiset.singleton_add]
              abel
            | some e =>
              rw [he] at happ
              refine ⟨ss, happ.trans ?_, nofun⟩
              simp only [← Multiset.singleton_add]
              abel
          obtain ⟨ss', rfl, hdone⟩ := hafter
          -- The way out frees the same three.
          refine Owns.bind (freeOpt_owns keybuf) fun _ m' hm => ?_
          rw [hm]
          refine Owns.bind (freeOpt_owns toks) fun _ m' hm => ?_
          rw [hm]
          exact Owns.bind (freeStringList_owns patterns) fun _ m' hm =>
            Owns.ret ⟨h', ss', hc', hm, hdone⟩

/-! ### The stages of a chain -/

/-- The biases of the user's list, and minus infinity for the suppressed tokens. -/
def biases (v : Vocab) (cfg : ChainCfg) : List (Token × WithBot ℚ) :=
  (cfg.logitBias.pairs.mapM (readBias v.nTokens)).getD [] ++
    (suppressed v cfg).map fun t => (t, ⊥)

/-- The bias stage, if there is anything to bias. -/
def biasStages (v : Option Vocab) (cfg : ChainCfg) : List Stage :=
  match v with
  | none   => []
  | some v => optional (0 < v.nTokens && 0 < cfg.logitBias.pairs.length + (suppressed v cfg).length)
      (.logitBias v.nTokens (biases v cfg))

/-- The end of a chain. -/
def pick (cfg : ChainCfg) : List Stage :=
  match cfg.warm with
  | some t => [cfg.tempStage t, .dist cfg.seedVal]
  | none   => [.greedy]

/-- The middle of a chain, each stage only where its option asks for it. -/
def filters (v : Option Vocab) (cfg : ChainCfg) : List Stage :=
  optional cfg.penalised (cfg.penaltiesStage ((v.map Vocab.nTokens).getD 0)) ++
  optional (0 < cfg.dryMultiplier.getD 0 && v.isSome) cfg.dryStage ++
  optional (cfg.topNSigma.any (0 < ·)) (.topNSigma (cfg.topNSigma.getD (-1))) ++
  optional (cfg.topK.any (0 < ·)) (.topK (cfg.topK.getD 0)) ++
  optional (cfg.typicalP.any (· < 1)) (.typical (cfg.typicalP.getD 1) cfg.minKeepVal) ++
  optional (cfg.topP.any (· < 1)) (.topP (cfg.topP.getD 1) cfg.minKeepVal) ++
  optional (cfg.minP.any (0 < ·)) (.minP (cfg.minP.getD 0) cfg.minKeepVal) ++
  optional (0 < cfg.xtcProbability.getD 0) cfg.xtcStage ++
  optional (cfg.infill && v.isSome) .infill

/-- The samplers behind the grammar.  Mirostat takes the place of everything but the biases and
    the temperature. -/
def samplers (v : Option Vocab) (cfg : ChainCfg) : List Stage :=
  biasStages v cfg ++
  if cfg.mirostat = some 1 ∨ cfg.mirostat = some 2 then
    optional cfg.warm.isSome (.temp (cfg.warm.getD 0)) ++
      [cfg.mirostatStage ((v.map Vocab.nTokens).getD 0) (cfg.mirostat.getD 0)]
  else filters v cfg ++ pick cfg

variable {cfg : ChainCfg} {v : Option Vocab}

/-- The logit bias stage, if the options have one. -/
theorem appendLogitBiasSampler_builds :
    Builds chain ss m (appendLogitBiasSampler v cfg chain) (ss ++ biasStages v cfg) := by
  unfold appendLogitBiasSampler
  by_cases hlist : cfg.logitBias = .noList
  · rw [if_pos hlist]
    exact Owns.free (Owns.ret rfl)
  rw [if_neg hlist]
  by_cases hnone : cfg.logitBias.pairs = [] ∧ ¬ cfg.ignoreEos = true
  · have hempty : biasStages v cfg = [] := by
      unfold biasStages suppressed
      cases v with
      | none   => rfl
      | some v => simp [hnone.1, hnone.2, optional]
    rw [if_pos hnone, hempty, List.append_nil]
    exact Owns.ret rfl
  rw [if_neg hnone]
  cases v with
  | none =>
    rw [biasStages, List.append_nil]
    exact Owns.ret rfl
  | some v =>
    dsimp only
    unfold biasStages optional
    dsimp only
    by_cases hvocab : v.nTokens = 0
    · rw [if_pos hvocab, hvocab]
      simp only [lt_self_iff_false, decide_false, Bool.false_and, Bool.false_eq_true, if_false,
        List.append_nil]
      exact Owns.ret rfl
    rw [if_neg hvocab]
    by_cases htotal : cfg.logitBias.pairs.length + (suppressed v cfg).length = 0
    · rw [if_pos htotal, htotal]
      simp only [lt_self_iff_false, decide_false, Bool.and_false, Bool.false_eq_true, if_false,
        List.append_nil]
      exact Owns.ret rfl
    rw [if_neg htotal, if_pos (by simp only [Bool.and_eq_true, decide_eq_true_eq]; omega)]
    refine Owns.alloc (Owns.free (Owns.ret rfl)) fun arr => ?_
    unfold biases
    cases hread : cfg.logitBias.pairs.mapM (readBias v.nTokens) with
    | none => exact Owns.free (Owns.free (Owns.ret rfl))
    | some bias =>
      refine Owns.alloc (Owns.free (Owns.free (Owns.ret rfl))) fun stage => ?_
      rw [Multiset.cons_swap]
      exact Owns.free chainAppendOrFail_builds

/-- The dry stage, if the options have one and there is a vocabulary. -/
theorem appendDrySampler_builds :
    Builds chain ss m (appendDrySampler v cfg chain) (ss ++ optional v.isSome cfg.dryStage) := by
  cases v with
  | none =>
    show Builds chain ss m _ (ss ++ [])
    rw [List.append_nil]
    exact Owns.ret rfl
  | some v =>
    refine Owns.bind (readStringList_owns cfg.drySequenceBreakers) fun strs m' hm => ?_
    cases strs with
    | none =>
      rw [hm]
      exact Owns.of_eq (Owns.free (Owns.ret rfl)) (zero_add _)
    | some strs =>
      rw [hm]
      refine Owns.alloc ?_ fun stage => ?_
      · refine Owns.bind (p := freeStringList strs) (freeStringList_owns strs) fun _ m' hm => ?_
        rw [hm]
        exact Owns.free (Owns.ret rfl)
      · rw [← Multiset.add_cons]
        refine Owns.bind (p := freeStringList strs) (freeStringList_owns strs) fun _ m' hm => ?_
        rw [hm]
        exact chainAppendOrFail_builds

/-- Mirostat and the temperature before it. -/
theorem appendMirostat_builds {nVocab : Nat} :
    Builds chain ss m (appendMirostat nVocab cfg chain)
      (ss ++ (optional cfg.warm.isSome (.temp (cfg.warm.getD 0)) ++
        [cfg.mirostatStage nVocab (cfg.mirostat.getD 0)])) := by
  rw [← List.append_assoc]
  exact Builds.appendWhen (Builds.appendStage Builds.done)

/-- The stage that picks the token. -/
theorem appendPick_builds : Builds chain ss m (appendPick cfg chain) (ss ++ pick cfg) := by
  unfold appendPick pick
  cases cfg.warm with
  | none => exact Builds.appendStage Builds.done
  | some t =>
    rw [List.append_cons]
    exact Builds.appendStage (Builds.appendStage Builds.done)

/-- The samplers against repetition are asked for by their multiplier. -/
theorem appendDry_builds :
    Builds chain ss m
      (if 0 < cfg.dryMultiplier.getD 0 then appendDrySampler v cfg chain else return none)
      (ss ++ optional (0 < cfg.dryMultiplier.getD 0 && v.isSome) cfg.dryStage) := by
  by_cases hdry : 0 < cfg.dryMultiplier.getD 0
  · rw [if_pos hdry, decide_eq_true hdry, Bool.true_and]
    exact appendDrySampler_builds
  · rw [if_neg hdry, decide_eq_false hdry, Bool.false_and]
    show Builds chain ss m _ (ss ++ [])
    rw [List.append_nil]
    exact Builds.done

/-- The filter stages, and then the pick. -/
theorem appendFilters_builds :
    Builds chain ss m (appendFilters v cfg chain) (ss ++ (filters v cfg ++ pick cfg)) := by
  unfold filters
  simp only [← List.append_assoc]
  exact Builds.appendWhen <| Builds.andThen appendDry_builds <| Builds.appendWhen <|
    Builds.appendWhen <| Builds.appendWhen <| Builds.appendWhen <| Builds.appendWhen <|
    Builds.appendWhen <| Builds.appendWhen appendPick_builds

/-- All stages in the order of the source. -/
theorem appendSamplers_builds :
    Builds chain ss m (appendSamplers v cfg chain) (ss ++ samplers v cfg) := by
  unfold appendSamplers samplers
  rw [← List.append_assoc]
  refine Builds.andThen appendLogitBiasSampler_builds ?_
  by_cases hmiro : cfg.mirostat = some 1 ∨ cfg.mirostat = some 2
  · rw [if_pos hmiro, if_pos hmiro]
    exact appendMirostat_builds
  · rw [if_neg hmiro, if_neg hmiro]
    exact appendFilters_builds

/-! ### The builder -/

/-- The stages of a chain for some options, on a context with these vocabularies. -/
inductive IsChain (vctx vmodel : Option Vocab) (cfg : ChainCfg) : List Stage → Prop
  | plain (hg : cfg.grammar = none) : IsChain vctx vmodel cfg (samplers vmodel cfg)
  | grammar {gcfg s} (hg : cfg.grammar = some gcfg) (hs : IsGrammarStage vctx gcfg s) :
      IsChain vctx vmodel cfg (s :: samplers vmodel cfg)

/-- What the builder leaves: what the cache holds, and a new chain if it succeeded. -/
def ChainDone (vctx vmodel : Option Vocab) (cfg : ChainCfg) (m : Multiset (Loc × Obj))
    (res : Except ChainError Loc × Cache) (m' : Multiset (Loc × Obj)) : Prop :=
  ∃ h', Caches res.2 h' ∧
    match res.1 with
    | .ok chain => ∃ stages, IsChain vctx vmodel cfg stages ∧
        m' = (chain, .chain stages) ::ₘ (h' + m)
    | .error _ => m' = h' + m

variable {vctx vmodel : Option Vocab}

/-- **The builder gives back what it does not hand out.** Whatever fails, it frees nothing twice,
    and besides what the cache holds there is one new chain, if it succeeds, and nothing else. -/
theorem buildSamplerChainFromMap_owns (hc : Caches c h) :
    Owns (h + m) (buildSamplerChainFromMap vctx vmodel cfg c) (ChainDone vctx vmodel cfg m) := by
  unfold buildSamplerChainFromMap
  by_cases hempty : cfg.grammar.any (·.grammar = []) = true
  · rw [if_pos hempty]
    exact Owns.ret ⟨h, hc, rfl⟩
  rw [if_neg hempty]
  by_cases hseed : cfg.seed = some none
  · rw [if_pos hseed]
    exact Owns.ret ⟨h, hc, rfl⟩
  rw [if_neg hseed]
  refine Owns.alloc (Owns.ret ⟨h, hc, rfl⟩) fun chain => ?_
  -- the rest, behind a grammar stage or none
  have hrest : ∀ {c h ss} {k : Option ChainError → Call (Except ChainError Loc × Cache)},
      Caches c h → IsChain vctx vmodel cfg (ss ++ samplers vmodel cfg) →
      (∀ e, k (some e) = pure (.error e, c)) → k none = pure (.ok chain, c) →
      Owns ((chain, .chain ss) ::ₘ (h + m)) (appendSamplers vmodel cfg chain >>= k)
        (ChainDone vctx vmodel cfg m) := by
    intro c h ss k hc hstages herr hok
    refine Owns.bind appendSamplers_builds fun e m' hm => ?_
    cases e with
    | some e =>
      rw [herr]
      exact Owns.ret ⟨h, hc, hm⟩
    | none =>
      rw [hok]
      exact Owns.ret ⟨h, hc, _, hstages, hm⟩
  cases hg : cfg.grammar with
  | none => exact hrest hc (.plain hg) (fun _ => rfl) rfl
  | some gcfg =>
    refine Owns.bind (p := appendGrammarSampler vctx chain gcfg c) (appendGrammarSampler_owns hc)
      fun res m' hm => ?_
    obtain ⟨e, c'⟩ := res
    obtain ⟨h', ss', hc', rfl, hdone⟩ := hm
    cases e with
    | some e => exact Owns.free (Owns.ret ⟨h', hc', rfl⟩)
    | none =>
      obtain ⟨s, hs, rfl⟩ := hdone rfl
      exact hrest hc' (.grammar hg hs) (fun _ => rfl) rfl

/-- The default chain is one greedy stage, or nothing when memory is out. -/
theorem buildDefaultGreedyChain_owns :
    Owns m buildDefaultGreedyChain (fun res m' =>
      m' = (res.elim 0 fun chain => {(chain, .chain [.greedy])}) + m) := by
  refine Owns.alloc (Owns.ret (zero_add m).symm) fun chain => ?_
  refine Owns.alloc (Owns.free (Owns.ret (zero_add m).symm)) fun greedy => ?_
  refine Owns.absorb (Owns.free (Owns.free (Owns.ret (zero_add m).symm))) (Owns.ret ?_)
  exact (Multiset.singleton_add _ _).symm

end Erllama.Native.Sampling
