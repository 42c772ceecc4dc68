import Erllama.CacheKey
import Erllama.Lib.Codes
import Erllama.Lib.Run

namespace Erllama.Native

open Lib (Instant)

/-!
# The cache of compiled grammars

Compiling a grammar is slow, so every context keeps the last four compiled templates, found by
a buffer of bytes.  A plain grammar's buffer is its text; a lazy one, or one with triggers, has
the buffer `[lazy-byte, grammar, 0, pattern 0, ..., tokens LE]`.  The buffers have no counts and
no escapes, and the two formats share one table.

* `GrammarCfg`, `readGrammar` — the options of a request, and what the C code reads of them.
* `GrammarReq.cacheKey`, `GrammarReq.template` — the buffer, and the template that is asked for.
* `grammarCacheGet`, `grammarCachePut`, `appendGrammarSampler` — the cache and its use.
* `Overlap` — the three ways in which two requests for different templates get one buffer.
* `cacheKey_faithful_iff` — there is no fourth one.
* `run_served` — what the cache hands out was compiled for a request with the same buffer.
-/

/-! ### Requests -/

/-- A NUL-terminated string: `strlen` stops at the first NUL. -/
def CString := { b : Bytes // 0 ∉ b }
deriving DecidableEq

/-- What a C function sees of a buffer that was copied and terminated. -/
def cString (b : Bytes) : CString :=
  ⟨b.takeWhile (· ≠ 0), fun h => by simpa using List.all_eq_true.mp List.all_takeWhile 0 h⟩

/-- The grammar options of a sampler config; a missing option is as its default. -/
structure GrammarCfg where
  grammar : Bytes
  grammarLazy : Bool := false
  triggerPatterns : List Bytes := []
  triggerTokens : List Int := []
  grammarPrefill : Bytes := []
deriving DecidableEq

/-- What is left of the options once they are read. -/
structure GrammarReq where
  lazy : Bool
  grammar : Bytes
  patterns : List CString
  tokens : List Token
  prefill : Bytes
  grammar_ne : grammar ≠ []
  tokens_fit : ∀ t ∈ tokens, t < 2 ^ 31
deriving DecidableEq

/-- `ERLLAMA_MAX_TOKENS`. -/
def maxTriggerTokens : Nat := 16 * 1024 * 1024

/-- The error atoms of the grammar stage. -/
inductive GrammarError where
  | badarg | grammarFailed | grammarPrefillFailed
deriving DecidableEq

/-- A token id that `enif_get_int` reads and `read_token_list` takes. -/
def readToken (v : Int) : Option { t : Token // t < 2 ^ 31 } :=
  if h : 0 ≤ v ∧ v < 2 ^ 31 then some ⟨v.toNat, (Int.toNat_lt h.1).mpr h.2⟩ else none

/-- `read_token_list`, where only the difference between success and failure is looked at. -/
def readTokenList (vs : List Int) : Option (List { t : Token // t < 2 ^ 31 }) :=
  if maxTriggerTokens < vs.length then none else vs.mapM readToken

/-- The grammar options as `build_sampler_chain` and `append_grammar_sampler` read them. -/
def readGrammar (cfg : GrammarCfg) : Except GrammarError GrammarReq :=
  if h : cfg.grammar = [] then .error .badarg
  else
    match readTokenList cfg.triggerTokens with
    | none        => .error .badarg
    | some tokens =>
      .ok {
        lazy := cfg.grammarLazy
        grammar := cfg.grammar
        patterns := cfg.triggerPatterns.map cString
        tokens := tokens.map Subtype.val
        prefill := cfg.grammarPrefill
        grammar_ne := h
        tokens_fit := by
          intro t ht
          obtain ⟨x, -, rfl⟩ := List.mem_map.mp ht
          exact x.2 }

/-- The template a request asks for. -/
inductive Template where
  | plain (grammar : Bytes)
  | onTrigger (grammar : Bytes) (patterns : List CString) (tokens : List Token)
deriving DecidableEq

namespace GrammarReq

/-- A pattern in the buffer. -/
def patternBytes (p : CString) : Bytes := p.1 ++ [0]

/-- What stands behind the grammar's NUL. -/
def triggerBytes (r : GrammarReq) : Bytes :=
  r.patterns.flatMap patternBytes ++ r.tokens.flatMap u32le

/-- Lazy, or with triggers: the request gets a buffer of its own. -/
def Tagged (r : GrammarReq) : Prop := r.lazy = true ∨ r.patterns ≠ [] ∨ r.tokens ≠ []

instance (r : GrammarReq) : Decidable r.Tagged := inferInstanceAs (Decidable (_ ∨ _ ∨ _))

/-- `[lazy-byte, grammar, 0, pattern 0, ..., tokens LE]`. -/
def taggedKey (r : GrammarReq) : Bytes :=
  (if r.lazy then 1 else 0) :: (r.grammar ++ 0 :: r.triggerBytes)

/-- The buffer the template is kept under. -/
def cacheKey (r : GrammarReq) : Bytes := if r.Tagged then r.taggedKey else r.grammar

/-- The triggers count only for a lazy grammar. -/
def template (r : GrammarReq) : Template :=
  if r.lazy then .onTrigger r.grammar r.patterns r.tokens else .plain r.grammar

end GrammarReq

/-! ### The cache -/

/-- FNV-1a 64-bit. -/
def grammarHash (bytes : Bytes) : UInt64 :=
  bytes.foldl (fun h b => (h ^^^ b.toUInt64) * 1099511628211) 1469598103934665603

/-- `erllama_grammar_cache_entry_t`; the length is that of the bytes. -/
structure CacheEntry (σ : Type) where
  bytes : Bytes
  hash : UInt64
  tmpl : σ
  lru : Nat

/-- The grammar cache of a context. -/
structure GrammarCache (σ : Type) where
  gcache : List (Option (CacheEntry σ))
  tick : Nat
  hits : Nat
  misses : Nat

/-- `ERLLAMA_GRAMMAR_CACHE_N`. -/
def grammarCacheN : Nat := 4

variable {σ : Type}

/-- The cache of a new context. -/
def GrammarCache.empty : GrammarCache σ := ⟨List.replicate grammarCacheN none, 0, 0, 0⟩

/-- The entry is for these bytes; the hash only filters. -/
def CacheEntry.Matches (e : CacheEntry σ) (bytes : Bytes) : Prop :=
  e.hash = grammarHash bytes ∧ e.bytes.length = bytes.length ∧ e.bytes = bytes

instance (e : CacheEntry σ) (bytes : Bytes) : Decidable (e.Matches bytes) :=
  inferInstanceAs (Decidable (_ ∧ _ ∧ _))

/-- The loop of `grammar_cache_get`: the first matching slot, with its use marked. -/
def findEntry (bytes : Bytes) (tick : Nat) :
    List (Option (CacheEntry σ)) → Option (σ × List (Option (CacheEntry σ)))
  | []             => none
  | none :: rest   => (findEntry bytes tick rest).map fun f => (f.1, none :: f.2)
  | some e :: rest =>
    if e.Matches bytes then some (e.tmpl, some { e with lru := tick } :: rest)
    else (findEntry bytes tick rest).map fun f => (f.1, some e :: f.2)

/-- `grammar_cache_get`. -/
def grammarCacheGet (c : GrammarCache σ) (bytes : Bytes) : Option σ × GrammarCache σ :=
  match findEntry bytes (c.tick + 1) c.gcache with
  | some (tmpl, slots) =>
    (some tmpl, { c with gcache := slots, tick := c.tick + 1, hits := c.hits + 1 })
  | none => (none, { c with misses := c.misses + 1 })

/-- The loop of `grammar_cache_put`: the first free slot, else the one used longest ago. -/
def findVictim (i victim oldest : Nat) : List (Option (CacheEntry σ)) → Nat
  | []             => victim
  | none :: _      => i
  | some e :: rest =>
    if e.lru < oldest then findVictim (i + 1) i e.lru rest
    else findVictim (i + 1) victim oldest rest

/-- `grammar_cache_put`. -/
def grammarCachePut (c : GrammarCache σ) (bytes : Bytes) (tmpl : σ) : GrammarCache σ :=
  let victim := findVictim 0 0 (2 ^ 64 - 1) c.gcache
  let e : CacheEntry σ := ⟨bytes, grammarHash bytes, tmpl, c.tick + 1⟩
  { c with gcache := c.gcache.set victim (some e), tick := c.tick + 1 }

/-- The llama.cpp calls of the grammar stage, of one vocabulary; `none` is a failure. -/
structure GrammarApi (σ : Type) where
  initGrammar : CString → Option σ
  initGrammarLazy : CString → List CString → List Token → Option σ
  clone : σ → Option σ
  acceptPrefill : σ → Bytes → Option σ

/-- The compiled template; the grammar is passed as a C string. -/
def GrammarApi.compile (api : GrammarApi σ) : Template → Option σ
  | .plain grammar                     => api.initGrammar (cString grammar)
  | .onTrigger grammar patterns tokens => api.initGrammarLazy (cString grammar) patterns tokens

/-- Cloning for the request, then the prefill of a grammar that is active from the start. -/
def cloneTemplate (api : GrammarApi σ) (r : GrammarReq) (tmpl : σ) : Except GrammarError σ :=
  match api.clone tmpl with
  | none   => .error .grammarFailed
  | some g =>
    if r.lazy || r.prefill.isEmpty then .ok g
    else
      match api.acceptPrefill g r.prefill with
      | none   => .error .grammarPrefillFailed
      | some g => .ok g

/-- `append_grammar_sampler`: the template the request was given, if any, what it appends to
    the chain, and the cache after it. -/
def appendGrammarSampler (api : GrammarApi σ) (r : GrammarReq) (c : GrammarCache σ) :
    Option σ × Except GrammarError σ × GrammarCache σ :=
  match grammarCacheGet c r.cacheKey with
  | (some tmpl, c) => (some tmpl, cloneTemplate api r tmpl, c)
  | (none, c) =>
    match api.compile r.template with
    | none      => (none, .error .grammarFailed, c)
    | some tmpl => (some tmpl, cloneTemplate api r tmpl, grammarCachePut c r.cacheKey tmpl)

/-! ### Buffers -/

namespace GrammarReq

variable {r s : GrammarReq}

/-- The bytes of a pattern can be told from what follows. -/
theorem patternBytes_instant : Instant patternBytes := .of_terminator fun p => p.2

/-- They tell the pattern. -/
theorem patternBytes_injective : Function.Injective patternBytes := fun _ _ h =>
  Subtype.ext (List.append_cancel_right h)

/-- Token ids that were read are told apart by their four bytes. -/
theorem tokens_of_bytes {ts us : List Token} (ht : ∀ t ∈ ts, t < 2 ^ 31)
    (hu : ∀ u ∈ us, u < 2 ^ 31) (h : ts.flatMap u32le = us.flatMap u32le) : ts = us := by
  have hread := decodeTokens_encodeTokens fun t htmem => (ht t htmem).trans (by decide)
  have hread' := decodeTokens_encodeTokens fun u humem => (hu u humem).trans (by decide)
  unfold encodeTokens at hread hread'
  rw [h, hread'] at hread
  exact (Option.some.inj hread).symm

/-- A token takes four bytes. -/
theorem length_tokenBytes (ts : List Token) : (ts.flatMap u32le).length = 4 * ts.length := by
  induction ts with
  | nil => rfl
  | cons t ts ih =>
    rw [List.flatMap_cons, List.length_append, length_u32le, ih, List.length_cons]
    omega

/-- **The ways to one buffer.** Two requests for different templates get one buffer when a
    plain grammar's text is the other one's whole buffer; when one grammar runs on behind a NUL
    where the other one's triggers stand; or when the additional patterns of one, with their
    NULs, are the additional leading tokens of the other. -/
inductive Overlap (r s : GrammarReq) : Prop
  | plainTagged (hr : ¬ r.Tagged) (hs : s.Tagged) (h : r.grammar = s.taggedKey)
  | grammarRunsOn (hr : r.Tagged) (hs : s.Tagged) (hlazy : r.lazy = s.lazy) (m : Bytes)
      (hg : s.grammar = r.grammar ++ 0 :: m) (ht : r.triggerBytes = m ++ 0 :: s.triggerBytes)
  | patternsRunOn (hr : r.lazy = true) (hs : s.lazy = true) (hg : r.grammar = s.grammar)
      (Q : List CString) (U : List Token) (hQ : Q ≠ []) (hp : s.patterns = r.patterns ++ Q)
      (ht : r.tokens = U ++ s.tokens) (hbytes : Q.flatMap patternBytes = U.flatMap u32le)

/-- A lazy grammar is tagged. -/
theorem tagged_of_lazy (h : r.lazy = true) : r.Tagged := .inl h

/-- The key of a tagged grammar. -/
theorem cacheKey_tagged (h : r.Tagged) : r.cacheKey = r.taggedKey := if_pos h

/-- The key of a grammar without options is its text. -/
theorem cacheKey_plain (h : ¬ r.Tagged) : r.cacheKey = r.grammar := if_neg h

/-- Templates are equal iff the flag and the text are, and for a lazy grammar the triggers. -/
theorem template_eq_iff : r.template = s.template ↔
    r.lazy = s.lazy ∧ r.grammar = s.grammar ∧
      (r.lazy = true → r.patterns = s.patterns ∧ r.tokens = s.tokens) := by
  unfold template
  cases hr : r.lazy <;> cases hs : s.lazy <;> simp

/-- Overlapping requests have one buffer … -/
theorem Overlap.cacheKey_eq (h : Overlap r s) : r.cacheKey = s.cacheKey := by
  cases h with
  | plainTagged hr hs h => rw [cacheKey_plain hr, cacheKey_tagged hs, h]
  | grammarRunsOn hr hs hlazy m hg ht =>
    rw [cacheKey_tagged hr, cacheKey_tagged hs]
    unfold taggedKey
    rw [hlazy, hg, ht, List.append_assoc, List.cons_append]
  | patternsRunOn hr hs hg Q U hQ hp ht hbytes =>
    rw [cacheKey_tagged (tagged_of_lazy hr), cacheKey_tagged (tagged_of_lazy hs)]
    unfold taggedKey triggerBytes
    rw [hr, hs, hg, hp, ht, List.flatMap_append, List.flatMap_append, hbytes,
      List.append_assoc]

/-- … and ask for different templates. -/
theorem Overlap.template_ne (h : Overlap r s) : r.template ≠ s.template := by
  intro heq
  obtain ⟨-, hgrammar, htriggers⟩ := template_eq_iff.mp heq
  cases h with
  | plainTagged hr hs h =>
    -- the buffer is longer than the grammar in it
    have hlen := congrArg List.length (hgrammar.symm.trans h)
    unfold taggedKey at hlen
    rw [List.length_cons, List.length_append, List.length_cons] at hlen
    omega
  | grammarRunsOn hr hs hlazy m hg ht =>
    have hlen := congrArg List.length (hgrammar.trans hg)
    rw [List.length_append, List.length_cons] at hlen
    omega
  | patternsRunOn hr hs hg Q U hQ hp ht hbytes =>
    have hpatterns := (htriggers hr).1.trans hp
    exact hQ (List.self_eq_append_right.mp hpatterns)

/-- Lazy requests with one grammar and one buffer have the same triggers, or overlap. -/
theorem triggers_eq (hr : r.lazy = true) (hs : s.lazy = true) (hg : r.grammar = s.grammar)
    (h : r.triggerBytes = s.triggerBytes) (hov : ¬ Overlap r s) (u : Bytes)
    (hp : r.patterns.flatMap patternBytes ++ u = s.patterns.flatMap patternBytes) :
    r.patterns = s.patterns ∧ r.tokens = s.tokens := by
  obtain ⟨P, Q, hsplit, hmap, hu⟩ := patternBytes_instant.flatMap_append hp
  have hP : r.patterns = P := List.map_injective_iff.mpr patternBytes_injective hmap
  rw [← hP] at hsplit
  -- what the patterns of the one leave over, the tokens of the other start with
  have hrest : r.tokens.flatMap u32le = Q.flatMap patternBytes ++ s.tokens.flatMap u32le := by
    unfold triggerBytes at h
    rw [hsplit, List.flatMap_append, List.append_assoc] at h
    exact List.append_cancel_left h
  have hlen := congrArg List.length hrest
  rw [List.length_append, length_tokenBytes, length_tokenBytes] at hlen
  have hbytes : (r.tokens.take (r.tokens.length - s.tokens.length)).flatMap u32le ++
      (r.tokens.drop (r.tokens.length - s.tokens.length)).flatMap u32le =
        Q.flatMap patternBytes ++ s.tokens.flatMap u32le := by
    rw [← List.flatMap_append, List.take_append_drop, hrest]
  have htail : ((r.tokens.drop (r.tokens.length - s.tokens.length)).flatMap u32le).length =
      (s.tokens.flatMap u32le).length := by
    rw [length_tokenBytes, length_tokenBytes, List.length_drop]
    omega
  obtain ⟨hfront, hback⟩ := List.append_inj' hbytes htail
  have htokens : r.tokens.drop (r.tokens.length - s.tokens.length) = s.tokens :=
    tokens_of_bytes (fun t ht => r.tokens_fit t (List.mem_of_mem_drop ht)) s.tokens_fit hback
  by_cases hQ : Q = []
  · subst hQ
    rw [List.append_nil] at hsplit
    rw [List.flatMap_nil, List.nil_append] at hrest
    exact ⟨hsplit.symm, tokens_of_bytes r.tokens_fit s.tokens_fit hrest⟩
  · have hcut := (List.take_append_drop (r.tokens.length - s.tokens.length) r.tokens).symm
    rw [htokens] at hcut
    exact absurd (.patternsRunOn hr hs hg Q _ hQ hsplit hcut hfront.symm) hov

/-- Tagged requests with one buffer ask for one template, or overlap. -/
theorem template_eq_of_taggedKey (hr : r.Tagged) (hs : s.Tagged)
    (h : r.taggedKey = s.taggedKey) (hrs : ¬ Overlap r s) (hsr : ¬ Overlap s r) :
    r.template = s.template := by
  obtain ⟨hbyte, hrest⟩ := List.cons.inj h
  have hlazy : r.lazy = s.lazy := by
    cases hl : r.lazy <;> cases hl' : s.lazy <;> simp [hl, hl'] at hbyte ⊢
  -- where one grammar is longer, it runs on behind the NUL of the other
  have hruns : ∀ {x y : GrammarReq} {w : Bytes}, x.Tagged → y.Tagged → x.lazy = y.lazy →
      y.grammar = x.grammar ++ w → 0 :: x.triggerBytes = w ++ 0 :: y.triggerBytes →
        ¬ Overlap x y → w = [] := by
    intro x y w hx hy hxy hg ht hov
    cases w with
    | nil => rfl
    | cons b m =>
      obtain ⟨rfl, hm⟩ := List.cons.inj ht
      exact absurd (.grammarRunsOn hx hy hxy m hg hm) hov
  have hboth : r.grammar = s.grammar ∧ r.triggerBytes = s.triggerBytes := by
    rcases List.append_eq_append_iff.mp hrest with ⟨w, hg, ht⟩ | ⟨w, hg, ht⟩
    · have hw := hruns hr hs hlazy hg ht hrs
      subst hw
      rw [List.append_nil] at hg
      exact ⟨hg.symm, (List.cons.inj ht).2⟩
    · have hw := hruns hs hr hlazy.symm hg ht hsr
      subst hw
      rw [List.append_nil] at hg
      exact ⟨hg, (List.cons.inj ht).2.symm⟩
  obtain ⟨hgrammar, htriggers⟩ := hboth
  refine template_eq_iff.mpr ⟨hlazy, hgrammar, fun hl => ?_⟩
  have hl' : s.lazy = true := hlazy ▸ hl
  have hbytes := htriggers
  unfold triggerBytes at hbytes
  rcases List.append_eq_append_iff.mp hbytes with ⟨u, hp, -⟩ | ⟨u, hp, -⟩
  · exact triggers_eq hl hl' hgrammar htriggers hrs u hp.symm
  · obtain ⟨hpatterns, htokens⟩ := triggers_eq hl' hl hgrammar.symm htriggers.symm hsr u hp.symm
    exact ⟨hpatterns.symm, htokens.symm⟩

/-- **Faithful buffers.** One buffer means one template exactly where the requests do not
    overlap, either way round. -/
theorem cacheKey_faithful_iff (r s : GrammarReq) :
    (r.cacheKey = s.cacheKey → r.template = s.template) ↔ ¬ Overlap r s ∧ ¬ Overlap s r := by
  constructor
  · intro h
    exact ⟨fun hov => hov.template_ne (h hov.cacheKey_eq),
      fun hov => hov.template_ne (h hov.cacheKey_eq.symm).symm⟩
  · rintro ⟨hrs, hsr⟩ h
    by_cases hr : r.Tagged
    · by_cases hs : s.Tagged
      · rw [cacheKey_tagged hr, cacheKey_tagged hs] at h
        exact template_eq_of_taggedKey hr hs h hrs hsr
      · rw [cacheKey_tagged hr, cacheKey_plain hs] at h
        exact absurd (.plainTagged hs hr h.symm) hsr
    · by_cases hs : s.Tagged
      · rw [cacheKey_plain hr, cacheKey_tagged hs] at h
        exact absurd (.plainTagged hr hs h) hrs
      · -- two plain grammars are their own buffers
        rw [cacheKey_plain hr, cacheKey_plain hs] at h
        have hplain : ∀ {x : GrammarReq}, ¬ x.Tagged → x.lazy = false := fun hx =>
          Bool.eq_false_iff.mpr fun hl => hx (.inl hl)
        refine template_eq_iff.mpr ⟨(hplain hr).trans (hplain hs).symm, h, fun hl => ?_⟩
        exact absurd (.inl hl) hr

end GrammarReq

/-! ### What the cache hands out -/

variable {api : GrammarApi σ}

/-- Every entry holds the template of a past request, under its buffer. -/
def Traced (api : GrammarApi σ) (past : List GrammarReq) (slots : List (Option (CacheEntry σ))) :
    Prop :=
  ∀ e, some e ∈ slots → ∃ r ∈ past, e.bytes = r.cacheKey ∧ api.compile r.template = some e.tmpl

/-- A hit comes from a matching entry, and changes only when the entry was used. -/
theorem findEntry_spec {bytes : Bytes} {tick : Nat} {slots slots' : List (Option (CacheEntry σ))}
    {tmpl : σ} (h : findEntry bytes tick slots = some (tmpl, slots')) :
    (∃ e, some e ∈ slots ∧ e.bytes = bytes ∧ e.tmpl = tmpl) ∧
      ∀ e', some e' ∈ slots' → ∃ e, some e ∈ slots ∧ e.bytes = e'.bytes ∧ e.tmpl = e'.tmpl := by
  induction slots generalizing slots' with
  | nil => exact nomatch h
  | cons slot rest ih =>
    -- behind the head, the loop goes on in the rest
    have hlater : ∀ {f : σ × List (Option (CacheEntry σ))}, findEntry bytes tick rest = some f →
        (f.1, slot :: f.2) = (tmpl, slots') →
        (∃ e, some e ∈ slot :: rest ∧ e.bytes = bytes ∧ e.tmpl = tmpl) ∧
          ∀ e', some e' ∈ slots' →
            ∃ e, some e ∈ slot :: rest ∧ e.bytes = e'.bytes ∧ e.tmpl = e'.tmpl := by
      rintro ⟨tmpl', slots'⟩ hf heq
      cases heq
      obtain ⟨⟨e, he, hkey⟩, hkept⟩ := ih hf
      refine ⟨⟨e, List.mem_cons_of_mem _ he, hkey⟩, fun e' he' => ?_⟩
      rcases List.mem_cons.mp he' with rfl | he'
      · exact ⟨e', List.mem_cons_self, rfl, rfl⟩
      · obtain ⟨e₀, he₀, hsame⟩ := hkept e' he'
        exact ⟨e₀, List.mem_cons_of_mem _ he₀, hsame⟩
    cases slot with
    | none =>
      obtain ⟨f, hf, heq⟩ := Option.map_eq_some_iff.mp h
      exact hlater hf heq
    | some e =>
      unfold findEntry at h
      by_cases hmatch : e.Matches bytes
      · rw [if_pos hmatch] at h
        cases h
        refine ⟨⟨e, List.mem_cons_self, hmatch.2.2, rfl⟩, fun e' he' => ?_⟩
        rcases List.mem_cons.mp he' with heq | he'
        · cases heq
          exact ⟨e, List.mem_cons_self, rfl, rfl⟩
        · exact ⟨e', List.mem_cons_of_mem _ he', rfl, rfl⟩
      · rw [if_neg hmatch] at h
        obtain ⟨f, hf, heq⟩ := Option.map_eq_some_iff.mp h
        exact hlater hf heq

/-- One request: what it is given was compiled for a request with its buffer, and the entries
    stay traced. -/
theorem appendGrammarSampler_traced {past : List GrammarReq} {r : GrammarReq}
    {c : GrammarCache σ} (h : Traced api past c.gcache) :
    Traced api (past ++ [r]) (appendGrammarSampler api r c).2.2.gcache ∧
      ∀ tmpl, (appendGrammarSampler api r c).1 = some tmpl →
        ∃ r' ∈ past ++ [r], r'.cacheKey = r.cacheKey ∧ api.compile r'.template = some tmpl := by
  have hmore : Traced api (past ++ [r]) c.gcache := by
    intro e he
    obtain ⟨r', hr', hfor⟩ := h e he
    exact ⟨r', List.mem_append_left _ hr', hfor⟩
  have hlast : r ∈ past ++ [r] := List.mem_append_right _ List.mem_cons_self
  unfold appendGrammarSampler grammarCacheGet
  cases hfind : findEntry r.cacheKey (c.tick + 1) c.gcache with
  | some f =>
    obtain ⟨tmpl, slots⟩ := f
    obtain ⟨⟨e, he, hkey, htmpl⟩, hkept⟩ := findEntry_spec hfind
    constructor
    · intro e' he'
      obtain ⟨e₀, he₀, hbytes, hsame⟩ := hkept e' he'
      rw [← hbytes, ← hsame]
      exact hmore e₀ he₀
    · rintro _ ⟨⟩
      obtain ⟨r', hr', hfor, hcompiled⟩ := hmore e he
      exact ⟨r', hr', hfor.symm.trans hkey, htmpl ▸ hcompiled⟩
  | none =>
    dsimp only
    cases hcompile : api.compile r.template with
    | none => exact ⟨hmore, nofun⟩
    | some tmpl =>
      constructor
      · intro e he
        -- the slot of the victim holds this request's template, the others are as before
        rcases List.mem_or_eq_of_mem_set he with he | heq
        · exact hmore e he
        · cases heq
          exact ⟨r, hlast, rfl, hcompile⟩
      · rintro _ ⟨⟩
        exact ⟨r, hlast, rfl, hcompile⟩

/-- The cache after a request. -/
def grammarStep (api : GrammarApi σ) (c : GrammarCache σ) (r : GrammarReq) : GrammarCache σ :=
  (appendGrammarSampler api r c).2.2

/-- **Every entry of the cache is traced** to the request that made it. -/
theorem run_traced (rs : List GrammarReq) :
    Traced api rs (Lib.run (grammarStep api) .empty rs).gcache := by
  induction rs using List.reverseRecOn with
  | nil =>
    intro e he
    exact nomatch List.eq_of_mem_replicate he
  | append_singleton rs r ih =>
    rw [Lib.run_append]
    exact (appendGrammarSampler_traced ih).1

/-- **The cache confuses only buffers.** After any requests, a template that is handed out was
    compiled for a request with the same buffer. -/
theorem run_served (rs : List GrammarReq) (r : GrammarReq) {tmpl : σ}
    (h : (appendGrammarSampler api r (Lib.run (grammarStep api) .empty rs)).1 = some tmpl) :
    ∃ r' ∈ rs ++ [r], r'.cacheKey = r.cacheKey ∧ api.compile r'.template = some tmpl :=
  (appendGrammarSampler_traced (run_traced rs)).2 tmpl h

/-- So a request that overlaps no earlier one is given its own template. -/
theorem run_serves_own (rs : List GrammarReq) (r : GrammarReq) {tmpl : σ}
    (hfree : ∀ r' ∈ rs, ¬ r'.Overlap r ∧ ¬ r.Overlap r')
    (h : (appendGrammarSampler api r (Lib.run (grammarStep api) .empty rs)).1 = some tmpl) :
    api.compile r.template = some tmpl := by
  obtain ⟨r', hr', hkey, hcompile⟩ := run_served rs r h
  rcases List.mem_append.mp hr' with hpast | hnow
  · rwa [(GrammarReq.cacheKey_faithful_iff r' r).mpr (hfree r' hpast) hkey] at hcompile
  · rwa [List.mem_singleton.mp hnow] at hcompile

/-! ### Two requests with one buffer -/

/-- A lazy grammar that waits for an `a` or for either of two empty patterns. -/
def patternTriggered : GrammarReq where
  lazy := true
  grammar := [114, 111, 111, 116, 58, 58, 61, 34, 120, 34]
  patterns := [⟨[97], by decide⟩, ⟨[], by decide⟩, ⟨[], by decide⟩]
  tokens := []
  prefill := []
  grammar_ne := by decide
  tokens_fit := by decide

/-- The same grammar, waiting for the token 97. -/
def tokenTriggered : GrammarReq where
  lazy := true
  grammar := [114, 111, 111, 116, 58, 58, 61, 34, 120, 34]
  patterns := []
  tokens := [97]
  prefill := []
  grammar_ne := by decide
  tokens_fit := by decide

/-- Compiling as keeping what was asked for. -/
def recordApi : GrammarApi Template where
  initGrammar g := some (.plain g.1)
  initGrammarLazy g patterns tokens := some (.onTrigger g.1 patterns tokens)
  clone := some
  acceptPrefill g _ := some g

/-- The options are well formed and share a buffer, and the second request is served the
    template of the first. -/
theorem tokenTriggered_served_patterns :
    readGrammar ⟨patternTriggered.grammar, true, [[97], [], []], [], []⟩ = .ok patternTriggered ∧
      readGrammar ⟨tokenTriggered.grammar, true, [], [97], []⟩ = .ok tokenTriggered ∧
      patternTriggered.cacheKey = tokenTriggered.cacheKey ∧
      patternTriggered.template ≠ tokenTriggered.template ∧
      (appendGrammarSampler recordApi tokenTriggered
        (Lib.run (grammarStep recordApi) .empty [patternTriggered])).1 =
          some patternTriggered.template :=
  ⟨rfl, rfl, by decide, by decide, by decide⟩

end Erllama.Native
