import Erllama.Model.Lora
import Erllama.Model.Unarmed
import Erllama.Native.Inspect
import Erllama.Native.Loras

namespace Erllama.Native

open Lib Model

/-!
# Native adapters (`erllama_nif_adapter.c`)

The backend loads and frees adapters, and installs them on the context; the process keeps the
list that it believes to be installed.  An operation is two calls, and the list is changed after
the second.

* `Loras` — the adapters of a model, and what is installed on its context.
* `nifAdapterLoad`, `nifAdapterFree`, `nifSetAdapters`, `nifNewContext` — the calls.
* `withLoras` — the adapter callbacks of the backend over them.
* `Believed` — the process's list is what is installed, and its adapters are live.
* `run_believed` — it stays so, but for four kinds of steps.
-/

/-- How the library's `llama_set_adapters_lora` throws: before it clears what is installed, or
    with the first `k` of the new adapters put in. -/
inductive ApplyFault where
  | early
  | midway (k : Nat)
deriving DecidableEq

/-- The adapter wrappers of a model that were not freed, and the adapters and scales that the
    context holds.  The library keeps these as a map; here they stand in the order of the call
    that put them in.  What the coming calls of the library answer are inputs; past the end of a
    list they work. -/
structure Loras where
  next : Ref
  live : List Ref
  /-- A new wrapper is none of those that are live. -/
  fresh : ∀ h ∈ live, h < next
  installed : List (Ref × ℚ)
  tidy : TidyLoras installed
  loadFails : List Bool
  applyFaults : List (Option ApplyFault)
  openFails : List Bool

/-- `load_failed`. -/
def loadFailed : Reason := .other 13

/-- `nif_adapter_load`. -/
def nifAdapterLoad (l : Loras) : Except Reason Ref × Loras :=
  let l' := { l with loadFails := l.loadFails.tail }
  if l.loadFails.head? = some true then (.error loadFailed, l')
  else
    (.ok l.next, { l' with
      next := l.next + 1
      live := l.next :: l.live
      fresh := fun h hmem => by
        rcases List.mem_cons.mp hmem with rfl | hmem
        · exact Nat.lt_succ_self _
        · exact Nat.lt_succ_of_lt (l.fresh h hmem) })

/-- `nif_adapter_free`. -/
def nifAdapterFree (l : Loras) (h : Ref) : Except NifError Unit × Loras :=
  if h ∈ l.live then
    (.ok (), { l with
      live := l.live.filter (· ≠ h)
      fresh := fun h hmem => l.fresh h (List.mem_of_mem_filter hmem) })
  else (.error .released, l)

/-- `nif_set_adapters`: all of the wrappers must be live.  A call for the set that is there
    already changes nothing of it; a process names no adapter twice, so the library does not take
    another set for it (`applyLoras_perm`). -/
def nifSetAdapters (l : Loras) (pairs : List (Ref × ℚ)) : Except NifError Unit × Loras :=
  -- every adapter is looked up before the first call of the library
  if ∀ a ∈ pairs, a.1 ∈ l.live then
    let l' := { l with applyFaults := l.applyFaults.tail }
    match l.applyFaults.head?.join with
    | none =>
      (.ok (), { l' with
        installed := putLoras pairs
        tidy := putLoras_tidy pairs })
    -- it fails before the installed set is cleared
    | some .early => (.error .exception, l')
    -- or with the first `k` pairs put in
    | some (.midway k) =>
      (.error .exception, { l' with
        installed := putLoras (pairs.take k)
        tidy := putLoras_tidy (pairs.take k) })
  else (.error .released, l)

/-- `nif_free_context` and `nif_new_context`: nothing is installed on a fresh context. -/
def nifNewContext (l : Loras) : Except Reason Unit × Loras :=
  let l' := { l with
    installed := []
    tidy := ⟨List.nodup_nil, nofun⟩
    openFails := l.openFails.tail }
  if l.openFails.head? = some true then (.error (NifError.reason .exception), l') else (.ok (), l')

/-- A load gives a new wrapper, or fails. -/
theorem nifAdapterLoad_spec (l : Loras) :
    (nifAdapterLoad l).2.installed = l.installed ∧
      (nifAdapterLoad l).2.applyFaults = l.applyFaults ∧
      ((nifAdapterLoad l).1 = .ok l.next ∧ (nifAdapterLoad l).2.live = l.next :: l.live ∨
        (nifAdapterLoad l).1 = .error loadFailed ∧ (nifAdapterLoad l).2.live = l.live) := by
  unfold nifAdapterLoad
  dsimp only
  split
  · exact ⟨rfl, rfl, .inr ⟨rfl, rfl⟩⟩
  · exact ⟨rfl, rfl, .inl ⟨rfl, rfl⟩⟩

/-- After a free the wrapper is not live, and the others are as before. -/
theorem nifAdapterFree_spec (l : Loras) (h : Ref) :
    (nifAdapterFree l h).2.installed = l.installed ∧
      (nifAdapterFree l h).2.applyFaults = l.applyFaults ∧
      ∀ h', h' ∈ (nifAdapterFree l h).2.live ↔ h' ∈ l.live ∧ h' ≠ h := by
  unfold nifAdapterFree
  split
  case isTrue => exact ⟨rfl, rfl, fun h' => by simp⟩
  case isFalse hdead =>
    refine ⟨rfl, rfl, fun h' => ⟨fun hlive => ⟨hlive, ?_⟩, And.left⟩⟩
    rintro rfl
    exact hdead hlive

variable {Row Smp ε : Type}

/-- The parts of the library with these adapters: `load_adapter/2`, `unload_adapter/2`, which
    takes an adapter that is already freed as freed, and `apply_adapters/2`. -/
def withLoras (rest : Parts ε) : Parts (Loras × ε) where
  tokenize := rest.tokenize
  detokenize := rest.detokenize
  thinkingSignature := rest.thinkingSignature
  thinkingStart := rest.thinkingStart
  thinkingEnd := rest.thinkingEnd
  mediaCaps := rest.mediaCaps
  specNew s cfg := ((rest.specNew s.2 cfg).1, (s.1, (rest.specNew s.2 cfg).2))
  specBegin s ref q prompt :=
    ((rest.specBegin s.2 ref q prompt).1, (s.1, (rest.specBegin s.2 ref q prompt).2))
  specDraft s ref q last delta :=
    ((rest.specDraft s.2 ref q last delta).1, (s.1, (rest.specDraft s.2 ref q last delta).2))
  specAccept s ref q n := (s.1, rest.specAccept s.2 ref q n)
  specFree s ref := (s.1, rest.specFree s.2 ref)
  adapterLoad s _ _ := ((nifAdapterLoad s.1).1, ((nifAdapterLoad s.1).2, s.2))
  adapterFree s ref :=
    let res := nifAdapterFree s.1 ref
    match res.1 with
    | .error .released => (.ok (), (res.2, s.2))
    | .error e         => (.error e.reason, (res.2, s.2))
    | .ok _            => (.ok (), (res.2, s.2))
  setAdapters s pairs :=
    let res := nifSetAdapters s.1 pairs
    (res.1.mapError NifError.reason, (res.2, s.2))
  newContext s := ((nifNewContext s.1).1, ((nifNewContext s.1).2, s.2))

/-- An adapter that is freed already is as good as freed. -/
theorem adapterFree_eq (rest : Parts ε) (s : Loras × ε) (h : Ref) :
    (withLoras rest).adapterFree s h = (.ok (), ((nifAdapterFree s.1 h).2, s.2)) := by
  unfold withLoras
  dsimp only
  by_cases hlive : h ∈ s.1.live
  · have hfree : nifAdapterFree s.1 h = _ := if_pos hlive
    rw [hfree]
  · have hfree : nifAdapterFree s.1 h = _ := if_neg hlive
    rw [hfree]

variable {γ Sid : Type}

/-- The process over these adapters. -/
def loraEnv (p : Params Row Smp) (rest : Parts ε) (cache : CacheClient γ) (sha256 : Bytes → Digest)
    (cfg : Config) : Env (Llama Smp (Loras × ε)) γ :=
  llamaEnv p (withLoras rest) cache sha256 cfg

/-- The adapters are left alone by the other calls. -/
def loraView (p : Params Row Smp) (rest : Parts ε) (cache : CacheClient γ)
    (sha256 : Bytes → Digest) (cfg : Config) :
    CtxView (loraEnv p rest cache sha256 cfg).unarmed.be Loras where
  view x := x.parts.1
  silent h := by
    induction h with
    | refl => rfl
    | samplerNew hf | samplerFree hf | specNew hf | specBegin hf | specDraft hf | specAccept hf
    | specFree hf =>
      cases hf
      rfl
    | trans _ _ ih ih' => exact ih'.trans ih
  seqOps h := by
    induction h with
    | refl | unpack => rfl
    | rm hf | clear _ hf | rmLast hf | rmLastSeq0 _ hf =>
      cases hf
      rfl
    | trans _ _ ih ih' => exact ih'.trans ih
  seqCp hf _ _ _ := by
    cases hf
    rfl
  step _ _ := rfl
  specStep hcb _ _ _ _ := by
    cases hcb
    rfl
  prefill hcb _ _ _ _ _ := by
    cases hcb
    unfold llamaMedia
    dsimp only
    split <;> rfl
  inspect h := by
    cases h with
    | verify hf | embed hf =>
      cases hf
      rfl

/-! ### What the process believes -/

/-- The adapters behind the context. -/
def lorasOf (d : Data (Llama Smp (Loras × ε)) γ Sid) : Loras := d.sys.ctx.parts.1

/-- Other adapters behind the context. -/
def setLoras (d : Data (Llama Smp (Loras × ε)) γ Sid) (l : Loras) :
    Data (Llama Smp (Loras × ε)) γ Sid :=
  withSys d { d.sys with ctx := { d.sys.ctx with parts := (l, d.sys.ctx.parts.2) } }

/-- What is set is there. -/
@[simp] theorem lorasOf_setLoras (d : Data (Llama Smp (Loras × ε)) γ Sid) (l : Loras) :
    lorasOf (setLoras d l) = l := rfl

/-- The handles and scales of an adapter list. -/
def pairsOf (adapters : List Adapter) : List (Ref × ℚ) := adapters.map fun a => (a.handle, a.scale)

/-- The adapter list of the process is what is installed, its adapters are live, and the
    effective fingerprint is theirs. -/
structure Believed (env : Env (Llama Smp (Loras × ε)) γ)
    (d : Data (Llama Smp (Loras × ε)) γ Sid) : Prop where
  installed : (lorasOf d).installed = pairsOf d.adapters
  live : ∀ a ∈ d.adapters, a.handle ∈ (lorasOf d).live
  effective : d.effectiveFp = fpOf env (shaScales d.adapters)

/-- Nothing that the process believes, or that is installed, was touched. -/
structure LorasKept (d d' : Data (Llama Smp (Loras × ε)) γ Sid) : Prop where
  installed : (lorasOf d').installed = (lorasOf d).installed
  adapters : d'.adapters = d.adapters
  effectiveFp : d'.effectiveFp = d.effectiveFp
  live : ∀ a ∈ d.adapters, a.handle ∈ (lorasOf d).live → a.handle ∈ (lorasOf d').live

/-- The outcome of an adapter operation: what is believed is so, and an error touched nothing. -/
structure Settles (env : Env (Llama Smp (Loras × ε)) γ) (d : Data (Llama Smp (Loras × ε)) γ Sid)
    (res : Reply × Data (Llama Smp (Loras × ε)) γ Sid) : Prop where
  believed : Believed env res.2
  unmoved : ∀ e, res.1 = .error e → LorasKept d res.2

/-- The coming installation is not cut midway. -/
def AppliesWhole (d : Data (Llama Smp (Loras × ε)) γ Sid) : Prop :=
  ∀ k, (lorasOf d).applyFaults.head?.join ≠ some (.midway k)

/-- The next call does not fail midway. -/
theorem AppliesWhole.of_head {d : Data (Llama Smp (Loras × ε)) γ Sid} {fault : Option ApplyFault}
    (h : (lorasOf d).applyFaults.head?.join = fault) (hfault : ∀ k, fault ≠ some (.midway k)) :
    AppliesWhole d := by
  intro k
  rw [h]
  exact hfault k

section Find

variable {handle : Ref} {adapters rest : List Adapter} {entry : Adapter}

/-- The rest is the list without the handle. -/
theorem findAdapter_rest (h : findAdapter handle adapters = some (entry, rest)) :
    ∀ a ∈ rest, a ∈ adapters ∧ a.handle ≠ handle := by
  obtain ⟨-, -, rfl⟩ := findAdapter_some h
  exact fun a ha => ⟨List.mem_of_mem_filter ha, of_decide_eq_true (List.mem_filter.mp ha).2⟩

/-- An attached adapter is found. -/
theorem findAdapter_of_mem {a : Adapter} (ha : a ∈ adapters) :
    ∃ entry rest, findAdapter a.handle adapters = some (entry, rest) := by
  have hfound : (adapters.find? fun b => b.handle = a.handle).isSome :=
    List.find?_isSome.mpr ⟨a, ha, decide_eq_true rfl⟩
  obtain ⟨entry, hentry⟩ := Option.isSome_iff_exists.mp hfound
  exact ⟨entry, _, by rw [findAdapter, hentry]; rfl⟩

end Find

section Tidy

variable {adapters : List Adapter}

/-- A tidy list without one handle. -/
theorem TidyLoras.filter (h : TidyLoras (pairsOf adapters)) (handle : Ref) :
    TidyLoras (pairsOf (adapters.filter fun a => a.handle ≠ handle)) where
  nodup := h.nodup.sublist ((List.filter_sublist.map _).map _)
  scales := by
    intro a ha
    obtain ⟨b, hb, rfl⟩ := List.mem_map.mp ha
    exact h.scales _ (List.mem_map_of_mem (List.mem_of_mem_filter hb))

/-- A tidy list with one more adapter. -/
theorem TidyLoras.append (h : TidyLoras (pairsOf adapters)) {a : Adapter} (hscale : a.scale ≠ 0)
    (hnew : ∀ b ∈ adapters, b.handle ≠ a.handle) : TidyLoras (pairsOf (adapters ++ [a])) where
  nodup := by
    unfold pairsOf
    rw [List.map_append, List.map_append, List.nodup_append]
    refine ⟨h.nodup, List.nodup_singleton _, fun x hx y hy heq => ?_⟩
    rw [List.map_map] at hx
    obtain ⟨b, hb, rfl⟩ := List.mem_map.mp hx
    exact hnew b hb (heq.trans (List.mem_singleton.mp hy))
  scales := by
    intro b hb
    obtain ⟨c, hc, rfl⟩ := List.mem_map.mp hb
    rcases List.mem_append.mp hc with hold | hone
    · exact h.scales _ (List.mem_map_of_mem hold)
    · rw [List.mem_singleton.mp hone]
      exact hscale

end Tidy

section Operations

variable {env : Env (Llama Smp (Loras × ε)) γ} {d d' d'' : Data (Llama Smp (Loras × ε)) γ Sid}

/-- Nothing happened. -/
theorem LorasKept.refl (d : Data (Llama Smp (Loras × ε)) γ Sid) : LorasKept d d :=
  ⟨rfl, rfl, rfl, fun _ _ h => h⟩

/-- The process believes what it believed. -/
theorem LorasKept.believed (h : LorasKept d d') (hd : Believed env d) : Believed env d' where
  installed := by rw [h.installed, h.adapters, hd.installed]
  live a ha := by
    rw [h.adapters] at ha
    exact h.live a ha (hd.live a ha)
  effective := by rw [h.effectiveFp, h.adapters, hd.effective]

/-- One function after another. -/
theorem LorasKept.trans (h : LorasKept d d') (h' : LorasKept d' d'') : LorasKept d d'' where
  installed := h'.installed.trans h.installed
  adapters := h'.adapters.trans h.adapters
  effectiveFp := h'.effectiveFp.trans h.effectiveFp
  live a ha hlive := h'.live a (h.adapters ▸ ha) (h.live a ha hlive)

/-- What comes after a call that touched nothing. -/
theorem Settles.after {res : Reply × Data (Llama Smp (Loras × ε)) γ Sid}
    (h : Settles env d' res) (hkept : LorasKept d d') : Settles env d res :=
  ⟨h.believed, fun e he => hkept.trans (h.unmoved e he)⟩

/-- An operation that failed and touched nothing. -/
theorem Settles.failed (hd : Believed env d) (h : LorasKept d d') (r : Reply) :
    Settles env d (r, d') :=
  ⟨h.believed hd, fun _ _ => h⟩

/-- A believed list is tidy: it is what the library holds. -/
theorem Believed.tidy (hd : Believed env d) : TidyLoras (pairsOf d.adapters) :=
  hd.installed ▸ (lorasOf d).tidy

/-- The list is recorded, and the library holds what it makes of it. -/
structure LorasChanged (env : Env (Llama Smp (Loras × ε)) γ) (new : List Adapter)
    (d d' : Data (Llama Smp (Loras × ε)) γ Sid) : Prop where
  adapters : d'.adapters = new
  installed : (lorasOf d').installed = putLoras (pairsOf new)
  live : (lorasOf d').live = (lorasOf d).live
  effective : d'.effectiveFp = fpOf env (shaScales new)

/-- After the adapters were changed, the process knows what is installed. -/
theorem LorasChanged.believed {adapters : List Adapter} (h : LorasChanged env adapters d d')
    (htidy : TidyLoras (pairsOf adapters)) (hlive : ∀ a ∈ adapters, a.handle ∈ (lorasOf d).live) :
    Believed env d' where
  installed := by rw [h.installed, h.adapters, putLoras_eq htidy]
  live := by
    rw [h.adapters, h.live]
    exact hlive
  effective := by rw [h.effective, h.adapters]

variable {p : Params Row Smp} {rest : Parts ε} {cache : CacheClient γ} {sha256 : Bytes → Digest}
  {cfg : Config} (henv : env = loraEnv p rest cache sha256 cfg)

include henv

/-- Applying a list of live adapters: it is installed and recorded, or the record stays. -/
theorem changeAdapters_cases (d : Data (Llama Smp (Loras × ε)) γ Sid) (adapters : List Adapter)
    (onOk : Reply) (hlive : ∀ a ∈ adapters, a.handle ∈ (lorasOf d).live) :
    match (lorasOf d).applyFaults.head?.join with
    | none => (changeAdapters env d adapters onOk).1 = onOk ∧
        LorasChanged env adapters d (changeAdapters env d adapters onOk).2
    | some fault => (∃ e, (changeAdapters env d adapters onOk).1 = .error e) ∧
        (changeAdapters env d adapters onOk).2.adapters = d.adapters ∧
        (changeAdapters env d adapters onOk).2.effectiveFp = d.effectiveFp ∧
        (lorasOf (changeAdapters env d adapters onOk).2).live = (lorasOf d).live ∧
        (fault = .early →
          (lorasOf (changeAdapters env d adapters onOk).2).installed = (lorasOf d).installed) := by
  subst henv
  have hall : ∀ a ∈ pairsOf adapters, a.1 ∈ (lorasOf d).live := by
    intro a ha
    obtain ⟨b, hb, rfl⟩ := List.mem_map.mp ha
    exact hlive b hb
  have hlib : (loraEnv p rest cache sha256 cfg).be.applyAdapters
      = some fun s pairs => onParts ((withLoras rest).setAdapters · pairs) s := rfl
  have hcall : nifSetAdapters d.sys.ctx.parts.1 (adapters.map fun a => (a.handle, a.scale)) = _ :=
    if_pos hall
  unfold changeAdapters applyAndRecompute
  rw [hlib]
  dsimp only [onParts, withLoras, lorasOf]
  rw [hcall]
  generalize d.sys.ctx.parts.1.applyFaults.head?.join = fault
  cases fault with
  | none => exact ⟨rfl, rfl, rfl, rfl, rfl⟩
  | some fault =>
    cases fault with
    | early => exact ⟨⟨_, rfl⟩, rfl, rfl, rfl, fun _ => rfl⟩
    | midway k => exact ⟨⟨_, rfl⟩, rfl, rfl, rfl, nofun⟩

/-- **Applying a list** keeps what is believed, unless the library throws midway or makes
    something else of the list. -/
theorem changeAdapters_settles (hd : Believed env d) (hwhole : AppliesWhole d)
    (adapters : List Adapter)
    (htidy : (lorasOf d).applyFaults.head?.join = none → TidyLoras (pairsOf adapters))
    (hlive : ∀ a ∈ adapters, a.handle ∈ (lorasOf d).live) (onOk : Reply)
    (honOk : ∀ e, onOk ≠ .error e) : Settles env d (changeAdapters env d adapters onOk) := by
  have hcases := changeAdapters_cases henv d adapters onOk hlive
  cases hfault : (lorasOf d).applyFaults.head?.join with
  | none =>
    rw [hfault] at hcases
    exact ⟨hcases.2.believed (htidy hfault) hlive,
      fun e he => absurd (hcases.1.symm.trans he) (honOk e)⟩
  | some fault =>
    rw [hfault] at hcases
    obtain ⟨-, hadapters, hfp, hlive', hinstalled⟩ := hcases
    cases fault with
    | early =>
      have hkept : LorasKept d (changeAdapters env d adapters onOk).2 :=
        ⟨hinstalled rfl, hadapters, hfp, fun a _ ha => by rwa [hlive']⟩
      exact ⟨hkept.believed hd, fun _ _ => hkept⟩
    | midway k => exact absurd hfault (hwhole k)

/-- Loading an adapter makes one and installs it with the others. -/
theorem loadAdapter_eq (path : Path) (content : Bytes) :
    loadAdapter env d path (some content) =
      match (nifAdapterLoad (lorasOf d)).1 with
      | .ok handle =>
        changeAdapters env (setLoras d (nifAdapterLoad (lorasOf d)).2)
          (d.adapters ++ [⟨handle, env.sha256 content, 1⟩]) (.adapter handle)
      | .error e => (.error (.backend e), setLoras d (nifAdapterLoad (lorasOf d)).2) := by
  subst henv
  rfl

/-- Loading an adapter settles what is installed. -/
theorem loadAdapter_settles (hd : Believed env d) (hwhole : AppliesWhole d) (path : Path)
    (file : Option Bytes) : Settles env d (loadAdapter env d path file) := by
  cases file with
  | none =>
    rw [henv]
    exact .failed (henv ▸ hd) (.refl d) _
  | some content =>
    rw [loadAdapter_eq henv]
    obtain ⟨hinstalled, hfaults, hload⟩ := nifAdapterLoad_spec (lorasOf d)
    generalize nifAdapterLoad (lorasOf d) = res at hinstalled hfaults hload
    obtain ⟨answer, l⟩ := res
    dsimp only at hinstalled hfaults hload ⊢
    rcases hload with ⟨rfl, hlive⟩ | ⟨rfl, hlive⟩
    · -- the new wrapper is live, and so are the old ones
      have hkept : LorasKept d (setLoras d l) := by
        refine ⟨hinstalled, rfl, rfl, fun a _ ha => ?_⟩
        rw [lorasOf_setLoras, hlive]
        exact List.mem_cons_of_mem _ ha
      have hwhole' : AppliesWhole (setLoras d l) := fun k => by
        rw [lorasOf_setLoras, hfaults]
        exact hwhole k
      refine (changeAdapters_settles henv (hkept.believed hd) hwhole' _ (fun _ => ?_) ?_
        (.adapter _) nofun).after hkept
      · refine hd.tidy.append one_ne_zero fun a ha => ?_
        exact Nat.ne_of_lt ((lorasOf d).fresh a.handle (hd.live a ha))
      · intro a ha
        rw [lorasOf_setLoras, hlive]
        rcases List.mem_append.mp ha with hold | hnew
        · exact List.mem_cons_of_mem _ (hd.live a hold)
        · rw [List.mem_singleton.mp hnew]
          exact List.mem_cons_self
    · have hkept : LorasKept d (setLoras d l) := by
        refine ⟨hinstalled, rfl, rfl, fun a _ ha => ?_⟩
        rw [lorasOf_setLoras, hlive]
        exact ha
      exact .failed hd hkept _

/-- **A scale of zero is not installed**: the change must fail before the library gets to it, or
    be for no attached adapter. -/
theorem setAdapterScale_settles (hd : Believed env d) (hwhole : AppliesWhole d) (handle : Ref)
    (scale : ℚ) (hzero : scale = 0 → (∃ a ∈ d.adapters, a.handle = handle) →
      (lorasOf d).applyFaults.head?.join ≠ none) :
    Settles env d (setAdapterScale env d handle scale) := by
  unfold setAdapterScale
  cases hfind : findAdapter handle d.adapters with
  | none => exact .failed hd (.refl d) _
  | some found =>
    obtain ⟨entry, rest'⟩ := found
    obtain ⟨hentry, hhandle, hrest⟩ := findAdapter_some hfind
    refine changeAdapters_settles henv hd hwhole _ (fun hnone => ?_) (fun a ha => ?_) .ok nofun
    · have hscale : scale ≠ 0 := fun h => hzero h ⟨entry, hentry, hhandle⟩ hnone
      have htidy : TidyLoras (pairsOf rest') := by
        rw [hrest]
        exact hd.tidy.filter handle
      refine htidy.append hscale fun a ha => ?_
      rw [hhandle]
      exact (findAdapter_rest hfind a ha).2
    · rcases List.mem_append.mp ha with hold | hnew
      · exact hd.live a (findAdapter_rest hfind a hold).1
      · rw [List.mem_singleton.mp hnew]
        exact hd.live entry hentry

/-- Where the change is applied, the process goes on believing in an adapter of scale zero, which
    is not installed. -/
theorem setAdapterScale_spoils (hd : Believed env d) {a : Adapter} (ha : a ∈ d.adapters)
    (hnone : (lorasOf d).applyFaults.head?.join = none) :
    ¬ Believed env (setAdapterScale env d a.handle 0).2 := by
  obtain ⟨entry, rest', hfind⟩ := findAdapter_of_mem ha
  obtain ⟨hentry, -, -⟩ := findAdapter_some hfind
  have hlive : ∀ b ∈ rest' ++ [{ entry with scale := 0 }], b.handle ∈ (lorasOf d).live := by
    intro b hb
    rcases List.mem_append.mp hb with hold | hnew
    · exact hd.live b (findAdapter_rest hfind b hold).1
    · rw [List.mem_singleton.mp hnew]
      exact hd.live entry hentry
  have hcases := changeAdapters_cases henv d _ .ok hlive
  rw [hnone] at hcases
  obtain ⟨-, hchanged⟩ := hcases
  unfold setAdapterScale
  rw [hfind]
  intro hbelieved
  have htidy := hbelieved.tidy
  rw [hchanged.adapters] at htidy
  exact htidy.scales (entry.handle, 0) (by simp [pairsOf]) rfl

/-- Unloading an adapter installs the others and frees it. -/
theorem unloadAdapter_eq {handle : Ref} {entry : Adapter} {rest' : List Adapter}
    (hfind : findAdapter handle d.adapters = some (entry, rest')) :
    unloadAdapter env d handle =
      changeAdapters env (setLoras d (nifAdapterFree (lorasOf d) handle).2) rest' .ok := by
  have hlib : env.be.unloadAdapter
      = some fun s ref => onParts ((withLoras rest).adapterFree · ref) s := by
    rw [henv]
    rfl
  unfold unloadAdapter
  rw [hfind, hlib]
  dsimp only [onParts]
  rw [adapterFree_eq]
  rfl

/-- **A free that goes through needs its apply.** -/
theorem unloadAdapter_settles (hd : Believed env d) (handle : Ref)
    (happlies : (∃ a ∈ d.adapters, a.handle = handle) → (lorasOf d).applyFaults.head?.join = none) :
    Settles env d (unloadAdapter env d handle) := by
  cases hfind : findAdapter handle d.adapters with
  | none =>
    unfold unloadAdapter
    rw [hfind]
    exact ⟨hd, nofun⟩
  | some found =>
    obtain ⟨entry, rest'⟩ := found
    obtain ⟨hentry, hhandle, hrest⟩ := findAdapter_some hfind
    rw [unloadAdapter_eq henv hfind]
    obtain ⟨hinstalled, hfaults, hlive⟩ := nifAdapterFree_spec (lorasOf d) handle
    have hrest' : ∀ a ∈ rest', a.handle ∈ (nifAdapterFree (lorasOf d) handle).2.live := by
      intro a ha
      obtain ⟨hmem, hne⟩ := findAdapter_rest hfind a ha
      exact (hlive _).mpr ⟨hd.live a hmem, hne⟩
    have htidy : TidyLoras (pairsOf rest') := by
      rw [hrest]
      exact hd.tidy.filter handle
    have hcases := changeAdapters_cases henv
      (setLoras d (nifAdapterFree (lorasOf d) handle).2) rest' .ok hrest'
    rw [lorasOf_setLoras, hfaults, happlies ⟨entry, hentry, hhandle⟩] at hcases
    exact ⟨hcases.2.believed htidy hrest', fun e he => absurd (hcases.1.symm.trans he) nofun⟩

/-- Where the apply fails, the process goes on believing in an adapter that it freed. -/
theorem unloadAdapter_spoils (hd : Believed env d) {a : Adapter} (ha : a ∈ d.adapters)
    {fault : ApplyFault} (hfault : (lorasOf d).applyFaults.head?.join = some fault) :
    ¬ Believed env (unloadAdapter env d a.handle).2 := by
  obtain ⟨entry, rest', hfind⟩ := findAdapter_of_mem ha
  rw [unloadAdapter_eq henv hfind]
  obtain ⟨-, hfaults, hlive⟩ := nifAdapterFree_spec (lorasOf d) a.handle
  have hrest' : ∀ b ∈ rest', b.handle ∈ (nifAdapterFree (lorasOf d) a.handle).2.live := by
    intro b hb
    obtain ⟨hmem, hne⟩ := findAdapter_rest hfind b hb
    exact (hlive _).mpr ⟨hd.live b hmem, hne⟩
  have hcases := changeAdapters_cases henv
    (setLoras d (nifAdapterFree (lorasOf d) a.handle).2) rest' .ok hrest'
  rw [lorasOf_setLoras, hfaults, hfault] at hcases
  obtain ⟨-, hadapters, -, hlive', -⟩ := hcases
  intro hbelieved
  have hdead := hbelieved.live a (hadapters ▸ ha)
  rw [hlive', hlive] at hdead
  exact hdead.2 rfl

end Operations

/-! ### Runs -/

section Runs

variable [LinearOrder Sid]

/-- The steps that keep the process's belief: no apply is cut midway, no attached adapter is
    given the scale zero, no apply fails after a free, and no recovery finds adapters in the
    list. -/
def Harmless (env : Env (Llama Smp (Loras × ε)) γ) (s : Proc (Llama Smp (Loras × ε)) γ Sid) :
    Event Sid → Prop
  | .loadAdapter _ _ _ => AppliesWhole s.data
  | .setAdapterScale _ handle scale => AppliesWhole s.data ∧
      (scale = 0 → (∃ a ∈ s.data.adapters, a.handle = handle) →
        (lorasOf s.data).applyFaults.head?.join ≠ none)
  | .unloadAdapter _ handle => (∃ a ∈ s.data.adapters, a.handle = handle) →
      (lorasOf s.data).applyFaults.head?.join = none
  | .tick => RecoversBare env s
  | _ => True

/-- The last message is an error. -/
def AnsweredError (d : Data (Llama Smp (Loras × ε)) γ Sid) : Prop :=
  ∃ frm e, d.sys.out.getLast? = some (.reply frm (.error e))

/-- What a live process believes after a step is so, and an adapter call that is answered with
    an error touched nothing. -/
structure BelievedAfter (env : Env (Llama Smp (Loras × ε)) γ)
    (s : Proc (Llama Smp (Loras × ε)) γ Sid) (e : Event Sid) : Prop where
  believed : (step env s e).phase ≠ .stopped → Believed env (step env s e).data
  kept : IsAdapterCall e → AnsweredError (step env s e).data →
    LorasKept s.data (step env s e).data

variable {env : Env (Llama Smp (Loras × ε)) γ} {s : Proc (Llama Smp (Loras × ε)) γ Sid}
  {e : Event Sid}

/-- The reply of an adapter operation. -/
theorem Settles.reply {res : Reply × Data (Llama Smp (Loras × ε)) γ Sid}
    (h : Settles env s.data res) {frm : From} (hstep : step env s e = replyWith s frm res) :
    BelievedAfter env s e := by
  obtain ⟨⟨hinstalled, hlive, heffective⟩, hunmoved⟩ := h
  refine ⟨fun _ => ?_, fun _ herr => ?_⟩
  · rw [hstep]
    exact ⟨hinstalled, hlive, heffective⟩
  · rw [hstep] at herr ⊢
    obtain ⟨frm', err, hlast⟩ := herr
    have hreply : (res.2.sys.out ++ [Out.reply frm res.1]).getLast? = some (.reply frm res.1) :=
      List.getLast?_concat
    obtain ⟨-, hres⟩ := Out.reply.inj (Option.some.inj (hreply.symm.trans hlast))
    obtain ⟨h1, h2, h3, h4⟩ := hunmoved err hres
    exact ⟨h1, h2, h3, h4⟩

/-- Nothing is installed on a fresh context. -/
theorem nifNewContext_installed (l : Loras) : (nifNewContext l).2.installed = [] := by
  unfold nifNewContext
  dsimp only
  split <;> rfl

variable {p : Params Row Smp} {rest : Parts ε} {cache : CacheClient γ} {sha256 : Bytes → Digest}
  {cfg : Config}

/-- A reset context has no adapter. -/
theorem reset_installed {f : Llama Smp (Loras × ε) → Except Reason Unit × Llama Smp (Loras × ε)}
    (hf : (loraEnv p rest cache sha256 cfg).be.resetContext = some f)
    {x y : Llama Smp (Loras × ε)} (h : f x = (.ok (), y)) : y.parts.1.installed = [] := by
  cases hf
  dsimp only [withLoras, onParts] at h
  split at h
  · cases h
    exact nifNewContext_installed _
  · exact nomatch h

omit [LinearOrder Sid] in
/-- After a recovery the process goes on believing in adapters that are not installed. -/
theorem recoverInPlace_spoils (henv : env = loraEnv p rest cache sha256 cfg)
    {d : Data (Llama Smp (Loras × ε)) γ Sid} (hsome : d.adapters ≠ []) {e : Reason}
    (hidle : (recoverInPlace env d e).phase = .idle) :
    ¬ Believed env (recoverInPlace env d e).data := by
  obtain ⟨s₁, heq₁, -⟩ := failAllRequests_eq env d (.nested (.backend e))
  obtain ⟨s₂, heq₂, -⟩ := failPendingAdmits_eq (withSys d s₁) (.backend e)
  unfold recoverInPlace at hidle ⊢
  rw [heq₁, heq₂] at hidle ⊢
  cases hf : env.be.resetContext with
  | none =>
    rw [hf] at hidle
    exact nomatch hidle
  | some f =>
    rw [hf] at hidle
    dsimp only at hidle ⊢
    split at hidle
    case h_2 => exact nomatch hidle
    case h_1 u hok =>
      intro hbelieved
      subst henv
      have hnil := reset_installed hf (Prod.ext hok rfl)
      have hpairs := hnil.symm.trans hbelieved.installed
      exact hsome (List.map_eq_nil_iff.mp hpairs.symm)

/-- **Step lemma.** -/
theorem step_believed (henv : env = loraEnv p rest cache sha256 cfg) (hs : Wf env s.data)
    (hbelieved : s.phase ≠ .stopped → Believed env s.data) (h : Harmless env s e) :
    BelievedAfter env s e := by
  by_cases hstopped : s.phase = .stopped
  case pos =>
    have hstep : step env s e = s := if_pos hstopped
    refine ⟨fun hlive => ?_, fun _ _ => ?_⟩
    · rw [hstep] at hlive
      exact absurd hstopped hlive
    · rw [hstep]
      exact .refl _
  case neg =>
    have hd := hbelieved hstopped
    have hstep : step env s e = handleEvent env s e := if_neg hstopped
    by_cases hcall : IsAdapterCall e
    case pos =>
      cases e with
      | loadAdapter frm path file => exact (loadAdapter_settles henv hd h path file).reply hstep
      | unloadAdapter frm handle => exact (unloadAdapter_settles henv hd handle h).reply hstep
      | setAdapterScale frm handle scale =>
        exact (setAdapterScale_settles henv hd h.1 handle scale h.2).reply hstep
      | _ => exact hcall.elim
    case neg =>
      refine ⟨fun hlive => ?_, fun h => absurd h hcall⟩
      have hbare : e = .tick → RecoversBare env s := by
        rintro rfl
        exact h
      subst henv
      rcases step_framed (loraView p rest cache sha256 cfg) hs hcall hbare with hend | hframed
      · exact absurd hend hlive
      · obtain ⟨hadapters, hfp, hview⟩ := hframed
        refine ⟨?_, ?_, by rw [hfp, hadapters, hd.effective]⟩
        · rcases hview with hview | ⟨hnil, f, x, y, hf, hreset, hview⟩
          · rw [hadapters, ← hd.installed]
            exact congrArg Loras.installed hview
          · -- a fresh context, and nothing was attached to the old one
            rw [hadapters, hnil]
            exact (congrArg Loras.installed hview).trans (reset_installed hf hreset)
        · rcases hview with hview | ⟨hnil, -⟩
          · intro a ha
            rw [hadapters] at ha
            have hlora : lorasOf (step (loraEnv p rest cache sha256 cfg) s e).data
                = lorasOf s.data := hview
            rw [hlora]
            exact hd.live a ha
          · rw [hadapters, hnil]
            exact nofun

end Runs

/-- A small model, whose library answers the coming calls as given. -/
def loraCounting (applyFaults : List (Option ApplyFault)) (decodeFaults : List (Option Fault)) :
    Proc (Llama Nat (Loras × Unit)) Unit Nat :=
  init (loraEnv countingParams plainParts (mapCache .empty) shortHash
      (mapEnv plainParams .empty 1).cfg)
    ⟨newContext decodeFaults,
      (⟨0, [], nofun, [], ⟨List.nodup_nil, nofun⟩, [], applyFaults, []⟩, ())⟩ ()

end Erllama.Native
