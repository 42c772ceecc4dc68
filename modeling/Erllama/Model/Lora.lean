import Erllama.Model.AdapterMoves
import Erllama.Model.MapBackend

namespace Erllama.Model

open Lib

/-!
# The adapters on the context

A cell is tagged with the adapters that were installed on the context when it was decoded.

* `AdapterModel` — a KV of tags, and what each callback does to the installed adapters.
* `Attached` — the adapters on the context are those of the process's list, and the effective
  fingerprint is theirs.
* `AdapterGuard` — what a guard rules out for that: a recovery with a nonempty list, which opens
  a context without adapters, a scale of zero, which the backend drops, and a call that fails
  after the backend has begun to change the set.
* `Move.attached` — every other move keeps them attached.
-/

variable {σ γ Sid : Type}

/-- The adapters behind a context: the installed set, and the file hash behind each handle. -/
structure LoraState where
  installed : List (Digest × ℚ)
  shaOf : Ref → Option Digest

/-- The set after the given handles and scales were put back, one by one, into an empty one.
    The backend puts back no adapter of scale zero. -/
def LoraState.install (l : LoraState) (pairs : List (Ref × ℚ)) : LoraState :=
  { l with
    installed := (pairs.filter fun a => a.2 ≠ 0).filterMap fun a =>
      (l.shaOf a.1).map fun sha => (sha, a.2) }

/-- A backend whose cells are tagged.  A decode tags its cells with the installed set; loading
    a file gives a handle that was never given before; only applying a set and opening a fresh
    context change what is installed, and a fresh context has nothing installed.  An apply call
    clears the set and puts the pairs back; it may fail before that, or on the way. -/
structure AdapterModel (env : Env σ γ) extends KvModel env.be (List (Digest × ℚ)) where
  lora : σ → LoraState
  lora_silent : ∀ {x y}, Silent env.be x y → lora y = lora x
  lora_seqOps : ∀ {q x y}, SeqOps env.be q x y → lora y = lora x
  lora_seqCp : ∀ {f}, env.be.seqCp = some f → ∀ x src dst, lora (f x src dst).2 = lora x
  lora_step : ∀ x ops, lora (env.be.step x ops).2 = lora x
  lora_specStep : ∀ {cb}, env.be.spec = some cb → ∀ x sampler q draft,
    lora (cb.step x sampler q draft).2 = lora x
  lora_prefill : ∀ {cb}, env.be.media = some cb → ∀ x prompt items q special,
    lora (cb.prefill x prompt items q special).2 = lora x
  lora_inspect : ∀ {x y}, Inspects env.be x y → lora y = lora x
  lora_load : ∀ {f}, env.be.loadAdapter = some f → ∀ x path content,
    (∀ handle, (f x path content).1 = .ok handle → (lora x).shaOf handle = none ∧
      lora (f x path content).2 = { lora x with
        shaOf := Function.update (lora x).shaOf handle (some (env.sha256 content)) }) ∧
    ∀ e, (f x path content).1 = .error e → lora (f x path content).2 = lora x
  lora_unload : ∀ {f}, env.be.unloadAdapter = some f → ∀ x handle,
    lora (f x handle).2 = lora x
  lora_apply : ∃ f, env.be.applyAdapters = some f ∧ ∀ x pairs,
    (∀ u, (f x pairs).1 = .ok u → (∀ a ∈ pairs, ((lora x).shaOf a.1).isSome) →
      (pairs.map Prod.fst).Nodup → lora (f x pairs).2 = (lora x).install pairs) ∧
    ∀ e, (f x pairs).1 = .error e →
      lora (f x pairs).2 = lora x ∨ ∃ k, lora (f x pairs).2 = (lora x).install (pairs.take k)
  lora_reset : ∀ {f}, env.be.resetContext = some f → ∀ x u, (f x).1 = .ok u →
    (lora (f x).2).installed = []
  step_tagged : ∀ x ops results, (env.be.step x ops).1 = .ok results → ∀ q,
    ∀ c ∈ cells (env.be.step x ops).2 q, c ∈ cells x q ∨ c = (lora x).installed
  specStep_tagged : ∀ {cb}, env.be.spec = some cb → ∀ x sampler q draft res,
    (cb.step x sampler q draft).1 = .ok res → ∀ c ∈ cells (cb.step x sampler q draft).2 q,
      c ∈ cells x q ∨ c = (lora x).installed
  prefill_tagged : ∀ {cb}, env.be.media = some cb → ∀ x prompt items q special,
    ∀ c ∈ cells (cb.prefill x prompt items q special).2 q,
      c ∈ cells x q ∨ c = (lora x).installed
  inspect_tagged : ∀ {x y}, Inspects env.be x y → ∀ c ∈ cells y 0,
    c ∈ cells x 0 ∨ c = (lora x).installed

/-- The effective fingerprint of an adapter set on the model. -/
def fpOf (env : Env σ γ) (set : List (Digest × ℚ)) : Digest :=
  effectiveFingerprint env.sha256 env.cfg.fingerprint set

variable {env : Env σ γ}

/-- The handles and scales of a list of adapters. -/
def handleScales (adapters : List Adapter) : List (Ref × ℚ) :=
  adapters.map fun a => (a.handle, a.scale)

/-- An adapter list that the backend can install as it is: every handle is known under the
    list's sha, none comes twice, and no scale is zero. -/
structure Installable (A : AdapterModel env) (x : σ) (adapters : List Adapter) : Prop where
  known : ∀ a ∈ adapters, (A.lora x).shaOf a.handle = some a.sha
  nodup : (adapters.map Adapter.handle).Nodup
  scales : ∀ a ∈ adapters, a.scale ≠ 0

/-- The installed adapters are those the effective fingerprint stands for, and the process's list
    can be installed. -/
structure Attached (A : AdapterModel env) (x : σ) (fp : Digest) (adapters : List Adapter) :
    Prop where
  installed : fpOf env (A.lora x).installed = fp
  effective : fp = fpOf env (shaScales adapters)
  installable : Installable A x adapters

/-- The same adapters in another context. -/
theorem Attached.congr {A : AdapterModel env} {x y : σ} {fp : Digest} {adapters : List Adapter}
    (h : Attached A x fp adapters) (hlora : A.lora y = A.lora x) : Attached A y fp adapters := by
  obtain ⟨hinstalled, heffective, hknown, hnodup, hscales⟩ := h
  refine ⟨?_, heffective, ?_, hnodup, hscales⟩
  · rw [hlora]
    exact hinstalled
  · rw [hlora]
    exact hknown

/-- Applying an installable list installs its hashes and scales. -/
theorem install_known {A : AdapterModel env} {x : σ} {adapters : List Adapter}
    (h : Installable A x adapters) :
    ((A.lora x).install (handleScales adapters)).installed = shaScales adapters := by
  have hkeep : (handleScales adapters).filter (fun a => a.2 ≠ 0) = handleScales adapters := by
    refine List.filter_eq_self.mpr fun a ha => ?_
    obtain ⟨b, hb, rfl⟩ := List.mem_map.mp ha
    exact decide_eq_true (h.scales b hb)
  have hsha : ∀ a ∈ adapters, ((A.lora x).shaOf a.handle).map (fun sha => (sha, a.scale))
      = some (a.sha, a.scale) := by
    intro a ha
    rw [h.known a ha]
    rfl
  unfold LoraState.install shaScales
  dsimp only
  rw [hkeep, handleScales, List.filterMap_map]
  exact (List.filterMap_congr hsha).trans (congrFun List.filterMap_eq_map' adapters)

/-- An apply call that fails has not begun to change the set. -/
def FailsClean (A : AdapterModel env) (x : σ) (adapters : List Adapter) : Prop :=
  ∀ f e, env.be.applyAdapters = some f → (f x (handleScales adapters)).1 = .error e →
    A.lora (f x (handleScales adapters)).2 = A.lora x

/-- An apply call that works. -/
def AppliesList (env : Env σ γ) (x : σ) (adapters : List Adapter) : Prop :=
  ∀ f, env.be.applyAdapters = some f → (f x (handleScales adapters)).1 = .ok ()

/-! ### The adapter operations -/

section Operations

variable {A : AdapterModel env} {d : Data σ γ Sid}

/-- Installing an installable list, or keeping the old one. -/
theorem changeAdapters_attached {adapters : List Adapter}
    (h : Attached A d.sys.ctx d.effectiveFp d.adapters)
    (hnew : Installable A d.sys.ctx adapters) (hfails : FailsClean A d.sys.ctx adapters)
    (reply : Reply) :
    Attached A (changeAdapters env d adapters reply).2.sys.ctx
      (changeAdapters env d adapters reply).2.effectiveFp
      (changeAdapters env d adapters reply).2.adapters := by
  obtain ⟨f, hf, hlaw⟩ := A.lora_apply
  obtain ⟨hok, -⟩ := hlaw d.sys.ctx (handleScales adapters)
  unfold changeAdapters applyAndRecompute
  rw [hf]
  dsimp only
  cases hcall : (f d.sys.ctx (adapters.map fun a => (a.handle, a.scale))).1 with
  | error e => exact h.congr (hfails f e hf hcall)
  | ok u =>
    have hsome : ∀ a ∈ handleScales adapters, ((A.lora d.sys.ctx).shaOf a.1).isSome := by
      intro a ha
      obtain ⟨b, hb, rfl⟩ := List.mem_map.mp ha
      rw [show (A.lora d.sys.ctx).shaOf b.handle = some b.sha from hnew.known b hb]
      rfl
    have hnodup : ((handleScales adapters).map Prod.fst).Nodup := by
      unfold handleScales
      rw [List.map_map]
      exact hnew.nodup
    have hlora := hok u hcall hsome hnodup
    refine ⟨?_, rfl, ⟨?_, hnew.nodup, hnew.scales⟩⟩
    · show fpOf env (A.lora (f d.sys.ctx (handleScales adapters)).2).installed
        = fpOf env (shaScales adapters)
      rw [hlora, install_known hnew]
    · intro a ha
      show (A.lora (f d.sys.ctx (handleScales adapters)).2).shaOf a.handle = some a.sha
      rw [hlora]
      exact hnew.known a ha

/-- The list that a load installs: a fresh handle behind the old ones. -/
theorem Installable.append {x y : σ} {adapters : List Adapter} {handle : Ref} {sha : Digest}
    (h : Installable A x adapters) (hfresh : (A.lora x).shaOf handle = none)
    (hsha : (A.lora y).shaOf = Function.update (A.lora x).shaOf handle (some sha)) :
    Installable A y (adapters ++ [⟨handle, sha, 1⟩]) := by
  have hne : ∀ a ∈ adapters, a.handle ≠ handle := by
    rintro a ha rfl
    rw [h.known a ha] at hfresh
    exact nomatch hfresh
  refine ⟨fun a ha => ?_, ?_, fun a ha => ?_⟩
  · rw [hsha]
    rcases List.mem_append.mp ha with hold | hnew
    · rw [Function.update_of_ne (hne a hold)]
      exact h.known a hold
    · rw [List.mem_singleton.mp hnew]
      exact Function.update_self ..
  · rw [List.map_append, List.nodup_append]
    refine ⟨h.nodup, List.nodup_singleton _, fun a ha b hb heq => ?_⟩
    obtain ⟨c, hc, rfl⟩ := List.mem_map.mp ha
    exact hne c hc (heq.trans (List.mem_singleton.mp hb))
  · rcases List.mem_append.mp ha with hold | hnew
    · exact h.scales a hold
    · rw [List.mem_singleton.mp hnew]
      exact one_ne_zero

/-- The conditions on a load: when the backend gives a handle, installing it does not fail half
    way. -/
def LoadClean (A : AdapterModel env) (d : Data σ γ Sid) (path : Path) (file : Option Bytes) :
    Prop :=
  ∀ f content handle, env.be.loadAdapter = some f → file = some content →
    (f d.sys.ctx path content).1 = .ok handle →
    FailsClean A (f d.sys.ctx path content).2
      (d.adapters ++ [⟨handle, env.sha256 content, 1⟩])

/-- After a clean load the adapters are attached. -/
theorem loadAdapter_attached (h : Attached A d.sys.ctx d.effectiveFp d.adapters) {path : Path}
    {file : Option Bytes} (hclean : LoadClean A d path file) :
    Attached A (loadAdapter env d path file).2.sys.ctx
      (loadAdapter env d path file).2.effectiveFp (loadAdapter env d path file).2.adapters := by
  unfold loadAdapter
  cases hload : env.be.loadAdapter with
  | none => exact h
  | some f =>
    cases hfile : file with
    | none => exact h
    | some content =>
      obtain ⟨hok, herr⟩ := A.lora_load hload d.sys.ctx path content
      dsimp only
      cases hcall : (f d.sys.ctx path content).1 with
      | error e => exact h.congr (herr e hcall)
      | ok handle =>
        obtain ⟨hfresh, hlora⟩ := hok handle hcall
        have hsha : (A.lora (f d.sys.ctx path content).2).shaOf
            = Function.update (A.lora d.sys.ctx).shaOf handle (some (env.sha256 content)) := by
          rw [hlora]
        have hnew := h.installable.append hfresh hsha
        have hkeep : ∀ a ∈ d.adapters,
            (A.lora (f d.sys.ctx path content).2).shaOf a.handle = some a.sha :=
          fun a ha => hnew.known a (List.mem_append_left _ ha)
        refine changeAdapters_attached (d := withSys d { d.sys with
          ctx := (f d.sys.ctx path content).2 })
          ⟨?_, h.effective, ⟨hkeep, h.installable.nodup, h.installable.scales⟩⟩ hnew
          (hclean f content handle hload hfile hcall) _
        show fpOf env (A.lora (f d.sys.ctx path content).2).installed = d.effectiveFp
        rw [hlora]
        exact h.installed

/-- The found entry is in the list, and so is the rest, which is without its handle. -/
theorem findAdapter_some {handle : Ref} {adapters rest : List Adapter} {entry : Adapter}
    (h : findAdapter handle adapters = some (entry, rest)) :
    entry ∈ adapters ∧ entry.handle = handle ∧
      rest = adapters.filter fun a => a.handle ≠ handle := by
  unfold findAdapter at h
  obtain ⟨found, hfind, heq⟩ := Option.map_eq_some_iff.mp h
  obtain ⟨rfl, rfl⟩ := Prod.mk.inj heq
  exact ⟨List.mem_of_find?_eq_some hfind, by simpa using List.find?_some hfind, rfl⟩

/-- The list without one handle. -/
theorem Installable.filter {x : σ} {adapters : List Adapter} (h : Installable A x adapters)
    (handle : Ref) : Installable A x (adapters.filter fun a => a.handle ≠ handle) where
  known := fun a ha => h.known a (List.mem_of_mem_filter ha)
  nodup := h.nodup.sublist (List.filter_sublist.map _)
  scales := fun a ha => h.scales a (List.mem_of_mem_filter ha)

/-- The conditions on an unload: once the backend has freed the adapter, installing the rest
    works.  Where it fails, the freed adapter may stay installed. -/
def UnloadWorks (env : Env σ γ) (d : Data σ γ Sid) (handle : Ref) : Prop :=
  ∀ f entry rest, env.be.unloadAdapter = some f →
    findAdapter handle d.adapters = some (entry, rest) →
    (f d.sys.ctx handle).1 = .ok () → AppliesList env (f d.sys.ctx handle).2 rest

/-- After a clean unload the others are. -/
theorem unloadAdapter_attached (h : Attached A d.sys.ctx d.effectiveFp d.adapters)
    {handle : Ref} (hworks : UnloadWorks env d handle) :
    Attached A (unloadAdapter env d handle).2.sys.ctx
      (unloadAdapter env d handle).2.effectiveFp
      (unloadAdapter env d handle).2.adapters := by
  unfold unloadAdapter
  cases hfind : findAdapter handle d.adapters with
  | none => exact h
  | some found =>
    obtain ⟨entry, rest⟩ := found
    cases hunload : env.be.unloadAdapter with
    | none => exact h
    | some f =>
      have hctx := h.congr (A.lora_unload hunload d.sys.ctx handle)
      dsimp only
      cases hcall : (f d.sys.ctx handle).1 with
      | error e => exact hctx
      | ok u =>
        obtain ⟨-, -, hrest⟩ := findAdapter_some hfind
        have hnew : Installable A (f d.sys.ctx handle).2 rest := by
          rw [hrest]
          exact hctx.installable.filter handle
        refine changeAdapters_attached (d := withSys d { d.sys with
          ctx := (f d.sys.ctx handle).2 }) hctx hnew (fun g e hg herr => ?_) _
        have hok := hworks f entry rest hunload hfind hcall g hg
        exact absurd (hok.symm.trans herr) nofun

/-- The conditions on a scale change: the scale is not zero, and installing it does not fail half
    way. -/
def ScaleClean (A : AdapterModel env) (d : Data σ γ Sid) (handle : Ref) (scale : ℚ) : Prop :=
  ∀ entry rest, findAdapter handle d.adapters = some (entry, rest) →
    scale ≠ 0 ∧ FailsClean A d.sys.ctx (rest ++ [{ entry with scale := scale }])

/-- The list with one entry rescaled and moved to its end. -/
theorem Installable.rescale {x : σ} {adapters : List Adapter} (h : Installable A x adapters)
    {entry : Adapter} (hentry : entry ∈ adapters) {scale : ℚ} (hscale : scale ≠ 0) :
    Installable A x ((adapters.filter fun a => a.handle ≠ entry.handle)
      ++ [{ entry with scale := scale }]) := by
  have hrest := h.filter entry.handle
  refine ⟨fun a ha => ?_, ?_, fun a ha => ?_⟩
  · rcases List.mem_append.mp ha with hold | hnew
    · exact hrest.known a hold
    · rw [List.mem_singleton.mp hnew]
      exact h.known entry hentry
  · rw [List.map_append, List.nodup_append]
    refine ⟨hrest.nodup, List.nodup_singleton _, fun a ha b hb heq => ?_⟩
    obtain ⟨c, hc, rfl⟩ := List.mem_map.mp ha
    have hne : c.handle ≠ entry.handle := by simpa using (List.mem_filter.mp hc).2
    exact hne (heq.trans (List.mem_singleton.mp hb))
  · rcases List.mem_append.mp ha with hold | hnew
    · exact hrest.scales a hold
    · rw [List.mem_singleton.mp hnew]
      exact hscale

/-- After a clean scaling they are, as scaled. -/
theorem setAdapterScale_attached (h : Attached A d.sys.ctx d.effectiveFp d.adapters)
    {handle : Ref} {scale : ℚ} (hclean : ScaleClean A d handle scale) :
    Attached A (setAdapterScale env d handle scale).2.sys.ctx
      (setAdapterScale env d handle scale).2.effectiveFp
      (setAdapterScale env d handle scale).2.adapters := by
  unfold setAdapterScale
  cases hfind : findAdapter handle d.adapters with
  | none => exact h
  | some found =>
    obtain ⟨entry, rest⟩ := found
    obtain ⟨hscale, hfails⟩ := hclean entry rest hfind
    obtain ⟨hentry, hhandle, hrest⟩ := findAdapter_some hfind
    refine changeAdapters_attached h ?_ hfails _
    rw [hrest, ← hhandle]
    exact h.installable.rescale hentry hscale

end Operations

/-! ### The moves -/

/-- The adapters behind a context, as what the other callbacks leave alone. -/
def AdapterModel.loraView (A : AdapterModel env) : CtxView env.be LoraState where
  view := A.lora
  silent := A.lora_silent
  seqOps := A.lora_seqOps
  seqCp := A.lora_seqCp
  step := A.lora_step
  specStep := A.lora_specStep
  prefill := A.lora_prefill
  inspect := A.lora_inspect

/-- What a guard rules out for the adapters to stay attached. -/
structure AdapterGuard (A : AdapterModel env) (G : Guard σ γ Sid) : Prop where
  recover : ∀ adapters, G.recover adapters → adapters = []
  load : ∀ {d path file}, G.load d path file → LoadClean A d path file
  unload : ∀ {d handle}, G.unload d handle → UnloadWorks env d handle
  scale : ∀ {d handle scale}, G.scale d handle scale → ScaleClean A d handle scale

variable [LinearOrder Sid]

/-- **Step lemma.** The adapters stay attached. -/
theorem Move.attached {A : AdapterModel env} {G : Guard σ γ Sid} {d d' : Data σ γ Sid}
    (h : Move env G d d') (hguard : AdapterGuard A G)
    (hd : Attached A d.sys.ctx d.effectiveFp d.adapters) :
    Attached A d'.sys.ctx d'.effectiveFp d'.adapters := by
  cases h.adapterMove A.loraView with
  | same h =>
    rw [h.effectiveFp, h.adapters]
    exact hd.congr h.view
  | load hG => exact loadAdapter_attached hd (hguard.load hG)
  | unload hG => exact unloadAdapter_attached hd (hguard.unload hG)
  | scale hG => exact setAdapterScale_attached hd (hguard.scale hG)
  | @recover s f y hf hreset hG =>
    have hnone := hguard.recover d.adapters hG
    have hfresh := A.lora_reset hf y () (by rw [hreset])
    rw [hreset] at hfresh
    refine ⟨?_, hd.effective, ?_⟩
    · show fpOf env (A.lora s.ctx).installed = d.effectiveFp
      rw [hfresh, hd.effective, hnone]
      rfl
    · show Installable A s.ctx d.adapters
      rw [hnone]
      exact ⟨fun _ ha => (nomatch ha), List.nodup_nil, fun _ ha => nomatch ha⟩

end Erllama.Model
