import Erllama.Lib.Locks
import Erllama.Lib.Table
import Erllama.Native.Loras

namespace Erllama.Native.Handles

open Lib

/-!
# Native objects behind handles (`erllama_nif.c`)

Erlang holds native objects through resource wrappers.  A wrapper has a mutex, and the pointer
in it is set to NULL when its object is freed; the wrapper itself lives until no term and no
other wrapper refers to it.  Contexts, adapters and projectors borrow the model that they were
made of: the model's wrapper counts them, and freeing the model is put off while it is borrowed.
A context also holds bare pointers to the adapters that were last set on it; these are counted
nowhere, and an adapter can be freed under them.

Calls run on many threads.  The model has one step for each time a call takes or gives back a
mutex, and one for what it does between with the wrapper that it has locked; what the library
does within one step is not taken apart.  `nif_clear_sampler` and the grammar cache touch only
what a context's wrapper owns, and `nif_request_abort` only a flag in it.  Left out are the
speculators (`erllama_spec_nif.cpp`), with a mutex of their own, and the two global mutexes of
`erllama_safe.cpp`, for the log receiver and for fitting parameters; under these no wrapper's
mutex is taken.

* `Mem` — the native objects, the wrappers, who has which mutex, and what the calls hold.
* `Act`, `perform` — the steps of the calls, and their effects.
* `NifCall.program` — the calls.
* `Sys`, `Event`, `sysStep` — any number of calls, and the garbage collector.
* `Fault` — a freed object was used, or freed again.
-/

/-! ### Memory -/

/-- The resource types. -/
inductive Kind where
  | model | context | adapter | mtmd | sampler
deriving DecidableEq

/-- A resource wrapper.  Its mutex goes by the same name. -/
structure Handle where
  kind : Kind
  addr : Nat
deriving DecidableEq

/-- A native object.  Addresses are not reused. -/
abbrev Ptr := Nat

/-- A running call. -/
abbrev Tid := Nat

/-- The handle of a model's wrapper. -/
abbrev modelHandle (m : Nat) : Handle := ⟨.model, m⟩

/-- `erllama_model_t`. -/
structure ModelRes where
  model : Option Ptr
  activeContexts : Nat
  activeAdapters : Nat
  activeMtmd : Nat
  releasePending : Bool
deriving DecidableEq

/-- `erllama_context_t`, `erllama_adapter_t`, `mtmd_holder` and `erllama_sampler_t`: the object,
    and the wrapper that this one keeps alive. -/
structure Wrap where
  kind : Kind
  obj : Option Ptr
  modelRes : Option Nat
  ctxRes : Option Nat
deriving DecidableEq

/-- What a running call keeps alive: the terms it was called with and the references it took
    over; and the borrowing it has yet to give up, after it took `model_res` out of a wrapper. -/
structure Claim where
  refs : List Handle
  drop : Option (Kind × Nat)
deriving DecidableEq

/-- An object was used or freed that is freed already: the handle's own, the model that the
    handle's object borrows, a model that was used without its mutex, or an adapter that is set on
    a context. -/
inductive Fault where
  | own (h : Handle)
  | lent (h : Handle) (m : Nat)
  | raced (m : Nat)
  | installed (c : Handle) (p : Ptr)
deriving DecidableEq

/-- The objects with the wrapper each belongs to, the wrappers, the owners of the mutexes, the
    handles that Erlang has terms for, the running calls, and the adapters that are set on each
    context.  Three records say what went wrong: the models that were freed under a projector,
    the adapters that were freed under a context, and the faults. -/
structure Mem where
  heap : Ptr → Option Handle
  nextPtr : Ptr
  nextAddr : Nat
  models : Table Nat ModelRes
  wraps : Table Handle Wrap
  owner : Owners Handle Tid
  termed : Handle → Bool
  claims : Table Tid Claim
  installed : Handle → List (Ptr × ℚ)
  stranded : List Nat
  pulled : Handle → Ptr → Bool
  faults : List Fault

/-- After the library is loaded. -/
def Mem.init : Mem where
  heap := fun _ => none
  nextPtr := 0
  nextAddr := 0
  models := ∅
  wraps := ∅
  owner := fun _ => none
  termed := fun _ => false
  claims := ∅
  installed := fun _ => []
  stranded := []
  pulled := fun _ _ => false
  faults := []

/-- The number of borrowers of a kind. -/
def ModelRes.active (r : ModelRes) : Kind → Nat
  | .context => r.activeContexts
  | .adapter => r.activeAdapters
  | .mtmd    => r.activeMtmd
  | _        => 0

/-- One borrower more. -/
def ModelRes.borrow (r : ModelRes) : Kind → ModelRes
  | .context => { r with activeContexts := r.activeContexts + 1 }
  | .adapter => { r with activeAdapters := r.activeAdapters + 1 }
  | .mtmd    => { r with activeMtmd := r.activeMtmd + 1 }
  | _        => r

/-- One borrower less; a count stops at zero. -/
def ModelRes.giveBack (r : ModelRes) : Kind → ModelRes
  | .context => { r with activeContexts := r.activeContexts - 1 }
  | .adapter => { r with activeAdapters := r.activeAdapters - 1 }
  | .mtmd    => { r with activeMtmd := r.activeMtmd - 1 }
  | _        => r

/-- `model_unreferenced`. -/
def ModelRes.unreferenced (r : ModelRes) : Bool :=
  r.activeContexts == 0 && r.activeAdapters == 0 && r.activeMtmd == 0

/-- The pointer of a model's wrapper. -/
def Mem.modelPtr (s : Mem) (m : Nat) : Option Ptr := (s.models.lookup m).bind ModelRes.model

/-- The pointer is NULL or its object is freed. -/
def Mem.dangles (s : Mem) : Option Ptr → Bool
  | none   => true
  | some p => (s.heap p).isNone

/-- Using the object of a handle: the object itself. -/
def Mem.touchOwn (s : Mem) (h : Handle) (p : Option Ptr) : List Fault :=
  if s.dangles p then [.own h] else []

/-- Using the object of a handle: the model that it borrows. -/
def Mem.touchLent (s : Mem) (h : Handle) : Option Nat → List Fault
  | none   => []
  | some m => if s.dangles (s.modelPtr m) then [.lent h m] else []

/-- Using a model without its mutex. -/
def Mem.touchUnlocked (s : Mem) (m : Nat) : List Fault :=
  if s.dangles (s.modelPtr m) then [.raced m] else []

/-- Using the object of a handle. -/
def Mem.touch (s : Mem) (h : Handle) : List Fault :=
  match h.kind, s.wraps.lookup h with
  | .model, _     => s.touchOwn h (s.modelPtr h.addr)
  | _,     none   => [.own h]
  | _,     some w => s.touchOwn h w.obj ++ s.touchLent h w.modelRes

/-- Decoding with a context: the adapters that are set on it. -/
def Mem.touchInstalled (s : Mem) (c : Handle) : List Fault :=
  ((s.installed c).filter fun a => s.dangles (some a.1)).map fun a => .installed c a.1

/-- What freeing an object uses: the object; a context and an adapter also their model, from
    whose list an adapter is removed. -/
def Mem.touchFree (s : Mem) (h : Handle) (w : Wrap) : List Fault :=
  match h.kind with
  | .mtmd => s.touchOwn h w.obj
  | _     => s.touchOwn h w.obj ++ s.touchLent h w.modelRes

def Mem.fault (s : Mem) (fs : List Fault) : Mem := { s with faults := s.faults ++ fs }

/-- A new object in a new wrapper, which a term refers to. -/
def Mem.alloc (s : Mem) (h : Handle) : Mem :=
  { s with
    heap := Function.update s.heap s.nextPtr (some h)
    nextPtr := s.nextPtr + 1
    nextAddr := s.nextAddr + 1
    termed := Function.update s.termed h true }

/-- Which adapters were freed under which contexts, after some objects more are freed. -/
def Mem.pull (s : Mem) (freed : Ptr → Bool) : Handle → Ptr → Bool :=
  fun c p => s.pulled c p || freed p && ((s.installed c).map Prod.fst).contains p

/-- The object of a handle is freed; a context has no adapters any more. -/
def Mem.release (s : Mem) (h : Handle) (p : Ptr) : Mem :=
  { s with
    heap := Function.update s.heap p none
    pulled := s.pull (· = p)
    installed := Function.update s.installed h [] }

/-- The objects of a model's adapters, which are freed with the model. -/
def Mem.adapterPtrs (s : Mem) (m : Nat) : List Ptr :=
  s.wraps.values.filterMap fun w =>
    if w.kind = .adapter ∧ w.modelRes = some m then w.obj else none

/-- `erllama_safe_model_free`. -/
def Mem.releaseModel (s : Mem) (m : Nat) (p : Ptr) : Mem :=
  { (s.fault (s.touchOwn (modelHandle m) (some p))) with
    heap := fun q => if q = p ∨ q ∈ s.adapterPtrs m then none else s.heap q
    pulled := s.pull fun q => q = p ∨ q ∈ s.adapterPtrs m }

def Mem.setModel (s : Mem) (m : Nat) (r : ModelRes) : Mem :=
  { s with models := s.models.insert m r }

def Mem.setWrap (s : Mem) (h : Handle) (w : Wrap) : Mem := { s with wraps := s.wraps.insert h w }

def Mem.setClaim (s : Mem) (i : Tid) (c : Claim) : Mem := { s with claims := s.claims.insert i c }

/-- What a running call keeps alive. -/
def Mem.refs (s : Mem) (i : Tid) : List Handle := ((s.claims.lookup i).map Claim.refs).getD []

/-- The borrowing that a running call has yet to give up. -/
def Mem.drop (s : Mem) (i : Tid) : Option (Kind × Nat) := (s.claims.lookup i).bind Claim.drop

/-! ### Steps of the calls -/

/-- What a call answers. -/
inductive Reply where
  | ok | deferred | released | failed
deriving DecidableEq

/-- A step of a call. -/
inductive Act where
  | lock (h : Handle)
  | unlock (h : Handle)
  | loadModel
  | modelLive (m : Nat) (orPending : Bool)
  | objLive (h : Handle)
  | use (hs : List Handle)
  | useContext (c : Handle) (decodes : Bool)
  | install (c : Handle) (adapters : List (Nat × ℚ))
  | useOwn (h : Handle)
  | useUnlocked (m : Nat)
  | attach (k : Kind) (m : Nat)
  | freeModel (m : Nat)
  | freeObj (h : Handle)
  | takeContext (c : Handle)
  | dropsModel (k : Kind) (m : Nat)
  | releaseKeep (m : Nat)
  | newSampler (c : Nat)
  | finalize (h : Handle)
  | finalizeModel (m : Nat)
deriving DecidableEq

/-- The type of a step's answer. -/
abbrev Act.Answer : Act → Type
  | .modelLive _ _ | .objLive _ | .attach _ _ | .freeObj _ | .newSampler _ | .loadModel => Bool
  | .freeModel _               => Reply
  | .takeContext _             => Option Nat
  | .finalize _                => Option (Kind × Nat)
  | .lock _ | .unlock _ | .use _ | .useContext _ _ | .install _ _ | .useOwn _ | .useUnlocked _
  | .dropsModel _ _ | .releaseKeep _ | .finalizeModel _ => Unit

/-- `nif_load_model`, once the file is read. -/
def loadModel (fails : Bool) (s : Mem) : Bool × Mem :=
  if fails then (false, s)
  else
    (true,
      (s.alloc (modelHandle s.nextAddr)).setModel s.nextAddr ⟨some s.nextPtr, 0, 0, 0, false⟩)

/-- `erllama_lock_model` and `erllama_lock_model_live`, once the mutex is taken. -/
def modelLive (m : Nat) (orPending : Bool) (s : Mem) : Bool :=
  match s.models.lookup m with
  | none   => false
  | some r => r.model.isSome && (orPending || !r.releasePending)

/-- `erllama_lock_ctx` and its siblings, once the mutex is taken. -/
def objLive (h : Handle) (s : Mem) : Bool := ((s.wraps.lookup h).bind Wrap.obj).isSome

/-- `nif_new_context`, `nif_adapter_load` and `nif_mtmd_init`, for a live model. -/
def attach (fails : Bool) (k : Kind) (m : Nat) (s : Mem) : Bool × Mem :=
  let s := s.fault (s.touch (modelHandle m))
  match fails, s.models.lookup m with
  | false, some r =>
    (true, ((s.alloc ⟨k, s.nextAddr⟩).setWrap ⟨k, s.nextAddr⟩
      ⟨k, some s.nextPtr, some m, none⟩).setModel m (r.borrow k))
  | _,     _      => (false, s)

/-- `nif_free_model`: projectors are not asked for. -/
def freeModel (m : Nat) (s : Mem) : Reply × Mem :=
  match s.models.lookup m with
  | none   => (.released, s)
  | some r =>
    match r.model with
    | none   => (.released, s)
    | some p =>
      -- still borrowed: the last borrower releases it
      if 0 < r.activeContexts ∨ 0 < r.activeAdapters then
        (.deferred, s.setModel m { r with releasePending := true })
      else
        let s := (s.releaseModel m p).setModel m { r with model := none, releasePending := false }
        -- multimodal contexts do not defer it: they are left with a freed model
        (.ok, if 0 < r.activeMtmd then { s with stranded := m :: s.stranded } else s)

/-- `erllama_safe_set_adapters_lora`, for live adapters: the context keeps their pointers. -/
def install (c : Handle) (adapters : List (Nat × ℚ)) (s : Mem) : Mem :=
  let pairs := adapters.filterMap fun a =>
    ((s.wraps.lookup ⟨.adapter, a.1⟩).bind Wrap.obj).map (·, a.2)
  let s := s.fault ((c :: adapters.map fun a => ⟨.adapter, a.1⟩).flatMap s.touch)
  { s with installed := Function.update s.installed c (applyLoras (s.installed c) pairs) }

/-- `nif_adapter_free`, `nif_mtmd_free` and `nif_sampler_free`, once the mutex is taken. -/
def freeObj (h : Handle) (s : Mem) : Bool × Mem :=
  match s.wraps.lookup h with
  | none   => (false, s)
  | some w =>
    match w.obj with
    | none   => (false, s)
    | some p => (true, ((s.fault (s.touchFree h w)).release h p).setWrap h { w with obj := none })

/-- The first half of `nif_free_context`. -/
def takeContext (i : Tid) (c : Handle) (s : Mem) : Option Nat × Mem :=
  match s.wraps.lookup c with
  | none   => (none, s)
  | some w =>
    match w.obj, w.modelRes with
    | some p, some m =>
      -- the reference to the model passes to the call
      (some m, (((s.fault (s.touchFree c w)).release c p).setWrap c
        { w with obj := none, modelRes := none }).setClaim i
          ⟨modelHandle m :: s.refs i, some (.context, m)⟩)
    | _,      _      => (none, s)

/-- `context_drops_model`, `model_drops_adapter` and `model_drops_mtmd`, once the mutex is
    taken. -/
def dropsModel (i : Tid) (k : Kind) (m : Nat) (s : Mem) : Mem :=
  match s.models.lookup m with
  | none   => s
  | some r =>
    -- one borrower less
    let r := r.giveBack k
    let s := s.setClaim i ⟨s.refs i, none⟩
    match r.releasePending && r.unreferenced, r.model with
    -- the last one, and a release was asked for
    | true, some p =>
      (s.releaseModel m p).setModel m { r with model := none, releasePending := false }
    | _,    _      => s.setModel m r

/-- `enif_release_resource` of a model's wrapper. -/
def releaseKeep (i : Tid) (m : Nat) (s : Mem) : Mem :=
  s.setClaim i ⟨(s.refs i).filter (· ≠ modelHandle m), s.drop i⟩

/-- `nif_sampler_new`, once its chain is built. -/
def newSampler (fails : Bool) (c : Nat) (s : Mem) : Bool × Mem :=
  if fails then (false, s)
  else
    (true, (s.alloc ⟨.sampler, s.nextAddr⟩).setWrap ⟨.sampler, s.nextAddr⟩
      ⟨.sampler, some s.nextPtr, none, some c⟩)

/-- `ctx_dtor`, `adapter_dtor`, `mtmd_dtor` and `sampler_dtor`, up to the model's mutex: nobody
    else can see the wrapper. -/
def finalize (i : Tid) (h : Handle) (s : Mem) : Option (Kind × Nat) × Mem :=
  match s.wraps.lookup h with
  | none   => (none, s)
  | some w =>
    -- what nobody freed is released now
    let s := match w.obj with
      | none   => s
      | some p => (s.fault (s.touchFree h w)).release h p
    let s := { s with wraps := s.wraps.erase h }
    match w.modelRes with
    -- its reference to the model was given back before
    | none   => (none, s.setClaim i ⟨[], none⟩)
    | some m => (some (w.kind, m), s.setClaim i ⟨[modelHandle m], some (w.kind, m)⟩)

/-- `model_dtor`. -/
def finalizeModel (i : Tid) (m : Nat) (s : Mem) : Mem :=
  let s := match s.modelPtr m with
    | none   => s
    | some p => s.releaseModel m p
  { s with models := s.models.erase m }.setClaim i ⟨[], none⟩

/-- One step of call `i`; `fails` is what the native library answers. -/
def perform (fails : Bool) (i : Tid) : (a : Act) → Mem → a.Answer × Mem
  | .lock h, s               => ((), { s with owner := Function.update s.owner h (some i) })
  | .unlock h, s             => ((), { s with owner := Function.update s.owner h none })
  | .loadModel, s            => loadModel fails s
  | .modelLive m orPending, s => (modelLive m orPending s, s)
  | .objLive h, s            => (objLive h s, s)
  | .use hs, s               => ((), s.fault (hs.flatMap s.touch))
  | .useContext c decodes, s =>
    ((), s.fault (s.touch c ++ if decodes then s.touchInstalled c else []))
  | .install c adapters, s   => ((), install c adapters s)
  | .useOwn h, s             => ((), s.fault (s.touchOwn h ((s.wraps.lookup h).bind Wrap.obj)))
  | .useUnlocked m, s        => ((), s.fault (s.touchUnlocked m))
  | .attach k m, s           => attach fails k m s
  | .freeModel m, s          => freeModel m s
  | .freeObj h, s            => freeObj h s
  | .takeContext c, s        => takeContext i c s
  | .dropsModel k m, s       => ((), dropsModel i k m s)
  | .releaseKeep m, s        => ((), releaseKeep i m s)
  | .newSampler c, s         => newSampler fails c s
  | .finalize h, s           => finalize i h s
  | .finalizeModel m, s      => ((), finalizeModel i m s)

/-! ### Calls -/

/-- A call's program: every step is that of the call `i`. -/
abbrev Call := Prog (Tid × Act) (fun a => a.2.Answer) Reply

/-- A part of a call's program. -/
abbrev Part := Prog (Tid × Act) (fun a => a.2.Answer)

variable (i : Tid)

/-- One step. -/
def step (a : Act) : Part a.Answer := Prog.perform (i, a)

/-- The rest of the drop functions, and `enif_release_resource`. -/
def dropModel (k : Kind) (m : Nat) : Part Unit := do
  step i (.lock (modelHandle m))
  step i (.dropsModel k m)
  step i (.unlock (modelHandle m))
  step i (.releaseKeep m)

/-- `nif_load_model`. -/
def nifLoadModel : Call := do
  let made ← step i .loadModel
  return if made then .ok else .failed

/-- `nif_free_model`. -/
def nifFreeModel (m : Nat) : Call := do
  step i (.lock (modelHandle m))
  let r ← step i (.freeModel m)
  step i (.unlock (modelHandle m))
  return r

/-- `nif_new_context`, `nif_adapter_load` and `nif_mtmd_init`. -/
def nifAttach (k : Kind) (m : Nat) : Call := do
  step i (.lock (modelHandle m))
  if ← step i (.modelLive m false) then
    let made ← step i (.attach k m)
    step i (.unlock (modelHandle m))
    return if made then .ok else .failed
  else
    step i (.unlock (modelHandle m))
    return .released

/-- A call that uses a model: `nif_tokenize` and its siblings, and with `orPending` also
    `nif_model_size` and its. -/
def nifOnModel (m : Nat) (orPending : Bool) : Call := do
  step i (.lock (modelHandle m))
  if ← step i (.modelLive m orPending) then
    step i (.use [modelHandle m])
    step i (.unlock (modelHandle m))
    return .ok
  else
    step i (.unlock (modelHandle m))
    return .released

/-- `nif_free_context`. -/
def nifFreeContext (c : Handle) : Call := do
  step i (.lock c)
  if ← step i (.objLive c) then
    -- the model's lock is taken only after the context's own is free
    let m ← step i (.takeContext c)
    step i (.unlock c)
    match m with
    | none   => return .ok
    | some m =>
      dropModel i .context m
      return .ok
  else
    step i (.unlock c)
    return .released

/-- `nif_adapter_free`, `nif_mtmd_free` and `nif_sampler_free`. -/
def nifFree (h : Handle) : Call := do
  step i (.lock h)
  let freed ← step i (.freeObj h)
  step i (.unlock h)
  return if freed then .ok else .released

/-- `nif_chat_templates_init`, which takes no mutex. -/
def nifChatTemplatesInit (m : Nat) : Call := do
  if ← step i (.modelLive m true) then
    step i (.useUnlocked m)
    return .ok
  else return .released

/-- A call that uses a context alone: `nif_kv_pack` and its siblings, and with `decodes` also
    `nif_prefill`, `nif_decode_one`, `nif_embed` and `nif_forward_with_argmax`. -/
def nifOnContext (c : Handle) (decodes : Bool) : Call := do
  step i (.lock c)
  if ← step i (.objLive c) then
    step i (.useContext c decodes)
    step i (.unlock c)
    return .ok
  else
    step i (.unlock c)
    return .released

/-- `nif_mtmd_caps`. -/
def nifMtmdCaps (h : Handle) : Call := do
  step i (.lock h)
  if ← step i (.objLive h) then
    step i (.useOwn h)
    step i (.unlock h)
    return .ok
  else
    step i (.unlock h)
    return .released

/-- The sampling of one row of `nif_step`: whether its sampler is live. -/
def sampleRow (c s : Handle) : Part Bool := do
  step i (.lock s)
  if ← step i (.objLive s) then
    step i (.use [c, s])
    step i (.unlock s)
    return true
  else
    step i (.unlock s)
    return false

/-- The sampling loop of `nif_step`. -/
def sampleRows (c : Handle) : List Handle → Part Bool
  | []      => return true
  | s :: ss => do
    if ← sampleRow i c s then sampleRows c ss else return false

/-- `nif_step`. -/
def nifStep (c : Handle) (samplers : List Handle) : Call := do
  step i (.lock c)
  if ← step i (.objLive c) then
    if ← sampleRows i c samplers then
      step i (.useContext c true)
      step i (.unlock c)
      return .ok
    else
      step i (.unlock c)
      return .released
  else
    step i (.unlock c)
    return .released

/-- A call that decodes with a context and another object, whose mutex is taken second:
    `nif_media_prefill` with its projector, and `nif_spec_step` with its sampler. -/
def nifOnBoth (c h : Handle) : Call := do
  step i (.lock c)
  if ← step i (.objLive c) then
    -- the context's lock comes first, then the other one's
    step i (.lock h)
    if ← step i (.objLive h) then
      step i (.use [h])
      step i (.useContext c true)
      step i (.unlock h)
      step i (.useContext c false)
      step i (.unlock c)
      return .ok
    else
      step i (.unlock h)
      step i (.unlock c)
      return .released
  else
    step i (.unlock c)
    return .released

/-- `nif_sampler_new`. -/
def nifSamplerNew (c : Nat) : Call := do
  step i (.lock ⟨.context, c⟩)
  if ← step i (.objLive ⟨.context, c⟩) then
    step i (.use [⟨.context, c⟩])
    step i (.unlock ⟨.context, c⟩)
    -- built after the unlock: nothing of the context is used from here on
    let made ← step i (.newSampler c)
    return if made then .ok else .failed
  else
    step i (.unlock ⟨.context, c⟩)
    return .released

/-- The wrappers in the order of their addresses, each once: the first loop of
    `nif_set_adapters` sorts the entries and passes over equal neighbours. -/
def lockOrder (adapters : List Nat) : List Nat := (adapters.mergeSort (· ≤ ·)).dedup

/-- Unlock every adapter of the list. -/
def unlockAll : List Nat → Part Unit
  | []      => return ()
  | a :: as => do
    step i (.unlock ⟨.adapter, a⟩)
    unlockAll as

/-- The locking loop of `nif_set_adapters`: whether all are live; if not, all that were locked
    are unlocked again. -/
def lockAdapters : List Nat → List Nat → Part Bool
  | _,    []      => return true
  | done, a :: as => do
    step i (.lock ⟨.adapter, a⟩)
    if ← step i (.objLive ⟨.adapter, a⟩) then lockAdapters (done ++ [a]) as
    else
      unlockAll i (done ++ [a])
      return false

/-- `nif_set_adapters`, of adapters with their scales. -/
def nifSetAdapters (c : Handle) (adapters : List (Nat × ℚ)) : Call := do
  let order := lockOrder (adapters.map Prod.fst)
  if ← lockAdapters i [] order then
    step i (.lock c)
    if ← step i (.objLive c) then
      step i (.install c adapters)
      step i (.unlock c)
      unlockAll i order
      return .ok
    else
      step i (.unlock c)
      unlockAll i order
      return .released
  else return .released

/-- The destructors of the wrappers that borrow, and of samplers. -/
def destroy (h : Handle) : Call := do
  match ← step i (.finalize h) with
  | none        => return .ok
  | some (k, m) =>
    dropModel i k m
    return .ok

/-- `model_dtor`. -/
def destroyModel (m : Nat) : Call := do
  step i (.finalizeModel m)
  return .ok

/-! ### The system -/

/-- The calls that Erlang makes; an argument of a call is a number of a wrapper whose type the
    call has checked. -/
inductive NifCall where
  | loadModel
  | freeModel (m : Nat)
  | newContext (m : Nat)
  | adapterLoad (m : Nat)
  | mtmdInit (m : Nat)
  | onModel (m : Nat) (orPending : Bool)
  | chatTemplatesInit (m : Nat)
  | freeContext (c : Nat)
  | adapterFree (a : Nat)
  | mtmdFree (h : Nat)
  | samplerFree (s : Nat)
  | onContext (c : Nat) (decodes : Bool)
  | mtmdCaps (h : Nat)
  | step (c : Nat) (samplers : List Nat)
  | specStep (c s : Nat)
  | mediaPrefill (c h : Nat)
  | samplerNew (c : Nat)
  | setAdapters (c : Nat) (adapters : List (Nat × ℚ))

/-- The wrappers that a call is called with. -/
def NifCall.args : NifCall → List Handle
  | .loadModel => []
  | .freeModel m | .newContext m | .adapterLoad m | .mtmdInit m | .onModel m _
  | .chatTemplatesInit m => [modelHandle m]
  | .freeContext c | .onContext c _ | .samplerNew c => [⟨.context, c⟩]
  | .adapterFree a => [⟨.adapter, a⟩]
  | .mtmdFree h | .mtmdCaps h => [⟨.mtmd, h⟩]
  | .samplerFree s => [⟨.sampler, s⟩]
  | .step c samplers => ⟨.context, c⟩ :: samplers.map (⟨.sampler, ·⟩)
  | .specStep c s => [⟨.context, c⟩, ⟨.sampler, s⟩]
  | .mediaPrefill c h => [⟨.context, c⟩, ⟨.mtmd, h⟩]
  | .setAdapters c adapters => ⟨.context, c⟩ :: adapters.map fun a => ⟨.adapter, a.1⟩

/-- What the call does. -/
def NifCall.program (i : Tid) : NifCall → Call
  | .loadModel              => nifLoadModel i
  | .freeModel m            => nifFreeModel i m
  | .newContext m           => nifAttach i .context m
  | .adapterLoad m          => nifAttach i .adapter m
  | .mtmdInit m             => nifAttach i .mtmd m
  | .onModel m orPending    => nifOnModel i m orPending
  | .chatTemplatesInit m    => nifChatTemplatesInit i m
  | .freeContext c          => nifFreeContext i ⟨.context, c⟩
  | .adapterFree a          => nifFree i ⟨.adapter, a⟩
  | .mtmdFree h             => nifFree i ⟨.mtmd, h⟩
  | .samplerFree s          => nifFree i ⟨.sampler, s⟩
  | .onContext c decodes    => nifOnContext i ⟨.context, c⟩ decodes
  | .mtmdCaps h             => nifMtmdCaps i ⟨.mtmd, h⟩
  | .step c samplers        => nifStep i ⟨.context, c⟩ (samplers.map (⟨.sampler, ·⟩))
  | .specStep c s           => nifOnBoth i ⟨.context, c⟩ ⟨.sampler, s⟩
  | .mediaPrefill c h       => nifOnBoth i ⟨.context, c⟩ ⟨.mtmd, h⟩
  | .samplerNew c           => nifSamplerNew i c
  | .setAdapters c adapters => nifSetAdapters i ⟨.context, c⟩ adapters

/-- The handle of the wrapper that a wrapper keeps alive. -/
def Wrap.kept (w : Wrap) : List Handle :=
  (w.modelRes.map modelHandle).toList ++ (w.ctxRes.map (Handle.mk .context)).toList

/-- The wrapper is there. -/
def Mem.present (s : Mem) (h : Handle) : Bool :=
  match h.kind with
  | .model => (s.models.lookup h.addr).isSome
  | _      => (s.wraps.lookup h).isSome

/-- The wrapper is there, and nothing refers to it. -/
def Mem.garbage (s : Mem) (h : Handle) : Bool :=
  s.present h && !s.termed h && s.claims.values.all (fun c => !c.refs.contains h) &&
  s.wraps.values.all (fun w => !w.kept.contains h)

/-- The destructor of a wrapper. -/
def destructor (i : Tid) (h : Handle) : Call :=
  match h.kind with
  | .model => destroyModel i h.addr
  | _      => destroy i h

/-- The memory and the running calls. -/
structure Sys where
  mem : Mem
  calls : Tid → Option Call
  next : Tid

def Sys.init : Sys := ⟨Mem.init, fun _ => none, 0⟩

/-- One step of the system: Erlang makes a call, with terms that it has; a running call performs
    its next step; one that has ended returns; the last term of a wrapper goes away; the garbage
    collector runs a destructor. -/
inductive Event where
  | call (c : NifCall)
  | act (i : Tid) (fails : Bool)
  | ret (i : Tid)
  | forget (h : Handle)
  | gc (h : Handle)

/-- What a step does to the mutexes. -/
def lockOp : Tid × Act → LockOp Handle
  | (_, .lock h)   => .acquire h
  | (_, .unlock h) => .release h
  | _              => .other

/-- A call starts, and keeps its arguments alive. -/
def Sys.spawn (s : Sys) (refs : List Handle) (p : Call) : Sys :=
  { mem := s.mem.setClaim s.next ⟨refs, none⟩
    calls := Function.update s.calls s.next (some p)
    next := s.next + 1 }

/-- A running call performs its next step, unless it has to wait for a mutex. -/
def Sys.act (s : Sys) (i : Tid) (fails : Bool) : Sys :=
  match s.calls i with
  | some (.act a k) =>
    match lockOp a with
    | .acquire h =>
      -- a call waits for its lock
      if s.mem.owner h = none then
        let r := perform fails a.1 a.2 s.mem
        { s with mem := r.2, calls := Function.update s.calls i (some (k r.1)) }
      else s
    | _ =>
      let r := perform fails a.1 a.2 s.mem
      { s with mem := r.2, calls := Function.update s.calls i (some (k r.1)) }
  | _ => s

/-- The effect of one event. -/
def sysStep (s : Sys) : Event → Sys
  | .call c =>
    if c.args.all s.mem.termed then s.spawn c.args (c.program s.next) else s
  | .act i fails => s.act i fails
  | .ret i =>
    match s.calls i with
    | some (.ret _) =>
      { s with
        mem := { s.mem with claims := s.mem.claims.erase i }
        calls := Function.update s.calls i none }
    | _ => s
  | .forget h => { s with mem := { s.mem with termed := Function.update s.mem.termed h false } }
  | .gc h => if s.mem.garbage h then s.spawn [h] (destructor s.next h) else s

end Erllama.Native.Handles
