import Erllama.Model.State

namespace Erllama.Model

/-!
# LoRA adapters (`erllama_model`, "LoRA mutation helpers")

Each change applies the whole adapter list to the context again and recomputes the effective
fingerprint.  A failure leaves the process's own list and fingerprint as they were; what the
backend did before it is not undone.

* `finalizeRecompute` — the new effective fingerprint.
* `loadAdapter`, `unloadAdapter`, `setAdapterScale` — the three operations.
-/

variable {σ γ Sid : Type} (env : Env σ γ) (d : Data σ γ Sid)

/-- The `{Sha, Scale}` pairs of the adapter list. -/
def shaScales (adapters : List Adapter) : List (Digest × ℚ) :=
  adapters.map fun a => (a.sha, a.scale)

/-- The context calls of an operation that failed stay made. -/
def afterFailure (d' : Data σ γ Sid) : Data σ γ Sid := withSys d d'.sys

/-- `finalize_recompute/2`. -/
def finalizeRecompute : Data σ γ Sid :=
  { d with
    effectiveFp := effectiveFingerprint env.sha256 env.cfg.fingerprint (shaScales d.adapters) }

/-- `apply_and_recompute/2` with the new adapter list in place: an error, or the new state. -/
def applyAndRecompute : Option Reason × Data σ γ Sid :=
  match env.be.applyAdapters with
  | none => (none, finalizeRecompute env d)
  | some applyAdapters =>
    let res := applyAdapters d.sys.ctx (d.adapters.map fun a => (a.handle, a.scale))
    let d := withSys d { d.sys with ctx := res.2 }
    match res.1 with
    | .ok _    => (none, finalizeRecompute env d)
    | .error e => (some e, d)

/-- Install a new adapter list, or leave the old one. -/
def changeAdapters (adapters : List Adapter) (onOk : Reply) : Reply × Data σ γ Sid :=
  let res := applyAndRecompute env { d with adapters := adapters }
  match res.1 with
  | none   => (onOk, res.2)
  | some e => (.error (.backend e), afterFailure d res.2)

/-- `load_adapter_impl/2`: the file is read for its hash before the backend loads it. -/
def loadAdapter (path : Path) (file : Option Bytes) : Reply × Data σ γ Sid :=
  match env.be.loadAdapter with
  | none => (.error .notSupported, d)
  | some loadAdapter =>
    match file with
    | none => (.error .file, d)
    -- the digest of the file is the adapter's name in the fingerprint
    | some content =>
      let res := loadAdapter d.sys.ctx path content
      let d := withSys d { d.sys with ctx := res.2 }
      match res.1 with
      | .ok handle =>
        changeAdapters env d (d.adapters ++ [⟨handle, env.sha256 content, 1⟩]) (.adapter handle)
      | .error e => (.error (.backend e), d)

/-- `find_adapter/2`: the first entry with the handle, and the list without it. -/
def findAdapter (handle : Ref) (adapters : List Adapter) : Option (Adapter × List Adapter) :=
  (adapters.find? fun a => a.handle = handle).map fun a =>
    (a, adapters.filter fun b => b.handle ≠ handle)

/-- `unload_adapter_impl/2`: an unknown handle is already unloaded. -/
def unloadAdapter (handle : Ref) : Reply × Data σ γ Sid :=
  match findAdapter handle d.adapters with
  -- an unknown handle is no error
  | none => (.ok, d)
  | some (_, rest) =>
    match env.be.unloadAdapter with
    | none => (.error .notSupported, d)
    | some unloadAdapter =>
      let res := unloadAdapter d.sys.ctx handle
      let d := withSys d { d.sys with ctx := res.2 }
      match res.1 with
      | .ok _    => changeAdapters env d rest .ok
      | .error e => (.error (.backend e), d)

/-- `set_adapter_scale_impl/3`: the entry moves to the end of the list. -/
def setAdapterScale (handle : Ref) (scale : ℚ) : Reply × Data σ γ Sid :=
  match findAdapter handle d.adapters with
  | none => (.error .notFound, d)
  | some (entry, rest) =>
    changeAdapters env d (rest ++ [{ entry with scale := scale }]) .ok

end Erllama.Model
