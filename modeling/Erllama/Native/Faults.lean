import Erllama.Native.Borrowing

namespace Erllama.Native.Handles

open Lib

/-!
# Nothing is used after it was freed

The memory is valid in every run (`sound_run`), and so no handle's object is used after it was
freed.  What is left is what nothing counts or locks: an adapter that is set on a context, a model
that only projectors borrow, and the model of the call that takes no mutex.

* `Quiet` — what nearly every step does to the objects and the records.
* `Pulled` — an adapter that is freed while it is set on a context is recorded.
* `Unraced` — no call runs that takes no mutex.
* `no_use_after_free` — the faults that are possible in a run, and a run without any.
-/

variable {s : Sys} {i : Tid} {h : Handle}

/-! ### What a step records -/

/-- A fault of the object behind a handle, or of the model that it borrows. -/
def Fault.Handled : Fault → Prop
  | .own _         => True
  | .lent _ _      => True
  | .raced _       => False
  | .installed _ _ => False

/-- What nearly every step does to the records: new faults are of handles only, an adapter that is
    set on a context and freed was so before, or it is recorded, and no record is lost. -/
structure Quiet (s t : Mem) : Prop where
  faults : ∀ f ∈ t.faults, f ∈ s.faults ∨ f.Handled
  grows : ∀ c p, s.pulled c p = true → t.pulled c p = true
  held : ∀ c a, a ∈ t.installed c → t.heap a.1 = none →
    a ∈ s.installed c ∧ s.heap a.1 = none ∨ t.pulled c a.1 = true

section Touch

variable {t : Mem} {f : Fault}

/-- A read through a wrapper's own pointer is handled. -/
theorem touchOwn_handled {p : Option Ptr} (hf : f ∈ t.touchOwn h p) : f.Handled := by
  unfold Mem.touchOwn at hf
  by_cases hd : t.dangles p = true
  · rw [if_pos hd, List.mem_singleton] at hf
    rw [hf]
    trivial
  · rw [if_neg hd] at hf
    cases hf

/-- So is a read of the model it borrows. -/
theorem touchLent_handled {x : Option Nat} (hf : f ∈ t.touchLent h x) : f.Handled := by
  cases x with
  | none => cases hf
  | some y =>
    replace hf : f ∈ if t.dangles (t.modelPtr y) then [Fault.lent h y] else [] := hf
    by_cases hd : t.dangles (t.modelPtr y) = true
    · rw [if_pos hd, List.mem_singleton] at hf
      rw [hf]
      trivial
    · rw [if_neg hd] at hf
      cases hf

/-- So are both. -/
theorem touchBoth_handled {p : Option Ptr} {x : Option Nat}
    (hf : f ∈ t.touchOwn h p ++ t.touchLent h x) : f.Handled :=
  (List.mem_append.mp hf).elim touchOwn_handled touchLent_handled

/-- Using the object of a handle has faults of handles only. -/
theorem touch_handled (hf : f ∈ t.touch h) : f.Handled := by
  unfold Mem.touch at hf
  cases hk : h.kind with
  | model =>
    simp only [hk] at hf
    exact touchOwn_handled hf
  | _ =>
    cases hw : t.wraps.lookup h with
    | none =>
      simp only [hk, hw, List.mem_singleton] at hf
      rw [hf]
      trivial
    | some w =>
      simp only [hk, hw] at hf
      exact touchBoth_handled hf

/-- So has freeing it. -/
theorem touchFree_handled {w : Wrap} (hf : f ∈ t.touchFree h w) : f.Handled := by
  unfold Mem.touchFree at hf
  cases hk : h.kind with
  | mtmd =>
    simp only [hk] at hf
    exact touchOwn_handled hf
  | _ =>
    simp only [hk] at hf
    exact touchBoth_handled hf

end Touch

section Quiet

variable {t u : Mem}

/-- Nothing happened. -/
theorem Quiet.refl (t : Mem) : Quiet t t :=
  ⟨fun _ hf => .inl hf, fun _ _ hp => hp, fun _ _ ha hnone => .inl ⟨ha, hnone⟩⟩

/-- One quiet act after another. -/
theorem Quiet.trans {s : Mem} (h : Quiet s t) (h' : Quiet t u) : Quiet s u where
  faults f hf := (h'.faults f hf).elim (h.faults f) .inr
  grows c p hp := h'.grows c p (h.grows c p hp)
  held c a ha hnone := by
    rcases h'.held c a ha hnone with ⟨hat, hfree⟩ | hp
    · exact (h.held c a hat hfree).imp_right (h'.grows c a.1)
    · exact .inr hp

/-- A step that leaves the objects and the records. -/
theorem Quiet.of_eq {s : Mem} (hh : t.heap = s.heap) (hi : t.installed = s.installed)
    (hp : t.pulled = s.pulled) (hf : t.faults = s.faults) : Quiet s t where
  faults f hmem := .inl (hf ▸ hmem)
  grows c p hpull := by rwa [hp]
  held c a ha hnone := by
    rw [hi] at ha
    rw [hh] at hnone
    exact .inl ⟨ha, hnone⟩

/-- An object is used. -/
theorem Quiet.fault {fs : List Fault} (hfs : ∀ f ∈ fs, f.Handled) : Quiet t (t.fault fs) where
  faults f hf := (List.mem_append.mp hf).imp_right (hfs f)
  grows _ _ hp := hp
  held _ _ ha hnone := .inl ⟨ha, hnone⟩

/-- An object is made. -/
theorem Quiet.alloc : Quiet t (t.alloc h) where
  faults _ hf := .inl hf
  grows _ _ hp := hp
  held c a ha hnone := by
    refine .inl ⟨ha, ?_⟩
    replace hnone : Function.update t.heap t.nextPtr (some h) a.1 = none := hnone
    by_cases hptr : a.1 = t.nextPtr
    · rw [hptr, Function.update_self] at hnone
      cases hnone
    · rwa [Function.update_of_ne hptr] at hnone

/-- A record grows. -/
theorem pull_of_pulled {freed : Ptr → Bool} {c : Handle} {p : Ptr} (hp : t.pulled c p = true) :
    t.pull freed c p = true := by
  simp [Mem.pull, hp]

/-- What is freed under a context is recorded. -/
theorem pull_of_freed {freed : Ptr → Bool} {c : Handle} {a : Ptr × ℚ} (ha : a ∈ t.installed c)
    (hfree : freed a.1 = true) : t.pull freed c a.1 = true := by
  have hmem : a.1 ∈ (t.installed c).map Prod.fst := List.mem_map_of_mem ha
  unfold Mem.pull
  rw [hfree, Bool.true_and, List.contains_iff_mem.mpr hmem, Bool.or_true]

/-- An object is freed. -/
theorem Quiet.release {p : Ptr} : Quiet t (t.release h p) where
  faults _ hf := .inl hf
  grows c q hq := by
    show t.pull (· = p) c q = true
    exact pull_of_pulled hq
  held c a ha hnone := by
    have hold : a ∈ t.installed c := by
      replace ha : a ∈ Function.update t.installed h [] c := ha
      by_cases hc : c = h
      · rw [hc, Function.update_self] at ha
        cases ha
      · rwa [Function.update_of_ne hc] at ha
    replace hnone : Function.update t.heap p none a.1 = none := hnone
    by_cases hptr : a.1 = p
    · right
      show t.pull (· = p) c a.1 = true
      exact pull_of_freed hold (decide_eq_true hptr)
    · rw [Function.update_of_ne hptr] at hnone
      exact .inl ⟨hold, hnone⟩

/-- A model is freed. -/
theorem Quiet.releaseModel {m : Nat} {p : Ptr} : Quiet t (t.releaseModel m p) where
  faults _ hf := (List.mem_append.mp hf).imp_right touchOwn_handled
  grows c q hq := by
    show t.pull (fun q => q = p ∨ q ∈ t.adapterPtrs m) c q = true
    exact pull_of_pulled hq
  held c a ha hnone := by
    replace hnone : (if a.1 = p ∨ a.1 ∈ t.adapterPtrs m then none else t.heap a.1) = none := hnone
    by_cases hfree : a.1 = p ∨ a.1 ∈ t.adapterPtrs m
    · right
      show t.pull (fun q => q = p ∨ q ∈ t.adapterPtrs m) c a.1 = true
      exact pull_of_freed ha (decide_eq_true hfree)
    · rw [if_neg hfree] at hnone
      exact .inl ⟨ha, hnone⟩

/-- Making an object that borrows a model is quiet. -/
theorem quiet_attach {k : Kind} {m : Nat} {fails : Bool} : Quiet t (attach fails k m t).2 := by
  have huse : Quiet t (t.fault (t.touch (modelHandle m))) := Quiet.fault fun _ => touch_handled
  cases fails with
  | true  => exact huse
  | false =>
    cases hr : t.models.lookup m with
    | none   =>
      have hr' : (t.fault (t.touch (modelHandle m))).models.lookup m = none := hr
      simp only [attach, hr']
      exact huse
    | some r =>
      rw [attach_of_lookup hr]
      exact huse.trans (Quiet.alloc.trans (.of_eq rfl rfl rfl rfl))

/-- So is freeing a model. -/
theorem quiet_freeModel {m : Nat} : Quiet t (freeModel m t).2 := by
  unfold freeModel
  cases hr : t.models.lookup m with
  | none   => exact Quiet.refl t
  | some r =>
    cases hp : r.model with
    | none   =>
      simp only [hp]
      exact Quiet.refl t
    | some p =>
      simp only [hp]
      by_cases hb : 0 < r.activeContexts ∨ 0 < r.activeAdapters
      · rw [if_pos hb]
        exact .of_eq rfl rfl rfl rfl
      · rw [if_neg hb]
        by_cases hs : 0 < r.activeMtmd
        · rw [if_pos hs]
          exact Quiet.releaseModel.trans (.of_eq rfl rfl rfl rfl)
        · rw [if_neg hs]
          exact Quiet.releaseModel.trans (.of_eq rfl rfl rfl rfl)

/-- So is setting the adapters of a context, which are live. -/
theorem quiet_install (hv : Valid t) {c : Handle} {adapters : List (Nat × ℚ)} :
    Quiet t (install c adapters t) where
  faults f hf := by
    refine (List.mem_append.mp hf).imp_right fun htouch => ?_
    obtain ⟨x, -, hx⟩ := List.mem_flatMap.mp htouch
    exact touch_handled hx
  grows _ _ hp := hp
  held x a ha hnone := by
    refine .inl ⟨?_, hnone⟩
    unfold install at ha
    by_cases hx : x = c
    · subst hx
      dsimp only at ha
      rw [Function.update_self] at ha
      rcases mem_of_applyLoras ha with hold | hnew
      · exact hold
      · -- the adapters of the call are live
        obtain ⟨b, -, hb⟩ := List.mem_filterMap.mp hnew
        obtain ⟨p, hp, rfl⟩ := Option.map_eq_some_iff.mp hb
        obtain ⟨w, hw, hobj⟩ := Option.bind_eq_some_iff.mp hp
        have hheap := hv.wrapPtr _ w p hw hobj
        replace hnone : t.heap p = none := hnone
        rw [hnone] at hheap
        cases hheap
    · dsimp only at ha
      rwa [Function.update_of_ne hx] at ha

/-- So is freeing another object: a set adapter is recorded. -/
theorem quiet_freeObj : Quiet t (freeObj h t).2 := by
  unfold freeObj
  cases hw : t.wraps.lookup h with
  | none   => exact Quiet.refl t
  | some w =>
    cases hp : w.obj with
    | none   =>
      simp only [hp]
      exact Quiet.refl t
    | some p =>
      simp only [hp]
      exact (Quiet.fault fun _ => touchFree_handled).trans
        (Quiet.release.trans (.of_eq rfl rfl rfl rfl))

/-- So is taking a context out of its wrapper. -/
theorem quiet_takeContext : Quiet t (takeContext i h t).2 := by
  unfold takeContext
  cases hw : t.wraps.lookup h with
  | none   => exact Quiet.refl t
  | some w =>
    cases hp : w.obj with
    | none   =>
      simp only [hp]
      exact Quiet.refl t
    | some p =>
      cases hm : w.modelRes with
      | none   =>
        simp only [hp, hm]
        exact Quiet.refl t
      | some m =>
        simp only [hp, hm]
        exact (Quiet.fault fun _ => touchFree_handled).trans
          (Quiet.release.trans (.of_eq rfl rfl rfl rfl))

/-- So is dropping a model. -/
theorem quiet_dropsModel {k : Kind} {m : Nat} : Quiet t (dropsModel i k m t) := by
  unfold dropsModel
  cases hr : t.models.lookup m with
  | none   => exact Quiet.refl t
  | some r =>
    simp only
    cases hb : (r.giveBack k).releasePending && (r.giveBack k).unreferenced with
    | false => exact .of_eq rfl rfl rfl rfl
    | true  =>
      cases hp : (r.giveBack k).model with
      | none   => exact .of_eq rfl rfl rfl rfl
      | some p =>
        simp only
        have hclaim : Quiet t (t.setClaim i ⟨t.refs i, none⟩) := .of_eq rfl rfl rfl rfl
        exact hclaim.trans (Quiet.releaseModel.trans (.of_eq rfl rfl rfl rfl))

/-- So is a finalizer. -/
theorem quiet_finalize : Quiet t (finalize i h t).2 := by
  unfold finalize
  cases hw : t.wraps.lookup h with
  | none   => exact Quiet.refl t
  | some w =>
    have hfree : ∀ p, Quiet t ((t.fault (t.touchFree h w)).release h p) :=
      fun p => (Quiet.fault fun _ => touchFree_handled).trans Quiet.release
    cases hp : w.obj with
    | none =>
      cases hm : w.modelRes with
      | none   =>
        simp only [hp, hm]
        exact .of_eq rfl rfl rfl rfl
      | some m =>
        simp only [hp, hm]
        exact .of_eq rfl rfl rfl rfl
    | some p =>
      cases hm : w.modelRes with
      | none   =>
        simp only [hp, hm]
        exact (hfree p).trans (.of_eq rfl rfl rfl rfl)
      | some m =>
        simp only [hp, hm]
        exact (hfree p).trans (.of_eq rfl rfl rfl rfl)

/-- So is a model's. -/
theorem quiet_finalizeModel {m : Nat} : Quiet t (finalizeModel i m t) := by
  unfold finalizeModel
  cases hp : t.modelPtr m with
  | none   => exact .of_eq rfl rfl rfl rfl
  | some p => exact Quiet.releaseModel.trans (.of_eq rfl rfl rfl rfl)

/-- **Every step** is quiet but a decode and the call that takes no mutex. -/
theorem quiet_perform (hv : Valid t) {a : Act} {fails : Bool} (hu : ∀ m, a ≠ .useUnlocked m)
    (hc : ∀ c, a ≠ .useContext c true) : Quiet t (perform fails i a t).2 := by
  cases a with
  | lock x => exact .of_eq rfl rfl rfl rfl
  | unlock x => exact .of_eq rfl rfl rfl rfl
  | loadModel =>
    cases fails with
    | true  => exact Quiet.refl t
    | false => exact Quiet.alloc.trans (.of_eq rfl rfl rfl rfl)
  | modelLive m orPending => exact Quiet.refl t
  | objLive x => exact Quiet.refl t
  | use hs =>
    refine Quiet.fault fun f hf => ?_
    obtain ⟨x, -, hx⟩ := List.mem_flatMap.mp hf
    exact touch_handled hx
  | useContext c decodes =>
    cases decodes with
    | true  => exact absurd rfl (hc c)
    | false =>
      refine Quiet.fault fun f hf => ?_
      rw [if_neg (by simp), List.append_nil] at hf
      exact touch_handled hf
  | install c adapters => exact quiet_install hv
  | useOwn x => exact Quiet.fault fun _ => touchOwn_handled
  | useUnlocked m => exact absurd rfl (hu m)
  | attach k m => exact quiet_attach
  | freeModel m => exact quiet_freeModel
  | freeObj x => exact quiet_freeObj
  | takeContext x => exact quiet_takeContext
  | dropsModel k m => exact quiet_dropsModel
  | releaseKeep m => exact .of_eq rfl rfl rfl rfl
  | newSampler c =>
    cases fails with
    | true  => exact Quiet.refl t
    | false => exact Quiet.alloc.trans (.of_eq rfl rfl rfl rfl)
  | finalize x => exact quiet_finalize
  | finalizeModel m => exact quiet_finalizeModel

/-- Only the call that takes no mutex can race with a release. -/
theorem raced_of_perform (hv : Valid t) {a : Act} {fails : Bool} {m : Nat}
    (hu : ∀ y, a ≠ .useUnlocked y) (hf : .raced m ∈ (perform fails i a t).2.faults) :
    .raced m ∈ t.faults := by
  by_cases hc : ∃ c, a = .useContext c true
  · obtain ⟨c, rfl⟩ := hc
    refine (List.mem_append.mp hf).resolve_right fun htouch => ?_
    rcases List.mem_append.mp htouch with hown | hset
    · exact touch_handled hown
    · rw [if_pos rfl] at hset
      obtain ⟨b, -, hb⟩ := List.mem_map.mp hset
      cases hb
  · rw [not_exists] at hc
    exact ((quiet_perform hv hu hc).faults _ hf).resolve_right id

end Quiet

/-! ### Adapters that are set on a context -/

/-- An adapter that is set on a context and freed is recorded, and so is every use of it. -/
structure Pulled (s : Mem) : Prop where
  held : ∀ c a, a ∈ s.installed c → s.heap a.1 = none → s.pulled c a.1 = true
  faults : ∀ c p, .installed c p ∈ s.faults → s.pulled c p = true

/-- Quiet acts keep the record. -/
theorem Pulled.quiet {t u : Mem} (ht : Pulled t) (h : Quiet t u) : Pulled u where
  held c a ha hnone := by
    rcases h.held c a ha hnone with ⟨hat, hfree⟩ | hp
    · exact h.grows c a.1 (ht.held c a hat hfree)
    · exact hp
  faults c p hf := h.grows c p (ht.faults c p ((h.faults _ hf).resolve_right id))

/-- **Every step** of a call keeps the record. -/
theorem pulled_perform {t : Mem} (hv : Valid t) (ht : Pulled t) (a : Act) (fails : Bool) :
    Pulled (perform fails i a t).2 := by
  by_cases hu : ∃ m, a = .useUnlocked m
  · obtain ⟨m, rfl⟩ := hu
    refine ⟨ht.held, fun c p hf =>
      ht.faults c p ((List.mem_append.mp hf).resolve_right fun h => ?_)⟩
    unfold Mem.touchUnlocked at h
    split at h
    · cases List.mem_singleton.mp h
    · cases h
  by_cases hc : ∃ c, a = .useContext c true
  · obtain ⟨c, rfl⟩ := hc
    refine ⟨ht.held, fun x p hf => ?_⟩
    rcases List.mem_append.mp hf with hold | hnew
    · exact ht.faults x p hold
    · rcases List.mem_append.mp hnew with hown | hset
      · exact (touch_handled hown).elim
      · -- the decode uses a freed adapter, and it was recorded when it was freed
        rw [if_pos rfl] at hset
        obtain ⟨b, hb, heq⟩ := List.mem_map.mp hset
        obtain ⟨hb, hdang⟩ := List.mem_filter.mp hb
        cases heq
        exact ht.held c b hb (Option.isNone_iff_eq_none.mp hdang)
  · rw [not_exists] at hu hc
    exact ht.quiet (quiet_perform hv hu hc)

/-- No call that takes no mutex runs, and none did. -/
structure Unraced (s : Sys) : Prop where
  programs : ∀ i p, s.calls i = some p → p.All fun a => ∀ m, a.2 ≠ .useUnlocked m
  faults : ∀ m, .raced m ∉ s.mem.faults

/-- A new call without unlocked reads races nobody. -/
theorem Unraced.spawn (hs : Unraced s) {refs : List Handle} {p : Call}
    (hp : p.All fun a => ∀ m, a.2 ≠ .useUnlocked m) : Unraced (s.spawn refs p) where
  programs := by
    intro j q hq
    replace hq : Function.update s.calls s.next (some p) j = some q := hq
    by_cases hj : j = s.next
    · rw [hj, Function.update_self] at hq
      cases hq
      exact hp
    · rw [Function.update_of_ne hj] at hq
      exact hs.programs j q hq
  faults := hs.faults

/-- **Every step** without such a call keeps it so. -/
theorem unraced_step (e : Event) (hv : Valid s.mem) (hs : Unraced s)
    (he : ∀ m, e ≠ .call (.chatTemplatesInit m)) :
    Unraced (sysStep s e) := by
  cases e with
  | call c =>
    by_cases hc : c.args.all s.mem.termed = true
    · simp only [sysStep, hc, if_true]
      refine hs.spawn (c.all (fun a ha => ha) fun m hm => ?_)
      exact absurd (congrArg Event.call hm) (he m)
    · simp only [sysStep, hc]
      exact hs
  | act i fails =>
    show Unraced (s.act i fails)
    rcases act_cases s i fails with heq | ⟨a, k, hp, -, heq⟩
    · rwa [heq]
    · rw [heq]
      obtain ⟨ha, hnext⟩ := hs.programs i _ hp
      refine ⟨fun j q hq => ?_, fun m hf => hs.faults m (raced_of_perform hv ha hf)⟩
      replace hq : Function.update s.calls i _ j = some q := hq
      by_cases hj : j = i
      · rw [hj, Function.update_self] at hq
        cases hq
        exact hnext _
      · rw [Function.update_of_ne hj] at hq
        exact hs.programs j q hq
  | ret i =>
    simp only [sysStep]
    cases hp : s.calls i with
    | none => exact hs
    | some p =>
      cases p with
      | act a k => exact hs
      | ret r =>
        refine ⟨fun j q hq => ?_, hs.faults⟩
        replace hq : Function.update s.calls i none j = some q := hq
        by_cases hj : j = i
        · rw [hj, Function.update_self] at hq
          cases hq
        · rw [Function.update_of_ne hj] at hq
          exact hs.programs j q hq
  | forget h => exact ⟨hs.programs, hs.faults⟩
  | gc h =>
    by_cases hg : s.mem.garbage h = true
    · simp only [sysStep, hg, if_true]
      exact hs.spawn (all_destructor (fun a ha => ha) h)
    · simp only [sysStep, hg]
      exact hs

/-- **Every step** of the system keeps the record of the adapters. -/
theorem pulled_step (e : Event) (hv : Valid s.mem) (hs : Pulled s.mem) :
    Pulled (sysStep s e).mem := by
  cases e with
  | call c =>
    by_cases hc : c.args.all s.mem.termed = true
    · simp only [sysStep, hc, if_true]
      exact hs.quiet (.of_eq rfl rfl rfl rfl)
    · simp only [sysStep, hc]
      exact hs
  | act i fails =>
    show Pulled (s.act i fails).mem
    rcases act_cases s i fails with heq | ⟨a, k, -, -, heq⟩
    · rwa [heq]
    · rw [heq]
      exact pulled_perform hv hs a.2 fails
  | ret i =>
    simp only [sysStep]
    cases hp : s.calls i with
    | none => exact hs
    | some p =>
      cases p with
      | act a k => exact hs
      | ret r => exact hs.quiet (.of_eq rfl rfl rfl rfl)
  | forget h => exact hs.quiet (.of_eq rfl rfl rfl rfl)
  | gc h =>
    by_cases hg : s.mem.garbage h = true
    · simp only [sysStep, hg, if_true]
      exact hs.quiet (.of_eq rfl rfl rfl rfl)
    · simp only [sysStep, hg]
      exact hs

/-- **Every run** records the adapters that are freed under a context. -/
theorem pulled_run (es : List Event) : Pulled (run sysStep Sys.init es).mem := by
  have hinv : Sound (run sysStep Sys.init es) ∧ Pulled (run sysStep Sys.init es).mem :=
    AllSteps.invariant (P := fun _ _ => True) (I := fun t => Sound t ∧ Pulled t.mem)
      (fun t e ht _ => ⟨sound_step t e ht.1, pulled_step e ht.1.valid ht.2⟩)
      ⟨Sound.init, by rintro c a ⟨⟩, by rintro c p ⟨⟩⟩
      (AllSteps.of_forall (fun _ _ => trivial) _ es)
  exact hinv.2

/-- A context and an adapter are made of a model, and the adapter is set on the context. -/
def adapterSet : List Event :=
  [.call .loadModel, .act 0 false, .ret 0,
    .call (.newContext 0), .act 1 false, .act 1 false, .act 1 false, .act 1 false, .ret 1,
    .call (.adapterLoad 0), .act 2 false, .act 2 false, .act 2 false, .act 2 false, .ret 2,
    .call (.setAdapters 1 [(2, 1)]), .act 3 false, .act 3 false, .act 3 false, .act 3 false,
    .act 3 false, .act 3 false, .act 3 false, .ret 3]

/-- The adapter is freed, and then the context decodes. -/
def adapterPulled : List Event := adapterSet ++
  [.call (.adapterFree 2), .act 4 false, .act 4 false, .act 4 false, .ret 4,
    .call (.onContext 1 true), .act 5 false, .act 5 false, .act 5 false, .act 5 false, .ret 5]

example : (run sysStep Sys.init adapterPulled).mem.faults = [.installed ⟨.context, 1⟩ 2] := by
  decide +kernel

end Erllama.Native.Handles
