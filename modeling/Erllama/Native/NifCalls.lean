import Erllama.Native.Knowledge

namespace Erllama.Native.Handles

open Lib

/-!
# The calls keep the memory valid

Every call and every destructor walks through its steps with what it knows (`Knows`), whatever
the others do between them, and gives everything back before it ends (`Ended`).

* `runs_nif*`, `runs_destroy*` — the calls and the destructors.
* `NifCall.runs` — every call that Erlang can make.
-/

variable {s : Mem} {i : Tid} {h : Handle} {c : Claim} {live : Set Handle} {β : Type}
  {post : β → Mem → Prop}

/-! ### Destructors -/

/-- The finalizer of a wrapper nobody refers to: the thread goes on with the model it has to drop,
    if any. -/
theorem Runs.finalize {f : Option (Kind × Nat) → Part β} (ha : Alone s i h)
    (hkind : h.kind ≠ .model)
    (hnone : ∀ t, Valid t → Knows i ⟨[], none⟩ ∅ ∅ t → Runs i post (f none) t)
    (hsome : ∀ k m t, Valid t → Knows i ⟨[modelHandle m], some (k, m)⟩ ∅ ∅ t →
      Runs i post (f (some (k, m))) t) :
    Runs i post (step i (.finalize h) >>= f) s := by
  refine Runs.first (fun _ _ ha hr => hr.alone h ha) ha (fun _ _ ha => ⟨hkind, ha⟩)
    fun s _ hvs ha _ hv => ?_
  show Runs i post (f (Handles.finalize i h s).1) (Handles.finalize i h s).2
  replace hv : Valid (Handles.finalize i h s).2 := hv
  obtain ⟨w, hw⟩ := (present_wrap hkind).mp
    (hvs.held i _ h ha.claim (List.mem_singleton_self h))
  have howner : ∀ x, s.owner x = some i ↔ x ∈ (∅ : Set Handle) :=
    fun x => ⟨fun ho => ha.no_lock hvs x ho, fun hx => hx.elim⟩
  unfold Handles.finalize at hv ⊢
  cases hp : w.obj with
  | none =>
    cases hm : w.modelRes with
    | none =>
      simp only [hw, hp, hm] at hv ⊢
      exact hnone _ hv ⟨AList.lookup_insert _, howner, fun x hx => hx.elim⟩
    | some m =>
      simp only [hw, hp, hm] at hv ⊢
      exact hsome _ m _ hv ⟨AList.lookup_insert _, howner, fun x hx => hx.elim⟩
  | some p =>
    cases hm : w.modelRes with
    | none =>
      simp only [hw, hp, hm] at hv ⊢
      exact hnone _ hv ⟨AList.lookup_insert _, howner, fun x hx => hx.elim⟩
    | some m =>
      simp only [hw, hp, hm] at hv ⊢
      exact hsome _ m _ hv ⟨AList.lookup_insert _, howner, fun x hx => hx.elim⟩

/-- The rest of the drop functions: the call owes the model one borrowing, and has no mutex. -/
theorem runs_dropModel {k : Kind} {m : Nat} (hk : Knows i c ∅ live s) (hd : c.drop = some (k, m))
    (hm : modelHandle m ∈ c.refs) : Runs i (fun _ t => Ended i t) (dropModel i k m) s := by
  refine Runs.lock hk hm fun t _ _ hk => ?_
  refine Runs.dropsModel hk (Set.mem_insert _ _) hd fun t _ hk => ?_
  refine Runs.unlock hk (Set.mem_insert _ _) fun t _ hk => ?_
  show Runs i _ (step i (.releaseKeep m) >>= pure) t
  refine Runs.releaseKeep hk (by simp) rfl fun t _ hk => ?_
  exact Runs.done hk fun t hk => (hk.congr (by simp) rfl).ended rfl

/-- What other threads do keeps a thread that is through. -/
theorem Ended.rely {t : Mem} (he : Ended i s) (hr : Rely i s t) : Ended i t := by
  obtain ⟨hd, ho⟩ := he
  refine ⟨?_, fun h hown => ho h ((hr.owner h).mp hown)⟩
  unfold Mem.drop at hd ⊢
  rwa [hr.claim]

/-- A program that drops a model and returns. -/
theorem runs_dropModel_ret {k : Kind} {m : Nat} {r : Reply} (hv : Valid s)
    (hk : Knows i c ∅ live s) (hd : c.drop = some (k, m)) (hm : modelHandle m ∈ c.refs) :
    Runs i (fun _ t => Ended i t) (dropModel i k m >>= fun _ => pure r) s :=
  Runs.bind hv (runs_dropModel hk hd hm) fun _ _ _ he => Runs.ret (fun _ _ he hr => he.rely hr) he
    fun _ he => he

/-- The destructor of a wrapper other than a model's, once nobody refers to it. -/
theorem runs_destroy (ha : Alone s i h) (hkind : h.kind ≠ .model) :
    Runs i (fun _ t => Ended i t) (destroy i h) s := by
  refine Runs.finalize ha hkind (fun t _ hk => ?_) fun k m t hv hk => ?_
  · exact Runs.done hk fun t hk => hk.ended rfl
  · exact runs_dropModel_ret hv hk rfl (List.mem_singleton_self _)

/-- The destructor of a model wrapper, once nobody refers to it. -/
theorem runs_destroyModel {m : Nat} (ha : Alone s i (modelHandle m)) :
    Runs i (fun _ t => Ended i t) (destroyModel i m) s := by
  refine Runs.first (fun _ _ ha hr => hr.alone _ ha) ha (fun _ _ ha => ha)
    fun s _ hvs ha _ hv => ?_
  have hended : Ended i (finalizeModel i m s) := by
    unfold finalizeModel
    constructor
    · unfold Mem.drop Mem.setClaim
      rw [AList.lookup_insert]
      rfl
    · intro x hx
      cases hp : s.modelPtr m with
      | none   =>
        rw [hp] at hx
        exact ha.no_lock hvs x hx
      | some p =>
        rw [hp] at hx
        exact ha.no_lock hvs x hx
  exact Runs.ret (fun _ _ he hr => he.rely hr) hended fun _ he => he

/-! ### Calls -/

/-- The end of a call that has one mutex. -/
theorem runs_unlock_ret {r : Reply} (hk : Knows i c (insert h ∅) live s) (hd : c.drop = none) :
    Runs i (fun _ t => Ended i t) (step i (.unlock h) >>= fun _ => pure r) s := by
  refine Runs.unlock hk (Set.mem_insert _ _) fun t _ hk => ?_
  exact Runs.done hk fun t hk => (hk.congr (by simp) rfl).ended hd

section Calls

variable (hk : Knows i c ∅ ∅ s) (hd : c.drop = none)
include hk hd

/-- Loading a model. -/
theorem runs_nifLoadModel : Runs i (fun _ t => Ended i t) (nifLoadModel i) s :=
  Runs.loadModel hk fun _ _ _ hk => Runs.done hk fun _ hk => hk.ended hd

/-- Freeing a model: the object goes at once, or its release is left pending. -/
theorem runs_nifFreeModel {m : Nat} (hm : modelHandle m ∈ c.refs) :
    Runs i (fun _ t => Ended i t) (nifFreeModel i m) s := by
  refine Runs.lock hk hm fun t _ _ hk => ?_
  refine Runs.freeModel hk (Set.mem_insert _ _) fun r t _ hk => ?_
  exact runs_unlock_ret hk hd

/-- Making an object that borrows a model: the model is kept while it is made. -/
theorem runs_nifAttach {k : Kind} {m : Nat} (hb : k.Borrows) (hm : modelHandle m ∈ c.refs) :
    Runs i (fun _ t => Ended i t) (nifAttach i k m) s := by
  refine Runs.lock hk hm fun t _ _ hk => ?_
  refine Runs.modelLocked hk (Set.mem_insert _ _) (fun t _ hk hopen => ?_) fun t _ hk => ?_
  · refine Runs.attach hk hb (Set.mem_insert _ _) (hopen rfl) fun b t _ hk => ?_
    exact runs_unlock_ret hk hd
  · exact runs_unlock_ret hk hd

/-- A call on a model. -/
theorem runs_nifOnModel {m : Nat} {orPending : Bool} (hm : modelHandle m ∈ c.refs) :
    Runs i (fun _ t => Ended i t) (nifOnModel i m orPending) s := by
  refine Runs.lock hk hm fun t _ _ hk => ?_
  refine Runs.modelLocked hk (Set.mem_insert _ _) (fun t _ hk _ => ?_) fun t _ hk => ?_
  · refine Runs.use hk (by simp) fun t _ hk => ?_
    exact runs_unlock_ret hk hd
  · exact runs_unlock_ret hk hd

/-- Chat templates, whose constructor reads the model after its mutex is given back. -/
theorem runs_nifChatTemplatesInit {m : Nat} :
    Runs i (fun _ t => Ended i t) (nifChatTemplatesInit i m) s := by
  refine Runs.modelLive hk fun b t _ hk => ?_
  cases b with
  | false => exact Runs.done hk fun t hk => hk.ended hd
  | true  =>
    refine Runs.useUnlocked hk fun t _ hk => ?_
    exact Runs.done hk fun t hk => hk.ended hd

/-- Freeing a context: its claim on the model moves to the thread and is dropped. -/
theorem runs_nifFreeContext (hctx : h.kind = .context) (hh : h ∈ c.refs) :
    Runs i (fun _ t => Ended i t) (nifFreeContext i h) s := by
  have hne : h.kind ≠ .model := by simp [hctx]
  refine Runs.lock hk hh fun t _ _ hk => ?_
  refine Runs.objLive hk (Set.mem_insert _ _) hne (fun t _ hk => ?_) fun t _ hk => ?_
  · refine Runs.takeContext hk (Set.mem_insert _ _) hctx hd (fun t _ hk => ?_)
      fun m t _ hk => ?_
    · exact runs_unlock_ret hk hd
    · refine Runs.unlock hk (Set.mem_insert _ _) fun t hv hk => ?_
      exact runs_dropModel_ret hv (hk.congr (by simp) rfl) rfl List.mem_cons_self
  · exact runs_unlock_ret hk hd

/-- Freeing an adapter, a multimodal context or a sampler, under its own mutex alone. -/
theorem runs_nifFree (hm : h.kind ≠ .model) (hctx : h.kind ≠ .context) (hh : h ∈ c.refs) :
    Runs i (fun _ t => Ended i t) (nifFree i h) s := by
  refine Runs.lock hk hh fun t _ _ hk => ?_
  refine Runs.freeObj hk (Set.mem_insert _ _) hm hctx fun b t _ hk => ?_
  exact runs_unlock_ret hk hd

/-- A call on a context. -/
theorem runs_nifOnContext {decodes : Bool} (hne : h.kind ≠ .model) (hh : h ∈ c.refs) :
    Runs i (fun _ t => Ended i t) (nifOnContext i h decodes) s := by
  refine Runs.lock hk hh fun t _ _ hk => ?_
  refine Runs.objLive hk (Set.mem_insert _ _) hne (fun t _ hk => ?_) fun t _ hk => ?_
  · refine Runs.useContext hk (by simp) fun t _ hk => ?_
    exact runs_unlock_ret hk hd
  · exact runs_unlock_ret hk hd

/-- The capabilities of a multimodal context. -/
theorem runs_nifMtmdCaps (hne : h.kind ≠ .model) (hh : h ∈ c.refs) :
    Runs i (fun _ t => Ended i t) (nifMtmdCaps i h) s := by
  refine Runs.lock hk hh fun t _ _ hk => ?_
  refine Runs.objLive hk (Set.mem_insert _ _) hne (fun t _ hk => ?_) fun t _ hk => ?_
  · refine Runs.useOwn hk (Set.mem_insert _ _) hne fun t _ hk => ?_
    exact runs_unlock_ret hk hd
  · exact runs_unlock_ret hk hd

/-- A call that takes the mutexes of two wrappers. -/
theorem runs_nifOnBoth {x : Handle} (hne : h.kind ≠ .model) (hxne : x.kind ≠ .model)
    (hxh : x ≠ h) (hh : h ∈ c.refs) (hx : x ∈ c.refs) :
    Runs i (fun _ t => Ended i t) (nifOnBoth i h x) s := by
  refine Runs.lock hk hh fun t _ _ hk => ?_
  refine Runs.objLive hk (Set.mem_insert _ _) hne (fun t _ hk => ?_) fun t _ hk => ?_
  · refine Runs.lock hk hx fun t _ _ hk => ?_
    refine Runs.objLive hk (Set.mem_insert _ _) hxne (fun t _ hk => ?_) fun t _ hk => ?_
    · refine Runs.use hk (by simp) fun t _ hk => ?_
      refine Runs.useContext hk (by simp) fun t _ hk => ?_
      refine Runs.unlock hk (Set.mem_insert _ _) fun t _ hk => ?_
      refine Runs.useContext hk (by simp [hxh.symm]) fun t _ hk => ?_
      refine Runs.unlock hk (by simp [hxh.symm]) fun t _ hk => ?_
      exact Runs.done hk fun t hk => (hk.congr (by aesop) rfl).ended hd
    · refine Runs.unlock hk (Set.mem_insert _ _) fun t _ hk => ?_
      refine Runs.unlock hk (by simp [hxh.symm]) fun t _ hk => ?_
      exact Runs.done hk fun t hk => (hk.congr (by aesop) rfl).ended hd
  · exact runs_unlock_ret hk hd

/-- A new sampler keeps its context. -/
theorem runs_nifSamplerNew {x : Nat} (hx : ⟨.context, x⟩ ∈ c.refs) :
    Runs i (fun _ t => Ended i t) (nifSamplerNew i x) s := by
  refine Runs.lock hk hx fun t _ _ hk => ?_
  refine Runs.objLive hk (Set.mem_insert _ _) (by simp) (fun t _ hk => ?_) fun t _ hk => ?_
  · refine Runs.use hk (by simp) fun t _ hk => ?_
    refine Runs.unlock hk (Set.mem_insert _ _) fun t _ hk => ?_
    refine Runs.newSampler hk hx fun b t _ hk => ?_
    exact Runs.done hk fun t hk => (hk.congr (by simp) rfl).ended hd
  · exact runs_unlock_ret hk hd

end Calls

/-! ### Calls with lists of wrappers -/

/-- One row is sampled: the context stays locked and live. -/
theorem runs_sampleRow {x : Handle} (hk : Knows i c (insert h ∅) (insert h ∅) s)
    (hxh : x ≠ h) (hxne : x.kind ≠ .model) (hx : x ∈ c.refs) :
    Runs i (fun _ t => Knows i c (insert h ∅) (insert h ∅) t) (sampleRow i h x) s := by
  have hheld : insert x (insert h ∅) \ {x} = (insert h ∅ : Set Handle) := by
    rw [Set.insert_sdiff_self_of_notMem]
    simpa using hxh
  refine Runs.lock hk hx fun t _ _ hk => ?_
  refine Runs.objLive hk (Set.mem_insert _ _) hxne (fun t _ hk => ?_) fun t _ hk => ?_
  · refine Runs.use hk (by simp) fun t _ hk => ?_
    refine Runs.unlock hk (Set.mem_insert _ _) fun t _ hk => ?_
    exact Runs.done hk fun t hk => hk.congr hheld hheld
  · refine Runs.unlock hk (Set.mem_insert _ _) fun t _ hk => ?_
    refine Runs.done hk fun t hk => hk.congr hheld ?_
    rw [Set.sdiff_singleton_eq_self]
    simpa using hxh

/-- The sampling loop takes and gives back one sampler at a time, under the context's mutex. -/
theorem runs_sampleRows {ss : List Handle} (hv : Valid s)
    (hk : Knows i c (insert h ∅) (insert h ∅) s)
    (hss : ∀ x ∈ ss, x ≠ h ∧ x.kind ≠ .model ∧ x ∈ c.refs) :
    Runs i (fun _ t => Knows i c (insert h ∅) (insert h ∅) t) (sampleRows i h ss) s := by
  induction ss generalizing s with
  | nil => exact Runs.done hk fun _ hk => hk
  | cons x ss ih =>
    obtain ⟨hxh, hxne, hx⟩ := hss x List.mem_cons_self
    refine Runs.bind hv (runs_sampleRow hk hxh hxne hx) fun b t hv hk => ?_
    cases b with
    | false => exact Runs.done hk fun _ hk => hk
    | true  => exact ih hv hk fun y hy => hss y (List.mem_cons_of_mem x hy)

/-- A step with a sampler for each of its rows. -/
theorem runs_nifStep {ss : List Handle} (hk : Knows i c ∅ ∅ s) (hd : c.drop = none)
    (hne : h.kind ≠ .model) (hh : h ∈ c.refs)
    (hss : ∀ x ∈ ss, x ≠ h ∧ x.kind ≠ .model ∧ x ∈ c.refs) :
    Runs i (fun _ t => Ended i t) (nifStep i h ss) s := by
  refine Runs.lock hk hh fun t _ _ hk => ?_
  refine Runs.objLive hk (Set.mem_insert _ _) hne (fun t hv hk => ?_) fun t _ hk => ?_
  · refine Runs.bind hv (runs_sampleRows hv hk hss) fun b t _ hk => ?_
    cases b with
    | false => exact runs_unlock_ret hk hd
    | true  =>
      refine Runs.useContext hk (by simp) fun t _ hk => ?_
      exact runs_unlock_ret hk hd
  · exact runs_unlock_ret hk hd

/-- The wrappers of adapters. -/
def adapterHandles (as : List Nat) : Set Handle := { x | x ∈ as.map (Handle.mk .adapter) }

/-- One more mutex held. -/
theorem insert_adapterHandles (done : List Nat) (a : Nat) :
    insert ⟨.adapter, a⟩ (adapterHandles done) = adapterHandles (done ++ [a]) := by
  ext x
  simp [adapterHandles, or_comm, eq_comm]

/-- Giving the adapters' mutexes back. -/
theorem runs_unlockAll {as : List Nat} (hnd : as.Nodup)
    (hk : Knows i c (adapterHandles as) live s) :
    Runs i (fun _ t => Knows i c ∅ ∅ t) (unlockAll i as) s := by
  induction as generalizing s live with
  | nil =>
    exact Runs.done hk fun t hk =>
      (hk.mono (Set.empty_subset _)).congr (by simp [adapterHandles]) rfl
  | cons a as ih =>
    obtain ⟨ha, hnd⟩ := List.nodup_cons.mp hnd
    refine Runs.unlock hk (by simp [adapterHandles]) fun t _ hk => ih hnd (hk.congr ?_ rfl)
    ext x
    simp only [adapterHandles, List.map_cons, List.mem_cons, Set.mem_sdiff, Set.mem_singleton_iff]
    constructor
    · rintro ⟨rfl | hx, hne⟩
      · exact absurd rfl hne
      · exact hx
    · intro hx
      refine ⟨.inr hx, ?_⟩
      rintro rfl
      obtain ⟨b, hb, heq⟩ := List.mem_map.mp hx
      cases heq
      exact ha hb

/-- The locking loop ends with every adapter locked and live, or with none locked. -/
theorem runs_lockAdapters {as done : List Nat} (hv : Valid s) (hnd : (done ++ as).Nodup)
    (hk : Knows i c (adapterHandles done) (adapterHandles done) s)
    (has : ∀ a ∈ as, ⟨.adapter, a⟩ ∈ c.refs) :
    Runs i (fun b t => if b = true
        then Knows i c (adapterHandles (done ++ as)) (adapterHandles (done ++ as)) t
        else Knows i c ∅ ∅ t) (lockAdapters i done as) s := by
  induction as generalizing s done with
  | nil =>
    refine Runs.done hk fun t hk => ?_
    rw [if_pos rfl, List.append_nil]
    exact hk
  | cons a as ih =>
    have hsplit : done ++ a :: as = (done ++ [a]) ++ as := by simp
    refine Runs.lock hk (has a List.mem_cons_self) fun t _ _ hk => ?_
    refine Runs.objLive hk (Set.mem_insert _ _) (by simp) (fun t hv hk => ?_) fun t hv hk => ?_
    · rw [insert_adapterHandles] at hk
      rw [hsplit] at hnd ⊢
      exact ih hv hnd hk fun b hb => has b (List.mem_cons_of_mem a hb)
    · rw [insert_adapterHandles] at hk
      have hnd' : (done ++ [a]).Nodup := by
        rw [hsplit] at hnd
        exact (List.nodup_append.mp hnd).1
      refine Runs.bind hv (runs_unlockAll hnd' hk) fun _ t _ hk => Runs.done hk fun t hk => ?_
      rw [if_neg (by simp)]
      exact hk

/-- The mutexes taken are those of the adapters asked for. -/
theorem mem_lockOrder {adapters : List Nat} {a : Nat} : a ∈ lockOrder adapters ↔ a ∈ adapters := by
  simp [lockOrder]

/-- No mutex is taken twice, whatever list of adapters was sent. -/
theorem lockOrder_nodup (adapters : List Nat) : (lockOrder adapters).Nodup :=
  List.nodup_dedup _

/-- Setting the adapters of a context takes the mutexes of all of them. -/
theorem runs_nifSetAdapters {adapters : List (Nat × ℚ)} (hv : Valid s) (hk : Knows i c ∅ ∅ s)
    (hd : c.drop = none) (hctx : h.kind = .context) (hh : h ∈ c.refs)
    (has : ∀ a ∈ adapters, ⟨.adapter, a.1⟩ ∈ c.refs) :
    Runs i (fun _ t => Ended i t) (nifSetAdapters i h adapters) s := by
  have hnd := lockOrder_nodup (adapters.map Prod.fst)
  have hmem : ∀ a ∈ adapters, a.1 ∈ lockOrder (adapters.map Prod.fst) :=
    fun a ha => mem_lockOrder.mpr (List.mem_map_of_mem ha)
  have hrefs : ∀ x ∈ lockOrder (adapters.map Prod.fst), ⟨.adapter, x⟩ ∈ c.refs := by
    intro x hx
    obtain ⟨a, ha, rfl⟩ := List.mem_map.mp (mem_lockOrder.mp hx)
    exact has a ha
  unfold nifSetAdapters
  generalize lockOrder (adapters.map Prod.fst) = order at hnd hmem hrefs ⊢
  have hnot : h ∉ adapterHandles order := by
    intro hin
    obtain ⟨a, -, heq⟩ := List.mem_map.mp hin
    rw [← heq] at hctx
    cases hctx
  have hheld : insert h (adapterHandles order) \ {h} = adapterHandles order :=
    Set.insert_sdiff_self_of_notMem hnot
  have hstart : Knows i c (adapterHandles []) (adapterHandles []) s :=
    hk.congr (by simp [adapterHandles]) (by simp [adapterHandles])
  refine Runs.bind hv (runs_lockAdapters hv hnd hstart hrefs) fun b t hv hb => ?_
  cases b with
  | false =>
    rw [if_neg (by simp)] at hb
    exact Runs.done hb fun t hk => hk.ended hd
  | true =>
    rw [if_pos rfl, List.nil_append] at hb
    refine Runs.lock hb hh fun t _ _ hk => ?_
    refine Runs.objLive hk (Set.mem_insert _ _) (by simp [hctx]) (fun t _ hk => ?_)
      fun t _ hk => ?_
    · refine Runs.install hk (Set.mem_insert _ _) (fun a ha => ?_) fun t _ hk => ?_
      · exact .inr (List.mem_map_of_mem (hmem a ha))
      · refine Runs.unlock hk (Set.mem_insert _ _) fun t hv hk => ?_
        refine Runs.bind hv (runs_unlockAll hnd (hk.congr hheld rfl)) fun _ t _ hk => ?_
        exact Runs.done hk fun t hk => hk.ended hd
    · refine Runs.unlock hk (Set.mem_insert _ _) fun t hv hk => ?_
      refine Runs.bind hv (runs_unlockAll hnd (hk.congr hheld rfl)) fun _ t _ hk => ?_
      exact Runs.done hk fun t hk => hk.ended hd

/-- **Every call** keeps the memory valid, whatever the others do, and ends with no mutex and no
    borrowing to give up. -/
theorem NifCall.runs (call : NifCall) (hv : Valid s) (hk : Knows i ⟨call.args, none⟩ ∅ ∅ s) :
    Runs i (fun _ t => Ended i t) (call.program i) s := by
  cases call with
  | loadModel => exact runs_nifLoadModel hk rfl
  | freeModel m => exact runs_nifFreeModel hk rfl (by simp [args])
  | newContext m => exact runs_nifAttach hk rfl trivial (by simp [args])
  | adapterLoad m => exact runs_nifAttach hk rfl trivial (by simp [args])
  | mtmdInit m => exact runs_nifAttach hk rfl trivial (by simp [args])
  | onModel m orPending => exact runs_nifOnModel hk rfl (by simp [args])
  | chatTemplatesInit m => exact runs_nifChatTemplatesInit hk rfl
  | freeContext c => exact runs_nifFreeContext hk rfl rfl (by simp [args])
  | adapterFree a => exact runs_nifFree hk rfl (by simp) (by simp) (by simp [args])
  | mtmdFree x => exact runs_nifFree hk rfl (by simp) (by simp) (by simp [args])
  | samplerFree x => exact runs_nifFree hk rfl (by simp) (by simp) (by simp [args])
  | onContext c decodes => exact runs_nifOnContext hk rfl (by simp) (by simp [args])
  | mtmdCaps x => exact runs_nifMtmdCaps hk rfl (by simp) (by simp [args])
  | step c samplers =>
    refine runs_nifStep hk rfl (by simp) (by simp [args]) fun x hx => ?_
    obtain ⟨a, ha, rfl⟩ := List.mem_map.mp hx
    exact ⟨by simp, by simp, List.mem_cons_of_mem _ (List.mem_map_of_mem ha)⟩
  | specStep c x =>
    exact runs_nifOnBoth (h := ⟨.context, c⟩) (x := ⟨.sampler, x⟩) hk rfl (by simp) (by simp)
      (by simp) (by simp [args]) (by simp [args])
  | mediaPrefill c x =>
    exact runs_nifOnBoth (h := ⟨.context, c⟩) (x := ⟨.mtmd, x⟩) hk rfl (by simp) (by simp)
      (by simp) (by simp [args]) (by simp [args])
  | samplerNew c => exact runs_nifSamplerNew hk rfl (by simp [args])
  | setAdapters c adapters =>
    exact runs_nifSetAdapters hv hk rfl rfl (by simp [args])
      fun a ha => List.mem_cons_of_mem _ (List.mem_map_of_mem ha)

/-! ### The steps of a call -/

section Actions

variable {P : Tid × Act → Prop} (hP : ∀ a, (∀ m, a ≠ .useUnlocked m) → P (i, a))
include hP

/-- Dropping a claim on a model at the end of a call. -/
theorem all_dropModel_ret (k : Kind) (m : Nat) (r : Reply) :
    (dropModel i k m >>= fun _ => pure r).All P :=
  ⟨hP _ (by simp), fun _ => ⟨hP _ (by simp), fun _ => ⟨hP _ (by simp), fun _ =>
    ⟨hP _ (by simp), fun _ => trivial⟩⟩⟩⟩

/-- Giving a mutex back at the end of a call. -/
theorem all_unlock_ret {γ : Type} (h : Handle) (r : γ) :
    (step i (.unlock h) >>= fun _ => (pure r : Part γ)).All P :=
  ⟨hP _ (by simp), fun _ => trivial⟩

/-- Making an object that borrows a model acts as its own thread only. -/
theorem all_nifAttach (k : Kind) (m : Nat) : (nifAttach i k m).All P := by
  refine ⟨hP _ (by simp), fun _ => ⟨hP _ (by simp), fun b => ?_⟩⟩
  cases b with
  | false => exact all_unlock_ret hP _ _
  | true  => exact ⟨hP _ (by simp), fun _ => all_unlock_ret hP _ _⟩

/-- So does a call on a model. -/
theorem all_nifOnModel (m : Nat) (orPending : Bool) : (nifOnModel i m orPending).All P := by
  refine ⟨hP _ (by simp), fun _ => ⟨hP _ (by simp), fun b => ?_⟩⟩
  cases b with
  | false => exact all_unlock_ret hP _ _
  | true  => exact ⟨hP _ (by simp), fun _ => all_unlock_ret hP _ _⟩

/-- So does freeing a context. -/
theorem all_nifFreeContext (h : Handle) : (nifFreeContext i h).All P := by
  refine ⟨hP _ (by simp), fun _ => ⟨hP _ (by simp), fun b => ?_⟩⟩
  cases b with
  | false => exact all_unlock_ret hP _ _
  | true  =>
    refine ⟨hP _ (by simp), fun m => ⟨hP _ (by simp), fun _ => ?_⟩⟩
    cases m with
    | none   => trivial
    | some m => exact all_dropModel_ret hP _ _ _

/-- So does freeing another object. -/
theorem all_nifFree (h : Handle) : (nifFree i h).All P :=
  ⟨hP _ (by simp), fun _ => ⟨hP _ (by simp), fun _ => all_unlock_ret hP _ _⟩⟩

/-- So does a call on a context. -/
theorem all_nifOnContext (h : Handle) (decodes : Bool) : (nifOnContext i h decodes).All P := by
  refine ⟨hP _ (by simp), fun _ => ⟨hP _ (by simp), fun b => ?_⟩⟩
  cases b with
  | false => exact all_unlock_ret hP _ _
  | true  => exact ⟨hP _ (by simp), fun _ => all_unlock_ret hP _ _⟩

/-- So does asking for the capabilities of a multimodal context. -/
theorem all_nifMtmdCaps (h : Handle) : (nifMtmdCaps i h).All P := by
  refine ⟨hP _ (by simp), fun _ => ⟨hP _ (by simp), fun b => ?_⟩⟩
  cases b with
  | false => exact all_unlock_ret hP _ _
  | true  => exact ⟨hP _ (by simp), fun _ => all_unlock_ret hP _ _⟩

/-- So does a call on two wrappers. -/
theorem all_nifOnBoth (h x : Handle) : (nifOnBoth i h x).All P := by
  refine ⟨hP _ (by simp), fun _ => ⟨hP _ (by simp), fun b => ?_⟩⟩
  cases b with
  | false => exact all_unlock_ret hP _ _
  | true  =>
    refine ⟨hP _ (by simp), fun _ => ⟨hP _ (by simp), fun b => ?_⟩⟩
    cases b with
    | false => exact ⟨hP _ (by simp), fun _ => all_unlock_ret hP _ _⟩
    | true  =>
      exact ⟨hP _ (by simp), fun _ => ⟨hP _ (by simp), fun _ => ⟨hP _ (by simp), fun _ =>
        ⟨hP _ (by simp), fun _ => all_unlock_ret hP _ _⟩⟩⟩⟩

/-- So does making a sampler. -/
theorem all_nifSamplerNew (x : Nat) : (nifSamplerNew i x).All P := by
  refine ⟨hP _ (by simp), fun _ => ⟨hP _ (by simp), fun b => ?_⟩⟩
  cases b with
  | false => exact all_unlock_ret hP _ _
  | true  =>
    exact ⟨hP _ (by simp), fun _ => ⟨hP _ (by simp), fun _ => ⟨hP _ (by simp), fun _ => trivial⟩⟩⟩

/-- So does the sampling loop. -/
theorem all_sampleRows (h : Handle) (ss : List Handle) : (sampleRows i h ss).All P := by
  induction ss with
  | nil => trivial
  | cons x ss ih =>
    refine Prog.All.bind ⟨hP _ (by simp), fun _ => ⟨hP _ (by simp), fun b => ?_⟩⟩ fun b => ?_
    · cases b with
      | false => exact all_unlock_ret hP _ _
      | true  => exact ⟨hP _ (by simp), fun _ => all_unlock_ret hP _ _⟩
    · cases b with
      | false => trivial
      | true  => exact ih

/-- So does a step. -/
theorem all_nifStep (h : Handle) (ss : List Handle) : (nifStep i h ss).All P := by
  refine ⟨hP _ (by simp), fun _ => ⟨hP _ (by simp), fun b => ?_⟩⟩
  cases b with
  | false => exact all_unlock_ret hP _ _
  | true  =>
    refine (all_sampleRows hP h ss).bind fun b => ?_
    cases b with
    | false => exact all_unlock_ret hP _ _
    | true  => exact ⟨hP _ (by simp), fun _ => all_unlock_ret hP _ _⟩

/-- So does giving the adapters' mutexes back. -/
theorem all_unlockAll (as : List Nat) : (unlockAll i as).All P := by
  induction as with
  | nil => trivial
  | cons a as ih => exact ⟨hP _ (by simp), fun _ => ih⟩

/-- So does taking them. -/
theorem all_lockAdapters (done as : List Nat) : (lockAdapters i done as).All P := by
  induction as generalizing done with
  | nil => trivial
  | cons a as ih =>
    refine ⟨hP _ (by simp), fun _ => ⟨hP _ (by simp), fun b => ?_⟩⟩
    cases b with
    | false => exact (all_unlockAll hP _).bind fun _ => trivial
    | true  => exact ih _

/-- So does setting the adapters of a context. -/
theorem all_nifSetAdapters (h : Handle) (as : List (Nat × ℚ)) :
    (nifSetAdapters i h as).All P := by
  refine (all_lockAdapters hP _ _).bind fun b => ?_
  cases b with
  | false => trivial
  | true  =>
    refine ⟨hP _ (by simp), fun _ => ⟨hP _ (by simp), fun b => ?_⟩⟩
    cases b with
    | false => exact ⟨hP _ (by simp), fun _ => (all_unlockAll hP _).bind fun _ => trivial⟩
    | true  =>
      exact ⟨hP _ (by simp), fun _ => ⟨hP _ (by simp), fun _ =>
        (all_unlockAll hP _).bind fun _ => trivial⟩⟩

/-- Every step of a call has the call's number, and only `nif_chat_templates_init` uses a model
    without its mutex. -/
theorem NifCall.all (call : NifCall)
    (hU : ∀ m, call = .chatTemplatesInit m → P (i, .useUnlocked m)) : (call.program i).All P := by
  cases call with
  | loadModel => exact ⟨hP _ (by simp), fun _ => trivial⟩
  | freeModel m =>
    exact ⟨hP _ (by simp), fun _ => ⟨hP _ (by simp), fun _ => all_unlock_ret hP _ _⟩⟩
  | newContext m => exact all_nifAttach hP _ _
  | adapterLoad m => exact all_nifAttach hP _ _
  | mtmdInit m => exact all_nifAttach hP _ _
  | onModel m orPending => exact all_nifOnModel hP _ _
  | chatTemplatesInit m =>
    refine ⟨hP _ (by simp), fun b => ?_⟩
    cases b with
    | false => trivial
    | true  => exact ⟨hU m rfl, fun _ => trivial⟩
  | freeContext c => exact all_nifFreeContext hP _
  | adapterFree a => exact all_nifFree hP _
  | mtmdFree x => exact all_nifFree hP _
  | samplerFree x => exact all_nifFree hP _
  | onContext c decodes => exact all_nifOnContext hP _ _
  | mtmdCaps x => exact all_nifMtmdCaps hP _
  | step c samplers => exact all_nifStep hP _ _
  | specStep c x => exact all_nifOnBoth hP _ _
  | mediaPrefill c x => exact all_nifOnBoth hP _ _
  | samplerNew c => exact all_nifSamplerNew hP _
  | setAdapters c adapters => exact all_nifSetAdapters hP _ _

/-- So does every destructor. -/
theorem all_destructor (h : Handle) : (destructor i h).All P := by
  have hdestroy : (destroy i h).All P := by
    refine ⟨hP _ (by simp), fun r => ?_⟩
    cases r with
    | none   => trivial
    | some r => exact all_dropModel_ret hP _ _ _
  unfold destructor
  cases h.kind with
  | model   => exact ⟨hP _ (by simp), fun _ => trivial⟩
  | context => exact hdestroy
  | adapter => exact hdestroy
  | mtmd    => exact hdestroy
  | sampler => exact hdestroy

end Actions

end Erllama.Native.Handles
