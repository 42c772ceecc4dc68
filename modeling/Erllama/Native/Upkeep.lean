import Erllama.Native.Lifetimes

namespace Erllama.Native.Handles

open Lib

/-!
# The objects and the wrappers after each operation

One lemma for each thing that a step of a call can do: the memory stays `Valid`.

* `Valid.loadModel`, `.attach`, `.newSampler` — new objects.
* `Valid.clear`, `.moveKeep`, `.eraseWrap`, `.freeModel`, `.giveUp`, `.putOff`, `.eraseModel` —
  objects are freed, and borrowings are given up.
* `Valid.setClaim`, `.eraseClaim`, `.lock`, `.unlock` — what a call keeps alive, and its mutexes.
-/

variable {s t : Mem} {i j : Tid} {h : Handle}

attribute [grind] Mem.Present Wrap.kept Kind.Borrows

/-! ### Models and wrappers -/

/-- The handle of a model is its address. -/
theorem modelHandle_addr (hk : h.kind = .model) : modelHandle h.addr = h := by
  cases h
  exact congrArg (Handle.mk · _) hk.symm

/-- A borrow keeps the model object. -/
@[simp, grind =] theorem ModelRes.borrow_model (r : ModelRes) (k : Kind) :
    (r.borrow k).model = r.model := by cases k <;> rfl

/-- A borrow leaves the release pending or not. -/
@[simp, grind =] theorem ModelRes.borrow_pending (r : ModelRes) (k : Kind) :
    (r.borrow k).releasePending = r.releasePending := by cases k <;> rfl

/-- A borrow raises the count of its kind. -/
theorem ModelRes.active_borrow (r : ModelRes) {k : Kind} (hk : k.Borrows) (k' : Kind) :
    (r.borrow k).active k' = r.active k' + if k = k' then 1 else 0 := by
  cases k with
  | model   => exact hk.elim
  | sampler => exact hk.elim
  | context => cases k' <;> rfl
  | adapter => cases k' <;> rfl
  | mtmd    => cases k' <;> rfl

/-- Giving back keeps the model object. -/
@[simp] theorem ModelRes.giveBack_model (r : ModelRes) (k : Kind) :
    (r.giveBack k).model = r.model := by cases k <;> rfl

/-- Giving back leaves the release pending or not. -/
@[simp] theorem ModelRes.giveBack_pending (r : ModelRes) (k : Kind) :
    (r.giveBack k).releasePending = r.releasePending := by cases k <;> rfl

/-- Giving back lowers the count of its kind. -/
theorem ModelRes.active_giveBack (r : ModelRes) (k k' : Kind) :
    (r.giveBack k).active k' = r.active k' - if k = k' then 1 else 0 := by
  cases k <;> cases k' <;> rfl

/-- A model is unreferenced iff nothing of any kind borrows it. -/
theorem ModelRes.unreferenced_iff (r : ModelRes) : r.unreferenced = true ↔
    r.activeContexts = 0 ∧ r.activeAdapters = 0 ∧ r.activeMtmd = 0 := by
  simp [ModelRes.unreferenced, and_assoc]

/-- Nothing borrows a model that is not there. -/
theorem Valid.no_borrower (hv : Valid s) {m : Nat} (hm : s.models.lookup m = none) (k : Kind) :
    s.wraps.countValues (Wrap.borrows k m) = 0 ∧ s.claims.countValues (Claim.owes k m) = 0 := by
  have habs : ¬ s.Present (modelHandle m) := by
    rw [present_model, hm]
    rintro ⟨r, ⟨⟩⟩
  constructor
  · rw [AList.countValues, List.countP_eq_zero]
    intro w hw hb
    obtain ⟨h, hw⟩ := AList.mem_values_iff.mp hw
    have hmod : w.modelRes = some m := by
      simp only [Wrap.borrows, decide_eq_true_eq] at hb
      exact hb.2
    exact habs (hv.keeps h w _ hw (by simp [Wrap.kept, hmod]))
  · rw [AList.countValues, List.countP_eq_zero]
    intro c hc hb
    obtain ⟨i, hc⟩ := AList.mem_values_iff.mp hc
    have hdrop : c.drop = some (k, m) := by simpa [Claim.owes] using hb
    exact habs (hv.held i c _ hc (hv.owed i c k m hc hdrop).2)

/-- The next address has no model. -/
theorem Valid.fresh_model (hv : Valid s) : s.models.lookup s.nextAddr = none := by
  by_contra hne
  obtain ⟨r, hr⟩ := Option.ne_none_iff_exists'.mp hne
  exact Nat.lt_irrefl _ (hv.freshModel _ r hr)

/-- The next address has no wrapper. -/
theorem Valid.fresh_wrap (hv : Valid s) {h : Handle} (hh : h.addr = s.nextAddr) :
    s.wraps.lookup h = none := by
  by_contra hne
  obtain ⟨w, hw⟩ := Option.ne_none_iff_exists'.mp hne
  have hlt := hv.freshWrap h w hw
  omega

/-! ### New objects -/

/-- A model is loaded. -/
theorem Valid.loadModel (hv : Valid s) :
    Valid ((s.alloc (modelHandle s.nextAddr)).setModel s.nextAddr
      ⟨some s.nextPtr, 0, 0, 0, false⟩) := by
  have hnone := hv.fresh_model
  have hzero := hv.no_borrower hnone
  obtain ⟨hModelPtr, hWrapPtr, hHeapPtr, hFreshPtr, hFreshModel, hFreshWrap, hKind, hCounts, hKeeps,
    hOwed, hHeld, hFreed, hPending, hCtx, hSampler, hLocks, hFaults, hTerms, hCtxRes⟩ := hv
  constructor
  case counts =>
    intro m r k hr hk
    simp only [Mem.setModel, Mem.alloc, AList.lookup_insert_ite] at hr ⊢
    by_cases hm : m = s.nextAddr
    · rw [if_pos hm] at hr
      cases hr
      rw [hm, (hzero k).1, (hzero k).2]
      cases k <;> rfl
    · rw [if_neg hm] at hr
      exact hCounts m r k hr hk
  all_goals simp only [Mem.setModel, Mem.alloc, Mem.Present, Mem.refs, AList.lookup_insert_ite,
    Function.update_apply] at *
  all_goals grind [Option.bind_eq_some_iff]

/-- A borrower is made for a live model. -/
theorem Valid.attach (hv : Valid s) {k : Kind} {m : Nat} {r : ModelRes} (hk : k.Borrows)
    (hr : s.models.lookup m = some r) (hlive : r.model.isSome) (hpend : r.releasePending = false) :
    Valid (((s.alloc ⟨k, s.nextAddr⟩).setWrap ⟨k, s.nextAddr⟩
      ⟨k, some s.nextPtr, some m, none⟩).setModel m (r.borrow k)) := by
  have hnone : s.wraps.lookup ⟨k, s.nextAddr⟩ = none := hv.fresh_wrap rfl
  obtain ⟨hModelPtr, hWrapPtr, hHeapPtr, hFreshPtr, hFreshModel, hFreshWrap, hKind, hCounts, hKeeps,
    hOwed, hHeld, hFreed, hPending, hCtx, hSampler, hLocks, hFaults, hTerms, hCtxRes⟩ := hv
  constructor
  case counts =>
    intro m' r' k' hr' hk'
    simp only [Mem.setModel, Mem.setWrap, Mem.alloc, AList.lookup_insert_ite] at hr' ⊢
    rw [AList.countValues_insert_of_lookup_none hnone]
    by_cases hm : m' = m
    · rw [if_pos hm] at hr'
      cases hr'
      rw [ModelRes.active_borrow r hk, hCounts m r k' hr hk', hm]
      simp only [Wrap.borrows]
      grind
    · rw [if_neg hm] at hr'
      rw [hCounts m' r' k' hr' hk']
      simp only [Wrap.borrows]
      grind
  all_goals simp only [Mem.setModel, Mem.setWrap, Mem.alloc, Mem.Present, Mem.refs,
    AList.lookup_insert_ite, Function.update_apply] at *
  all_goals grind [Option.bind_eq_some_iff]

/-- A sampler is made. -/
theorem Valid.newSampler (hv : Valid s) {c : Nat} (hc : s.Present ⟨.context, c⟩) :
    Valid ((s.alloc ⟨.sampler, s.nextAddr⟩).setWrap ⟨.sampler, s.nextAddr⟩
      ⟨.sampler, some s.nextPtr, none, some c⟩) := by
  have hnone : s.wraps.lookup ⟨.sampler, s.nextAddr⟩ = none := hv.fresh_wrap rfl
  obtain ⟨hModelPtr, hWrapPtr, hHeapPtr, hFreshPtr, hFreshModel, hFreshWrap, hKind, hCounts, hKeeps,
    hOwed, hHeld, hFreed, hPending, hCtx, hSampler, hLocks, hFaults, hTerms, hCtxRes⟩ := hv
  constructor
  case counts =>
    intro m r k hr hk
    simp only [Mem.setWrap, Mem.alloc] at hr ⊢
    rw [AList.countValues_insert_of_lookup_none hnone, hCounts m r k hr hk]
    simp [Wrap.borrows]
  all_goals simp only [Mem.setWrap, Mem.alloc, Mem.Present, Mem.refs, AList.lookup_insert_ite,
    Function.update_apply] at *
  all_goals grind [Option.bind_eq_some_iff]

/-! ### Freeing -/

/-- An object is freed, and its pointer is NULL. -/
theorem Valid.clear (hv : Valid s) {w : Wrap} {p : Ptr} (hw : s.wraps.lookup h = some w)
    (hp : w.obj = some p) :
    Valid ((s.release h p).setWrap h { w with obj := none }) := by
  obtain ⟨hModelPtr, hWrapPtr, hHeapPtr, hFreshPtr, hFreshModel, hFreshWrap, hKind, hCounts, hKeeps,
    hOwed, hHeld, hFreed, hPending, hCtx, hSampler, hLocks, hFaults, hTerms, hCtxRes⟩ := hv
  constructor
  case counts =>
    intro m r k hr hk
    simp only [Mem.setWrap, Mem.release] at hr ⊢
    have hcount := AList.countValues_insert_of_lookup_some hw { w with obj := none }
      (Wrap.borrows k m)
    have hsame : Wrap.borrows k m { w with obj := none } = Wrap.borrows k m w := rfl
    rw [hsame] at hcount
    rw [hCounts m r k hr hk]
    omega
  case keeps =>
    have hkept : Wrap.kept { w with obj := none } = w.kept := rfl
    simp only [Mem.setWrap, Mem.release, Mem.Present, AList.lookup_insert_ite] at *
    grind
  all_goals simp only [Mem.setWrap, Mem.release, Mem.Present, Mem.refs, AList.lookup_insert_ite,
    Function.update_apply] at *
  all_goals grind [Option.bind_eq_some_iff]


/-- A call takes over what a wrapper borrows. -/
theorem Valid.moveKeep (hv : Valid s) {w : Wrap} {m : Nat} {c : Claim}
    (hw : s.wraps.lookup h = some w) (hp : w.obj = none) (hm : w.modelRes = some m)
    (hc : s.claims.lookup i = some c) (hd : c.drop = none) (hk : h.kind.Borrows) :
    Valid ((s.setWrap h { w with obj := none, modelRes := none }).setClaim i
      ⟨modelHandle m :: s.refs i, some (h.kind, m)⟩) := by
  have hrefs : s.refs i = c.refs := by simp [Mem.refs, hc]
  obtain ⟨hModelPtr, hWrapPtr, hHeapPtr, hFreshPtr, hFreshModel, hFreshWrap, hKind, hCounts, hKeeps,
    hOwed, hHeld, hFreed, hPending, hCtx, hSampler, hLocks, hFaults, hTerms, hCtxRes⟩ := hv
  constructor
  case counts =>
    intro m' r k hr hk'
    simp only [Mem.setWrap, Mem.setClaim] at hr ⊢
    have hwc := AList.countValues_insert_of_lookup_some hw
      { w with obj := none, modelRes := none } (Wrap.borrows k m')
    have hcc := AList.countValues_insert_of_lookup_some hc
      ⟨modelHandle m :: s.refs i, some (h.kind, m)⟩ (Claim.owes k m')
    have hold := hCounts m' r k hr hk'
    have hkind := (hKind h w hw).1
    simp only [Wrap.borrows, Claim.owes, hm, hd, hkind] at hwc hcc hold ⊢
    grind
  case locks =>
    intro x i' hx
    have hold := hLocks x i' hx
    simp only [Mem.setWrap, Mem.setClaim, Mem.refs, AList.lookup_insert_ite] at *
    by_cases hi : i' = i
    · subst hi
      simp [hc] at hold ⊢
      exact .inr hold
    · simpa [hi] using hold
  case keeps =>
    have hkept : ∀ x ∈ Wrap.kept { w with obj := none, modelRes := none }, x ∈ w.kept := by
      intro x hx
      simp only [Wrap.kept, Option.map_none, Option.toList_none, List.nil_append] at hx
      exact List.mem_append.mpr (.inr hx)
    simp only [Mem.setWrap, Mem.setClaim, Mem.Present, AList.lookup_insert_ite] at *
    grind
  case held =>
    have hmem : s.Present (modelHandle m) := hKeeps h w _ hw (by simp [Wrap.kept, hm])
    have hold : ∀ x ∈ modelHandle m :: s.refs i, s.Present x := by
      intro x hx
      rcases List.mem_cons.mp hx with rfl | hx
      · exact hmem
      · exact hHeld i c x hc (hrefs ▸ hx)
    simp only [Mem.setWrap, Mem.setClaim, Mem.Present, AList.lookup_insert_ite] at *
    grind
  all_goals simp only [Mem.setWrap, Mem.setClaim, Mem.Present, Mem.refs,
    AList.lookup_insert_ite] at *
  all_goals grind [Option.bind_eq_some_iff]

/-- A destructor has no mutex. -/
theorem Alone.no_lock (hv : Valid s) (ha : Alone s i h) (x : Handle) : s.owner x ≠ some i := by
  intro hx
  have hmem := hv.locks x i hx
  simp only [Mem.refs, ha.claim, Option.map_some, Option.getD_some, List.mem_singleton] at hmem
  rw [hmem, ha.owner] at hx
  cases hx

/-- A wrapper goes away; its destructor takes over what it borrows. -/
theorem Valid.eraseWrap (hv : Valid s) {w : Wrap} (ha : Alone s i h)
    (hw : s.wraps.lookup h = some w) (hp : w.obj = none) (hk : w.modelRes.isSome → h.kind.Borrows) :
    Valid ({ s with wraps := s.wraps.erase h }.setClaim i
      ⟨(w.modelRes.map modelHandle).toList, w.modelRes.map (h.kind, ·)⟩) := by
  have hlock := ha.no_lock hv
  obtain ⟨hc, hterm, hown, hrefs, hkept⟩ := ha
  obtain ⟨hModelPtr, hWrapPtr, hHeapPtr, hFreshPtr, hFreshModel, hFreshWrap, hKind, hCounts, hKeeps,
    hOwed, hHeld, hFreed, hPending, hCtx, hSampler, hLocks, hFaults, hTerms, hCtxRes⟩ := hv
  constructor
  -- The wrapper's part of the count moves to the claim of the call.
  case counts =>
    intro m r k hr hk'
    simp only [Mem.setClaim] at hr ⊢
    have hwc := AList.countValues_erase_of_lookup_some hw (Wrap.borrows k m)
    have hcc := AList.countValues_insert_of_lookup_some hc
      ⟨(w.modelRes.map modelHandle).toList, w.modelRes.map (h.kind, ·)⟩ (Claim.owes k m)
    have hold := hCounts m r k hr hk'
    have hkind := (hKind h w hw).1
    simp only [Wrap.borrows, Claim.owes, hkind] at hwc hcc hold ⊢
    cases hmod : w.modelRes with
    | none =>
      simp only [hmod, Option.map_none] at hwc hcc hold ⊢
      grind
    | some m' =>
      simp only [hmod, Option.map_some] at hwc hcc hold ⊢
      grind
  -- Nobody else has the wrapper in a claim.
  case held =>
    intro i' c x hc' hx
    simp only [Mem.setClaim, Mem.Present, AList.lookup_insert_ite, AList.lookup_erase_ite] at *
    by_cases hi : i' = i
    · subst hi
      rw [if_pos rfl] at hc'
      cases hc'
      have hin : x ∈ w.kept := List.mem_append.mpr (.inl hx)
      have hne : x ≠ h := by
        rintro rfl
        exact hkept _ w hw hin
      simpa [hne] using hKeeps h w x hw hin
    · rw [if_neg hi] at hc'
      have hne : x ≠ h := by
        rintro rfl
        exact hrefs i' hi (Handles.mem_refs.mpr ⟨c, hc', hx⟩)
      simpa [hne] using hHeld i' c x hc' hx
  case owed =>
    intro i' c k m hc' hd
    simp only [Mem.setClaim, AList.lookup_insert_ite] at hc'
    by_cases hi : i' = i
    · rw [if_pos hi] at hc'
      cases hc'
      obtain ⟨m', hm, heq⟩ := Option.map_eq_some_iff.mp hd
      cases heq
      exact ⟨hk (by simp [hm]), by simp [hm]⟩
    · rw [if_neg hi] at hc'
      exact hOwed i' c k m hc' hd
  -- The rest only looks other entries up.
  all_goals simp only [Mem.setClaim, Mem.Present, Mem.refs, AList.lookup_insert_ite,
    AList.lookup_erase_ite] at *
  all_goals grind [Option.bind_eq_some_iff]

/-- When no adapter borrows a model, only the model is freed with it. -/
theorem Valid.adapterPtrs (hv : Valid s) {m : Nat} {r : ModelRes} (hr : s.models.lookup m = some r)
    (ha : r.activeAdapters = 0) : s.adapterPtrs m = [] := by
  have hzero : s.wraps.countValues (Wrap.borrows .adapter m) = 0 := by
    have hold := hv.counts m r .adapter hr trivial
    simp only [ModelRes.active, ha] at hold
    omega
  rw [AList.countValues, List.countP_eq_zero] at hzero
  rw [Mem.adapterPtrs, List.filterMap_eq_nil_iff]
  intro w hw
  have hno := hzero w hw
  rw [if_neg]
  simpa [Wrap.borrows] using hno

/-- A model is freed that only projectors borrow. -/
theorem Valid.freeModel (hv : Valid s) {m : Nat} {r : ModelRes} {p : Ptr}
    (hr : s.models.lookup m = some r) (hp : r.model = some p) (hc : r.activeContexts = 0)
    (ha : r.activeAdapters = 0) (hs : 0 < r.activeMtmd → m ∈ s.stranded) :
    Valid ((s.releaseModel m p).setModel m { r with model := none, releasePending := false }) := by
  have hnil := hv.adapterPtrs hr ha
  have htouch : s.touchOwn (modelHandle m) (some p) = [] :=
    hv.touchModel (by simp [Mem.modelPtr, hr, hp])
  have hactive : ∀ k,
      ModelRes.active { r with model := none, releasePending := false } k = r.active k := by
    intro k
    cases k <;> rfl
  obtain ⟨hModelPtr, hWrapPtr, hHeapPtr, hFreshPtr, hFreshModel, hFreshWrap, hKind, hCounts, hKeeps,
    hOwed, hHeld, hFreed, hPending, hCtx, hSampler, hLocks, hFaults, hTerms, hCtxRes⟩ := hv
  constructor
  case counts =>
    intro m' r' k hr' hk
    simp only [Mem.setModel, Mem.releaseModel, Mem.fault, AList.lookup_insert_ite] at hr' ⊢
    by_cases hm : m' = m
    · rw [if_pos hm] at hr'
      cases hr'
      rw [hactive, hm]
      exact hCounts m r k hr hk
    · rw [if_neg hm] at hr'
      exact hCounts m' r' k hr' hk
  all_goals simp only [Mem.setModel, Mem.releaseModel, Mem.fault, htouch, hnil, List.append_nil,
    List.not_mem_nil, or_false, Mem.Present, Mem.refs, AList.lookup_insert_ite] at *
  all_goals grind [Option.bind_eq_some_iff]

/-- A borrowing is given up. -/
theorem Valid.giveUp (hv : Valid s) {m : Nat} {r : ModelRes} {k : Kind} {c : Claim} (r' : ModelRes)
    (hr : s.models.lookup m = some r) (hc : s.claims.lookup i = some c)
    (hd : c.drop = some (k, m)) (hptr : r'.model = r.model)
    (hact : ∀ k', r'.active k' = r.active k' - if k = k' then 1 else 0)
    (hpend : r'.releasePending = true → r'.unreferenced = false ∧ r.releasePending = true) :
    Valid ((s.setClaim i ⟨s.refs i, none⟩).setModel m r') := by
  have hrefs : s.refs i = c.refs := by simp [Mem.refs, hc]
  have hctx := hact .context
  have hada := hact .adapter
  have hmtmd := hact .mtmd
  simp only [ModelRes.active] at hctx hada hmtmd
  obtain ⟨hModelPtr, hWrapPtr, hHeapPtr, hFreshPtr, hFreshModel, hFreshWrap, hKind, hCounts, hKeeps,
    hOwed, hHeld, hFreed, hPending, hCtx, hSampler, hLocks, hFaults, hTerms, hCtxRes⟩ := hv
  constructor
  case counts =>
    intro m' q k' hq hk'
    simp only [Mem.setModel, Mem.setClaim, AList.lookup_insert_ite] at hq ⊢
    have hcc := AList.countValues_insert_of_lookup_some hc ⟨s.refs i, none⟩ (Claim.owes k' m')
    simp only [Claim.owes, hd] at hcc
    by_cases hm : m' = m
    · rw [if_pos hm] at hq
      cases hq
      have hold := hCounts m r k' hr hk'
      rw [hact]
      simp only [hm] at hcc hold ⊢
      grind
    · rw [if_neg hm] at hq
      have hold := hCounts m' q k' hq hk'
      grind
  case locks =>
    intro x i' hx
    have hold := hLocks x i' hx
    simp only [Mem.setModel, Mem.setClaim, Mem.refs, AList.lookup_insert_ite] at *
    by_cases hi : i' = i
    · subst hi
      simpa [hc] using hold
    · simpa [hi] using hold
  all_goals simp only [Mem.setModel, Mem.setClaim, Mem.Present, Mem.refs,
    AList.lookup_insert_ite] at *
  all_goals grind [Option.bind_eq_some_iff]

/-- The release of a borrowed model is put off. -/
theorem Valid.putOff (hv : Valid s) {m : Nat} {r : ModelRes} (hr : s.models.lookup m = some r)
    (hlive : r.model.isSome) (hb : 0 < r.activeContexts ∨ 0 < r.activeAdapters) :
    Valid (s.setModel m { r with releasePending := true }) := by
  have hactive : ∀ k, ModelRes.active { r with releasePending := true } k = r.active k := by
    intro k
    cases k <;> rfl
  obtain ⟨hModelPtr, hWrapPtr, hHeapPtr, hFreshPtr, hFreshModel, hFreshWrap, hKind, hCounts, hKeeps,
    hOwed, hHeld, hFreed, hPending, hCtx, hSampler, hLocks, hFaults, hTerms, hCtxRes⟩ := hv
  constructor
  case counts =>
    intro m' r' k hr' hk
    simp only [Mem.setModel, AList.lookup_insert_ite] at hr' ⊢
    by_cases hm : m' = m
    · rw [if_pos hm] at hr'
      cases hr'
      rw [hactive, hm]
      exact hCounts m r k hr hk
    · rw [if_neg hm] at hr'
      exact hCounts m' r' k hr' hk
  case pending =>
    intro m' r' hr' hpend
    simp only [Mem.setModel, AList.lookup_insert_ite, ModelRes.unreferenced] at *
    grind
  all_goals simp only [Mem.setModel, Mem.Present, Mem.refs, AList.lookup_insert_ite] at *
  all_goals grind [Option.bind_eq_some_iff]

/-! ### Calls -/

/-- A call changes what it keeps alive. -/
theorem Valid.setClaim (hv : Valid s) {refs : List Handle} (hd : s.drop i = none)
    (hrefs : ∀ x ∈ refs, s.Present x) (hlock : ∀ x, s.owner x = some i → x ∈ refs) :
    Valid (s.setClaim i ⟨refs, none⟩) := by
  obtain ⟨hModelPtr, hWrapPtr, hHeapPtr, hFreshPtr, hFreshModel, hFreshWrap, hKind, hCounts, hKeeps,
    hOwed, hHeld, hFreed, hPending, hCtx, hSampler, hLocks, hFaults, hTerms, hCtxRes⟩ := hv
  constructor
  case counts =>
    intro m r k hr hk
    simp only [Mem.setClaim] at hr ⊢
    rw [hCounts m r k hr hk]
    cases hc : s.claims.lookup i with
    | none   => simp [AList.countValues_insert_of_lookup_none hc, Claim.owes]
    | some c =>
      have hcc := AList.countValues_insert_of_lookup_some hc ⟨refs, none⟩ (Claim.owes k m)
      have hdrop : c.drop = none := by simpa [Mem.drop, hc] using hd
      simp only [Claim.owes, hdrop] at hcc ⊢
      grind
  all_goals simp only [Mem.setClaim, Mem.Present, Mem.refs, AList.lookup_insert_ite] at *
  all_goals grind [Option.bind_eq_some_iff]

/-- A call returns. -/
theorem Valid.eraseClaim (hv : Valid s) (hd : s.drop i = none) (hlock : ∀ x, s.owner x ≠ some i) :
    Valid { s with claims := s.claims.erase i } := by
  obtain ⟨hModelPtr, hWrapPtr, hHeapPtr, hFreshPtr, hFreshModel, hFreshWrap, hKind, hCounts, hKeeps,
    hOwed, hHeld, hFreed, hPending, hCtx, hSampler, hLocks, hFaults, hTerms, hCtxRes⟩ := hv
  constructor
  case counts =>
    intro m r k hr hk
    simp only at hr ⊢
    rw [hCounts m r k hr hk]
    cases hc : s.claims.lookup i with
    | none   => simp only [AList.countValues, AList.values_erase_of_lookup_none hc]
    | some c =>
      have hcc := AList.countValues_erase_of_lookup_some hc (Claim.owes k m)
      have hdrop : c.drop = none := by simpa [Mem.drop, hc] using hd
      simp only [Claim.owes, hdrop] at hcc ⊢
      grind
  all_goals simp only [Mem.Present, Mem.refs, AList.lookup_erase_ite] at *
  all_goals grind [Option.bind_eq_some_iff]

/-- A model's wrapper goes away. -/
theorem Valid.eraseModel (hv : Valid s) {m : Nat} {r : ModelRes} (ha : Alone s i (modelHandle m))
    (hr : s.models.lookup m = some r) (hp : r.model = none) :
    Valid ({ s with models := s.models.erase m }.setClaim i ⟨[], none⟩) := by
  have hlock := ha.no_lock hv
  obtain ⟨hc, hterm, hown, hrefs, hkept⟩ := ha
  obtain ⟨hModelPtr, hWrapPtr, hHeapPtr, hFreshPtr, hFreshModel, hFreshWrap, hKind, hCounts, hKeeps,
    hOwed, hHeld, hFreed, hPending, hCtx, hSampler, hLocks, hFaults, hTerms, hCtxRes⟩ := hv
  constructor
  -- The handle gives back the reference it owed as the wrapper goes.
  case counts =>
    intro m' r k hr hk'
    simp only [Mem.setClaim, AList.lookup_erase_ite] at hr ⊢
    have hcc := AList.countValues_insert_of_lookup_some hc ⟨[], none⟩ (Claim.owes k m')
    simp only [Claim.owes] at hcc ⊢
    by_cases hm : m' = m
    · rw [if_pos hm] at hr
      cases hr
    · rw [if_neg hm] at hr
      have hold := hCounts m' r k hr hk'
      grind
  case keeps =>
    intro h' w x hw hx
    have hold := hKeeps h' w x hw hx
    have hne : ¬ (x.kind = .model ∧ x.addr = m) := by
      rintro ⟨hkind, rfl⟩
      exact hkept h' w hw (by rwa [modelHandle_addr hkind])
    simp only [Mem.setClaim, Mem.Present, AList.lookup_erase_ite] at *
    grind
  -- No other handle refers to the wrapper, so each keeps what it holds.
  case held =>
    intro i' c x hc' hx
    simp only [Mem.setClaim, Mem.Present, AList.lookup_insert_ite, AList.lookup_erase_ite] at *
    by_cases hi : i' = i
    · rw [if_pos hi] at hc'
      cases hc'
      cases hx
    · rw [if_neg hi] at hc'
      have hne : ¬ (x.kind = .model ∧ x.addr = m) := by
        rintro ⟨hkind, rfl⟩
        exact hrefs i' hi (Handles.mem_refs.mpr ⟨c, hc', by rwa [modelHandle_addr hkind]⟩)
      have hold := hHeld i' c x hc' hx
      grind
  case terms =>
    intro x hx
    have hne : ¬ (x.kind = .model ∧ x.addr = m) := by
      rintro ⟨hkind, rfl⟩
      rw [modelHandle_addr hkind] at hterm
      rw [show s.termed x = true from hx] at hterm
      cases hterm
    have hold := hTerms x hx
    simp only [Mem.setClaim, Mem.Present, AList.lookup_erase_ite] at *
    grind
  all_goals simp only [Mem.setClaim, Mem.Present, Mem.refs, AList.lookup_insert_ite,
    AList.lookup_erase_ite] at *
  all_goals grind [Option.bind_eq_some_iff]

/-- A mutex is taken by a call that keeps the wrapper alive. -/
theorem Valid.lock (hv : Valid s) (hh : h ∈ s.refs i) :
    Valid { s with owner := Function.update s.owner h (some i) } := by
  refine { hv with locks := fun x j hx => ?_ }
  replace hx : Function.update s.owner h (some i) x = some j := hx
  by_cases hxh : x = h
  · rw [hxh, Function.update_self] at hx
    cases hx
    rw [hxh]
    exact hh
  · rw [Function.update_of_ne hxh] at hx
    exact hv.locks x j hx

/-- A mutex is given back. -/
theorem Valid.unlock (hv : Valid s) : Valid { s with owner := Function.update s.owner h none } := by
  refine { hv with locks := fun x j hx => ?_ }
  replace hx : Function.update s.owner h none x = some j := hx
  by_cases hxh : x = h
  · rw [hxh, Function.update_self] at hx
    cases hx
  · rw [Function.update_of_ne hxh] at hx
    exact hv.locks x j hx

/-- It is noted that a model is freed under projectors. -/
theorem Valid.strand (hv : Valid s) (m : Nat) : Valid { s with stranded := m :: s.stranded } :=
  { hv with
    freed := by
      intro m' r hr hp
      obtain ⟨hc, ha, hpend, hs⟩ := hv.freed m' r hr hp
      exact ⟨hc, ha, hpend, fun hpos => List.mem_cons_of_mem _ (hs hpos)⟩
    faults := by
      intro f hf
      have hold := hv.faults f hf
      cases f with
      | own h => exact hold.elim
      | lent h m' => exact ⟨hold.1, List.mem_cons_of_mem _ hold.2⟩
      | raced m' => trivial
      | installed c p => trivial }

/-- Other adapters are set on a context. -/
theorem Valid.install (hv : Valid s) (f : Handle → List (Ptr × ℚ)) :
    Valid { s with installed := f } :=
  { hv with }

end Erllama.Native.Handles
