import Erllama.Native.Upkeep

namespace Erllama.Native.Handles

open Lib

/-!
# What a step leaves alone

* `Footprint.*` — the footprint of each thing that a step can do.
* `Step` — the memory stays valid, and the step stays in its footprint.
* `Legal.perform` — every legal step is a `Step`.
-/

variable {s t : Mem} {i j : Tid} {h : Handle}

/-! ### Footprints -/

/-- A step that keeps the models and the next address brings no model back. -/
theorem Mem.Later.of_eq (hm : t.models = s.models) (hn : t.nextAddr = s.nextAddr) : s.Later t :=
  ⟨hn.ge, fun m r hr _ => ⟨r, by rwa [← hm], ModelRes.Later.refl r⟩⟩

/-- One model's record changes. -/
theorem Mem.Later.insert {m : Nat} {r r' : ModelRes} (hm : t.models = s.models.insert m r')
    (hr : s.models.lookup m = some r) (hl : r.Later r') (hn : s.nextAddr ≤ t.nextAddr) :
    s.Later t := by
  refine ⟨hn, fun m' q hq _ => ?_⟩
  rw [hm, AList.lookup_insert_ite] at hq
  by_cases hmm : m' = m
  · rw [if_pos hmm] at hq
    cases hq
    exact ⟨r, hmm ▸ hr, hl⟩
  · rw [if_neg hmm] at hq
    exact ⟨q, hq, ModelRes.Later.refl q⟩

/-- Nothing that the others rely on. -/
theorem Footprint.of_eq (hc : t.claims = s.claims) (ho : t.owner = s.owner)
    (hm : t.models = s.models) (hw : t.wraps = s.wraps) (ht : t.termed = s.termed)
    (hn : t.nextAddr = s.nextAddr) : Footprint i s t where
  claim _ _ := by rw [hc]
  owner _ := .inl (by rw [ho])
  model _ := .inl (by rw [hm])
  wrap _ := .inl (by rw [hw])
  termed h hs htrue := by
    rw [ht, hs] at htrue
    cases htrue
  refs h hh := by
    unfold Mem.refs at hh ⊢
    rw [hc] at hh
    exact .inl hh
  kept h' w h hlook hh := by
    rw [hw] at hlook
    exact .inr ⟨w, hlook, hh⟩
  later := Mem.Later.of_eq hm hn

/-- Recording a fault leaves the memory as it is. -/
theorem Footprint.fault {fs : List Fault} : Footprint i s (s.fault fs) :=
  .of_eq rfl rfl rfl rfl rfl rfl

/-- A thread takes a free mutex of a wrapper it refers to. -/
theorem Footprint.lock (hfree : s.owner h = none) (hh : h ∈ s.refs i) :
    Footprint i s { s with owner := Function.update s.owner h (some i) } := by
  constructor
  case later => exact Mem.Later.of_eq rfl rfl
  all_goals simp only [Mem.Present, Mem.refs, Function.update_apply] at *
  all_goals grind

/-- It gives back a mutex of its own. -/
theorem Footprint.unlock (hown : s.owner h = some i) :
    Footprint i s { s with owner := Function.update s.owner h none } := by
  constructor
  case later => exact Mem.Later.of_eq rfl rfl
  all_goals simp only [Mem.Present, Mem.refs, Function.update_apply] at *
  all_goals grind

/-- A loaded model and its wrapper are new. -/
theorem Footprint.loadModel (hv : Valid s) :
    Footprint i s ((s.alloc (modelHandle s.nextAddr)).setModel s.nextAddr
      ⟨some s.nextPtr, 0, 0, 0, false⟩) := by
  have hnone := hv.fresh_model
  constructor
  case later =>
    refine ⟨Nat.le_succ _, fun m r hr hm => ?_⟩
    simp only [Mem.setModel, Mem.alloc, AList.lookup_insert_ite] at hr
    rw [if_neg (Nat.ne_of_lt hm)] at hr
    exact ⟨r, hr, ModelRes.Later.refl r⟩
  all_goals simp only [Mem.setModel, Mem.alloc, Mem.Present, Mem.refs, AList.lookup_insert_ite,
    Function.update_apply] at *
  all_goals grind

/-- A new object and its wrapper, with the borrow counted under the model's mutex. -/
theorem Footprint.attach (hv : Valid s) {k : Kind} {m : Nat} {r r' : ModelRes} (hk : k.Borrows)
    (ho : s.owner (modelHandle m) = some i) (hr : s.models.lookup m = some r) (hl : r.Later r') :
    Footprint i s (((s.alloc ⟨k, s.nextAddr⟩).setWrap ⟨k, s.nextAddr⟩
      ⟨k, some s.nextPtr, some m, none⟩).setModel m r') := by
  have hnone : s.wraps.lookup ⟨k, s.nextAddr⟩ = none := hv.fresh_wrap rfl
  have hm := hv.locks _ _ ho
  constructor
  case later => exact Mem.Later.insert rfl hr hl (Nat.le_succ _)
  case kept =>
    intro h' w h hw hh
    simp only [Mem.setModel, Mem.setWrap, Mem.alloc, AList.lookup_insert_ite] at hw
    by_cases hh' : h' = ⟨k, s.nextAddr⟩
    · rw [if_pos hh'] at hw
      cases hw
      simp [Wrap.kept] at hh
      rw [hh]
      exact .inl hm
    · rw [if_neg hh'] at hw
      exact .inr ⟨w, hw, hh⟩
  all_goals simp only [Mem.setModel, Mem.setWrap, Mem.alloc, Mem.Present, Mem.refs,
    AList.lookup_insert_ite, Function.update_apply] at *
  all_goals grind

/-- A new sampler keeps a context the thread refers to. -/
theorem Footprint.newSampler (hv : Valid s) {c : Nat} (hc : ⟨.context, c⟩ ∈ s.refs i) :
    Footprint i s ((s.alloc ⟨.sampler, s.nextAddr⟩).setWrap ⟨.sampler, s.nextAddr⟩
      ⟨.sampler, some s.nextPtr, none, some c⟩) := by
  have hnone : s.wraps.lookup ⟨.sampler, s.nextAddr⟩ = none := hv.fresh_wrap rfl
  constructor
  case later => exact ⟨Nat.le_succ _, fun m r hr _ => ⟨r, hr, ModelRes.Later.refl r⟩⟩
  case kept =>
    intro h' w h hw hh
    simp only [Mem.setWrap, Mem.alloc, AList.lookup_insert_ite] at hw
    by_cases hh' : h' = ⟨.sampler, s.nextAddr⟩
    · rw [if_pos hh'] at hw
      cases hw
      simp [Wrap.kept] at hh
      rw [hh]
      exact .inl hc
    · rw [if_neg hh'] at hw
      exact .inr ⟨w, hw, hh⟩
  all_goals simp only [Mem.setWrap, Mem.alloc, Mem.Present, Mem.refs, AList.lookup_insert_ite,
    Function.update_apply] at *
  all_goals grind

/-- A model's record changes under the model's mutex. -/
theorem Footprint.setModel {m : Nat} {r r' : ModelRes} (ho : s.owner (modelHandle m) = some i)
    (hr : s.models.lookup m = some r) (hl : r.Later r') : Footprint i s (s.setModel m r') := by
  constructor
  case later => exact Mem.Later.insert rfl hr hl (Nat.le_refl _)
  all_goals simp only [Mem.setModel, Mem.Present, Mem.refs, AList.lookup_insert_ite] at *
  all_goals grind

/-- Under the model's mutex the model object may go. -/
theorem Footprint.freed {m : Nat} {r r' : ModelRes} {p : Ptr} {ms : List Nat}
    (ho : s.owner (modelHandle m) = some i) (hr : s.models.lookup m = some r) (hl : r.Later r') :
    Footprint i s { ((s.releaseModel m p).setModel m r') with stranded := ms } := by
  constructor
  case later => exact Mem.Later.insert rfl hr hl (Nat.le_refl _)
  all_goals simp only [Mem.setModel, Mem.releaseModel, Mem.fault, Mem.Present, Mem.refs,
    AList.lookup_insert_ite] at *
  all_goals grind

/-- It may go together with the thread's claim on it. -/
theorem Footprint.freed_claim {m : Nat} {r r' : ModelRes} {p : Ptr} {c : Claim}
    (ho : s.owner (modelHandle m) = some i) (hc : c.refs = s.refs i)
    (hr : s.models.lookup m = some r) (hl : r.Later r') :
    Footprint i s (((s.setClaim i c).releaseModel m p).setModel m r') := by
  constructor
  case later => exact Mem.Later.insert rfl hr hl (Nat.le_refl _)
  all_goals simp only [Mem.setModel, Mem.setClaim, Mem.releaseModel, Mem.fault, Mem.Present,
    Mem.refs, AList.lookup_insert_ite] at *
  all_goals grind

/-- A claim is given up under the model's mutex. -/
theorem Footprint.giveUp {m : Nat} {r r' : ModelRes} {c : Claim}
    (ho : s.owner (modelHandle m) = some i) (hc : c.refs = s.refs i)
    (hr : s.models.lookup m = some r) (hl : r.Later r') :
    Footprint i s ((s.setClaim i c).setModel m r') := by
  constructor
  case later => exact Mem.Later.insert rfl hr hl (Nat.le_refl _)
  all_goals simp only [Mem.setModel, Mem.setClaim, Mem.Present, Mem.refs,
    AList.lookup_insert_ite] at *
  all_goals grind

/-- An object is freed under its wrapper's mutex. -/
theorem Footprint.clear {w w' : Wrap} {p : Ptr} {fs : List Fault} (ho : s.owner h = some i)
    (hw : s.wraps.lookup h = some w) (hw' : w'.kept = w.kept) :
    Footprint i s (((s.fault fs).release h p).setWrap h w') := by
  constructor
  case later => exact Mem.Later.of_eq rfl rfl
  all_goals simp only [Mem.setWrap, Mem.release, Mem.fault, Mem.Present, Mem.refs,
    AList.lookup_insert_ite] at *
  all_goals grind

/-- A context is freed, and what it kept passes to the thread. -/
theorem Footprint.takeContext {w w' : Wrap} {c : Claim} {p : Ptr} {fs : List Fault}
    (ho : s.owner h = some i) (hw : s.wraps.lookup h = some w) (hw' : ∀ x ∈ w'.kept, x ∈ w.kept)
    (hc : ∀ x ∈ c.refs, x ∈ s.refs i ∨ x ∈ w.kept) :
    Footprint i s ((((s.fault fs).release h p).setWrap h w').setClaim i c) := by
  constructor
  case later => exact Mem.Later.of_eq rfl rfl
  all_goals simp only [Mem.setWrap, Mem.setClaim, Mem.release, Mem.fault, Mem.Present, Mem.refs,
    AList.lookup_insert_ite] at *
  all_goals grind

/-- The wrapper nobody refers to goes, whatever its object was. -/
theorem Footprint.finalize {w : Wrap} (ha : Alone s i h) (hw : s.wraps.lookup h = some w)
    (heap : Ptr → Option Handle) (installed : Handle → List (Ptr × ℚ))
    (pulled : Handle → Ptr → Bool) (faults : List Fault) (c : Claim)
    (hc : ∀ x ∈ c.refs, x ∈ w.kept) :
    Footprint i s ({ s with
      heap := heap, installed := installed, pulled := pulled, faults := faults
      wraps := s.wraps.erase h }.setClaim i c) := by
  constructor
  case later => exact Mem.Later.of_eq rfl rfl
  all_goals simp only [Mem.setClaim, Mem.Present, Mem.refs, AList.lookup_insert_ite,
    AList.lookup_erase_ite] at *
  all_goals grind

/-- So does a model's wrapper. -/
theorem Footprint.finalizeModel {m : Nat} (ha : Alone s i (modelHandle m))
    (heap : Ptr → Option Handle) (pulled : Handle → Ptr → Bool) (faults : List Fault) :
    Footprint i s ({ s with
      heap := heap, pulled := pulled, faults := faults
      models := s.models.erase m }.setClaim i ⟨[], none⟩) := by
  constructor
  case later =>
    refine ⟨Nat.le_refl _, fun m' r hr _ => ?_⟩
    simp only [Mem.setClaim, AList.lookup_erase_ite] at hr
    by_cases hm : m' = m
    · rw [if_pos hm] at hr
      cases hr
    · rw [if_neg hm] at hr
      exact ⟨r, hr, ModelRes.Later.refl r⟩
  all_goals simp only [Mem.setClaim, Mem.Present, Mem.refs, AList.lookup_insert_ite,
    AList.lookup_erase_ite] at *
  all_goals grind

/-- A thread forgets some of its references. -/
theorem Footprint.setClaim {c : Claim} (hc : ∀ x ∈ c.refs, x ∈ s.refs i) :
    Footprint i s (s.setClaim i c) := by
  constructor
  case later => exact Mem.Later.of_eq rfl rfl
  all_goals simp only [Mem.setClaim, Mem.Present, Mem.refs, AList.lookup_insert_ite] at *
  all_goals grind

/-- Recording a fault makes nobody else refer to the wrapper. -/
theorem Alone.of_fault {fs : List Fault} (ha : Alone (s.fault fs) i h) : Alone s i h where
  claim := ha.claim
  termed := ha.termed
  owner := ha.owner
  refs := ha.refs
  kept := ha.kept

/-- The record of faults is nothing that the others rely on. -/
theorem Footprint.of_fault {fs : List Fault} (hf : Footprint i (s.fault fs) t) :
    Footprint i s t where
  claim := hf.claim
  owner := hf.owner
  model m := (hf.model m).imp_right fun h => h.imp_right fun h => h.imp_left Alone.of_fault
  wrap h := (hf.wrap h).imp_right fun h => h.imp_right fun h => h.imp_left Alone.of_fault
  termed := hf.termed
  refs := hf.refs
  kept := hf.kept
  later := hf.later

/-! ### Steps -/

/-- The memory stays valid, and the step stays in its footprint. -/
def Step (i : Tid) (s t : Mem) : Prop := Valid t ∧ Footprint i s t

/-- Doing nothing is a step. -/
theorem Step.refl (hv : Valid s) : Step i s s := ⟨hv, .of_eq rfl rfl rfl rfl rfl rfl⟩

/-- Loading a model is a step of the thread. -/
theorem step_loadModel (hv : Valid s) (fails : Bool) : Step i s (loadModel fails s).2 := by
  cases fails with
  | true  => exact Step.refl hv
  | false => exact ⟨hv.loadModel, Footprint.loadModel hv⟩

/-- What attaching to a known model does to the memory. -/
theorem attach_of_lookup {k : Kind} {m : Nat} {r : ModelRes} (hr : s.models.lookup m = some r) :
    attach false k m s = (true,
      (((s.fault (s.touch (modelHandle m))).alloc ⟨k, s.nextAddr⟩).setWrap ⟨k, s.nextAddr⟩
        ⟨k, some s.nextPtr, some m, none⟩).setModel m (r.borrow k)) := by
  have hr' : (s.fault (s.touch (modelHandle m))).models.lookup m = some r := hr
  simp only [attach, hr']
  rfl

/-- Attaching to a live model is a step, whether or not the library's constructor fails. -/
theorem step_attach (hv : Valid s) {k : Kind} {m : Nat} {r : ModelRes} (hk : k.Borrows)
    (ho : s.owner (modelHandle m) = some i) (hr : s.models.lookup m = some r)
    (hlive : r.model.isSome) (hpend : r.releasePending = false) (fails : Bool) :
    Step i s (attach fails k m s).2 := by
  have hl : s.Live (modelHandle m) := by
    show (s.modelPtr m).isSome
    simpa [Mem.modelPtr, hr] using hlive
  have hclean := hv.fault (hv.touch hl)
  have hl' : r.Later (r.borrow k) := by
    rintro (hnone | htrue)
    · rw [hnone] at hlive
      cases hlive
    · rw [hpend] at htrue
      cases htrue
  cases fails with
  | true  => exact ⟨hclean, Footprint.fault⟩
  | false =>
    rw [attach_of_lookup hr]
    exact ⟨hclean.attach hk hr hlive hpend, (Footprint.attach hclean hk ho hr hl').of_fault⟩

/-- The record of the wrapper is no part of what freeing the model does. -/
theorem releaseModel_setModel (s : Mem) (m : Nat) (p : Ptr) (r r' : ModelRes) :
    ((s.setModel m r).releaseModel m p).setModel m r' = (s.releaseModel m p).setModel m r' := by
  simp only [Mem.setModel, Mem.releaseModel, Mem.fault, AList.insert_insert]
  rfl

/-- Freeing a model under its mutex is a step. -/
theorem step_freeModel (hv : Valid s) {m : Nat} (ho : s.owner (modelHandle m) = some i) :
    Step i s (freeModel m s).2 := by
  unfold freeModel
  cases hr : s.models.lookup m with
  | none   => exact Step.refl hv
  | some r =>
    cases hp : r.model with
    | none   => 
      simp only [hp]
      exact Step.refl hv
    | some p =>
      simp only [hp]
      by_cases hb : 0 < r.activeContexts ∨ 0 < r.activeAdapters
      · rw [if_pos hb]
        exact ⟨by simpa only [hp] using hv.putOff hr (by simp [hp]) hb, 
          Footprint.setModel ho hr fun _ => ⟨.inr rfl, fun k => by cases k <;> exact Nat.le_refl _⟩⟩
      · rw [if_neg hb]
        have hc : r.activeContexts = 0 := by omega
        have ha : r.activeAdapters = 0 := by omega
        have hl : r.Later { r with model := none, releasePending := false } :=
          fun _ => ⟨.inl rfl, fun k => by cases k <;> exact Nat.le_refl _⟩
        by_cases hs : 0 < r.activeMtmd
        · rw [if_pos hs]
          refine ⟨(hv.strand m).freeModel hr hp hc ha fun _ => List.mem_cons_self, ?_⟩
          exact Footprint.freed ho hr hl 
        · rw [if_neg hs]
          exact ⟨hv.freeModel hr hp hc ha fun hpos => absurd hpos hs, Footprint.freed ho hr hl⟩

/-- So is freeing another object under its mutex. -/
theorem step_freeObj (hv : Valid s) (ho : s.owner h = some i) : Step i s (freeObj h s).2 := by
  unfold freeObj
  cases hw : s.wraps.lookup h with
  | none   => exact Step.refl hv
  | some w =>
    cases hp : w.obj with
    | none   => 
      simp only [hp]
      exact Step.refl hv
    | some p =>
      simp only [hp]
      exact ⟨(hv.fault (hv.touchFree hw hp)).clear hw hp, Footprint.clear ho hw rfl⟩

/-- The later record of a wrapper counts. -/
theorem setWrap_setWrap (s : Mem) (h : Handle) (w w' : Wrap) :
    (s.setWrap h w).setWrap h w' = s.setWrap h w' := by
  simp only [Mem.setWrap, AList.insert_insert]

/-- Taking a context out of its wrapper is a step. -/
theorem step_takeContext (hv : Valid s) {cl : Claim} (ho : s.owner h = some i)
    (hk : h.kind = .context) (hc : s.claims.lookup i = some cl) (hd : cl.drop = none) :
    Step i s (takeContext i h s).2 := by
  unfold takeContext
  cases hw : s.wraps.lookup h with
  | none   => exact Step.refl hv
  | some w =>
    cases hp : w.obj with
    | none   => 
      simp only [hp]
      exact Step.refl hv
    | some p =>
      cases hm : w.modelRes with
      | none   => 
        simp only [hp, hm]
        exact Step.refl hv
      | some m =>
        simp only [hp, hm]
        have hclear := (hv.fault (hv.touchFree hw hp)).clear hw hp
        have hmove := hclear.moveKeep (AList.lookup_insert _) rfl hm hc hd (by rw [hk]; trivial)
        rw [setWrap_setWrap, hk] at hmove
        refine ⟨hmove, Footprint.takeContext ho hw ?_ ?_⟩
        · intro x hx
          exact List.mem_append.mpr (.inr (by simpa [Wrap.kept] using hx))
        · intro x hx
          rcases List.mem_cons.mp hx with rfl | hx
          · exact .inr (by simp [Wrap.kept, hm])
          · exact .inl hx

/-- Dropping the claim a thread owes is a step. -/
theorem step_dropsModel (hv : Valid s) {k : Kind} {m : Nat} {cl : Claim}
    (ho : s.owner (modelHandle m) = some i) (hc : s.claims.lookup i = some cl)
    (hd : cl.drop = some (k, m)) : Step i s (dropsModel i k m s) := by
  unfold dropsModel
  obtain ⟨hk, -⟩ := hv.owed i cl k m hc hd
  cases hr : s.models.lookup m with
  | none   => exact Step.refl hv
  | some r =>
    have hact : ∀ k', (r.giveBack k).active k' = r.active k' - if k = k' then 1 else 0 :=
      ModelRes.active_giveBack r k
    have hle : ∀ k', (r.giveBack k).active k' ≤ r.active k' := fun k' => by
      rw [hact]
      exact Nat.sub_le _ _
    have hl : r.Later (r.giveBack k) := by
      rintro (hnone | hpend)
      · exact ⟨.inl ((ModelRes.giveBack_model r k).trans hnone), hle⟩
      · exact ⟨.inr ((ModelRes.giveBack_pending r k).trans hpend), hle⟩
    cases hb : (r.giveBack k).releasePending && (r.giveBack k).unreferenced with
    | false =>
      simp only [hb]
      refine ⟨hv.giveUp (r.giveBack k) hr hc hd (ModelRes.giveBack_model r k) hact fun hpend => ?_,
        Footprint.giveUp ho rfl hr hl⟩
      rw [hpend, Bool.true_and] at hb
      exact ⟨hb, (ModelRes.giveBack_pending r k).symm.trans hpend⟩
    | true =>
      obtain ⟨hpend, hun⟩ := Bool.and_eq_true_iff.mp hb
      obtain ⟨hctx, hada, hmtmd⟩ := (ModelRes.unreferenced_iff _).mp hun
      cases hp : r.model with
      | none =>
        rw [ModelRes.giveBack_pending, (hv.freed m r hr hp).2.2.1] at hpend
        cases hpend
      | some p =>
        simp only [hb, ModelRes.giveBack_model, hp]
        have hgive := hv.giveUp { r.giveBack k with releasePending := false } hr hc hd
          (ModelRes.giveBack_model r k) (fun k' => by rw [← hact k']; cases k' <;> rfl) (by simp)
        have hfree := hgive.freeModel (AList.lookup_insert _)
          ((ModelRes.giveBack_model r k).trans hp) hctx hada
          (fun hpos => absurd hpos (by simp [hmtmd]))
        rw [releaseModel_setModel] at hfree
        refine ⟨hfree, Footprint.freed_claim ho rfl hr fun hc => ⟨.inl rfl, fun k' => ?_⟩⟩
        refine Nat.le_trans ?_ (hle k')
        cases k' <;> exact Nat.le_refl _

/-- Forgetting a model the thread does not hold the mutex of is a step. -/
theorem step_releaseKeep (hv : Valid s) {m : Nat} {cl : Claim}
    (ho : s.owner (modelHandle m) ≠ some i) (hc : s.claims.lookup i = some cl)
    (hd : cl.drop = none) : Step i s (releaseKeep i m s) := by
  have hdrop : s.drop i = none := by simp [Mem.drop, hc, hd]
  unfold releaseKeep
  rw [hdrop]
  refine ⟨hv.setClaim hdrop ?_ ?_, Footprint.setClaim fun x hx => (List.mem_filter.mp hx).1⟩
  · intro x hx
    obtain ⟨c, hc', hin⟩ := mem_refs.mp (List.mem_filter.mp hx).1
    exact hv.held i c x hc' hin
  · intro x hx
    refine List.mem_filter.mpr ⟨hv.locks x i hx, ?_⟩
    simp only [ne_eq, decide_not, Bool.not_eq_eq_eq_not, Bool.not_true, decide_eq_false_iff_not]
    rintro rfl
    exact ho hx

/-- Making a sampler is a step, whether or not it fails. -/
theorem step_newSampler (hv : Valid s) {c : Nat} (hc : ⟨.context, c⟩ ∈ s.refs i) (fails : Bool) :
    Step i s (newSampler fails c s).2 := by
  cases fails with
  | true  => exact Step.refl hv
  | false =>
    obtain ⟨cl, hcl, hin⟩ := mem_refs.mp hc
    exact ⟨hv.newSampler (hv.held i cl _ hcl hin), Footprint.newSampler hv hc⟩

/-- Clearing a wrapper leaves the thread alone with it. -/
theorem Alone.clear {w w' : Wrap} {p : Ptr} {fs : List Fault} (ha : Alone s i h)
    (hw : s.wraps.lookup h = some w) (hw' : w'.kept = w.kept) :
    Alone (((s.fault fs).release h p).setWrap h w') i h where
  claim := ha.claim
  termed := ha.termed
  owner := ha.owner
  refs := ha.refs
  kept x v hx hin := by
    replace hx : (s.wraps.insert h w').lookup x = some v := hx
    rw [AList.lookup_insert_ite] at hx
    by_cases hxh : x = h
    · rw [if_pos hxh] at hx
      cases hx
      rw [hw'] at hin
      exact ha.kept h w hw hin
    · rw [if_neg hxh] at hx
      exact ha.kept x v hx hin

/-- The finalizer of a wrapper other than a model's is a step. -/
theorem step_finalize (hv : Valid s) (hk : h.kind ≠ .model) (ha : Alone s i h) :
    Step i s (finalize i h s).2 := by
  unfold finalize
  cases hw : s.wraps.lookup h with
  | none   => exact Step.refl hv
  | some w =>
    have hkind : w.kind = h.kind := (hv.kind h w hw).1
    have hborrow : w.modelRes.isSome → h.kind.Borrows := by
      intro hsome
      cases hcase : h.kind with
      | model => exact absurd hcase hk
      | sampler =>
        rw [hv.sampler h w hw hcase] at hsome
        cases hsome
      | context => trivial
      | adapter => trivial
      | mtmd => trivial
    have hrefs : ∀ x ∈ (w.modelRes.map modelHandle).toList, x ∈ w.kept :=
      fun x hx => List.mem_append.mpr (.inl hx)
    cases hp : w.obj with
    | none =>
      have herase := hv.eraseWrap ha hw hp hborrow
      have hfoot := Footprint.finalize ha hw s.heap s.installed s.pulled s.faults
        ⟨_, w.modelRes.map (h.kind, ·)⟩ hrefs
      cases hm : w.modelRes with
      | none =>
        rw [hm] at herase hfoot
        simp only [hp, hm]
        exact ⟨herase, hfoot⟩
      | some m =>
        rw [hm] at herase hfoot
        simp only [hp, hm, hkind]
        exact ⟨herase, hfoot⟩
    | some p =>
      have hclear := (hv.fault (hv.touchFree hw hp)).clear hw hp
      have herase := hclear.eraseWrap (ha.clear hw rfl) (AList.lookup_insert _) rfl hborrow
      have hsame : (((s.fault (s.touchFree h w)).release h p).setWrap h
          { w with obj := none }).wraps.erase h = s.wraps.erase h := AList.erase_insert_self _ _ _
      rw [hsame] at herase
      have hfoot := Footprint.finalize ha hw (Function.update s.heap p none)
        (Function.update s.installed h []) (s.pull (· = p)) (s.faults ++ s.touchFree h w)
        ⟨_, w.modelRes.map (h.kind, ·)⟩ hrefs
      cases hm : w.modelRes with
      | none =>
        simp only [hm] at herase hfoot
        simp only [hp, hm]
        exact ⟨herase, hfoot⟩
      | some m =>
        simp only [hm] at herase hfoot
        simp only [hp, hm, hkind]
        exact ⟨herase, hfoot⟩

/-- A model wrapper nobody refers to has no borrower and no claim on it. -/
theorem Alone.no_borrower (hv : Valid s) {m : Nat} (ha : Alone s i (modelHandle m)) (k : Kind) :
    s.wraps.countValues (Wrap.borrows k m) = 0 ∧ s.claims.countValues (Claim.owes k m) = 0 := by
  constructor
  · rw [AList.countValues, List.countP_eq_zero]
    intro w hw hb
    obtain ⟨h, hw⟩ := AList.mem_values_iff.mp hw
    have hmod : w.modelRes = some m := by
      simp only [Wrap.borrows, decide_eq_true_eq] at hb
      exact hb.2
    exact ha.kept h w hw (by simp [Wrap.kept, hmod])
  · rw [AList.countValues, List.countP_eq_zero]
    intro c hc hb
    obtain ⟨j, hc⟩ := AList.mem_values_iff.mp hc
    have hdrop : c.drop = some (k, m) := by simpa [Claim.owes] using hb
    have hin := (hv.owed j c k m hc hdrop).2
    by_cases hj : j = i
    · rw [hj, ha.claim] at hc
      cases hc
      cases hdrop
    · exact ha.refs j hj (Handles.mem_refs.mpr ⟨c, hc, hin⟩)

/-- The finalizer of a model's wrapper is a step. -/
theorem step_finalizeModel (hv : Valid s) {m : Nat} (ha : Alone s i (modelHandle m)) :
    Step i s (finalizeModel i m s) := by
  obtain ⟨r, hr⟩ := present_model.mp (hv.held i _ _ ha.claim (List.mem_singleton_self _))
  unfold finalizeModel
  cases hp : r.model with
  | none =>
    have hptr : s.modelPtr m = none := by simp [Mem.modelPtr, hr, hp]
    rw [hptr]
    exact ⟨hv.eraseModel ha hr hp, Footprint.finalizeModel ha s.heap s.pulled s.faults⟩
  | some p =>
    have hptr : s.modelPtr m = some p := by simp [Mem.modelPtr, hr, hp]
    have hzero : ∀ k, k.Borrows → r.active k = 0 := by
      intro k hk
      rw [hv.counts m r k hr hk, (ha.no_borrower hv k).1, (ha.no_borrower hv k).2]
    have hfree := hv.freeModel hr hp (hzero .context trivial) (hzero .adapter trivial)
      (fun hpos => absurd (hzero .mtmd trivial) (Nat.pos_iff_ne_zero.mp hpos))
    have ha' : Alone ((s.releaseModel m p).setModel m
        { r with model := none, releasePending := false }) i (modelHandle m) :=
      ⟨ha.claim, ha.termed, ha.owner, ha.refs, ha.kept⟩
    have herase := hfree.eraseModel ha' (AList.lookup_insert _) rfl
    have hsame : ((s.releaseModel m p).setModel m
        { r with model := none, releasePending := false }).models.erase m = s.models.erase m :=
      AList.erase_insert_self _ _ _
    rw [hsame] at herase
    rw [hptr]
    exact ⟨herase, Footprint.finalizeModel ha _ _ _⟩

/-- **A legal step** keeps the memory valid and stays in its footprint. -/
theorem Legal.perform (hv : Valid s) {a : Act} (hl : Legal s i a)
    (hfree : ∀ h, a = .lock h → s.owner h = none) (fails : Bool) :
    Step i s (perform fails i a s).2 := by
  cases a with
  | lock h => exact ⟨hv.lock hl, Footprint.lock (hfree h rfl) hl⟩
  | unlock h => exact ⟨hv.unlock, Footprint.unlock hl⟩
  | loadModel => exact step_loadModel hv fails
  | modelLive m orPending => exact Step.refl hv
  | objLive h => exact Step.refl hv
  -- Uses of objects that the call has checked under their locks.
  | use hs =>
    refine ⟨hv.fault fun f hf => ?_, Footprint.fault⟩
    obtain ⟨h, hmem, hf⟩ := List.mem_flatMap.mp hf
    exact hv.touch (hl h hmem) f hf
  -- A decode also reads what is installed, and is excused for what was freed there.
  | useContext c decodes =>
    refine ⟨hv.fault fun f hf => ?_, Footprint.fault⟩
    rcases List.mem_append.mp hf with hf | hf
    · exact hv.touch hl f hf
    · cases decodes with
      | false => cases hf
      | true  => exact touchInstalled_excused f hf
  | install c adapters =>
    obtain ⟨hc, has⟩ := hl
    refine ⟨(hv.fault fun f hf => ?_).install _, Footprint.of_eq rfl rfl rfl rfl rfl rfl⟩
    obtain ⟨x, hx, htouch⟩ := List.mem_flatMap.mp hf
    rcases List.mem_cons.mp hx with rfl | hx
    · exact hv.touch hc f htouch
    · obtain ⟨a, ha, rfl⟩ := List.mem_map.mp hx
      exact hv.touch (has a ha) f htouch
  -- Its own object is live, so there is no fault at all.
  | useOwn h =>
    obtain ⟨hk, hlive⟩ := hl
    refine ⟨hv.fault fun f hf => ?_, Footprint.fault⟩
    obtain ⟨w, hw, hobj⟩ := live_wrap hk hlive
    obtain ⟨p, hp⟩ := Option.isSome_iff_exists.mp hobj
    rw [hw, Option.bind_some, hv.touchOwn hw hp] at hf
    cases hf
  | useUnlocked m =>
    refine ⟨hv.fault fun f hf => ?_, Footprint.fault⟩
    unfold Mem.touchUnlocked at hf
    by_cases hd : s.dangles (s.modelPtr m) = true
    · rw [if_pos hd, List.mem_singleton] at hf
      rw [hf]
      trivial
    · rw [if_neg hd] at hf
      cases hf
  -- The steps that change a model's counters, each with a footprint of its own.
  | attach k m =>
    obtain ⟨hk, ho, r, hr, hlive, hpend⟩ := hl
    exact step_attach hv hk ho hr hlive hpend fails
  | freeModel m => exact step_freeModel hv hl
  | freeObj h => exact step_freeObj hv hl.1
  | takeContext c =>
    obtain ⟨ho, hk, cl, hc, hd⟩ := hl
    exact step_takeContext hv ho hk hc hd
  | dropsModel k m =>
    obtain ⟨ho, cl, hc, hd⟩ := hl
    exact step_dropsModel hv ho hc hd
  | releaseKeep m =>
    obtain ⟨ho, cl, hc, hd⟩ := hl
    exact step_releaseKeep hv ho hc hd
  | newSampler c => exact step_newSampler hv hl fails
  | finalize h => exact step_finalize hv hl.1 hl.2
  | finalizeModel m => exact step_finalizeModel hv hl

end Erllama.Native.Handles
