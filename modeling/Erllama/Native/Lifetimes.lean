import Erllama.Native.Handles

namespace Erllama.Native.Handles

open Lib

/-!
# What a step of a call does to the native objects

* `Valid` — pointers and objects belong to each other, a model's counts are those of its
  borrowers, a freed model has none but projectors, and nothing freed was used.
* `Alone` — a wrapper that only one call can reach.
* `Legal` — what a call has to know before a step.
* `Footprint` — what a step leaves alone.
* `Rely` — what a call can rely on while others move.
* `Footprint.rely` — a step with a small footprint is one the others can rely on.
-/

/-- The wrapper is there. -/
def Mem.Present (s : Mem) (h : Handle) : Prop :=
  if h.kind = .model then (s.models.lookup h.addr).isSome else (s.wraps.lookup h).isSome

/-- What borrows a model. -/
def Kind.Borrows : Kind → Prop
  | .context | .adapter | .mtmd => True
  | _                           => False

/-- The wrapper borrows the model. -/
def Wrap.borrows (k : Kind) (m : Nat) (w : Wrap) : Bool := w.kind = k ∧ w.modelRes = some m

/-- The call has yet to give up this borrowing of the model. -/
def Claim.owes (k : Kind) (m : Nat) (c : Claim) : Bool := c.drop = some (k, m)

/-- A fault that the library does not rule out: a projector outlives its model when the model is
    freed while it is borrowed by projectors only, one call takes no mutex, and nothing counts the
    adapters that are set on a context. -/
def Fault.Excused (stranded : List Nat) : Fault → Prop
  | .own _         => False
  | .lent h m      => h.kind = .mtmd ∧ m ∈ stranded
  | .raced _       => True
  | .installed _ _ => True

/-- What holds of the memory between two steps of any calls. -/
structure Valid (s : Mem) : Prop where
  modelPtr : ∀ m r p, s.models.lookup m = some r → r.model = some p →
    s.heap p = some (modelHandle m)
  wrapPtr : ∀ h w p, s.wraps.lookup h = some w → w.obj = some p → s.heap p = some h
  /-- Every object is the object of a wrapper that is there. -/
  heapPtr : ∀ p h, s.heap p = some h →
    if h.kind = .model then (s.models.lookup h.addr).bind ModelRes.model = some p
    else (s.wraps.lookup h).bind Wrap.obj = some p
  freshPtr : ∀ p h, s.heap p = some h → p < s.nextPtr
  freshModel : ∀ m r, s.models.lookup m = some r → m < s.nextAddr
  freshWrap : ∀ h w, s.wraps.lookup h = some w → h.addr < s.nextAddr
  kind : ∀ h w, s.wraps.lookup h = some w → w.kind = h.kind ∧ h.kind ≠ .model
  counts : ∀ m r k, s.models.lookup m = some r → k.Borrows →
    r.active k = s.wraps.countValues (Wrap.borrows k m) + s.claims.countValues (Claim.owes k m)
  keeps : ∀ h w x, s.wraps.lookup h = some w → x ∈ w.kept → s.Present x
  owed : ∀ i c k m, s.claims.lookup i = some c → c.drop = some (k, m) →
    k.Borrows ∧ modelHandle m ∈ c.refs
  held : ∀ i c x, s.claims.lookup i = some c → x ∈ c.refs → s.Present x
  freed : ∀ m r, s.models.lookup m = some r → r.model = none →
    r.activeContexts = 0 ∧ r.activeAdapters = 0 ∧ r.releasePending = false ∧
      (0 < r.activeMtmd → m ∈ s.stranded)
  /-- A release is put off for a reason. -/
  pending : ∀ m r, s.models.lookup m = some r → r.releasePending = true →
    r.unreferenced = false
  ctx : ∀ h w, s.wraps.lookup h = some w → h.kind = .context → w.obj.isSome → w.modelRes.isSome
  sampler : ∀ h w, s.wraps.lookup h = some w → h.kind = .sampler → w.modelRes = none
  locks : ∀ h i, s.owner h = some i → h ∈ s.refs i
  faults : ∀ f ∈ s.faults, f.Excused s.stranded
  terms : ∀ h, s.termed h = true → s.Present h
  ctxRes : ∀ h w, s.wraps.lookup h = some w → w.ctxRes.isSome → h.kind = .sampler

/-- Only call `i` can reach the wrapper: it runs its destructor. -/
structure Alone (s : Mem) (i : Tid) (h : Handle) : Prop where
  claim : s.claims.lookup i = some ⟨[h], none⟩
  termed : s.termed h = false
  owner : s.owner h = none
  refs : ∀ j, j ≠ i → h ∉ s.refs j
  kept : ∀ h' w, s.wraps.lookup h' = some w → h ∉ w.kept

/-- The object behind the handle is not freed. -/
def Mem.Live (s : Mem) (h : Handle) : Prop :=
  match h.kind with
  | .model => (s.modelPtr h.addr).isSome
  | _      => ∃ w, s.wraps.lookup h = some w ∧ w.obj.isSome

/-- What call `i` has to know before a step. -/
def Legal (s : Mem) (i : Tid) : Act → Prop
  | .lock h          => h ∈ s.refs i
  | .unlock h        => s.owner h = some i
  | .loadModel | .modelLive _ _ | .objLive _ | .useUnlocked _ => True
  | .use hs          => ∀ h ∈ hs, s.Live h
  | .useContext c _  => s.Live c
  | .install c adapters => s.Live c ∧ ∀ a ∈ adapters, s.Live ⟨.adapter, a.1⟩
  | .useOwn h        => h.kind ≠ .model ∧ s.Live h
  | .attach k m      => k.Borrows ∧ s.owner (modelHandle m) = some i ∧
      ∃ r, s.models.lookup m = some r ∧ r.model.isSome ∧ r.releasePending = false
  | .freeModel m     => s.owner (modelHandle m) = some i
  | .freeObj h       => s.owner h = some i ∧ h.kind ≠ .model ∧ h.kind ≠ .context
  | .takeContext c   => s.owner c = some i ∧ c.kind = .context ∧
      ∃ cl, s.claims.lookup i = some cl ∧ cl.drop = none
  | .dropsModel k m  => s.owner (modelHandle m) = some i ∧
      ∃ cl, s.claims.lookup i = some cl ∧ cl.drop = some (k, m)
  | .releaseKeep m   => s.owner (modelHandle m) ≠ some i ∧
      ∃ cl, s.claims.lookup i = some cl ∧ cl.drop = none
  | .newSampler c    => ⟨.context, c⟩ ∈ s.refs i
  | .finalize h      => h.kind ≠ .model ∧ Alone s i h
  | .finalizeModel m => Alone s i (modelHandle m)

/-- The model is freed, or will be when its last borrower lets go. -/
def ModelRes.Closed (r : ModelRes) : Prop := r.model = none ∨ r.releasePending = true

/-- A model that is closed stays closed, and loses borrowers only. -/
def ModelRes.Later (r r' : ModelRes) : Prop :=
  r.Closed → r'.Closed ∧ ∀ k, r'.active k ≤ r.active k

/-- What becomes of the models that there were. -/
def Mem.Later (s t : Mem) : Prop :=
  s.nextAddr ≤ t.nextAddr ∧ ∀ m r', t.models.lookup m = some r' → m < s.nextAddr →
    ∃ r, s.models.lookup m = some r ∧ r.Later r'

/-- What a step of call `i` leaves alone. -/
structure Footprint (i : Tid) (s t : Mem) : Prop where
  claim : ∀ j, j ≠ i → t.claims.lookup j = s.claims.lookup j
  owner : ∀ h, t.owner h = s.owner h ∨ (s.owner h = none ∧ t.owner h = some i ∧ h ∈ s.refs i) ∨
    (s.owner h = some i ∧ t.owner h = none)
  model : ∀ m, t.models.lookup m = s.models.lookup m ∨ s.owner (modelHandle m) = some i ∨
    Alone s i (modelHandle m) ∨ s.models.lookup m = none
  wrap : ∀ h, t.wraps.lookup h = s.wraps.lookup h ∨ s.owner h = some i ∨ Alone s i h ∨
    s.wraps.lookup h = none
  termed : ∀ h, s.termed h = false → t.termed h = true → ¬ s.Present h
  refs : ∀ h, h ∈ t.refs i → h ∈ s.refs i ∨ ∃ h' w, s.wraps.lookup h' = some w ∧ h ∈ w.kept
  kept : ∀ h' w h, t.wraps.lookup h' = some w → h ∈ w.kept →
    h ∈ s.refs i ∨ ∃ w', s.wraps.lookup h' = some w' ∧ h ∈ w'.kept
  later : s.Later t

/-- What call `i` can rely on while others move. -/
structure Rely (i : Tid) (s t : Mem) : Prop where
  claim : t.claims.lookup i = s.claims.lookup i
  owner : ∀ h, t.owner h = some i ↔ s.owner h = some i
  model : ∀ m, s.owner (modelHandle m) = some i → t.models.lookup m = s.models.lookup m
  wrap : ∀ h, h.kind ≠ .model → s.owner h = some i → t.wraps.lookup h = s.wraps.lookup h
  alone : ∀ h, Alone s i h → Alone t i h
  later : s.Later t

/-- A record of a model is as late as itself. -/
theorem ModelRes.Later.refl (r : ModelRes) : r.Later r := fun h => ⟨h, fun _ => Nat.le_refl _⟩

/-- Later and later. -/
theorem ModelRes.Later.trans {r r' r'' : ModelRes} (h : r.Later r') (h' : r'.Later r'') :
    r.Later r'' := by
  intro hc
  obtain ⟨hc', hle⟩ := h hc
  obtain ⟨hc'', hle'⟩ := h' hc'
  exact ⟨hc'', fun k => (hle' k).trans (hle k)⟩

/-- Nothing happened to the models. -/
theorem Mem.Later.refl (s : Mem) : s.Later s :=
  ⟨Nat.le_refl _, fun _ r hr _ => ⟨r, hr, ModelRes.Later.refl r⟩⟩

/-- One change of the models after another. -/
theorem Mem.Later.trans {s t u : Mem} (h : s.Later t) (h' : t.Later u) : s.Later u := by
  refine ⟨h.1.trans h'.1, fun m r'' hr'' hm => ?_⟩
  obtain ⟨r', hr', hlater'⟩ := h'.2 m r'' hr'' (Nat.lt_of_lt_of_le hm h.1)
  obtain ⟨r, hr, hlater⟩ := h.2 m r' hr' hm
  exact ⟨r, hr, hlater.trans hlater'⟩

/-- The others did nothing. -/
theorem Rely.refl (i : Tid) (s : Mem) : Rely i s s where
  claim := rfl
  owner _ := Iff.rfl
  model _ _ := rfl
  wrap _ _ _ := rfl
  alone _ h := h
  later := Mem.Later.refl s

/-- They did one thing after another. -/
theorem Rely.trans {i : Tid} {s t u : Mem} (h : Rely i s t) (h' : Rely i t u) : Rely i s u where
  claim := h'.claim.trans h.claim
  owner x := (h'.owner x).trans (h.owner x)
  model m hm := (h'.model m ((h.owner _).mpr hm)).trans (h.model m hm)
  wrap x hk hx := (h'.wrap x hk ((h.owner x).mpr hx)).trans (h.wrap x hk hx)
  alone x hx := h'.alone x (h.alone x hx)
  later := h.later.trans h'.later

/-- They leave the thread's references. -/
theorem Rely.refs {i : Tid} {s t : Mem} (h : Rely i s t) : t.refs i = s.refs i := by
  unfold Mem.refs
  rw [h.claim]

section Facts

variable {s t : Mem} {i j : Tid} {h : Handle}

/-- The references of a thread are those of its claim. -/
theorem mem_refs {x : Handle} : x ∈ s.refs i ↔ ∃ c, s.claims.lookup i = some c ∧ x ∈ c.refs := by
  unfold Mem.refs
  cases hc : s.claims.lookup i with
  | none   => simp
  | some c => simp

/-- A model's wrapper is there iff it has a record. -/
theorem present_model {m : Nat} :
    s.Present (modelHandle m) ↔ ∃ r, s.models.lookup m = some r := Option.isSome_iff_exists

/-- So is any other wrapper. -/
theorem present_wrap (hk : h.kind ≠ .model) : s.Present h ↔ ∃ w, s.wraps.lookup h = some w := by
  unfold Mem.Present
  rw [if_neg hk, Option.isSome_iff_exists]

/-- A locked wrapper is there. -/
theorem Valid.present_of_owner (hv : Valid s) (ho : s.owner h = some i) : s.Present h := by
  obtain ⟨c, hc, hx⟩ := mem_refs.mp (hv.locks h i ho)
  exact hv.held i c h hc hx

/-- A thread alone with a wrapper refers to it. -/
theorem Alone.mem_refs (ha : Alone s i h) : h ∈ s.refs i := by
  rw [Handles.mem_refs]
  exact ⟨_, ha.claim, List.mem_singleton_self h⟩

/-- **The others can rely on a step.** -/
theorem Footprint.rely (hv : Valid s) (hf : Footprint i s t) (hj : j ≠ i) : Rely j s t where
  claim := hf.claim j hj
  owner h := by
    rcases hf.owner h with heq | ⟨hs, ht, -⟩ | ⟨hs, ht⟩
    · rw [heq]
    · rw [hs, ht]
      simp [hj.symm]
    · rw [hs, ht]
      simp [hj.symm]
  -- A model whose lock `j` has is changed by nobody else; so is a wrapper.
  model m hm := by
    rcases hf.model m with heq | ho | ha | hnone
    · exact heq
    · rw [hm] at ho
      exact absurd (Option.some.inj ho) hj
    · rw [ha.owner] at hm
      cases hm
    · obtain ⟨r, hr⟩ := present_model.mp (hv.present_of_owner hm)
      rw [hr] at hnone
      cases hnone
  wrap h hk hh := by
    rcases hf.wrap h with heq | ho | ha | hnone
    · exact heq
    · rw [hh] at ho
      exact absurd (Option.some.inj ho) hj
    · rw [ha.owner] at hh
      cases hh
    · obtain ⟨w, hw⟩ := (present_wrap hk).mp (hv.present_of_owner hh)
      rw [hw] at hnone
      cases hnone
  -- What nobody but a finaliser knows is not in the claim of another call.
  alone h ha := by
    have href : h ∉ s.refs i := ha.refs i hj.symm
    refine ⟨(hf.claim j hj).trans ha.claim, ?_, ?_, ?_, ?_⟩
    · by_contra hterm
      rw [Bool.not_eq_false] at hterm
      exact hf.termed h ha.termed hterm (hv.held j _ h ha.claim (List.mem_singleton_self h))
    · rcases hf.owner h with heq | ⟨-, -, hmem⟩ | ⟨hs, -⟩
      · rw [heq, ha.owner]
      · exact absurd hmem href
      · rw [ha.owner] at hs
        cases hs
    · intro k hk hmem
      by_cases hki : k = i
      · subst hki
        rcases hf.refs h hmem with hin | ⟨h', w, hw, hin⟩
        · exact href hin
        · exact ha.kept h' w hw hin
      · have hsame : t.refs k = s.refs k := by
          unfold Mem.refs
          rw [hf.claim k hki]
        rw [hsame] at hmem
        exact ha.refs k hk hmem
    · intro h' w hw hin
      rcases hf.kept h' w h hw hin with hmem | ⟨w', hw', hin'⟩
      · exact href hmem
      · exact ha.kept h' w' hw' hin'
  later := hf.later

/-! ### Using objects -/

/-- A row that is counted makes the count positive. -/
theorem countValues_pos {κ α : Type} [DecidableEq κ] {t : Table κ α} {k : κ} {a : α}
    (hk : t.lookup k = some a) {p : α → Bool} (hp : p a = true) : 0 < t.countValues p := by
  rw [AList.countValues_erase_of_lookup_some hk p, if_pos hp]
  exact Nat.succ_pos _

/-- A borrower is counted. -/
theorem Valid.active_pos (hv : Valid s) {w : Wrap} {m : Nat} {r : ModelRes}
    (hw : s.wraps.lookup h = some w) (hm : w.modelRes = some m) (hr : s.models.lookup m = some r)
    (hk : h.kind.Borrows) : 0 < r.active h.kind := by
  have hkind := (hv.kind h w hw).1
  rw [hv.counts m r h.kind hr hk]
  have hpos : 0 < s.wraps.countValues (Wrap.borrows h.kind m) :=
    countValues_pos hw (by simp [Wrap.borrows, hkind, hm])
  omega

/-- The model of a context or an adapter is not freed. -/
theorem Valid.lent_alive (hv : Valid s) {w : Wrap} {m : Nat} (hw : s.wraps.lookup h = some w)
    (hm : w.modelRes = some m) (hk : h.kind = .context ∨ h.kind = .adapter) :
    ∃ p, s.modelPtr m = some p ∧ s.heap p = some (modelHandle m) := by
  obtain ⟨r, hr⟩ := present_model.mp (hv.keeps h w (modelHandle m) hw (by simp [Wrap.kept, hm]))
  have hpos := hv.active_pos hw hm hr (by rcases hk with hk | hk <;> rw [hk] <;> trivial)
  cases hp : r.model with
  | none =>
    obtain ⟨hc, ha, -, -⟩ := hv.freed m r hr hp
    rcases hk with hk | hk
    · rw [hk] at hpos
      exact absurd hpos (by simp [ModelRes.active, hc])
    · rw [hk] at hpos
      exact absurd hpos (by simp [ModelRes.active, ha])
  | some p => exact ⟨p, by simp [Mem.modelPtr, hr, hp], hv.modelPtr m r p hr hp⟩

/-- A pointer to an object that is there may be used. -/
theorem touchOwn_of_heap {x : Handle} {p : Ptr} (hp : s.heap p ≠ none) :
    s.touchOwn x (some p) = [] := by
  unfold Mem.touchOwn Mem.dangles
  rw [if_neg (by simpa using hp)]

/-- Using the model that an object borrows is a fault only for a projector whose model was freed
    under it. -/
theorem Valid.touchLent (hv : Valid s) {w : Wrap} (hw : s.wraps.lookup h = some w) :
    ∀ f ∈ s.touchLent h w.modelRes, f.Excused s.stranded := by
  cases hm : w.modelRes with
  | none => simp [Mem.touchLent]
  | some m =>
    intro f hf
    replace hf : f ∈ if s.dangles (s.modelPtr m) then [Fault.lent h m] else [] := hf
    by_cases hdang : s.dangles (s.modelPtr m) = true
    · rw [if_pos hdang, List.mem_singleton] at hf
      subst hf
      by_cases hk : h.kind = .context ∨ h.kind = .adapter
      · obtain ⟨p, hptr, hheap⟩ := hv.lent_alive hw hm hk
        rw [hptr] at hdang
        simp [Mem.dangles, hheap] at hdang
      · have hmtmd : h.kind = .mtmd := by
          obtain ⟨hkind, hne⟩ := hv.kind h w hw
          cases hcase : h.kind with
          | model => exact absurd hcase hne
          | context => exact absurd (.inl hcase) hk
          | adapter => exact absurd (.inr hcase) hk
          | mtmd => rfl
          | sampler =>
            rw [hv.sampler h w hw hcase] at hm
            cases hm
        refine ⟨hmtmd, ?_⟩
        obtain ⟨r, hr⟩ :=
          present_model.mp (hv.keeps h w (modelHandle m) hw (by simp [Wrap.kept, hm]))
        have hpos := hv.active_pos hw hm hr (by rw [hmtmd]; trivial)
        rw [hmtmd] at hpos
        cases hp : r.model with
        | none => exact (hv.freed m r hr hp).2.2.2 hpos
        | some p =>
          have hptr : s.modelPtr m = some p := by simp [Mem.modelPtr, hr, hp]
          rw [hptr] at hdang
          simp [Mem.dangles, hv.modelPtr m r p hr hp] at hdang
    · rw [if_neg hdang] at hf
      cases hf

/-- In a valid memory a wrapper's own pointer may be used. -/
theorem Valid.touchOwn (hv : Valid s) {w : Wrap} {p : Ptr} (hw : s.wraps.lookup h = some w)
    (hp : w.obj = some p) : s.touchOwn h w.obj = [] := by
  rw [hp]
  exact touchOwn_of_heap (by simp [hv.wrapPtr h w p hw hp])

/-- So may a model's. -/
theorem Valid.touchModel (hv : Valid s) {m : Nat} {p : Ptr} (hp : s.modelPtr m = some p) :
    s.touchOwn (modelHandle m) (some p) = [] := by
  obtain ⟨r, hr, hrp⟩ := Option.bind_eq_some_iff.mp hp
  exact touchOwn_of_heap (by simp [hv.modelPtr m r p hr hrp])

/-- A live object has a wrapper that points to it. -/
theorem live_wrap (hk : h.kind ≠ .model) (hl : s.Live h) :
    ∃ w, s.wraps.lookup h = some w ∧ w.obj.isSome := by
  cases hkind : h.kind with
  | model => exact absurd hkind hk
  | context => simpa [Mem.Live, hkind] using hl
  | adapter => simpa [Mem.Live, hkind] using hl
  | mtmd => simpa [Mem.Live, hkind] using hl
  | sampler => simpa [Mem.Live, hkind] using hl

/-- A wrapper that points to its object makes it live. -/
theorem live_of_objLive (hk : h.kind ≠ .model) (ho : objLive h s = true) : s.Live h := by
  obtain ⟨p, hp⟩ := Option.isSome_iff_exists.mp ho
  obtain ⟨w, hw, hobj⟩ := Option.bind_eq_some_iff.mp hp
  have hl : ∃ w, s.wraps.lookup h = some w ∧ w.obj.isSome := ⟨w, hw, by simp [hobj]⟩
  cases hkind : h.kind with
  | model => exact absurd hkind hk
  | context => simpa [Mem.Live, hkind] using hl
  | adapter => simpa [Mem.Live, hkind] using hl
  | mtmd => simpa [Mem.Live, hkind] using hl
  | sampler => simpa [Mem.Live, hkind] using hl

/-- Using a live object is no fault of its own. -/
theorem Valid.touch (hv : Valid s) (hl : s.Live h) : ∀ f ∈ s.touch h, f.Excused s.stranded := by
  by_cases hk : h.kind = .model
  · have htouch : s.touch h = s.touchOwn h (s.modelPtr h.addr) := by simp [Mem.touch, hk]
    have hl' : (s.modelPtr h.addr).isSome := by simpa [Mem.Live, hk] using hl
    obtain ⟨p, hp⟩ := Option.isSome_iff_exists.mp hl'
    have hh : h = modelHandle h.addr := by
      cases h
      exact congrArg (Handle.mk · _) hk
    have hnone := hv.touchModel hp
    rw [htouch, hp]
    rw [← hh] at hnone
    simp [hnone]
  · obtain ⟨w, hw, hobj⟩ := live_wrap hk hl
    obtain ⟨p, hp⟩ := Option.isSome_iff_exists.mp hobj
    have htouch : s.touch h = s.touchOwn h w.obj ++ s.touchLent h w.modelRes := by
      cases hkind : h.kind with
      | model => exact absurd hkind hk
      | context => simp [Mem.touch, hkind, hw]
      | adapter => simp [Mem.touch, hkind, hw]
      | mtmd => simp [Mem.touch, hkind, hw]
      | sampler => simp [Mem.touch, hkind, hw]
    rw [htouch, hv.touchOwn hw hp, List.nil_append]
    exact hv.touchLent hw

/-- Using the adapters that are set on a context is not ruled out. -/
theorem touchInstalled_excused (f : Fault) (hf : f ∈ s.touchInstalled h) :
    f.Excused s.stranded := by
  obtain ⟨a, -, rfl⟩ := List.mem_map.mp hf
  trivial

/-- Freeing an object that is not freed is no fault of its own. -/
theorem Valid.touchFree (hv : Valid s) {w : Wrap} {p : Ptr} (hw : s.wraps.lookup h = some w)
    (hp : w.obj = some p) : ∀ f ∈ s.touchFree h w, f.Excused s.stranded := by
  have hown := hv.touchOwn hw hp
  unfold Mem.touchFree
  cases h.kind with
  | mtmd => simp [hown]
  | model => simpa [hown] using hv.touchLent hw
  | context => simpa [hown] using hv.touchLent hw
  | adapter => simpa [hown] using hv.touchLent hw
  | sampler => simpa [hown] using hv.touchLent hw

/-- An excused fault keeps the memory valid. -/
theorem Valid.fault (hv : Valid s) {fs : List Fault} (hfs : ∀ f ∈ fs, f.Excused s.stranded) :
    Valid (s.fault fs) :=
  { hv with
    faults := fun f hf => (List.mem_append.mp hf).elim (hv.faults f) (hfs f) }

end Facts

end Erllama.Native.Handles
