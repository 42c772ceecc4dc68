import Erllama.Native.Footprints

namespace Erllama.Native.Handles

open Lib

/-!
# Walking through a call

The calls share the memory by rely and guarantee: a call relies on `Rely`, and its steps have to
be `Legal`.

* `Runs` — the steps of a program are legal whatever the others do, and its result meets `post`.
* `Knows` — what a call keeps alive, which mutexes it has, and which objects are live under them.
* `Runs.lock`, `.unlock`, `.objLive`, … — what a step lets a call know.
-/

/-- A step of a call, which waits while a mutex that it takes has an owner. -/
def can (s : Mem) (a : Tid × Act) (r : a.2.Answer) (t : Mem) : Prop :=
  (∀ h, a.2 = .lock h → s.owner h = none) ∧ ∃ fails, perform fails a.1 a.2 s = (r, t)

/-- Whatever the others do, the memory stays valid, and what the program returns meets `post`. -/
abbrev Runs {β : Type} (i : Tid) (post : β → Mem → Prop) (p : Part β) (s : Mem) : Prop :=
  Safe Valid Rely can i post p s

/-- What a call knows: what it keeps alive, the mutexes that it has, and the objects that are
    live under these. -/
structure Knows (i : Tid) (c : Claim) (held live : Set Handle) (s : Mem) : Prop where
  claim : s.claims.lookup i = some c
  owns : ∀ h, s.owner h = some i ↔ h ∈ held
  alive : ∀ h ∈ live, h ∈ held ∧ s.Live h

/-- The model's wrapper takes new borrowers. -/
def Mem.Open (s : Mem) (m : Nat) : Prop :=
  ∃ r, s.models.lookup m = some r ∧ r.model.isSome ∧ r.releasePending = false

/-- The call has given everything back. -/
def Ended (i : Tid) (s : Mem) : Prop := s.drop i = none ∧ ∀ h, s.owner h ≠ some i

variable {β : Type} {s t : Mem} {i : Tid} {h : Handle} {c : Claim} {held live : Set Handle}
  {post : β → Mem → Prop}

/-- What other threads do takes no mutex and no reference of this one. -/
theorem Knows.rely (hk : Knows i c held live s) (hr : Rely i s t) : Knows i c held live t where
  claim := hr.claim.trans hk.claim
  owns h := (hr.owner h).trans (hk.owns h)
  alive h hh := by
    obtain ⟨hheld, hlive⟩ := hk.alive h hh
    have hown := (hk.owns h).mpr hheld
    refine ⟨hheld, ?_⟩
    by_cases hkind : h.kind = .model
    · have hsame := hr.model h.addr (by rwa [modelHandle_addr hkind])
      simpa only [Mem.Live, hkind, Mem.modelPtr, hsame] using hlive
    · have hsame := hr.wrap h hkind hown
      unfold Mem.Live at hlive ⊢
      cases hcase : h.kind with
      | model => exact absurd hcase hkind
      | context => simpa only [hcase, hsame] using hlive
      | adapter => simpa only [hcase, hsame] using hlive
      | mtmd => simpa only [hcase, hsame] using hlive
      | sampler => simpa only [hcase, hsame] using hlive

/-- What the thread refers to. -/
theorem Knows.refs (hk : Knows i c held live s) : s.refs i = c.refs := by
  simp [Mem.refs, hk.claim]

/-- What it still has to drop. -/
theorem Knows.drop (hk : Knows i c held live s) : s.drop i = c.drop := by
  simp [Mem.drop, hk.claim]

/-- What is known of fewer objects. -/
theorem Knows.mono {live' : Set Handle} (hk : Knows i c held live s) (hsub : live' ⊆ live) :
    Knows i c held live' s :=
  { hk with alive := fun h hh => hk.alive h (hsub hh) }

/-- The same mutexes under another name. -/
theorem Knows.congr {held' live' : Set Handle} (hk : Knows i c held live s) (hh : held = held')
    (hl : live = live') : Knows i c held' live' s := hl ▸ hh ▸ hk

/-- A step that leaves the claims, the owners, the models and the wrappers. -/
theorem Knows.of_eq (hk : Knows i c held live s) (hc : t.claims = s.claims)
    (ho : t.owner = s.owner) (hm : t.models = s.models) (hw : t.wraps = s.wraps) :
    Knows i c held live t where
  claim := by rw [hc]; exact hk.claim
  owns h := by rw [ho]; exact hk.owns h
  alive h hh := by
    have hlive := hk.alive h hh
    unfold Mem.Live Mem.modelPtr at *
    rwa [hm, hw]

/-- A step that leaves the claims and the owners. -/
theorem Knows.forget (hk : Knows i c held live s) (hc : t.claims = s.claims)
    (ho : t.owner = s.owner) : Knows i c held ∅ t where
  claim := by rw [hc]; exact hk.claim
  owns h := by rw [ho]; exact hk.owns h
  alive h hh := hh.elim

/-- A thread with no mutex and nothing to drop is through. -/
theorem Knows.ended (hk : Knows i c ∅ live s) (hd : c.drop = none) : Ended i s :=
  ⟨hk.drop.trans hd, fun h ho => (hk.owns h).mp ho⟩

/-! ### Rules -/

/-- A program that has stopped. -/
theorem Runs.ret {P : Mem → Prop} (hP : ∀ s t, P s → Rely i s t → P t) (hs : P s) {b : β}
    (h : ∀ t, P t → post b t) : Runs i post (pure b) s :=
  fun t hr _ => h t (hP s t hs hr)

/-- One step, from an assertion that the others keep. -/
theorem Runs.first {a : Act} {f : a.Answer → Part β} {P : Mem → Prop}
    (hP : ∀ s t, P s → Rely i s t → P t) (hs : P s) (hl : ∀ s, Valid s → P s → Legal s i a)
    (h : ∀ s fails, Valid s → P s → (∀ x, a = .lock x → s.owner x = none) →
      Valid (perform fails i a s).2 →
      Runs i post (f (perform fails i a s).1) (perform fails i a s).2) :
    Runs i post (step i a >>= f) s := by
  refine Safe.act_of (fun s s' hs hr _ => hP s s' hs hr) hs fun s r t hv hp hc => ?_
  obtain ⟨hfree, fails, heq⟩ := hc
  obtain ⟨hvt, hfoot⟩ := (hl s hv hp).perform hv hfree fails
  have hrun := h s fails hv hp hfree hvt
  rw [heq] at hvt hfoot hrun
  exact ⟨hvt, fun j hj => hfoot.rely hv hj, hrun⟩

/-- One program after another. -/
theorem Runs.bind {γ : Type} {mid : γ → Mem → Prop} {p : Part γ} {f : γ → Part β} (hv : Valid s)
    (hp : Runs i mid p s) (hf : ∀ b t, Valid t → mid b t → Runs i post (f b) t) :
    Runs i post (p >>= f) s :=
  Safe.bind (Rely.refl i) hv hp hf

section Frames

/-- Freeing a model changes no claim and no mutex. -/
theorem freeModel_frame (m : Nat) (s : Mem) :
    (freeModel m s).2.claims = s.claims ∧ (freeModel m s).2.owner = s.owner := by
  unfold freeModel
  cases s.models.lookup m with
  | none   => exact ⟨rfl, rfl⟩
  | some r =>
    cases hp : r.model with
    | none   => simp only [hp, and_self]
    | some p =>
      simp only [hp]
      by_cases hb : 0 < r.activeContexts ∨ 0 < r.activeAdapters
      · rw [if_pos hb]
        exact ⟨rfl, rfl⟩
      · rw [if_neg hb]
        by_cases hs : 0 < r.activeMtmd
        · rw [if_pos hs]
          exact ⟨rfl, rfl⟩
        · rw [if_neg hs]
          exact ⟨rfl, rfl⟩

/-- Nor does freeing another object. -/
theorem freeObj_frame (h : Handle) (s : Mem) :
    (freeObj h s).2.claims = s.claims ∧ (freeObj h s).2.owner = s.owner := by
  unfold freeObj
  cases s.wraps.lookup h with
  | none   => exact ⟨rfl, rfl⟩
  | some w =>
    cases hp : w.obj with
    | none   => simp only [hp, and_self]
    | some p =>
      simp only [hp]
      exact ⟨rfl, rfl⟩

/-- Dropping a model ends the claim on it and keeps the mutexes. -/
theorem dropsModel_frame {k : Kind} {m : Nat} {r : ModelRes} (hr : s.models.lookup m = some r) :
    (dropsModel i k m s).claims = s.claims.insert i ⟨s.refs i, none⟩ ∧
      (dropsModel i k m s).owner = s.owner := by
  simp only [dropsModel, hr]
  cases (r.giveBack k).releasePending && (r.giveBack k).unreferenced with
  | false => exact ⟨rfl, rfl⟩
  | true  =>
    cases (r.giveBack k).model with
    | none   => exact ⟨rfl, rfl⟩
    | some p => exact ⟨rfl, rfl⟩

end Frames

section Rules

variable (hk : Knows i c held live s)
include hk

/-- The end, with what is known then. -/
theorem Runs.done {b : β} (h : ∀ t, Knows i c held live t → post b t) :
    Runs i post (pure b) s :=
  Runs.ret (fun _ _ hk hr => hk.rely hr) hk h

/-- A mutex is taken. -/
theorem Runs.lock {f : Unit → Part β} (hh : h ∈ c.refs)
    (hf : ∀ t, Valid t → h ∉ held → Knows i c (insert h held) live t → Runs i post (f ()) t) :
    Runs i post (step i (.lock h) >>= f) s := by
  refine Runs.first (fun _ _ hk hr => hk.rely hr) hk (fun s _ hk => ?_) fun s _ _ hk hfree hv => ?_
  · show h ∈ s.refs i
    rwa [hk.refs]
  · have hnot : h ∉ held := by
      intro hin
      have hown := (hk.owns h).mpr hin
      rw [hfree h rfl] at hown
      cases hown
    refine hf _ hv hnot
      ⟨hk.claim, fun x => ?_, fun x hx => ⟨.inr (hk.alive x hx).1, (hk.alive x hx).2⟩⟩
    show Function.update s.owner h (some i) x = some i ↔ x ∈ insert h held
    by_cases hxh : x = h
    · simp [hxh]
    · simpa [hxh] using hk.owns x

/-- A mutex is given back. -/
theorem Runs.unlock {f : Unit → Part β} (hh : h ∈ held)
    (hf : ∀ t, Valid t → Knows i c (held \ {h}) (live \ {h}) t → Runs i post (f ()) t) :
    Runs i post (step i (.unlock h) >>= f) s := by
  refine Runs.first (fun _ _ hk hr => hk.rely hr) hk (fun s _ hk => (hk.owns h).mpr hh)
    fun s _ _ hk _ hv => hf _ hv ⟨hk.claim, fun x => ?_, fun x hx => ?_⟩
  · show Function.update s.owner h none x = some i ↔ x ∈ held \ {h}
    by_cases hxh : x = h
    · simp [hxh]
    · simpa [hxh] using hk.owns x
  · obtain ⟨hin, hlive⟩ := hk.alive x hx.1
    exact ⟨⟨hin, hx.2⟩, hlive⟩

/-- Whether the object behind a locked wrapper is live. -/
theorem Runs.objLive {f : Bool → Part β} (hh : h ∈ held) (hkind : h.kind ≠ .model)
    (hyes : ∀ t, Valid t → Knows i c held (insert h live) t → Runs i post (f true) t)
    (hno : ∀ t, Valid t → Knows i c held live t → Runs i post (f false) t) :
    Runs i post (step i (.objLive h) >>= f) s := by
  refine Runs.first (fun _ _ hk hr => hk.rely hr) hk (fun _ _ _ => trivial) fun s _ _ hk _ hv => ?_
  show Runs i post (f (Handles.objLive h s)) s
  cases hans : Handles.objLive h s with
  | false => exact hno s hv hk
  | true  =>
    refine hyes s hv { hk with alive := fun x hx => ?_ }
    rcases hx with rfl | hx
    · exact ⟨hh, live_of_objLive hkind hans⟩
    · exact hk.alive x hx

/-- Live objects are used. -/
theorem Runs.use {f : Unit → Part β} {hs : List Handle} (hl : ∀ h ∈ hs, h ∈ live)
    (hf : ∀ t, Valid t → Knows i c held live t → Runs i post (f ()) t) :
    Runs i post (step i (.use hs) >>= f) s :=
  Runs.first (fun _ _ hk hr => hk.rely hr) hk (fun _ _ hk h hh => (hk.alive h (hl h hh)).2)
    fun _ _ _ hk _ hv => hf _ hv (hk.of_eq rfl rfl rfl rfl)

/-- A live context is used, or decodes. -/
theorem Runs.useContext {f : Unit → Part β} {decodes : Bool} (hl : h ∈ live)
    (hf : ∀ t, Valid t → Knows i c held live t → Runs i post (f ()) t) :
    Runs i post (step i (.useContext h decodes) >>= f) s :=
  Runs.first (fun _ _ hk hr => hk.rely hr) hk (fun _ _ hk => (hk.alive h hl).2)
    fun _ _ _ hk _ hv => hf _ hv (hk.of_eq rfl rfl rfl rfl)

/-- Live adapters are set on a live context. -/
theorem Runs.install {f : Unit → Part β} {adapters : List (Nat × ℚ)} (hl : h ∈ live)
    (has : ∀ a ∈ adapters, ⟨.adapter, a.1⟩ ∈ live)
    (hf : ∀ t, Valid t → Knows i c held live t → Runs i post (f ()) t) :
    Runs i post (step i (.install h adapters) >>= f) s :=
  Runs.first (fun _ _ hk hr => hk.rely hr) hk
    (fun _ _ hk => ⟨(hk.alive h hl).2, fun a ha => (hk.alive _ (has a ha)).2⟩)
    fun _ _ _ hk _ hv => hf _ hv (hk.of_eq rfl rfl rfl rfl)

/-- The object of a live wrapper is used, and not the model that it borrows. -/
theorem Runs.useOwn {f : Unit → Part β} (hl : h ∈ live) (hkind : h.kind ≠ .model)
    (hf : ∀ t, Valid t → Knows i c held live t → Runs i post (f ()) t) :
    Runs i post (step i (.useOwn h) >>= f) s :=
  Runs.first (fun _ _ hk hr => hk.rely hr) hk (fun _ _ hk => ⟨hkind, (hk.alive h hl).2⟩)
    fun _ _ _ hk _ hv => hf _ hv (hk.of_eq rfl rfl rfl rfl)

/-- The thread reads a model without its mutex. -/
theorem Runs.useUnlocked {f : Unit → Part β} {m : Nat}
    (hf : ∀ t, Valid t → Knows i c held live t → Runs i post (f ()) t) :
    Runs i post (step i (.useUnlocked m) >>= f) s :=
  Runs.first (fun _ _ hk hr => hk.rely hr) hk (fun _ _ _ => trivial)
    fun _ _ _ hk _ hv => hf _ hv (hk.of_eq rfl rfl rfl rfl)

/-- Whether a model is live; the answer is good only under its mutex. -/
theorem Runs.modelLive {f : Bool → Part β} {m : Nat} {orPending : Bool}
    (hf : ∀ b t, Valid t → Knows i c held live t → Runs i post (f b) t) :
    Runs i post (step i (.modelLive m orPending) >>= f) s :=
  Runs.first (fun _ _ hk hr => hk.rely hr) hk (fun _ _ _ => trivial)
    fun _ _ _ hk _ hv => hf _ _ hv hk

/-- Whether the model of a locked wrapper is live. -/
theorem Runs.modelLocked {f : Bool → Part β} {m : Nat} {orPending : Bool}
    (hh : modelHandle m ∈ held)
    (hyes : ∀ t, Valid t → Knows i c held (insert (modelHandle m) live) t →
      (orPending = false → t.Open m) → Runs i post (f true) t)
    (hno : ∀ t, Valid t → Knows i c held live t → Runs i post (f false) t) :
    Runs i post (step i (.modelLive m orPending) >>= f) s := by
  refine Runs.first (fun _ _ hk hr => hk.rely hr) hk (fun _ _ _ => trivial) fun s _ _ hk _ hv => ?_
  show Runs i post (f (Handles.modelLive m orPending s)) s
  cases hans : Handles.modelLive m orPending s with
  | false => exact hno s hv hk
  | true  =>
    unfold Handles.modelLive at hans
    cases hr : s.models.lookup m with
    | none   => simp [hr] at hans
    | some r =>
      simp only [hr, Bool.and_eq_true, Bool.or_eq_true, Bool.not_eq_true'] at hans
      obtain ⟨hlive, hpend⟩ := hans
      refine hyes s hv { hk with alive := fun x hx => ?_ } fun horp => ?_
      · rcases hx with rfl | hx
        · refine ⟨hh, ?_⟩
          show (s.modelPtr m).isSome
          simpa [Mem.modelPtr, hr] using hlive
        · exact hk.alive x hx
      · exact ⟨r, hr, hlive, by simpa [horp] using hpend⟩

/-- A borrower is made under the model's mutex. -/
theorem Runs.attach {f : Bool → Part β} {k : Kind} {m : Nat} (hb : k.Borrows)
    (hh : modelHandle m ∈ held) (hopen : s.Open m)
    (hf : ∀ b t, Valid t → Knows i c held ∅ t → Runs i post (f b) t) :
    Runs i post (step i (.attach k m) >>= f) s := by
  have hstable : ∀ s t, Knows i c held live s ∧ s.Open m → Rely i s t →
      Knows i c held live t ∧ t.Open m := by
    rintro s t ⟨hk, r, hr, hlive⟩ hrel
    refine ⟨hk.rely hrel, r, ?_, hlive⟩
    rw [hrel.model m ((hk.owns _).mpr hh), hr]
  refine Runs.first hstable ⟨hk, hopen⟩ (fun s _ ⟨hk, hopen⟩ => ⟨hb, (hk.owns _).mpr hh, hopen⟩)
    fun s fails _ ⟨hk, hopen⟩ _ hv => hf _ _ hv ?_
  obtain ⟨r, hr, -⟩ := hopen
  cases fails with
  | true  => exact hk.forget rfl rfl
  | false =>
    show Knows i c held ∅ (Handles.attach false k m s).2
    rw [attach_of_lookup hr]
    exact hk.forget rfl rfl

/-- It frees a model whose mutex it holds. -/
theorem Runs.freeModel {f : Reply → Part β} {m : Nat} (hh : modelHandle m ∈ held)
    (hf : ∀ r t, Valid t → Knows i c held ∅ t → Runs i post (f r) t) :
    Runs i post (step i (.freeModel m) >>= f) s := by
  refine Runs.first (fun _ _ hk hr => hk.rely hr) hk (fun _ _ hk => (hk.owns _).mpr hh)
    fun s _ _ hk _ hv => hf _ _ hv ?_
  obtain ⟨hc, ho⟩ := freeModel_frame m s
  exact hk.forget hc ho

/-- It frees another object whose mutex it holds. -/
theorem Runs.freeObj {f : Bool → Part β} (hh : h ∈ held) (hm : h.kind ≠ .model)
    (hctx : h.kind ≠ .context)
    (hf : ∀ b t, Valid t → Knows i c held ∅ t → Runs i post (f b) t) :
    Runs i post (step i (.freeObj h) >>= f) s := by
  refine Runs.first (fun _ _ hk hr => hk.rely hr) hk
    (fun _ _ hk => ⟨(hk.owns _).mpr hh, hm, hctx⟩) fun s _ _ hk _ hv => hf _ _ hv ?_
  obtain ⟨hc, ho⟩ := freeObj_frame h s
  exact hk.forget hc ho

/-- A context is freed; the call takes over what it borrows. -/
theorem Runs.takeContext {f : Option Nat → Part β} (hh : h ∈ held) (hctx : h.kind = .context)
    (hd : c.drop = none)
    (hnone : ∀ t, Valid t → Knows i c held ∅ t → Runs i post (f none) t)
    (hsome : ∀ m t, Valid t →
      Knows i ⟨modelHandle m :: c.refs, some (.context, m)⟩ held ∅ t →
      Runs i post (f (some m)) t) :
    Runs i post (step i (.takeContext h) >>= f) s := by
  refine Runs.first (fun _ _ hk hr => hk.rely hr) hk
    (fun _ _ hk => ⟨(hk.owns _).mpr hh, hctx, c, hk.claim, hd⟩) fun s _ _ hk _ hv => ?_
  show Runs i post (f (Handles.takeContext i h s).1) (Handles.takeContext i h s).2
  replace hv : Valid (Handles.takeContext i h s).2 := hv
  unfold Handles.takeContext at hv ⊢
  cases hw : s.wraps.lookup h with
  | none   =>
    simp only [hw] at hv ⊢
    exact hnone s hv (hk.mono (Set.empty_subset _))
  | some w =>
    cases hp : w.obj with
    | none   =>
      simp only [hw, hp] at hv ⊢
      exact hnone s hv (hk.mono (Set.empty_subset _))
    | some p =>
      cases hm : w.modelRes with
      | none   =>
        simp only [hw, hp, hm] at hv ⊢
        exact hnone s hv (hk.mono (Set.empty_subset _))
      | some m =>
        simp only [hw, hp, hm] at hv ⊢
        refine hsome m _ hv ⟨?_, hk.owns, fun x hx => hx.elim⟩
        rw [hk.refs]
        exact AList.lookup_insert _

/-- A borrowing is given up under the model's mutex. -/
theorem Runs.dropsModel {f : Unit → Part β} {k : Kind} {m : Nat} (hh : modelHandle m ∈ held)
    (hd : c.drop = some (k, m))
    (hf : ∀ t, Valid t → Knows i ⟨c.refs, none⟩ held ∅ t → Runs i post (f ()) t) :
    Runs i post (step i (.dropsModel k m) >>= f) s := by
  refine Runs.first (fun _ _ hk hr => hk.rely hr) hk
    (fun _ _ hk => ⟨(hk.owns _).mpr hh, c, hk.claim, hd⟩) fun s _ hvs hk _ hv => hf _ hv ?_
  obtain ⟨r, hr⟩ := present_model.mp (hvs.present_of_owner ((hk.owns _).mpr hh))
  obtain ⟨hc, ho⟩ := dropsModel_frame (i := i) (k := k) hr
  refine ⟨?_, fun x => ?_, fun x hx => hx.elim⟩
  · show (Handles.dropsModel i k m s).claims.lookup i = _
    rw [hc, hk.refs]
    exact AList.lookup_insert _
  · show (Handles.dropsModel i k m s).owner x = some i ↔ _
    rw [ho]
    exact hk.owns x

/-- It forgets a model. -/
theorem Runs.releaseKeep {f : Unit → Part β} {m : Nat} (hh : modelHandle m ∉ held)
    (hd : c.drop = none)
    (hf : ∀ t, Valid t → Knows i ⟨c.refs.filter (· ≠ modelHandle m), none⟩ held ∅ t →
      Runs i post (f ()) t) :
    Runs i post (step i (.releaseKeep m) >>= f) s := by
  refine Runs.first (fun _ _ hk hr => hk.rely hr) hk
    (fun _ _ hk => ⟨fun ho => hh ((hk.owns _).mp ho), c, hk.claim, hd⟩)
    fun s _ _ hk _ hv => hf _ hv ⟨?_, hk.owns, fun x hx => hx.elim⟩
  show (s.claims.insert i ⟨(s.refs i).filter (· ≠ modelHandle m), s.drop i⟩).lookup i = _
  rw [hk.refs, hk.drop, hd]
  exact AList.lookup_insert _

/-- It makes a sampler on a context it refers to. -/
theorem Runs.newSampler {f : Bool → Part β} {x : Nat} (hx : ⟨.context, x⟩ ∈ c.refs)
    (hf : ∀ b t, Valid t → Knows i c held ∅ t → Runs i post (f b) t) :
    Runs i post (step i (.newSampler x) >>= f) s := by
  refine Runs.first (fun _ _ hk hr => hk.rely hr) hk (fun s _ hk => ?_)
    fun s fails _ hk _ hv => hf _ _ hv ?_
  · show ⟨.context, x⟩ ∈ s.refs i
    rwa [hk.refs]
  · cases fails with
    | true  => exact hk.forget rfl rfl
    | false => exact hk.forget rfl rfl

/-- It loads a model. -/
theorem Runs.loadModel {f : Bool → Part β}
    (hf : ∀ b t, Valid t → Knows i c held ∅ t → Runs i post (f b) t) :
    Runs i post (step i .loadModel >>= f) s :=
  Runs.first (fun _ _ hk hr => hk.rely hr) hk (fun _ _ _ => trivial) fun s fails _ hk _ hv =>
    hf _ _ hv (by cases fails with
      | true  => exact hk.forget rfl rfl
      | false => exact hk.forget rfl rfl)

end Rules

end Erllama.Native.Handles
