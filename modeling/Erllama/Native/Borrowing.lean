import Erllama.Native.NifCalls
import Erllama.Lib.Run

namespace Erllama.Native.Handles

open Lib

/-!
# Native objects in every run

Any number of calls run at the same time, in any order of their steps, while Erlang forgets terms
and the garbage collector runs destructors.

* `Sound` — the memory is valid, and every running call walks on through valid memory.
* `sound_step`, `sound_run` — this is so in every run.
* `borrowed_run` — a model is not freed under a context or an adapter, and a release that was put
  off is not forgotten.
* `closed_run` — a model that was freed takes no new borrowers.
-/

/-- The memory is valid, every running call keeps it so, and no call has a number that is not
    yet given out. -/
structure Sound (s : Sys) : Prop where
  valid : Valid s.mem
  fresh : ∀ i, s.next ≤ i → s.calls i = none ∧ s.mem.claims.lookup i = none
  runs : ∀ i p, s.calls i = some p → Runs i (fun _ t => Ended i t) p s.mem

variable {s : Sys} {i : Tid} {h : Handle}

/-- An empty memory is sound. -/
theorem Sound.init : Sound Sys.init where
  valid := {
    modelPtr := by rintro m r p ⟨⟩
    wrapPtr := by rintro h w p ⟨⟩
    heapPtr := by rintro p h ⟨⟩
    freshPtr := by rintro p h ⟨⟩
    freshModel := by rintro m r ⟨⟩
    freshWrap := by rintro h w ⟨⟩
    kind := by rintro h w ⟨⟩
    counts := by rintro m r k ⟨⟩
    keeps := by rintro h w x ⟨⟩
    owed := by rintro i c k m ⟨⟩
    held := by rintro i c x ⟨⟩
    freed := by rintro m r ⟨⟩
    pending := by rintro m r ⟨⟩
    ctx := by rintro h w ⟨⟩
    sampler := by rintro h w ⟨⟩
    locks := by rintro h i ⟨⟩
    faults := by rintro f ⟨⟩
    terms := by rintro h ⟨⟩
    ctxRes := by rintro h w ⟨⟩ }
  fresh _ _ := ⟨rfl, rfl⟩
  runs := by rintro i p ⟨⟩

/-- The memory changes under the calls that keep running. -/
theorem Sound.outside (hs : Sound s) {t : Sys} (hv : Valid t.mem) (hn : t.next = s.next)
    (hc : ∀ j, t.calls j = s.calls j ∨ t.calls j = none)
    (hcl : ∀ j, s.next ≤ j → t.mem.claims.lookup j = none)
    (hr : ∀ j p, t.calls j = some p → Rely j s.mem t.mem) : Sound t where
  valid := hv
  fresh j hj := by
    rw [hn] at hj
    refine ⟨?_, hcl j hj⟩
    rcases hc j with heq | hnone
    · rw [heq, (hs.fresh j hj).1]
    · exact hnone
  runs j p hp := by
    have hrel := hr j p hp
    rcases hc j with heq | hnone
    · rw [heq] at hp
      exact (hs.runs j p hp).mono (fun _ _ _ => Rely.trans) hrel
    · rw [hnone] at hp
      cases hp

/-- What the others see of a call that starts. -/
theorem rely_setClaim {t : Mem} {c : Claim} (hnew : t.claims.lookup i = none)
    (href : ∀ x ∈ c.refs, t.termed x = true ∨ ∀ j, x ∉ t.refs j) {j : Tid} (hj : j ≠ i) :
    Rely j t (t.setClaim i c) where
  claim := AList.lookup_insert_ne hj
  owner _ := Iff.rfl
  model _ _ := rfl
  wrap _ _ _ := rfl
  alone x ha := by
    refine ⟨(AList.lookup_insert_ne hj).trans ha.claim, ha.termed, ha.owner, fun k hk => ?_,
      ha.kept⟩
    by_cases hki : k = i
    · subst hki
      intro hx
      have hx' : x ∈ c.refs := by
        simpa [Mem.refs, Mem.setClaim] using hx
      rcases href x hx' with hterm | hno
      · rw [ha.termed] at hterm
        cases hterm
      · exact hno j ha.mem_refs
    · have hsame : (t.setClaim i c).refs k = t.refs k := by
        simp [Mem.refs, Mem.setClaim, AList.lookup_insert_ne hki]
      rw [hsame]
      exact ha.refs k hk
  later := Mem.Later.of_eq rfl rfl

/-- A call starts. -/
theorem Sound.spawn (hs : Sound s) {refs : List Handle} {p : Call}
    (hpres : ∀ x ∈ refs, s.mem.Present x)
    (href : ∀ x ∈ refs, s.mem.termed x = true ∨ ∀ j, x ∉ s.mem.refs j)
    (hp : Valid (s.mem.setClaim s.next ⟨refs, none⟩) →
      Knows s.next ⟨refs, none⟩ ∅ ∅ (s.mem.setClaim s.next ⟨refs, none⟩) →
      Runs s.next (fun _ t => Ended s.next t) p (s.mem.setClaim s.next ⟨refs, none⟩)) :
    Sound (s.spawn refs p) := by
  have hnew := (hs.fresh s.next (Nat.le_refl _)).2
  have hlock : ∀ x, s.mem.owner x ≠ some s.next := by
    intro x hx
    obtain ⟨c, hc, -⟩ := mem_refs.mp (hs.valid.locks x _ hx)
    rw [hnew] at hc
    cases hc
  have hv : Valid (s.mem.setClaim s.next ⟨refs, none⟩) :=
    hs.valid.setClaim (by simp [Mem.drop, hnew]) hpres fun x hx => absurd hx (hlock x)
  have hk : Knows s.next ⟨refs, none⟩ ∅ ∅ (s.mem.setClaim s.next ⟨refs, none⟩) :=
    ⟨AList.lookup_insert _, fun x => ⟨fun hx => hlock x hx, fun hx => hx.elim⟩,
      fun x hx => hx.elim⟩
  refine ⟨hv, fun j hj => ?_, fun j q hq => ?_⟩
  · have hne : j ≠ s.next := Nat.ne_of_gt hj
    obtain ⟨hcall, hclaim⟩ := hs.fresh j (Nat.le_of_lt hj)
    refine ⟨?_, ?_⟩
    · show Function.update s.calls s.next (some p) j = none
      rw [Function.update_of_ne hne, hcall]
    · exact (AList.lookup_insert_ne hne).trans hclaim
  · replace hq : Function.update s.calls s.next (some p) j = some q := hq
    by_cases hj : j = s.next
    · subst hj
      rw [Function.update_self] at hq
      cases hq
      exact hp hv hk
    · rw [Function.update_of_ne hj] at hq
      exact (hs.runs j q hq).mono (fun _ _ _ => Rely.trans) (rely_setClaim hnew href hj)

/-- A call performs its next step. -/
theorem Sound.perform (hs : Sound s) {a : Tid × Act} {k : a.2.Answer → Call} {fails : Bool}
    (hp : s.calls i = some (.act a k)) (hfree : ∀ h, a.2 = .lock h → s.mem.owner h = none) :
    Sound { s with
      mem := (perform fails a.1 a.2 s.mem).2
      calls := Function.update s.calls i (some (k (Handles.perform fails a.1 a.2 s.mem).1)) } := by
  obtain ⟨hv, hrely, hnext⟩ := hs.runs i _ hp s.mem (Handles.perform fails a.1 a.2 s.mem).1
    (Handles.perform fails a.1 a.2 s.mem).2 (Rely.refl i s.mem) hs.valid ⟨hfree, fails, rfl⟩
  have hlt : i < s.next := by
    by_contra hge
    rw [(hs.fresh i (Nat.le_of_not_lt hge)).1] at hp
    cases hp
  refine ⟨hv, fun j hj => ?_, fun j q hq => ?_⟩
  · have hne : j ≠ i := by
      rintro rfl
      exact absurd hlt (Nat.not_lt.mpr hj)
    obtain ⟨hcall, hclaim⟩ := hs.fresh j hj
    exact ⟨(Function.update_of_ne hne _ _).trans hcall, (hrely j hne).claim.trans hclaim⟩
  · replace hq : Function.update s.calls i _ j = some q := hq
    by_cases hj : j = i
    · subst hj
      rw [Function.update_self] at hq
      cases hq
      exact hnext
    · rw [Function.update_of_ne hj] at hq
      exact (hs.runs j q hq).mono (fun _ _ _ => Rely.trans) (hrely j hj)

/-- The act that takes a mutex. -/
theorem lockOp_acquire {a : Tid × Act} (ha : a.2 = .lock h) : lockOp a = .acquire h := by
  obtain ⟨j, b⟩ := a
  have hb : b = .lock h := ha
  rw [hb]
  rfl

/-! ### Garbage -/

/-- What a wrapper keeps: its model, and its context. -/
theorem mem_kept {w : Wrap} : h ∈ w.kept ↔
    (∃ m, w.modelRes = some m ∧ h = modelHandle m) ∨
      ∃ c, w.ctxRes = some c ∧ h = ⟨.context, c⟩ := by
  simp [Wrap.kept, eq_comm]

/-- A wrapper is garbage iff nobody refers to it. -/
theorem garbage_iff {t : Mem} : t.garbage h = true ↔
    t.Present h ∧ t.termed h = false ∧ (∀ j, h ∉ t.refs j) ∧
      ∀ h' w, t.wraps.lookup h' = some w → h ∉ w.kept := by
  have hpres : t.present h = true ↔ t.Present h := by
    unfold Mem.present Mem.Present
    cases h.kind with
    | model   => exact Iff.rfl
    | context => exact Iff.rfl
    | adapter => exact Iff.rfl
    | mtmd    => exact Iff.rfl
    | sampler => exact Iff.rfl
  have hclaims : t.claims.values.all (fun c => !c.refs.contains h) = true ↔
      ∀ j, h ∉ t.refs j := by
    rw [List.all_eq_true]
    constructor
    · intro hall j hj
      obtain ⟨c, hc, hin⟩ := mem_refs.mp hj
      simpa [hin] using hall c (AList.mem_values_iff.mpr ⟨j, hc⟩)
    · intro hno c hc
      obtain ⟨j, hj⟩ := AList.mem_values_iff.mp hc
      have hnot : h ∉ c.refs := fun hin => hno j (mem_refs.mpr ⟨c, hj, hin⟩)
      simpa using hnot
  have hwraps : t.wraps.values.all (fun w => !w.kept.contains h) = true ↔
      ∀ h' w, t.wraps.lookup h' = some w → h ∉ w.kept := by
    rw [List.all_eq_true]
    constructor
    · intro hall h' w hw hin
      simpa [hin] using hall w (AList.mem_values_iff.mpr ⟨h', hw⟩)
    · intro hno w hw
      obtain ⟨h', hh'⟩ := AList.mem_values_iff.mp hw
      simpa using hno h' w hh'
  unfold Mem.garbage
  rw [Bool.and_eq_true, Bool.and_eq_true, Bool.and_eq_true, hpres, hclaims, hwraps,
    Bool.not_eq_true', and_assoc, and_assoc]

/-- The destructor of a wrapper that nothing refers to can reach it alone. -/
theorem Alone.of_garbage {t : Mem} (hv : Valid t) (hg : t.garbage h = true) :
    Alone (t.setClaim i ⟨[h], none⟩) i h := by
  obtain ⟨-, hterm, href, hkept⟩ := garbage_iff.mp hg
  refine ⟨AList.lookup_insert _, hterm, ?_, fun j hj => ?_, hkept⟩
  · show t.owner h = none
    by_contra hne
    obtain ⟨j, hj⟩ := Option.ne_none_iff_exists'.mp hne
    exact href j (hv.locks h j hj)
  · have hsame : (t.setClaim i ⟨[h], none⟩).refs j = t.refs j := by
      simp [Mem.refs, Mem.setClaim, AList.lookup_insert_ne hj]
    rw [hsame]
    exact href j

/-! ### Runs -/

/-- A call that has ended returns. -/
theorem Sound.ret (hs : Sound s) {r : Reply} (hp : s.calls i = some (.ret r)) :
    Sound { s with
      mem := { s.mem with claims := s.mem.claims.erase i }
      calls := Function.update s.calls i none } := by
  obtain ⟨hd, ho⟩ : Ended i s.mem := hs.runs i _ hp s.mem (Rely.refl i s.mem) hs.valid
  refine hs.outside (hs.valid.eraseClaim hd ho) rfl (fun j => ?_) (fun j hj => ?_)
    fun j p hj => ?_
  · show Function.update s.calls i none j = s.calls j ∨ Function.update s.calls i none j = none
    by_cases hji : j = i
    · rw [hji, Function.update_self]
      exact .inr rfl
    · rw [Function.update_of_ne hji]
      exact .inl rfl
  · show (s.mem.claims.erase i).lookup j = none
    rw [AList.lookup_erase_ite, (hs.fresh j hj).2, ite_self]
  · have hji : j ≠ i := by
      rintro rfl
      replace hj : Function.update s.calls j none j = some p := hj
      rw [Function.update_self] at hj
      cases hj
    refine ⟨AList.lookup_erase_ne hji, fun _ => Iff.rfl, fun _ _ => rfl, fun _ _ _ => rfl,
      fun x ha => ?_, Mem.Later.of_eq rfl rfl⟩
    refine ⟨(AList.lookup_erase_ne hji).trans ha.claim, ha.termed, ha.owner, fun k hk hx => ?_,
      ha.kept⟩
    obtain ⟨c, hc, hin⟩ := mem_refs.mp hx
    simp only [AList.lookup_erase_ite] at hc
    by_cases hki : k = i
    · rw [if_pos hki] at hc
      cases hc
    · rw [if_neg hki] at hc
      exact ha.refs k hk (mem_refs.mpr ⟨c, hc, hin⟩)

/-- Erlang forgets the terms of a wrapper. -/
theorem Sound.forget (hs : Sound s) (h : Handle) :
    Sound { s with mem := { s.mem with termed := Function.update s.mem.termed h false } } := by
  have hless : ∀ x, Function.update s.mem.termed h false x = true → s.mem.termed x = true := by
    intro x hx
    by_cases hxh : x = h
    · rw [hxh, Function.update_self] at hx
      cases hx
    · rwa [Function.update_of_ne hxh] at hx
  refine hs.outside { hs.valid with terms := fun x hx => hs.valid.terms x (hless x hx) } rfl
    (fun _ => .inl rfl) (fun j hj => (hs.fresh j hj).2) fun j p _ => ?_
  refine ⟨rfl, fun _ => Iff.rfl, fun _ _ => rfl, fun _ _ _ => rfl, fun x ha => ?_,
    Mem.Later.of_eq rfl rfl⟩
  refine ⟨ha.claim, ?_, ha.owner, ha.refs, ha.kept⟩
  rw [Bool.eq_false_iff]
  intro hx
  have hterm := hless x hx
  rw [ha.termed] at hterm
  cases hterm

/-- A call waits or has ended, or it performs its next step. -/
theorem act_cases (s : Sys) (i : Tid) (fails : Bool) : s.act i fails = s ∨
    ∃ (a : Tid × Act) (k : a.2.Answer → Call), s.calls i = some (.act a k) ∧
      (∀ h, a.2 = .lock h → s.mem.owner h = none) ∧
      s.act i fails = { s with
        mem := (perform fails a.1 a.2 s.mem).2
        calls := Function.update s.calls i (some (k (perform fails a.1 a.2 s.mem).1)) } := by
  unfold Sys.act
  cases hp : s.calls i with
  | none => exact .inl rfl
  | some p =>
    cases p with
    | ret r => exact .inl rfl
    | act a k =>
      cases hop : lockOp a with
      | acquire x =>
        by_cases hfree : s.mem.owner x = none
        · refine .inr ⟨a, k, rfl, fun y hy => ?_, ?_⟩
          · rw [lockOp_acquire hy] at hop
            cases hop
            exact hfree
          · simp only [hop, if_pos hfree]
        · left
          simp only [hop, if_neg hfree]
      | release x =>
        refine .inr ⟨a, k, rfl, fun y hy => ?_, by simp only [hop]⟩
        rw [lockOp_acquire hy] at hop
        cases hop
      | other =>
        refine .inr ⟨a, k, rfl, fun y hy => ?_, by simp only [hop]⟩
        rw [lockOp_acquire hy] at hop
        cases hop

/-- **Every step** of the system keeps it sound. -/
theorem sound_step (s : Sys) (e : Event) (hs : Sound s) : Sound (sysStep s e) := by
  cases e with
  | call c =>
    by_cases hc : c.args.all s.mem.termed = true
    · simp only [sysStep, hc, if_true]
      have hterm : ∀ x ∈ c.args, s.mem.termed x = true := List.all_eq_true.mp hc
      exact hs.spawn (fun x hx => hs.valid.terms x (hterm x hx)) (fun x hx => .inl (hterm x hx))
        fun hv hk => c.runs hv hk
    · simp only [sysStep, hc]
      exact hs
  | act i fails =>
    show Sound (s.act i fails)
    rcases act_cases s i fails with heq | ⟨a, k, hp, hfree, heq⟩
    · rwa [heq]
    · rw [heq]
      exact hs.perform hp hfree
  | ret i =>
    simp only [sysStep]
    cases hp : s.calls i with
    | none => exact hs
    | some p =>
      cases p with
      | ret r => exact hs.ret hp
      | act a k => exact hs
  | forget h => exact hs.forget h
  | gc h =>
    by_cases hg : s.mem.garbage h = true
    · simp only [sysStep, hg, if_true]
      obtain ⟨hpres, -, href, -⟩ := garbage_iff.mp hg
      refine hs.spawn (by simpa using hpres) (by simpa using .inr href) fun hv _ => ?_
      have ha := Alone.of_garbage (i := s.next) hs.valid hg
      unfold destructor
      by_cases hk : h.kind = .model
      · rw [← modelHandle_addr hk] at ha ⊢
        exact runs_destroyModel ha
      · cases hcase : h.kind with
        | model => exact absurd hcase hk
        | context => exact runs_destroy ha hk
        | adapter => exact runs_destroy ha hk
        | mtmd => exact runs_destroy ha hk
        | sampler => exact runs_destroy ha hk
    · simp only [sysStep, hg]
      exact hs

/-- **Every run** stays sound. -/
theorem sound_run (es : List Event) : Sound (run sysStep Sys.init es) :=
  AllSteps.invariant (P := fun _ _ => True) (fun s e hs _ => sound_step s e hs) Sound.init
    (AllSteps.of_forall (fun _ _ => trivial) _ es)

/-! ### What holds in every run -/

/-- Something borrows the model: a wrapper, or a call that has yet to give it up. -/
def Mem.Borrowed (s : Mem) (k : Kind) (m : Nat) : Prop :=
  (∃ h w, s.wraps.lookup h = some w ∧ w.kind = k ∧ w.modelRes = some m) ∨
    ∃ i c, s.claims.lookup i = some c ∧ c.drop = some (k, m)

/-- A model's count is positive when something of the kind borrows it. -/
theorem Valid.active_iff {t : Mem} (hv : Valid t) {m : Nat} {r : ModelRes} {k : Kind}
    (hr : t.models.lookup m = some r) (hk : k.Borrows) : 0 < r.active k ↔ t.Borrowed k m := by
  rw [hv.counts m r k hr hk]
  constructor
  · intro hpos
    by_cases hw : 0 < t.wraps.countValues (Wrap.borrows k m)
    · obtain ⟨w, hw, hb⟩ := List.countP_pos_iff.mp hw
      obtain ⟨h, hh⟩ := AList.mem_values_iff.mp hw
      simp only [Wrap.borrows, decide_eq_true_eq] at hb
      exact .inl ⟨h, w, hh, hb⟩
    · have hc : 0 < t.claims.countValues (Claim.owes k m) := by omega
      obtain ⟨c, hc, ho⟩ := List.countP_pos_iff.mp hc
      obtain ⟨i, hi⟩ := AList.mem_values_iff.mp hc
      exact .inr ⟨i, c, hi, by simpa [Claim.owes] using ho⟩
  · rintro (⟨h, w, hw, hkind, hm⟩ | ⟨i, c, hc, hd⟩)
    · have hpos : 0 < t.wraps.countValues (Wrap.borrows k m) :=
        countValues_pos hw (by simp [Wrap.borrows, hkind, hm])
      omega
    · have hpos : 0 < t.claims.countValues (Claim.owes k m) :=
        countValues_pos hc (by simp [Claim.owes, hd])
      omega

/-- **In every run** a model is freed only when no context and no adapter borrows it, and a
    release that was put off waits for a borrower that is still there. -/
theorem borrowed_run (es : List Event) {m : Nat} {r : ModelRes}
    (hr : (run sysStep Sys.init es).mem.models.lookup m = some r) :
    (r.model = none → ¬ (run sysStep Sys.init es).mem.Borrowed .context m ∧
      ¬ (run sysStep Sys.init es).mem.Borrowed .adapter m) ∧
    (r.releasePending = true → r.model.isSome ∧
      ∃ k, k.Borrows ∧ (run sysStep Sys.init es).mem.Borrowed k m) := by
  have hv := (sound_run es).valid
  refine ⟨fun hnone => ?_, fun hpend => ⟨?_, ?_⟩⟩
  · obtain ⟨hc, ha, -, -⟩ := hv.freed m r hr hnone
    have hctx := hv.active_iff (k := .context) hr trivial
    have hada := hv.active_iff (k := .adapter) hr trivial
    rw [← hctx, ← hada]
    simp [ModelRes.active, hc, ha]
  · rw [Option.isSome_iff_ne_none]
    intro hnone
    rw [(hv.freed m r hr hnone).2.2.1] at hpend
    cases hpend
  · have hun := hv.pending m r hr hpend
    by_contra hno
    have hzero : ∀ k, k.Borrows → r.active k = 0 := by
      intro k hk
      by_contra hpos
      exact hno ⟨k, hk, (hv.active_iff hr hk).mp (Nat.pos_of_ne_zero hpos)⟩
    have htrue : r.unreferenced = true :=
      r.unreferenced_iff.mpr ⟨hzero .context trivial, hzero .adapter trivial, hzero .mtmd trivial⟩
    rw [htrue] at hun
    cases hun

/-- A model is loaded, a context is made, and the model is to be freed. -/
def deferredRelease : List Event :=
  [.call .loadModel, .act 0 false, .ret 0,
    .call (.newContext 0), .act 1 false, .act 1 false, .act 1 false, .act 1 false, .ret 1,
    .call (.freeModel 0), .act 2 false, .act 2 false, .act 2 false, .ret 2]

/-- A release that is deferred while a context borrows the model. -/
theorem borrowed_run_deferred :
    ∃ k, k.Borrows ∧ (run sysStep Sys.init deferredRelease).mem.Borrowed k 0 :=
  ((borrowed_run deferredRelease (m := 0) (r := ⟨some 0, 1, 0, 0, true⟩) (by decide)).2 rfl).2

/-- The models that there were, after one step of the system. -/
theorem later_step (hs : Sound s) (e : Event) : s.mem.Later (sysStep s e).mem := by
  cases e with
  | call c =>
    by_cases hc : c.args.all s.mem.termed = true
    · simp only [sysStep, hc, if_true]
      exact Mem.Later.of_eq rfl rfl
    · simp only [sysStep, hc]
      exact Mem.Later.refl _
  | act i fails =>
    show s.mem.Later (s.act i fails).mem
    rcases act_cases s i fails with heq | ⟨a, k, hp, hfree, heq⟩
    · rw [heq]
      exact Mem.Later.refl _
    · rw [heq]
      obtain ⟨-, hrely, -⟩ := hs.runs i _ hp s.mem _ _ (Rely.refl i s.mem) hs.valid
        ⟨hfree, fails, rfl⟩
      exact (hrely (i + 1) (Nat.succ_ne_self i)).later
  | ret i =>
    simp only [sysStep]
    cases hp : s.calls i with
    | none => exact Mem.Later.refl _
    | some p =>
      cases p with
      | ret r => exact Mem.Later.of_eq rfl rfl
      | act a k => exact Mem.Later.refl _
  | forget h => exact Mem.Later.of_eq rfl rfl
  | gc h =>
    by_cases hg : s.mem.garbage h = true
    · simp only [sysStep, hg, if_true]
      exact Mem.Later.of_eq rfl rfl
    · simp only [sysStep, hg]
      exact Mem.Later.refl _

/-- **In every run** a model that was freed, or will be when its last borrower lets go, stays so
    and gets no new borrower. -/
theorem closed_run (es fs : List Event) {m : Nat} {r r' : ModelRes}
    (hr : (run sysStep Sys.init es).mem.models.lookup m = some r) (hc : r.Closed)
    (hr' : (run sysStep Sys.init (es ++ fs)).mem.models.lookup m = some r') :
    r'.Closed ∧ ∀ k, r'.active k ≤ r.active k := by
  have hlater : (run sysStep Sys.init es).mem.Later (run sysStep Sys.init (es ++ fs)).mem := by
    rw [run_append]
    have hs := sound_run es
    generalize run sysStep Sys.init es = s₀ at hs ⊢
    have hinv : Sound (run sysStep s₀ fs) ∧ s₀.mem.Later (run sysStep s₀ fs).mem :=
      AllSteps.invariant (P := fun _ _ => True) (I := fun t => Sound t ∧ s₀.mem.Later t.mem)
        (fun t e ht _ => ⟨sound_step t e ht.1, ht.2.trans (later_step ht.1 e)⟩)
        ⟨hs, Mem.Later.refl _⟩ (AllSteps.of_forall (fun _ _ => trivial) _ fs)
    exact hinv.2
  obtain ⟨r₀, hr₀, hl⟩ := hlater.2 m r' hr' ((sound_run es).valid.freshModel m r hr)
  rw [hr] at hr₀
  cases hr₀
  exact hl hc

/-- The context is freed: the model is freed with it. -/
theorem closed_run_deferred :
    (⟨none, 0, 0, 0, false⟩ : ModelRes).Closed ∧
      ∀ k, (⟨none, 0, 0, 0, false⟩ : ModelRes).active k ≤
        (⟨some 0, 1, 0, 0, true⟩ : ModelRes).active k :=
  closed_run deferredRelease
    [.call (.freeContext 1), .act 3 false, .act 3 false, .act 3 false, .act 3 false,
      .act 3 false, .act 3 false, .act 3 false, .act 3 false, .ret 3]
    (m := 0) (by decide) (.inr rfl) (by decide)

end Erllama.Native.Handles
