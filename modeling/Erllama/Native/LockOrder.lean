import Erllama.Native.Borrowing
import Mathlib.Data.Prod.Lex

namespace Erllama.Native.Handles

open Lib

/-!
# The order of the mutexes

Adapters before contexts, contexts before samplers and projectors, these before models; adapters
among themselves in the order of their addresses.

* `rank` — the order.
* `NifCall.locks` — every call takes its mutexes in this order and ends with none.
* `disciplined_run` — so does every run.
* `no_deadlock` — while calls are running, one of them is not waiting for a mutex.
-/

/-- The place of a kind in the order. -/
def Kind.rank : Kind → Nat
  | .adapter => 0
  | .context => 1
  | .sampler => 2
  | .mtmd    => 2
  | .model   => 3

/-- The place of a mutex in the order. -/
def rank (h : Handle) : ℕ ×ₗ ℕ := toLex (h.kind.rank, h.addr)

/-- The program takes its mutexes in the order, from the ones that it has on, and ends with
    `post`. -/
abbrev Orderly {β : Type} (post : β → Set Handle) (held : Set Handle) (p : Part β) : Prop :=
  p.Locks rank lockOp post held

variable {i : Tid} {h x : Handle} {m : Nat} {β : Type}

/-- Wrappers of different kinds are ranked by their kinds. -/
theorem rank_lt_of_kind (hlt : h.kind.rank < x.kind.rank) : rank h < rank x :=
  Prod.Lex.toLex_lt_toLex.mpr (.inl hlt)

/-! ### Calls -/

/-- The only mutex is given back at the end. -/
theorem locks_unlock_ret {r : Reply} :
    Orderly (fun _ => ∅) (insert h ∅) (step i (.unlock h) >>= fun _ => pure r) := by
  refine ⟨Set.mem_insert _ _, fun _ => ?_⟩
  show insert h ∅ \ {h} = (∅ : Set Handle)
  simp

/-- Dropping a claim takes the model's mutex alone. -/
theorem locks_dropModel {k : Kind} : Orderly (fun _ => ∅) ∅ (dropModel i k m) := by
  refine ⟨by simp, fun _ _ => ⟨Set.mem_insert _ _, fun _ _ => ?_⟩⟩
  show insert (modelHandle m) ∅ \ {modelHandle m} = (∅ : Set Handle)
  simp

/-- The same at the end of a call. -/
theorem locks_dropModel_ret {k : Kind} {r : Reply} :
    Orderly (fun _ => ∅) ∅ (dropModel i k m >>= fun _ => pure r) :=
  locks_dropModel.bind fun _ => rfl

/-- Making an object that borrows a model takes the model's mutex, twice one after the other. -/
theorem locks_nifAttach {k : Kind} : Orderly (fun _ => ∅) ∅ (nifAttach i k m) := by
  refine ⟨by simp, fun _ b => ?_⟩
  cases b with
  | false => exact locks_unlock_ret
  | true  => exact fun _ => locks_unlock_ret

/-- A call on a model takes its mutex. -/
theorem locks_nifOnModel {orPending : Bool} :
    Orderly (fun _ => ∅) ∅ (nifOnModel i m orPending) := by
  refine ⟨by simp, fun _ b => ?_⟩
  cases b with
  | false => exact locks_unlock_ret
  | true  => exact fun _ => locks_unlock_ret

/-- Freeing a context takes its mutex, gives it back, and then takes the model's. -/
theorem locks_nifFreeContext : Orderly (fun _ => ∅) ∅ (nifFreeContext i h) := by
  refine ⟨by simp, fun _ b => ?_⟩
  cases b with
  | false => exact locks_unlock_ret
  | true  =>
    refine fun m => ⟨Set.mem_insert _ _, fun _ => ?_⟩
    have hnone : insert h ∅ \ {h} = (∅ : Set Handle) := by simp
    rw [hnone]
    cases m with
    | none   => rfl
    | some m => exact locks_dropModel_ret

/-- Freeing another object takes its own mutex. -/
theorem locks_nifFree : Orderly (fun _ => ∅) ∅ (nifFree i h) :=
  ⟨by simp, fun _ _ => locks_unlock_ret⟩

/-- Chat templates take the model's mutex. -/
theorem locks_nifChatTemplatesInit : Orderly (fun _ => ∅) ∅ (nifChatTemplatesInit i m) := by
  intro b
  cases b with
  | false => rfl
  | true  => exact fun _ => rfl

/-- A call on a context takes its mutex. -/
theorem locks_nifOnContext {decodes : Bool} :
    Orderly (fun _ => ∅) ∅ (nifOnContext i h decodes) := by
  refine ⟨by simp, fun _ b => ?_⟩
  cases b with
  | false => exact locks_unlock_ret
  | true  => exact fun _ => locks_unlock_ret

/-- Asking a multimodal context takes its mutex. -/
theorem locks_nifMtmdCaps : Orderly (fun _ => ∅) ∅ (nifMtmdCaps i h) := by
  refine ⟨by simp, fun _ b => ?_⟩
  cases b with
  | false => exact locks_unlock_ret
  | true  => exact fun _ => locks_unlock_ret

/-- Giving back the higher of two mutexes leaves the lower one. -/
theorem insert_diff_of_rank (hlt : rank h < rank x) :
    insert x (insert h ∅) \ {x} = (insert h ∅ : Set Handle) := by
  rw [Set.insert_sdiff_self_of_notMem]
  rintro (rfl | hx)
  · exact lt_irrefl _ hlt
  · exact hx

/-- A call on two wrappers takes the lower one first. -/
theorem locks_nifOnBoth (hlt : rank h < rank x) : Orderly (fun _ => ∅) ∅ (nifOnBoth i h x) := by
  refine ⟨by simp, fun _ b => ?_⟩
  cases b with
  | false => exact locks_unlock_ret
  | true  =>
    refine ⟨by simpa using hlt, fun _ b => ?_⟩
    cases b with
    | false =>
      refine ⟨Set.mem_insert _ _, fun _ => ?_⟩
      rw [insert_diff_of_rank hlt]
      exact locks_unlock_ret
    | true  =>
      refine fun _ _ => ⟨Set.mem_insert _ _, fun _ _ => ?_⟩
      rw [insert_diff_of_rank hlt]
      exact locks_unlock_ret

/-- Making a sampler takes the model's mutex. -/
theorem locks_nifSamplerNew : Orderly (fun _ => ∅) ∅ (nifSamplerNew i m) := by
  refine ⟨by simp, fun _ b => ?_⟩
  cases b with
  | false => exact locks_unlock_ret
  | true  =>
    refine fun _ => ⟨Set.mem_insert _ _, fun _ _ => ?_⟩
    show insert _ ∅ \ {_} = (∅ : Set Handle)
    simp

/-- The sampling loop holds one sampler's mutex at a time, above the context's. -/
theorem locks_sampleRows {ss : List Handle} (hss : ∀ x ∈ ss, rank h < rank x) :
    Orderly (fun _ => insert h ∅) (insert h ∅) (sampleRows i h ss) := by
  induction ss with
  | nil => rfl
  | cons x ss ih =>
    have hlt := hss x List.mem_cons_self
    have hrow : Orderly (fun _ => insert h ∅) (insert h ∅) (sampleRow i h x) := by
      refine ⟨by simpa using hlt, fun _ b => ?_⟩
      cases b with
      | false => exact ⟨Set.mem_insert _ _, fun _ => insert_diff_of_rank hlt⟩
      | true  => exact fun _ => ⟨Set.mem_insert _ _, fun _ => insert_diff_of_rank hlt⟩
    refine hrow.bind fun b => ?_
    cases b with
    | false => rfl
    | true  => exact ih fun y hy => hss y (List.mem_cons_of_mem x hy)

/-- A step takes the context's mutex first. -/
theorem locks_nifStep {ss : List Handle} (hss : ∀ x ∈ ss, rank h < rank x) :
    Orderly (fun _ => ∅) ∅ (nifStep i h ss) := by
  refine ⟨by simp, fun _ b => ?_⟩
  cases b with
  | false => exact locks_unlock_ret
  | true  =>
    refine (locks_sampleRows hss).bind fun b => ?_
    cases b with
    | false => exact locks_unlock_ret
    | true  => exact fun _ => locks_unlock_ret

/-- The adapters are locked in the order of their addresses. -/
theorem lockOrder_sorted (adapters : List Nat) : (lockOrder adapters).Pairwise (· < ·) := by
  have hle : (lockOrder adapters).Pairwise (· ≤ ·) := by
    refine List.Pairwise.sublist (List.dedup_sublist _) ?_
    have hsorted : (adapters.mergeSort fun a b => decide (a ≤ b)).Pairwise
        fun a b => decide (a ≤ b) = true :=
      List.pairwise_mergeSort (by simpa using fun a b c => Nat.le_trans)
        (by simpa using Nat.le_total) adapters
    simpa using hsorted
  exact (hle.and (lockOrder_nodup adapters)).imp fun ⟨hab, hne⟩ => Nat.lt_of_le_of_ne hab hne

/-- Giving one adapter's mutex back leaves the others. -/
theorem adapterHandles_cons_diff {a : Nat} {as : List Nat} (ha : a ∉ as) :
    adapterHandles (a :: as) \ {⟨.adapter, a⟩} = adapterHandles as := by
  ext x
  simp only [adapterHandles, List.map_cons, List.mem_cons, Set.mem_sdiff, Set.mem_singleton_iff]
  constructor
  · rintro ⟨rfl | hx, hne⟩
    · exact absurd rfl hne
    · exact hx
  · intro hx
    refine ⟨.inr hx, ?_⟩
    rintro rfl
    obtain ⟨b, hb, heq⟩ := List.mem_map.mp hx
    cases heq
    exact ha hb

/-- No adapter, no mutex. -/
theorem adapterHandles_nil : adapterHandles [] = ∅ := by simp [adapterHandles]

/-- Giving back all of the adapters' mutexes leaves none. -/
theorem locks_unlockAll {as : List Nat} (hnd : as.Nodup) :
    Orderly (fun _ => ∅) (adapterHandles as) (unlockAll i as) := by
  induction as with
  | nil => exact adapterHandles_nil
  | cons a as ih =>
    obtain ⟨ha, hnd⟩ := List.nodup_cons.mp hnd
    refine ⟨by simp [adapterHandles], fun _ => ?_⟩
    rw [adapterHandles_cons_diff ha]
    exact ih hnd

/-- The adapters' mutexes are taken in the order of their addresses, all of them or none. -/
theorem locks_lockAdapters {done as : List Nat} (hsort : (done ++ as).Pairwise (· < ·)) :
    Orderly (fun b => if b = true then adapterHandles (done ++ as) else ∅) (adapterHandles done)
      (lockAdapters i done as) := by
  induction as generalizing done with
  | nil =>
    show adapterHandles done = if true = true then adapterHandles (done ++ []) else ∅
    rw [if_pos rfl, List.append_nil]
  | cons a as ih =>
    have hsplit : done ++ a :: as = (done ++ [a]) ++ as := by simp
    have hlt : ∀ b ∈ done, b < a := fun b hb =>
      (List.pairwise_append.mp hsort).2.2 b hb a List.mem_cons_self
    refine ⟨fun x hx => ?_, fun _ b => ?_⟩
    · obtain ⟨b, hb, rfl⟩ := List.mem_map.mp hx
      exact Prod.Lex.toLex_lt_toLex.mpr (.inr ⟨rfl, hlt b hb⟩)
    · rw [insert_adapterHandles]
      rw [hsplit] at hsort ⊢
      cases b with
      | true  => exact ih hsort
      | false =>
        have hnd : (done ++ [a]).Nodup :=
          ((List.pairwise_append.mp hsort).1).imp fun h => Nat.ne_of_lt h
        exact (locks_unlockAll hnd).bind fun _ => rfl

/-- Setting adapters takes the context's mutex and then theirs. -/
theorem locks_nifSetAdapters {adapters : List (Nat × ℚ)} (hctx : h.kind = .context) :
    Orderly (fun _ => ∅) ∅ (nifSetAdapters i h adapters) := by
  have hsort := lockOrder_sorted (adapters.map Prod.fst)
  have hnd := lockOrder_nodup (adapters.map Prod.fst)
  unfold nifSetAdapters
  generalize lockOrder (adapters.map Prod.fst) = order at hsort hnd ⊢
  have hnot : h ∉ adapterHandles order := by
    intro hin
    obtain ⟨a, -, heq⟩ := List.mem_map.mp hin
    rw [← heq] at hctx
    cases hctx
  have hdiff : insert h (adapterHandles order) \ {h} = adapterHandles order :=
    Set.insert_sdiff_self_of_notMem hnot
  have hlock : Orderly (fun b => if b = true then adapterHandles order else ∅) ∅
      (lockAdapters i [] order) :=
    adapterHandles_nil ▸ @locks_lockAdapters i [] _ hsort
  refine hlock.bind fun b => ?_
  cases b with
  | false => rfl
  | true  =>
    show Orderly _ (if true = true then adapterHandles order else ∅) _
    rw [if_pos rfl]
    refine ⟨fun x hx => ?_, fun _ b => ?_⟩
    · obtain ⟨a, -, rfl⟩ := List.mem_map.mp hx
      exact rank_lt_of_kind (by simp [hctx, Kind.rank])
    · cases b with
      | false =>
        refine ⟨Set.mem_insert _ _, fun _ => ?_⟩
        rw [hdiff]
        exact (locks_unlockAll hnd).bind fun _ => rfl
      | true  =>
        refine fun _ => ⟨Set.mem_insert _ _, fun _ => ?_⟩
        rw [hdiff]
        exact (locks_unlockAll hnd).bind fun _ => rfl

/-- **Every call** takes its mutexes in the order, and ends with none. -/
theorem NifCall.locks (call : NifCall) : Orderly (fun _ => ∅) ∅ (call.program i) := by
  cases call with
  | loadModel => exact fun _ => rfl
  | freeModel m => exact ⟨by simp, fun _ _ => locks_unlock_ret⟩
  | newContext m => exact locks_nifAttach
  | adapterLoad m => exact locks_nifAttach
  | mtmdInit m => exact locks_nifAttach
  | onModel m orPending => exact locks_nifOnModel
  | chatTemplatesInit m => exact locks_nifChatTemplatesInit
  | freeContext c => exact locks_nifFreeContext
  | adapterFree a => exact locks_nifFree
  | mtmdFree x => exact locks_nifFree
  | samplerFree x => exact locks_nifFree
  | onContext c decodes => exact locks_nifOnContext
  | mtmdCaps x => exact locks_nifMtmdCaps
  | step c samplers =>
    refine locks_nifStep fun x hx => ?_
    obtain ⟨a, -, rfl⟩ := List.mem_map.mp hx
    exact rank_lt_of_kind (by simp [Kind.rank])
  | specStep c x => exact locks_nifOnBoth (rank_lt_of_kind (by simp [Kind.rank]))
  | mediaPrefill c x => exact locks_nifOnBoth (rank_lt_of_kind (by simp [Kind.rank]))
  | samplerNew c => exact locks_nifSamplerNew
  | setAdapters c adapters => exact locks_nifSetAdapters rfl

/-- A destructor takes at most the mutex of the model it drops. -/
theorem locks_destructor (h : Handle) : Orderly (fun _ => ∅) ∅ (destructor i h) := by
  have hdestroy : Orderly (fun _ => ∅) ∅ (destroy i h) := by
    intro r
    cases r with
    | none   => rfl
    | some r => exact locks_dropModel_ret
  unfold destructor
  cases h.kind with
  | model   => exact fun _ => rfl
  | context => exact hdestroy
  | adapter => exact hdestroy
  | mtmd    => exact hdestroy
  | sampler => exact hdestroy

/-! ### Runs -/

/-- A finalizer takes no mutex. -/
theorem finalize_owner (i : Tid) (h : Handle) (t : Mem) : (finalize i h t).2.owner = t.owner := by
  unfold finalize
  cases t.wraps.lookup h with
  | none   => rfl
  | some w =>
    cases hp : w.obj with
    | none =>
      cases hm : w.modelRes with
      | none   => simp only [hp, hm]; rfl
      | some m => simp only [hp, hm]; rfl
    | some p =>
      cases hm : w.modelRes with
      | none   => simp only [hp, hm]; rfl
      | some m => simp only [hp, hm]; rfl

/-- Nor does taking a context out of its wrapper. -/
theorem takeContext_owner (i : Tid) (h : Handle) (t : Mem) :
    (takeContext i h t).2.owner = t.owner := by
  unfold takeContext
  cases t.wraps.lookup h with
  | none   => rfl
  | some w =>
    cases hp : w.obj with
    | none => simp only [hp]
    | some p =>
      cases hm : w.modelRes with
      | none   => simp only [hp, hm]
      | some m => simp only [hp, hm]; rfl

/-- A step that neither takes nor gives back a mutex leaves the owners. -/
theorem perform_owner {a : Tid × Act} (ha : lockOp a = .other) (fails : Bool) (t : Mem) :
    (perform fails a.1 a.2 t).2.owner = t.owner := by
  obtain ⟨i, a⟩ := a
  cases a with
  | lock h => cases ha
  | unlock h => cases ha
  | loadModel => cases fails <;> rfl
  | modelLive m orPending => rfl
  | objLive h => rfl
  | use hs => rfl
  | useContext c decodes => rfl
  | install c adapters => rfl
  | useOwn h => rfl
  | useUnlocked m => rfl
  | attach k m =>
    show (attach fails k m t).2.owner = t.owner
    cases fails with
    | true  => rfl
    | false =>
      cases hr : t.models.lookup m with
      | none   =>
        have hr' : (t.fault (t.touch (modelHandle m))).models.lookup m = none := hr
        simp only [attach, hr']
        rfl
      | some r =>
        rw [attach_of_lookup hr]
        rfl
  | freeModel m => exact (freeModel_frame m t).2
  | freeObj h => exact (freeObj_frame h t).2
  | takeContext c => exact takeContext_owner i c t
  | dropsModel k m =>
    cases hr : t.models.lookup m with
    | none   =>
      show (dropsModel i k m t).owner = t.owner
      simp only [dropsModel, hr]
    | some r => exact (dropsModel_frame hr).2
  | releaseKeep m => rfl
  | newSampler c => cases fails <;> rfl
  | finalize h => exact finalize_owner i h t
  | finalizeModel m =>
    show (finalizeModel i m t).owner = t.owner
    unfold finalizeModel
    cases t.modelPtr m <;> rfl

/-- A step does to the mutexes what `lockOp` says. -/
theorem moves_perform {a : Tid × Act} {fails : Bool} {t : Mem}
    (hfree : ∀ h, a.2 = .lock h → t.owner h = none)
    (hown : ∀ h, a.2 = .unlock h → t.owner h = some a.1) :
    Owners.Moves a.1 t.owner (perform fails a.1 a.2 t).2.owner (lockOp a) := by
  obtain ⟨i, a⟩ := a
  cases a with
  | lock h => exact ⟨hfree h rfl, rfl⟩
  | unlock h => exact ⟨hown h rfl, rfl⟩
  | loadModel => exact perform_owner (a := (i, .loadModel)) rfl fails t
  | modelLive m orPending => rfl
  | objLive h => rfl
  | use hs => rfl
  | useContext c decodes => rfl
  | install c adapters => rfl
  | useOwn h => rfl
  | useUnlocked m => rfl
  | attach k m => exact perform_owner (a := (i, .attach k m)) rfl fails t
  | freeModel m => exact perform_owner (a := (i, .freeModel m)) rfl fails t
  | freeObj h => exact perform_owner (a := (i, .freeObj h)) rfl fails t
  | takeContext c => exact perform_owner (a := (i, .takeContext c)) rfl fails t
  | dropsModel k m => exact perform_owner (a := (i, .dropsModel k m)) rfl fails t
  | releaseKeep m => rfl
  | newSampler c => exact perform_owner (a := (i, .newSampler c)) rfl fails t
  | finalize h => exact perform_owner (a := (i, .finalize h)) rfl fails t
  | finalizeModel m => exact perform_owner (a := (i, .finalizeModel m)) rfl fails t

/-- The calls keep to the order, and every step of a call has the call's number. -/
structure Disciplined (s : Sys) : Prop where
  ordered : Ordered rank lockOp s.mem.owner s.calls
  numbered : ∀ i p, s.calls i = some p → p.All fun a => a.1 = i
  fresh : ∀ i, s.next ≤ i → s.calls i = none

variable {s : Sys}

/-- A new call of the thread about to start takes its mutexes in order. -/
theorem Disciplined.spawn (hs : Disciplined s) {refs : List Handle} {p : Call}
    (hl : Orderly (fun _ => ∅) ∅ p) (ha : p.All fun a => a.1 = s.next) :
    Disciplined (s.spawn refs p) where
  ordered := hs.ordered.start (hs.fresh s.next (Nat.le_refl _)) hl
  numbered := by
    intro j q hq
    replace hq : Function.update s.calls s.next (some p) j = some q := hq
    by_cases hj : j = s.next
    · subst hj
      rw [Function.update_self] at hq
      cases hq
      exact ha
    · rw [Function.update_of_ne hj] at hq
      exact hs.numbered j q hq
  fresh j hj := (Function.update_of_ne (Nat.ne_of_gt hj) _ _).trans
    (hs.fresh j (Nat.le_of_lt hj))

/-- **Every step** of the system keeps to the order. -/
theorem disciplined_step (s : Sys) (e : Event) (hs : Disciplined s) :
    Disciplined (sysStep s e) := by
  cases e with
  | call c =>
    by_cases hc : c.args.all s.mem.termed = true
    · simp only [sysStep, hc, if_true]
      exact hs.spawn c.locks (c.all (fun _ _ => rfl) fun _ _ => rfl)
    · simp only [sysStep, hc]
      exact hs
  -- A mutex is released by its owner only, and taken in the order of the program.
  | act i fails =>
    show Disciplined (s.act i fails)
    rcases act_cases s i fails with heq | ⟨a, k, hp, hfree, heq⟩
    · rwa [heq]
    · rw [heq]
      have hnum : a.1 = i := (hs.numbered i _ hp).1
      -- The program of the call says what it owns at this point.
      have hown : ∀ h, a.2 = .unlock h → s.mem.owner h = some a.1 := by
        intro h hh
        have hrel : lockOp a = .release h := by
          obtain ⟨j, b⟩ := a
          have hb : b = .unlock h := hh
          rw [hb]
          rfl
        have hlocks := hs.ordered.keeps i _ hp
        rw [Prog.locks_release hrel] at hlocks
        rw [hnum]
        exact hlocks.1
      have hmoves : Owners.Moves a.1 _ (perform fails a.1 a.2 s.mem).2.owner _ :=
        moves_perform hfree hown
      rw [hnum] at hmoves
      refine ⟨hs.ordered.act _ hp (hnum ▸ hmoves), fun j q hq => ?_, fun j hj => ?_⟩
      · replace hq : Function.update s.calls i _ j = some q := hq
        -- Only this call moved on.
        by_cases hji : j = i
        · subst hji
          rw [Function.update_self] at hq
          cases hq
          exact (hs.numbered j _ hp).2 _
        · rw [Function.update_of_ne hji] at hq
          exact hs.numbered j q hq
      · have hji : j ≠ i := by
          rintro rfl
          rw [hs.fresh j hj] at hp
          cases hp
        exact (Function.update_of_ne hji _ _).trans (hs.fresh j hj)
  -- A call that has returned owns nothing.
  | ret i =>
    simp only [sysStep]
    cases hp : s.calls i with
    | none => exact hs
    | some p =>
      cases p with
      | act a k => exact hs
      | ret r =>
        refine ⟨hs.ordered.stop hp, fun j q hq => ?_, fun j hj => ?_⟩
        · replace hq : Function.update s.calls i none j = some q := hq
          by_cases hji : j = i
          · rw [hji, Function.update_self] at hq
            cases hq
          · rw [Function.update_of_ne hji] at hq
            exact hs.numbered j q hq
        · show Function.update s.calls i none j = none
          by_cases hji : j = i
          · rw [hji, Function.update_self]
          · rw [Function.update_of_ne hji]
            exact hs.fresh j hj
  | forget h => exact ⟨hs.ordered, hs.numbered, hs.fresh⟩
  -- The destructors are calls of their own.
  | gc h =>
    by_cases hg : s.mem.garbage h = true
    · simp only [sysStep, hg, if_true]
      exact hs.spawn (locks_destructor h) (all_destructor (fun _ _ => rfl) h)
    · simp only [sysStep, hg]
      exact hs

/-- **Every run** keeps to the order. -/
theorem disciplined_run (es : List Event) : Disciplined (run sysStep Sys.init es) :=
  AllSteps.invariant (P := fun _ _ => True) (fun s e hs _ => disciplined_step s e hs)
    ⟨Ordered.init, by rintro i p ⟨⟩, fun _ _ => rfl⟩
    (AllSteps.of_forall (fun _ _ => trivial) _ es)

/-- **No deadlock.** In every run, while any call is running, one of them is not waiting for a
    mutex; a call that has ended has none; and a call that asks for a mutex asks for one that comes
    in the order after all that it has. -/
theorem no_deadlock (es : List Event) :
    ((∃ i, (run sysStep Sys.init es).calls i ≠ none) →
      ∃ i p, (run sysStep Sys.init es).calls i = some p ∧
        ¬ Waits lockOp (run sysStep Sys.init es).mem.owner p) ∧
    (∀ i r, (run sysStep Sys.init es).calls i = some (.ret r) →
      ∀ h, (run sysStep Sys.init es).mem.owner h ≠ some i) ∧
    ∀ i a k h, (run sysStep Sys.init es).calls i = some (.act a k) → a.2 = .lock h →
      ∀ x, (run sysStep Sys.init es).mem.owner x = some i → rank x < rank h := by
  have hs := (disciplined_run es).ordered
  refine ⟨hs.not_stuck, fun i r hp h hown => ?_, fun i a k h hp ha => ?_⟩
  · have hnone : Owners.locksOf (run sysStep Sys.init es).mem.owner i = ∅ := hs.keeps i _ hp
    have hmem : h ∈ Owners.locksOf (run sysStep Sys.init es).mem.owner i := hown
    rw [hnone] at hmem
    exact hmem
  · exact hs.acquires hp (lockOp_acquire ha)

end Erllama.Native.Handles
