import Erllama.MetaSrv.Moves

namespace Erllama.MetaSrv

open Lib

/-!
# What a callback deletes

A row leaves the index with its payload: an eviction deletes the file of the row it drops, and a
cleanup that finds no valid file under a marked reservation deletes what is there.  The deletions
are among the effects of the callback, so they can be told from those that it does not make.

* `Disposes` — what evictions do: an entry stays, or its payload is deleted.
* `CleansUp` — what cleanups do: no other entry changes, and a marked claim whose file is not
  adopted has it deleted.
* `background_deletes` — an entry or a marked claim that a background message ends has its
  payload deleted.
-/

variable {deps : Deps} {env : Env} {s s' s'' : State} {key : CacheKey}

/-- What was deleted stays so. -/
theorem Deleted.grow (h : Deleted s key) (hout : ∀ o ∈ s.out, o ∈ s'.out) : Deleted s' key := by
  obtain ⟨o, ho, hdel⟩ := h
  exact ⟨o, hout o ho, hdel⟩

/-! ### Evictions -/

/-- The effects so far stay, and every entry stays or has its payload deleted. -/
structure Disposes (s s' : State) : Prop where
  out : ∀ o ∈ s.out, o ∈ s'.out
  rows : ∀ key, s'.index.entry key = s.index.entry key ∨
    ∀ e p, s.index.entry key = some e → e.location = locationFor e.tier (some p) → Deleted s' key

/-- Nothing was removed. -/
theorem Disposes.refl (s : State) : Disposes s s := ⟨fun _ h => h, fun _ => Or.inl rfl⟩

/-- One function after another. -/
theorem Disposes.trans (h : Disposes s s') (h' : Disposes s' s'') : Disposes s s'' := by
  refine ⟨fun o ho => h'.out o (h.out o ho), fun key => ?_⟩
  rcases h.rows key with hsame | hdel
  · rw [← hsame]
    exact h'.rows key
  · exact Or.inr fun e p he hloc => (hdel e p he hloc).grow h'.out

/-- A message removes nothing. -/
theorem Disposes.emit (h : Disposes s s') (o : Out) : Disposes s (s'.emit o) := by
  refine ⟨fun o' ho => List.mem_append_left _ (h.out o' ho), fun key => ?_⟩
  refine (h.rows key).imp_right fun hdel e p he hloc => ?_
  exact (hdel e p he hloc).grow fun _ => List.mem_append_left _

/-- A row that is evicted has its payload deleted. -/
theorem disposes_tryEvictOne (lruKey : LruKey) (liveKey : Option CacheKey) (mode : EvictMode) :
    Disposes s (tryEvictOne env lruKey key liveKey mode s).2 := by
  unfold tryEvictOne
  cases hrow : s.metaTbl.lookup key with
  | none     => exact ⟨fun _ h => h, fun _ => Or.inl rfl⟩
  | some row =>
    dsimp only
    split
    · have hentry := congrArg Index.entry
        (index_deleteRow (deleteFromTier env row.tier key row.location s) key)
      rw [index_deleteFromTier] at hentry
      obtain ⟨hframe, -, -⟩ := Index.deletePayload_frame env s.index row.tier row.location
      refine ⟨fun o ho => ?_, fun k => ?_⟩
      · -- deleting emits, and takes no effect back
        show o ∈ (deleteFromTier env row.tier key row.location s).out
        unfold deleteFromTier deleteFile
        split <;> try split
        all_goals first | exact List.mem_append_left _ ho | exact ho
      · by_cases hk : k = key
        · refine Or.inr fun e p he hloc => ?_
          have hcols : e = row.entry := by
            rw [hk, index_entry, hrow] at he
            exact (Option.some.inj he).symm
          rw [hcols] at hloc
          have hrowloc : row.location = locationFor row.tier (some p) := hloc
          show Deleted (deleteFromTier env row.tier key row.location s) k
          rw [hk, hrowloc]
          unfold deleteFromTier
          cases row.tier with
          | ram     => exact ⟨.deleteSlab key, List.mem_append_right _ (by simp), rfl⟩
          | ramFile => exact ⟨.deleteFile key p, List.mem_append_right _ (by simp), rfl⟩
          | disk    => exact ⟨.deleteFile key p, List.mem_append_right _ (by simp), rfl⟩
        · refine Or.inl ?_
          have hstays := congrFun hentry k
          rw [Index.entry_setEntry, if_neg hk, hframe] at hstays
          exact hstays
    · exact Disposes.refl s

/-- So has every row that a full pass evicts. -/
theorem disposes_runEvictionFrom (liveKey : Option CacheKey) (fuel : Nat) (o : Option LruKey)
    (n : Nat) (s : State) : Disposes s (runEvictionFrom env fuel o liveKey n s).2 := by
  induction fuel generalizing o n s with
  | zero => exact Disposes.refl s
  | succ fuel ih =>
    cases o with
    | none        => exact Disposes.refl s
    | some lruKey =>
      have hone : Disposes s (tryEvictOne env lruKey (ofLex lruKey).2 liveKey .protect s).2 :=
        disposes_tryEvictOne lruKey liveKey .protect
      unfold runEvictionFrom
      split <;> rename_i heq <;> rw [heq] at hone
      · exact hone.trans (ih _ _ _)
      · exact hone.trans (ih _ _ _)

/-- And every row that a byte-targeted pass evicts. -/
theorem disposes_evictSorted (cs : List Candidate) (target n bytes : Nat) (s : State) :
    Disposes s (evictSorted env cs target n bytes s).2 := by
  induction cs generalizing n bytes s with
  | nil => exact Disposes.refl s
  | cons c cs ih =>
    have hone : Disposes s (tryEvictOne env c.lruKey c.key none .allow s).2 :=
      disposes_tryEvictOne c.lruKey none .allow
    unfold evictSorted
    split
    · exact Disposes.refl s
    · split <;> rename_i heq <;> rw [heq] at hone
      · exact hone.trans (ih _ _ _)
      · exact hone.trans (ih _ _ _)

/-- The eviction by bytes disposes of what it removes. -/
theorem disposes_runEvictionBytes (target : Nat) (tiers : Option (List Tier))
    (liveKey : Option CacheKey) (s : State) :
    Disposes s (runEvictionBytes deps env target tiers liveKey s).2 := by
  unfold runEvictionBytes
  have hsorted : ∀ cs, Disposes s.readClock (evictSorted env cs target 0 0 s.readClock).2 :=
    fun cs => disposes_evictSorted cs target 0 0 s.readClock
  exact ⟨(hsorted _).out, (hsorted _).rows⟩

/-! ### Cleanups -/

/-- The keys were cleaned up: the effects so far stay, no other key changes, and a marked claim
    among them leaves an entry, or its file was deleted. -/
structure CleansUp (l : List (CacheKey × Reservation)) (s s' : State) : Prop where
  out : ∀ o ∈ s.out, o ∈ s'.out
  other : ∀ k, k ∉ l.map Prod.fst →
    s'.index.entry k = s.index.entry k ∧ s'.index.claim k = s.index.claim k
  marked : ∀ k r p, (k, r) ∈ l → r.stage = .postLink → r.path = some p →
    s'.index.entry k ≠ none ∨ Deleted s' k

/-- There is nothing to clean up. -/
theorem cleansUp_nil (s : State) : CleansUp [] s s :=
  ⟨fun _ h => h, fun _ _ => ⟨rfl, rfl⟩, fun _ _ _ h => by cases h⟩

/-- A cleanup takes no effect back. -/
theorem out_cleanupByStage {r : Reservation} {o : Out} (h : o ∈ s.out) :
    o ∈ (cleanupByStage deps env key r s).out := by
  unfold cleanupByStage
  cases r.stage with
  | preLink  => exact h
  | postLink =>
    dsimp only
    cases validateAndAdopt deps env key r.path s with
    | none =>
      show o ∈ (deleteFile env key r.path s).out
      unfold deleteFile
      cases r.path with
      | none   => exact h
      | some p => exact List.mem_append_left _ h
    | some a =>
      unfold adoptRow
      set s1 := (maybeRestorePin key (installAvailableRow env key r.tier a.size a.header
        (locationFor r.tier r.path) (some a.tokensBin) a.textBytes s)).removeReservation key
        with hs1
      have h1 : o ∈ s1.out := by
        rcases maybeRestorePin_cases (installAvailableRow env key r.tier a.size a.header
          (locationFor r.tier r.path) (some a.tokensBin) a.textBytes s) key with heq | heq
        · rw [hs1, heq]
          exact h
        · rw [hs1, heq]
          exact h
      obtain ⟨ws, out, heq, -⟩ := notifyWaiters_frame s1 key key
      show o ∈ (notifyWaiters key s1).out
      rw [heq]
      exact List.mem_append_left _ h1

/-- A marked claim is adopted, or its file is deleted. -/
theorem cleanupByStage_deletes {r : Reservation} {p : Path} (hstage : r.stage = .postLink)
    (hpath : r.path = some p) : (cleanupByStage deps env key r s).index.entry key ≠ none ∨
      Deleted (cleanupByStage deps env key r s) key := by
  cases hval : validateAndAdopt deps env key r.path s with
  | none =>
    right
    unfold cleanupByStage
    rw [hstage]
    dsimp only
    rw [hval, hpath]
    exact ⟨.deleteFile key p, List.mem_append_right _ (by simp), rfl⟩
  | some a =>
    left
    unfold cleanupByStage
    rw [hstage]
    dsimp only
    rw [hval]
    dsimp only
    rw [index_adoptRow]
    simp [Index.publish]

/-- Reservations of distinct keys, cleaned up one after the other. -/
theorem cleansUp_foldl (l : List (CacheKey × Reservation)) (hnodup : (l.map Prod.fst).Nodup)
    (s : State) :
    CleansUp l s (l.foldl (fun s e => cleanupByStage deps env e.1 e.2 s) s) := by
  induction l generalizing s with
  | nil => exact cleansUp_nil s
  | cons e l ih =>
    rw [List.map_cons, List.nodup_cons] at hnodup
    have htail := ih hnodup.2 (cleanupByStage deps env e.1 e.2 s)
    have hne : ∀ k, k ≠ e.1 →
        (cleanupByStage deps env e.1 e.2 s).index.entry k = s.index.entry k ∧
          (cleanupByStage deps env e.1 e.2 s).index.claim k = s.index.claim k := by
      intro k hk
      rw [index_cleanupByStage, Index.claim_cleanup, if_neg hk]
      exact ⟨Index.entry_cleanup_of_ne _ hk _, rfl⟩
    rw [List.foldl_cons]
    refine ⟨fun o ho => htail.out o (out_cleanupByStage ho), fun k hk => ?_, fun k r p hmem hstage
      hpath => ?_⟩
    · rw [List.map_cons, List.mem_cons, not_or] at hk
      obtain ⟨hentry, hclaim⟩ := htail.other k hk.2
      obtain ⟨hentry', hclaim'⟩ := hne k hk.1
      exact ⟨hentry.trans hentry', hclaim.trans hclaim'⟩
    · rcases List.mem_cons.mp hmem with heq | hmem
      · -- the rest of the list leaves the head's key as its cleanup did
        subst heq
        rw [(htail.other k hnodup.1).1]
        exact (cleanupByStage_deletes hstage hpath).imp_right (·.grow htail.out)
      · exact htail.marked k r p hmem hstage hpath

/-! ### Background messages -/

/-- A background message keeps a claim or ends it; one in stage `pre_link` ends as `D` allows. -/
theorem Index.Moves.claim {D : CacheKey → Prop} {i j : Index} (h : Index.Moves deps env D i j)
    (key : CacheKey) : j.claim key = i.claim key ∨
      j.claim key = none ∧ ∀ c, i.claim key = some c → c.stage = .preLink → D key := by
  induction h with
  | refl => exact Or.inl rfl
  | @tail j j' _ hmove ih =>
    cases hmove with
    | tick n hn => exact ih
    | touch k e hits n he hav hn =>
      obtain ⟨-, hclaim, -⟩ := Index.touch_frame env j e.location hits
      have hsame := congrFun hclaim key
      exact ih.imp (hsame.trans ·) (And.imp_left (hsame.trans ·))
    | evict k e he hav =>
      obtain ⟨-, hclaim, -⟩ := Index.deletePayload_frame env j e.tier e.location
      have hsame := congrFun hclaim key
      exact ih.imp (hsame.trans ·) (And.imp_left (hsame.trans ·))
    | cleanup k c hc hd =>
      rw [Index.claim_cleanup]
      by_cases hk : key = k
      · subst hk
        rw [if_pos rfl]
        rcases ih with hsame | ⟨hnone, -⟩
        · refine Or.inr ⟨rfl, fun c' hc' hstage => ?_⟩
          cases hc.symm.trans (hsame.trans hc')
          exact hd hstage
        · cases hc.symm.trans hnone
      · rw [if_neg hk]
        exact ih

/-- Evictions leave the claims. -/
theorem claim_of_evicts {i j : Index} (h : Relation.ReflTransGen (Index.Evicts env) i j) :
    j.claim = i.claim := by
  induction h with
  | refl => rfl
  | tail _ hone ih =>
    obtain ⟨key, e, -, -⟩ := hone
    obtain ⟨-, hclaim, -⟩ := Index.deletePayload_frame env _ e.tier e.location
    exact hclaim.trans ih

/-- The key has an entry whose payload is where its tier keeps it, and no claim; or it has a
    marked claim, which names a file. -/
def Index.Locates (i : Index) (key : CacheKey) : Prop :=
  (i.claim key = none ∧ ∃ e p, i.entry key = some e ∧ e.location = locationFor e.tier (some p)) ∨
    ∃ c p, i.claim key = some c ∧ c.stage = .postLink ∧ c.path = some p

/-- Neither an entry nor a claim is left. -/
def Index.Ended (i : Index) (key : CacheKey) : Prop := i.entry key = none ∧ i.claim key = none

/-- What keeps the entry and the claim ends nothing. -/
theorem Index.Locates.not_ended {i j : Index} (h : i.Locates key)
    (he : j.entry key = i.entry key) (hc : j.claim key = i.claim key) : ¬ j.Ended key := by
  rintro ⟨hentry, hclaim⟩
  rcases h with ⟨-, e, p, hsome, -⟩ | ⟨c, p, hsome, -⟩
  · cases hentry.symm.trans (he.trans hsome)
  · cases hclaim.symm.trans (hc.trans hsome)

/-- What evictions end has its payload deleted. -/
theorem Disposes.deletes (h : Disposes s s') (hloc : s.index.Locates key)
    (hclaims : s'.index.claim = s.index.claim) (hend : s'.index.Ended key) : Deleted s' key := by
  rcases hloc with ⟨-, e, p, he, hat⟩ | ⟨c, p, hc, -⟩
  · rcases h.rows key with hsame | hdel
    · cases hend.1.symm.trans (hsame.trans he)
    · exact hdel e p he hat
  · cases hend.2.symm.trans ((congrFun hclaims key).trans hc)

/-- So does what cleanups end. -/
theorem CleansUp.deletes {l : List (CacheKey × Reservation)} (h : CleansUp l s s')
    (hl : ∀ k r, (k, r) ∈ l → s.reservations.lookup k = some r) (hloc : s.index.Locates key)
    (hend : s'.index.Ended key) : Deleted s' key := by
  by_cases hmem : key ∈ l.map Prod.fst
  · obtain ⟨⟨k, r⟩, hin, rfl⟩ := List.mem_map.mp hmem
    have hc : s.index.claim k = some r.claim := by
      rw [index_claim, hl k r hin]
      rfl
    rcases hloc with ⟨hnone, -⟩ | ⟨c, p, hsome, hstage, hpath⟩
    · cases hnone.symm.trans hc
    · cases hsome.symm.trans hc
      exact (h.marked k r p hin hstage hpath).resolve_left fun hentry => hentry hend.1
  · obtain ⟨he, hc⟩ := h.other key hmem
    exact absurd hend (hloc.not_ended he hc)

/-- **Deletions.** When a background message ends an entry or a marked claim, it deletes the
    payload. -/
theorem background_deletes {frm : From} {msg : Msg} (hbg : msg.isBackground = true)
    (hloc : s.index.Locates key) (hend : (step deps s ⟨env, frm, msg⟩).index.Ended key) :
    Deleted (step deps s ⟨env, frm, msg⟩) key := by
  set s0 := s.startCallback with hs0
  have hkept : ∀ i : Index, (step deps s ⟨env, frm, msg⟩).index = i →
      i.entry key = s.index.entry key → i.claim key = s.index.claim key →
      Deleted (step deps s ⟨env, frm, msg⟩) key :=
    fun i hi he hc => absurd (hi ▸ hend) (hloc.not_ended he hc)
  cases msg with
  | checkout k pid =>
    rcases index_handleCheckout env s0 k pid frm with h | ⟨row, -, -, h⟩
    · exact hkept _ h rfl rfl
    · obtain ⟨hentry, hclaim, -⟩ := Index.touch_frame env s0.index row.location (row.hits + 1)
      exact hkept _ h (congrFun hentry key) (congrFun hclaim key)
  | checkin monRef => exact hkept _ (index_handleCheckin s0 monRef frm) rfl rfl
  | lookupOrWait k ms =>
    obtain ⟨n, -, h⟩ := index_handleLookupOrWait env s0 k ms frm
    exact hkept _ h rfl rfl
  | pinRow ns k           => exact hkept _ (index_doPinRow s0 k ns) rfl rfl
  | setLiveKey k          => exact hkept _ rfl rfl rfl
  | waiterExpire k frm'   => exact hkept _ (index_expireWaiter s0 k frm') rfl rfl
  | gc =>
    have hdisp : Disposes s0 (step deps s ⟨env, frm, .gc⟩) :=
      (disposes_runEvictionFrom s.liveKey _ _ 0 s0).emit _
    exact hdisp.deletes hloc (claim_of_evicts (index_gc deps env s frm)) hend
  | evictBytes target tiers =>
    have hdisp : Disposes s0 (step deps s ⟨env, frm, .evictBytes target tiers⟩) := by
      unfold step
      dsimp only
      split
      · exact (Disposes.refl s0).emit _
      · exact (disposes_runEvictionBytes target tiers s0.liveKey s0).emit _
    exact hdisp.deletes hloc (claim_of_evicts (index_evictBytes deps env s frm target tiers)) hend
  | down ref =>
    have hstep : step deps s ⟨env, frm, .down ref⟩ = handleDown deps env ref s0 := rfl
    rcases handleDown_cases deps env s0 ref with
      ⟨pid, k, -, heq⟩ | ⟨-, ⟨-, heq⟩ | ⟨k, r, hfind, heq⟩⟩
    · refine hkept s.index ?_ rfl rfl
      rw [hstep, heq, index_decrementRefcount]
      rfl
    · exact hkept s.index (by rw [hstep, heq]; rfl) rfl rfl
    · have hclean : CleansUp [(k, r)] s0 (step deps s ⟨env, frm, .down ref⟩) := by
        rw [hstep, heq]
        exact cleansUp_foldl [(k, r)] (by simp) s0
      refine hclean.deletes (fun k' r' hin => ?_) hloc hend
      cases List.mem_singleton.mp hin
      exact lookup_of_find hfind
  | sweep =>
    have hclean : CleansUp (staleReservations env (env.monotonicNs s.reads) s.reservations)
        s0.readClock (step deps s ⟨env, frm, .sweep⟩) :=
      cleansUp_foldl _ (nodup_staleReservations _ _) s0.readClock
    exact hclean.deletes (fun k r hin => lookup_of_mem_stale hin) hloc hend
  | _ => cases hbg

end Erllama.MetaSrv
