import Erllama.MetaSrv.Moves
import Erllama.MetaSrv.Refcount

namespace Erllama.MetaSrv

open Lib

/-!
# A checkout that is held stays

A holder keeps its entry in the holders map until it checks in or dies, and as long as it is
there its row stays what it was, provided that nobody has reserved the key.

* `lookup_holders_step` — an entry of the holders map leaves by its own checkin or `DOWN` only.
* `Index.Moves.entry_unclaimed` — the moves beside the save pipeline keep the entry of a key
  without a claim, or evict it.
* `handleCheckout_spec` — what the caller of a checkout gets.
-/

variable {deps : Deps} {env : Env}

/-! ### Entries of the holders map -/

theorem holders_tryEvictOne (env : Env) (lruKey : LruKey) (key : CacheKey)
    (liveKey : Option CacheKey) (mode : EvictMode) (s : State) :
    (tryEvictOne env lruKey key liveKey mode s).2.holders = s.holders := by
  rcases tryEvictOne_cases env lruKey key liveKey mode s with
    ⟨-, heq⟩ | ⟨size, s', heq, hev⟩ | heq
  · rw [heq]
  · rw [heq]
    exact hev.holders
  · rw [heq]

/-- A full eviction pass touches no holder. -/
theorem holders_runEvictionFrom (liveKey : Option CacheKey) :
    ∀ (fuel : Nat) (cur : Option LruKey) (n : Nat) (s : State),
      (runEvictionFrom env fuel cur liveKey n s).2.holders = s.holders := by
  intro fuel
  induction fuel with
  | zero => exact fun _ _ _ => rfl
  | succ fuel ih =>
    intro cur n s
    cases cur with
    | none => rfl
    | some lruKey =>
      have hone := holders_tryEvictOne env lruKey (ofLex lruKey).2 liveKey .protect s
      unfold runEvictionFrom
      dsimp only
      split <;> rename_i heq <;> rw [heq] at hone
      · exact (ih _ _ _).trans hone
      · exact (ih _ _ _).trans hone

/-- Nor does a byte-targeted one. -/
theorem holders_evictSorted (target : Nat) :
    ∀ (cs : List Candidate) (n bytes : Nat) (s : State),
      (evictSorted env cs target n bytes s).2.holders = s.holders := by
  intro cs
  induction cs with
  | nil => exact fun _ _ _ => rfl
  | cons c cs ih =>
    intro n bytes s
    have hone := holders_tryEvictOne env c.lruKey c.key none .allow s
    unfold evictSorted
    split
    · rfl
    · split <;> rename_i heq <;> rw [heq] at hone
      · exact (ih _ _ _).trans hone
      · exact (ih _ _ _).trans hone

/-- **Holders.** An entry of the holders map leaves by the checkin or the `DOWN` of its own
    reference only. -/
theorem lookup_holders_step {s : State} {e : Event} {ref : Ref} {holder : Pid × CacheKey}
    (hc : ClaimsSound s) (h : s.holders.lookup ref = some holder) (hin : e.msg ≠ .checkin ref)
    (hdown : e.msg ≠ .down ref) : (step deps s e).holders.lookup ref = some holder := by
  obtain ⟨env, frm, msg⟩ := e
  set s0 := s.startCallback with hs0
  have h0 : s0.holders.lookup ref = some holder := h
  have hof : ∀ {s' : State}, s'.holders = s0.holders → s'.holders.lookup ref = some holder :=
    fun heq => heq ▸ h0
  -- the entry of another reference goes
  have herase : ∀ {ref' : Ref}, ref' ≠ ref → ∀ key, (decrementRefcount key
      { s0 with holders := s0.holders.erase ref' }).holders.lookup ref = some holder := by
    intro ref' hne key
    show (s0.holders.erase ref').lookup ref = some holder
    rw [AList.lookup_erase_ite, if_neg hne.symm]
    exact h0
  cases msg with
  | checkout key pid =>
    -- A checkout adds an entry under a new reference.
    rcases handleCheckout_cases env s0 key frm pid with hsame | ⟨row, -, hav, heq⟩
    · exact hof hsame.holders
    · obtain ⟨-, -, -, hholders, -⟩ := doCheckout_readings env s0 key frm pid row hav
      have hfresh : ref ≠ s0.nextRef := by
        intro heq
        have hle : s.nextRef ≤ ref := Nat.le_of_eq heq.symm
        rw [hc.fresh ref hle] at h
        cases h
      show (handleCheckout env key pid frm s0).holders.lookup ref = some holder
      rw [heq, hholders, AList.lookup_insert_ne hfresh]
      exact h0
  | checkin monRef =>
    -- A checkin takes another entry away, since it is not of this reference.
    rcases handleCheckin_cases s0 frm monRef with ⟨-, hsame⟩ | ⟨pid, key, -, heq⟩
    · exact hof hsame.holders
    · show (handleCheckin monRef frm s0).holders.lookup ref = some holder
      rw [heq]
      exact herase (fun hr => hin (congrArg Msg.checkin hr)) key
  | lookupOrWait key ms => exact hof (handleLookupOrWait_same env s0 key frm ms).holders
  | reserveSave key tier pid =>
    -- The reservations write rows and claims, and no holder.
    rcases doReserveSave_cases deps env s0 key frm tier pid with
      ⟨hsame, -⟩ | ⟨-, s1, hres, hpre⟩
    · exact hof hsame.holders
    · refine hof (hres.holders.trans ?_)
      rcases hpre with ⟨-, hi⟩ | ⟨-, hs | hr⟩
      · exact hi.holders
      · exact hs.holders
      · exact hr.holders
  | checkReservation key token =>
    exact hof (handleCheckReservation_same env s0 key frm token).holders
  | markPublished key token path =>
    exact hof (handleMarkPublished_same env s0 key frm token path).holders
  | announceSaved key token size header tokensBin textBytes =>
    rcases handleAnnounceSaved_cases env s0 key frm token size header tokensBin textBytes with
      ⟨-, hs⟩ | ⟨-, hi⟩
    · exact hof hs.holders
    · exact hof hi.holders
  | cancelReservation key token =>
    rcases handleCancelReservation_cases s0 key frm token with ⟨-, hs⟩ | ⟨-, hr⟩
    · exact hof hs.holders
    · exact hof hr.holders
  | insertAvailable key tier size header loc tokensBin textBytes =>
    exact hof (handleInsertAvailable_installs env s0 key frm tier size header loc tokensBin
      textBytes).holders
  | pinRow ns key => exact hof (doPinRow_same s0 key ns).holders
  -- Nor do the evictions.
  | gc => exact hof (holders_runEvictionFrom s0.liveKey _ _ 0 s0)
  | evictBytes target tiers =>
    simp only [step]
    split
    · exact h0
    · exact hof (holders_evictSorted target _ 0 0 s0.readClock)
  | setLiveKey key => exact h0
  | down ref' =>
    show (handleDown deps env ref' s0).holders.lookup ref = some holder
    -- A death takes another entry, or a reservation.
    rcases handleDown_cases deps env s0 ref' with
      ⟨pid, key, -, heq⟩ | ⟨-, ⟨-, heq⟩ | ⟨key, r, -, heq⟩⟩
    · rw [heq]
      exact herase (fun hr => hdown (congrArg Msg.down hr)) key
    · rw [heq]
      exact h0
    · rw [heq]
      exact hof (cleanupByStage_frame deps env s0 key r).2.1
  | waiterExpire key frm' => exact hof (expireWaiter_same s0 key frm').holders
  | sweep =>
    exact hof (foldl_cleanup_rewritten deps env s0.readClock
      (staleReservations_keys_nodup env (env.monotonicNs s.reads) s.reservations)).2.2
  | filesChange files => exact h0

/-! ### The row of a checkout -/

/-- Beside the save pipeline the entry of a key without a claim stays, or is evicted. -/
theorem Index.Moves.entry_unclaimed {D : CacheKey → Prop} {i j : Index} {key : CacheKey}
    (hmoves : Index.Moves deps env D i j) (hclaim : i.claim key = none) :
    j.claim key = none ∧ (j.entry key = i.entry key ∨ j.entry key = none) := by
  induction hmoves with
  | refl => exact ⟨hclaim, Or.inl rfl⟩
  | @tail j j' _ hmove ih =>
    obtain ⟨hnone, hentry⟩ := ih
    cases hmove with
    | tick n hn => exact ⟨hnone, hentry⟩
    | touch k e hits n he hav hn =>
      obtain ⟨hentry', hclaim', -⟩ := Index.touch_frame env j e.location hits
      exact ⟨(congrFun hclaim' key).trans hnone, (congrFun hentry' key) ▸ hentry⟩
    | cleanup k c hc hd =>
      have hne : key ≠ k := by
        rintro rfl
        rw [hnone] at hc
        cases hc
      rw [Index.claim_cleanup, if_neg hne, Index.entry_cleanup_of_ne j hne c]
      exact ⟨hnone, hentry⟩
    | evict k e he hav =>
      obtain ⟨hentry', hclaim', -⟩ := Index.deletePayload_frame env j e.tier e.location
      refine ⟨(congrFun hclaim' key).trans hnone, ?_⟩
      rw [Index.entry_setEntry, hentry']
      split
      · exact Or.inr rfl
      · exact hentry

/-- What a checkout is answered: the columns of an available row, under a fresh reference. -/
theorem handleCheckout_spec {s : State} {key : CacheKey} {pid : Pid} {frm : From} {monRef : Ref}
    {tier : Tier} {loc : Location} {header : Bytes} {tokensBin : Option Bytes}
    (h : (handleCheckout env key pid frm s).answer =
      some (.checkedOut monRef tier loc header tokensBin)) :
    monRef = s.nextRef ∧ (handleCheckout env key pid frm s).holders =
        s.holders.insert monRef (pid, key) ∧
      ∃ e, (handleCheckout env key pid frm s).index.entry key = some e ∧
        e.status = .available ∧ e.tokensRef = tokensBin := by
  unfold handleCheckout at h ⊢
  cases hrow : s.metaTbl.lookup key with
  | none =>
    rw [hrow] at h
    simp at h
  | some row =>
    rw [hrow] at h
    dsimp only at h ⊢
    by_cases hav : row.status = .available
    · rw [if_pos hav] at h ⊢
      obtain ⟨-, -, -, hholders, -⟩ := doCheckout_readings env s key frm pid row hav
      have hindex : (doCheckout env key pid row frm s).index =
          { s.index.touch env row.location (row.hits + 1) with nextRef := s.nextRef + 1 } :=
        index_doCheckout s key pid hrow frm
      obtain ⟨hentry, -, -⟩ := Index.touch_frame env s.index row.location (row.hits + 1)
      have hanswer : some (Reply.checkedOut s.nextRef row.tier row.location row.headerBin
          row.tokensRef) = some (.checkedOut monRef tier loc header tokensBin) := by
        rw [← h]
        unfold doCheckout
        exact (answer_emit _ _ _).symm
      cases hanswer
      refine ⟨rfl, hholders, row.entry, ?_, hav, rfl⟩
      rw [hindex]
      show (s.index.touch env row.location (row.hits + 1)).entry key = some row.entry
      rw [hentry, index_entry, hrow]
      rfl
    · rw [if_neg hav] at h
      simp at h

end Erllama.MetaSrv
