import Erllama.MetaSrv.LruMirror

namespace Erllama.MetaSrv

open Lib

/-!
# Refcounts count holders, and held rows stay

The refcount column of a row should equal the number of entries of the holders map that
claim its key, and a row (or its file or slab) should not go while such an entry exists.
Checkout, checkin, `DOWN` of a holder and both eviction passes keep this.  It breaks
exactly when the row of a held key is rewritten or deleted beside the holders:
`insert_available` of a held key, and announcing, cancelling or cleaning up a reservation
whose key is held (`TouchesHeld`).

* `ClaimsSound` — the invariant: refcounts agree, held keys are available, references are
  fresh.
* `safe_of_unheld` — rewriting the row of an unheld key is harmless; every way to change a
  row is an instance.
* `keepsClaims_iff` — one message keeps it iff it touches no held key.
-/

variable {deps : Deps} {env : Env} {s s' s'' : State} {key : CacheKey}

/-- Every row's refcount is the number of holders of its key. -/
def RefcountsCount (s : State) : Prop :=
  ∀ key n, refcountOf s.metaTbl key = some n → n = holderCount s key

variable (deps) in
/-- After the message the refcounts count the holders, and no row that was held before it
    has left or lost its payload. -/
def KeepsClaims (s : State) (e : Event) : Prop :=
  RefcountsCount (step deps s e) ∧
    ∀ key, 0 < holderCount s key →
      (refcountOf (step deps s e).metaTbl key).isSome ∧ ¬ Deleted (step deps s e) key

/-- The message rewrites or deletes the row of a key that is held: it inserts the key
    again, or announces, cancels or cleans up a reservation of it. -/
def TouchesHeld (s : State) (e : Event) : Prop :=
  match e.msg with
  | .insertAvailable key _ _ _ _ _ _   => 0 < holderCount s key
  | .announceSaved key token _ _ _ _   =>
    (s.reservationWith key token).isSome ∧ 0 < holderCount s key
  | .cancelReservation key token       =>
    (s.reservationWith key token).isSome ∧ 0 < holderCount s key
  | .down ref => s.holders.lookup ref = none ∧
      ∃ key r, findReservationByMonref ref s.reservations = some (key, r) ∧
        0 < holderCount s key
  | .sweep =>
    ∃ k ∈ (staleReservations e.env (e.env.monotonicNs s.reads) s.reservations).map Prod.fst,
      0 < holderCount s k
  | _ => False

/-- The invariant behind the refcounts. -/
structure ClaimsSound (s : State) : Prop where
  counts : RefcountsCount s
  held : ∀ key, 0 < holderCount s key → Available s key
  fresh : ∀ ref, s.nextRef ≤ ref → s.holders.lookup ref = none

/-- The second state is sound, and what was held in the first is still there. -/
structure Safe (s s' : State) : Prop where
  claims : ClaimsSound s'
  held : ∀ key, 0 < holderCount s key → Available s' key ∧ (Deleted s' key → Deleted s key)

/-- One safe function after another. -/
theorem Safe.trans (h : Safe s s') (hholders : s'.holders = s.holders) (h' : Safe s' s'') :
    Safe s s'' := by
  refine ⟨h'.claims, fun key hkey => ?_⟩
  have hkey' : 0 < holderCount s' key := by rwa [holderCount, hholders]
  obtain ⟨hav, hdel⟩ := h'.held key hkey'
  exact ⟨hav, fun hd => (h.held key hkey).2 (hdel hd)⟩

/-- Nothing was claimed. -/
theorem Safe.refl (hc : ClaimsSound s) : Safe s s :=
  ⟨hc, fun key hkey => ⟨hc.held key hkey, id⟩⟩

/-! ### Rows of unheld keys -/

/-- **Rewriting an unheld row is harmless.** If only the row of a key without holders
    changes, and its new refcount, if any, is zero, the claims stay sound. -/
theorem safe_of_unheld (hc : ClaimsSound s) (hkey : holderCount s key = 0)
    (hholders : s'.holders = s.holders) (hnext : s.nextRef ≤ s'.nextRef)
    (hstamp : ∀ k, k ≠ key → stamp s'.metaTbl k = stamp s.metaTbl k)
    (href : ∀ k, k ≠ key → refcountOf s'.metaTbl k = refcountOf s.metaTbl k)
    (hzero : ∀ n, refcountOf s'.metaTbl key = some n → n = 0)
    (hdel : ∀ k, k ≠ key → (Deleted s' k → Deleted s k)) : Safe s s' := by
  have hcount : ∀ k, holderCount s' k = holderCount s k := fun k => by
    rw [holderCount, hholders, holderCount]
  have hne : ∀ k, 0 < holderCount s k → k ≠ key := by
    rintro k hk rfl
    omega
  have hav : ∀ k, 0 < holderCount s k → Available s' k := fun k hk => by
    rw [available_iff, hstamp k (hne k hk)]
    exact available_iff.mp (hc.held k hk)
  refine ⟨⟨?_, ?_, ?_⟩, fun k hk => ⟨hav k hk, hdel k (hne k hk)⟩⟩
  · intro k n hn
    by_cases hk : k = key
    · subst hk
      rw [hzero n hn, hcount, hkey]
    · rw [hcount]
      exact hc.counts k n (by rwa [href k hk] at hn)
  · intro k hk
    exact hav k (by rwa [hcount] at hk)
  · intro ref hlt
    rw [hholders]
    exact hc.fresh ref (hnext.trans hlt)

/-- A function that keeps the readings. -/
theorem SameReadings.safe (h : SameReadings s s') (hc : ClaimsSound s) : Safe s s' := by
  have hcount : ∀ k, holderCount s' k = holderCount s k := fun k => by
    rw [holderCount, h.holders, holderCount]
  have hav : ∀ k, 0 < holderCount s k → Available s' k := fun k hk => by
    rw [available_iff, h.stamp]
    exact available_iff.mp (hc.held k hk)
  refine ⟨⟨?_, ?_, ?_⟩, fun k hk => ⟨hav k hk, (h.deleted k).mp⟩⟩
  · intro k n hn
    rw [hcount]
    exact hc.counts k n (by rwa [h.refcountOf] at hn)
  · intro k hk
    exact hav k (by rwa [hcount] at hk)
  · intro ref hlt
    rw [h.holders]
    exact hc.fresh ref (h.nextRef.trans hlt)

/-- Installing a row that nobody holds. -/
theorem Installs.safe (h : Installs key s s') (hc : ClaimsSound s)
    (hkey : holderCount s key = 0) : Safe s s' := by
  obtain ⟨t, hstamp, -⟩ := h.stamp
  refine safe_of_unheld hc hkey h.holders h.nextRef ?_ ?_ ?_ fun k _ => (h.deleted k).mp
  · intro k hk
    rw [hstamp, Function.update_of_ne hk]
  · intro k hk
    rw [h.refcountOf, Function.update_of_ne hk]
  · intro n hn
    rw [h.refcountOf, Function.update_self] at hn
    exact (Option.some.inj hn).symm

/-- Removing a row that nobody holds. -/
theorem Removes.safe (h : Removes key s s') (hc : ClaimsSound s)
    (hkey : holderCount s key = 0) : Safe s s' := by
  refine safe_of_unheld hc hkey h.holders h.nextRef ?_ ?_ ?_ fun k hk => (h.deleted k hk).mp
  · intro k hk
    rw [h.stamp, Function.update_of_ne hk]
  · intro k hk
    rw [h.refcountOf, Function.update_of_ne hk]
  · intro n hn
    rw [h.refcountOf, Function.update_self] at hn
    cases hn

/-- Reserving a key that nobody holds. -/
theorem Reserves.safe (h : Reserves key s s') (hc : ClaimsSound s)
    (hkey : holderCount s key = 0) : Safe s s' := by
  refine safe_of_unheld hc hkey h.holders h.nextRef ?_ ?_ ?_ fun k _ => (h.deleted k).mp
  · intro k hk
    rw [h.stamp, Function.update_of_ne hk]
  · intro k hk
    rw [h.refcountOf, Function.update_of_ne hk]
  · intro n hn
    rw [h.refcountOf, Function.update_self] at hn
    exact (Option.some.inj hn).symm

/-- An evicted row has refcount zero, so nobody holds it. -/
theorem Evicts.safe {lruKey : LruKey} (h : Evicts key lruKey s s') (hc : ClaimsSound s) :
    Safe s s' := by
  obtain ⟨row, hrow, -, hzero⟩ := h.row
  have hkey : holderCount s key = 0 := by
    have href : refcountOf s.metaTbl key = some row.refcount := by simp [refcountOf, hrow]
    rw [← hc.counts key row.refcount href, hzero]
  refine safe_of_unheld hc hkey h.holders h.nextRef ?_ ?_ ?_ fun k hk => (h.deleted k hk).mp
  · intro k hk
    rw [h.metaTbl, stamp_erase, Function.update_of_ne hk]
  · intro k hk
    rw [h.metaTbl, refcountOf_erase, Function.update_of_ne hk]
  · intro n hn
    rw [h.metaTbl, refcountOf_erase, Function.update_self] at hn
    cases hn

/-! ### Claims come and go -/

/-- The refcount of a row is the number of its holders. -/
theorem ClaimsSound.refcountOf_eq (hc : ClaimsSound s) {row : Row}
    (hrow : s.metaTbl.lookup key = some row) : row.refcount = holderCount s key :=
  hc.counts key row.refcount (by simp [refcountOf, hrow])

/-- **Checkout** counts the new holder. -/
theorem doCheckout_safe (env : Env) (pid : Pid) (frm : From) {row : Row} (hc : ClaimsSound s)
    (hrow : s.metaTbl.lookup key = some row) (hav : row.status = .available) :
    Safe s (doCheckout env key pid row frm s) := by
  obtain ⟨hstamp, href, -, hholders, hnext, hdel⟩ :=
    doCheckout_readings env s key frm pid row hav
  generalize doCheckout env key pid row frm s = s' at *
  have hfresh : s.holders.lookup s.nextRef = none := hc.fresh s.nextRef le_rfl
  have hcount : ∀ k, holderCount s' k = holderCount s k + if key = k then 1 else 0 := by
    intro k
    rw [holderCount, hholders, AList.countValues_insert_of_lookup_none hfresh, holderCount]
    simp
  have hkeep := keeps_of_stamp_some hstamp
  have hkey : Available s' key := by
    rw [available_iff, hstamp, Function.update_self]
    rfl
  refine ⟨⟨?_, ?_, ?_⟩, fun k hk => ⟨hkeep k (hc.held k hk), (hdel k).mp⟩⟩
  · intro k n hn
    rw [href] at hn
    rw [hcount]
    by_cases hk : k = key
    · subst hk
      rw [Function.update_self] at hn
      rw [if_pos rfl, ← hc.refcountOf_eq hrow, ← Option.some.inj hn]
    · rw [Function.update_of_ne hk] at hn
      rw [if_neg (Ne.symm hk)]
      exact hc.counts k n hn
  · intro k hk
    by_cases hne : k = key
    · rwa [hne]
    · rw [hcount, if_neg (Ne.symm hne)] at hk
      exact hkeep k (hc.held k hk)
  · intro ref hlt
    have hlt' : s.nextRef < ref := by rwa [hnext] at hlt
    rw [hholders, AList.lookup_insert_ne hlt'.ne']
    exact hc.fresh ref hlt'.le

/-- **Release** of a claim, by a checkin or the holder's death, takes one from the count. -/
theorem release_safe {ref : Ref} {pid : Pid} (hc : ClaimsSound s)
    (hh : s.holders.lookup ref = some (pid, key)) :
    Safe s (decrementRefcount key { s with holders := s.holders.erase ref }) := by
  set s1 : State := { s with holders := s.holders.erase ref } with hs1
  have hcount : ∀ k, holderCount s k = holderCount s1 k + if key = k then 1 else 0 := by
    intro k
    rw [holderCount, AList.countValues_erase_of_lookup_some hh, holderCount]
    simp [hs1]
  have hstamp : stamp (decrementRefcount key s1).metaTbl = stamp s.metaTbl :=
    stamp_decrementRefcount s1 key
  have href := refcountOf_decrementRefcount s1 key
  have hav : ∀ k, 0 < holderCount s k → Available (decrementRefcount key s1) k := fun k hk =>
    keeps_of_stamp_eq hstamp k (hc.held k hk)
  refine ⟨⟨?_, ?_, ?_⟩, fun k hk => ⟨hav k hk, id⟩⟩
  · intro k n hn
    show n = holderCount s1 k
    rw [href] at hn
    have hk := hcount k
    by_cases hne : k = key
    · subst hne
      rw [Function.update_self] at hn
      obtain ⟨m, hm, rfl⟩ := Option.map_eq_some_iff.mp hn
      rw [if_pos rfl] at hk
      have := hc.counts k m hm
      omega
    · rw [Function.update_of_ne hne] at hn
      rw [if_neg (Ne.symm hne)] at hk
      have := hc.counts k n hn
      omega
  · intro k hk
    have hk' : 0 < holderCount s1 k := hk
    exact hav k (by have := hcount k; omega)
  · intro r hlt
    show (s.holders.erase ref).lookup r = none
    rw [AList.lookup_erase_ite]
    split
    · rfl
    · exact hc.fresh r hlt

/-! ### Eviction -/

/-- The eviction of one entry spares what is held. -/
theorem tryEvictOne_safe (env : Env) (lruKey : LruKey) (key : CacheKey)
    (liveKey : Option CacheKey) (mode : EvictMode) (hc : ClaimsSound s) :
    Safe s (tryEvictOne env lruKey key liveKey mode s).2 ∧
      (tryEvictOne env lruKey key liveKey mode s).2.holders = s.holders := by
  rcases tryEvictOne_cases env lruKey key liveKey mode s with
    ⟨-, heq⟩ | ⟨size, s', heq, hev⟩ | heq
  · rw [heq]
    refine ⟨⟨⟨hc.counts, hc.held, hc.fresh⟩, fun k hk => ⟨hc.held k hk, id⟩⟩, rfl⟩
  · rw [heq]
    exact ⟨hev.safe hc, hev.holders⟩
  · rw [heq]
    exact ⟨Safe.refl hc, rfl⟩

/-- **The full pass** takes unheld rows only. -/
theorem runEvictionFrom_safe (liveKey : Option CacheKey) :
    ∀ (fuel : Nat) (cur : Option LruKey) (n : Nat) (s : State), ClaimsSound s →
      Safe s (runEvictionFrom env fuel cur liveKey n s).2 := by
  intro fuel
  induction fuel with
  | zero => exact fun _ _ _ hc => Safe.refl hc
  | succ fuel ih =>
    intro cur n s hc
    cases cur with
    | none => exact Safe.refl hc
    | some lruKey =>
      obtain ⟨hsafe, hholders⟩ :=
        tryEvictOne_safe env lruKey (ofLex lruKey).2 liveKey .protect hc
      unfold runEvictionFrom
      dsimp only
      split <;> rename_i heq <;> rw [heq] at hsafe hholders
      · exact hsafe.trans hholders (ih _ _ _ hsafe.claims)
      · exact hsafe.trans hholders (ih _ _ _ hsafe.claims)

/-- **The byte-targeted pass** takes unheld rows only. -/
theorem evictSorted_safe (target : Nat) :
    ∀ (cs : List Candidate) (n bytes : Nat) (s : State), ClaimsSound s →
      Safe s (evictSorted env cs target n bytes s).2 := by
  intro cs
  induction cs with
  | nil => exact fun _ _ _ hc => Safe.refl hc
  | cons c cs ih =>
    intro n bytes s hc
    obtain ⟨hsafe, hholders⟩ := tryEvictOne_safe env c.lruKey c.key none .allow hc
    unfold evictSorted
    split
    · exact Safe.refl hc
    · split <;> rename_i heq <;> rw [heq] at hsafe hholders
      · exact hsafe.trans hholders (ih _ _ _ hsafe.claims)
      · exact hsafe.trans hholders (ih _ _ _ hsafe.claims)

/-! ### Cleanups -/

/-- Cleaning up after a writer whose key nobody holds. -/
theorem cleanupByStage_safe (r : Reservation) (hc : ClaimsSound s)
    (hkey : holderCount s key = 0) : Safe s (cleanupByStage deps env key r s) := by
  by_cases h : Adopts deps env key r s
  · exact (cleanupByStage_installs h).safe hc hkey
  · exact (cleanupByStage_removes h).safe hc hkey

/-- Cleaning up after several. -/
theorem foldl_cleanup_safe {l : List (CacheKey × Reservation)} (hc : ClaimsSound s)
    (hl : ∀ k ∈ l.map Prod.fst, holderCount s k = 0) :
    Safe s (l.foldl (fun s e => cleanupByStage deps env e.1 e.2 s) s) := by
  induction l generalizing s with
  | nil => exact Safe.refl hc
  | cons e l ih =>
    have hholders := (cleanupByStage_frame deps env s e.1 e.2).2.1
    have hsafe : Safe s (cleanupByStage deps env e.1 e.2 s) :=
      cleanupByStage_safe e.2 hc (hl e.1 List.mem_cons_self)
    refine hsafe.trans hholders (ih hsafe.claims fun k hk => ?_)
    rw [holderCount, hholders]
    exact hl k (List.mem_cons_of_mem e.1 hk)

/-- The refcount column of a key is gone or back at zero. -/
def Rewritten (key : CacheKey) (s : State) : Prop :=
  refcountOf s.metaTbl key = none ∨ refcountOf s.metaTbl key = some 0

/-- Cleaning up after a writer changes its key alone. -/
theorem cleanupByStage_rewritten (r : Reservation) :
    Rewritten key (cleanupByStage deps env key r s) := by
  by_cases h : Adopts deps env key r s
  · exact Or.inr (by rw [(cleanupByStage_installs h).refcountOf, Function.update_self])
  · exact Or.inl (by rw [(cleanupByStage_removes h).refcountOf, Function.update_self])

/-- Cleaning up after several changes their keys alone. -/
theorem foldl_cleanup_rewritten (deps : Deps) (env : Env) (s : State)
    {l : List (CacheKey × Reservation)} (hl : (l.map Prod.fst).Nodup) :
    (∀ k ∉ l.map Prod.fst, refcountOf (l.foldl (fun s e => cleanupByStage deps env e.1 e.2 s)
        s).metaTbl k = refcountOf s.metaTbl k) ∧
      (∀ k ∈ l.map Prod.fst,
        Rewritten k (l.foldl (fun s e => cleanupByStage deps env e.1 e.2 s) s)) ∧
      (l.foldl (fun s e => cleanupByStage deps env e.1 e.2 s) s).holders = s.holders := by
  induction l generalizing s with
  | nil => exact ⟨fun _ _ => rfl, fun k hk => absurd hk List.not_mem_nil, rfl⟩
  | cons e l ih =>
    rw [List.map_cons, List.nodup_cons] at hl
    obtain ⟨hframe, hholders, -⟩ := cleanupByStage_frame deps env s e.1 e.2
    obtain ⟨hout, hin, hfold⟩ := ih (cleanupByStage deps env e.1 e.2 s) hl.2
    rw [List.foldl_cons, List.map_cons]
    refine ⟨fun k hk => ?_, fun k hk => ?_, hfold.trans hholders⟩
    · rw [List.mem_cons, not_or] at hk
      rw [hout k hk.2, (hframe k hk.1).2.1]
    · rcases List.mem_cons.mp hk with rfl | hk
      · unfold Rewritten
        rw [hout _ hl.1]
        exact cleanupByStage_rewritten e.2
      · exact hin k hk

/-! ### One message -/

/-- A held key whose row was rewritten or deleted contradicts the claims. -/
theorem not_keeps_of_rewritten (hkey : 0 < holderCount s key)
    (hholders : s'.holders = s.holders) (hrew : Rewritten key s') :
    ¬ (RefcountsCount s' ∧
      ∀ k, 0 < holderCount s k → (refcountOf s'.metaTbl k).isSome ∧ ¬ Deleted s' k) := by
  rintro ⟨hcounts, hheld⟩
  rcases hrew with h | h
  · have := (hheld key hkey).1
    rw [h] at this
    cases this
  · have := hcounts key 0 h
    rw [holderCount, hholders] at this
    exact absurd this.symm (Nat.pos_iff_ne_zero.mp hkey)

/-- **One message** that touches no held key keeps the claims sound and the held rows. -/
theorem step_safe (s : State) (e : Event) (hc : ClaimsSound s) (hno : ¬ TouchesHeld s e) :
    Safe s.startCallback (step deps s e) := by
  obtain ⟨env, frm, msg⟩ := e
  set s0 := s.startCallback with hs0
  have hc0 : ClaimsSound s0 := ⟨hc.counts, hc.held, hc.fresh⟩
  -- a reply after a safe change is safe
  have hreply : ∀ {s' : State} (r : Reply), Safe s0 s' → Safe s0 (s'.emit (.reply frm r)) :=
    fun r h => ⟨⟨h.claims.counts, h.claims.held, h.claims.fresh⟩, fun k hk =>
      ⟨(h.held k hk).1, fun hd => (h.held k hk).2 (deleted_emit_reply.mp hd)⟩⟩
  have hzero : ∀ {k}, ¬ 0 < holderCount s k → holderCount s0 k = 0 := fun h =>
    Nat.eq_zero_of_not_pos h
  cases msg with
  | checkout key pid =>
    -- A checkout adds a holder to a row that is available.
    rcases handleCheckout_cases env s0 key frm pid with h | ⟨row, hrow, hav, heq⟩
    · exact h.safe hc0
    · show Safe s0 (handleCheckout env key pid frm s0)
      rw [heq]
      exact doCheckout_safe env pid frm hc0 hrow hav
  | checkin monRef =>
    rcases handleCheckin_cases s0 frm monRef with ⟨-, h⟩ | ⟨pid, k, hh, heq⟩
    · exact h.safe hc0
    · show Safe s0 (handleCheckin monRef frm s0)
      rw [heq]
      exact hreply .ok (release_safe hc0 hh)
  | lookupOrWait key ms => exact (handleLookupOrWait_same env s0 key frm ms).safe hc0
  | reserveSave key tier pid =>
    -- A reservation replaces the row of its key.
    rcases doReserveSave_cases deps env s0 key frm tier pid with
      ⟨h, -⟩ | ⟨hnav, s1, hres, hpre⟩
    · exact h.safe hc0
    · -- a key without an available row has no holders
      have hkey : holderCount s0 key = 0 := Nat.eq_zero_of_not_pos fun h => hnav (hc0.held key h)
      have hsafe : Safe s0 s1 ∧ s1.holders = s0.holders := by
        rcases hpre with ⟨-, h⟩ | ⟨-, h | h⟩
        · exact ⟨h.safe hc0 hkey, h.holders⟩
        · exact ⟨h.safe hc0, h.holders⟩
        · exact ⟨h.safe hc0 hkey, h.holders⟩
      have hkey1 : holderCount s1 key = 0 := by rwa [holderCount, hsafe.2]
      exact hsafe.1.trans hsafe.2 (hres.safe hsafe.1.claims hkey1)
  | checkReservation key token =>
    exact (handleCheckReservation_same env s0 key frm token).safe hc0
  | markPublished key token path =>
    exact (handleMarkPublished_same env s0 key frm token path).safe hc0
  | announceSaved key token size header tokensBin textBytes =>
    -- These install or delete a row: the hypothesis says that nobody holds it.
    rcases handleAnnounceSaved_cases env s0 key frm token size header tokensBin
      textBytes with ⟨-, h⟩ | ⟨hsome, h⟩
    · exact h.safe hc0
    · exact h.safe hc0 (hzero fun hk => hno ⟨hsome, hk⟩)
  | cancelReservation key token =>
    rcases handleCancelReservation_cases s0 key frm token with ⟨-, h⟩ | ⟨hsome, h⟩
    · exact h.safe hc0
    · exact h.safe hc0 (hzero fun hk => hno ⟨hsome, hk⟩)
  | insertAvailable key tier size header loc tokensBin textBytes =>
    exact (handleInsertAvailable_installs env s0 key frm tier size header loc tokensBin
      textBytes).safe hc0 (hzero hno)
  | pinRow ns key => exact ((doPinRow_same s0 key ns).emit_reply frm _).safe hc0
  -- The evictions skip the rows that are held.
  | gc => exact hreply _ (runEvictionFrom_safe s0.liveKey _ _ 0 s0 hc0)
  | evictBytes target tiers =>
    simp only [step]
    split
    · exact hreply _ (Safe.refl hc0)
    · have hc1 : ClaimsSound s0.readClock := ⟨hc0.counts, hc0.held, hc0.fresh⟩
      have hsafe : Safe s0.readClock (runEvictionBytes deps env target tiers s0.liveKey s0).2 :=
        evictSorted_safe target _ 0 0 s0.readClock hc1
      exact hreply _ ⟨hsafe.claims, hsafe.held⟩
  | setLiveKey key =>
    exact SameReadings.safe ⟨rfl, rfl, rfl, rfl, fun _ => Iff.rfl, le_rfl⟩ hc0
  | down ref =>
    show Safe s0 (handleDown deps env ref s0)
    -- A holder's death releases its row; a writer's death may delete one.
    rcases handleDown_cases deps env s0 ref with
      ⟨pid, k, hh, heq⟩ | ⟨hh, ⟨-, heq⟩ | ⟨k, r, hf, heq⟩⟩
    · rw [heq]
      exact release_safe hc0 hh
    · rw [heq]
      exact Safe.refl hc0
    · rw [heq]
      exact cleanupByStage_safe r hc0 (hzero fun hk => hno ⟨hh, k, r, hf, hk⟩)
  | waiterExpire key frm' => exact (expireWaiter_same s0 key frm').safe hc0
  | sweep =>
    have hc1 : ClaimsSound s0.readClock := ⟨hc0.counts, hc0.held, hc0.fresh⟩
    have hsafe : Safe s0.readClock (sweepReservations deps env s0) :=
      foldl_cleanup_safe hc1 fun k hk => hzero fun hpos => hno ⟨k, hk, hpos⟩
    exact ⟨hsafe.claims, hsafe.held⟩
  | filesChange files =>
    exact SameReadings.safe ⟨rfl, rfl, rfl, rfl, fun _ => Iff.rfl, le_rfl⟩ hc0

/-- **One message** that touches a held key breaks the claims. -/
theorem not_keepsClaims_of_touchesHeld {s : State} {e : Event} (h : TouchesHeld s e) :
    ¬ KeepsClaims deps s e := by
  obtain ⟨env, frm, msg⟩ := e
  have hinst : ∀ {key} {s' : State}, 0 < holderCount s key → Installs key s.startCallback s' →
      ¬ (RefcountsCount s' ∧
        ∀ k, 0 < holderCount s k → (refcountOf s'.metaTbl k).isSome ∧ ¬ Deleted s' k) :=
    fun hkey hi => not_keeps_of_rewritten hkey hi.holders
      (Or.inr (by rw [hi.refcountOf, Function.update_self]))
  cases msg with
  | insertAvailable key tier size header loc tokensBin textBytes =>
    exact hinst h (handleInsertAvailable_installs env s.startCallback key frm tier size header loc
      tokensBin textBytes)
  | announceSaved key token size header tokensBin textBytes =>
    rcases handleAnnounceSaved_cases env s.startCallback key frm token size header tokensBin
      textBytes with ⟨hnone, -⟩ | ⟨-, hi⟩
    · have hsome := h.1
      rw [show s.reservationWith key token = none from hnone] at hsome
      cases hsome
    · exact hinst h.2 hi
  | cancelReservation key token =>
    rcases handleCancelReservation_cases s.startCallback key frm token with ⟨hnone, -⟩ | ⟨-, hr⟩
    · have hsome := h.1
      rw [show s.reservationWith key token = none from hnone] at hsome
      cases hsome
    · have hrew : Rewritten key (handleCancelReservation key token frm s.startCallback) :=
        Or.inl (by rw [hr.refcountOf, Function.update_self])
      exact not_keeps_of_rewritten h.2 hr.holders hrew
  | down ref =>
    obtain ⟨hh, key, r, hf, hkey⟩ := h
    rcases handleDown_cases deps env s.startCallback ref with
      ⟨pid, k, hh', -⟩ | ⟨-, ⟨hf', -⟩ | ⟨k, r', hf', heq⟩⟩
    · cases hh.symm.trans hh'
    · cases hf.symm.trans hf'
    · obtain ⟨rfl, rfl⟩ := Prod.mk.inj (Option.some.inj (hf.symm.trans hf'))
      have hstep : step deps s ⟨env, frm, .down ref⟩ =
          cleanupByStage deps env key r s.startCallback := heq
      unfold KeepsClaims
      rw [hstep]
      exact not_keeps_of_rewritten hkey (cleanupByStage_frame deps env s.startCallback key r).2.1
        (cleanupByStage_rewritten r)
  | sweep =>
    obtain ⟨key, hmem, hkey⟩ := h
    obtain ⟨-, hrew, hholders⟩ := foldl_cleanup_rewritten deps env s.startCallback.readClock
      (staleReservations_keys_nodup env (env.monotonicNs s.reads) s.reservations)
    exact not_keeps_of_rewritten hkey hholders (hrew key hmem)
  | checkout _ _ | checkin _ | lookupOrWait _ _ | reserveSave _ _ _ | checkReservation _ _
  | markPublished _ _ _ | pinRow _ _ | gc | evictBytes _ _ | setLiveKey _ | waiterExpire _ _
  | filesChange _ => exact h.elim

/-- **One message** keeps the claims iff it touches no held key. -/
theorem keepsClaims_iff (s : State) (e : Event) (hc : ClaimsSound s) :
    KeepsClaims deps s e ↔ ¬ TouchesHeld s e := by
  constructor
  · exact fun hkeep htouch => not_keepsClaims_of_touchesHeld htouch hkeep
  · intro hno
    have hsafe : Safe s.startCallback (step deps s e) := step_safe s e hc hno
    refine ⟨hsafe.claims.counts, fun key hkey => ⟨?_, ?_⟩⟩
    · obtain ⟨row, hrow, -⟩ := Option.map_eq_some_iff.mp (hsafe.held key hkey).1
      simp [refcountOf, hrow]
    · rintro hdel
      obtain ⟨o, ho, -⟩ := (hsafe.held key hkey).2 hdel
      exact List.not_mem_nil ho

/-! ### Whole runs -/

/-- At the start nobody holds anything. -/
theorem claimsSound_init (files : Files) : ClaimsSound (State.init files) where
  counts _ _ h := by cases h
  held _ h := absurd h (Nat.lt_irrefl 0)
  fresh _ _ := rfl

/-- **Refcounts count holders and held rows stay, exactly as long as no held row is
    rewritten.** Every step of a run keeps the claims iff no step inserts a held key again,
    or announces, cancels or cleans up a reservation of one. -/
theorem run_keepsClaims_iff (files : Files) (es : List Event) :
    AllSteps (step deps) (KeepsClaims deps) (State.init files) es ↔
      AllSteps (step deps) (fun s e => ¬ TouchesHeld s e) (State.init files) es := by
  have hkeep : ∀ s e, ClaimsSound s → KeepsClaims deps s e → ClaimsSound (step deps s e) :=
    fun s e hc h => (step_safe s e hc ((keepsClaims_iff s e hc).mp h)).claims
  exact allSteps_iff hkeep keepsClaims_iff (claimsSound_init files)

/-- A RAM row is put, checked out by process `7`, and put again under its key. -/
def reinsertHeld : List Event :=
  [⟨steadyEnv, 1, .insertAvailable (.fill 1) .ram 5 [] .ram none 0⟩,
   ⟨steadyEnv, 2, .checkout (.fill 1) 7⟩,
   ⟨steadyEnv, 1, .insertAvailable (.fill 1) .ram 5 [] .ram none 0⟩]

/-- The second put sets the refcount of the held row back to zero. -/
theorem reinsertHeld_loses_count :
    ¬ AllSteps (step noFileDeps) (KeepsClaims noFileDeps) (State.init fun _ => none)
      reinsertHeld := by
  rintro ⟨-, -, ⟨hcounts, -⟩, -⟩
  have hzero := hcounts (.fill 1) 0 (by decide)
  revert hzero
  decide

end Erllama.MetaSrv
