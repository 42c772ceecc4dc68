import Erllama.MetaSrv.Availability

namespace Erllama.MetaSrv

open Lib

/-!
# The LRU table mirrors the available rows

`erllama_cache_lru` should hold `{LastUsed, Key}` for the available rows and nothing else:
`LruMirrors` says it is the index of `stamp`.  Installing, checking out and evicting keep it
so.  Two kinds of step leave an entry behind:

* a cleanup that deletes an available row without touching the LRU table;
* a reservation that finds a stale one with a valid linked file, adopts the file, and then
  writes its placeholder over the adopted row.

`lruMirrors_step_iff` says these are the only ones.
-/

variable {deps : Deps} {env : Env} {s s' : State} {key : CacheKey}

/-- The LRU table holds `{LastUsed, Key}` for the available rows, one entry per row. -/
def LruMirrors (s : State) : Prop := Indexes (stamp s.metaTbl) s.lru

variable (deps) in
/-- The message leaves an LRU entry behind. -/
def LeaksLruEntry (s : State) (e : Event) : Prop :=
  LosesRow deps s e ∨
    match e.msg with
    | .reserveSave key _ _ => OverwritesAdopted deps e.env key s
    | _                    => False

/-! ### The mirror under each way to change rows -/

/-- A row has no stamp iff it is not available. -/
theorem stamp_eq_none_iff : stamp s.metaTbl key = none ↔ ¬ Available s key := by
  rw [available_iff, Option.not_isSome_iff_eq_none]

/-- A message changes no table. -/
theorem LruMirrors.emit (h : LruMirrors s) (o : Out) : LruMirrors (s.emit o) := h

/-- A function that keeps the readings. -/
theorem SameReadings.mirrors (h : SameReadings s s') (hm : LruMirrors s) : LruMirrors s' := by
  unfold LruMirrors
  rwa [h.stamp, h.lru]

/-- The stamp of a row that is in the table, if it has one, is its `LastUsed`. -/
theorem stamp_of_lookup {row : Row} (h : s.metaTbl.lookup key = some row) :
    stamp s.metaTbl key = none ∨ stamp s.metaTbl key = some row.lastUsed := by
  simp only [stamp, h, Option.bind_some, rowStamp]
  split
  · exact Or.inr rfl
  · exact Or.inl rfl

/-- Installing a row. -/
theorem Installs.mirrors (h : Installs key s s') (hm : LruMirrors s) : LruMirrors s' := by
  obtain ⟨t, hstamp, hlru⟩ := h.stamp
  unfold LruMirrors
  rw [hstamp, hlru, lruWithout]
  cases hrow : s.metaTbl.lookup key with
  | none =>
    have hnone : MetaSrv.stamp s.metaTbl key = none := by simp [MetaSrv.stamp, hrow]
    exact Indexes.insert hm hnone
  | some row => exact Indexes.move hm (stamp_of_lookup hrow)

/-- Clearing the stamp of a key beside an unchanged LRU table keeps the mirror iff the key
    had no available row. -/
theorem mirrors_iff_of_cleared
    (hstamp : stamp s'.metaTbl = Function.update (stamp s.metaTbl) key none)
    (hlru : s'.lru = s.lru) (hm : LruMirrors s) : LruMirrors s' ↔ ¬ Available s key := by
  have hnone : stamp s'.metaTbl key = none := by rw [hstamp, Function.update_self]
  constructor
  · intro hm' hav
    unfold LruMirrors at hm'
    rw [hlru] at hm'
    exact Indexes.not_of_leak hm (available_iff.mp hav) hnone hm'
  · intro hnav
    have hsame : stamp s'.metaTbl = stamp s.metaTbl := by
      rw [hstamp, ← stamp_eq_none_iff.mpr hnav, Function.update_eq_self]
    unfold LruMirrors
    rwa [hsame, hlru]

/-- Removing a row keeps the mirror iff it was not available. -/
theorem Removes.mirrors_iff (h : Removes key s s') (hm : LruMirrors s) :
    LruMirrors s' ↔ ¬ Available s key :=
  mirrors_iff_of_cleared h.stamp h.lru hm

/-- Reserving a key keeps the mirror iff no row was available. -/
theorem Reserves.mirrors_iff (h : Reserves key s s') (hm : LruMirrors s) :
    LruMirrors s' ↔ ¬ Available s key :=
  mirrors_iff_of_cleared h.stamp h.lru hm

/-- Evicting a row with its own LRU entry keeps the mirror. -/
theorem Evicts.mirrors {lruKey : LruKey} (h : Evicts key lruKey s s') (hm : LruMirrors s)
    (hkey : ∀ row, s.metaTbl.lookup key = some row → lruKey = toLex (row.lastUsed, key)) :
    LruMirrors s' := by
  obtain ⟨row, hrow, hav, -⟩ := h.row
  have hstamp : stamp s.metaTbl key = some row.lastUsed := by
    simp [stamp, hrow, rowStamp, hav]
  unfold LruMirrors
  rw [h.metaTbl, h.lru, stamp_erase, hkey row hrow]
  exact Indexes.erase hm hstamp

/-- **One eviction attempt** keeps the mirror when the LRU key it is given belongs to the
    key, and is the entry of its row if there is one. -/
theorem tryEvictOne_mirrors (env : Env) {lruKey : LruKey} (liveKey : Option CacheKey)
    (mode : EvictMode) (hm : LruMirrors s) (hown : (ofLex lruKey).2 = key)
    (hkey : ∀ row, s.metaTbl.lookup key = some row → lruKey = toLex (row.lastUsed, key)) :
    LruMirrors (tryEvictOne env lruKey key liveKey mode s).2 := by
  rcases tryEvictOne_cases env lruKey key liveKey mode s with
    ⟨hnone, heq⟩ | ⟨size, s', heq, hev⟩ | heq
  · rw [heq]
    have hstamp : stamp s.metaTbl key = none := by simp [stamp, hnone]
    have hlru : lruKey = toLex ((ofLex lruKey).1, key) := by rw [← hown]; rfl
    show Indexes (stamp s.metaTbl) (s.lru.erase lruKey)
    rw [hlru, Indexes.erase_of_none hm hstamp]
    exact hm
  · rw [heq]
    exact hev.mirrors hm hkey
  · rw [heq]
    exact hm

/-! ### The two eviction passes -/

/-- An LRU entry is the entry of its key's row. -/
theorem LruMirrors.lruKey_eq (hm : LruMirrors s) {lruKey : LruKey} (hmem : lruKey ∈ s.lru)
    {row : Row} (hrow : s.metaTbl.lookup (ofLex lruKey).2 = some row) :
    lruKey = toLex (row.lastUsed, (ofLex lruKey).2) := by
  have hstamp := (hm (ofLex lruKey).1 (ofLex lruKey).2).mp hmem
  rcases stamp_of_lookup hrow with h | h
  · rw [h] at hstamp
    cases hstamp
  · rw [h] at hstamp
    rw [Option.some.inj hstamp]
    rfl

/-- **The full pass.** The walk keeps the mirror: the entry it stands on is in the table,
    and only that entry leaves before it moves on. -/
theorem runEvictionFrom_mirrors (liveKey : Option CacheKey) :
    ∀ (fuel : Nat) (cur : Option LruKey) (n : Nat) (s : State), LruMirrors s →
      (∀ k, cur = some k → k ∈ s.lru) →
      LruMirrors (runEvictionFrom env fuel cur liveKey n s).2 := by
  intro fuel
  induction fuel with
  | zero => exact fun _ _ _ hm _ => hm
  | succ fuel ih =>
    intro cur n s hm hcur
    cases cur with
    | none => exact hm
    | some lruKey =>
      have hmem := hcur lruKey rfl
      have hm' := tryEvictOne_mirrors env liveKey .protect hm rfl
        fun row hrow => hm.lruKey_eq hmem hrow
      have hnext : ∀ k, lruNext s.lru lruKey = some k →
          k ∈ (tryEvictOne env lruKey (ofLex lruKey).2 liveKey .protect s).2.lru := by
        intro k hk
        obtain ⟨hkmem, hlt⟩ := lruNext_mem hk
        have herase : k ∈ s.lru.erase lruKey := Finset.mem_erase.mpr ⟨hlt.ne', hkmem⟩
        rcases tryEvictOne_cases env lruKey (ofLex lruKey).2 liveKey .protect s with
          ⟨-, heq⟩ | ⟨size, s', heq, hev⟩ | heq
        · rw [heq]; exact herase
        · rw [heq, hev.lru]; exact herase
        · rw [heq]; exact hkmem
      unfold runEvictionFrom
      dsimp only
      split
      · rename_i heq
        rw [heq] at hm' hnext
        exact ih _ _ _ hm' hnext
      · rename_i heq
        rw [heq] at hm' hnext
        exact ih _ _ _ hm' hnext

/-- The LRU key a candidate carries is the one of its row as long as the row is there. -/
def CandidatesMatch (cs : List Candidate) (s : State) : Prop :=
  ∀ c ∈ cs, (ofLex c.lruKey).2 = c.key ∧
    ∀ row, s.metaTbl.lookup c.key = some row → c.lruKey = toLex (row.lastUsed, c.key)

/-- **The byte-targeted pass** keeps the mirror: evicting one candidate only takes rows
    away, so the others still match theirs. -/
theorem evictSorted_mirrors (target : Nat) :
    ∀ (cs : List Candidate) (n bytes : Nat) (s : State), LruMirrors s → CandidatesMatch cs s →
      LruMirrors (evictSorted env cs target n bytes s).2 := by
  intro cs
  induction cs with
  | nil => exact fun _ _ _ hm _ => hm
  | cons c cs ih =>
    intro n bytes s hm hcs
    obtain ⟨hown, hkey⟩ := hcs c List.mem_cons_self
    have hm' := tryEvictOne_mirrors env none .allow hm hown hkey
    have hrest : CandidatesMatch cs (tryEvictOne env c.lruKey c.key none .allow s).2 := by
      intro c' hc'
      obtain ⟨hown', hkey'⟩ := hcs c' (List.mem_cons_of_mem c hc')
      refine ⟨hown', fun row hrow => hkey' row ?_⟩
      rcases tryEvictOne_cases env c.lruKey c.key none .allow s with
        ⟨-, heq⟩ | ⟨size, s', heq, hev⟩ | heq
      · rwa [heq] at hrow
      · rw [heq, hev.metaTbl, AList.lookup_erase_ite] at hrow
        split at hrow
        · cases hrow
        · exact hrow
      · rwa [heq] at hrow
    unfold evictSorted
    split
    · exact hm
    · split
      · rename_i heq
        rw [heq] at hm' hrest
        exact ih _ _ _ hm' hrest
      · rename_i heq
        rw [heq] at hm' hrest
        exact ih _ _ _ hm' hrest

/-- The candidates have the stamps of their rows. -/
theorem evictionCandidates_match (tiers : Option (List Tier)) (liveKey : Option CacheKey)
    (now : Int) (s : State) :
    CandidatesMatch ((evictionCandidates deps tiers liveKey now s).insertionSort
      fun a b => a.score ≤ b.score) s := by
  intro c hc
  have hc' := (List.perm_insertionSort _ _).mem_iff.mp hc
  simp only [evictionCandidates, List.mem_reverse, List.mem_map, List.mem_filter] at hc'
  obtain ⟨⟨k, row⟩, ⟨hmem, -⟩, rfl⟩ := hc'
  refine ⟨rfl, fun row' hrow' => ?_⟩
  have hrow := AList.mem_entries_iff.mp hmem
  rw [Option.some.inj (hrow'.symm.trans hrow)]

/-! ### Cleanups -/

/-- **One cleanup** keeps the mirror iff it loses no available row. -/
theorem cleanupByStage_mirrors_iff (r : Reservation) (hm : LruMirrors s) :
    LruMirrors (cleanupByStage deps env key r s) ↔ ¬ CleanupLoses deps env key r s := by
  by_cases h : Adopts deps env key r s
  · exact iff_of_true ((cleanupByStage_installs h).mirrors hm) fun hloses => hloses.2 h
  · rw [(cleanupByStage_removes h).mirrors_iff hm, CleanupLoses, not_and_not_right]
    exact ⟨fun hnot hav => absurd hav hnot, fun himp hav => h (himp hav)⟩

/-- An LRU entry whose key has no available row. -/
def StaleEntry (key : CacheKey) (s : State) : Prop :=
  stamp s.metaTbl key = none ∧ ∃ t, toLex (t, key) ∈ s.lru

/-- A stale entry is none. -/
theorem StaleEntry.not_mirrors (h : StaleEntry key s) : ¬ LruMirrors s := by
  intro hm
  obtain ⟨hnone, t, ht⟩ := h
  have hstamp := (hm t key).mp ht
  rw [hnone] at hstamp
  cases hstamp

/-- The cleanup of another key does not heal a stale entry. -/
theorem StaleEntry.cleanupByStage {k : CacheKey} (h : StaleEntry k s) (hk : k ≠ key)
    (r : Reservation) : StaleEntry k (cleanupByStage deps env key r s) := by
  obtain ⟨hnone, t, ht⟩ := h
  refine ⟨((cleanupByStage_frame _ _ _ _ r).1 k hk).1.trans hnone, t, ?_⟩
  by_cases had : Adopts deps env key r s
  · obtain ⟨u, -, hlru⟩ := (cleanupByStage_installs had).stamp
    rw [hlru]
    refine Finset.mem_insert_of_mem ?_
    unfold lruWithout
    split
    · refine Finset.mem_erase.mpr ⟨?_, ht⟩
      intro heq
      exact hk (congrArg Prod.snd (toLex.injective heq))
    · exact ht
  · rw [(cleanupByStage_removes had).lru]
    exact ht

/-- Cleaning up after other writers leaves it. -/
theorem StaleEntry.foldl_cleanup {k : CacheKey} {l : List (CacheKey × Reservation)}
    (hk : k ∉ l.map Prod.fst) (h : StaleEntry k s) :
    StaleEntry k (l.foldl (fun s e => MetaSrv.cleanupByStage deps env e.1 e.2 s) s) := by
  induction l generalizing s with
  | nil => exact h
  | cons e l ih =>
    rw [List.map_cons, List.mem_cons, not_or] at hk
    exact ih hk.2 (h.cleanupByStage hk.1 e.2)

/-- **A sweep** keeps the mirror iff none of its cleanups loses an available row. -/
theorem foldl_cleanup_mirrors_iff {l : List (CacheKey × Reservation)}
    (hl : (l.map Prod.fst).Nodup) (hm : LruMirrors s) :
    LruMirrors (l.foldl (fun s e => cleanupByStage deps env e.1 e.2 s) s) ↔
      ¬ SweepLoses deps env l s := by
  induction l generalizing s with
  | nil => exact iff_of_true hm id
  | cons e l ih =>
    obtain ⟨key, r⟩ := e
    rw [List.map_cons, List.nodup_cons] at hl
    by_cases hloses : CleanupLoses deps env key r s
    · -- the entry of the lost row stays behind, and the other keys' cleanups leave it there
      have hstale : StaleEntry key (cleanupByStage deps env key r s) := by
        have hrem := cleanupByStage_removes hloses.2
        obtain ⟨t, ht⟩ := Option.isSome_iff_exists.mp (available_iff.mp hloses.1)
        refine ⟨by rw [hrem.stamp, Function.update_self], t, ?_⟩
        rw [hrem.lru]
        exact (hm t key).mpr ht
      refine iff_of_false (hstale.foldl_cleanup hl.1).not_mirrors ?_
      exact not_not_intro (Or.inl hloses)
    · have hm' := (cleanupByStage_mirrors_iff r hm).mpr hloses
      rw [List.foldl_cons, ih hl.2 hm']
      simp only [SweepLoses, hloses, false_or]

/-! ### One message -/

/-- A checkout moves the entry of the row it takes out. -/
theorem handleCheckout_mirrors {s : State} (hm : LruMirrors s) (key : CacheKey) (pid : Pid)
    (frm : From) : LruMirrors (handleCheckout env key pid frm s) := by
  rcases handleCheckout_cases env s key frm pid with h | ⟨row, hrow, hav, heq⟩
  · exact h.mirrors hm
  · obtain ⟨hstamp, -, hlru, -⟩ := doCheckout_readings env s key frm pid row hav
    rw [← heq] at hstamp hlru
    show Indexes (stamp (handleCheckout env key pid frm s).metaTbl)
      (handleCheckout env key pid frm s).lru
    rw [hstamp, hlru]
    exact Indexes.move hm (stamp_of_lookup hrow)

/-- A reader that leaves changes no entry. -/
theorem decrementRefcount_mirrors {s : State} (hm : LruMirrors s) (key : CacheKey) (ref : Ref) :
    LruMirrors (decrementRefcount key { s with holders := s.holders.erase ref }) := by
  unfold LruMirrors
  rw [stamp_decrementRefcount]
  exact hm

/-- A `reserve_save` leaves an entry behind exactly when it adopts a stale file and overwrites
    its row. -/
theorem doReserveSave_mirrors_iff {s : State} (hm : LruMirrors s) (key : CacheKey) (tier : Tier)
    (pid : Pid) (frm : From) :
    LruMirrors (doReserveSave deps env key tier pid frm s) ↔
      ¬ OverwritesAdopted deps env key s := by
  rcases doReserveSave_cases deps env s key frm tier pid with
    ⟨h, hno⟩ | ⟨hnav, s1, hres, ⟨hover, hinst⟩ | ⟨hno, hpre⟩⟩
  · exact iff_of_true (h.mirrors hm) hno
  · -- the adopted row is available when the placeholder overwrites it
    have hav : Available s1 key := by
      obtain ⟨t, hstamp, -⟩ := hinst.stamp
      rw [available_iff, hstamp, Function.update_self]
      rfl
    exact iff_of_false
      (fun h => (hres.mirrors_iff (hinst.mirrors hm)).mp h hav) (not_not_intro hover)
  · refine iff_of_true ?_ hno
    rcases hpre with h | h
    · have hnav1 : ¬ Available s1 key := by
        rwa [available_iff, h.stamp, ← available_iff]
      exact (hres.mirrors_iff (h.mirrors hm)).mpr hnav1
    · have hnav1 : ¬ Available s1 key := by
        rw [available_iff, h.stamp, Function.update_self]
        simp
      exact (hres.mirrors_iff ((h.mirrors_iff hm).mpr hnav)).mpr hnav1

/-- The death of a process leaves an entry behind exactly when it was a writer whose cleanup
    loses an available row. -/
theorem handleDown_mirrors_iff {s : State} (hm : LruMirrors s) (ref : Ref) :
    LruMirrors (handleDown deps env ref s) ↔ ¬ (s.holders.lookup ref = none ∧
      ∃ key r, findReservationByMonref ref s.reservations = some (key, r) ∧
        CleanupLoses deps env key r s) := by
  rcases handleDown_cases deps env s ref with
    ⟨pid, k, hh, heq⟩ | ⟨hh, ⟨hf, heq⟩ | ⟨k, r, hf, heq⟩⟩
  · rw [heq]
    exact iff_of_true (decrementRefcount_mirrors hm k ref) (by simp [hh])
  · rw [heq]
    exact iff_of_true hm (by simp [hf])
  · rw [heq, cleanupByStage_mirrors_iff r hm]
    simp [hh, hf]

/-- **One message** keeps the mirror iff it does not leave an entry behind. -/
theorem lruMirrors_step_iff (s : State) (e : Event) (hm : LruMirrors s) :
    LruMirrors (step deps s e) ↔ ¬ LeaksLruEntry deps s e := by
  obtain ⟨env, frm, msg⟩ := e
  set s0 := s.startCallback with hs0
  have hm0 : LruMirrors s0 := hm
  have hsame : ∀ {s' : State}, SameReadings s0 s' → LruMirrors s' := fun h => h.mirrors hm0
  cases msg with
  -- These keep the mirror: they leak nothing, and both sides hold.
  | checkout key pid =>
    exact iff_of_true (handleCheckout_mirrors hm0 key pid frm) (by simp [LeaksLruEntry, LosesRow])
  | checkin monRef =>
    refine iff_of_true ?_ (by simp [LeaksLruEntry, LosesRow])
    rcases handleCheckin_cases s0 frm monRef with ⟨-, h⟩ | ⟨pid, k, -, heq⟩
    · exact hsame h
    · show LruMirrors (handleCheckin monRef frm s0)
      rw [heq]
      exact decrementRefcount_mirrors hm0 k monRef
  | lookupOrWait key ms =>
    exact iff_of_true (hsame (handleLookupOrWait_same env s0 key frm ms))
      (by simp [LeaksLruEntry, LosesRow])
  -- A reservation breaks the mirror exactly when it overwrites what it adopted.
  | reserveSave key tier pid =>
    have hleaks : LeaksLruEntry deps s ⟨env, frm, .reserveSave key tier pid⟩ ↔
        OverwritesAdopted deps env key s0 := by
      simp only [LeaksLruEntry, LosesRow, false_or]
      exact Iff.rfl
    rw [hleaks]
    exact doReserveSave_mirrors_iff hm0 key tier pid frm
  | checkReservation key token =>
    exact iff_of_true (hsame (handleCheckReservation_same env s0 key frm token))
      (by simp [LeaksLruEntry, LosesRow])
  | markPublished key token path =>
    exact iff_of_true (hsame (handleMarkPublished_same env s0 key frm token path))
      (by simp [LeaksLruEntry, LosesRow])
  | announceSaved key token size header tokensBin textBytes =>
    refine iff_of_true ?_ (by simp [LeaksLruEntry, LosesRow])
    rcases handleAnnounceSaved_cases env s0 key frm token size header tokensBin
      textBytes with ⟨-, h⟩ | ⟨-, h⟩
    · exact hsame h
    · exact h.mirrors hm0
  -- A cancel breaks it exactly when the key's row was available.
  | cancelReservation key token =>
    have hleaks : LeaksLruEntry deps s ⟨env, frm, .cancelReservation key token⟩ ↔
        (s0.reservationWith key token).isSome ∧ Available s0 key := by
      simp only [LeaksLruEntry, or_false]
      exact Iff.rfl
    rw [hleaks]
    rcases handleCancelReservation_cases s0 key frm token with ⟨hnone, h⟩ | ⟨hsome, h⟩
    · exact iff_of_true (hsame h) (by simp [hnone])
    · refine (h.mirrors_iff hm0).trans (not_congr ?_)
      exact ⟨fun hav => ⟨hsome, hav⟩, And.right⟩
  | insertAvailable key tier size header loc tokensBin textBytes =>
    exact iff_of_true ((handleInsertAvailable_installs env s0 key frm tier size header loc
      tokensBin textBytes).mirrors hm0) (by simp [LeaksLruEntry, LosesRow])
  | pinRow ns key =>
    exact iff_of_true (hsame ((doPinRow_same s0 key ns).emit_reply frm _))
      (by simp [LeaksLruEntry, LosesRow])
  -- The evictions walk the LRU table itself, and delete from both.
  | gc =>
    refine iff_of_true ?_ (by simp [LeaksLruEntry, LosesRow])
    have hstep : step deps s ⟨env, frm, .gc⟩ = (runEviction env s0.liveKey s0).2.emit
        (.reply frm (.evicted (runEviction env s0.liveKey s0).1)) := rfl
    have hevicted : LruMirrors (runEviction env s0.liveKey s0).2 :=
      runEvictionFrom_mirrors s0.liveKey _ _ 0 s0 hm0 fun k hk => lruFirst_mem hk
    rw [hstep]
    exact hevicted.emit _
  | evictBytes target tiers =>
    refine iff_of_true ?_ (by simp [LeaksLruEntry, LosesRow])
    simp only [step]
    split
    · exact hm0
    · exact evictSorted_mirrors target _ 0 0 _ hm0 (evictionCandidates_match tiers _ _ _)
  | setLiveKey key => exact iff_of_true hm0 (by simp [LeaksLruEntry, LosesRow])
  -- A death and the sweep break it through the cleanup of a reservation.
  | down ref =>
    have hleaks : LeaksLruEntry deps s ⟨env, frm, .down ref⟩ ↔ s0.holders.lookup ref = none ∧
        ∃ key r, findReservationByMonref ref s0.reservations = some (key, r) ∧
          CleanupLoses deps env key r s0 := by
      simp only [LeaksLruEntry, or_false]
      exact Iff.rfl
    rw [hleaks]
    exact handleDown_mirrors_iff hm0 ref
  | waiterExpire key frm' =>
    exact iff_of_true (hsame (expireWaiter_same s0 key frm')) (by simp [LeaksLruEntry, LosesRow])
  | sweep =>
    simp only [LeaksLruEntry, or_false]
    have hm1 : LruMirrors s0.readClock := hm0
    exact foldl_cleanup_mirrors_iff
      (staleReservations_keys_nodup env (env.monotonicNs s0.reads) s0.reservations) hm1
  | filesChange files => exact iff_of_true hm0 (by simp [LeaksLruEntry, LosesRow])

/-! ### Whole runs -/

/-- Both tables start empty. -/
theorem lruMirrors_init (files : Files) : LruMirrors (State.init files) :=
  Indexes.empty

/-- **The LRU table mirrors the available rows, exactly as long as no step leaks an entry.**
    Every state of a run is mirrored iff no step of the run loses an available row in a
    cleanup or overwrites a row it has just adopted. -/
theorem run_lruMirrors_iff (files : Files) (es : List Event) :
    (∀ pre, pre <+: es → LruMirrors (run (step deps) (State.init files) pre)) ↔
      AllSteps (step deps) (fun s e => ¬ LeaksLruEntry deps s e) (State.init files) es := by
  rw [forall_prefix_iff, and_iff_right (lruMirrors_init files)]
  have hkeep : ∀ s e, LruMirrors s → LruMirrors (step deps s e) → LruMirrors (step deps s e) :=
    fun _ _ _ h => h
  exact allSteps_iff hkeep lruMirrors_step_iff (lruMirrors_init files)

/-- The cancel of `cancelAfterInsert` leaves the LRU entry of the row it deletes. -/
theorem cancelAfterInsert_leaks :
    ¬ ∀ pre, pre <+: cancelAfterInsert →
      LruMirrors (run (step noFileDeps) (State.init fun _ => none) pre) := by
  intro h
  have hm := h cancelAfterInsert (List.prefix_refl _)
  have hmem : toLex ((1 : Int), Digest.fill 1) ∈
      (run (step noFileDeps) (State.init fun _ => none) cancelAfterInsert).lru := by decide
  have hstamp := (hm _ _).mp hmem
  revert hstamp
  decide

end Erllama.MetaSrv
