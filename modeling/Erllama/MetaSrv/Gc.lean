import Erllama.MetaSrv.EvictBytes

namespace Erllama.MetaSrv

open Lib

/-!
# A full collection is exact

`run_eviction/3` walks the ordered LRU table and deletes the entry it stands on, after it has
asked for the successor.  The table may hold entries whose row is gone, held, or stands under
another timestamp.

* `GcWalk` — the walk as the source writes it, with the entries it visits and no bound on
  their number.
* `runEvictionFrom_walk` — the bounded walk of the model is this walk: it terminates.
* `LruCovers` — every available row has its entry in the LRU table, over all histories; this
  is what the walk needs, also where stale entries remain.
* `gc_exact` — what is left after `gc`, from every reachable state.
-/

variable {deps : Deps} {env : Env} {liveKey : Option CacheKey}

/-- What a full collection drops: available rows that nobody holds and nothing protects. -/
def Collectable (c : KeyedRow) (liveKey : Option CacheKey) : Prop :=
  c.2.status = .available ∧ c.2.refcount = 0 ∧ ¬ Protected c liveKey

variable (env) in
/-- The walk from an entry to the end of the table: the entries visited, the number of rows
    evicted and the state it ends in. -/
inductive GcWalk (liveKey : Option CacheKey) :
    Option LruKey → State → List LruKey → Nat → State → Prop
  | finish (s : State) : GcWalk liveKey none s [] 0 s
  | visit (k : LruKey) (s : State) {ks : List LruKey} {n : Nat} {s' : State}
      (hrest : GcWalk liveKey (lruNext s.lru k)
        (tryEvictOne env k (ofLex k).2 liveKey .protect s).2 ks n s') :
      GcWalk liveKey (some k) s (k :: ks)
        ((tryEvictOne env k (ofLex k).2 liveKey .protect s).1.toList.length + n) s'

/-! ### One entry -/

variable (env liveKey) in
/-- One visit evicts the row of the entry's key if it is collectable, and changes no row
    otherwise; at most the entry itself leaves the LRU table. -/
theorem tryEvictOne_protect (k : LruKey) (s : State) :
    (∃ row size, s.metaTbl.lookup (ofLex k).2 = some row ∧
      Collectable ((ofLex k).2, row) liveKey ∧
      (tryEvictOne env k (ofLex k).2 liveKey .protect s).1 = some size ∧
      (tryEvictOne env k (ofLex k).2 liveKey .protect s).2.metaTbl =
        s.metaTbl.erase (ofLex k).2) ∨
    ((∀ row, s.metaTbl.lookup (ofLex k).2 = some row →
        ¬ Collectable ((ofLex k).2, row) liveKey) ∧
      (tryEvictOne env k (ofLex k).2 liveKey .protect s).1 = none ∧
      (tryEvictOne env k (ofLex k).2 liveKey .protect s).2.metaTbl = s.metaTbl) := by
  cases hrow : s.metaTbl.lookup (ofLex k).2 with
  | none =>
    right
    unfold tryEvictOne
    rw [hrow]
    exact ⟨fun row hr => absurd hr.symm (Option.some_ne_none row), rfl, rfl⟩
  | some row =>
    have hmode : evictableUnder .protect row (ofLex k).2 liveKey = true ↔
        ¬ Protected ((ofLex k).2, row) liveKey := by
      simp [evictableUnder, Protected]
    by_cases hcol : Collectable ((ofLex k).2, row) liveKey
    · left
      obtain ⟨hav, hfree, hunprot⟩ := hcol
      refine ⟨row, row.size, rfl, ⟨hav, hfree, hunprot⟩, ?_⟩
      rw [tryEvictOne_evicts k hrow hav hfree (hmode.mpr hunprot)]
      obtain ⟨hmeta, -⟩ := deleteFromTier_frame env row.tier (ofLex k).2 row.location s
      refine ⟨rfl, ?_⟩
      dsimp only
      rw [metaTbl_deleteRow, hmeta]
    · right
      refine ⟨fun r hr => Option.some.inj hr ▸ hcol, ?_⟩
      unfold tryEvictOne
      rw [hrow]
      dsimp only
      rw [if_neg fun h => hcol ⟨h.1, h.2.1, hmode.mp h.2.2⟩]
      exact ⟨rfl, rfl⟩

variable (env liveKey) in
/-- One eviction touches one entry of the LRU table. -/
theorem lru_tryEvictOne (k : LruKey) (mode : EvictMode) (s : State) (x : LruKey) (hx : x ≠ k) :
    x ∈ (tryEvictOne env k (ofLex k).2 liveKey mode s).2.lru ↔ x ∈ s.lru := by
  rcases tryEvictOne_cases env k (ofLex k).2 liveKey mode s with
    ⟨-, heq⟩ | ⟨size, s', heq, hev⟩ | heq
  · simp [heq, hx]
  · simp [heq, hev.lru, hx]
  · simp [heq]

/-! ### The order of the walk -/

/-- The entries from a cursor on. -/
def ahead (t : Finset LruKey) : Option LruKey → Finset LruKey
  | none   => ∅
  | some k => t.filter (k ≤ ·)

/-- There is no first entry iff the table is empty. -/
theorem lruFirst_eq_none_iff {t : Finset LruKey} : lruFirst t = none ↔ t = ∅ := by
  unfold lruFirst
  split
  · rename_i h
    exact iff_of_false nofun h.ne_empty
  · rename_i h
    exact iff_of_true rfl (Finset.not_nonempty_iff_eq_empty.mp h)

/-- The first entry is the least. -/
theorem lruFirst_le {t : Finset LruKey} {k : LruKey} (h : lruFirst t = some k) :
    ∀ x ∈ t, k ≤ x := by
  unfold lruFirst at h
  split at h
  · rw [← Option.some.inj h]
    exact fun x hx => Finset.min'_le t x hx
  · cases h

/-- Every entry is ahead of the first one. -/
theorem ahead_lruFirst (t : Finset LruKey) : ahead t (lruFirst t) = t := by
  cases h : lruFirst t with
  | none   => exact (lruFirst_eq_none_iff.mp h).symm
  | some k => exact Finset.filter_true_of_mem (lruFirst_le h)

/-- After a visit, what is ahead of the successor is what was ahead of the entry, without it:
    the successor was asked for before the entry left. -/
theorem ahead_lruNext {t t' : Finset LruKey} {k : LruKey} (ht : ∀ x, x ≠ k → (x ∈ t' ↔ x ∈ t)) :
    ahead t' (lruNext t k) = (ahead t (some k)).erase k := by
  ext x
  simp only [ahead, Finset.mem_erase, Finset.mem_filter]
  unfold lruNext
  cases h : lruFirst (t.filter (k < ·)) with
  | none =>
    have hempty := lruFirst_eq_none_iff.mp h
    refine iff_of_false (by simp) ?_
    rintro ⟨hne, hmem, hle⟩
    have hx : x ∈ t.filter (k < ·) := Finset.mem_filter.mpr ⟨hmem, lt_of_le_of_ne hle hne.symm⟩
    rw [hempty] at hx
    simp at hx
  | some k' =>
    obtain ⟨hk', hlt⟩ := Finset.mem_filter.mp (lruFirst_mem h)
    simp only [Finset.mem_filter]
    constructor
    · rintro ⟨hmem, hle⟩
      have hkx : k < x := hlt.trans_le hle
      exact ⟨hkx.ne', (ht x hkx.ne').mp hmem, hkx.le⟩
    · rintro ⟨hne, hmem, hle⟩
      have hkx : k < x := lt_of_le_of_ne hle hne.symm
      exact ⟨(ht x hne).mpr hmem, lruFirst_le h x (Finset.mem_filter.mpr ⟨hmem, hkx⟩)⟩

variable (env liveKey) in
/-- **The walk terminates.** With room for the entries ahead of the cursor the bounded walk
    reaches the end of the table. -/
theorem runEvictionFrom_walk (fuel : Nat) (cur : Option LruKey) (m : Nat) (s : State)
    (hcur : ∀ k, cur = some k → k ∈ s.lru) (hfuel : (ahead s.lru cur).card < fuel) :
    ∃ ks n, GcWalk env liveKey cur s ks n (runEvictionFrom env fuel cur liveKey m s).2 ∧
      (runEvictionFrom env fuel cur liveKey m s).1 = m + n := by
  induction fuel generalizing cur m s with
  | zero => exact absurd hfuel (Nat.not_lt_zero _)
  | succ fuel ih =>
    cases cur with
    | none => exact ⟨[], 0, .finish s, rfl⟩
    | some k =>
      have hk : k ∈ ahead s.lru (some k) := Finset.mem_filter.mpr ⟨hcur k rfl, le_rfl⟩
      set r := tryEvictOne env k (ofLex k).2 liveKey .protect s with hr
      have hlru : ∀ x, x ≠ k → (x ∈ r.2.lru ↔ x ∈ s.lru) := lru_tryEvictOne env liveKey k .protect s
      have hless : (ahead r.2.lru (lruNext s.lru k)).card < fuel := by
        rw [ahead_lruNext hlru, Finset.card_erase_of_mem hk]
        have hpos := Finset.card_pos.mpr ⟨k, hk⟩
        omega
      have hnext : ∀ k', lruNext s.lru k = some k' → k' ∈ r.2.lru := by
        intro k' hk'
        obtain ⟨hmem, hlt⟩ := lruNext_mem hk'
        exact (hlru k' hlt.ne').mpr hmem
      unfold runEvictionFrom
      dsimp only
      rw [← hr]
      cases hsize : r.1 with
      | none =>
        obtain ⟨ks, n, hwalk, hcount⟩ := ih (lruNext s.lru k) m r.2 hnext hless
        rw [show r = (none, r.2) from Prod.ext hsize rfl]
        refine ⟨k :: ks, r.1.toList.length + n, .visit k s hwalk, ?_⟩
        rw [hsize]
        simpa using hcount
      | some size =>
        obtain ⟨ks, n, hwalk, hcount⟩ := ih (lruNext s.lru k) (m + 1) r.2 hnext hless
        rw [show r = (some size, r.2) from Prod.ext hsize rfl]
        refine ⟨k :: ks, r.1.toList.length + n, .visit k s hwalk, ?_⟩
        rw [hsize]
        simpa [Nat.add_assoc] using hcount

/-- **The walk visits every entry once, in order.** -/
theorem GcWalk.visits {cur : Option LruKey} {s s' : State} {ks : List LruKey} {n : Nat}
    (h : GcWalk env liveKey cur s ks n s') (hcur : ∀ k, cur = some k → k ∈ s.lru) :
    ks.Pairwise (· < ·) ∧ ∀ x, x ∈ ks ↔ x ∈ ahead s.lru cur := by
  induction h with
  | finish s => exact ⟨.nil, fun x => by simp [ahead]⟩
  | visit k s hrest ih =>
    have hlru := lru_tryEvictOne env liveKey k .protect s
    obtain ⟨hsorted, hmem⟩ := ih fun k' hk' => by
      obtain ⟨hmem, hlt⟩ := lruNext_mem hk'
      exact (hlru k' hlt.ne').mpr hmem
    have hahead : ∀ x, x ∈ _ ↔ x ∈ (ahead s.lru (some k)).erase k := fun x =>
      (hmem x).trans (by rw [ahead_lruNext hlru])
    constructor
    · refine List.pairwise_cons.mpr ⟨fun x hx => ?_, hsorted⟩
      obtain ⟨hne, hx'⟩ := Finset.mem_erase.mp ((hahead x).mp hx)
      exact lt_of_le_of_ne (Finset.mem_filter.mp hx').2 hne.symm
    · intro x
      rw [List.mem_cons, hahead, Finset.mem_erase]
      by_cases hx : x = k
      · subst hx
        exact iff_of_true (Or.inl rfl) (Finset.mem_filter.mpr ⟨hcur x rfl, le_rfl⟩)
      · simp [hx]

/-! ### The rows after the walk -/

/-- **The rows after a walk.** No row enters or changes; a row that is not collectable stays;
    a collectable row of a visited key is gone; the count is that of the rows that left. -/
theorem GcWalk.rows {cur : Option LruKey} {s s' : State} {ks : List LruKey} {n : Nat}
    (h : GcWalk env liveKey cur s ks n s') :
    (∀ key row, s'.metaTbl.lookup key = some row → s.metaTbl.lookup key = some row) ∧
    (∀ key row, s.metaTbl.lookup key = some row → ¬ Collectable (key, row) liveKey →
      s'.metaTbl.lookup key = some row) ∧
    (∀ k ∈ ks, ∀ row, s'.metaTbl.lookup (ofLex k).2 = some row →
      ¬ Collectable ((ofLex k).2, row) liveKey) ∧
    n + s'.metaTbl.entries.length = s.metaTbl.entries.length := by
  induction h with
  | finish s => exact ⟨fun _ _ h => h, fun _ _ h _ => h, nofun, Nat.zero_add _⟩
  | visit k s hrest ih =>
    obtain ⟨hsub, hkeep, hgone, hcount⟩ := ih
    rcases tryEvictOne_protect env liveKey k s with
      ⟨row, size, hrow, hcol, hsize, hmeta⟩ | ⟨hno, hsize, hmeta⟩
    · rw [hmeta] at hsub hkeep hcount
      have hback : ∀ key r, (s.metaTbl.erase (ofLex k).2).lookup key = some r →
          key ≠ (ofLex k).2 ∧ s.metaTbl.lookup key = some r := by
        intro key r hr
        rw [AList.lookup_erase_ite] at hr
        split at hr
        · cases hr
        · exact ⟨‹_›, hr⟩
      refine ⟨fun key r hr => (hback key r (hsub key r hr)).2, ?_, ?_, ?_⟩
      · intro key r hr hnot
        have hne : key ≠ (ofLex k).2 := by
          rintro rfl
          rw [hrow] at hr
          exact hnot (Option.some.inj hr ▸ hcol)
        refine hkeep key r ?_ hnot
        rw [AList.lookup_erase_ite, if_neg hne]
        exact hr
      · intro x hx r hr
        rcases List.mem_cons.mp hx with rfl | hx
        · exact absurd rfl (hback _ r (hsub _ r hr)).1
        · exact hgone x hx r hr
      · have hlen := (AList.entries_perm_of_lookup hrow).length_eq
        rw [List.length_cons] at hlen
        rw [hsize, Option.toList_some, List.length_singleton]
        omega
    · rw [hmeta] at hsub hkeep hcount
      refine ⟨hsub, hkeep, ?_, ?_⟩
      · intro x hx r hr
        rcases List.mem_cons.mp hx with rfl | hx
        · exact hno r (hsub _ r hr)
        · exact hgone x hx r hr
      · rw [hsize]
        simpa using hcount

/-! ### Every available row has its entry -/

/-- Every available row has its entry in the LRU table. -/
def LruCovers (v : View) : Prop :=
  v.AvailableRows fun key row => toLex (row.lastUsed, key) ∈ v.lru

/-- The entries of other keys survive when an entry of one key leaves. -/
theorem mem_erase_of_ne {t : Finset LruKey} {k : LruKey} {u : Int} {key : CacheKey}
    (hne : key ≠ (ofLex k).2) (h : toLex (u, key) ∈ t) : toLex (u, key) ∈ t.erase k := by
  refine Finset.mem_erase.mpr ⟨?_, h⟩
  rintro rfl
  exact hne rfl

/-- A message keeps every available row in the LRU table. -/
theorem View.Move.lruCovers {msg : Msg} {v v' : View} (h : LruCovers v)
    (hm : View.Move msg v v') : LruCovers v' := by
  cases hm with
  | delete o ho => exact h
  | count key n =>
    refine View.AvailableRows.of_update h key rfl (fun _ _ _ hk => hk) fun row hrow hav => ?_
    obtain ⟨r, hr, rfl⟩ := Option.map_eq_some_iff.mp hrow
    exact h key r hr hav
  | checkout key r t hr hav =>
    refine View.AvailableRows.of_update h key rfl (fun k row hne hk => ?_) fun row hrow _ => ?_
    · exact Finset.mem_insert_of_mem (mem_erase_of_ne hne hk)
    · rw [← Option.some.inj hrow]
      exact Finset.mem_insert_self _ _
  | publish key r hpub hav hloc =>
    refine View.AvailableRows.of_update h key rfl (fun k row hne hk => ?_) fun row hrow _ => ?_
    · refine Finset.mem_insert_of_mem ?_
      unfold View.lruWithout
      split
      · exact mem_erase_of_ne hne hk
      · exact hk
    · rw [← Option.some.inj hrow]
      exact Finset.mem_insert_self _ _
  | remove key => exact View.AvailableRows.of_removed h key rfl fun _ _ _ hk => hk
  | reserve key r hr =>
    refine View.AvailableRows.of_update h key rfl (fun _ _ _ hk => hk) fun row hrow hav => ?_
    rw [← Option.some.inj hrow, hr] at hav
    cases hav
  | evict lruKey =>
    exact View.AvailableRows.of_removed h (ofLex lruKey).2 rfl
      fun k row hne hk => mem_erase_of_ne hne hk
  | pin ns key hpin =>
    have hlru : (v.pin ns key).lru = v.lru := by
      unfold View.pin
      split
      · rfl
      · split <;> rfl
    refine View.AvailableRows.of_pin h ns key fun k r b hk => ?_
    rw [hlru]
    exact hk
  | expire key frm hexp hw => exact h

/-- **The LRU table covers the available rows** in every reachable state, whatever stale
    entries it holds besides. -/
theorem run_lruCovers (deps : Deps) (files : Files) (es : List Event) :
    LruCovers (run (step deps) (State.init files) es).view := by
  have hinit : LruCovers (State.init files).view := .init _ files
  refine AllSteps.invariant (P := fun _ _ => True) (I := fun s : State => LruCovers s.view)
    (fun s e h _ => ?_) hinit (.of_forall (fun _ _ => trivial) _ es)
  obtain ⟨v, hmoves, hends⟩ := step_moves deps s e
  have hv : LruCovers v := hmoves.keeps (fun v v' hv hm => hm.lruCovers hv) h
  unfold LruCovers View.AvailableRows
  rw [hends.rows.1, hends.rows.2.1]
  exact hv

/-! ### Every reachable state -/

/-- **Full GC is exact.** From every reachable state the walk terminates and visits every entry
    of the LRU table once, so also the entry of every available row; the available rows that
    remain are, unchanged, those that were held, pinned or live; no other row changes; and the
    reply is the number of rows that left. -/
theorem gc_exact (deps : Deps) (files : Files) (es : List Event) (env : Env) (frm : From) :
    ∃ s s' s₁ ks n, s = run (step deps) (State.init files) es ∧
      s' = run (step deps) (State.init files) (es ++ [⟨env, frm, .gc⟩]) ∧
      GcWalk env s.liveKey (lruFirst s.lru) s.startCallback ks n s₁ ∧
      s' = s₁.emit (.reply frm (.evicted n)) ∧
      (ks.Pairwise (· < ·) ∧ ∀ k, k ∈ ks ↔ k ∈ s.lru) ∧
      (∀ key row, s.metaTbl.lookup key = some row → row.status = .available →
        toLex (row.lastUsed, key) ∈ ks) ∧
      (∀ key row, (s'.metaTbl.lookup key = some row ∧ row.status = .available) ↔
        s.metaTbl.lookup key = some row ∧ row.status = .available ∧
          (0 < row.refcount ∨ Protected (key, row) s.liveKey)) ∧
      (∀ key row, row.status ≠ .available →
        (s'.metaTbl.lookup key = some row ↔ s.metaTbl.lookup key = some row)) ∧
      n + s'.metaTbl.entries.length = s.metaTbl.entries.length := by
  -- Every available row has its entry in the LRU table, so the walk meets it.
  have hcovers := run_lruCovers deps files es
  rw [run_append]
  generalize run (step deps) (State.init files) es = s at hcovers ⊢
  rw [run_cons, run_nil]
  have hcur : ∀ k, lruFirst s.lru = some k → k ∈ s.lru := fun k hk => lruFirst_mem hk
  have hroom : (ahead s.startCallback.lru (lruFirst s.lru)).card < s.lru.card + 1 := by
    show (ahead s.lru (lruFirst s.lru)).card < s.lru.card + 1
    rw [ahead_lruFirst]
    omega
  obtain ⟨ks, n, hwalk, hcount⟩ := runEvictionFrom_walk env s.liveKey (s.lru.card + 1)
    (lruFirst s.lru) 0 s.startCallback hcur hroom
  set s₁ := (runEvictionFrom env (s.lru.card + 1) (lruFirst s.lru) s.liveKey 0
    s.startCallback).2 with hs₁
  obtain ⟨hsorted, hvisited⟩ := hwalk.visits hcur
  have hall : ∀ k, k ∈ ks ↔ k ∈ s.lru := fun k =>
    (hvisited k).trans (by rw [show ahead s.startCallback.lru (lruFirst s.lru) = s.lru from
      ahead_lruFirst s.lru])
  -- The walk keeps what it may not collect and counts what it does.
  obtain ⟨hsub, hkeep, hgone, hlength⟩ := hwalk.rows
  have hstep : step deps s ⟨env, frm, .gc⟩ = s₁.emit (.reply frm (.evicted n)) := by
    rw [Nat.zero_add] at hcount
    rw [← hcount]
    rfl
  have hentry : ∀ key row, s.metaTbl.lookup key = some row → row.status = .available →
      toLex (row.lastUsed, key) ∈ ks := fun key row hrow hav =>
    (hall _).mpr (hcovers key row hrow hav)
  refine ⟨s, _, s₁, ks, n, rfl, rfl, hwalk, hstep, ⟨hsorted, hall⟩, hentry, ?_, ?_, ?_⟩
  · intro key row
    rw [hstep]
    constructor
    · rintro ⟨hrow, hav⟩
      have hold := hsub key row hrow
      refine ⟨hold, hav, ?_⟩
      -- a collectable row would have been evicted at its own entry at the latest
      have hnot : ¬ Collectable (key, row) s.liveKey :=
        hgone _ (hentry key row hold hav) row hrow
      by_contra hkept
      rw [not_or] at hkept
      exact hnot ⟨hav, Nat.eq_zero_of_not_pos hkept.1, hkept.2⟩
    · rintro ⟨hrow, hav, hkept⟩
      -- the row was in the walk's way, but may not be collected
      refine ⟨hkeep key row hrow ?_, hav⟩
      rintro ⟨-, hfree, hunprot⟩
      rcases hkept with h | h
      · exact absurd hfree h.ne'
      · exact hunprot h
  · intro key row hnav
    rw [hstep]
    exact ⟨hsub key row, fun hrow => hkeep key row hrow fun hcol => hnav hcol.1⟩
  · rw [hstep]
    exact hlength

end Erllama.MetaSrv
