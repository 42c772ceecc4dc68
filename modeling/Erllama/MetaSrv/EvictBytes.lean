import Erllama.MetaSrv.View
import Erllama.MetaSrv.Index
import Erllama.Lib.Cover

namespace Erllama.MetaSrv

open Lib

/-!
# Byte-targeted eviction removes a score prefix

`run_eviction_bytes/3` takes a snapshot of the evictable rows, sorts it by score, and evicts
from the front until the target is freed; each eviction looks its row up again.

* `Ranking` — the evictable rows in score order.
* `evictSorted_eq` — no row of the snapshot is skipped, so the loop takes the shortest prefix
  that reaches the target, one `evictRow` after the other.
* `Placed` — rows lie where their tier keeps payloads, so an evicted row's payload is deleted.
* `evictBytes_removesPrefix` — every reachable state, filter, target and clock.
-/

variable {deps : Deps} {env : Env}

/-- A row with its key. -/
abbrev KeyedRow := CacheKey × Row

/-- The row is available, unheld and of a tier that may be evicted. -/
def Evictable (tiers : Option (List Tier)) (row : Row) : Prop :=
  row.status = .available ∧ row.refcount = 0 ∧ tierPred tiers row.tier = true

/-- The row is pinned or belongs to the live session. -/
def Protected (c : KeyedRow) (liveKey : Option CacheKey) : Prop :=
  c.2.pinned = true ∨ some c.1 = liveKey

/-- What eviction asks of the outside for a row's payload. -/
def payloadDeletion (key : CacheKey) : Location → List Out
  | .undefined | .ramFile none | .disk none => []
  | .ram                                    => [.deleteSlab key]
  | .ramFile (some p) | .disk (some p)      => [.deleteFile key p]

/-- The file of a location. -/
def Location.file : Location → Option Path
  | .undefined | .ram       => none
  | .ramFile p | .disk p    => p

/-- The evictable rows, each once, in score order. -/
structure Ranking (deps : Deps) (tiers : Option (List Tier)) (now : Int) (s : State)
    (C : List KeyedRow) : Prop where
  nodup : (C.map Prod.fst).Nodup
  mem : ∀ c, c ∈ C ↔ s.metaTbl.lookup c.1 = some c.2 ∧ Evictable tiers c.2
  sorted : C.Pairwise fun a b =>
    evictionScore deps a.1 a.2 s.liveKey now ≤ evictionScore deps b.1 b.2 s.liveKey now

/-- The slab or file of the row was deleted, and the file is gone unless its deletion fails. -/
def PayloadDeleted (env : Env) (s' : State) (c : KeyedRow) : Prop :=
  (∀ o ∈ payloadDeletion c.1 c.2.location, o ∈ s'.out) ∧
    ∀ p, c.2.location.file = some p → env.fails .delete p = false → s'.files p = none

/-- The rows `removed` and no others have left: the shortest prefix of the ranking that frees
    the target, so no protected row goes while an unprotected one stays. -/
structure RemovesPrefix (deps : Deps) (env : Env) (tiers : Option (List Tier)) (target : Nat)
    (s s' : State) (C removed : List KeyedRow) : Prop where
  ranking : Ranking deps tiers (env.monotonicNs s.reads) s C
  cover : ShortestCover (fun c => c.2.size) target C removed
  rows : ∀ key, s'.metaTbl.lookup key =
    if key ∈ removed.map Prod.fst then none else s.metaTbl.lookup key
  protectedLast : ∀ c ∈ removed, Protected c s.liveKey →
    ∀ c' ∈ C, ¬ Protected c' s.liveKey → c' ∈ removed

/-! ### One row -/

variable (env) in
/-- One row leaves with its payload and its LRU entry. -/
def evictRow (s : State) (c : KeyedRow) : State :=
  { (deleteFromTier env c.2.tier c.1 c.2.location s).deleteRow c.1 with
    lru := (deleteFromTier env c.2.tier c.1 c.2.location s).lru.erase
      (toLex (c.2.lastUsed, c.1)) }

/-- An available, unheld row that the mode lets go is evicted. -/
theorem tryEvictOne_evicts {s : State} {key : CacheKey} {row : Row} {mode : EvictMode}
    {liveKey : Option CacheKey} (lruKey : LruKey) (hrow : s.metaTbl.lookup key = some row)
    (hav : row.status = .available) (hfree : row.refcount = 0)
    (hmode : evictableUnder mode row key liveKey = true) :
    tryEvictOne env lruKey key liveKey mode s =
      (some row.size,
        { (deleteFromTier env row.tier key row.location s).deleteRow key with
          lru := (deleteFromTier env row.tier key row.location s).lru.erase lruKey }) := by
  unfold tryEvictOne
  rw [hrow]
  exact if_pos ⟨hav, hfree, hmode⟩

/-- An evicted row is gone. -/
theorem metaTbl_evictRow (s : State) (c : KeyedRow) :
    (evictRow env s c).metaTbl = s.metaTbl.erase c.1 := by
  obtain ⟨hmeta, -⟩ := deleteFromTier_frame env c.2.tier c.1 c.2.location s
  unfold evictRow
  dsimp only
  rw [metaTbl_deleteRow, hmeta]

/-- The others are found as before. -/
theorem lookup_evictRow (s : State) (c : KeyedRow) (key : CacheKey) :
    (evictRow env s c).metaTbl.lookup key = if key = c.1 then none else s.metaTbl.lookup key := by
  rw [metaTbl_evictRow, AList.lookup_erase_ite]

/-- The effects and files of deleting a payload that lies where its tier keeps it. -/
theorem deleteFromTier_fits (env : Env) {tier : Tier} {loc : Location} (h : loc.Fits tier)
    (key : CacheKey) (s : State) :
    (deleteFromTier env tier key loc s).out = s.out ++ payloadDeletion key loc ∧
      ∀ p, loc.file = some p → env.fails .delete p = false →
        (deleteFromTier env tier key loc s).files p = none := by
  have hfile : ∀ path : Option Path, ∀ p, path = some p → env.fails .delete p = false →
      (deleteFile env key path s).files p = none := by
    rintro - p rfl hworks
    simp [deleteFile, State.emit, hworks]
  cases loc with
  | undefined => cases tier <;> exact h.elim
  | ram =>
    cases tier with
    | ram => exact ⟨rfl, fun p hp => by cases hp⟩
    | _   => exact h.elim
  | ramFile path =>
    cases tier with
    | ramFile =>
      refine ⟨?_, hfile path⟩
      cases path with
      | none   => exact (List.append_nil _).symm
      | some p => rfl
    | _ => exact h.elim
  | disk path =>
    cases tier with
    | disk =>
      refine ⟨?_, hfile path⟩
      cases path with
      | none   => exact (List.append_nil _).symm
      | some p => rfl
    | _ => exact h.elim

/-- Deleting a payload takes files away only. -/
theorem deleteFromTier_grows (env : Env) (tier : Tier) (key : CacheKey) (loc : Location)
    (s : State) :
    (∀ o ∈ s.out, o ∈ (deleteFromTier env tier key loc s).out) ∧
      ∀ p, s.files p = none → (deleteFromTier env tier key loc s).files p = none := by
  have hfile : ∀ path : Option Path, (∀ o ∈ s.out, o ∈ (deleteFile env key path s).out) ∧
      ∀ p, s.files p = none → (deleteFile env key path s).files p = none := by
    intro path
    cases path with
    | none => exact ⟨fun _ h => h, fun _ h => h⟩
    | some q =>
      refine ⟨fun o ho => List.mem_append_left _ ho, fun p hp => ?_⟩
      simp only [deleteFile, State.emit]
      split
      · exact hp
      · rw [Function.update_apply]
        split
        · rfl
        · exact hp
  unfold deleteFromTier
  split
  · exact ⟨fun o ho => List.mem_append_left _ ho, fun _ h => h⟩
  · exact hfile _
  · exact hfile _
  · exact ⟨fun _ h => h, fun _ h => h⟩

/-! ### Several rows -/

/-- The same for several. -/
theorem lookup_foldl_evictRow (l : List KeyedRow) (s : State) (key : CacheKey) :
    (l.foldl (evictRow env) s).metaTbl.lookup key =
      if key ∈ l.map Prod.fst then none else s.metaTbl.lookup key := by
  induction l generalizing s with
  | nil => rfl
  | cons c l ih =>
    rw [List.foldl_cons, ih, lookup_evictRow]
    rw [List.map_cons]
    by_cases hkey : key = c.1
    · simp only [hkey, List.mem_cons, true_or, ↓reduceIte, ite_self]
    · simp only [hkey, List.mem_cons, false_or, ↓reduceIte]

/-- Evicting takes no message back and restores no file. -/
theorem foldl_evictRow_grows (env : Env) (l : List KeyedRow) (s : State) :
    (∀ o ∈ s.out, o ∈ (l.foldl (evictRow env) s).out) ∧
      ∀ p, s.files p = none → (l.foldl (evictRow env) s).files p = none := by
  induction l generalizing s with
  | nil => exact ⟨fun _ h => h, fun _ h => h⟩
  | cons c l ih =>
    obtain ⟨hout, hfiles⟩ := deleteFromTier_grows env c.2.tier c.1 c.2.location s
    obtain ⟨hout', hfiles'⟩ := ih (evictRow env s c)
    exact ⟨fun o ho => hout' o (hout o ho), fun p hp => hfiles' p (hfiles p hp)⟩

/-- Every row that leaves takes its payload with it. -/
theorem foldl_evictRow_deletes (env : Env) {l : List KeyedRow} {c : KeyedRow} (hc : c ∈ l)
    (hfits : c.2.location.Fits c.2.tier) (s : State) :
    PayloadDeleted env (l.foldl (evictRow env) s) c := by
  induction l generalizing s with
  | nil => cases hc
  | cons d l ih =>
    rcases List.mem_cons.mp hc with rfl | htail
    · obtain ⟨hout, hfiles⟩ := deleteFromTier_fits env hfits c.1 s
      obtain ⟨hgrows, hgone⟩ := foldl_evictRow_grows env l (evictRow env s c)
      refine ⟨fun o ho => hgrows o ?_, fun p hp hworks => hgone p (hfiles p hp hworks)⟩
      show o ∈ (deleteFromTier env c.2.tier c.1 c.2.location s).out
      rw [hout]
      exact List.mem_append_right _ ho
    · exact ih htail (evictRow env s d)

/-! ### The loop -/

/-- The candidate of a row. -/
def candidateOf (deps : Deps) (liveKey : Option CacheKey) (now : Int) (c : KeyedRow) :
    Candidate where
  score := evictionScore deps c.1 c.2 liveKey now
  key := c.1
  lruKey := toLex (c.2.lastUsed, c.1)

/-- **The loop takes the shortest prefix that frees the target.** No candidate is skipped:
    its row is still the one of the snapshot, since only rows of other keys have left. -/
theorem evictSorted_eq (deps : Deps) (env : Env) (liveKey : Option CacheKey) (now : Int)
    {target : Nat} (ht : 0 < target) (C : List KeyedRow) (n bytes : Nat) (s : State)
    (hnodup : (C.map Prod.fst).Nodup)
    (hC : ∀ c ∈ C, s.metaTbl.lookup c.1 = some c.2 ∧ c.2.status = .available ∧
      c.2.refcount = 0) :
    evictSorted env (C.map (candidateOf deps liveKey now)) target n bytes s =
      ((n + (shortestCover (fun c => c.2.size) (target - bytes) C).length,
        bytes + ((shortestCover (fun c => c.2.size) (target - bytes) C).map fun c =>
          c.2.size).sum),
        (shortestCover (fun c => c.2.size) (target - bytes) C).foldl (evictRow env) s) := by
  induction C generalizing n bytes s with
  | nil => rfl
  | cons c C ih =>
    obtain ⟨hrow, hav, hfree⟩ := hC c List.mem_cons_self
    rw [List.map_cons, List.nodup_cons] at hnodup
    rw [List.map_cons]
    unfold evictSorted shortestCover
    by_cases hdone : target ≤ bytes
    · have hzero : target - bytes = 0 := by omega
      rw [if_pos ⟨hdone, ht⟩, if_pos hzero]
      rfl
    · have hpos : target - bytes ≠ 0 := by omega
      rw [if_neg (fun h => hdone h.1), if_neg hpos]
      have hone : tryEvictOne env (candidateOf deps liveKey now c).lruKey
          (candidateOf deps liveKey now c).key none .allow s = (some c.2.size, evictRow env s c) :=
        tryEvictOne_evicts _ hrow hav hfree rfl
      rw [hone]
      dsimp only
      rw [ih (n + 1) (bytes + c.2.size) (evictRow env s c) hnodup.2 ?_, Nat.sub_sub]
      · simp only [List.length_cons, List.map_cons, List.sum_cons, List.foldl_cons]
        congr 2 <;> omega
      · intro c' hc'
        have hne : c'.1 ≠ c.1 := fun h => hnodup.1 (h ▸ List.mem_map_of_mem hc')
        rw [lookup_evictRow, if_neg hne]
        exact hC c' (List.mem_cons_of_mem c hc')

/-! ### The ranking -/

/-- The evictable rows in the order `run_eviction_bytes/3` sorts them. -/
def ranked (deps : Deps) (tiers : Option (List Tier)) (now : Int) (s : State) : List KeyedRow :=
  (((s.metaTbl.entries.filter fun e =>
      e.2.status = .available ∧ e.2.refcount = 0 ∧ tierPred tiers e.2.tier = true).map fun e =>
    (e.1, e.2)).reverse).insertionSort fun a b =>
      evictionScore deps a.1 a.2 s.liveKey now ≤ evictionScore deps b.1 b.2 s.liveKey now

/-- The sorted candidates are those of the ranking. -/
theorem map_ranked (tiers : Option (List Tier)) (now : Int) (s : State) :
    (ranked deps tiers now s).map (candidateOf deps s.liveKey now) =
      (evictionCandidates deps tiers s.liveKey now s).insertionSort
        fun a b => a.score ≤ b.score := by
  unfold ranked
  refine (List.map_insertionSort _ (fun a b : Candidate => a.score ≤ b.score)
    (candidateOf deps s.liveKey now) _ fun _ _ _ _ => Iff.rfl).trans ?_
  simp only [evictionCandidates, List.map_reverse, List.map_map]
  rfl

/-- The list that is walked is the ranking. -/
theorem ranked_ranking (tiers : Option (List Tier)) (now : Int) (s : State) :
    Ranking deps tiers now s (ranked deps tiers now s) where
  nodup := by
    have hkeys : (s.metaTbl.entries.map Sigma.fst).Nodup := s.metaTbl.nodupKeys
    have hperm := (List.perm_insertionSort (fun a b : KeyedRow =>
      evictionScore deps a.1 a.2 s.liveKey now ≤ evictionScore deps b.1 b.2 s.liveKey now)
      ((s.metaTbl.entries.filter fun e => e.2.status = .available ∧ e.2.refcount = 0 ∧
        tierPred tiers e.2.tier = true).map fun e => (e.1, e.2)).reverse).map Prod.fst
    refine hperm.nodup_iff.mpr ?_
    rw [List.map_reverse, List.nodup_reverse, List.map_map]
    exact hkeys.sublist (List.filter_sublist.map Sigma.fst)
  mem c := by
    unfold ranked
    rw [(List.perm_insertionSort _ _).mem_iff]
    simp only [List.mem_reverse, List.mem_map, List.mem_filter, decide_eq_true_eq]
    constructor
    · rintro ⟨⟨k, row⟩, ⟨hmem, hev⟩, rfl⟩
      exact ⟨AList.mem_entries_iff.mp hmem, hev⟩
    · rintro ⟨hrow, hev⟩
      exact ⟨⟨c.1, c.2⟩, ⟨AList.mem_entries_iff.mpr hrow, hev⟩, rfl⟩
  sorted := by
    let r : KeyedRow → KeyedRow → Prop := fun a b =>
      evictionScore deps a.1 a.2 s.liveKey now ≤ evictionScore deps b.1 b.2 s.liveKey now
    have : Std.Total r := ⟨fun a b => le_total _ _⟩
    have : IsTrans KeyedRow r := ⟨fun a b c hab hbc => le_trans hab hbc⟩
    exact List.pairwise_insertionSort r _

/-- A row that scores no lower than a protected one is protected. -/
theorem protected_of_score_le {c c' : KeyedRow} {liveKey : Option CacheKey} {now : Int}
    (h : evictionScore deps c.1 c.2 liveKey now ≤ evictionScore deps c'.1 c'.2 liveKey now)
    (hc : Protected c liveKey) : Protected c' liveKey := by
  by_contra hnot
  have hrank : ¬ (1 : Nat) ≤ 0 := by omega
  have hone : (c.2.pinned || decide (some c.1 = liveKey)) = true := by
    rcases hc with h | h <;> simp [h]
  have hzero : (c'.2.pinned || decide (some c'.1 = liveKey)) = false := by
    simpa [Protected, not_or] using hnot
  have hle : (if (c.2.pinned || decide (some c.1 = liveKey)) then 1 else 0 : Nat) ≤
      if (c'.2.pinned || decide (some c'.1 = liveKey)) then 1 else 0 :=
    Prod.Lex.monotone_fst _ _ h
  rw [hone, hzero] at hle
  exact hrank hle

/-! ### Where payloads lie -/

/-- What the message registers lies where its tier keeps payloads. -/
def Msg.Places (msg : Msg) : Prop := ∀ tier loc, msg.Inserts tier loc → loc.Fits tier

/-- Available rows lie where their tier keeps payloads. -/
def Placed (v : View) : Prop := v.AvailableRows fun _ row => row.location.Fits row.tier

/-- A message keeps every row in its place. -/
theorem View.Move.placed {msg : Msg} (hmsg : msg.Places) {v v' : View} (h : Placed v)
    (hm : View.Move msg v v') : Placed v' := by
  have hkeep : ∀ {k key : CacheKey} {row : Row}, k ≠ key → row.location.Fits row.tier →
      row.location.Fits row.tier := fun _ h => h
  cases hm with
  | delete o ho => exact h
  | count key n =>
    refine View.AvailableRows.of_update h key rfl (fun _ _ => hkeep) fun row hrow hav => ?_
    obtain ⟨r, hr, rfl⟩ := Option.map_eq_some_iff.mp hrow
    exact h key r hr hav
  | checkout key r t hr hav =>
    refine View.AvailableRows.of_update h key rfl (fun _ _ => hkeep) fun row hrow _ => ?_
    rw [← Option.some.inj hrow]
    exact h key r hr hav
  | publish key r hpub hav hloc =>
    refine View.AvailableRows.of_update h key rfl (fun _ _ => hkeep) fun row hrow _ => ?_
    rw [← Option.some.inj hrow]
    exact hloc.elim id (hmsg _ _)
  | remove key => exact View.AvailableRows.of_removed h key rfl fun _ _ => hkeep
  | reserve key r hr =>
    refine View.AvailableRows.of_update h key rfl (fun _ _ => hkeep) fun row hrow hav => ?_
    rw [← Option.some.inj hrow, hr] at hav
    cases hav
  | evict lruKey =>
    exact View.AvailableRows.of_removed h (ofLex lruKey).2 rfl fun _ _ => hkeep
  -- pin flags do not move a row
  | pin ns key hpin => exact View.AvailableRows.of_pin h ns key fun _ _ _ hk => hk
  | expire key frm hexp hw => exact h

/-- If whatever is registered lies where its tier keeps payloads, every available row does. -/
theorem run_placed (deps : Deps) (files : Files) (es : List Event) (hes : ∀ e ∈ es, e.msg.Places) :
    Placed (run (step deps) (State.init files) es).view := by
  have hinit : Placed (State.init files).view := .init _ files
  refine AllSteps.invariant (I := fun s : State => Placed s.view) (fun s e h he => ?_) hinit
    (AllSteps.of_mem hes)
  obtain ⟨v, hmoves, hends⟩ := step_moves deps s e
  have hv : Placed v := hmoves.keeps (fun v v' hv hm => hm.placed he hv) h
  unfold Placed View.AvailableRows
  rw [hends.rows.1]
  exact hv

/-! ### Whole runs -/

/-- What a byte-targeted eviction does to any state. -/
theorem step_evictBytes (deps : Deps) (env : Env) (frm : From) {target : Nat} (ht : 0 < target)
    (tiers : Option (List Tier)) (s : State) :
    step deps s ⟨env, frm, .evictBytes target tiers⟩ =
      ((shortestCover (fun c : KeyedRow => c.2.size) target
        (ranked deps tiers (env.monotonicNs s.reads) s)).foldl (evictRow env)
          s.startCallback.readClock).emit
        (.reply frm (.evictedBytes
          (shortestCover (fun c : KeyedRow => c.2.size) target
            (ranked deps tiers (env.monotonicNs s.reads) s)).length
          ((shortestCover (fun c : KeyedRow => c.2.size) target
            (ranked deps tiers (env.monotonicNs s.reads) s)).map fun c => c.2.size).sum)) := by
  set s0 := s.startCallback.readClock with hs0
  set now := env.monotonicNs s.reads with hnow
  have hranking : Ranking deps tiers now s (ranked deps tiers now s) := ranked_ranking tiers now s
  set C := ranked deps tiers now s with hC
  have hloop := evictSorted_eq deps env s.liveKey now ht C 0 0 s0
    hranking.nodup fun c hc => by
      obtain ⟨hrow, hav, hfree, -⟩ := (hranking.mem c).mp hc
      exact ⟨hrow, hav, hfree⟩
  rw [Nat.sub_zero, Nat.zero_add, Nat.zero_add] at hloop
  set removed := shortestCover (fun c : KeyedRow => c.2.size) target C with hremoved
  have hrun : runEvictionBytes deps env target tiers s.liveKey s.startCallback =
      ((removed.length, (removed.map fun c => c.2.size).sum),
        removed.foldl (evictRow env) s0) := by
    rw [← hloop, hC, map_ranked]
    rfl
  have hne : target ≠ 0 := by omega
  simp only [step, if_neg hne]
  rw [show s.startCallback.liveKey = s.liveKey from rfl, hrun]

/-- **Byte-targeted eviction removes exactly a score prefix.** In every reachable state, for
    every filter, positive target and clock, the rows that leave are the shortest prefix of
    the ranking that frees the target; the reply counts them and their bytes. -/
theorem evictBytes_removesPrefix (deps : Deps) (files : Files) (es : List Event) (env : Env)
    (frm : From) {target : Nat} (ht : 0 < target) (tiers : Option (List Tier)) :
    ∃ C removed,
      RemovesPrefix deps env tiers target (run (step deps) (State.init files) es)
        (run (step deps) (State.init files) (es ++ [⟨env, frm, .evictBytes target tiers⟩]))
        C removed ∧
      (run (step deps) (State.init files)
        (es ++ [⟨env, frm, .evictBytes target tiers⟩])).answer =
        some (.evictedBytes removed.length (removed.map fun c => c.2.size).sum) ∧
      ((∀ e ∈ es, e.msg.Places) → ∀ c ∈ removed, PayloadDeleted env
        (run (step deps) (State.init files) (es ++ [⟨env, frm, .evictBytes target tiers⟩])) c) := by
  have hplaced := run_placed deps files es
  rw [run_append]
  generalize run (step deps) (State.init files) es = s at hplaced ⊢
  rw [run_cons, run_nil]
  have hstep := step_evictBytes deps env frm ht tiers s
  set now := env.monotonicNs s.reads with hnow
  have hranking : Ranking deps tiers now s (ranked deps tiers now s) := ranked_ranking tiers now s
  set C := ranked deps tiers now s with hC
  have hcover := shortestCover_spec (fun c : KeyedRow => c.2.size) target C
  set removed := shortestCover (fun c : KeyedRow => c.2.size) target C with hremoved
  refine ⟨C, removed, ⟨hranking, hcover, ?_, ?_⟩, ?_, ?_⟩
  · intro key
    rw [hstep]
    exact lookup_foldl_evictRow removed s.startCallback.readClock key
  · intro c hc hprot c' hc' hunprot
    by_contra hnot
    exact hunprot (protected_of_score_le
      (rel_of_prefix_mem hranking.sorted hcover.isPrefix hc hc' hnot) hprot)
  · rw [hstep, answer_emit]
  · intro hes c hc
    obtain ⟨hrow, hav, -, -⟩ := (hranking.mem c).mp (hcover.isPrefix.subset hc)
    obtain ⟨hout, hfiles⟩ := foldl_evictRow_deletes env hc
      (hplaced hes c.1 c.2 hrow hav) s.startCallback.readClock
    rw [hstep]
    exact ⟨fun o ho => List.mem_append_left _ (hout o ho), hfiles⟩

/-- Two slabs of 100 bytes, the first of them pinned. -/
def pinnedAndCold : List Event :=
  [⟨steadyEnv, 0, .insertAvailable (.fill 1) .ram 100 [] .ram none 0⟩,
   ⟨steadyEnv, 0, .insertAvailable (.fill 2) .ram 100 [] .ram none 0⟩,
   ⟨steadyEnv, 0, .pinRow (.fill 9) (.fill 1)⟩]

/-- 150 bytes need both: the unpinned row goes first, the pinned one as a last resort. -/
theorem pinnedAndCold_removesPrefix :
    ∃ C removed,
      RemovesPrefix noFileDeps steadyEnv none 150
        (run (step noFileDeps) (State.init fun _ => none) pinnedAndCold)
        (run (step noFileDeps) (State.init fun _ => none)
          (pinnedAndCold ++ [⟨steadyEnv, 0, .evictBytes 150 none⟩])) C removed ∧
      (run (step noFileDeps) (State.init fun _ => none)
        (pinnedAndCold ++ [⟨steadyEnv, 0, .evictBytes 150 none⟩])).answer =
        some (.evictedBytes removed.length (removed.map fun c => c.2.size).sum) := by
  obtain ⟨C, removed, hremoves, hanswer, -⟩ := evictBytes_removesPrefix noFileDeps
    (fun _ => none) pinnedAndCold steadyEnv 0 (show 0 < 150 by decide) none
  exact ⟨C, removed, hremoves, hanswer⟩

example : (run (step noFileDeps) (State.init fun _ => none)
    (pinnedAndCold ++ [⟨steadyEnv, 0, .evictBytes 150 none⟩])).answer =
      some (.evictedBytes 2 200) := by decide +kernel

end Erllama.MetaSrv
